/-
  Core/Script.lean --- what a source puts on the wire, as data.

  A sink call that passes the size checks writes one record: a data frame and, for
  a chunk, its raw payload.  A source that finishes writes a `Script`: the plan,
  the records of its sink calls, `StreamEnd` being the last of them, and `Done`.

  This file says what each sink call writes (`wp_sinkCall`), and what a whole
  `stream_out` writes over a reliable stream (`wp_perform`): the records of some
  calls that passed the checks (`Shaped`), cut off only where the peer went away.
-/
import RustBackup.Core.Channel
import RustBackup.Io.Orderly

set_option autoImplicit false

namespace RustBackup.Core

open RustBackup.Serde RustBackup.Io

/-! ## Sink calls -/

namespace SinkCall

/-- The frame a call writes. -/
def frame (d : Deps) : SinkCall → DataFrame
  | .sendChunk itemId offset data =>
      .chunkStart itemId offset (UInt32.ofNat data.length) (d.blake3Hex data)
  | .finishItem itemId total blake3 => .itemEnd itemId total blake3
  | .finish => .streamEnd

/-- The raw bytes after the frame. -/
def payload : SinkCall → Bytes
  | .sendChunk _ _ data => data
  | .finishItem _ _ _ => []
  | .finish => []

/-- The call passes the size checks. -/
def Fits (d : Deps) (c : SinkCall) : Prop :=
  c.payload.length ≤ CHUNK_SIZE ∧ Core.Fits d (c.frame d)

instance (d : Deps) (c : SinkCall) : Decidable (c.Fits d) :=
  inferInstanceAs (Decidable (_ ∧ _))

/-- The record a call writes. -/
def bytes (d : Deps) (c : SinkCall) : Bytes := frameBytes d (c.frame d) ++ c.payload

/-- What a successful call does to the counters. -/
def counted : SinkCall → Progress → Progress
  | .sendChunk _ _ data, p => p.addBytes (UInt64.ofNat data.length)
  | .finishItem _ _ _, p => p.itemDone
  | .finish, p => p

/-- The counters after a call that returned `r`. -/
def after (c : SinkCall) (p : Progress) : Result Unit → Progress
  | .ok _ => c.counted p
  | .error _ => p

end SinkCall

/-- The records of some calls. -/
def wire (d : Deps) (cs : List SinkCall) : Bytes := cs.flatMap (SinkCall.bytes d)

theorem wire_append (d : Deps) (cs cs' : List SinkCall) :
    wire d (cs ++ cs') = wire d cs ++ wire d cs' := by
  simp [wire]

theorem wire_cons (d : Deps) (c : SinkCall) (cs : List SinkCall) :
    wire d (c :: cs) = c.bytes d ++ wire d cs := by
  simp [wire]

theorem wire_concat (d : Deps) (cs : List SinkCall) (c : SinkCall) :
    wire d (cs ++ [c]) = wire d cs ++ c.bytes d := by
  simp [wire]

theorem bytes_ne_nil (d : Deps) (c : SinkCall) : c.bytes d ≠ [] := by
  intro h
  have := congrArg List.length h
  rw [SinkCall.bytes, List.length_append, length_frameBytes] at this
  simp at this

/-- A source's whole output: the plan, some records and the total of the
completion frame, if that is part of it. -/
structure Script where
  plan : BackupPlan
  calls : List SinkCall
  total : Option UInt64

namespace Script

/-- The completion frame. -/
def closing (d : Deps) (s : Script) : Bytes :=
  match s.total with
  | some n => frameBytes d (ControlFrame.done n "")
  | none => []

def bytes (d : Deps) (s : Script) : Bytes :=
  frameBytes d (ControlFrame.plan s.plan) ++ (wire d s.calls ++ s.closing d)

/-- Every frame of the script passed the size check. -/
structure Fits (d : Deps) (s : Script) : Prop where
  plan : Core.Fits d (ControlFrame.plan s.plan)
  calls : ∀ c ∈ s.calls, c.Fits d

end Script

/-! ## The closing frames always fit -/

theorem fits_of_size {F : Type} [Frame F] {d : Deps} {frame : F}
    (hexact : (Frame.serialize frame).Exact) (hsize : (Frame.serialize frame).size ≤ 10000) :
    Core.Fits d frame := by
  have := d.json.length_print _ hexact
  show (d.json.print (Frame.serialize frame)).length ≤ FRAME_LIMIT
  have hlim : 10000 ≤ FRAME_LIMIT := by decide
  omega

theorem SinkCall.fits_of_size {d : Deps} {c : SinkCall} (hlen : c.payload.length ≤ CHUNK_SIZE)
    (hsize : (Frame.serialize (c.frame d)).size ≤ 10000) : c.Fits d :=
  ⟨hlen, Core.fits_of_size (c.frame d).plain_serialize.1 hsize⟩

theorem fits_streamEnd (d : Deps) : Core.Fits d DataFrame.streamEnd :=
  fits_of_size DataFrame.streamEnd.plain_serialize.1 (by decide)

theorem fits_done (d : Deps) (n : UInt64) : Core.Fits d (ControlFrame.done n "") :=
  fits_of_size (plain_done n "").1 (by
    show Json.size (.obj [("Done", .obj [("total_bytes", .int _), ("blake3", .str "")])]) ≤ 10000
    simp only [Json.size, Json.sizeFields]
    decide)

theorem fits_finish (d : Deps) : SinkCall.finish.Fits d :=
  ⟨Nat.zero_le _, fits_streamEnd d⟩

/-! ## Smooth histories -/

/-- A history over a reliable stream on which flushing works. -/
structure Smooth (t : Hist Call Call.Reply) : Prop where
  orderly : Orderly t
  flush : ∀ r, Act.call .flush r ∈ t → r = true

theorem Smooth.left {t t' : Hist Call Call.Reply} (h : Smooth (t ++ t')) : Smooth t :=
  ⟨h.orderly.left, fun r hr => h.flush r (List.mem_append_left t' hr)⟩

theorem Smooth.right {t t' : Hist Call Call.Reply} (h : Smooth (t ++ t')) : Smooth t' := by
  refine ⟨⟨fun a ha => h.orderly.calm a (List.mem_append_right t ha), ?_, ?_⟩,
    fun r hr => h.flush r (List.mem_append_right t hr)⟩
  · intro t₁ t₂ heq
    exact h.orderly.eof (t ++ t₁) t₂ (by rw [heq, List.append_assoc])
  · intro t₁ t₂ bs heq
    exact h.orderly.broken (t ++ t₁) t₂ bs (by rw [heq, List.append_assoc])

/-- The peer has gone away. -/
def Broken (t : Hist Call Call.Reply) : Prop := ∃ bs, Act.send bs .fault ∈ t

theorem Broken.append_left {t : Hist Call Call.Reply} (h : Broken t)
    (t' : Hist Call Call.Reply) : Broken (t ++ t') := by
  obtain ⟨bs, hbs⟩ := h
  exact ⟨bs, List.mem_append_left t' hbs⟩

/-- Over a reliable stream a send fails only because the peer has gone away. -/
theorem Failing.broken {t : Hist Call Call.Reply} {a : Act Call Call.Reply} (ha : Failing a)
    (hs : Smooth (t ++ [a])) : Broken (t ++ [a]) ∧ ∃ buf r, a = .send buf r := by
  cases ha with
  | @send buf r hr =>
    refine ⟨?_, buf, r, rfl⟩
    have hcalm := hs.orderly.calm (.send buf r) (by simp)
    cases r with
    | wrote n =>
      have h0 : n = 0 := hr
      have hpos : 0 < n := hcalm
      omega
    | timeout => exact hcalm.elim
    | fault => exact ⟨buf, by simp⟩
  | flush => exact absurd (hs.flush false (by simp)) (by simp)

/-! ## Calls that say nothing about the session's progress -/

/-- Flushing, and the record of single sink and source calls. -/
def quiet (c : Sigma Call.Reply) : Bool :=
  match c.1 with
  | .flush => true
  | .mark (.sink _ _) => true
  | .mark (.next _) => true
  | _ => false

/-- The other calls of a history. -/
def notes (h : Hist Call Call.Reply) : Calls Call Call.Reply :=
  h.calls.filter fun c => !quiet c

@[simp] theorem notes_nil : notes [] = [] := rfl

@[simp] theorem notes_append (h h' : Hist Call Call.Reply) :
    notes (h ++ h') = notes h ++ notes h' := by
  simp [notes]

theorem notes_eq_nil {t : Hist Call Call.Reply} (h : ∀ c ∈ t.calls, quiet c = true) :
    notes t = [] := by
  rw [notes, List.filter_eq_nil_iff]
  intro c hc
  simp [h c hc]

theorem mem_calls_concat (h : Hist Call Call.Reply) (e : Call) (r : e.Reply) :
    (⟨e, r⟩ : Sigma Call.Reply) ∈ Hist.calls (h ++ [.call e r]) := by
  rw [Hist.calls_append, Hist.calls_call]
  exact List.mem_append_right _ (List.mem_singleton_self _)

theorem mem_calls {h : Hist Call Call.Reply} {e : Call} {r : e.Reply}
    (hmem : Act.call e r ∈ h) : (⟨e, r⟩ : Sigma Call.Reply) ∈ h.calls :=
  List.mem_filterMap.mpr ⟨_, hmem, rfl⟩

theorem mem_calls_of_mem_notes {h : Hist Call Call.Reply} {c : Sigma Call.Reply}
    (hc : c ∈ notes h) : c ∈ h.calls := (List.mem_filter.mp hc).1

theorem mem_notes {h : Hist Call Call.Reply} {c : Sigma Call.Reply} (hc : c ∈ h.calls)
    (hq : quiet c = false) : c ∈ notes h :=
  List.mem_filter.mpr ⟨hc, by simp [hq]⟩

theorem Emits.notes {t : Hist Call Call.Reply} {o : Bytes} (h : Emits t o) : notes t = [] := by
  refine notes_eq_nil fun c hc => ?_
  rw [quiet, h.calls c hc]

theorem Sent.notes {fits : Prop} {b : Bytes} {t : Hist Call Call.Reply} {r : Result Unit}
    (h : Sent fits b t r) : notes t = [] := by
  cases h with
  | done _ ht => exact ht.notes
  | refused _ => rfl
  | broken _ ht _ ha _ => rw [notes_append, ht.notes, ha.emits.notes]; rfl

theorem Sent.ins {fits : Prop} {b : Bytes} {t : Hist Call Call.Reply} {r : Result Unit}
    (h : Sent fits b t r) : t.ins = [] := by
  cases h with
  | done _ ht => exact ht.ins
  | refused _ => rfl
  | broken _ ht _ ha _ => rw [Hist.ins_append, ht.ins, ha.emits.ins]; rfl

theorem notes_recvs {t : Hist Call Call.Reply} {i : Bytes} (h : Recvs t i) : notes t = [] := by
  rw [Core.notes, h.calls]
  rfl

theorem Received.notes {F : Type} [Frame F] {d : Deps} {t : Hist Call Call.Reply}
    {r : Result (Option F)} (h : Received F d t r) : notes t = [] := by
  cases h with
  | whole ht _ => exact notes_recvs ht
  | ended ht _ => rw [notes_append, notes_recvs ht]; rfl
  | cut ht _ _ => rw [notes_append, notes_recvs ht]; rfl

theorem Received.outs {F : Type} [Frame F] {d : Deps} {t : Hist Call Call.Reply}
    {r : Result (Option F)} (h : Received F d t r) : t.outs = [] := by
  cases h with
  | whole ht _ => exact ht.outs
  | ended ht _ => rw [Hist.outs_append, ht.outs]; rfl
  | cut ht _ _ => rw [Hist.outs_append, ht.outs]; rfl

/-! ## One sink call -/

section Wp

variable {I : Hist Call Call.Reply → Prop} {h : Hist Call Call.Reply}

/-- Every sink call is an attempt to send its record. -/
theorem wp_sinkCall {Q : Hist Call Call.Reply → Result Unit × Progress → Prop} {d : Deps}
    {c : SinkCall} {p : Progress}
    (hI : ∀ t o, c.Fits d → Emits t o → o <+: c.bytes d → I (h ++ t))
    (hQ : ∀ t r, Sent (c.Fits d) (c.bytes d) t r → Q (h ++ t) (r, c.after p r)) :
    Proc.wp I Q ((c.perform d).run p) h := by
  cases c with
  | sendChunk itemId offset data =>
    simp only [SinkCall.perform, sendChunk]
    by_cases hlim : CHUNK_SIZE < data.length
    · rw [if_pos hlim]
      have := hQ [] (.error (.inPhase .transfer "chunk exceeds CHUNK_SIZE"))
        (.refused fun hf => Nat.not_le.mpr hlim hf.1)
      rw [List.append_nil] at this
      exact this
    rw [if_neg hlim]
    have hlen : data.length ≤ CHUNK_SIZE := Nat.not_lt.mp hlim
    have hfits : Core.Fits d (DataFrame.chunkStart itemId offset (UInt32.ofNat data.length)
        (d.blake3Hex data)) ↔ (SinkCall.sendChunk itemId offset data).Fits d :=
      ⟨fun hf => ⟨hlen, hf⟩, fun hf => hf.2⟩
    simp only [Metered.run_bind, Metered.run_monadLift, Proc.bind_assoc, Proc.ret_bind]
    rw [Proc.wp_bind]
    refine wp_sendFrame
      (fun t o hf ht hp => hI t o (hfits.mp hf) ht (hp.trans (List.prefix_append _ _))) ?_
    intro t₁ r₁ h₁
    cases r₁ with
    | error e => exact hQ t₁ _ (h₁.extend hfits data)
    | ok _ =>
      obtain ⟨hf, ht₁⟩ := h₁.emits_of_ok
      simp only [Metered.cont_ok, Metered.run_bind, Metered.run_monadLift, Proc.bind_assoc,
        Proc.ret_bind]
      rw [Proc.wp_bind]
      refine wp_writeAllIdle ?_ ?_
      · intro t o ht hp
        rw [List.append_assoc]
        exact hI _ _ (hfits.mp hf) (ht₁.append ht) ((List.prefix_append_right_inj _).mpr hp)
      intro t₂ r₂ h₂
      have hall := h₂.prepend (hfits.mp hf) ht₁
      rw [List.append_assoc]
      cases r₂ with
      | error e => exact hQ _ _ hall
      | ok _ => exact hQ _ _ hall
  | finishItem itemId total blake3 =>
    have hfits : Core.Fits d (DataFrame.itemEnd itemId total blake3) ↔
        (SinkCall.finishItem itemId total blake3).Fits d :=
      ⟨fun hf => ⟨Nat.zero_le _, hf⟩, fun hf => hf.2⟩
    have hbytes : (SinkCall.finishItem itemId total blake3).bytes d =
        frameBytes d (DataFrame.itemEnd itemId total blake3) := List.append_nil _
    simp only [SinkCall.perform, finishItem, Metered.run_bind, Metered.run_monadLift,
      Proc.bind_assoc, Proc.ret_bind]
    rw [Proc.wp_bind]
    rw [hbytes] at hI hQ
    refine wp_sendFrame (fun t o hf => hI t o (hfits.mp hf)) ?_
    intro t r ht
    rw [propext hfits] at ht
    cases r with
    | error e => exact hQ t _ ht
    | ok _ => exact hQ t _ ht
  | finish =>
    have hfits : Core.Fits d DataFrame.streamEnd ↔ SinkCall.finish.Fits d :=
      ⟨fun hf => ⟨Nat.zero_le _, hf⟩, fun hf => hf.2⟩
    have hbytes : SinkCall.finish.bytes d = frameBytes d DataFrame.streamEnd :=
      List.append_nil _
    simp only [SinkCall.perform, finish, Metered.run_monadLift]
    rw [Proc.wp_bind]
    rw [hbytes] at hI hQ
    refine wp_sendFrame (fun t o hf => hI t o (hfits.mp hf)) ?_
    intro t r ht
    rw [propext hfits] at ht
    cases r with
    | error e => exact hQ t _ ht
    | ok _ => exact hQ t _ ht

end Wp

/-! ## A whole `stream_out` -/

/-- Every call of the stretch is quiet. -/
def AllQuiet (t : Hist Call Call.Reply) : Prop := ∀ c ∈ t.calls, quiet c = true

theorem AllQuiet.append {t t' : Hist Call Call.Reply} (h : AllQuiet t) (h' : AllQuiet t') :
    AllQuiet (t ++ t') := by
  intro c hc
  rw [Hist.calls_append] at hc
  rcases List.mem_append.mp hc with hc | hc
  · exact h c hc
  · exact h' c hc

theorem Emits.allQuiet {t : Hist Call Call.Reply} {o : Bytes} (h : Emits t o) : AllQuiet t := by
  intro c hc
  rw [quiet, h.calls c hc]

theorem Sent.allQuiet {fits : Prop} {b : Bytes} {t : Hist Call Call.Reply} {r : Result Unit}
    (h : Sent fits b t r) : AllQuiet t := by
  cases h with
  | done _ ht => exact ht.allQuiet
  | refused _ => intro c hc; simp at hc
  | broken _ ht _ ha _ => exact ht.allQuiet.append ha.emits.allQuiet

/-- Over a reliable stream, what was sent after `b` is the records of some calls
that passed the checks, up to some byte. -/
def Partial (d : Deps) (b : Bytes) (h : Hist Call Call.Reply) : Prop :=
  Smooth h → ∃ cs : List SinkCall, (∀ c ∈ cs, c.Fits d) ∧ h.outs <+: b ++ wire d cs

/-- Between two sink calls: the records are complete unless the peer has gone
away. -/
def Shaped (d : Deps) (b : Bytes) (h : Hist Call Call.Reply) : Prop :=
  Smooth h → ∃ cs : List SinkCall, (∀ c ∈ cs, c.Fits d) ∧ h.outs <+: b ++ wire d cs ∧
    (h.outs = b ++ wire d cs ∨ Broken h)

theorem Shaped.toPartial {d : Deps} {b : Bytes} {h : Hist Call Call.Reply} (hs : Shaped d b h) :
    Partial d b h := by
  intro hsm
  obtain ⟨cs, hcs, hpre, -⟩ := hs hsm
  exact ⟨cs, hcs, hpre⟩

/-- Nothing has been sent after `b` yet. -/
theorem Shaped.init {d : Deps} {b : Bytes} {h : Hist Call Call.Reply} (hb : h.outs = b) :
    Shaped d b h := by
  intro _
  have hall : h.outs = b ++ wire d [] := by rw [hb]; exact (List.append_nil b).symm
  exact ⟨[], fun c hc => by simp at hc, by rw [hall], .inl hall⟩

/-- Nothing is sent after the peer has gone away. -/
theorem Broken.outs_eq_nil {t t' : Hist Call Call.Reply} (hb : Broken t)
    (hs : Smooth (t ++ t')) : t'.outs = [] := by
  obtain ⟨bs, hbs⟩ := hb
  exact hs.orderly.outs_eq_nil hbs

theorem fits_concat {d : Deps} {cs : List SinkCall} {c : SinkCall}
    (hcs : ∀ c ∈ cs, c.Fits d) (hf : c.Fits d) : ∀ c' ∈ cs ++ [c], c'.Fits d := by
  intro c' hc'
  rcases List.mem_append.mp hc' with hc' | hc'
  · exact hcs c' hc'
  · rw [List.mem_singleton] at hc'
    rw [hc']
    exact hf

/-- A stretch that sends nothing. -/
theorem Shaped.idle {d : Deps} {b : Bytes} {h t : Hist Call Call.Reply} (hs : Shaped d b h)
    (ht : t.outs = []) : Shaped d b (h ++ t) := by
  intro hsm
  obtain ⟨cs, hcs, hpre, hexact⟩ := hs hsm.left
  rw [Hist.outs_append, ht, List.append_nil]
  exact ⟨cs, hcs, hpre, hexact.imp id fun hb => hb.append_left _⟩

/-- Inside the next call. -/
theorem Shaped.next {d : Deps} {b : Bytes} {h t : Hist Call Call.Reply} {c : SinkCall}
    {o : Bytes} (hs : Shaped d b h) (hf : c.Fits d) (ht : Emits t o) (ho : o <+: c.bytes d) :
    Partial d b (h ++ t) := by
  intro hsm
  obtain ⟨cs, hcs, hpre, hexact⟩ := hs hsm.left
  rw [Hist.outs_append]
  rcases hexact with heq | hb
  · refine ⟨cs ++ [c], fits_concat hcs hf, ?_⟩
    rw [heq, ht.outs, wire_concat, ← List.append_assoc]
    exact (List.prefix_append_right_inj _).mpr ho
  · rw [hb.outs_eq_nil hsm, List.append_nil]
    exact ⟨cs, hcs, hpre⟩

/-- After the next call. -/
theorem Shaped.call {d : Deps} {b : Bytes} {h t : Hist Call Call.Reply} {c : SinkCall}
    {r : Result Unit} (hs : Shaped d b h) (ht : Sent (c.Fits d) (c.bytes d) t r) :
    Shaped d b (h ++ t) := by
  intro hsm
  obtain ⟨cs, hcs, hpre, hexact⟩ := hs hsm.left
  rcases hexact with heq | hb
  · cases ht with
    | done hf ht =>
      have hall : (h ++ t).outs = b ++ wire d (cs ++ [c]) := by
        rw [Hist.outs_append, heq, ht.outs, wire_concat, List.append_assoc]
      exact ⟨cs ++ [c], fits_concat hcs hf, by rw [hall], .inl hall⟩
    | refused hf =>
      rw [List.append_nil]
      exact ⟨cs, hcs, hpre, .inl heq⟩
    | broken hf ht ho ha _ =>
      refine ⟨cs ++ [c], fits_concat hcs hf, ?_, .inr ?_⟩
      · rw [Hist.outs_append, Hist.outs_append, heq, ht.outs, ha.emits.outs, List.append_nil,
          wire_concat, ← List.append_assoc]
        exact (List.prefix_append_right_inj _).mpr ho
      · rw [← List.append_assoc] at hsm ⊢
        exact (ha.broken hsm).1
  · refine ⟨cs, hcs, ?_, .inr (hb.append_left t)⟩
    rw [Hist.outs_append, hb.outs_eq_nil hsm, List.append_nil]
    exact hpre

/-- A call that succeeds shows that the peer is still there, and its record is the last. -/
theorem Shaped.exact {d : Deps} {b : Bytes} {h t : Hist Call Call.Reply} {c : SinkCall}
    (hs : Shaped d b h) (ht : Sent (c.Fits d) (c.bytes d) t (.ok ())) (hsm : Smooth (h ++ t)) :
    ∃ cs : List SinkCall, (∀ c' ∈ cs ++ [c], c'.Fits d) ∧
      (h ++ t).outs = b ++ wire d (cs ++ [c]) := by
  obtain ⟨hf, ht⟩ := ht.emits_of_ok
  obtain ⟨cs, hcs, hpre, hexact⟩ := hs hsm.left
  rcases hexact with heq | hb
  · refine ⟨cs, fits_concat hcs hf, ?_⟩
    rw [Hist.outs_append, heq, ht.outs, wire_concat, List.append_assoc]
  · have := hb.outs_eq_nil hsm
    rw [ht.outs] at this
    exact absurd this (bytes_ne_nil d c)

/-- Every `stream_out`: it reads nothing, makes no call but its sink calls, and
sends their records. -/
theorem wp_perform {I : Hist Call Call.Reply → Prop} {h t : Hist Call Call.Reply}
    {Q : Hist Call Call.Reply → Result Unit × Progress → Prop} {d : Deps} {b : Bytes}
    {prog : SinkProg} {p : Progress} (hins : t.ins = []) (hquiet : AllQuiet t)
    (hs : Shaped d b (h ++ t))
    (hI : ∀ t, t.ins = [] → AllQuiet t → Partial d b (h ++ t) → I (h ++ t))
    (hQ : ∀ t r p', t.ins = [] → AllQuiet t → Shaped d b (h ++ t) → Q (h ++ t) (r, p')) :
    Proc.wp I Q ((prog.perform d).run p) (h ++ t) := by
  induction prog generalizing t p with
  | ret r => exact hQ t r p hins hquiet hs
  | call c k ih =>
    simp only [SinkProg.perform, Metered.run_bind, Metered.run_attempt, Metered.run_monadLift,
      Core.mark, Proc.bind_assoc, Proc.ret_bind, Proc.call_bind, Metered.cont_ok]
    rw [Proc.wp_bind]
    refine wp_sinkCall ?_ ?_
    · intro t' o hf ht' ho
      have hnext := hs.next hf ht' ho
      rw [List.append_assoc] at hnext ⊢
      refine hI _ ?_ (hquiet.append ht'.allQuiet) hnext
      rw [Hist.ins_append, hins, ht'.ins]
      rfl
    · intro t' r ht'
      have hcall := hs.call ht'
      have hins' : (t ++ t').ins = [] := by
        rw [Hist.ins_append, hins, ht'.ins]
        rfl
      have hquiet' := hquiet.append ht'.allQuiet
      rw [List.append_assoc] at hcall ⊢
      refine ⟨hI _ hins' hquiet' hcall.toPartial, fun _ => ?_⟩
      have hmark := hcall.idle (t := [.call (.mark (.sink c r)) ()]) rfl
      rw [List.append_assoc] at hmark ⊢
      refine ih r ?_ (hquiet'.append ?_) hmark
      · rw [Hist.ins_append, hins']
        rfl
      · intro c' hc'
        rw [Hist.calls_call, List.mem_singleton] at hc'
        rw [hc']
        rfl

end RustBackup.Core
