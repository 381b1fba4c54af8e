/-
  Core/Delivery.lean --- what a destination is handed is what the source was given.

  The events that `next` returns are, in order, those of the successful sink calls:
  none lost, doubled, reordered or altered, in every state that a session can reach and
  for every `stream_out` and `stream_in`.  When the destination has seen the completion
  frame, they are all of them.

  The argument uses the two histories only, and that each side has read a prefix of
  what the other has written (`Joined`).  A session over one stream provides that, and
  so does any longer way between the two that keeps the bytes in order.
-/
import RustBackup.Core.Issues
import RustBackup.Core.Version

set_option autoImplicit false

namespace RustBackup.Core

open RustBackup.Serde RustBackup.Io

/-! ## Where the destination stands -/

/-- If a source's output is what arrives, `es` are events of the first records that
arrived. -/
def Seen (d : Deps) (es : List ChunkEvent) (h : Hist Call Call.Reply) : Prop :=
  Smooth h → ∀ s : Script, s.Fits d → h.ins <+: s.bytes d →
    ∃ cs : List SinkCall, cs <+: s.calls ∧ es <+: offered cs ∧
      (cs = [] ∨ frameBytes d (ControlFrame.plan s.plan) ++ wire d cs <+: h.ins)

/-- Between two `next` calls: `es` are the events of exactly the records that arrived,
and the destination stands behind them, behind all of the output, or at the end of a
shorter stream. -/
def Tally (d : Deps) (es : List ChunkEvent) (h : Hist Call Call.Reply) : Prop :=
  Smooth h → ∀ s : Script, s.Fits d → h.ins <+: s.bytes d →
    ∃ cs cs' : List SinkCall, s.calls = cs ++ cs' ∧ es = offered cs ∧
      frameBytes d (ControlFrame.plan s.plan) ++ wire d cs <+: h.ins ∧
      (h.ins = frameBytes d (ControlFrame.plan s.plan) ++ wire d cs ∨
        h.ins = s.bytes d ∨ Ended h)

section Tally

variable {d : Deps} {es : List ChunkEvent} {h t : Hist Call Call.Reply}

theorem Seen.nil (h : Hist Call Call.Reply) : Seen d [] h :=
  fun _ _ _ _ => ⟨[], List.nil_prefix, List.nil_prefix, .inl rfl⟩

theorem Tally.aligned (ht : Tally d es h) : Aligned d h := by
  intro hs s hfits hpre
  obtain ⟨cs, cs', hcalls, -, -, hins | hall | hend⟩ := ht hs s hfits hpre
  · exact .inl ⟨cs, cs', hcalls, hins⟩
  · exact .inr (.inl hall)
  · exact .inr (.inr hend)

/-- The destination reads on. -/
theorem Tally.seen (ht : Tally d es h) {es' : List ChunkEvent} (hes : es' <+: es)
    (t : Hist Call Call.Reply) : Seen d es' (h ++ t) := by
  intro hs s hfits hpre
  rw [Hist.ins_append] at hpre ⊢
  have hpre' : h.ins <+: s.bytes d := (List.prefix_append _ _).trans hpre
  obtain ⟨cs, cs', hcalls, rfl, hcs, -⟩ := ht hs.left s hfits hpre'
  refine ⟨cs, ?_, hes, .inr (hcs.trans (List.prefix_append _ _))⟩
  rw [hcalls]
  exact List.prefix_append _ _

/-- After a stretch that reads nothing. -/
theorem Tally.idle (ht : Tally d es h) (hins : t.ins = []) : Tally d es (h ++ t) := by
  intro hs s hfits hpre
  rw [Hist.ins_append, hins, List.append_nil] at hpre ⊢
  obtain ⟨cs, cs', hcalls, hes, hcs, hpos⟩ := ht hs.left s hfits hpre
  exact ⟨cs, cs', hcalls, hes, hcs, hpos.imp id (Or.imp id fun hend => hend.append_left t)⟩

/-- After a stretch at the end of which there is nothing more to come. -/
theorem Tally.over (ht : Tally d es h)
    (hover : Smooth (h ++ t) → ∀ s : Script, s.Fits d → (h ++ t).ins <+: s.bytes d →
      (h ++ t).ins = s.bytes d ∨ Ended (h ++ t)) : Tally d es (h ++ t) := by
  intro hs s hfits hpre
  have hover' := hover hs s hfits hpre
  rw [Hist.ins_append] at hpre hover' ⊢
  have hpre' : h.ins <+: s.bytes d := (List.prefix_append _ _).trans hpre
  obtain ⟨cs, cs', hcalls, hes, hcs, -⟩ := ht hs.left s hfits hpre'
  exact ⟨cs, cs', hcalls, hes, hcs.trans (List.prefix_append _ _), .inr hover'⟩

/-- Records are not empty. -/
theorem wire_injective {cs cs' : List SinkCall} {x : List SinkCall} (hcs : cs <+: x)
    (hcs' : cs' <+: x) (hwire : wire d cs = wire d cs') : cs = cs' := by
  have hnil : ∀ ys, wire d ys = [] → ys = [] := by
    intro ys hys
    cases ys with
    | nil => rfl
    | cons c ys =>
      rw [wire_cons, List.append_eq_nil_iff] at hys
      exact absurd hys.1 (bytes_ne_nil d c)
  have hsame : ∀ {ys zs : List SinkCall}, ys <+: zs → wire d ys = wire d zs → ys = zs := by
    rintro ys zs ⟨w, rfl⟩ heq
    rw [wire_append] at heq
    have hw := hnil w (List.append_cancel_left ((List.append_nil _).trans heq)).symm
    rw [hw, List.append_nil]
  rcases List.prefix_or_prefix_of_prefix hcs hcs' with hpre | hpre
  · exact hsame hpre hwire
  · exact (hsame hpre hwire.symm).symm

/-- A data frame that arrives whole is the frame of the record that comes next. -/
theorem Tally.record {i : Bytes} {f : DataFrame} (ht : Tally d es h) (hi : Recvs t i)
    (hr : ∀ rest, frameOf DataFrame d (i ++ rest) = (.ok (some f), rest))
    (hs : Smooth (h ++ t)) {s : Script} (hfits : s.Fits d) (hpre : (h ++ t).ins <+: s.bytes d) :
    ∃ cs c cs', s.calls = cs ++ c :: cs' ∧ c.Fits d ∧ c.frame d = f ∧ es = offered cs ∧
      (h ++ t).ins = frameBytes d (ControlFrame.plan s.plan) ++ wire d cs ++
        frameBytes d (c.frame d) := by
  have hlen := length_of_whole hr
  cases ht.aligned.whole hi hr hs hfits hpre with
  | closing n htotal hins hres =>
    rw [decode_data_of_done] at hres
    cases hres
  | record cs c cs' hcalls hc hins hframe hres =>
    rw [decode_encode_data] at hres
    rw [Hist.ins_append, hi.ins] at hpre ⊢
    refine ⟨cs, c, cs', hcalls, hc, by simpa using hres.symm, ?_, by rw [hins, hframe]⟩
    have hpre' : h.ins <+: s.bytes d := (List.prefix_append _ _).trans hpre
    obtain ⟨cs₁, cs₁', hcalls₁, rfl, -, hbetween | hall | hend⟩ := ht hs.left s hfits hpre'
    · rw [hins] at hbetween
      refine congrArg offered (wire_injective (d := d) (x := s.calls) ?_ ?_
        (List.append_cancel_left hbetween).symm)
      · rw [hcalls₁]
        exact List.prefix_append _ _
      · rw [hcalls]
        exact List.prefix_append _ _
    · rw [hall] at hpre
      have := hpre.length_le
      rw [List.length_append] at this
      omega
    · have hnil := hs.orderly.ins_eq_nil hend
      rw [hi.ins] at hnil
      rw [hnil] at hlen
      simp at hlen

/-- After a data frame without payload. -/
theorem Tally.frame {i : Bytes} {f : DataFrame} {es' : List ChunkEvent} (ht : Tally d es h)
    (hi : Recvs t i) (hr : ∀ rest, frameOf DataFrame d (i ++ rest) = (.ok (some f), rest))
    (hpayload : ∀ c : SinkCall, c.frame d = f → c.payload = [] ∧ offered [c] = es') :
    Tally d (es ++ es') (h ++ t) := by
  intro hs s hfits hpre
  obtain ⟨cs, c, cs', hcalls, -, hf, rfl, hins⟩ := ht.record hi hr hs hfits hpre
  obtain ⟨hempty, rfl⟩ := hpayload c hf
  have hall : (h ++ t).ins = frameBytes d (ControlFrame.plan s.plan) ++ wire d (cs ++ [c]) := by
    rw [hins, wire_concat, SinkCall.bytes, hempty, List.append_nil, List.append_assoc]
  refine ⟨cs ++ [c], cs', by rw [hcalls]; simp, offered_append.symm, ?_, .inl hall⟩
  rw [hall]

/-- The payload of a chunk is what its header announces. -/
theorem Tally.payload {t' : Hist Call Call.Reply} {i : Bytes} {itemId : UInt32}
    {offset : UInt64} {len : UInt32} {blake3 : String} (ht : Tally d es h) (hi : Recvs t i)
    (hr : ∀ rest, frameOf DataFrame d (i ++ rest) =
      (.ok (some (.chunkStart itemId offset len blake3)), rest))
    (hlen : t'.ins.length = len.toNat) (hs : Smooth (h ++ (t ++ t'))) {s : Script}
    (hfits : s.Fits d) (hpre : (h ++ (t ++ t')).ins <+: s.bytes d) :
    ∃ cs cs', s.calls = cs ++ SinkCall.sendChunk itemId offset t'.ins :: cs' ∧
      es = offered cs ∧ blake3 = d.blake3Hex t'.ins ∧
      (h ++ (t ++ t')).ins = frameBytes d (ControlFrame.plan s.plan) ++
        wire d (cs ++ [.sendChunk itemId offset t'.ins]) := by
  rw [← List.append_assoc] at hs hpre ⊢
  rw [Hist.ins_append] at hpre ⊢
  have hpre' : (h ++ t).ins <+: s.bytes d := (List.prefix_append _ _).trans hpre
  obtain ⟨cs, c, cs', hcalls, hc, hf, hes, hins⟩ := ht.record hi hr hs.left hfits hpre'
  cases c with
  | finishItem itemId' total blake3' => cases hf
  | finish => cases hf
  | sendChunk itemId' offset' data =>
    simp only [SinkCall.frame, DataFrame.chunkStart.injEq] at hf
    obtain ⟨rfl, rfl, hdata, rfl⟩ := hf
    have hle : data.length ≤ CHUNK_SIZE := hc.1
    have hsize : t'.ins.length = data.length := by
      rw [hlen, ← hdata]
      exact UInt32.toNat_ofNat_of_lt' (Nat.lt_of_le_of_lt hle (by decide))
    -- what follows the header on the wire is the payload
    have hnext : t'.ins <+: data ++ (wire d cs' ++ s.closing d) := by
      have hbytes : s.bytes d = (h ++ t).ins ++ (data ++ (wire d cs' ++ s.closing d)) := by
        rw [hins, Script.bytes, hcalls, wire_append, wire_cons, SinkCall.bytes, SinkCall.payload]
        simp only [List.append_assoc]
      rw [hbytes] at hpre
      exact (List.prefix_append_right_inj _).mp hpre
    have heq : t'.ins = data :=
      (List.prefix_of_prefix_length_le hnext (List.prefix_append _ _) hsize.le).eq_of_length hsize
    refine ⟨cs, cs', by rw [hcalls, heq], hes, by rw [heq], ?_⟩
    rw [hins, heq, wire_concat, SinkCall.bytes, SinkCall.payload]
    simp only [List.append_assoc]

end Tally

/-! ## One `next` call, and a whole `stream_in` -/

section Wp

variable {I : Hist Call Call.Reply → Prop} {d : Deps} {es : List ChunkEvent}
variable {h : Hist Call Call.Reply}

/-- A chunk's payload is read and its digest compared. -/
theorem wp_chunkTally {Q : Hist Call Call.Reply → Result ChunkEvent × Progress → Prop}
    {t : Hist Call Call.Reply} {i : Bytes} {itemId : UInt32} {offset : UInt64} {len : UInt32}
    {blake3 : String} {p : Progress} (ht : Tally d es h) (hi : Recvs t i)
    (hr : ∀ rest, frameOf DataFrame d (i ++ rest) =
      (.ok (some (.chunkStart itemId offset len blake3)), rest))
    (hI : ∀ t, Hist.calls t = [] → I (h ++ t))
    (hQ : ∀ t r p', Hist.calls t = [] → Tally d (es ++ handed [r]) (h ++ t) →
      Q (h ++ t) (r, p')) :
    Proc.wp I Q ((handleFrame d (some (.chunkStart itemId offset len blake3))).run p)
      (h ++ t) := by
  simp only [handleFrame, Metered.run_bind, Metered.run_monadLift, Proc.bind_assoc, Proc.ret_bind]
  rw [Proc.wp_bind]
  refine wp_readExact ?_ ?_ ?_
  · intro t' i' ht' _
    rw [List.append_assoc]
    exact hI _ (by rw [Hist.calls_append, hi.calls, ht'.calls]; rfl)
  · -- all of it arrived
    intro t' i' ht' hlen
    have hcalls : Hist.calls (t ++ t') = [] := by
      rw [Hist.calls_append, hi.calls, ht'.calls]
      rfl
    have hsize : t'.ins.length = len.toNat := by rw [ht'.ins, hlen]
    rw [List.append_assoc]
    simp only [Metered.cont_ok]
    by_cases hgot : d.blake3Hex i' = blake3
    · rw [if_neg (not_not.mpr hgot)]
      refine hQ (t ++ t') (.ok (.chunk itemId offset i')) _ hcalls fun hs s hfits hpre => ?_
      obtain ⟨cs, cs', hsplit, rfl, -, hall⟩ := ht.payload hi hr hsize hs hfits hpre
      rw [ht'.ins] at hsplit hall
      refine ⟨cs ++ [.sendChunk itemId offset i'], cs', by rw [hsplit]; simp, ?_, ?_, .inl hall⟩
      · rw [offered_append]
        rfl
      · rw [hall]
    · rw [if_pos hgot]
      refine hQ (t ++ t') (.error _) _ hcalls fun hs s hfits hpre => ?_
      obtain ⟨cs, cs', -, -, hdigest, -⟩ := ht.payload hi hr hsize hs hfits hpre
      rw [ht'.ins] at hdigest
      exact absurd hdigest.symm hgot
  · -- the stream ended in the payload
    intro t' i' q e ht' _ hq
    have hcalls : Hist.calls (t ++ (t' ++ [.recv q])) = [] := by
      rw [Hist.calls_append, Hist.calls_append, hi.calls, ht'.calls]
      rfl
    rw [List.append_assoc, List.append_assoc]
    refine hQ (t ++ (t' ++ [.recv q])) (.error e) _ hcalls ?_
    rw [handed_error, List.append_nil]
    refine ht.over fun hs s _ _ => .inr ?_
    rw [← List.append_assoc, ← List.append_assoc] at hs ⊢
    exact ended_of_stopped hs hq.ne_data

/-- `next` hands out the event of the record that comes next. -/
theorem wp_nextTally {Q : Hist Call Call.Reply → Result ChunkEvent × Progress → Prop}
    {p : Progress} (ht : Tally d es h) (hI : ∀ t, Hist.calls t = [] → I (h ++ t))
    (hQ : ∀ t r p', Hist.calls t = [] → Tally d (es ++ handed [r]) (h ++ t) →
      Q (h ++ t) (r, p')) :
    Proc.wp I Q ((next d).run p) h := by
  simp only [next, Metered.run_bind, Metered.run_monadLift, Proc.bind_assoc, Proc.ret_bind]
  rw [Proc.wp_bind]
  refine wp_recvFrame (fun t i hi => hI t hi.calls) ?_
  intro t r hrec
  have hcalls := hrec.calls
  cases hrec with
  | @ended t i hi hshort =>
    refine hQ (t ++ [.recv (.data [])]) (.ok .done) _ hcalls ?_
    refine (List.append_nil es).symm ▸ ht.over fun _ _ _ _ => .inr ?_
    exact List.mem_append_right h (List.mem_append_right _ (List.mem_singleton_self _))
  | @cut t i q e hi hshort hq =>
    refine hQ (t ++ [.recv q]) (.error e) _ hcalls ?_
    rw [handed_error, List.append_nil]
    refine ht.over fun hs s _ _ => .inr ?_
    rw [← List.append_assoc] at hs ⊢
    exact ended_of_stopped hs hq
  | whole hi hr =>
    cases r with
    | error e =>
      refine hQ t (.error e) _ hcalls ?_
      rw [handed_error, List.append_nil]
      refine ht.over fun hs s hfits hpre => .inl ?_
      cases ht.aligned.whole hi hr hs hfits hpre with
      | record cs c cs' hcalls hc hins hi hres =>
        rw [decode_encode_data] at hres
        cases hres
      | closing n htotal hins hres => rw [Hist.ins_append, hi.ins, hins]
    | ok frame =>
      cases frame with
      | none => exact absurd (frameOf_eq_none.mp (hr [0])).2 (by simp)
      | some frame =>
        simp only [Metered.cont_ok]
        cases frame with
        | chunkStart itemId offset len blake3 => exact wp_chunkTally ht hi hr hI hQ
        | streamEnd =>
          refine hQ t (.ok .done) _ hcalls (ht.frame hi hr fun c hc => ?_)
          cases c with
          | sendChunk itemId offset data => cases hc
          | finishItem itemId total blake3 => cases hc
          | finish => exact ⟨rfl, rfl⟩
        | itemEnd itemId total blake3 =>
          refine hQ t (.ok (.itemEnd itemId total blake3)) _ hcalls (ht.frame hi hr fun c hc => ?_)
          cases c with
          | sendChunk itemId' offset data => cases hc
          | finishItem itemId' total' blake3' =>
            cases hc
            exact ⟨rfl, rfl⟩
          | finish => cases hc

/-- Every `stream_in` is handed the events of the records, in order. -/
theorem wp_streamTally {Q : Hist Call Call.Reply → Result Unit × Progress → Prop}
    {prog : StreamInProg} {p : Progress} {t : Hist Call Call.Reply} (hnotes : notes t = [])
    (ht : Tally d (handed (nexts (h ++ t).calls)) (h ++ t))
    (hI : ∀ t, notes t = [] → Seen d (handed (nexts (h ++ t).calls)) (h ++ t) → I (h ++ t))
    (hQ : ∀ t r p', notes t = [] → Tally d (handed (nexts (h ++ t).calls)) (h ++ t) →
      Q (h ++ t) (r, p')) :
    Proc.wp I Q ((prog.perform d).run p) (h ++ t) := by
  induction prog generalizing t p with
  | ret r => exact hQ t r p hnotes ht
  | next k ih =>
    simp only [StreamInProg.perform, Metered.run_bind, Metered.run_attempt,
      Metered.run_monadLift, Core.mark, Proc.bind_assoc, Proc.ret_bind, Proc.call_bind,
      Metered.cont_ok]
    rw [Proc.wp_bind]
    have hnotes' : ∀ t', Hist.calls t' = [] → notes (t ++ t') = [] := by
      intro t' hcalls
      rw [notes_append, hnotes, notes, hcalls]
      rfl
    have hread : ∀ t', Hist.calls t' = [] → I (h ++ (t ++ t')) := by
      intro t' hcalls
      have hseen := ht.seen List.prefix_rfl t'
      rw [List.append_assoc] at hseen
      refine hI _ (hnotes' t' hcalls) ?_
      rw [← List.append_assoc, Hist.calls_append, hcalls, List.append_nil, List.append_assoc]
      exact hseen
    refine wp_nextTally ht ?_ ?_
    · intro t' hcalls
      rw [List.append_assoc]
      exact hread t' hcalls
    · intro t' r p' hcalls hr
      rw [List.append_assoc]
      refine ⟨hread t' hcalls, fun _ => ?_⟩
      have hmark := hr.idle (t := [.call (.mark (.next r)) ()]) rfl
      have hnexts : nexts (Hist.calls (h ++ t ++ t' ++ [.call (.mark (.next r)) ()])) =
          nexts (h ++ t).calls ++ [r] := by
        rw [Hist.calls_append, Hist.calls_append _ t', hcalls, List.append_nil, nexts_append]
        rfl
      rw [← handed_append, ← hnexts] at hmark
      rw [List.append_assoc h t t', List.append_assoc] at hmark
      rw [List.append_assoc]
      refine ih r ?_ hmark
      rw [notes_append, hnotes' t' hcalls]
      rfl

end Wp

/-! ## The whole destination -/

/-- The destination has taken this completion frame. -/
def noteComplete (n : UInt64) : Sigma Call.Reply := ⟨.mark (.restoreComplete n), ()⟩

/-- What the history of a destination says about what it was handed. -/
structure Handover (d : Deps) (h : Hist Call Call.Reply) : Prop where
  seen : Seen d (handed (nexts h.calls)) h
  complete : ∀ n, noteComplete n ∈ h.calls → Smooth h → ∀ s : Script, s.Fits d →
    h.ins <+: s.bytes d →
      s.total = some n ∧ h.ins = s.bytes d ∧ handed (nexts h.calls) = offered s.calls

section Wp

variable {d : Deps} {streamIn : BackupPlan → StreamInProg} {p : Progress}
variable {h : Hist Call Call.Reply} {plan : BackupPlan} {es : List ChunkEvent}

/-- Before the completion frame. -/
theorem Handover.of_seen (hs : Seen d (handed (nexts h.calls)) h)
    (hnone : ∀ n, noteComplete n ∉ notes h) : Handover d h :=
  ⟨hs, fun n hmem => absurd (mem_notes hmem rfl) (hnone n)⟩

/-- `stream_in` has not been entered. -/
def Unmarked (h : Hist Call Call.Reply) : Prop := ∀ c ∈ h.calls, ∀ m, c.1 ≠ .mark m

theorem Unmarked.append {t : Hist Call Call.Reply} (hu : Unmarked h) (ht : Unmarked t) :
    Unmarked (h ++ t) := by
  intro c hc
  rw [Hist.calls_append] at hc
  exact (List.mem_append.mp hc).elim (hu c) (ht c)

theorem Unmarked.nexts (hu : Unmarked h) : nexts h.calls = [] :=
  nexts_eq_nil fun c hc r => hu c hc (.next r)

theorem Unmarked.complete_notMem (hu : Unmarked h) (n : UInt64) : noteComplete n ∉ notes h :=
  fun hmem => hu _ (mem_calls_of_mem_notes hmem) _ rfl

theorem Unmarked.handover (hu : Unmarked h) : Handover d h := by
  refine .of_seen ?_ hu.complete_notMem
  rw [hu.nexts]
  exact .nil h

theorem unmarked_of_calls (hcalls : h.calls = []) : Unmarked h := by
  intro c hc
  rw [hcalls] at hc
  cases hc

theorem unmarked_of_sent {fits : Prop} {x : Bytes} {r : Result Unit} (ht : Sent fits x h r) :
    Unmarked h := by
  have hemits : ∀ {h : Hist Call Call.Reply} {o}, Emits h o → Unmarked h := by
    intro h o hh c hc m heq
    rw [hh.calls c hc] at heq
    cases heq
  cases ht with
  | done _ ht => exact hemits ht
  | refused _ => exact unmarked_of_calls rfl
  | broken _ ht _ ha _ => exact hemits (ht.append ha.emits)

/-- A completion frame that arrives whole stands behind all records. -/
theorem Tally.complete {t : Hist Call Call.Reply} {i : Bytes} {n : UInt64} {blake3 : String}
    (ht : Tally d es h) (hi : Recvs t i)
    (hr : ∀ rest, frameOf ControlFrame d (i ++ rest) = (.ok (some (.done n blake3)), rest))
    (hs : Smooth (h ++ t)) {s : Script} (hfits : s.Fits d) (hpre : (h ++ t).ins <+: s.bytes d) :
    s.total = some n ∧ (h ++ t).ins = s.bytes d ∧ es = offered s.calls := by
  obtain ⟨htotal, hall⟩ := ht.aligned.atEnd hi hr hs s hfits hpre
  refine ⟨htotal, hall, ?_⟩
  have hlen := length_of_whole hr
  have hpre' : h.ins <+: s.bytes d := by
    rw [Hist.ins_append] at hpre
    exact (List.prefix_append _ _).trans hpre
  obtain ⟨cs, cs', hcalls, rfl, -, hbetween | hbehind | hend⟩ := ht hs.left s hfits hpre'
  · cases cs' with
    | nil => rw [hcalls, List.append_nil]
    | cons c cs' =>
      -- a record is left, and no record is read as a completion frame
      have hbytes : s.bytes d = h.ins ++ (frameBytes d (c.frame d) ++ (c.payload ++
          (wire d cs' ++ s.closing d))) := by
        rw [hbetween, Script.bytes, hcalls, wire_append, wire_cons, SinkCall.bytes]
        simp only [List.append_assoc]
      have hc : c.Fits d := hfits.calls c (by rw [hcalls]; simp)
      rw [Hist.ins_append, hi.ins, hbytes, List.prefix_append_right_inj] at hpre
      obtain ⟨-, hres⟩ := whole_eq_frameBytes hr hc.2 hpre
      rw [decode_control_of_data] at hres
      cases hres
  · rw [Hist.ins_append, hi.ins, hbehind] at hpre
    have := hpre.length_le
    rw [List.length_append] at this
    omega
  · have hnil := hs.orderly.ins_eq_nil hend
    rw [hi.ins] at hnil
    rw [hnil] at hlen
    simp at hlen

/-- The completion frame. -/
theorem wp_completeHandover (ht : Tally d (handed (nexts h.calls)) h)
    (hnone : ∀ n, noteComplete n ∉ notes h) :
    Proc.wp (Handover d) (fun h _ => Handover d h)
      ((recvFrame ControlFrame d).run.bind fun r =>
        Metered.cont (fun frame => complete plan frame) (r, p)) h := by
  -- receiving makes no calls
  have hreads : ∀ t : Hist Call Call.Reply, t.calls = [] → Handover d (h ++ t) := by
    intro t hcalls
    refine .of_seen ?_ fun n hmem => ?_
    · rw [Hist.calls_append, hcalls, List.append_nil]
      exact ht.seen List.prefix_rfl t
    · rw [notes_append, show notes t = [] by rw [notes, hcalls]; rfl, List.append_nil] at hmem
      exact hnone n hmem
  have hunexpected : ∀ t : Hist Call Call.Reply, t.calls = [] →
      Handover d (h ++ t ++ [.call (.mark .unexpectedCompletion) ()]) := by
    intro t hcalls
    refine .of_seen ?_ fun n hmem => ?_
    · rw [List.append_assoc, Hist.calls_append, Hist.calls_append, hcalls, List.nil_append,
        nexts_append]
      have hseen := ht.seen List.prefix_rfl (t ++ [.call (.mark .unexpectedCompletion) ()])
      rw [show nexts (Hist.calls [.call (.mark .unexpectedCompletion) ()]) = [] from rfl,
        List.append_nil]
      exact hseen
    · rw [notes_append, notes_append, show notes t = [] by rw [notes, hcalls]; rfl,
        List.append_nil] at hmem
      rcases List.mem_append.mp hmem with hmem | hmem
      · exact hnone n hmem
      · cases List.mem_singleton.mp hmem
  rw [Proc.wp_bind]
  refine wp_recvFrame (fun t i hi => hreads t hi.calls) ?_
  intro t r hrec
  have hcalls := hrec.calls
  cases r with
  | error e => exact hreads t hcalls
  | ok frame =>
    cases frame with
    | none => exact ⟨hreads t hcalls, fun _ => hunexpected t hcalls⟩
    | some frame =>
      cases frame with
      | plan plan' => exact ⟨hreads t hcalls, fun _ => hunexpected t hcalls⟩
      | planAck accepted reason => exact ⟨hreads t hcalls, fun _ => hunexpected t hcalls⟩
      | abort reason => exact hreads t hcalls
      | done n blake3 =>
        refine ⟨hreads t hcalls, fun _ => ?_⟩
        cases hrec with
        | whole hi hr =>
          have hnexts : nexts (Hist.calls (h ++ t ++ [.call (.mark (.restoreComplete n)) ()])) =
              nexts h.calls := by
            rw [Hist.calls_append, Hist.calls_append, hcalls, List.append_nil, nexts_append]
            exact List.append_nil _
          have hmarks : ∀ m, noteComplete m ∈
              Hist.calls (h ++ t ++ [.call (.mark (.restoreComplete n)) ()]) → m = n := by
            intro m hmem
            rw [Hist.calls_append, Hist.calls_append, hcalls, List.append_nil] at hmem
            rcases List.mem_append.mp hmem with hmem | hmem
            · exact absurd (mem_notes hmem rfl) (hnone m)
            · cases List.mem_singleton.mp hmem
              rfl
          refine ⟨?_, fun m hmem hs s hfits hpre => ?_⟩
          · rw [hnexts, List.append_assoc]
            exact ht.seen List.prefix_rfl _
          · rw [hmarks m hmem, hnexts]
            have hins : Hist.ins (h ++ t ++ [.call (.mark (.restoreComplete n)) ()]) =
                (h ++ t).ins := by
              rw [Hist.ins_append]
              exact List.append_nil _
            rw [hins] at hpre ⊢
            exact ht.complete hi hr hs.left hfits hpre


/-- A destination that has approved the plan. -/
theorem wp_applyHandover (hu : Unmarked h) (ht : Tally d [] h) :
    Proc.wp (Handover d) (fun h _ => Handover d h) ((applyPayload d streamIn plan).run p) h := by
  simp only [applyPayload, Core.mark, Metered.run_bind, Metered.run_monadLift, Proc.call_bind,
    Proc.ret_bind, Metered.cont_ok, Metered.run_attempt, Proc.bind_assoc]
  refine ⟨hu.handover, fun _ => ?_⟩
  have hstart : nexts (Hist.calls (h ++ [.call (.mark (.streamIn plan)) ()])) = [] := by
    rw [Hist.calls_append, nexts_append, hu.nexts]
    rfl
  have hnone : ∀ n, noteComplete n ∉ notes (h ++ [.call (.mark (.streamIn plan)) ()]) := by
    intro n hmem
    rw [notes_append] at hmem
    rcases List.mem_append.mp hmem with hmem | hmem
    · exact hu.complete_notMem n hmem
    · cases List.mem_singleton.mp hmem
  have hquiet : ∀ t n, notes t = [] →
      noteComplete n ∉ notes (h ++ [.call (.mark (.streamIn plan)) ()] ++ t) := by
    intro t n hnotes
    rw [notes_append, hnotes, List.append_nil]
    exact hnone n
  have htally := ht.idle (t := [.call (.mark (.streamIn plan)) ()]) rfl
  rw [← handed_nil, ← hstart] at htally
  rw [Proc.wp_bind]
  rw [← List.append_nil (h ++ [_])] at htally ⊢
  refine wp_streamTally rfl htally (fun t hnotes hseen => .of_seen hseen fun n => hquiet t n hnotes)
    ?_
  intro t r p' hnotes ht'
  have hseen : Handover d (h ++ [.call (.mark (.streamIn plan)) ()] ++ t) := by
    refine .of_seen ?_ fun n => hquiet t n hnotes
    have hseen := ht'.seen List.prefix_rfl []
    rw [List.append_nil] at hseen
    exact hseen
  refine ⟨hseen, fun _ => ?_⟩
  have hnexts : nexts (Hist.calls (h ++ [.call (.mark (.streamIn plan)) ()] ++ t ++
      [.call (.mark (.streamInReturned r)) ()])) =
        nexts (Hist.calls (h ++ [.call (.mark (.streamIn plan)) ()] ++ t)) := by
    rw [Hist.calls_append, nexts_append]
    exact List.append_nil _
  have hreturned := ht'.idle (t := [.call (.mark (.streamInReturned r)) ()]) rfl
  rw [← hnexts] at hreturned
  have hnone' : ∀ n, noteComplete n ∉ notes (h ++ [.call (.mark (.streamIn plan)) ()] ++ t ++
      [.call (.mark (.streamInReturned r)) ()]) := by
    intro n hmem
    rw [notes_append] at hmem
    rcases List.mem_append.mp hmem with hmem | hmem
    · exact hquiet t n hnotes hmem
    · cases List.mem_singleton.mp hmem
  cases r with
  | error e =>
    refine .of_seen ?_ hnone'
    have hseen := hreturned.seen List.prefix_rfl []
    rw [List.append_nil] at hseen
    exact hseen
  | ok _ =>
    simp only [Metered.run_ofResult, Proc.ret_bind, Metered.cont_ok, Metered.run_bind,
      Metered.run_monadLift, Proc.bind_assoc]
    exact wp_completeHandover hreturned hnone'

/-- A destination that has decided. -/
theorem wp_answerHandover {preflight : Preflight} {approved : Bool} (hu : Unmarked h)
    (ht : Tally d [] h) :
    Proc.wp (Handover d) (fun h _ => Handover d h)
      ((answer d streamIn plan preflight approved).run p) h := by
  simp only [answer, sendAck, Metered.run_bind, Metered.run_monadLift, Proc.bind_assoc,
    Proc.ret_bind]
  rw [Proc.wp_bind]
  refine wp_sendFrame (fun t o _ ht' _ => (hu.append (unmarked_of_sent
    (.done trivial ht' : Sent True o t _))).handover) ?_
  intro t r hsent
  have hu' := hu.append (unmarked_of_sent hsent)
  cases r with
  | error e => exact hu'.handover
  | ok _ =>
    simp only [Metered.cont_ok]
    cases approved with
    | false => exact hu'.handover
    | true => exact wp_applyHandover hu' (ht.idle hsent.ins)

/-- From the plan to the decision. -/
theorem wp_decideHandover (hu : Unmarked h) (ht : Tally d [] h) :
    Proc.wp (Handover d) (fun h _ => Handover d h)
      ((do
        let preflight ← validate plan
        let approved ← decideApproval plan preflight
        answer d streamIn plan preflight approved : Metered BackupPlan).run p) h := by
  simp only [validate, Metered.run_bind, Metered.run_monadLift, Proc.call_bind, Proc.ret_bind]
  refine ⟨hu.handover, fun r => ?_⟩
  have hu' : Unmarked (h ++ [.call (.validate plan) r]) := by
    refine hu.append fun c hc m heq => ?_
    rw [List.mem_singleton.mp hc] at heq
    cases heq
  have ht' := ht.idle (t := [.call (.validate plan) r]) rfl
  cases r with
  | error e => exact hu'.handover
  | ok preflight =>
    simp only [Metered.cont_ok, Metered.run_bind, Metered.run_monadLift, decideApproval]
    by_cases hok : preflight.ok = true
    · rw [if_pos hok]
      refine ⟨hu'.handover, fun approved => ?_⟩
      refine wp_answerHandover (hu'.append fun c hc m heq => ?_) (ht'.idle rfl)
      rw [List.mem_singleton.mp hc] at heq
      cases heq
    · rw [if_neg hok]
      exact wp_answerHandover hu' ht'

/-- After the plan. -/
theorem tally_plan {t : Hist Call Call.Reply} {r : Result (Option ControlFrame)}
    (hins : h.ins = []) (hrec : Received ControlFrame d t r) (hr : r = .ok (some (.plan plan))) :
    Tally d [] (h ++ t) := by
  subst hr
  cases hrec with
  | whole hi hr =>
    intro hs s hfits hpre
    rw [Hist.ins_append, hins, hi.ins, List.nil_append] at hpre ⊢
    obtain ⟨rfl, -⟩ := whole_eq_frameBytes hr hfits.plan hpre
    have hall : frameBytes d (ControlFrame.plan s.plan) =
        frameBytes d (ControlFrame.plan s.plan) ++ wire d [] := (List.append_nil _).symm
    exact ⟨[], s.calls, rfl, rfl, by rw [← hall], .inl hall⟩

/-- Every run of the destination side, on every channel. -/
theorem wp_runHandover (d : Deps) (streamIn : BackupPlan → StreamInProg) (p : Progress) :
    Proc.wp (Handover d) (fun h _ => Handover d h) ((runDestination d streamIn).run p) [] := by
  rw [runDestination_eq]
  simp only [openStream, recvPlan, Metered.run_bind, Metered.run_monadLift, Proc.call_bind,
    Proc.ret_bind]
  have hstart : Unmarked [] := unmarked_of_calls rfl
  refine ⟨hstart.handover, fun r => ?_⟩
  have hopened : Unmarked ([] ++ [.call .openStream r]) := by
    intro c hc m heq
    rw [List.mem_singleton.mp hc] at heq
    cases heq
  cases r with
  | error e => exact hopened.handover
  | ok _ =>
    simp only [Metered.cont_ok, Metered.run_bind, Metered.run_monadLift, Task.run_bind,
      Proc.bind_assoc]
    rw [Proc.wp_bind]
    refine wp_recvFrame (fun t i hi => (hopened.append (unmarked_of_calls hi.calls)).handover) ?_
    intro t r hrec
    have hu := hopened.append (unmarked_of_calls hrec.calls)
    cases r with
    | error e => exact hu.handover
    | ok frame =>
      cases frame with
      | none => exact hu.handover
      | some frame =>
        cases frame with
        | plan plan =>
          exact wp_decideHandover hu (tally_plan rfl hrec rfl)
        | planAck accepted reason => exact hu.handover
        | done n blake3 => exact hu.handover
        | abort reason => exact hu.handover

end Wp

/-! ## Both sides -/

/-- What a source and a destination have done whose streams are joined: each has read a
prefix of what the other has written. -/
structure Joined (d : Deps) (streamOut : BackupPlan → SinkProg)
    (streamIn : BackupPlan → StreamInProg) (p q : Progress)
    (source destination : Hist Call Call.Reply) : Prop where
  sourceRun : ∃ x, ((runSource d streamOut).run p).Run source x
  destinationRun : ∃ y, ((runDestination d streamIn).run q).Run destination y
  forth : destination.ins <+: source.outs
  back : source.ins <+: destination.outs

section Joined

variable {d : Deps} {streamOut : BackupPlan → SinkProg} {streamIn : BackupPlan → StreamInProg}
variable {p q : Progress} {source destination : Hist Call Call.Reply}

theorem Joined.issues (hj : Joined d streamOut streamIn p q source destination) :
    Issues d streamOut p source := by
  obtain ⟨x, hrun⟩ := hj.sourceRun
  exact Proc.wp_always (I := Issues d streamOut p) (fun _ _ h => h) (wp_runIssues d streamOut p)
    hrun

theorem Joined.handover (hj : Joined d streamOut streamIn p q source destination) :
    Handover d destination := by
  obtain ⟨y, hrun⟩ := hj.destinationRun
  exact Proc.wp_always (I := Handover d) (fun _ _ h => h) (wp_runHandover d streamIn q) hrun

/-- What the destination was handed was offered by the source. -/
theorem Joined.delivered (hj : Joined d streamOut streamIn p q source destination)
    (hs : Smooth source) (hs' : Smooth destination) :
    handed (nexts destination.calls) <+: offered (issued streamOut source.calls) := by
  obtain ⟨s, hfits, houts, hissued, -⟩ := hj.issues.records hs
  obtain ⟨cs, hcs, hes, hread⟩ := hj.handover.seen hs' s hfits (hj.forth.trans houts)
  refine hes.trans ?_
  rcases hread with rfl | hread
  · exact List.nil_prefix
  · exact hissued cs hcs (hread.trans hj.forth)

/-- A destination that has taken the completion frame was handed everything that the
source's sink accepted, and the frame carries its size. -/
theorem Joined.completed (hj : Joined d streamOut streamIn p q source destination)
    (hs : Smooth source) (hs' : Smooth destination) {n : UInt64}
    (hn : noteComplete n ∈ destination.calls) :
    handed (nexts destination.calls) = offered (sunk source.calls) ∧
      n = p.bytes + totalBytes (sunk source.calls) := by
  obtain ⟨s, hfits, houts, -, htotal⟩ := hj.issues.records hs
  obtain ⟨hsome, -, hall⟩ := hj.handover.complete n hn hs' s hfits (hj.forth.trans houts)
  obtain ⟨hcalls, hcount⟩ := htotal n hsome
  rw [bytes_countAll] at hcount
  refine ⟨?_, hcount⟩
  rw [hall, hcalls, offered_append, offered_finish, List.append_nil]

theorem Joined.destLog (hj : Joined d streamOut streamIn p q source destination) :
    DestLog d destination := by
  obtain ⟨y, hrun⟩ := hj.destinationRun
  exact Proc.wp_always (fun _ _ hend => hend.log) (wp_runDestination d streamIn q) hrun

theorem noteStreamOut_of_entered {l : Calls Call Call.Reply} {plan : BackupPlan}
    (h : entered l = some plan) : noteStreamOut plan ∈ l := by
  obtain ⟨c, hc, hplan⟩ := List.exists_of_findSome?_eq_some h
  split at hplan
  case h_1 plan' _ =>
    cases hplan
    exact hc
  case h_2 => cases hplan

/-- A source that streams has the approval of the destination: for the plan that the
destination has read, which is the one that the source has sent. -/
theorem Joined.approved (hj : Joined d streamOut streamIn p q source destination)
    {plan : BackupPlan} (hplan : entered source.calls = some plan) :
    ∃ plan' preflight, decode ControlFrame d (encode d (ControlFrame.plan plan)) =
        some (.plan plan') ∧ preflight.ok = true ∧
      (⟨.validate plan', .ok preflight⟩ : Sigma Call.Reply) ∈ destination.calls ∧
      (⟨.accept plan', true⟩ : Sigma Call.Reply) ∈ destination.calls := by
  obtain ⟨x, hrun⟩ := hj.sourceRun
  obtain ⟨reason, hack⟩ := (awaiting_or_acked hrun).resolve_left fun hawait =>
    hawait.noteStreamOut_notMem plan (noteStreamOut_of_entered hplan)
  obtain ⟨plan', preflight, hok, hvalidate, haccept⟩ :=
    hj.destLog.approves_of_ack hj.back hack
  refine ⟨plan', preflight, ?_, hok, hvalidate, haccept⟩
  -- both plans are the first frame of the source's output
  obtain ⟨hfits, houts⟩ := hj.issues.plan plan hplan
  obtain ⟨seg, hseg, hpre⟩ := hj.destLog.hasPlan_of_validate hvalidate
  obtain ⟨y, hy⟩ := houts
  obtain ⟨w, hw⟩ := hpre.trans hj.forth
  exact (hseg.eq_frameBytes hfits (hw.trans hy.symm)).2.1

end Joined

/-! ## One session -/

section Session

variable {c : SessionLink} {d : Deps} {streamOut : BackupPlan → SinkProg}
variable {streamIn : BackupPlan → StreamInProg} {p q : Progress} {s : SessionNet}

/-- The two sides of a session are joined. -/
theorem SessionReach.joined (hr : SessionReach c d streamOut streamIn p q s) :
    Joined d streamOut streamIn p q s.leftHist s.rightHist where
  sourceRun := ⟨_, (Net.Reach.history c hr).leftRun⟩
  destinationRun := ⟨_, (Net.Reach.history c hr).rightRun⟩
  forth := prefix_dest_ins hr
  back := prefix_source_ins hr

/-- In every state a session can reach, whatever its two modules do, the destination was
handed the first events of the calls that the source's sink accepted, and all of them
once it has taken the completion frame. -/
theorem session_delivers (hc : c.Flushes) (hr : SessionReach c d streamOut streamIn p q s) :
    handed (nexts s.rightHist.calls) <+: offered (issued streamOut s.leftHist.calls) ∧
    ∀ n, noteComplete n ∈ s.rightHist.calls →
      handed (nexts s.rightHist.calls) = offered (sunk s.leftHist.calls) ∧
        n = p.bytes + totalBytes (sunk s.leftHist.calls) := by
  have hj := hr.joined
  have hs := smooth_leftHist hc hr
  have hs' := smooth_rightHist hc hr
  exact ⟨hj.delivered hs hs', fun n hn => hj.completed hs hs' hn⟩

/-- Replies at which nothing fails, over a stream of one byte each way. -/
def answeringLink : SessionLink :=
  Link.ofReplies 1 1 (replies "before" samplePlan .pass true)
    (replies "before" samplePlan .pass true)

/-- A `stream_in` that reads to the end of the sample calls. -/
def sampleStreamIn : StreamInProg := .drain ((sent sampleDeps sampleCalls).length + (0 + 1))

theorem answeringLink_flushes : answeringLink.Flushes := ⟨fun _ h => h, fun _ h => h⟩

/-- A session with a chunk that is too large reaches its end. -/
theorem exists_sampleSession :
    ∃ s : SessionNet,
      SessionReach answeringLink sampleDeps (fun _ => .ofCalls sampleCalls)
        (fun _ => sampleStreamIn) .fresh .fresh s ∧ s.Final ∧
      s.leftHist.calls = sourceRecord sampleDeps "before" samplePlan sampleCalls ∧
      s.rightHist.calls = destRecord sampleDeps samplePlan .pass sampleCalls := by
  have hmakes : (SinkProg.ofCalls sampleCalls).Makes sampleDeps sampleCalls :=
    SinkProg.makes_ofCalls sampleDeps (by simp [sampleCalls])
  have hsync := @sync_session sampleDeps (fun _ => .ofCalls sampleCalls) samplePlan .pass
    sampleCalls 0 .fresh "before" (fits_samplePlan sampleDeps) (decode_samplePlan sampleDeps) rfl
    hmakes
  have hends := hsync.inevitable Nat.one_pos Nat.one_pos (coalescing_runSource _ _ .fresh)
    (coalescing_runDestination _ _ .fresh)
  obtain ⟨s, hr, hsource, hdestination, hleft, hright⟩ := hends.exists_reach _ .init
  exact ⟨s, hr, ⟨⟨_, hsource⟩, ⟨_, hdestination⟩⟩, hleft, hright⟩

theorem complete_mem_destRecord {d : Deps} {plan : BackupPlan} {preflight : Preflight}
    {cs : List SinkCall} :
    noteComplete (totalBytes (sent d cs)) ∈ destRecord d plan preflight cs := by
  unfold destRecord
  exact List.mem_append_right _ (List.mem_singleton_self _)

theorem entered_sourceRecord {d : Deps} {fp : String} {plan : BackupPlan} {cs : List SinkCall} :
    entered (sourceRecord d fp plan cs) = some plan := by
  simp [sourceRecord, openingNotes, noteStreamOut, entered]

/-- All of it is delivered. -/
theorem session_delivers_sample :
    ∃ s : SessionNet, noteComplete 1 ∈ s.rightHist.calls ∧
      handed (nexts s.rightHist.calls) = offered (sunk s.leftHist.calls) ∧
      sinks s.leftHist.calls = sampleCalls.map fun c => (c, c.verdict sampleDeps) := by
  obtain ⟨s, hr, -, hleft, hright⟩ := exists_sampleSession
  have hmark : noteComplete 1 ∈ s.rightHist.calls := by
    rw [hright, ← totalBytes_sampleCalls]
    exact complete_mem_destRecord
  refine ⟨s, hmark, ((session_delivers answeringLink_flushes hr).2 _ hmark).1, ?_⟩
  rw [hleft, sinks_sourceRecord]

end Session

end RustBackup.Core
