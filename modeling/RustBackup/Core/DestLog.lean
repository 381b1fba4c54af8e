/-
  Core/DestLog.lean --- what a run of `run_destination` can look like.

  The destination receives the plan, validates it, decides, and applies.  As for
  the source, `DestLog` says what the history of a run is made of in each stage,
  `DestEnd` how a run can end, and `wp_runDestination` that there is nothing else.

  A destination does not know where it stands in the stream; it reads by position.
  Against a source, over a reliable stream, it always stands between two records,
  or at the end of what there is (`Aligned`).  That is what makes a completion
  frame it receives the source's own (`AtEnd`).
-/
import RustBackup.Core.SourceLog

set_option autoImplicit false

namespace RustBackup.Core

open RustBackup.Serde RustBackup.Io

/-! ## The stages -/

/-- The calls up to the decision. -/
def decisionNotes (plan : BackupPlan) (preflight : Preflight) (approved : Bool) :
    Calls Call Call.Reply :=
  [⟨.openStream, .ok ()⟩, ⟨.validate plan, .ok preflight⟩] ++
    if preflight.ok then [⟨.accept plan, approved⟩] else []

/-- The calls of a destination that applies the payload. -/
inductive Applying : Calls Call Call.Reply → Prop where
  | entered (plan : BackupPlan) : Applying [⟨.mark (.streamIn plan), ()⟩]
  | returned (plan : BackupPlan) (r : Result Unit) :
      Applying [⟨.mark (.streamIn plan), ()⟩, ⟨.mark (.streamInReturned r), ()⟩]
  | complete (plan : BackupPlan) (n : UInt64) :
      Applying [⟨.mark (.streamIn plan), ()⟩, ⟨.mark (.streamInReturned (.ok ())), ()⟩,
        ⟨.mark (.restoreComplete n), ()⟩]
  | unexpected (plan : BackupPlan) :
      Applying [⟨.mark (.streamIn plan), ()⟩, ⟨.mark (.streamInReturned (.ok ())), ()⟩,
        ⟨.mark .unexpectedCompletion, ()⟩]

/-- The first frame that arrived was this plan. -/
def HasPlan (d : Deps) (plan : BackupPlan) (h : Hist Call Call.Reply) : Prop :=
  ∃ seg, IsFrame ControlFrame d seg (.plan plan) ∧ seg <+: h.ins

theorem HasPlan.append {d : Deps} {plan : BackupPlan} {h : Hist Call Call.Reply}
    (hp : HasPlan d plan h) (t : Hist Call Call.Reply) : HasPlan d plan (h ++ t) := by
  obtain ⟨seg, hseg, hpre⟩ := hp
  refine ⟨seg, hseg, hpre.trans ?_⟩
  rw [Hist.ins_append]
  exact List.prefix_append _ _

/-- The history of a run that stands in one of the stages. -/
inductive DestLog (d : Deps) (h : Hist Call Call.Reply) : Prop where
  | opening (houts : h.outs = []) (hnotes : ∀ c ∈ notes h, c.1 = .openStream)
  | validated (plan : BackupPlan) (r : Result Preflight) (hplan : HasPlan d plan h)
      (houts : h.outs = [])
      (hnotes : notes h = [⟨.openStream, .ok ()⟩, ⟨.validate plan, r⟩])
  | decided (plan : BackupPlan) (preflight : Preflight) (approved : Bool)
      (hplan : HasPlan d plan h) (hok : approved = true → preflight.ok = true)
      (hnotes : notes h = decisionNotes plan preflight approved)
      (houts : h.outs <+: frameBytes d
        (ControlFrame.planAck approved (reasonFor preflight approved)))
  | applying (plan : BackupPlan) (preflight : Preflight) (rest : Calls Call Call.Reply)
      (hplan : HasPlan d plan h) (hok : preflight.ok = true) (hrest : Applying rest)
      (hnotes : notes h = decisionNotes plan preflight true ++ rest)
      (houts : h.outs = frameBytes d
        (ControlFrame.planAck true (reasonFor preflight true)))

/-! ## Where the destination stands in a source's output -/

/-- End of stream has been seen. -/
def Ended (h : Hist Call Call.Reply) : Prop := Act.recv (.data []) ∈ h

/-- If a source's output is what arrives, the destination stands between two of its
records, behind all of it, or at the end of a shorter stream. -/
def Aligned (d : Deps) (h : Hist Call Call.Reply) : Prop :=
  Smooth h → ∀ s : Script, s.Fits d → h.ins <+: s.bytes d →
    (∃ cs cs', s.calls = cs ++ cs' ∧
      h.ins = frameBytes d (ControlFrame.plan s.plan) ++ wire d cs) ∨
    h.ins = s.bytes d ∨ Ended h

/-- If a source's output is what arrives, all of it has arrived, and `n` is the
total of its completion frame. -/
def AtEnd (d : Deps) (n : UInt64) (h : Hist Call Call.Reply) : Prop :=
  Smooth h → ∀ s : Script, s.Fits d → h.ins <+: s.bytes d →
    s.total = some n ∧ h.ins = s.bytes d

/-- How a run ends. -/
inductive DestEnd (d : Deps) (h : Hist Call Call.Reply) : Result BackupPlan → Prop where
  | failed {e : BackupError} (hlog : DestLog d h) : DestEnd d h (.error e)
  | complete {plan : BackupPlan} {n : UInt64} (hlog : DestLog d h)
      (hmark : (⟨.mark (.restoreComplete n), ()⟩ : Sigma Call.Reply) ∈ notes h)
      (honly : ∀ m, (⟨.mark (.restoreComplete m), ()⟩ : Sigma Call.Reply) ∈ notes h → m = n)
      (hend : AtEnd d n h) : DestEnd d h (.ok plan)
  | unexpected {plan : BackupPlan} (hlog : DestLog d h)
      (hmark : ∀ n, (⟨.mark (.restoreComplete n), ()⟩ : Sigma Call.Reply) ∉ notes h) :
      DestEnd d h (.ok plan)

theorem DestEnd.log {d : Deps} {h : Hist Call Call.Reply} {r : Result BackupPlan}
    (hend : DestEnd d h r) : DestLog d h := by
  cases hend with
  | failed hlog => exact hlog
  | complete hlog _ _ _ => exact hlog
  | unexpected hlog _ => exact hlog

theorem Ended.append_left {h : Hist Call Call.Reply} (he : Ended h) (t : Hist Call Call.Reply) :
    Ended (h ++ t) := List.mem_append_left t he

/-- Over a reliable stream a read that delivers nothing has seen the end. -/
theorem ended_of_stopped {h : Hist Call Call.Reply} {q : ReadRes}
    (hs : Smooth (h ++ [.recv q])) (hq : ∀ b bs, q ≠ .data (b :: bs)) :
    Ended (h ++ [.recv q]) := by
  have hcalm := hs.orderly.calm (.recv q) (by simp)
  cases q with
  | data bs =>
    cases bs with
    | nil => exact List.mem_append_right h (List.mem_singleton_self _)
    | cons b bs => exact absurd rfl (hq b bs)
  | timeout => exact hcalm.elim
  | fault => exact hcalm.elim

section Position

variable {F : Type} [Frame F] {d : Deps} {h t : Hist Call Call.Reply} {r : Result (Option F)}
variable {i : Bytes}

/-- A whole answer takes at least the length prefix. -/
theorem length_of_whole (hr : ∀ rest, frameOf F d (i ++ rest) = (r, rest)) : 4 ≤ i.length := by
  by_contra hlt
  have h₁ := hr []
  rw [List.append_nil, frameOf_eq_none.mpr ⟨by omega, rfl⟩] at h₁
  obtain rfl : r = .ok none := (congrArg Prod.fst h₁).symm
  have := (frameOf_eq_none.mp (hr [0])).2
  simp at this

/-- A whole answer in front of a written frame takes exactly that frame. -/
theorem whole_eq_frameBytes {F' : Type} [Frame F'] {frame : F'} {y : Bytes}
    (hr : ∀ rest, frameOf F d (i ++ rest) = (r, rest)) (hfits : Fits d frame)
    (hpre : i <+: frameBytes d frame ++ y) :
    i = frameBytes d frame ∧
      r = (match decode F d (encode d frame) with
        | some g => .ok (some g)
        | none => .error (.phaseSrc .transfer "frame deserialize" .json)) := by
  obtain ⟨x, hx⟩ := hpre
  have h₁ := hr x
  rw [hx, frameOf_frameBytes d hfits] at h₁
  cases hdec : decode F d (encode d frame) with
  | none =>
    simp only [hdec, Prod.mk.injEq] at h₁
    obtain ⟨rfl, rfl⟩ := h₁
    exact ⟨List.append_cancel_right hx, rfl⟩
  | some g =>
    simp only [hdec, Prod.mk.injEq] at h₁
    obtain ⟨rfl, rfl⟩ := h₁
    exact ⟨List.append_cancel_right hx, rfl⟩

/-- The frame that comes next in a source's output. -/
inductive NextFrame (d : Deps) (s : Script) (h : Hist Call Call.Reply) (i : Bytes)
    (r : Result (Option F)) : Prop where
  | record (cs : List SinkCall) (c : SinkCall) (cs' : List SinkCall)
      (hcalls : s.calls = cs ++ c :: cs') (hfits : c.Fits d)
      (hins : h.ins = frameBytes d (ControlFrame.plan s.plan) ++ wire d cs)
      (hi : i = frameBytes d (c.frame d))
      (hr : r = (match decode F d (encode d (c.frame d)) with
        | some g => .ok (some g)
        | none => .error (.phaseSrc .transfer "frame deserialize" .json)))
  | closing (n : UInt64) (htotal : s.total = some n)
      (hins : h.ins ++ i = s.bytes d)
      (hr : r = (match decode F d (encode d (ControlFrame.done n "")) with
        | some g => .ok (some g)
        | none => .error (.phaseSrc .transfer "frame deserialize" .json)))

/-- A destination that is aligned and gets a whole answer got the next frame. -/
theorem Aligned.whole (ha : Aligned d h) (ht : Recvs t i)
    (hr : ∀ rest, frameOf F d (i ++ rest) = (r, rest)) (hs : Smooth (h ++ t)) {s : Script}
    (hfits : s.Fits d) (hpre : (h ++ t).ins <+: s.bytes d) : NextFrame d s h i r := by
  have hlen := length_of_whole hr
  rw [Hist.ins_append, ht.ins] at hpre
  rcases ha hs.left s hfits ((List.prefix_append _ _).trans hpre) with
    ⟨cs, cs', hcalls, hins⟩ | hall | hend
  · have hbytes : s.bytes d = frameBytes d (ControlFrame.plan s.plan) ++ wire d cs ++
        (wire d cs' ++ s.closing d) := by
      rw [Script.bytes, hcalls, wire_append]
      simp only [List.append_assoc]
    have hpre' : i <+: wire d cs' ++ s.closing d := by
      rw [hbytes, hins] at hpre
      exact (List.prefix_append_right_inj _).mp hpre
    cases cs' with
    | cons c cs' =>
      rw [wire_cons, SinkCall.bytes, List.append_assoc, List.append_assoc] at hpre'
      have hc : c.Fits d := hfits.calls c (by rw [hcalls]; simp)
      obtain ⟨hi, hres⟩ := whole_eq_frameBytes hr hc.2 hpre'
      exact .record cs c cs' hcalls hc hins hi hres
    | nil =>
      cases htotal : s.total with
      | none =>
        rw [Script.closing, htotal] at hpre'
        have := hpre'.length_le
        simp only [wire, List.flatMap_nil, List.nil_append, List.length_nil] at this
        omega
      | some n =>
        have hclosing : s.closing d = frameBytes d (ControlFrame.done n "") := by
          rw [Script.closing, htotal]
        rw [hclosing] at hpre'
        have hpre'' : i <+: frameBytes d (ControlFrame.done n "") ++ [] := by
          rw [List.append_nil]
          exact hpre'
        obtain ⟨hi, hres⟩ := whole_eq_frameBytes hr (fits_done d n) hpre''
        refine .closing n htotal ?_ hres
        rw [hins, hi, hbytes, hclosing]
        rfl
  · rw [hall] at hpre
    have := hpre.length_le
    rw [List.length_append] at this
    omega
  · have := hs.orderly.ins_eq_nil hend
    rw [ht.ins] at this
    rw [this] at hlen
    simp at hlen

end Position

/-! ## One `next` call -/

section Wp

variable {I : Hist Call Call.Reply → Prop} {h : Hist Call Call.Reply} {d : Deps}

/-- A stretch of history in which the task only read. -/
structure Reads (t : Hist Call Call.Reply) : Prop where
  outs : t.outs = []
  notes : notes t = []

theorem Reads.of_recvs {t : Hist Call Call.Reply} {i : Bytes} (h : Recvs t i) : Reads t :=
  ⟨h.outs, notes_recvs h⟩

theorem Reads.recv (q : ReadRes) : Reads [.recv q] := ⟨rfl, rfl⟩

theorem Reads.append {t t' : Hist Call Call.Reply} (h : Reads t) (h' : Reads t') :
    Reads (t ++ t') :=
  ⟨by rw [Hist.outs_append, h.outs, h'.outs]; rfl,
    by rw [notes_append, h.notes, h'.notes]; rfl⟩

theorem Received.reads {F : Type} [Frame F] {t : Hist Call Call.Reply} {r : Result (Option F)}
    (h : Received F d t r) : Reads t := ⟨h.outs, h.notes⟩

/-- After a record. -/
theorem aligned_record {s : Script} {cs : List SinkCall} {c : SinkCall} {cs' : List SinkCall}
    (hcalls : s.calls = cs ++ c :: cs') {i : Bytes}
    (hi : i = frameBytes d (ControlFrame.plan s.plan) ++ wire d cs ++ c.bytes d) :
    ∃ cs cs', s.calls = cs ++ cs' ∧
      i = frameBytes d (ControlFrame.plan s.plan) ++ wire d cs := by
  refine ⟨cs ++ [c], cs', by rw [hcalls]; simp, ?_⟩
  rw [hi, wire_concat, List.append_assoc]

/-- The raw payload of a chunk, read after its frame. -/
theorem wp_payload {Q : Hist Call Call.Reply → Result Bytes → Prop} {n : Nat}
    {t : Hist Call Call.Reply} (ht : Reads t)
    (hI : ∀ t, Reads t → I (h ++ t))
    (hQ : ∀ t' r, Reads (t ++ t') →
      (Smooth (h ++ (t ++ t')) → t'.ins.length = n ∨ Ended (h ++ (t ++ t'))) →
      Q (h ++ (t ++ t')) r) :
    Proc.wp I Q (readExactIdle n).run (h ++ t) := by
  refine wp_readExact ?_ ?_ ?_
  · intro t' i ht' _
    rw [List.append_assoc]
    exact hI _ (ht.append (.of_recvs ht'))
  · intro t' i ht' hlen
    rw [List.append_assoc]
    refine hQ t' _ (ht.append (.of_recvs ht')) fun _ => .inl ?_
    rw [ht'.ins, hlen]
  · intro t' i q e ht' _ hq
    rw [List.append_assoc, List.append_assoc]
    refine hQ (t' ++ [.recv q]) _ (ht.append ((Reads.of_recvs ht').append (.recv q))) ?_
    intro hs
    rw [← List.append_assoc, ← List.append_assoc] at hs ⊢
    exact .inr (ended_of_stopped hs hq.ne_data)

/-- A data frame that arrives whole is the frame of the next record. -/
theorem NextFrame.data {s : Script} {i : Bytes} {f : DataFrame}
    (hn : NextFrame d s h i (.ok (some f))) :
    ∃ cs c cs', s.calls = cs ++ c :: cs' ∧ c.Fits d ∧ c.frame d = f ∧
      h.ins ++ i = frameBytes d (ControlFrame.plan s.plan) ++ wire d cs ++
        frameBytes d (c.frame d) := by
  cases hn with
  | record cs c cs' hcalls hfits hins hi hr =>
    rw [decode_encode_data] at hr
    refine ⟨cs, c, cs', hcalls, hfits, ?_, by rw [hins, hi]⟩
    simpa using hr.symm
  | closing n htotal hins hr =>
    rw [decode_data_of_done] at hr
    cases hr

/-- After a data frame without payload. -/
theorem Aligned.frame {t : Hist Call Call.Reply} {i : Bytes} {f : DataFrame}
    (ha : Aligned d h) (ht : Recvs t i)
    (hr : ∀ rest, frameOf DataFrame d (i ++ rest) = (.ok (some f), rest))
    (hpayload : ∀ c : SinkCall, c.frame d = f → c.payload = []) : Aligned d (h ++ t) := by
  intro hs s hfits hpre
  obtain ⟨cs, c, cs', hcalls, -, hf, hins⟩ := (ha.whole ht hr hs hfits hpre).data
  refine .inl (aligned_record hcalls ?_)
  rw [Hist.ins_append, ht.ins, hins, SinkCall.bytes, hpayload c hf, List.append_nil]

/-- After the frame and the payload of a chunk. -/
theorem Aligned.chunk {t t' : Hist Call Call.Reply} {i : Bytes} {itemId : UInt32}
    {offset : UInt64} {len : UInt32} {blake3 : String} (ha : Aligned d h) (ht : Recvs t i)
    (hr : ∀ rest, frameOf DataFrame d (i ++ rest) =
      (.ok (some (.chunkStart itemId offset len blake3)), rest))
    (ht' : Smooth (h ++ (t ++ t')) → t'.ins.length = len.toNat ∨ Ended (h ++ (t ++ t'))) :
    Aligned d (h ++ (t ++ t')) := by
  intro hs s hfits hpre
  rcases ht' hs with hlen | hend
  · have hs' : Smooth (h ++ t) := by
      rw [← List.append_assoc] at hs
      exact hs.left
    have hpre' : (h ++ t).ins ++ t'.ins <+: s.bytes d := by
      rw [← List.append_assoc, Hist.ins_append] at hpre
      exact hpre
    obtain ⟨cs, c, cs', hcalls, hc, hf, hins⟩ :=
      (ha.whole ht hr hs' hfits ((List.prefix_append _ _).trans hpre')).data
    have hins' : (h ++ t).ins = frameBytes d (ControlFrame.plan s.plan) ++ wire d cs ++
        frameBytes d (c.frame d) := by
      rw [Hist.ins_append, ht.ins, hins]
    have hbytes : s.bytes d = frameBytes d (ControlFrame.plan s.plan) ++ wire d cs ++
        frameBytes d (c.frame d) ++ (c.payload ++ (wire d cs' ++ s.closing d)) := by
      rw [Script.bytes, hcalls, wire_append, wire_cons, SinkCall.bytes]
      simp only [List.append_assoc]
    -- the payload is as long as the frame says
    have hpayload : c.payload.length = len.toNat := by
      cases c with
      | sendChunk itemId' offset' data =>
        simp only [SinkCall.frame, DataFrame.chunkStart.injEq] at hf
        have hle : data.length ≤ CHUNK_SIZE := hc.1
        have hlt : data.length < 2 ^ 32 := Nat.lt_of_le_of_lt hle (by decide)
        rw [← hf.2.2.1]
        exact (UInt32.toNat_ofNat_of_lt' hlt).symm
      | finishItem itemId' total blake3' => cases hf
      | finish => cases hf
    have hdata : t'.ins = c.payload := by
      rw [hins', hbytes] at hpre'
      have := (List.prefix_append_right_inj _).mp hpre'
      exact List.prefix_of_prefix_length_le this (List.prefix_append _ _)
        (by omega) |>.eq_of_length (by omega)
    refine .inl (aligned_record hcalls ?_)
    rw [← List.append_assoc, Hist.ins_append, hins', hdata, SinkCall.bytes, List.append_assoc,
      List.append_assoc]
  · exact .inr (.inr hend)

/-- After a stretch that reads nothing. -/
theorem Aligned.idle {t : Hist Call Call.Reply} (ha : Aligned d h) (ht : t.ins = []) :
    Aligned d (h ++ t) := by
  intro hs s hfits hpre
  rw [Hist.ins_append, ht, List.append_nil] at hpre ⊢
  rcases ha hs.left s hfits hpre with hcs | hall | hend
  · exact .inl hcs
  · exact .inr (.inl hall)
  · exact .inr (.inr (hend.append_left t))

/-- `next` keeps the destination aligned. -/
theorem wp_next {Q : Hist Call Call.Reply → Result ChunkEvent × Progress → Prop} {p : Progress}
    (ha : Aligned d h) (hI : ∀ t, Reads t → I (h ++ t))
    (hQ : ∀ t r p', Reads t → Aligned d (h ++ t) → Q (h ++ t) (r, p')) :
    Proc.wp I Q ((next d).run p) h := by
  simp only [next, Metered.run_bind, Metered.run_monadLift, Proc.bind_assoc, Proc.ret_bind]
  rw [Proc.wp_bind]
  refine wp_recvFrame (fun t i ht => hI t (.of_recvs ht)) ?_
  intro t r hrec
  have hreads := hrec.reads
  cases hrec with
  | ended ht hi =>
    refine hQ _ _ _ hreads fun hs s _ _ => .inr (.inr ?_)
    exact List.mem_append_right h (List.mem_append_right _ (List.mem_singleton_self _))
  | @cut t i q e ht hi hq =>
    refine hQ _ _ _ hreads fun hs s _ _ => .inr (.inr ?_)
    rw [← List.append_assoc] at hs ⊢
    exact ended_of_stopped hs hq
  | whole ht hr =>
    cases r with
    | error e =>
      refine hQ _ _ _ hreads fun hs s hfits hpre => .inr (.inl ?_)
      cases ha.whole ht hr hs hfits hpre with
      | record cs c cs' hcalls hc hins hi hres =>
        rw [decode_encode_data] at hres
        cases hres
      | closing n htotal hins hres => rw [Hist.ins_append, ht.ins, hins]
    | ok frame =>
      cases frame with
      | none => exact absurd (frameOf_eq_none.mp (hr [0])).2 (by simp)
      | some frame =>
        simp only [Metered.cont_ok]
        cases frame with
        | streamEnd =>
          refine hQ _ _ _ hreads (ha.frame ht hr fun c hc => ?_)
          cases c with
          | sendChunk itemId offset data => cases hc
          | finishItem itemId total blake3 => rfl
          | finish => rfl
        | itemEnd itemId total blake3 =>
          refine hQ _ _ _ hreads (ha.frame ht hr fun c hc => ?_)
          cases c with
          | sendChunk itemId' offset data => cases hc
          | finishItem itemId' total' blake3' => rfl
          | finish => rfl
        | chunkStart itemId offset len blake3 =>
          simp only [handleFrame, Metered.run_bind, Metered.run_monadLift, Proc.bind_assoc,
            Proc.ret_bind]
          rw [Proc.wp_bind]
          refine wp_payload hreads hI ?_
          intro t' r' hreads' ht'
          have ha' := ha.chunk ht hr ht'
          cases r' with
          | error e => exact hQ _ _ _ hreads' ha'
          | ok data =>
            simp only [Metered.cont_ok]
            split
            · exact hQ _ _ _ hreads' ha'
            · exact hQ _ _ _ hreads' ha'

/-- Every `stream_in` keeps the destination aligned. -/
theorem wp_streamIn {Q : Hist Call Call.Reply → Result Unit × Progress → Prop}
    {prog : StreamInProg} {p : Progress} {t : Hist Call Call.Reply} (ht : Reads t)
    (ha : Aligned d (h ++ t)) (hI : ∀ t, Reads t → I (h ++ t))
    (hQ : ∀ t r p', Reads t → Aligned d (h ++ t) → Q (h ++ t) (r, p')) :
    Proc.wp I Q ((prog.perform d).run p) (h ++ t) := by
  induction prog generalizing t p with
  | ret r => exact hQ t r p ht ha
  | next k ih =>
    simp only [StreamInProg.perform, Metered.run_bind, Metered.run_attempt,
      Metered.run_monadLift, Core.mark, Proc.bind_assoc, Proc.ret_bind, Proc.call_bind,
      Metered.cont_ok]
    rw [Proc.wp_bind]
    refine wp_next ha ?_ ?_
    · intro t' ht'
      rw [List.append_assoc]
      exact hI _ (ht.append ht')
    · intro t' r p' ht' ha'
      rw [List.append_assoc] at ha' ⊢
      refine ⟨hI _ (ht.append ht'), fun _ => ?_⟩
      have hmark := ha'.idle (t := [.call (.mark (.next r)) ()]) rfl
      rw [List.append_assoc] at hmark ⊢
      exact ih r ((ht.append ht').append ⟨rfl, rfl⟩) hmark

/-! ## The whole destination -/

/-- The destination has approved and has sent its decision. -/
structure Accepting (d : Deps) (plan : BackupPlan) (preflight : Preflight)
    (h : Hist Call Call.Reply) : Prop where
  hasPlan : HasPlan d plan h
  ok : preflight.ok = true
  notes : notes h = decisionNotes plan preflight true
  outs : h.outs = frameBytes d (ControlFrame.planAck true (reasonFor preflight true))
  aligned : Aligned d h

/-- A completion frame that arrives whole is the source's. -/
theorem Aligned.atEnd {t : Hist Call Call.Reply} {i : Bytes} {n : UInt64} {blake3 : String}
    (ha : Aligned d h) (ht : Recvs t i)
    (hr : ∀ rest, frameOf ControlFrame d (i ++ rest) = (.ok (some (.done n blake3)), rest)) :
    AtEnd d n (h ++ t) := by
  intro hs s hfits hpre
  cases ha.whole ht hr hs hfits hpre with
  | record cs c cs' hcalls hc hins hi hres =>
    rw [decode_control_of_data] at hres
    cases hres
  | closing m htotal hins hres =>
    rw [decode_encode_done] at hres
    simp only [Except.ok.injEq, Option.some.injEq, ControlFrame.done.injEq] at hres
    exact ⟨by rw [htotal, hres.1], by rw [Hist.ins_append, ht.ins, hins]⟩

theorem AtEnd.idle {n : UInt64} {t : Hist Call Call.Reply} (ha : AtEnd d n h)
    (ht : t.ins = []) : AtEnd d n (h ++ t) := by
  intro hs s hfits hpre
  rw [Hist.ins_append, ht, List.append_nil] at hpre ⊢
  exact ha hs.left s hfits hpre

/-- `stream_in` has returned `Ok`. -/
structure Applied (d : Deps) (plan : BackupPlan) (preflight : Preflight)
    (h : Hist Call Call.Reply) : Prop where
  hasPlan : HasPlan d plan h
  ok : preflight.ok = true
  notes : notes h = decisionNotes plan preflight true ++
    [⟨.mark (.streamIn plan), ()⟩, ⟨.mark (.streamInReturned (.ok ())), ()⟩]
  outs : h.outs = frameBytes d (ControlFrame.planAck true (reasonFor preflight true))
  aligned : Aligned d h

/-- The decision's own calls are not marks. -/
theorem mark_notMem_decisionNotes {plan : BackupPlan} {preflight : Preflight} {b : Bool}
    (m : Mark) : (⟨.mark m, ()⟩ : Sigma Call.Reply) ∉ decisionNotes plan preflight b := by
  rw [decisionNotes]
  split
  · simp
  · simp

/-- The completion frame. -/
theorem wp_complete {plan : BackupPlan} {preflight : Preflight} {p : Progress}
    (ha : Applied d plan preflight h) :
    Proc.wp (DestLog d) (fun h o => DestEnd d h o.1)
      ((recvFrame ControlFrame d).run.bind fun r =>
        Metered.cont (fun frame => complete plan frame) (r, p)) h := by
  have hlog : ∀ t, Reads t → DestLog d (h ++ t) := by
    intro t ht
    refine .applying plan preflight _ (ha.hasPlan.append t) ha.ok (.returned plan (.ok ())) ?_ ?_
    · rw [notes_append, ht.notes, List.append_nil, ha.notes]
    · rw [Hist.outs_append, ht.outs, List.append_nil, ha.outs]
  have hnotes : ∀ t m, Reads t → notes [.call (.mark m) ()] = [⟨.mark m, ()⟩] →
      notes (h ++ t ++ [.call (.mark m) ()]) = decisionNotes plan preflight true ++
        [⟨.mark (.streamIn plan), ()⟩, ⟨.mark (.streamInReturned (.ok ())), ()⟩,
          ⟨.mark m, ()⟩] := by
    intro t m ht hm
    rw [notes_append, notes_append, ht.notes, hm, List.append_nil, ha.notes, List.append_assoc]
    rfl
  have houts : ∀ t m, Reads t → Hist.outs (h ++ t ++ [.call (.mark m) ()]) =
      frameBytes d (ControlFrame.planAck true (reasonFor preflight true)) := by
    intro t m ht
    rw [Hist.outs_append, Hist.outs_append, ht.outs, ha.outs]
    simp
  -- any frame but the two it knows is only warned about
  have hunexpected : ∀ t, Reads t →
      DestEnd d (h ++ t ++ [.call (.mark .unexpectedCompletion) ()]) (.ok plan) := by
    intro t ht
    have hn := hnotes t .unexpectedCompletion ht rfl
    refine .unexpected (.applying plan preflight _ ((ha.hasPlan.append t).append _) ha.ok
      (.unexpected plan) hn (houts t _ ht)) ?_
    intro n hmem
    rw [hn] at hmem
    rcases List.mem_append.mp hmem with hmem | hmem
    · exact mark_notMem_decisionNotes _ hmem
    · simp at hmem
  rw [Proc.wp_bind]
  refine wp_recvFrame (fun t i ht => hlog t (.of_recvs ht)) ?_
  intro t r hrec
  have hreads := hrec.reads
  cases r with
  | error e => exact .failed (hlog t hreads)
  | ok frame =>
    cases frame with
    | none => exact ⟨hlog t hreads, fun _ => hunexpected t hreads⟩
    | some frame =>
      cases frame with
      | plan plan' => exact ⟨hlog t hreads, fun _ => hunexpected t hreads⟩
      | planAck accepted reason => exact ⟨hlog t hreads, fun _ => hunexpected t hreads⟩
      | abort reason => exact .failed (hlog t hreads)
      | done n blake3 =>
        refine ⟨hlog t hreads, fun _ => ?_⟩
        have hn := hnotes t (.restoreComplete n) hreads rfl
        refine .complete (n := n) (.applying plan preflight _ ((ha.hasPlan.append t).append _) ha.ok
          (.complete plan n) hn (houts t _ hreads)) ?_ ?_ ?_
        · rw [hn]
          simp
        · intro m hmem
          rw [hn] at hmem
          rcases List.mem_append.mp hmem with hmem | hmem
          · exact absurd hmem (mark_notMem_decisionNotes _)
          · simpa using hmem
        · cases hrec with
          | whole ht hr => exact (ha.aligned.atEnd ht hr).idle rfl

theorem wp_applyPayload {streamIn : BackupPlan → StreamInProg} {plan : BackupPlan}
    (preflight : Preflight) {p : Progress} (ha : Accepting d plan preflight h) :
    Proc.wp (DestLog d) (fun h o => DestEnd d h o.1)
      ((applyPayload d streamIn plan).run p) h := by
  simp only [applyPayload, Core.mark, Metered.run_bind, Metered.run_monadLift, Proc.call_bind,
    Proc.ret_bind, Metered.cont_ok, Metered.run_attempt, Proc.bind_assoc]
  refine ⟨.decided plan preflight true ha.hasPlan (fun _ => ha.ok) ha.notes (by rw [ha.outs]),
    fun _ => ?_⟩
  rw [Proc.wp_bind]
  have hstart := ha.aligned.idle (t := [.call (.mark (.streamIn plan)) ()]) rfl
  have houts : ∀ t, Reads t → Hist.outs (h ++ [.call (.mark (.streamIn plan)) ()] ++ t) =
      frameBytes d (ControlFrame.planAck true (reasonFor preflight true)) := by
    intro t ht
    rw [Hist.outs_append, Hist.outs_append, ht.outs, ha.outs]
    simp
  have hnotes : ∀ t, Reads t → notes (h ++ [.call (.mark (.streamIn plan)) ()] ++ t) =
      decisionNotes plan preflight true ++ [⟨.mark (.streamIn plan), ()⟩] := by
    intro t ht
    rw [notes_append, notes_append, ht.notes, ha.notes, List.append_nil]
    rfl
  have hlog : ∀ t, Reads t → DestLog d (h ++ [.call (.mark (.streamIn plan)) ()] ++ t) :=
    fun t ht => .applying plan preflight _ ((ha.hasPlan.append _).append t) ha.ok (.entered plan)
      (hnotes t ht) (houts t ht)
  rw [← List.append_nil (h ++ [_])] at hstart ⊢
  refine wp_streamIn ⟨rfl, rfl⟩ hstart hlog ?_
  intro t r p' ht hal
  refine ⟨hlog t ht, fun _ => ?_⟩
  have hnotes' : notes (h ++ [.call (.mark (.streamIn plan)) ()] ++ t ++
      [.call (.mark (.streamInReturned r)) ()]) = decisionNotes plan preflight true ++
        [⟨.mark (.streamIn plan), ()⟩, ⟨.mark (.streamInReturned r), ()⟩] := by
    rw [notes_append, hnotes t ht, List.append_assoc]
    rfl
  have houts' : Hist.outs (h ++ [.call (.mark (.streamIn plan)) ()] ++ t ++
      [.call (.mark (.streamInReturned r)) ()]) =
        frameBytes d (ControlFrame.planAck true (reasonFor preflight true)) := by
    rw [Hist.outs_append, houts t ht]
    simp
  have hplan' : HasPlan d plan (h ++ [.call (.mark (.streamIn plan)) ()] ++ t ++
      [.call (.mark (.streamInReturned r)) ()]) := ((ha.hasPlan.append _).append t).append _
  cases r with
  | error e =>
    exact .failed (.applying plan preflight _ hplan' ha.ok (.returned plan _) hnotes' houts')
  | ok _ =>
    simp only [Metered.run_ofResult, Proc.ret_bind, Metered.cont_ok, Metered.run_bind,
      Metered.run_monadLift, Proc.bind_assoc]
    exact wp_complete ⟨hplan', ha.ok, hnotes', houts', hal.idle rfl⟩

end Wp

/-! ## Up to the decision -/

/-- The decision always fits. -/
theorem fits_planAck (d : Deps) (preflight : Preflight) (approved : Bool) :
    Fits d (ControlFrame.planAck approved (reasonFor preflight approved)) := by
  have h : ∀ reason, reason = "preflight failed" ∨ reason = "rejected by operator" ∨
      reason = "accepted" → Fits d (ControlFrame.planAck approved reason) := by
    intro reason hreason
    refine fits_of_size (plain_planAck approved reason).1 ?_
    rcases hreason with rfl | rfl | rfl
    · cases approved <;> decide
    · cases approved <;> decide
    · cases approved <;> decide
  refine h _ ?_
  rw [reasonFor]
  split
  · exact .inl rfl
  · split
    · exact .inr (.inl rfl)
    · exact .inr (.inr rfl)

/-- The plan has been received. -/
structure Planned (d : Deps) (plan : BackupPlan) (h : Hist Call Call.Reply) : Prop where
  hasPlan : HasPlan d plan h
  notes : notes h = [⟨.openStream, .ok ()⟩]
  outs : h.outs = []
  aligned : Aligned d h

/-- The decision has been made and not yet sent. -/
structure Decided (d : Deps) (plan : BackupPlan) (preflight : Preflight) (approved : Bool)
    (h : Hist Call Call.Reply) : Prop where
  hasPlan : HasPlan d plan h
  ok : approved = true → preflight.ok = true
  notes : notes h = decisionNotes plan preflight approved
  outs : h.outs = []
  aligned : Aligned d h

/-- The destination once it has decided. -/
def answer (d : Deps) (streamIn : BackupPlan → StreamInProg) (plan : BackupPlan)
    (preflight : Preflight) (approved : Bool) : Metered BackupPlan := do
  let reason := reasonFor preflight approved
  sendAck d approved reason
  if !approved then
    Metered.ofResult (.error (refusal preflight reason))
  else
    applyPayload d streamIn plan

theorem runDestination_eq (d : Deps) (streamIn : BackupPlan → StreamInProg) :
    runDestination d streamIn = (do
      openStream
      let plan ← recvPlan d
      let preflight ← validate plan
      let approved ← decideApproval plan preflight
      answer d streamIn plan preflight approved) := rfl

theorem wp_answer {d : Deps} {streamIn : BackupPlan → StreamInProg} {plan : BackupPlan}
    {preflight : Preflight} {approved : Bool} {p : Progress} {h : Hist Call Call.Reply}
    (hd : Decided d plan preflight approved h) :
    Proc.wp (DestLog d) (fun h o => DestEnd d h o.1)
      ((answer d streamIn plan preflight approved).run p) h := by
  have hlog : ∀ t o, notes t = [] → t.outs = o → o <+: frameBytes d
      (ControlFrame.planAck approved (reasonFor preflight approved)) → DestLog d (h ++ t) := by
    intro t o hnotes houts ho
    refine .decided plan preflight approved (hd.hasPlan.append t) hd.ok ?_ ?_
    · rw [notes_append, hnotes, List.append_nil, hd.notes]
    · rw [Hist.outs_append, hd.outs, houts]
      exact ho
  simp only [answer, Metered.run_bind, Metered.run_monadLift, Proc.bind_assoc, Proc.ret_bind]
  rw [Proc.wp_bind]
  refine wp_sendFrame (fun t o _ ht ho => hlog t o ht.notes ht.outs ho) ?_
  intro t r ht
  cases r with
  | error e =>
    refine .failed ?_
    have hnotes := ht.notes
    cases ht with
    | refused hf => exact absurd (fits_planAck d preflight approved) hf
    | broken hf ht ho ha _ =>
      refine hlog _ _ hnotes rfl ?_
      rw [Hist.outs_append, ht.outs, ha.emits.outs, List.append_nil]
      exact ho
  | ok _ =>
    obtain ⟨-, hsent⟩ := ht.emits_of_ok
    simp only [Metered.cont_ok]
    cases approved with
    | false => exact .failed (hlog t _ hsent.notes hsent.outs (List.prefix_refl _))
    | true =>
      refine wp_applyPayload preflight ⟨hd.hasPlan.append t, hd.ok rfl, ?_, ?_, ?_⟩
      · rw [notes_append, hsent.notes, List.append_nil, hd.notes]
      · rw [Hist.outs_append, hd.outs, hsent.outs]
        rfl
      · exact hd.aligned.idle hsent.ins

/-- From the plan to the decision. -/
theorem wp_decide {d : Deps} {streamIn : BackupPlan → StreamInProg} (plan : BackupPlan)
    {p : Progress} {h : Hist Call Call.Reply} (hp : Planned d plan h) :
    Proc.wp (DestLog d) (fun h o => DestEnd d h o.1)
      ((do
        let preflight ← validate plan
        let approved ← decideApproval plan preflight
        answer d streamIn plan preflight approved : Metered BackupPlan).run p) h := by
  simp only [validate, Metered.run_bind, Metered.run_monadLift, Proc.call_bind, Proc.ret_bind]
  refine ⟨.opening hp.outs ?_, fun r => ?_⟩
  · intro c hc
    rw [hp.notes, List.mem_singleton] at hc
    rw [hc]
  have hnotes : notes (h ++ [.call (.validate plan) r]) =
      [⟨.openStream, .ok ()⟩, ⟨.validate plan, r⟩] := by
    rw [notes_append, hp.notes]
    rfl
  have houts : Hist.outs (h ++ [.call (.validate plan) r]) = [] := by
    rw [Hist.outs_append, hp.outs]
    rfl
  have hal := hp.aligned.idle (t := [.call (.validate plan) r]) rfl
  have hplan := hp.hasPlan.append [.call (.validate plan) r]
  cases r with
  | error e => exact .failed (.validated plan _ hplan houts hnotes)
  | ok preflight =>
    simp only [Metered.cont_ok, Metered.run_bind, Metered.run_monadLift, decideApproval]
    by_cases hok : preflight.ok = true
    · rw [if_pos hok]
      refine ⟨.validated plan _ hplan houts hnotes, fun approved => ?_⟩
      refine wp_answer ⟨hplan.append _, fun _ => hok, ?_, ?_, hal.idle rfl⟩
      · rw [notes_append, hnotes, decisionNotes, if_pos hok]
        rfl
      · rw [Hist.outs_append, houts]
        rfl
    · rw [if_neg hok]
      refine wp_answer ⟨hplan, (fun h => by cases h), ?_, houts, hal⟩
      rw [hnotes, decisionNotes, if_neg hok]
      rfl

/-- The first frame of a source's output is its plan. -/
theorem aligned_plan {d : Deps} {h t : Hist Call Call.Reply} {r : Result (Option ControlFrame)}
    {plan : BackupPlan} (hins : h.ins = []) (ht : Received ControlFrame d t r)
    (hr : r = .ok (some (.plan plan))) : Aligned d (h ++ t) := by
  subst hr
  cases ht with
  | whole ht hr =>
    intro hs s hfits hpre
    rw [Hist.ins_append, hins, ht.ins, List.nil_append] at hpre ⊢
    obtain ⟨hi, -⟩ := whole_eq_frameBytes hr hfits.plan hpre
    exact .inl ⟨[], s.calls, rfl, by rw [hi]; exact (List.append_nil _).symm⟩

/-- Every run of the destination side, on every channel. -/
theorem wp_runDestination (d : Deps) (streamIn : BackupPlan → StreamInProg) (p : Progress) :
    Proc.wp (DestLog d) (fun h o => DestEnd d h o.1)
      ((runDestination d streamIn).run p) [] := by
  rw [runDestination_eq]
  simp only [openStream, recvPlan, Metered.run_bind, Metered.run_monadLift, Proc.call_bind,
    Proc.ret_bind]
  refine ⟨.opening rfl fun c hc => by simp at hc, fun r => ?_⟩
  have hopening : ∀ t, Reads t → DestLog d ([] ++ [.call .openStream r] ++ t) := by
    intro t ht
    refine .opening ?_ fun c hc => ?_
    · rw [Hist.outs_append, ht.outs]
      rfl
    · rw [notes_append, ht.notes, List.append_nil] at hc
      obtain rfl := List.mem_singleton.mp (show c ∈ [⟨.openStream, r⟩] from hc)
      rfl
  cases r with
  | error e => exact .failed (hopening [] ⟨rfl, rfl⟩)
  | ok _ =>
    simp only [Metered.cont_ok, Metered.run_bind, Metered.run_monadLift, Task.run_bind,
      Proc.bind_assoc]
    rw [Proc.wp_bind]
    refine wp_recvFrame (fun t i ht => hopening t (.of_recvs ht)) ?_
    intro t r hrec
    have hlog := hopening t hrec.reads
    cases r with
    | error e => exact .failed hlog
    | ok frame =>
      cases frame with
      | none => exact .failed hlog
      | some frame =>
        cases frame with
        | plan plan =>
          refine wp_decide plan ⟨?_, ?_, ?_, aligned_plan rfl hrec rfl⟩
          · refine ⟨t.ins, hrec.isFrame.2, ?_⟩
            rw [Hist.ins_append]
            exact List.prefix_refl _
          · rw [notes_append, hrec.notes]
            rfl
          · rw [Hist.outs_append, hrec.outs]
            rfl
        | planAck accepted reason => exact .failed hlog
        | done n blake3 => exact .failed hlog
        | abort reason => exact .failed hlog

end RustBackup.Core
