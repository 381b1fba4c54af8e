/-
  Core/SourceLog.lean --- what a run of `run_source` can look like.

  The source is a machine with five stages: it opens the channel, sends the plan
  and waits, streams, closes, and audits.  `SourceLog` says what the history of a
  run that stands in a stage is made of, `SourceEnd` how a run can end, and
  `wp_runSource` that there is nothing else, for every channel, every peer and
  every source.

  Two things are said only of runs over a reliable stream (`Smooth`): the bytes
  sent are a prefix of a `Script`.  A failed write that `stream_out` ignores would
  otherwise leave a gap.
-/
import RustBackup.Core.Script
import RustBackup.Core.Session

set_option autoImplicit false

namespace RustBackup.Core

open RustBackup.Serde RustBackup.Io

/-! ## The stages -/

/-- The calls of a source whose channel is open. -/
def openingNotes (fp : String) (plan : BackupPlan) : Calls Call Call.Reply :=
  [⟨.fingerprint, .ok fp⟩, ⟨.analyze, .ok plan⟩, ⟨.acceptStream, .ok ()⟩]

/-- `stream_out` is entered. -/
def noteStreamOut (plan : BackupPlan) : Sigma Call.Reply := ⟨.mark (.streamOut plan), ()⟩

/-- `stream_out` returned. -/
def noteStreamed (r : Result Unit) : Sigma Call.Reply := ⟨.mark (.streamOutReturned r), ()⟩

/-- What arrived is one frame, an accepting decision. -/
def Acked (d : Deps) (h : Hist Call Call.Reply) : Prop :=
  ∃ reason, IsFrame ControlFrame d h.ins (.planAck true reason)

/-- Nothing has been sent or received yet. -/
structure Opening (h : Hist Call Call.Reply) : Prop where
  ins : h.ins = []
  outs : h.outs = []
  notes : ∀ c ∈ notes h, c.1 = .fingerprint ∨ c.1 = .analyze ∨ c.1 = .acceptStream

/-- The completion frame has been sent and the audit comes next. -/
structure Closed (d : Deps) (fp : String) (plan : BackupPlan) (n : UInt64)
    (h : Hist Call Call.Reply) : Prop where
  first : ∃ t, h = .call .fingerprint (.ok fp) :: t
  notes : notes h = openingNotes fp plan ++ [noteStreamOut plan, noteStreamed (.ok ())]
  acked : Acked d h
  sent : Smooth h → ∃ s : Script, s.plan = plan ∧ (∃ cs, s.calls = cs ++ [.finish]) ∧
    s.total = some n ∧ s.Fits d ∧ h.outs = s.bytes d

/-- The history of a run that stands in one of the stages.  `cut` says that the run
stops there. -/
inductive SourceLog (d : Deps) (cut : Prop) (h : Hist Call Call.Reply) : Prop where
  | opening (hopening : Opening h)
  | planned (fp : String) (plan : BackupPlan) (hnotes : notes h = openingNotes fp plan)
      (houts : h.outs <+: frameBytes d (ControlFrame.plan plan))
      (hfits : Fits d (ControlFrame.plan plan) ∨ h.outs = [])
  | streaming (fp : String) (plan : BackupPlan)
      (hnotes : notes h = openingNotes fp plan ++ [noteStreamOut plan]) (hack : Acked d h)
      (hsent : Smooth h → ∃ s : Script, s.plan = plan ∧ s.total = none ∧ s.Fits d ∧
        h.outs <+: s.bytes d)
  | closing (fp : String) (plan : BackupPlan) (r : Result Unit)
      (hnotes : notes h = openingNotes fp plan ++ [noteStreamOut plan, noteStreamed r])
      (hack : Acked d h)
      (hsent : Smooth h → ∃ s : Script, s.plan = plan ∧ s.total.isSome ∧ s.Fits d ∧
        h.outs <+: s.bytes d ∧ (r = .ok () ∨ h.outs ≠ s.bytes d) ∧ (cut → h.outs ≠ s.bytes d))
  | closed (fp : String) (plan : BackupPlan) (n : UInt64) (hclosed : Closed d fp plan n h)
      (hcut : ¬ cut)

/-- `stream_out` has been entered and has not returned. -/
def InStreamOut (t : Hist Call Call.Reply) : Prop :=
  (∃ plan, noteStreamOut plan ∈ t.calls) ∧ ∀ r, noteStreamed r ∉ t.calls

/-- Nothing `run_source` itself depends on failed: its calls succeed, the plan fits,
the peer's answer is an accepting decision, `stream_out` returns `Ok`, and every
write and flush outside `stream_out` succeeds. -/
structure Uninterrupted (d : Deps) (h : Hist Call Call.Reply) : Prop where
  fingerprint : ∀ r, (⟨.fingerprint, r⟩ : Sigma Call.Reply) ∈ h.calls → ∃ fp, r = .ok fp
  analyze : ∀ r, (⟨.analyze, r⟩ : Sigma Call.Reply) ∈ h.calls →
    ∃ plan, r = .ok plan ∧ Fits d (ControlFrame.plan plan)
  acceptStream : ∀ r, (⟨.acceptStream, r⟩ : Sigma Call.Reply) ∈ h.calls → r = .ok ()
  acked : Acked d h
  streamOut : ∀ r, noteStreamed r ∈ h.calls → r = .ok ()
  channel : ∀ t a t', h = t ++ a :: t' → Failing a → InStreamOut t

/-- The audit's verdict, from the baseline and the second fingerprint. -/
def audit (fp : String) (plan : BackupPlan) (n : UInt64) :
    Result String → Result SourceOutcome
  | .ok fp' => if fp ≠ fp' then .error (mutatedError fp fp') else .ok ⟨plan, n⟩
  | .error e => .error e

/-- How a run ends. -/
inductive SourceEnd (d : Deps) (h : Hist Call Call.Reply) : Result SourceOutcome → Prop where
  /-- before the audit -/
  | failed {e : BackupError} (hlog : SourceLog d True h) (hint : ¬ Uninterrupted d h) :
      SourceEnd d h (.error e)
  /-- with the audit -/
  | audited {h₀ : Hist Call Call.Reply} {fp : String} {plan : BackupPlan} {n : UInt64}
      {r : Result String} (heq : h = h₀ ++ [.call .fingerprint r])
      (hclosed : Closed d fp plan n h₀) : SourceEnd d h (audit fp plan n r)

/-! ## The source in parts -/

/-- The audit of a source that has sent its completion frame. -/
def auditSource (fpBefore : String) (plan : BackupPlan) (bytesSent : UInt64) :
    Metered SourceOutcome := do
  let fpAfter ← fingerprint
  if fpBefore ≠ fpAfter then
    Metered.ofResult (.error (mutatedError fpBefore fpAfter))
  else
    return { plan, bytesSent }

/-- The closing frames and the audit. -/
def closeSource (d : Deps) (fpBefore : String) (plan : BackupPlan) : Metered SourceOutcome := do
  finish d
  let bytesSent ← Metered.bytes
  sendFrame d (ControlFrame.done bytesSent "")
  auditSource fpBefore plan bytesSent

/-- Everything after the decision arrived. -/
def streamSource (d : Deps) (streamOut : BackupPlan → SinkProg) (fpBefore : String)
    (plan : BackupPlan) : Metered SourceOutcome := do
  mark (.streamOut plan)
  let r ← Metered.attempt ((streamOut plan).perform d)
  mark (.streamOutReturned r)
  Metered.ofResult r
  closeSource d fpBefore plan

theorem runSource_eq (d : Deps) (streamOut : BackupPlan → SinkProg) :
    runSource d streamOut = (do
      let fpBefore ← fingerprint
      let plan ← analyze
      acceptStream
      sendPlan d plan
      recvAck d
      streamSource d streamOut fpBefore plan) := rfl

/-! ## The closing stage -/

/-- `stream_out` has returned `Ok` and everything it sent stands. -/
structure Streamed (d : Deps) (fp : String) (plan : BackupPlan) (h : Hist Call Call.Reply) :
    Prop where
  first : ∃ t, h = .call .fingerprint (.ok fp) :: t
  notes : notes h = openingNotes fp plan ++ [noteStreamOut plan, noteStreamed (.ok ())]
  acked : Acked d h
  fits : Fits d (ControlFrame.plan plan)
  shaped : Shaped d (frameBytes d (ControlFrame.plan plan)) h

theorem Acked.append {d : Deps} {h t : Hist Call Call.Reply} (ha : Acked d h)
    (ht : t.ins = []) : Acked d (h ++ t) := by
  rw [Acked, Hist.ins_append, ht, List.append_nil]
  exact ha

theorem first_append {fp : String} {h : Hist Call Call.Reply}
    (hf : ∃ t, h = .call .fingerprint (.ok fp) :: t) (t : Hist Call Call.Reply) :
    ∃ t', h ++ t = .call .fingerprint (.ok fp) :: t' := by
  obtain ⟨t', rfl⟩ := hf
  exact ⟨t' ++ t, rfl⟩

/-- A send that failed outside `stream_out` interrupts the run. -/
theorem not_uninterrupted_of_failing {d : Deps} {t : Hist Call Call.Reply}
    {a : Act Call Call.Reply} (ha : Failing a) (hout : ¬ InStreamOut t) :
    ¬ Uninterrupted d (t ++ [a]) :=
  fun hu => hout (hu.channel t a [] rfl ha)

theorem not_inStreamOut_of_streamed {t : Hist Call Call.Reply} {r : Result Unit}
    (h : noteStreamed r ∈ notes t) : ¬ InStreamOut t :=
  fun hin => hin.2 r (mem_calls_of_mem_notes h)

theorem script_bytes_some (d : Deps) (plan : BackupPlan) (cs : List SinkCall) (n : UInt64) :
    (⟨plan, cs, some n⟩ : Script).bytes d =
      frameBytes d (ControlFrame.plan plan) ++ wire d cs ++
        frameBytes d (ControlFrame.done n "") := by
  rw [Script.bytes, List.append_assoc]
  rfl

/-- A prefix of the plan and some records is a strict prefix of a script. -/
theorem prefix_script {d : Deps} {plan : BackupPlan} {cs : List SinkCall} {o : Bytes}
    (n : UInt64) (ho : o <+: frameBytes d (ControlFrame.plan plan) ++ wire d cs) :
    o <+: (⟨plan, cs, some n⟩ : Script).bytes d ∧
      o ≠ (⟨plan, cs, some n⟩ : Script).bytes d := by
  rw [script_bytes_some]
  refine ⟨ho.trans (List.prefix_append _ _), ?_⟩
  intro h
  have hlen := ho.length_le
  rw [h, List.length_append, length_frameBytes d (ControlFrame.done n "")] at hlen
  omega

/-- The closing stage before anything of the completion frame is sent. -/
theorem SourceLog.closing_of_part {d : Deps} {cut : Prop} {plan : BackupPlan}
    {h : Hist Call Call.Reply}
    (fp : String) (r : Result Unit)
    (hnotes : notes h = openingNotes fp plan ++ [noteStreamOut plan, noteStreamed r])
    (hack : Acked d h) (hfits : Fits d (ControlFrame.plan plan))
    (hp : Partial d (frameBytes d (ControlFrame.plan plan)) h) : SourceLog d cut h := by
  refine .closing fp plan r hnotes hack fun hs => ?_
  obtain ⟨cs, hcs, hpre⟩ := hp hs
  obtain ⟨h1, h2⟩ := prefix_script 0 hpre
  exact ⟨⟨plan, cs, some 0⟩, rfl, rfl, ⟨hfits, hcs⟩, h1, .inr h2, fun _ => h2⟩

theorem wp_auditSource {d : Deps} {fp : String} {plan : BackupPlan} {n : UInt64}
    {p : Progress} {h : Hist Call Call.Reply} (hc : Closed d fp plan n h) :
    Proc.wp (SourceLog d False) (fun h o => SourceEnd d h o.1)
      ((auditSource fp plan n).run p) h := by
  refine ⟨.closed fp plan n hc id, fun r => ?_⟩
  have hend : SourceEnd d (h ++ [.call .fingerprint r]) (audit fp plan n r) := .audited rfl hc
  cases r with
  | error e => exact hend
  | ok fp' =>
    simp only [audit] at hend
    simp only [Proc.ret_bind, Metered.cont_ok]
    split
    case isTrue hne =>
      rw [if_pos hne] at hend
      exact hend
    case isFalse heq =>
      rw [if_neg heq] at hend
      exact hend

theorem wp_closeSource {d : Deps} {fp : String} {plan : BackupPlan} {p : Progress}
    {h : Hist Call Call.Reply} (hs : Streamed d fp plan h) :
    Proc.wp (SourceLog d False) (fun h o => SourceEnd d h o.1)
      ((closeSource d fp plan).run p) h := by
  have hfinish : finish d = SinkCall.finish.perform d := rfl
  simp only [closeSource, hfinish, Metered.run_bind]
  rw [Proc.wp_bind]
  refine wp_sinkCall ?_ ?_
  · intro t o hf ht ho
    refine .closing_of_part fp (.ok ()) ?_ (hs.acked.append ht.ins) hs.fits
      (hs.shaped.next hf ht ho)
    rw [notes_append, ht.notes, List.append_nil]
    exact hs.notes
  intro t₁ r₁ h₁
  have hnotes₁ : notes (h ++ t₁) =
      openingNotes fp plan ++ [noteStreamOut plan, noteStreamed (.ok ())] := by
    rw [notes_append, h₁.notes, List.append_nil]
    exact hs.notes
  have hack₁ : Acked d (h ++ t₁) := hs.acked.append h₁.ins
  cases r₁ with
  | error e =>
    refine .failed (.closing_of_part _ _ hnotes₁ hack₁ hs.fits (hs.shaped.call h₁).toPartial) ?_
    cases h₁ with
    | refused hf => exact absurd (fits_finish d) hf
    | @broken t o a e hf ht ho ha hstrict =>
      rw [← List.append_assoc]
      refine not_uninterrupted_of_failing ha (not_inStreamOut_of_streamed (r := .ok ()) ?_)
      rw [notes_append, ht.notes, List.append_nil, hs.notes]
      simp
  | ok _ =>
    have hexact := hs.shaped.exact h₁
    simp only [Metered.cont_ok, Metered.run_bind, Metered.run_bytes, Proc.ret_bind,
      Metered.run_monadLift, Proc.bind_assoc]
    rw [Proc.wp_bind]
    refine wp_sendFrame ?_ ?_
    · intro t o hf ht ho
      refine .closing fp plan (.ok ()) ?_ (hack₁.append ht.ins) fun hsm => ?_
      · rw [notes_append, ht.notes, List.append_nil]
        exact hnotes₁
      · obtain ⟨cs, hcs, heq⟩ := hexact hsm.left
        refine ⟨⟨plan, cs ++ [.finish], some p.bytes⟩, rfl, rfl, ⟨hs.fits, hcs⟩, ?_, .inl rfl,
          fun hf => hf.elim⟩
        rw [Hist.outs_append, heq, ht.outs, script_bytes_some]
        exact (List.prefix_append_right_inj _).mpr ho
    intro t₂ r₂ h₂
    have hnotes₂ : notes (h ++ t₁ ++ t₂) =
        openingNotes fp plan ++ [noteStreamOut plan, noteStreamed (.ok ())] := by
      rw [notes_append, h₂.notes, List.append_nil]
      exact hnotes₁
    have hack₂ : Acked d (h ++ t₁ ++ t₂) := hack₁.append h₂.ins
    cases r₂ with
    | error e =>
      cases h₂ with
      | refused hf => exact absurd (fits_done d _) hf
      | @broken t o a e hf ht ho ha hstrict =>
        refine .failed (.closing fp plan (.ok ()) hnotes₂ hack₂ fun hsm => ?_) ?_
        · obtain ⟨cs, hcs, heq⟩ := hexact hsm.left
          rw [← List.append_assoc] at hsm
          obtain ⟨-, buf, r, hsend⟩ := ha.broken hsm
          have houts : (h ++ t₁ ++ (t ++ [a])).outs =
              frameBytes d (ControlFrame.plan plan) ++ wire d (cs ++ [.finish]) ++ o := by
            rw [Hist.outs_append (h ++ t₁), Hist.outs_append t, heq, ht.outs, ha.emits.outs,
              List.append_nil]
          have hne : (h ++ t₁ ++ (t ++ [a])).outs ≠
              (⟨plan, cs ++ [.finish], some p.bytes⟩ : Script).bytes d := by
            rw [houts, script_bytes_some]
            exact fun h => hstrict buf r hsend (List.append_cancel_left h)
          refine ⟨⟨plan, cs ++ [.finish], some p.bytes⟩, rfl, rfl, ⟨hs.fits, hcs⟩, ?_, .inl rfl,
            fun _ => hne⟩
          rw [houts, script_bytes_some]
          exact (List.prefix_append_right_inj _).mpr ho
        · rw [← List.append_assoc]
          refine not_uninterrupted_of_failing ha (not_inStreamOut_of_streamed (r := .ok ()) ?_)
          rw [notes_append, ht.notes, List.append_nil, hnotes₁]
          simp
    | ok _ =>
      obtain ⟨-, ht⟩ := h₂.emits_of_ok
      refine wp_auditSource ⟨first_append (first_append hs.first _) _, hnotes₂, hack₂, ?_⟩
      intro hsm
      obtain ⟨cs, hcs, heq⟩ := hexact hsm.left
      refine ⟨⟨plan, cs ++ [.finish], some p.bytes⟩, rfl, ⟨cs, rfl⟩, rfl, ⟨hs.fits, hcs⟩, ?_⟩
      rw [Hist.outs_append, heq, ht.outs, script_bytes_some]
      rfl

/-! ## The streaming stage -/

/-- The decision has arrived and accepts. -/
structure Approved (d : Deps) (fp : String) (plan : BackupPlan) (h : Hist Call Call.Reply) :
    Prop where
  first : ∃ t, h = .call .fingerprint (.ok fp) :: t
  notes : notes h = openingNotes fp plan
  acked : Acked d h
  fits : Fits d (ControlFrame.plan plan)
  outs : h.outs = frameBytes d (ControlFrame.plan plan)

theorem wp_streamSource {d : Deps} {streamOut : BackupPlan → SinkProg} {fp : String}
    {plan : BackupPlan} {p : Progress} {h : Hist Call Call.Reply} (ha : Approved d fp plan h) :
    Proc.wp (SourceLog d False) (fun h o => SourceEnd d h o.1)
      ((streamSource d streamOut fp plan).run p) h := by
  simp only [streamSource, Core.mark, Metered.run_bind, Metered.run_monadLift, Proc.call_bind,
    Proc.ret_bind, Metered.cont_ok, Metered.run_attempt, Proc.bind_assoc]
  have hins : ∀ t : Hist Call Call.Reply, t.ins = [] →
      Acked d (h ++ [.call (.mark (.streamOut plan)) ()] ++ t) := fun t ht =>
    (ha.acked.append (t := [.call (.mark (.streamOut plan)) ()]) rfl).append ht
  have hnotes : ∀ t, AllQuiet t → notes (h ++ [.call (.mark (.streamOut plan)) ()] ++ t) =
      openingNotes fp plan ++ [noteStreamOut plan] := by
    intro t ht
    rw [notes_append, notes_eq_nil ht, notes_append, ha.notes, List.append_nil]
    rfl
  refine ⟨.planned fp plan ha.notes (by rw [ha.outs]) (.inl ha.fits), fun _ => ?_⟩
  rw [Proc.wp_bind]
  have hstart := (Shaped.init (d := d) ha.outs).idle
    (t := [.call (.mark (.streamOut plan)) ()]) rfl
  rw [← List.append_nil (h ++ [_])] at hstart ⊢
  refine wp_perform rfl (fun c hc => by simp at hc) hstart ?_ ?_
  · intro t ht hq hp
    refine .streaming fp plan (hnotes t hq) (hins t ht) fun hsm => ?_
    obtain ⟨cs, hcs, hpre⟩ := hp hsm
    refine ⟨⟨plan, cs, none⟩, rfl, rfl, ⟨ha.fits, hcs⟩, ?_⟩
    rw [Script.bytes, Script.closing, List.append_nil]
    exact hpre
  · intro t r p' ht hq hp
    refine ⟨?_, fun _ => ?_⟩
    · refine .streaming fp plan (hnotes t hq) (hins t ht) fun hsm => ?_
      obtain ⟨cs, hcs, hpre, -⟩ := hp hsm
      refine ⟨⟨plan, cs, none⟩, rfl, rfl, ⟨ha.fits, hcs⟩, ?_⟩
      rw [Script.bytes, Script.closing, List.append_nil]
      exact hpre
    have hnotes' : notes (h ++ [.call (.mark (.streamOut plan)) ()] ++ t ++
        [.call (.mark (.streamOutReturned r)) ()]) =
          openingNotes fp plan ++ [noteStreamOut plan, noteStreamed r] := by
      rw [notes_append, hnotes t hq, List.append_assoc]
      rfl
    have hack' := (hins t ht).append (t := [.call (.mark (.streamOutReturned r)) ()]) rfl
    have hshaped := hp.idle (t := [.call (.mark (.streamOutReturned r)) ()]) rfl
    cases r with
    | error e =>
      refine .failed (.closing_of_part _ _ hnotes' hack' ha.fits hshaped.toPartial) ?_
      intro hu
      have := hu.streamOut (.error e) (mem_calls_of_mem_notes (by rw [hnotes']; simp))
      cases this
    | ok _ =>
      refine wp_closeSource ⟨?_, hnotes', hack', ha.fits, hshaped⟩
      exact first_append (first_append (first_append ha.first _) _) _

/-! ## The opening stages -/

/-- The history of a source whose channel is open. -/
def opened (fp : String) (plan : BackupPlan) : Hist Call Call.Reply :=
  [.call .fingerprint (.ok fp), .call .analyze (.ok plan), .call .acceptStream (.ok ())]

/-- `recv_ack` succeeds on an accepting decision only. -/
theorem wp_recvAck {I : Hist Call Call.Reply → Prop} {h : Hist Call Call.Reply}
    {Q : Hist Call Call.Reply → Result Unit → Prop} {d : Deps}
    (hI : ∀ t i, Recvs t i → I (h ++ t))
    (hok : ∀ t, Recvs t t.ins → (∃ reason, IsFrame ControlFrame d t.ins (.planAck true reason)) →
      Q (h ++ t) (.ok ()))
    (herr : ∀ t r e, Received ControlFrame d t r →
      (∀ reason, ¬ IsFrame ControlFrame d t.ins (.planAck true reason)) →
      Q (h ++ t) (.error e)) :
    Proc.wp I Q (recvAck d).run h := by
  rw [recvAck, Task.run_bind, Proc.wp_bind]
  refine wp_recvFrame hI ?_
  intro t r hr
  -- every other frame is not the accepting one
  have hother : (∀ reason, r ≠ .ok (some (.planAck true reason))) →
      ∀ reason, ¬ IsFrame ControlFrame d t.ins (.planAck true reason) :=
    fun hne reason hf => hne reason (hr.eq_of_isFrame hf)
  cases r with
  | error e => exact herr t _ e hr (hother fun reason => by simp)
  | ok frame =>
    cases frame with
    | none => exact herr t _ _ hr (hother fun reason => by simp)
    | some frame =>
      cases frame with
      | planAck accepted reason =>
        cases accepted with
        | true => exact hok t hr.isFrame.1 ⟨reason, hr.isFrame.2⟩
        | false => exact herr t _ _ hr (hother fun reason => by simp)
      | plan plan => exact herr t _ _ hr (hother fun reason => by simp)
      | done n blake3 => exact herr t _ _ hr (hother fun reason => by simp)
      | abort reason => exact herr t _ _ hr (hother fun reason => by simp)

/-- The exchange of plan and decision, and what follows. -/
theorem wp_exchange {d : Deps} {streamOut : BackupPlan → SinkProg} {fp : String}
    {plan : BackupPlan} {p : Progress} :
    Proc.wp (SourceLog d False) (fun h o => SourceEnd d h o.1)
      ((do sendPlan d plan; recvAck d; streamSource d streamOut fp plan :
        Metered SourceOutcome).run p) (opened fp plan) := by
  have hout : ∀ t : Hist Call Call.Reply, notes t = openingNotes fp plan → ¬ InStreamOut t := by
    rintro t hn ⟨⟨plan', hmem⟩, -⟩
    have := mem_notes hmem rfl
    rw [hn] at this
    simp [openingNotes, noteStreamOut] at this
  simp only [Metered.run_bind, Metered.run_monadLift, Proc.bind_assoc, Proc.ret_bind]
  rw [Proc.wp_bind]
  refine wp_sendFrame ?_ ?_
  · intro t o hf ht ho
    refine .planned fp plan (by rw [notes_append, ht.notes]; rfl) ?_ (.inl hf)
    rw [Hist.outs_append, ht.outs]
    exact ho
  intro t₁ r₁ h₁
  have hnotes₁ : notes (opened fp plan ++ t₁) = openingNotes fp plan := by
    rw [notes_append, h₁.notes, List.append_nil]
    rfl
  cases r₁ with
  | error e =>
    cases h₁ with
    | refused hf =>
      refine .failed (.planned fp plan hnotes₁ List.nil_prefix (.inr rfl)) fun hu => ?_
      obtain ⟨plan', hplan, hfits⟩ := hu.analyze (.ok plan)
        (mem_calls_of_mem_notes (by rw [hnotes₁]; simp [openingNotes]))
      obtain rfl : plan = plan' := Except.ok.inj hplan
      exact hf hfits
    | @broken t o a e hf ht ho ha hstrict =>
      refine .failed (.planned fp plan hnotes₁ ?_ (.inl hf)) ?_
      · rw [Hist.outs_append, Hist.outs_append, ht.outs, ha.emits.outs, List.append_nil]
        exact ho
      · rw [← List.append_assoc]
        refine not_uninterrupted_of_failing ha (hout _ ?_)
        rw [notes_append, ht.notes]
        rfl
  | ok _ =>
    obtain ⟨hf, ht₁⟩ := h₁.emits_of_ok
    have houts₁ : (opened fp plan ++ t₁).outs = frameBytes d (ControlFrame.plan plan) := by
      rw [Hist.outs_append, ht₁.outs]
      rfl
    have hins₁ : (opened fp plan ++ t₁).ins = [] := by
      rw [Hist.ins_append, ht₁.ins]
      rfl
    simp only [Metered.cont_ok, Metered.run_bind, Metered.run_monadLift, Proc.bind_assoc,
      Proc.ret_bind]
    rw [Proc.wp_bind]
    refine wp_recvAck ?_ ?_ ?_
    · intro t i ht
      refine .planned fp plan ?_ ?_ (.inl hf)
      · rw [notes_append, notes_recvs ht, List.append_nil]
        exact hnotes₁
      · rw [Hist.outs_append, houts₁, ht.outs, List.append_nil]
    · intro t ht hack
      refine wp_streamSource ⟨⟨_, rfl⟩, ?_, ?_, hf, ?_⟩
      · rw [notes_append, notes_recvs ht, List.append_nil]
        exact hnotes₁
      · rw [Acked, Hist.ins_append, hins₁]
        exact hack
      · rw [Hist.outs_append, houts₁, ht.outs, List.append_nil]
    · intro t r e ht hno
      refine .failed (.planned fp plan ?_ ?_ (.inl hf)) fun hu => ?_
      · rw [notes_append, ht.notes, List.append_nil]
        exact hnotes₁
      · rw [Hist.outs_append, houts₁, ht.outs, List.append_nil]
      · obtain ⟨reason, hack⟩ := hu.acked
        rw [Hist.ins_append, hins₁] at hack
        exact hno reason hack

theorem Opening.nil : Opening [] := ⟨rfl, rfl, fun c hc => by simp at hc⟩

theorem Opening.call {h : Hist Call Call.Reply} {e : Call} (ho : Opening h)
    (he : e = .fingerprint ∨ e = .analyze ∨ e = .acceptStream) (r : e.Reply) :
    Opening (h ++ [.call e r]) := by
  refine ⟨by rw [Hist.ins_append, ho.ins]; rfl, by rw [Hist.outs_append, ho.outs]; rfl, ?_⟩
  intro c hc
  rw [Core.notes, Hist.calls_append, Hist.calls_call, List.filter_append] at hc
  rcases List.mem_append.mp hc with hc | hc
  · exact ho.notes c hc
  · obtain rfl := List.mem_singleton.mp (List.mem_filter.mp hc).1
    exact he

/-- Every run of the source side, on every channel. -/
theorem wp_runSource (d : Deps) (streamOut : BackupPlan → SinkProg) (p : Progress) :
    Proc.wp (SourceLog d False) (fun h o => SourceEnd d h o.1)
      ((runSource d streamOut).run p) [] := by
  rw [runSource_eq]
  simp only [fingerprint, analyze, acceptStream, Metered.run_bind, Metered.run_monadLift,
    Proc.call_bind, Proc.ret_bind]
  refine ⟨.opening .nil, fun r => ?_⟩
  have h₁ := Opening.nil.call (.inl rfl) r
  cases r with
  | error e =>
    refine .failed (.opening h₁) fun hu => ?_
    obtain ⟨fp, hfp⟩ := hu.fingerprint (.error e) (mem_calls_concat [] _ _)
    cases hfp
  | ok fp =>
    refine ⟨.opening h₁, fun r => ?_⟩
    have h₂ := h₁.call (.inr (.inl rfl)) r
    cases r with
    | error e =>
      refine .failed (.opening h₂) fun hu => ?_
      obtain ⟨plan, hplan, -⟩ := hu.analyze (.error e) (mem_calls_concat _ _ _)
      cases hplan
    | ok plan =>
      refine ⟨.opening h₂, fun r => ?_⟩
      have h₃ := h₂.call (.inr (.inr rfl)) r
      cases r with
      | error e =>
        refine .failed (.opening h₃) fun hu => ?_
        have := hu.acceptStream (.error e) (mem_calls_concat _ _ _)
        cases this
      | ok _ => exact wp_exchange

end RustBackup.Core
