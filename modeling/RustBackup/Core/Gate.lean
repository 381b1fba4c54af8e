/-
  Core/Gate.lean --- nothing moves without approval.

  Three readings of the same two logs.  A source streams, and a byte behind the plan
  frame is on the wire, only after a destination has validated the plan, every check
  has passed and the accept policy has approved.  A destination that refuses leaves
  both sides no choice: the two runs are then one synchronous run, which decides all
  interleavings.  And a source that faces an arbitrary peer streams only after an
  accepting decision was the first frame it read.
-/
import RustBackup.Core.Agreement

set_option autoImplicit false

namespace RustBackup.Core

open RustBackup.Serde RustBackup.Io

/-! ## The source before and after the decision -/

/-- The source has sent at most its plan. -/
inductive Awaiting (d : Deps) (h : Hist Call Call.Reply) : Prop where
  | opening (hopening : Opening h)
  | planned (fp : String) (plan : BackupPlan) (hnotes : notes h = openingNotes fp plan)
      (houts : h.outs <+: frameBytes d (ControlFrame.plan plan))
      (hfits : Fits d (ControlFrame.plan plan) ∨ h.outs = [])

theorem SourceLog.awaiting_or_acked {d : Deps} {cut : Prop} {h : Hist Call Call.Reply}
    (hlog : SourceLog d cut h) : Awaiting d h ∨ Acked d h := by
  cases hlog with
  | opening hopening => exact .inl (.opening hopening)
  | planned fp plan hnotes houts hfits => exact .inl (.planned fp plan hnotes houts hfits)
  | streaming fp plan _ hack _ => exact .inr hack
  | closing fp plan r _ hack _ => exact .inr hack
  | closed fp plan n hclosed _ => exact .inr hclosed.acked

/-- In every run, on every channel and against every peer, the source still awaits
the decision or has read an accepting one. -/
theorem awaiting_or_acked {d : Deps} {streamOut : BackupPlan → SinkProg} {p : Progress}
    {h : Hist Call Call.Reply} {x : Proc Call Call.Reply (Result SourceOutcome × Progress)}
    (hrun : ((runSource d streamOut).run p).Run h x) : Awaiting d h ∨ Acked d h := by
  refine Proc.wp_always (Q := fun h o => SourceEnd d h o.1) ?_ (Proc.wp_mono
    (fun h hlog => hlog.awaiting_or_acked) (fun h o hend => hend)
    (wp_runSource d streamOut p)) hrun
  intro h o hend
  generalize o.1 = r at hend
  cases hend with
  | failed hlog _ => exact hlog.awaiting_or_acked
  | audited heq hclosed =>
    rw [heq]
    exact .inr (hclosed.acked.append rfl)

/-- A source that awaits the decision has not entered `stream_out`. -/
theorem Awaiting.noteStreamOut_notMem {d : Deps} {h : Hist Call Call.Reply}
    (ha : Awaiting d h) (plan : BackupPlan) : noteStreamOut plan ∉ h.calls := by
  intro hmem
  have hnote := mem_notes hmem rfl
  cases ha with
  | opening hopening => simpa [noteStreamOut] using hopening.notes _ hnote
  | planned fp plan' hnotes _ _ =>
    rw [hnotes] at hnote
    simp [openingNotes, noteStreamOut] at hnote

/-- A source that awaits the decision has sent nothing but its plan. -/
theorem Awaiting.outs_prefix {d : Deps} {h : Hist Call Call.Reply} (ha : Awaiting d h) :
    ∃ plan, h.outs <+: frameBytes d (ControlFrame.plan plan) := by
  cases ha with
  | opening hopening =>
    refine ⟨samplePlan, ?_⟩
    rw [hopening.outs]
    exact List.nil_prefix
  | planned fp plan _ houts _ => exact ⟨plan, houts⟩

/-! ## The gate -/

/-- `validate` succeeded with a chain of checks that all passed, and `accept` returned
`true`. -/
def Gate (h : Hist Call Call.Reply) : Prop :=
  ∃ plan checks, (⟨.validate plan, .ok (Preflight.ofChecks checks)⟩ : Sigma Call.Reply) ∈ h.calls ∧
    (∀ k ∈ checks, k.passed = true) ∧ (⟨.accept plan, true⟩ : Sigma Call.Reply) ∈ h.calls

/-- The destination's `validate` fails or builds its preflight from `Preflight::pass()`
by a chain of `check` calls. -/
def SessionLink.Validates (c : SessionLink) : Prop :=
  ∀ plan r, c.rightPolicy (.validate plan) r →
    (∃ e, r = .error e) ∨ ∃ checks, r = .ok (Preflight.ofChecks checks)

theorem all_passed_of_ok {checks : List PreflightCheck}
    (hok : (Preflight.ofChecks checks).ok = true) : ∀ k ∈ checks, k.passed = true := by
  rw [Preflight.ofChecks_ok, List.all_eq_true] at hok
  exact hok

section Reachable

variable {c : SessionLink} {d : Deps} {streamOut : BackupPlan → SinkProg}
variable {streamIn : BackupPlan → StreamInProg} {p q : Progress} {s : SessionNet}

/-- A preflight the destination got is a chain of checks. -/
theorem exists_checks (hv : c.Validates) (hr : SessionReach c d streamOut streamIn p q s)
    {plan : BackupPlan} {preflight : Preflight}
    (hmem : (⟨.validate plan, .ok preflight⟩ : Sigma Call.Reply) ∈ s.rightHist.calls) :
    ∃ checks, preflight = Preflight.ofChecks checks := by
  obtain ⟨act, hact, heq⟩ := List.mem_filterMap.mp hmem
  have hpolicy : c.rightPolicy (.validate plan) (.ok preflight) := by
    cases act with
    | recv r => cases heq
    | send bs r => cases heq
    | call e r =>
      cases heq
      exact (Net.Reach.history c hr).rightReplies _ _ hact
  rcases hv plan _ hpolicy with ⟨e, he⟩ | ⟨checks, hchecks⟩
  · cases he
  · exact ⟨checks, Except.ok.inj hchecks⟩

theorem gate_of_approves (hv : c.Validates) (hr : SessionReach c d streamOut streamIn p q s)
    (ha : Approves s.rightHist) : Gate s.rightHist := by
  obtain ⟨plan, preflight, hok, hvalidate, haccept⟩ := ha
  obtain ⟨checks, rfl⟩ := exists_checks hv hr hvalidate
  exact ⟨plan, checks, hvalidate, all_passed_of_ok hok, haccept⟩

theorem gate_of_acked (hv : c.Validates) (hr : SessionReach c d streamOut streamIn p q s)
    (hack : Acked d s.leftHist) : Gate s.rightHist :=
  gate_of_approves hv hr (dest_approves_of_acked hr hack)

/-- A destination that has entered `stream_in` has approved. -/
theorem DestLog.approves_of_streamIn {h : Hist Call Call.Reply} {plan : BackupPlan}
    (hlog : DestLog d h)
    (hmem : (⟨.mark (.streamIn plan), ()⟩ : Sigma Call.Reply) ∈ h.calls) : Approves h := by
  have hnote := mem_notes hmem rfl
  cases hlog with
  | opening _ hnotes => cases hnotes _ hnote
  | validated plan' r _ _ hnotes =>
    rw [hnotes] at hnote
    simp at hnote
  | decided plan' preflight approved _ _ hnotes _ =>
    rw [hnotes] at hnote
    exact absurd hnote (mark_notMem_decisionNotes _)
  | applying plan' preflight rest _ hok _ hnotes _ => exact approves_of_decisionNotes hok hnotes

theorem accept_mem_decisionNotes {plan plan' : BackupPlan} {preflight : Preflight}
    {approved b : Bool}
    (hmem : (⟨.accept plan, b⟩ : Sigma Call.Reply) ∈ decisionNotes plan' preflight approved) :
    plan = plan' ∧ b = approved ∧ preflight.ok = true := by
  by_cases hok : preflight.ok = true
  · rw [decisionNotes, if_pos hok] at hmem
    simp only [List.cons_append, List.nil_append, List.mem_cons, List.not_mem_nil, or_false] at hmem
    rcases hmem with h | h | h
    · cases h
    · cases h
    · cases h
      exact ⟨rfl, rfl, hok⟩
  · rw [decisionNotes, if_neg hok] at hmem
    simp at hmem

theorem Applying.accept_notMem {rest : Calls Call Call.Reply} (h : Applying rest)
    (plan : BackupPlan) (b : Bool) : (⟨.accept plan, b⟩ : Sigma Call.Reply) ∉ rest := by
  cases h <;> simp

/-- A destination that has consulted the accept policy has a preflight that is ok. -/
theorem DestLog.validated_of_accept {h : Hist Call Call.Reply} {plan : BackupPlan} {b : Bool}
    (hlog : DestLog d h)
    (hmem : (⟨.accept plan, b⟩ : Sigma Call.Reply) ∈ h.calls) :
    ∃ preflight, preflight.ok = true ∧
      (⟨.validate plan, .ok preflight⟩ : Sigma Call.Reply) ∈ h.calls := by
  have hnote := mem_notes hmem rfl
  have hdecided : ∀ {plan' preflight approved rest},
      notes h = decisionNotes plan' preflight approved ++ rest →
      (⟨.accept plan, b⟩ : Sigma Call.Reply) ∈ decisionNotes plan' preflight approved →
      ∃ preflight, preflight.ok = true ∧
        (⟨.validate plan, .ok preflight⟩ : Sigma Call.Reply) ∈ h.calls := by
    intro plan' preflight approved rest hnotes hm
    obtain ⟨rfl, -, hok⟩ := accept_mem_decisionNotes hm
    refine ⟨preflight, hok, mem_calls_of_mem_notes ?_⟩
    rw [hnotes, decisionNotes]
    simp
  cases hlog with
  | opening _ hnotes => cases hnotes _ hnote
  | validated plan' r _ _ hnotes =>
    rw [hnotes] at hnote
    simp at hnote
  | decided plan' preflight approved _ _ hnotes _ =>
    rw [← List.append_nil (decisionNotes _ _ _)] at hnotes
    rw [hnotes, List.append_nil] at hnote
    exact hdecided hnotes hnote
  | applying plan' preflight rest _ _ hrest hnotes _ =>
    rw [hnotes] at hnote
    rcases List.mem_append.mp hnote with hm | hm
    · exact hdecided hnotes hm
    · exact absurd hm (hrest.accept_notMem plan b)

end Reachable

/-! ## A refusal -/

/-- The destination has validated `plan` with success and does not approve. -/
def Refuses (plan : BackupPlan) (preflight : Preflight) (h : Hist Call Call.Reply) : Prop :=
  (⟨.validate plan, .ok preflight⟩ : Sigma Call.Reply) ∈ h.calls ∧
    (preflight.ok = false ∨ (⟨.accept plan, false⟩ : Sigma Call.Reply) ∈ h.calls)

theorem validate_mem_decisionNotes {plan plan' : BackupPlan} {preflight preflight' : Preflight}
    {approved : Bool} (hmem : (⟨.validate plan, .ok preflight⟩ : Sigma Call.Reply) ∈
      decisionNotes plan' preflight' approved) : plan = plan' ∧ preflight = preflight' := by
  rw [decisionNotes] at hmem
  simp only [List.cons_append, List.nil_append, List.mem_cons] at hmem
  rcases hmem with h | h | h
  · cases h
  · cases h
    exact ⟨rfl, rfl⟩
  · split at h
    · simp at h
    · simp at h

theorem Applying.validate_notMem {rest : Calls Call Call.Reply} (h : Applying rest)
    (plan : BackupPlan) (r : Result Preflight) :
    (⟨.validate plan, r⟩ : Sigma Call.Reply) ∉ rest := by
  cases h <;> simp

/-- A destination that refuses has made no call but those up to its decision. -/
theorem DestLog.notes_of_refuses {d : Deps} {h : Hist Call Call.Reply} {plan : BackupPlan}
    {preflight : Preflight} (hlog : DestLog d h) (href : Refuses plan preflight h) :
    notes h = decisionNotes plan preflight false ∧ HasPlan d plan h := by
  obtain ⟨hvalidate, hno⟩ := href
  have hv := mem_notes hvalidate rfl
  have hno : preflight.ok = false ∨ (⟨.accept plan, false⟩ : Sigma Call.Reply) ∈ notes h :=
    hno.imp id fun hmem => mem_notes hmem rfl
  cases hlog with
  | opening _ hnotes => cases hnotes _ hv
  | validated plan' r hplan _ hnotes =>
    rw [hnotes] at hv hno
    simp only [List.mem_cons, List.not_mem_nil, or_false] at hv
    rcases hv with hv | hv
    · cases hv
    cases hv
    have hok : preflight.ok = false := hno.resolve_right (by simp)
    refine ⟨?_, hplan⟩
    rw [hnotes, decisionNotes, hok]
    rfl
  | decided plan' preflight' approved hplan hok hnotes _ =>
    rw [hnotes] at hv hno
    obtain ⟨rfl, rfl⟩ := validate_mem_decisionNotes hv
    refine ⟨?_, hplan⟩
    obtain rfl : approved = false := by
      rcases hno with hno | hno
      · cases approved with
        | false => rfl
        | true =>
          rw [hok rfl] at hno
          cases hno
      · exact (accept_mem_decisionNotes hno).2.1.symm
    exact hnotes
  | applying plan' preflight' rest _ hok hrest hnotes _ =>
    rw [hnotes] at hv hno
    rcases List.mem_append.mp hv with hv | hv
    · obtain ⟨rfl, rfl⟩ := validate_mem_decisionNotes hv
      rcases hno with hno | hno
      · rw [hok] at hno
        cases hno
      · rcases List.mem_append.mp hno with hno | hno
        · cases (accept_mem_decisionNotes hno).2.1
        · exact absurd hno (hrest.accept_notMem _ _)
    · exact absurd hv (hrest.validate_notMem _ _)

/-- How the objects around a session answer in one of its runs. -/
def replies (fp : String) (plan : BackupPlan) (preflight : Preflight) (approved : Bool) :
    (e : Call) → e.Reply
  | .fingerprint => .ok fp
  | .analyze => .ok plan
  | .acceptStream => .ok ()
  | .openStream => .ok ()
  | .validate _ => .ok preflight
  | .accept _ => approved
  | .flush => true
  | .mark _ => ()

/-- The calls of a history whose notes are answered so are all answered so. -/
theorem answered_of_notes {fp : String} {plan : BackupPlan} {preflight : Preflight}
    {approved : Bool} {h : Hist Call Call.Reply}
    (hflush : ∀ r, Act.call .flush r ∈ h → r = true)
    (hnotes : ∀ c ∈ notes h, c.2 = replies fp plan preflight approved c.1) (e : Call)
    (r : e.Reply) (hmem : Act.call e r ∈ h) : r = replies fp plan preflight approved e := by
  cases hq : quiet ⟨e, r⟩ with
  | false => exact hnotes _ (mem_notes (mem_calls hmem) hq)
  | true =>
    cases e with
    | flush => exact hflush r hmem
    | mark m => rfl
    | _ => cases hq

section Handshake

variable {d : Deps} {streamOut : BackupPlan → SinkProg} {streamIn : BackupPlan → StreamInProg}
variable {p q : Progress} {fp : String} {plan plan' : BackupPlan} {preflight : Preflight}
variable {approved : Bool} {a : Result SourceOutcome × Progress} {b : Result BackupPlan × Progress}
variable {la lb l l' : Calls Call Call.Reply}

/-- The plan is handed over, validated and decided on. -/
theorem sync_plan (hfits : Fits d (ControlFrame.plan plan))
    (hdec : decode ControlFrame d (encode d (ControlFrame.plan plan)) = some (.plan plan'))
    (happroved : approved = true → preflight.ok = true)
    (h : Sync (replies fp plan preflight approved) (replies fp plan preflight approved) a b la lb
      ((do recvAck d; streamSource d streamOut fp plan : Metered SourceOutcome).run p)
      (openingNotes fp plan ++ [⟨.flush, true⟩])
      ((answer d streamIn plan' preflight approved).run q)
      (decisionNotes plan' preflight approved)) :
    Sync (replies fp plan preflight approved) (replies fp plan preflight approved) a b la lb
      ((runSource d streamOut).run p) [] ((runDestination d streamIn).run q) [] := by
  rw [runSource_eq, runDestination_eq]
  refine .callLeft (.callLeft (.callLeft (.callRight ?_)))
  simp only [replies, Proc.ret_bind, Metered.cont_ok, Metered.run_bind, Metered.run_monadLift,
    sendPlan, recvPlan, Task.run_bind, Proc.bind_assoc]
  refine sync_sendFrame_recvFrame hfits hdec rfl ?_
  simp only [Task.cont_ok, Task.run_ok, Proc.ret_bind, Metered.cont_ok, Metered.run_bind,
    Metered.run_monadLift, validate, Proc.call_bind]
  refine .callRight ?_
  simp only [replies, Metered.cont_ok, Metered.run_bind, Metered.run_monadLift, decideApproval]
  by_cases hok : preflight.ok = true
  · rw [if_pos hok]
    simp only [decisionNotes, if_pos hok] at h
    exact .callRight h
  · rw [if_neg hok]
    obtain rfl : approved = false := by
      cases approved with
      | false => rfl
      | true => exact absurd (happroved rfl) hok
    simp only [decisionNotes, if_neg hok] at h
    exact h

/-- The decision is handed over and refuses. -/
theorem sync_refusal {fp' : String} {f g : (e : Call) → e.Reply} (hflush : g .flush = true) :
    Sync f g (.error (.planRejected (reasonFor preflight false)), p)
      (.error (refusal preflight (reasonFor preflight false)), q) l (l' ++ [⟨.flush, true⟩])
      ((do recvAck d; streamSource d streamOut fp' plan : Metered SourceOutcome).run p) l
      ((answer d streamIn plan' preflight false).run q) l' := by
  simp only [answer, sendAck, recvAck, Metered.run_bind, Metered.run_monadLift, Task.run_bind,
    Proc.bind_assoc, Proc.ret_bind]
  refine Sync.swap (sync_sendFrame_recvFrame (fits_planAck d preflight false)
    (decode_encode_planAck d false _) hflush ?_)
  rw [hflush]
  exact .done

end Handshake

section Refusal

variable {c : SessionLink} {d : Deps} {streamOut : BackupPlan → SinkProg}
variable {streamIn : BackupPlan → StreamInProg} {p q : Progress} {s : SessionNet}
variable {plan : BackupPlan} {preflight : Preflight}

/-- While the destination refuses, the source has read no accepting decision: it has
sent the plan that is refused. -/
theorem source_of_refuses (hr : SessionReach c d streamOut streamIn p q s)
    (href : Refuses plan preflight s.rightHist) :
    ∃ fp plan', notes s.leftHist = openingNotes fp plan' ∧ Fits d (ControlFrame.plan plan') ∧
      decode ControlFrame d (encode d (ControlFrame.plan plan')) = some (.plan plan) := by
  obtain ⟨hnotes, seg, hseg, hpre⟩ := (dest_log hr).notes_of_refuses href
  have hsent : seg <+: s.leftHist.outs := hpre.trans (prefix_dest_ins hr)
  have hempty : s.leftHist.outs ≠ [] := by
    intro hnil
    rw [hnil, List.prefix_nil] at hsent
    have := hseg.length_le
    rw [hsent] at this
    simp at this
  rcases awaiting_or_acked (Net.Reach.history c hr).leftRun with hawait | hack
  · cases hawait with
    | opening hopening => exact absurd hopening.outs hempty
    | planned fp plan' hopening houts hfits =>
      have hfits := hfits.resolve_right hempty
      obtain ⟨x, hx⟩ := hsent.trans houts
      rw [← List.append_nil (frameBytes d _)] at hx
      obtain ⟨-, hdec, -⟩ := hseg.eq_frameBytes hfits hx
      exact ⟨fp, plan', hopening, hfits, hdec⟩
  · obtain ⟨plan', preflight', -, -, haccept⟩ := dest_approves_of_acked hr hack
    have hmem := mem_notes haccept rfl
    rw [hnotes] at hmem
    cases (accept_mem_decisionNotes hmem).2.1

/-- The stream has room and every call is answered. -/
structure SessionLink.Live (c : SessionLink) : Prop where
  capRight : 0 < c.capRight
  capLeft : 0 < c.capLeft
  answers : Net.Answers c

/-- A refusal decides both sides. -/
theorem refusal_decides (hc : c.Flushes) (hlive : c.Live)
    (hr : SessionReach c d streamOut streamIn p q s)
    (href : Refuses plan preflight s.rightHist) :
    (∀ x, s.left = .ret x → x = (.error (.planRejected (reasonFor preflight false)), p)) ∧
    (∀ y, s.right = .ret y →
      y = (.error (refusal preflight (reasonFor preflight false)), q)) ∧
    (s.Final ∨ ∃ s', Net.Step c s s') := by
  obtain ⟨fp, plan', hopening, hfits, hdec⟩ := source_of_refuses hr href
  have hdecision := ((dest_log hr).notes_of_refuses href).1
  have hsync := @sync_plan d streamOut streamIn p q fp plan' plan preflight false _ _ _ _ hfits
    hdec (by simp) (sync_refusal rfl)
  refine hsync.decides hlive.capRight hlive.capLeft hlive.answers
    (coalescing_runSource d streamOut p) (coalescing_runDestination d streamIn q) hr ⟨?_, ?_⟩
  · refine answered_of_notes (smooth_leftHist hc hr).flush fun e he => ?_
    rw [hopening] at he
    simp only [openingNotes, List.mem_cons, List.not_mem_nil, or_false] at he
    rcases he with rfl | rfl | rfl
    · rfl
    · rfl
    · rfl
  · refine answered_of_notes (smooth_rightHist hc hr).flush fun e he => ?_
    rw [hdecision, decisionNotes] at he
    simp only [List.cons_append, List.nil_append, List.mem_cons] at he
    rcases he with rfl | rfl | he
    · rfl
    · rfl
    · split at he
      · rw [List.mem_singleton] at he
        rw [he]
        rfl
      · simp at he

/-- Once the destination refuses, every continuation ends with both sides reporting
it. -/
theorem refusal_inevitable (hc : c.Flushes) (hlive : c.Live)
    (hr : SessionReach c d streamOut streamIn p q s)
    (href : Refuses plan preflight s.rightHist) :
    Net.Inevitable c (fun s =>
      s.left = .ret (.error (.planRejected (reasonFor preflight false)), p) ∧
      s.right = .ret (.error (refusal preflight (reasonFor preflight false)), q)) s := by
  refine Net.inevitable c (fun s => SessionReach c d streamOut streamIn p q s ∧
    Refuses plan preflight s.rightHist) ?_ ?_ ?_ ⟨hr, href⟩
  · rintro s s' ⟨hr, hvalidate, hno⟩ hs
    refine ⟨.step hr hs, ?_⟩
    cases hs with
    | left _ _ => exact ⟨hvalidate, hno⟩
    | right _ _ =>
      have hgrow : ∀ {e : Sigma Call.Reply} {act}, e ∈ s.rightHist.calls →
          e ∈ Hist.calls (s.rightHist ++ [act]) := by
        intro e act he
        rw [Hist.calls_append]
        exact List.mem_append_left _ he
      exact ⟨hgrow hvalidate, hno.imp id hgrow⟩
  · rintro s ⟨hr, href⟩
    exact (refusal_decides hc hlive hr href).2.2
  · rintro s ⟨hr, href⟩ ⟨⟨x, hx⟩, ⟨y, hy⟩⟩
    obtain ⟨hleft, hright, -⟩ := refusal_decides hc hlive hr href
    rw [hx, hy, hleft x hx, hright y hy]
    exact ⟨rfl, rfl⟩

end Refusal

/-! ## The gate in every run -/

/-- Nothing moves without approval, in every reachable state of a session; a refusal
is reported by both sides in every continuation; and no peer can make a source
stream without an accepting decision. -/
theorem approval_gate {c : SessionLink} {d : Deps} {streamOut : BackupPlan → SinkProg}
    {streamIn : BackupPlan → StreamInProg} {p q : Progress} {s : SessionNet} (hc : c.Flushes)
    (hlive : c.Live) (hv : c.Validates) (hr : SessionReach c d streamOut streamIn p q s) :
    -- `stream_out` is called, and anything behind the plan frame is sent
    (∀ plan, noteStreamOut plan ∈ s.leftHist.calls → Gate s.rightHist) ∧
    ((∀ plan, ¬ s.leftHist.outs <+: frameBytes d (ControlFrame.plan plan)) →
      Gate s.rightHist) ∧
    -- `accept` is consulted
    (∀ plan b, (⟨.accept plan, b⟩ : Sigma Call.Reply) ∈ s.rightHist.calls →
      ∃ checks, (⟨.validate plan, .ok (Preflight.ofChecks checks)⟩ : Sigma Call.Reply) ∈
        s.rightHist.calls ∧ ∀ k ∈ checks, k.passed = true) ∧
    -- `stream_in` is called
    (∀ plan, (⟨.mark (.streamIn plan), ()⟩ : Sigma Call.Reply) ∈ s.rightHist.calls →
      Gate s.rightHist) ∧
    -- a check failed, or the operator refused
    (∀ plan checks, (⟨.validate plan, .ok (Preflight.ofChecks checks)⟩ : Sigma Call.Reply) ∈
        s.rightHist.calls →
      ((∃ k ∈ checks, k.passed = false) → Net.Inevitable c (fun s =>
        s.left = .ret (.error (.planRejected "preflight failed"), p) ∧
        s.right = .ret (.error (.preflight "preflight failed"), q)) s) ∧
      ((⟨.accept plan, false⟩ : Sigma Call.Reply) ∈ s.rightHist.calls →
        Net.Inevitable c (fun s =>
          s.left = .ret (.error (.planRejected "rejected by operator"), p) ∧
          s.right = .ret (.error (.planRejected "rejected by operator"), q)) s)) ∧
    -- an arbitrary peer
    ∀ h x plan, ((runSource d streamOut).run p).Run h x → noteStreamOut plan ∈ h.calls →
      ∃ reason, IsFrame ControlFrame d h.ins (.planAck true reason) := by
  refine ⟨?_, ?_, ?_, ?_, ?_, ?_⟩
  · intro plan hmem
    have hrun := (Net.Reach.history c hr).leftRun
    refine gate_of_acked hv hr ((awaiting_or_acked hrun).resolve_left ?_)
    exact fun hawait => hawait.noteStreamOut_notMem plan hmem
  · intro hdata
    have hrun := (Net.Reach.history c hr).leftRun
    refine gate_of_acked hv hr ((awaiting_or_acked hrun).resolve_left ?_)
    intro hawait
    obtain ⟨plan, hpre⟩ := hawait.outs_prefix
    exact hdata plan hpre
  · intro plan b hmem
    obtain ⟨preflight, hok, hvalidate⟩ := (dest_log hr).validated_of_accept hmem
    obtain ⟨checks, rfl⟩ := exists_checks hv hr hvalidate
    exact ⟨checks, hvalidate, all_passed_of_ok hok⟩
  · intro plan hmem
    exact gate_of_approves hv hr ((dest_log hr).approves_of_streamIn hmem)
  · intro plan checks hvalidate
    refine ⟨fun hfailed => ?_, fun hno => ?_⟩
    · have hok : (Preflight.ofChecks checks).ok = false := by
        rw [Preflight.ofChecks_ok, List.all_eq_false]
        obtain ⟨k, hk, hpassed⟩ := hfailed
        exact ⟨k, hk, by simp [hpassed]⟩
      have hends := refusal_inevitable hc hlive hr ⟨hvalidate, .inl hok⟩
      have hreason : reasonFor (Preflight.ofChecks checks) false = "preflight failed" := by
        simp [reasonFor, hok]
      rw [hreason, refusal, hok] at hends
      exact hends
    · have href : Refuses plan (Preflight.ofChecks checks) s.rightHist := ⟨hvalidate, .inr hno⟩
      have hok : (Preflight.ofChecks checks).ok = true := by
        have hmem := mem_notes hno rfl
        rw [((dest_log hr).notes_of_refuses href).1] at hmem
        exact (accept_mem_decisionNotes hmem).2.2
      have hends := refusal_inevitable hc hlive hr href
      have hreason : reasonFor (Preflight.ofChecks checks) false = "rejected by operator" := by
        simp [reasonFor, hok]
      rw [hreason, refusal, hok] at hends
      exact hends
  · intro h x plan hrun hmem
    refine (awaiting_or_acked hrun).resolve_left ?_
    exact fun hawait => hawait.noteStreamOut_notMem plan hmem

/-- A destination without space. -/
def fullDisk : List PreflightCheck := [⟨"disk_space", false, "no space left"⟩]

/-- Every reply, except that `validate` finds the disk full. -/
def fullReply : Policy Call Call.Reply
  | .validate _, r => r = .ok (Preflight.ofChecks fullDisk)
  | e, r => anyReply e r

/-- A stream to a destination without space. -/
def fullLink : SessionLink := { sampleLink with rightPolicy := fullReply }

theorem live_fullLink : fullLink.Live := by
  have hanswers : ∀ e, ∃ r, anyReply e r := fun e => by
    cases e with
    | flush => exact ⟨true, rfl⟩
    | _ => exact ⟨replies "" samplePlan .pass true _, trivial⟩
  refine ⟨by decide, by decide, hanswers, fun e => ?_⟩
  cases e with
  | validate plan => exact ⟨_, rfl⟩
  | flush => exact hanswers .flush
  | _ => exact ⟨replies "" samplePlan .pass true _, trivial⟩

/-- A run in which the destination has found the disk full. -/
theorem standing_refused :
    Standing fullLink (oneEvent (.ok ())) ((waiting sampleDeps "before" samplePlan).run .fresh)
      ((do
        let approved ← decideApproval samplePlan (Preflight.ofChecks fullDisk)
        answer sampleDeps (oneEvent (.ok ())) samplePlan (Preflight.ofChecks fullDisk)
          approved : Metered BackupPlan).run .fresh) [] []
      [⟨.openStream, .ok ()⟩, ⟨.validate samplePlan, .ok (Preflight.ofChecks fullDisk)⟩] := by
  have hplan := fits_samplePlan sampleDeps
  have hdest := goes_validated (q := .fresh) (oneEvent (.ok ()))
    (Preflight.ofChecks fullDisk) (isFrame_frameBytes hplan (decode_samplePlan sampleDeps))
  have h₀ : Standing fullLink (oneEvent (.ok ())) ((runSource sampleDeps noPayload).run .fresh)
      ((runDestination sampleDeps (oneEvent (.ok ()))).run .fresh) [] [] [] :=
    ⟨_, .init, rfl, rfl, rfl, rfl, rfl⟩
  have h₁ := h₀.source (goes_runSource "before" hplan) (List.append_nil _).symm
    (anyReply_of_flush (by simp))
    (by
      rw [List.length_nil, Nat.zero_add]
      exact Nat.le_trans (length_frameBytes_le hplan) (by decide))
    (.inr (hdest.not_finished (by simp)))
  refine h₁.destination hdest (List.append_nil _).symm ?_ (by simp) (.inl rfl)
  intro e r hmem
  simp only [List.mem_cons, List.not_mem_nil, or_false] at hmem
  rcases hmem with hmem | hmem
  · cases hmem
    trivial
  · cases hmem
    rfl

theorem approval_gate_sample :
    ∃ s : SessionNet,
      SessionReach fullLink sampleDeps noPayload (oneEvent (.ok ())) .fresh .fresh s ∧
      Net.Inevitable fullLink (fun s =>
        s.left = .ret (.error (.planRejected "preflight failed"), .fresh) ∧
        s.right = .ret (.error (.preflight "preflight failed"), .fresh)) s := by
  obtain ⟨s, hr, -, -, -, -, hcalls⟩ := standing_refused
  have hvalidates : fullLink.Validates := fun _ r hreply => .inr ⟨fullDisk, hreply⟩
  have hgate := approval_gate ⟨fun _ h => h, fun _ h => h⟩ live_fullLink hvalidates hr
  refine ⟨s, hr, (hgate.2.2.2.2.1 samplePlan fullDisk ?_).1 ?_⟩
  · rw [hcalls]
    simp
  · exact ⟨_, List.mem_singleton_self _, rfl⟩

end RustBackup.Core
