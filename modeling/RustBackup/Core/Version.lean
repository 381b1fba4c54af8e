/-
  Core/Version.lean --- plans of an unknown format version.

  Sources: crates/rb-core/src/{plan,session}.rs.

  The version of a plan is documented as something the destination checks, and no
  function on the way from `recv_plan` to the decision reads it.  So what happens to a
  plan of another version is what the module's `validate` and the operator's `accept`
  decide, as for any other plan.
-/
import RustBackup.Core.Decoder

set_option autoImplicit false

namespace RustBackup.Core

open RustBackup.Serde RustBackup.Io

/-- The destination's own answers in a run are those of one `validate` and one
`accept`. -/
structure Consults (validate : BackupPlan → Result Preflight) (accept : BackupPlan → Bool)
    (h : Hist Call Call.Reply) : Prop where
  validate : ∀ plan r, (⟨.validate plan, r⟩ : Sigma Call.Reply) ∈ h.calls → r = validate plan
  accept : ∀ plan r, (⟨.accept plan, r⟩ : Sigma Call.Reply) ∈ h.calls → r = accept plan

/-- The destination has turned the plan down, or not yet decided: no accepting decision
was sent, `stream_in` was not entered, and it returned nothing but an error. -/
structure TurnedDown (d : Deps) (h : Hist Call Call.Reply)
    (x : Proc Call Call.Reply (Result BackupPlan × Progress)) : Prop where
  ack : ∀ seg reason, IsFrame ControlFrame d seg (.planAck true reason) → ¬ seg <+: h.outs
  streamIn : ∀ plan, (⟨.mark (.streamIn plan), ()⟩ : Sigma Call.Reply) ∉ h.calls
  result : ∀ o, x = .ret o → ∃ e, o.1 = .error e

/-- The module and the operator pass the plan. -/
def Passes (validate : BackupPlan → Result Preflight) (accept : BackupPlan → Bool)
    (plan : BackupPlan) : Prop :=
  ∃ preflight, validate plan = .ok preflight ∧ preflight.ok = true ∧ accept plan = true

section Version

variable {d : Deps} {h : Hist Call Call.Reply} {plan : BackupPlan} {seg : Bytes}
variable {validate : BackupPlan → Result Preflight} {accept : BackupPlan → Bool}

/-- The plan that was read is the one that arrived first. -/
theorem HasPlan.eq {plan' : BackupPlan} {y : Bytes} (hseg : IsFrame ControlFrame d seg (.plan plan))
    (harrives : h.ins <+: seg ++ y) (hplan : HasPlan d plan' h) : plan' = plan := by
  obtain ⟨seg', hseg', hpre⟩ := hplan
  obtain ⟨z, hz⟩ := hpre.trans harrives
  have h₁ := hseg'.frameOf z
  rw [hz, hseg.frameOf] at h₁
  cases h₁
  rfl

/-- Only a plan that was read is validated. -/
theorem DestLog.hasPlan_of_validate {r : Result Preflight} (hlog : DestLog d h)
    (hmem : (⟨.validate plan, r⟩ : Sigma Call.Reply) ∈ h.calls) : HasPlan d plan h := by
  have hnote := mem_notes hmem rfl
  have hdecision : ∀ plan' preflight approved,
      (⟨.validate plan, r⟩ : Sigma Call.Reply) ∈ decisionNotes plan' preflight approved →
      plan = plan' := by
    intro plan' preflight approved hmem
    unfold decisionNotes at hmem
    split at hmem
    · simp at hmem
      exact hmem.1
    · simp at hmem
      exact hmem.1
  cases hlog with
  | opening _ hnotes => cases hnotes _ hnote
  | validated plan' r' hplan _ hnotes =>
    rw [hnotes] at hnote
    simp at hnote
    rw [hnote.1]
    exact hplan
  | decided plan' preflight approved hplan _ hnotes _ =>
    rw [hnotes] at hnote
    rw [hdecision plan' preflight approved hnote]
    exact hplan
  | applying plan' preflight rest hplan _ hrest hnotes _ =>
    rw [hnotes] at hnote
    rcases List.mem_append.mp hnote with hnote | hnote
    · rw [hdecision plan' preflight true hnote]
      exact hplan
    · cases hrest <;> simp at hnote

/-- In a run that approved, the module and the operator passed the plan that arrived. -/
theorem passes_of_approves {y : Bytes} (hseg : IsFrame ControlFrame d seg (.plan plan))
    (harrives : h.ins <+: seg ++ y) (hconsults : Consults validate accept h)
    (hlog : DestLog d h) (happroves : Approves h) : Passes validate accept plan := by
  obtain ⟨plan', preflight, hok, hvalidate, haccept⟩ := happroves
  have hplan := (hlog.hasPlan_of_validate hvalidate).eq hseg harrives
  rw [hplan] at hvalidate haccept
  exact ⟨preflight, (hconsults.validate plan _ hvalidate).symm, hok,
    (hconsults.accept plan _ haccept).symm⟩

/-- A destination that returned `Ok` has entered `stream_in`. -/
def EnteredIfOk (h : Hist Call Call.Reply) (o : Result BackupPlan × Progress) : Prop :=
  ∀ plan, o.1 = .ok plan → ∃ plan', (⟨.mark (.streamIn plan'), ()⟩ : Sigma Call.Reply) ∈ h.calls

theorem enteredIfOk_error (h : Hist Call Call.Reply) (e : BackupError) (q : Progress) :
    EnteredIfOk h (.error e, q) := by
  intro plan hplan
  cases hplan

/-- A part before `stream_in` has no say in it. -/
theorem wp_entered_part {α : Type} {x : Session α}
    {k : Result α → Proc Call Call.Reply (Result BackupPlan × Progress)}
    (hk : ∀ r h, Proc.wp (fun _ => True) EnteredIfOk (k r) h) (h : Hist Call Call.Reply) :
    Proc.wp (fun _ => True) EnteredIfOk (x.run.bind k) h := by
  rw [Proc.wp_bind]
  exact Proc.wp_of_forall (fun _ => trivial) (fun h' r => hk r h') x.run h

theorem wp_enteredIfOk (d : Deps) (streamIn : BackupPlan → StreamInProg) (q : Progress) :
    Proc.wp (fun _ => True) EnteredIfOk ((runDestination d streamIn).run q) [] := by
  rw [runDestination_eq]
  simp only [Metered.run_bind, Metered.run_monadLift, Proc.bind_assoc, Proc.ret_bind]
  refine wp_entered_part (fun r h => ?_) []
  cases r with
  | error e => exact enteredIfOk_error h e q
  | ok _ =>
    simp only [Metered.cont_ok, Metered.run_bind, Metered.run_monadLift, Proc.bind_assoc,
      Proc.ret_bind]
    refine wp_entered_part (fun r h => ?_) h
    cases r with
    | error e => exact enteredIfOk_error h e q
    | ok plan =>
      simp only [Metered.cont_ok, Metered.run_bind, Metered.run_monadLift, Proc.bind_assoc,
        Proc.ret_bind]
      refine wp_entered_part (fun r h => ?_) h
      cases r with
      | error e => exact enteredIfOk_error h e q
      | ok preflight =>
        simp only [Metered.cont_ok, Metered.run_bind, Metered.run_monadLift, Proc.bind_assoc,
          Proc.ret_bind]
        refine wp_entered_part (fun r h => ?_) h
        cases r with
        | error e => exact enteredIfOk_error h e q
        | ok approved =>
          simp only [Metered.cont_ok, answer, Metered.run_bind, Metered.run_monadLift,
            Proc.bind_assoc, Proc.ret_bind]
          refine wp_entered_part (fun r h => ?_) h
          cases r with
          | error e => exact enteredIfOk_error h e q
          | ok _ =>
            cases approved with
            | false => exact enteredIfOk_error h _ q
            | true =>
              refine ⟨trivial, fun r => ?_⟩
              refine Proc.wp_mono (fun _ _ => trivial) ?_
                (Proc.wp_extends _ (List.prefix_refl (h ++ [.call (.mark (.streamIn plan)) r])))
              rintro h' o ⟨t, rfl⟩ plan' _
              refine ⟨plan, ?_⟩
              rw [Hist.calls_append, Hist.calls_append]
              exact List.mem_append_left _ (List.mem_append_right _ (List.mem_singleton_self _))

/-- In every run of the destination on a stream that starts with a plan of another format
version, in any environment and whatever its `stream_in`, the plan is turned down, if and
only if the module's `validate` or the operator's `accept` does not pass it. -/
theorem unknown_version_refused (hseg : IsFrame ControlFrame d seg (.plan plan))
    (_hversion : plan.formatVersion ≠ PLAN_FORMAT_VERSION) :
    (∀ (streamIn : BackupPlan → StreamInProg) (q : Progress) (y : Bytes)
      (h : Hist Call Call.Reply) (x : Proc Call Call.Reply (Result BackupPlan × Progress)),
      ((runDestination d streamIn).run q).Run h x → h.ins <+: seg ++ y →
      Consults validate accept h → TurnedDown d h x) ↔
    ¬ Passes validate accept plan := by
  constructor
  · rintro hall ⟨preflight, hvalidate, hok, haccept⟩
    -- the run in which both pass it sends the accepting decision
    obtain ⟨h, hrun, hins, houts, hcalls, -⟩ := goes_runDestination (q := .fresh)
      (fun _ => .ret (.ok ())) preflight hseg hok
    have hconsults : Consults validate accept h := by
      refine ⟨fun plan' r hmem => ?_, fun plan' r hmem => ?_⟩
      · rw [hcalls] at hmem
        simp at hmem
        obtain ⟨rfl, hr⟩ := hmem
        rw [hr, hvalidate]
      · rw [hcalls] at hmem
        simp at hmem
        obtain ⟨rfl, hr⟩ := hmem
        rw [hr, haccept]
    have hdown := hall (fun _ => .ret (.ok ())) .fresh [] h _ hrun
      (by rw [hins, List.append_nil]) hconsults
    refine hdown.ack _ _ (isFrame_frameBytes (fits_planAck d preflight true)
      (decode_encode_planAck d true _)) ?_
    rw [houts]
  · intro hnot streamIn q y h x hrun harrives hconsults
    have hlog : DestLog d h := by
      refine Proc.wp_always (Q := fun h o => DestEnd d h o.1) ?_ (wp_runDestination d streamIn q)
        hrun
      intro h o hend
      generalize o.1 = r at hend
      cases hend with
      | failed hlog => exact hlog
      | complete hlog _ _ _ => exact hlog
      | unexpected hlog _ => exact hlog
    have hno : ¬ Approves h := fun ha =>
      hnot (passes_of_approves hseg harrives hconsults hlog ha)
    have hentered : ∀ plan', (⟨.mark (.streamIn plan'), ()⟩ : Sigma Call.Reply) ∉ h.calls :=
      fun plan' hmem => hno (hlog.approves_of_streamIn hmem)
    refine ⟨fun seg' reason hack hpre => hno (hlog.approves_of_ack hpre hack), hentered, ?_⟩
    rintro o rfl
    cases ho : o.1 with
    | error e => exact ⟨e, rfl⟩
    | ok plan' =>
      obtain ⟨plan'', hmem⟩ := Proc.wp_run (wp_enteredIfOk d streamIn q) hrun plan' ho
      exact absurd hmem (hentered plan'')

end Version

/-- The sample plan in a format this version does not know. -/
def futurePlan : BackupPlan := { samplePlan with formatVersion := 2 }

theorem isFrame_futurePlan :
    IsFrame ControlFrame sampleDeps (frameBytes sampleDeps (ControlFrame.plan futurePlan))
      (.plan futurePlan) := by
  have hplain : (ControlFrame.plan futurePlan).serialize.Plain := by
    refine ⟨?_, by decide⟩
    exact ⟨⟨Json.exact_int_of_lt (by decide), trivial, trivial, trivial, trivial, trivial,
      Json.exact_int_of_lt (by decide), ⟨trivial, trivial, trivial⟩, trivial, trivial⟩, trivial⟩
  refine isFrame_frameBytes (fits_of_size hplain.1 (by decide)) ?_
  exact decode_encode_control sampleDeps _ (sampleDeps.json.parse_print _ hplain)

/-- A destination whose preflight passes and whose operator agrees accepts a plan of
version 2. -/
theorem future_plan_accepted :
    futurePlan.formatVersion ≠ PLAN_FORMAT_VERSION ∧
    ∃ h x, ((runDestination sampleDeps fun _ => .ret (.ok ())).run .fresh).Run h x ∧
      h.ins = frameBytes sampleDeps (ControlFrame.plan futurePlan) ∧
      Consults (fun _ => .ok .pass) (fun _ => true) h ∧
      h.outs = frameBytes sampleDeps (ControlFrame.planAck true "accepted") := by
  refine ⟨by decide, ?_⟩
  obtain ⟨h, hrun, hins, houts, hcalls, -⟩ := goes_runDestination (q := .fresh)
    (fun _ => .ret (.ok ())) .pass isFrame_futurePlan rfl
  refine ⟨h, _, hrun, hins, ⟨fun plan r hmem => ?_, fun plan r hmem => ?_⟩, houts⟩
  · rw [hcalls] at hmem
    simp at hmem
    exact hmem.2
  · rw [hcalls] at hmem
    simp at hmem
    exact hmem.2

/-- An operator who refuses it stops it. -/
theorem unknown_version_refused_sample :
    ∃ h x, ((runDestination sampleDeps fun _ => .ret (.ok ())).run .fresh).Run h x ∧
      h.ins = frameBytes sampleDeps (ControlFrame.plan futurePlan) ∧ TurnedDown sampleDeps h x := by
  obtain ⟨h, hrun, hins, -, hcalls, -⟩ := goes_validated (q := .fresh)
    (fun _ => .ret (.ok ())) .pass isFrame_futurePlan
  have hrefused := (@unknown_version_refused sampleDeps futurePlan _ (fun _ => .ok .pass)
    (fun _ => false) isFrame_futurePlan (by decide)).mpr
  refine ⟨h, _, hrun, hins, hrefused ?_ _ _ [] h _ hrun ?_ ⟨?_, ?_⟩⟩
  · rintro ⟨preflight, -, -, haccept⟩
    cases haccept
  · rw [hins, List.append_nil]
  · intro plan r hmem
    rw [hcalls] at hmem
    simp at hmem
    exact hmem.2
  · intro plan r hmem
    rw [hcalls] at hmem
    simp at hmem

end RustBackup.Core
