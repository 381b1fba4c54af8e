/-
  Core/Stubs.lean --- the four backends, none of which backs up anything yet.

  Sources: crates/rb-{postgres,mongodb,filesystem,s3}/src/lib.rs, crates/rb-core/src/session.rs.

  Each of the backends reads its parameters and then refuses: a source fails at its
  fingerprint, a destination's preflight has a check that fails.  What a session does with
  a preflight that is not ok holds of any module: it makes no call but those up to
  `validate`, and writes the refusal.
-/
import RustBackup.Core.Config
import RustBackup.Core.Consent

set_option autoImplicit false

namespace RustBackup.Core

open RustBackup.Serde RustBackup.Io

/-! ## The backends -/

namespace Module

variable (m : Module)

/-- `BackupModule::name`. -/
def name : Module → String
  | .postgres => "postgres"
  | .mongodb => "mongodb"
  | .filesystem => "filesystem"
  | .s3 => "s3"

/-- The text of what is missing. -/
def notYet (what : String) : String :=
  s!"rb-{m.name}: {what} not yet implemented (plan Phase 2)"

/-- `BackupModule::open_source` and `open_destination`: the parameters are read. -/
def openWith (why : Json → String) (params : TargetParams) : Result Unit :=
  (params.deserialize why m).map fun _ => ()

/-- `Source::analyze`. -/
def analyze : Result BackupPlan := .error (.inPhase .analyze (m.notYet "analyze"))

/-- `Source::fingerprint`. -/
def fingerprint : Result String := .error (.inPhase .analyze (m.notYet "fingerprint"))

/-- `Source::stream_out`. -/
def streamOut (_plan : BackupPlan) : SinkProg :=
  .ret (.error (.inPhase .transfer (m.notYet "stream_out")))

/-- `Destination::validate`. -/
def validate (_plan : BackupPlan) : Result Preflight :=
  .ok (Preflight.pass.check "not-implemented" false
    (s!"rb-{m.name} restore stub — destination validation and restore not yet implemented " ++
      "(plan Phase 2)"))

/-- `Destination::stream_in`. -/
def streamIn (_plan : BackupPlan) : StreamInProg :=
  .ret (.error (.inPhase .apply (m.notYet "stream_in")))

/-- The registered module. -/
def backupModule : BackupModule where
  name := m.name
  streamOut _ := m.streamOut
  streamIn _ := m.streamIn

/-- No plan passes. -/
theorem not_ok_of_validate {m : Module} {plan : BackupPlan} {preflight : Preflight}
    (h : Except.ok preflight = m.validate plan) : preflight.ok = false := by
  cases h
  rfl

end Module

/-! ## A destination whose preflight is not ok -/

/-- A call up to `validate`, or one of the framing. -/
inductive IsOpening : Call → Prop where
  | openStream : IsOpening .openStream
  | validate (plan : BackupPlan) : IsOpening (.validate plan)
  | quiet {e : Call} (he : IsQuiet e) : IsOpening e

/-- A plan has passed the preflight. -/
def Passed (h : Hist Call Call.Reply) : Prop :=
  ∃ plan, ∃ preflight : Preflight, preflight.ok = true ∧
    (⟨.validate plan, .ok preflight⟩ : Sigma Call.Reply) ∈ h.calls

/-- Only the calls up to `validate` were made. -/
def Held (h : Hist Call Call.Reply) : Prop := ∀ c ∈ h.calls, IsOpening c.1

theorem Passed.mono {h h' : Hist Call Call.Reply} (hp : Passed h) (hpre : h <+: h') :
    Passed h' := by
  obtain ⟨plan, preflight, hok, hmem⟩ := hp
  obtain ⟨t, rfl⟩ := hpre
  refine ⟨plan, preflight, hok, ?_⟩
  rw [Hist.calls_append]
  exact List.mem_append_left _ hmem

theorem Held.adds {h₀ h : Hist Call Call.Reply} (hh : Held h₀) (ha : Proc.Adds IsOpening h₀ h) :
    Held h := by
  obtain ⟨t, rfl, ht⟩ := ha
  intro c hc
  rw [Hist.calls_append, List.mem_append] at hc
  exact hc.elim (hh c) (ht c)

theorem Held.concat {h : Hist Call Call.Reply} (hh : Held h) {e : Call} {r : e.Reply}
    (he : IsOpening e) : Held (h ++ [.call e r]) := by
  intro c hc
  rw [Hist.calls_append, Hist.calls_call, List.mem_append] at hc
  refine hc.elim (hh c) fun hc => ?_
  obtain rfl := List.mem_singleton.mp hc
  exact he

/-- A plan has passed, or nothing but the opening was done. -/
def PassedOrHeld (h : Hist Call Call.Reply) : Prop := Passed h ∨ Held h

/-- Without a plan that has passed there is no success. -/
def Unless {α : Type} (h : Hist Call Call.Reply) (o : Result α × Progress) : Prop :=
  PassedOrHeld h ∧ ∀ a, o.1 = .ok a → Passed h

section Run

variable {α β : Type} {p : Progress} {h : Hist Call Call.Reply}

/-- Behind a plan that has passed, anything may follow. -/
theorem wp_of_passed (x : Metered α) (hp : Passed h) :
    Proc.wp PassedOrHeld Unless (x.run p) h :=
  Proc.wp_mono (fun _ hpre => .inl (hp.mono hpre))
    (fun _ _ hpre => ⟨.inl (hp.mono hpre), fun _ _ => hp.mono hpre⟩)
    (Proc.wp_extends (x.run p) (List.prefix_refl h))

/-- A part of the opening, and what follows it. -/
theorem wp_opening {x : Metered α} {f : α → Metered β} (hh : Held h) (hx : x.Only IsOpening)
    (hf : ∀ h' a p', Held h' → Proc.wp PassedOrHeld Unless ((f a).run p') h') :
    Proc.wp PassedOrHeld Unless ((x >>= f).run p) h := by
  rw [Metered.run_bind, Proc.wp_bind]
  refine (hx p).wp (fun h' ha => .inr (hh.adds ha)) (fun h' o ha => ?_) (.refl h)
  obtain ⟨r, p'⟩ := o
  cases r with
  | ok a => exact hf h' a p' (hh.adds ha)
  | error e => exact ⟨.inr (hh.adds ha), fun a ha => (by cases ha)⟩

theorem opening_of_quiet {x : Session α} (hx : x.run.Only IsQuiet) :
    (monadLift x : Metered α).Only IsOpening :=
  Metered.only_lift (hx.mono fun _ he => .quiet he)

theorem wp_error (hh : Held h) (e : BackupError) :
    Proc.wp PassedOrHeld Unless ((Metered.ofResult (.error e) : Metered α).run p) h :=
  ⟨.inr hh, fun a ha => (by cases ha)⟩

variable {d : Deps} {streamIn : BackupPlan → StreamInProg}

/-- In every run of the destination side, on every channel, either a plan has passed the
preflight or nothing but the opening was done, and without one there is no success. -/
theorem wp_held (d : Deps) (streamIn : BackupPlan → StreamInProg) (p : Progress) :
    Proc.wp PassedOrHeld Unless ((runDestination d streamIn).run p) [] := by
  have hnil : Held [] := fun c hc => absurd hc List.not_mem_nil
  rw [runDestination_eq]
  refine wp_opening hnil (Metered.only_lift ⟨.openStream, fun _ => trivial⟩) fun h _ p hh => ?_
  refine wp_opening hh (opening_of_quiet (quiet_recvPlan d)) fun h plan p hh => ?_
  refine ⟨.inr hh, fun r => ?_⟩
  have hvalidated : Held (h ++ [.call (.validate plan) r]) := hh.concat (.validate plan)
  cases r with
  | error e => exact ⟨.inr hvalidated, fun a ha => (by cases ha)⟩
  | ok preflight =>
    by_cases hok : preflight.ok = true
    · exact wp_of_passed _ ⟨plan, preflight, hok, mem_calls_concat h (.validate plan) _⟩
    · show Proc.wp PassedOrHeld Unless (((monadLift (decideApproval plan preflight) :
        Metered Bool) >>= answer d streamIn plan preflight).run p) _
      unfold decideApproval
      rw [if_neg hok]
      show Proc.wp PassedOrHeld Unless ((answer d streamIn plan preflight false).run p) _
      refine wp_opening hvalidated (opening_of_quiet (quiet_sendFrame d _)) fun h _ p hh => ?_
      exact wp_error hh _

/-- What a refused destination writes. -/
def refusalBytes (d : Deps) : Bytes :=
  frameBytes d (ControlFrame.planAck false "preflight failed")

theorem DestLog.outs_of_not_passed (hlog : DestLog d h) (hno : ¬ Passed h) :
    h.outs <+: refusalBytes d := by
  have hnot : ∀ {plan preflight approved rest},
      notes h = decisionNotes plan preflight approved ++ rest → preflight.ok = false := by
    intro plan preflight approved rest hnotes
    refine Bool.eq_false_iff.mpr fun hok => hno ⟨plan, preflight, hok, ?_⟩
    have hmem : (⟨.validate plan, .ok preflight⟩ : Sigma Call.Reply) ∈ notes h := by
      rw [hnotes]
      exact List.mem_append_left _ (by simp [decisionNotes])
    exact (List.mem_filter.mp hmem).1
  cases hlog with
  | opening houts _ => rw [houts]; exact List.nil_prefix
  | validated plan r _ houts _ => rw [houts]; exact List.nil_prefix
  | decided plan preflight approved _ hok hnotes houts =>
    have hfalse := hnot (hnotes.trans (List.append_nil _).symm)
    cases approved with
    | true => exact absurd (hok rfl) (by simp [hfalse])
    | false =>
      have hreason : reasonFor preflight false = "preflight failed" := by simp [reasonFor, hfalse]
      rw [hreason] at houts
      exact houts
  | applying plan preflight rest _ hok _ hnotes _ => exact absurd hok (by simp [hnot hnotes])

variable {x : Proc Call Call.Reply (Result BackupPlan × Progress)}

/-- A run without a plan that has passed. -/
theorem held_of_run (hr : ((runDestination d streamIn).run p).Run h x) (hno : ¬ Passed h) :
    Held h :=
  (Proc.wp_always (Q := Unless) (fun _ _ ho => ho.1) (wp_held d streamIn p) hr).resolve_left hno

theorem outs_of_run (hr : ((runDestination d streamIn).run p).Run h x) (hno : ¬ Passed h) :
    h.outs <+: refusalBytes d := by
  have hlog := Proc.wp_always (fun _ _ hend => hend.log) (wp_runDestination d streamIn p) hr
  exact hlog.outs_of_not_passed hno

theorem passed_of_ok {plan : BackupPlan} {p' : Progress}
    (hr : ((runDestination d streamIn).run p).Run h (.ret (.ok plan, p'))) : Passed h :=
  (Proc.wp_run (wp_held d streamIn p) hr).2 plan rfl

end Run

end RustBackup.Core
