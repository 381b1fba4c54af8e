/-
  Core/Consent.lean --- the plan that is applied is the one that was let through.

  Source: crates/rb-core/src/session.rs (`run_destination`).

  A destination that enters `stream_in` has had that very plan validated, with a
  preflight that is ok, and accepted, in every run and whatever the peer sends.
-/
import RustBackup.Core.StreamUse

set_option autoImplicit false

namespace RustBackup.Core

open RustBackup.Serde RustBackup.Io

/-- The record of entering `stream_in`. -/
abbrev noteStreamIn (plan : BackupPlan) : Sigma Call.Reply := ⟨.mark (.streamIn plan), ()⟩

/-- `validate` let the plan pass, and the accept policy took it. -/
def Consented (plan : BackupPlan) (h : Hist Call Call.Reply) : Prop :=
  (∃ preflight : Preflight, preflight.ok = true ∧
    (⟨.validate plan, .ok preflight⟩ : Sigma Call.Reply) ∈ h.calls) ∧
  (⟨.accept plan, true⟩ : Sigma Call.Reply) ∈ h.calls

/-- Every plan that `stream_in` was entered with had consent. -/
def Entries (h : Hist Call Call.Reply) : Prop :=
  ∀ plan, noteStreamIn plan ∈ h.calls → Consented plan h

/-- `stream_in` was not entered. -/
def Unentered (h : Hist Call Call.Reply) : Prop := ∀ plan, noteStreamIn plan ∉ h.calls

theorem Unentered.entries {h : Hist Call Call.Reply} (hu : Unentered h) : Entries h :=
  fun plan hmem => absurd hmem (hu plan)

theorem Consented.append {plan : BackupPlan} {h : Hist Call Call.Reply} (hc : Consented plan h)
    (t : Hist Call Call.Reply) : Consented plan (h ++ t) := by
  obtain ⟨⟨preflight, hok, hvalidate⟩, haccept⟩ := hc
  unfold Consented
  rw [Hist.calls_append]
  exact ⟨⟨preflight, hok, List.mem_append_left _ hvalidate⟩, List.mem_append_left _ haccept⟩

theorem Unentered.concat {h : Hist Call Call.Reply} (hu : Unentered h) {e : Call} {r : e.Reply}
    (he : ∀ plan, e ≠ .mark (.streamIn plan)) : Unentered (h ++ [.call e r]) := by
  intro plan hmem
  rw [Hist.calls_append, Hist.calls_call, List.mem_append] at hmem
  rcases hmem with hmem | hmem
  · exact hu plan hmem
  · have heq := congrArg Sigma.fst (List.mem_singleton.mp hmem)
    exact he plan heq.symm

theorem Unentered.adds {h₀ h : Hist Call Call.Reply} (hu : Unentered h₀)
    (ha : Proc.Adds IsInside h₀ h) : Unentered h := by
  obtain ⟨t, rfl, ht⟩ := ha
  intro plan hmem
  rw [Hist.calls_append, List.mem_append] at hmem
  rcases hmem with hmem | hmem
  · exact hu plan hmem
  · exact (ht _ hmem).ne_streamIn plan rfl

/-- What a destination does inside `stream_in` and behind it needs no new consent. -/
theorem Entries.adds {h₀ h : Hist Call Call.Reply} (hentries : Entries h₀)
    (ha : Proc.Adds IsInside h₀ h) : Entries h := by
  obtain ⟨t, rfl, ht⟩ := ha
  intro plan hmem
  rw [Hist.calls_append, List.mem_append] at hmem
  rcases hmem with hmem | hmem
  · exact (hentries plan hmem).append t
  · exact absurd rfl ((ht _ hmem).ne_streamIn plan)

/-! ## The destination's run -/

section Run

variable {d : Deps} {streamIn : BackupPlan → StreamInProg} {plan : BackupPlan}
variable {p : Progress} {h : Hist Call Call.Reply}

/-- A part that enters nothing, and what follows it. -/
theorem wp_unentered {α β : Type} {x : Metered α} {f : α → Metered β} (hu : Unentered h)
    (hx : x.Only IsInside) (hf : ∀ h' a p', Proc.Adds IsInside h h' →
      Proc.wp Entries (fun h _ => Entries h) ((f a).run p') h') :
    Proc.wp Entries (fun h _ => Entries h) ((x >>= f).run p) h := by
  rw [Metered.run_bind, Proc.wp_bind]
  refine (hx p).wp (fun h' ha => (hu.adds ha).entries) (fun h' o ha => ?_) (.refl h)
  obtain ⟨r, p'⟩ := o
  cases r with
  | ok a => exact hf h' a p' ha
  | error e => exact (hu.adds ha).entries

theorem wp_enter (hu : Unentered h) (hc : Consented plan h) :
    Proc.wp Entries (fun h _ => Entries h) ((applyPayload d streamIn plan).run p) h := by
  obtain ⟨k, hk, hinside⟩ := inside_applyPayload d streamIn plan p
  rw [hk]
  refine ⟨hu.entries, fun r => ?_⟩
  have hentries : Entries (h ++ [.call (.mark (.streamIn plan)) r]) := by
    intro plan' hmem
    rw [Hist.calls_append, Hist.calls_call, List.mem_append] at hmem
    rcases hmem with hmem | hmem
    · exact absurd hmem (hu plan')
    · cases List.mem_singleton.mp hmem
      exact hc.append _
  exact (hinside r).wp (fun h' ha => hentries.adds ha) (fun h' _ ha => hentries.adds ha) (.refl _)

theorem wp_decided {preflight : Preflight} {approved : Bool} (hu : Unentered h)
    (hc : approved = true → Consented plan h) :
    Proc.wp Entries (fun h _ => Entries h)
      ((answer d streamIn plan preflight approved).run p) h := by
  refine wp_unentered hu (Metered.only_lift (quiet_sendFrame d _)).inside fun h' _ p' ha => ?_
  cases approved with
  | false => exact (hu.adds ha).entries
  | true =>
    have hadds := ha
    obtain ⟨t, rfl, -⟩ := ha
    exact wp_enter (hu.adds hadds) ((hc rfl).append t)

/-- In every run of the destination side, on every channel, every plan that `stream_in`
was entered with had consent. -/
theorem wp_consented (d : Deps) (streamIn : BackupPlan → StreamInProg) (p : Progress) :
    Proc.wp Entries (fun h _ => Entries h) ((runDestination d streamIn).run p) [] := by
  have hnil : Unentered [] := fun plan hmem => absurd hmem List.not_mem_nil
  rw [runDestination_eq]
  refine ⟨hnil.entries, fun r => ?_⟩
  have hopened : Unentered ([] ++ [.call .openStream r]) := hnil.concat fun plan => by simp
  cases r with
  | error e => exact hopened.entries
  | ok _ =>
    refine wp_unentered hopened (Metered.only_lift (quiet_recvPlan d)).inside
      fun h plan p' ha => ?_
    have hu := hopened.adds ha
    refine ⟨hu.entries, fun r => ?_⟩
    have hvalidated : Unentered (h ++ [.call (.validate plan) r]) := hu.concat fun _ => by simp
    cases r with
    | error e => exact hvalidated.entries
    | ok preflight =>
      show Proc.wp Entries _ (((monadLift (decideApproval plan preflight) : Metered Bool) >>=
        answer d streamIn plan preflight).run p') _
      unfold decideApproval
      by_cases hok : preflight.ok = true
      · rw [if_pos hok]
        refine ⟨hvalidated.entries, fun approved => ?_⟩
        apply wp_decided (hvalidated.concat fun _ => by simp)
        rintro rfl
        have hvalidate := mem_calls_concat h (.validate plan) (.ok preflight)
        refine ⟨⟨preflight, hok, ?_⟩, mem_calls_concat _ (.accept plan) true⟩
        rw [Hist.calls_append]
        exact List.mem_append_left _ hvalidate
      · rw [if_neg hok]
        exact wp_decided hvalidated fun habsurd => (by cases habsurd)

theorem entries_of_run {x : Proc Call Call.Reply (Result BackupPlan × Progress)}
    (hr : ((runDestination d streamIn).run p).Run h x) : Entries h :=
  Proc.wp_always (Q := fun h _ => Entries h) (fun _ _ he => he) (wp_consented d streamIn p) hr

/-- A source enters no `stream_in`. -/
theorem unentered_runSource (d : Deps) (streamOut : BackupPlan → SinkProg) (p : Progress) :
    ((runSource d streamOut).run p).Only fun e => ∀ plan, e ≠ .mark (.streamIn plan) := by
  rw [runSource_eq]
  refine ⟨fun plan => by simp, fun r => ?_⟩
  cases r with
  | error e => exact trivial
  | ok fp =>
    refine ⟨fun plan => by simp, fun r => ?_⟩
    cases r with
    | error e => exact trivial
    | ok plan =>
      refine ⟨fun plan => by simp, fun r => ?_⟩
      cases r with
      | error e => exact trivial
      | ok _ =>
        exact (streaming_exchange d streamOut fp plan p).mono fun _ he => he.ne_streamIn

end Run

end RustBackup.Core
