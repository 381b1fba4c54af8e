/-
  Io/Fair.lean --- endless runs of a host, and what must happen in them.

  A behaviour goes on forever: at every time something happens, or nothing does.  What
  nobody is obliged to do may never happen, so what must happen is stated under
  fairness: a condition that lasts is eventually followed by an event that it asks for.

  From one fair event follows one stage of progress (`LeadsTo.of_fair`), and stages
  compose, along a chain or down a rank.
-/
import RustBackup.Io.Tasks

set_option autoImplicit false

namespace RustBackup.Io

/-! ## Progress in time -/

/-- Whenever `P` holds, `Q` holds then or later. -/
def LeadsTo (P Q : Nat → Prop) : Prop := ∀ n, P n → ∃ m, n ≤ m ∧ Q m

namespace LeadsTo

variable {P Q S occurs : Nat → Prop}

theorem trans (h : LeadsTo P Q) (h' : LeadsTo Q S) : LeadsTo P S := by
  intro n hn
  obtain ⟨m, hm, hQ⟩ := h n hn
  obtain ⟨l, hl, hS⟩ := h' m hQ
  exact ⟨l, Nat.le_trans hm hl, hS⟩

/-- `P` lasts until `Q` holds, an event makes `Q` hold, and the event is not put off
forever. -/
theorem of_fair (hstay : ∀ n, P n → P (n + 1) ∨ Q (n + 1))
    (hhelp : ∀ n, P n → occurs n → Q (n + 1))
    (hfair : ∀ n, (∀ m, n ≤ m → P m) → ∃ m, n ≤ m ∧ occurs m) : LeadsTo P Q := by
  intro n hn
  by_contra hnever
  have hlasts : ∀ m, n ≤ m → P m := by
    intro m hm
    induction m, hm using Nat.le_induction with
    | base => exact hn
    | succ m hm ih =>
      rcases hstay m ih with hP | hQ
      · exact hP
      · exact absurd ⟨m + 1, Nat.le_succ_of_le hm, hQ⟩ hnever
  obtain ⟨m, hm, hocc⟩ := hfair n hlasts
  exact hnever ⟨m + 1, Nat.le_succ_of_le hm, hhelp m (hlasts m hm) hocc⟩

/-- A rank that goes down until `Q` holds. -/
theorem of_rank {P : Nat → Nat → Prop}
    (h : ∀ j, LeadsTo (P j) fun n => (∃ j', j' < j ∧ P j' n) ∨ Q n) (j : Nat) :
    LeadsTo (P j) Q := by
  induction j using Nat.strongRecOn with
  | ind j ih =>
    intro n hn
    obtain ⟨m, hm, ⟨j', hlt, hP⟩ | hQ⟩ := h j n hn
    · obtain ⟨l, hl, hQ⟩ := ih j' hlt m hP
      exact ⟨l, Nat.le_trans hm hl, hQ⟩
    · exact ⟨m, hm, hQ⟩

end LeadsTo

/-! ## Behaviours -/

section Behaviour

variable {ι E : Type} {R : E → Type} {α σ Λ : Type} [DecidableEq ι]

/-- An endless run from `x` whose steps all meet `ok`. -/
structure Behaviour (c : Host ι E R α σ Λ) (ok : Tasks ι E R σ → Event ι E R Λ → Prop)
    (x : σ) where
  state : Nat → Tasks ι E R σ
  /-- what happens between times `n` and `n + 1`, if anything does -/
  event : Nat → Option (Event ι E R Λ)
  init : state 0 = ⟨fun _ => [], x⟩
  idle : ∀ n, event n = none → state (n + 1) = state n
  step : ∀ n e, event n = some e → ok (state n) e ∧ c.Step e (state n) (state (n + 1))

variable {c : Host ι E R α σ Λ} {ok : Tasks ι E R σ → Event ι E R Λ → Prop} {x : σ}

namespace Behaviour

/-- What lasts is eventually followed by one of the events it asks for. -/
def Fair (b : Behaviour c ok x) (P : Tasks ι E R σ → Prop) (asked : Event ι E R Λ → Prop) :
    Prop :=
  ∀ n, (∀ m, n ≤ m → P (b.state m)) → ∃ m, n ≤ m ∧ ∃ e, b.event m = some e ∧ asked e

theorem reach (b : Behaviour c ok x) (n : Nat) : c.Reach ok x (b.state n) := by
  induction n with
  | zero =>
    rw [b.init]
    exact .init
  | succ n ih =>
    cases he : b.event n with
    | none =>
      rw [b.idle n he]
      exact ih
    | some e =>
      obtain ⟨hok, hs⟩ := b.step n e he
      exact .step ih hok hs

theorem Fair.mono {b : Behaviour c ok x} {P P' : Tasks ι E R σ → Prop}
    {asked : Event ι E R Λ → Prop} (hfair : b.Fair P asked) (hP : ∀ s, P' s → P s) :
    b.Fair P' asked :=
  fun n hlasts => hfair n fun m hm => hP _ (hlasts m hm)

/-- A behaviour that comes to rest where nothing is asked for is fair. -/
theorem fair_of_rest {b : Behaviour c ok x} {s : Tasks ι E R σ} {n₀ : Nat}
    (hrest : ∀ n, n₀ ≤ n → b.state n = s) {P : Tasks ι E R σ → Prop} (hP : ¬ P s)
    (asked : Event ι E R Λ → Prop) : b.Fair P asked := by
  intro n hlasts
  have hlast := hlasts (max n n₀) (Nat.le_max_left n n₀)
  rw [hrest _ (Nat.le_max_right n n₀)] at hlast
  exact absurd hlast hP

/-- What every step keeps, lasts. -/
theorem lasts (b : Behaviour c ok x) {P : Tasks ι E R σ → Prop}
    (hstep : ∀ s s' e, c.Step e s s' → P s → P s') {m n : Nat} (hle : m ≤ n)
    (hP : P (b.state m)) : P (b.state n) := by
  induction n, hle using Nat.le_induction with
  | base => exact hP
  | succ n _ ih =>
    cases he : b.event n with
    | none =>
      rw [b.idle n he]
      exact ih
    | some e => exact hstep _ _ e (b.step n e he).2 ih

/-- A stage of progress: `P` lasts until `Q` holds, and an event that is asked for
makes `Q` hold. -/
theorem leadsTo (b : Behaviour c ok x) {P Q : Tasks ι E R σ → Prop}
    {asked : Event ι E R Λ → Prop} (hfair : b.Fair P asked)
    (hstep : ∀ s s' e, c.Reach ok x s → ok s e → c.Step e s s' → P s →
      (P s' ∧ ¬ asked e) ∨ Q s') :
    LeadsTo (fun n => P (b.state n)) fun n => Q (b.state n) := by
  have hoccurs : ∀ n, (∀ m, n ≤ m → P (b.state m)) →
      ∃ m, n ≤ m ∧ ∃ e, b.event m = some e ∧ asked e := hfair
  refine LeadsTo.of_fair ?_ ?_ hoccurs
  · intro n hP
    cases he : b.event n with
    | none =>
      rw [b.idle n he]
      exact .inl hP
    | some e =>
      obtain ⟨hok, hs⟩ := b.step n e he
      exact (hstep _ _ e (b.reach n) hok hs hP).imp_left And.left
  · rintro n hP ⟨e, he, hasked⟩
    obtain ⟨hok, hs⟩ := b.step n e he
    rcases hstep _ _ e (b.reach n) hok hs hP with ⟨-, hnot⟩ | hQ
    · exact absurd hasked hnot
    · exact hQ

end Behaviour

/-- A run becomes a behaviour in which nothing happens any more. -/
theorem Host.Reach.exists_behaviour {s : Tasks ι E R σ} (hr : c.Reach ok x s) :
    ∃ (b : Behaviour c ok x) (n₀ : Nat), ∀ n, n₀ ≤ n → b.state n = s ∧ b.event n = none := by
  induction hr with
  | init =>
    exact ⟨⟨fun _ => ⟨fun _ => [], x⟩, fun _ => none, rfl, fun _ _ => rfl, fun _ _ h => by cases h⟩,
      0, fun _ _ => ⟨rfl, rfl⟩⟩
  | @step s s' e _ hok hs ih =>
    obtain ⟨b, n₀, hlast⟩ := ih
    refine ⟨⟨fun n => if n ≤ n₀ then b.state n else s',
      fun n => if n = n₀ then some e else b.event n, ?_, ?_, ?_⟩, n₀ + 1, ?_⟩
    · rw [if_pos (Nat.zero_le _)]
      exact b.init
    · intro n hnone
      by_cases heq : n = n₀
      · rw [if_pos heq] at hnone
        cases hnone
      · rw [if_neg heq] at hnone
        by_cases hle : n ≤ n₀
        · rw [if_pos hle, if_pos (by omega)]
          exact b.idle n hnone
        · rw [if_neg hle, if_neg (by omega)]
    · intro n e' he'
      by_cases heq : n = n₀
      · rw [if_pos heq] at he'
        cases he'
        rw [if_pos (by omega), if_neg (by omega), heq, (hlast n₀ (Nat.le_refl n₀)).1]
        exact ⟨hok, hs⟩
      · rw [if_neg heq] at he'
        have hle : n ≤ n₀ := by
          by_contra hgt
          rw [(hlast n (by omega)).2] at he'
          cases he'
        rw [if_pos hle, if_pos (by omega)]
        exact b.step n e' he'
    · intro n hn
      have hstate : (if n ≤ n₀ then b.state n else s') = s' := if_neg (by omega)
      have hevent : (if n = n₀ then some e else b.event n) = b.event n := if_neg (by omega)
      exact ⟨hstate, hevent.trans (hlast n (by omega)).2⟩

end Behaviour

end RustBackup.Io
