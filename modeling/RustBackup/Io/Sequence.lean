/-
  Io/Sequence.lean --- fallible tasks one after another.

  A run of a composed program is a run of its first part, or a run of the first part
  to its end and a run of the second.  A loop over a list that leaves at the first
  error is composed of the runs of its turns: all but the last turn have returned
  without an error.
-/
import RustBackup.Io.Solo

set_option autoImplicit false

namespace RustBackup.Io

variable {E : Type} {R : E → Type} {ε α β : Type}

namespace Proc

/-! ## Runs of composed programs -/

/-- A run of a program that starts with a call. -/
theorem Run.of_call {e : E} {k : R e → Proc E R α} {t : Hist E R} {q : Proc E R α}
    (hr : (Proc.call e k).Run t q) :
    (t = [] ∧ q = .call e k) ∨ ∃ r t', t = .call e r :: t' ∧ (k r).Run t' q := by
  induction hr with
  | refl => exact .inl ⟨rfl, rfl⟩
  | tail _ hs ih =>
    rcases ih with ⟨rfl, rfl⟩ | ⟨r, t', rfl, hrun⟩
    · cases hs with
      | call => exact .inr ⟨_, [], rfl, .refl _⟩
    · exact .inr ⟨r, _, rfl, .tail hrun hs⟩

/-- A run of a composed program is a run of its first part that has not returned yet, or
one that has and a run of the second part. -/
theorem Run.of_bind {p : Proc E R α} {f : α → Proc E R β} {t : Hist E R} {q : Proc E R β}
    (hr : (p.bind f).Run t q) :
    (∃ p', p.Run t p' ∧ ¬ p'.Finished ∧ q = p'.bind f) ∨
      ∃ a t₁ t₂, t = t₁ ++ t₂ ∧ p.Run t₁ (.ret a) ∧ (f a).Run t₂ q := by
  induction hr with
  | refl =>
    by_cases hp : p.Finished
    · obtain ⟨a, rfl⟩ := hp
      exact .inr ⟨a, [], [], rfl, .refl _, .refl _⟩
    · exact .inl ⟨p, .refl p, hp, rfl⟩
  | @tail q q' t a _ hs ih =>
    rcases ih with ⟨p', hrun, hp', rfl⟩ | ⟨b, t₁, t₂, rfl, hfirst, hrun⟩
    · obtain ⟨p'', hstep, rfl⟩ := hs.of_bind hp'
      have hrun' := Run.tail hrun hstep
      by_cases hp'' : p''.Finished
      · obtain ⟨b, rfl⟩ := hp''
        exact .inr ⟨b, _, [], (List.append_nil _).symm, hrun', .refl _⟩
      · exact .inl ⟨p'', hrun', hp'', rfl⟩
    · exact .inr ⟨b, t₁, t₂ ++ [a], List.append_assoc _ _ _, hfirst, .tail hrun hs⟩

end Proc

namespace Task

/-- `for x in xs { f(i, x).await?; }`, where `i` counts the turns. -/
def forEach (f : Nat → α → Task E R ε Unit) : Nat → List α → Task E R ε Unit
  | _, [] => ok ()
  | i, x :: xs => (f i x).andThen fun _ => forEach f (i + 1) xs

variable (f : Nat → α → Task E R ε Unit)

/-- How far a loop over a list has come. -/
inductive Through : Nat → List α → Hist E R → Proc E R (Except ε Unit) → Prop where
  /-- no turns are left -/
  | done {i : Nat} : Through i [] [] (.ret (.ok ()))
  /-- the turn is under way -/
  | within {i : Nat} {x : α} {xs : List α} {u : Hist E R} {p q : Proc E R (Except ε Unit)}
      (hu : (f i x).run.Run u p) (hp : ¬ p.Finished) (hq : ¬ q.Finished) :
      Through i (x :: xs) u q
  /-- the turn has failed and the loop with it -/
  | failed {i : Nat} {x : α} {xs : List α} {u : Hist E R} {e : ε}
      (hu : (f i x).run.Run u (.ret (.error e))) : Through i (x :: xs) u (.ret (.error e))
  /-- the turn is over -/
  | next {i : Nat} {x : α} {xs : List α} {u t : Hist E R} {q : Proc E R (Except ε Unit)}
      (hu : (f i x).run.Run u (.ret (.ok ()))) (ht : Through (i + 1) xs t q) :
      Through i (x :: xs) (u ++ t) q

variable {f}

theorem through_of_run {i : Nat} {xs : List α} {t : Hist E R} {q : Proc E R (Except ε Unit)}
    (hr : (forEach f i xs).run.Run t q) : Through f i xs t q := by
  induction xs generalizing i t with
  | nil =>
    obtain ⟨rfl, rfl⟩ := hr.of_ret
    exact .done
  | cons x xs ih =>
    rcases Proc.Run.of_bind hr with ⟨p, hu, hp, rfl⟩ | ⟨r, u, t', rfl, hu, hr'⟩
    · exact .within hu hp fun hq => hp hq.of_bind
    · cases r with
      | ok _ => exact .next hu (ih hr')
      | error e =>
        obtain ⟨rfl, rfl⟩ := hr'.of_ret
        rw [List.append_nil]
        exact .failed hu

end Task

end RustBackup.Io
