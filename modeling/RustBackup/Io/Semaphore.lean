/-
  Io/Semaphore.lean --- permits and who holds them.

  A counting semaphore of a given capacity is in order when the permits that are left
  and those that are held make up the capacity.  Taking a permit, giving it back and
  handing it on keep it so, whatever the holders are.
-/
import Mathlib.Data.Set.Card

set_option autoImplicit false

namespace RustBackup.Io

variable {ι : Type} {cap permits : Nat} {H H' : Set ι} {x y : ι}

/-- So many permits are left, and `H` holds the others. -/
structure Accounts (cap permits : Nat) (H : Set ι) : Prop where
  finite : H.Finite
  total : permits + H.ncard = cap

namespace Accounts

/-- Nobody holds a permit at first. -/
theorem start (cap : Nat) : Accounts cap cap (∅ : Set ι) := by
  refine ⟨Set.finite_empty, ?_⟩
  rw [Set.ncard_empty, Nat.add_zero]

theorem ncard_le (h : Accounts cap permits H) : H.ncard ≤ cap := by
  have := h.total
  omega

/-- A permit is taken. -/
theorem acquire (h : Accounts cap permits H) (hx : x ∉ H) (hpermits : 0 < permits) :
    Accounts cap (permits - 1) (insert x H) := by
  refine ⟨h.finite.insert x, ?_⟩
  rw [Set.ncard_insert_of_notMem hx h.finite]
  have := h.total
  omega

/-- A permit is given back. -/
theorem release (h : Accounts cap permits H) (hx : x ∈ H) :
    Accounts cap (permits + 1) (H \ {x}) := by
  refine ⟨h.finite.sdiff, ?_⟩
  have hcard := Set.ncard_sdiff_singleton_add_one hx h.finite
  have := h.total
  omega

/-- A permit changes hands. -/
theorem handOver (h : Accounts cap permits H) (hx : x ∈ H) (hy : y ∉ H) :
    Accounts cap permits (insert y (H \ {x})) := by
  have hy' : y ∉ H \ {x} := fun hmem => hy hmem.1
  exact (h.release hx).acquire hy' (Nat.succ_pos permits)

/-- Only a holder can be counted against the capacity. -/
theorem ncard_le_of_subset (h : Accounts cap permits H) (hsub : H' ⊆ H) :
    H'.Finite ∧ H'.ncard ≤ cap :=
  ⟨h.finite.subset hsub, (Set.ncard_le_ncard hsub h.finite).trans h.ncard_le⟩

end Accounts

end RustBackup.Io
