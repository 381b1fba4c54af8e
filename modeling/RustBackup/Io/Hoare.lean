/-
  Io/Hoare.lean --- pre- and postconditions for tasks over a byte stream.

  `wp I Q p h` reads: run `p` with the history `h` behind it, in any environment;
  then `I` holds of the history whenever `p` is about to interact, and `Q` holds
  of the history and the result when it returns.  It is defined by recursion on
  the task, so it is a statement about every answer the environment can give to
  every call, and `wp_run` turns it into a statement about every run.

  What a particular environment guarantees is a property of histories.  It goes
  into `I` and `Q` as a hypothesis.

  The rules are equations: `wp_bind` splits a sequence, and one lemma per
  function of a program replaces the function by what it promises.

  `wpAt` is the same with a condition that also sees what kind of interaction
  comes next, for arguments about a task that is blocked in a `read` or a `write`.
-/
import RustBackup.Io.Proc

set_option autoImplicit false

namespace RustBackup.Io.Proc

variable {E : Type} {R : E → Type} {α β : Type}

/-- The weakest precondition of `p` after the history `h`. -/
def wp (I : Hist E R → Prop) (Q : Hist E R → α → Prop) : Proc E R α → Hist E R → Prop
  | .ret a, h => Q h a
  | .read n k, h => I h ∧ ∀ r : ReadRes, r.Fits n → wp I Q (k r) (h ++ [.recv r])
  | .write bs k, h =>
      I h ∧ ∀ r : WriteRes, r.Fits bs.length → wp I Q (k r) (h ++ [.send bs r])
  | .call e k, h => I h ∧ ∀ r : R e, wp I Q (k r) (h ++ [.call e r])

section Rules

variable {I : Hist E R → Prop}

@[simp] theorem wp_ret {Q : Hist E R → α → Prop} (a : α) (h : Hist E R) :
    wp I Q (.ret a) h ↔ Q h a := Iff.rfl

theorem wp_read {Q : Hist E R → α → Prop} (n : Nat) (k : ReadRes → Proc E R α)
    (h : Hist E R) :
    wp I Q (.read n k) h ↔
      I h ∧ ∀ r : ReadRes, r.Fits n → wp I Q (k r) (h ++ [.recv r]) := Iff.rfl

theorem wp_write {Q : Hist E R → α → Prop} (bs : Bytes) (k : WriteRes → Proc E R α)
    (h : Hist E R) :
    wp I Q (.write bs k) h ↔
      I h ∧ ∀ r : WriteRes, r.Fits bs.length → wp I Q (k r) (h ++ [.send bs r]) := Iff.rfl

theorem wp_call {Q : Hist E R → α → Prop} (e : E) (k : R e → Proc E R α)
    (h : Hist E R) :
    wp I Q (.call e k) h ↔ I h ∧ ∀ r : R e, wp I Q (k r) (h ++ [.call e r]) := Iff.rfl

/-- Sequencing: the postcondition of the first part is the precondition of the
second. -/
theorem wp_bind {Q : Hist E R → β → Prop} (p : Proc E R α) (f : α → Proc E R β)
    (h : Hist E R) :
    wp I Q (p.bind f) h ↔ wp I (fun h' a => wp I Q (f a) h') p h := by
  induction p generalizing h with
  | ret a => rfl
  | read n k ih => simp only [read_bind, wp_read, ih]
  | write bs k ih => simp only [write_bind, wp_write, ih]
  | call e k ih => simp only [call_bind, wp_call, ih]

/-- Weakening of both conditions. -/
theorem wp_mono {I' : Hist E R → Prop} {Q Q' : Hist E R → α → Prop}
    (hI : ∀ h, I h → I' h) (hQ : ∀ h a, Q h a → Q' h a) {p : Proc E R α} {h : Hist E R}
    (hp : wp I Q p h) : wp I' Q' p h := by
  induction p generalizing h with
  | ret a => exact hQ h a hp
  | read n k ih => exact ⟨hI h hp.1, fun r hr => ih r (hp.2 r hr)⟩
  | write bs k ih => exact ⟨hI h hp.1, fun r hr => ih r (hp.2 r hr)⟩
  | call e k ih => exact ⟨hI h hp.1, fun r => ih r (hp.2 r)⟩

/-- A condition on results alone. -/
theorem wp_of_forall {Q : Hist E R → α → Prop} (hI : ∀ h, I h) (hQ : ∀ h a, Q h a)
    (p : Proc E R α) (h : Hist E R) : wp I Q p h := by
  induction p generalizing h with
  | ret a => exact hQ h a
  | read n k ih => exact ⟨hI h, fun r _ => ih r _⟩
  | write bs k ih => exact ⟨hI h, fun r _ => ih r _⟩
  | call e k ih => exact ⟨hI h, fun r => ih r _⟩

/-- A history only grows. -/
theorem wp_extends (p : Proc E R α) {h₀ h : Hist E R} (h₁ : h₀ <+: h) :
    wp (fun h' => h₀ <+: h') (fun h' _ => h₀ <+: h') p h := by
  induction p generalizing h with
  | ret a => exact h₁
  | read n k ih => exact ⟨h₁, fun r _ => ih r (h₁.trans (List.prefix_append _ _))⟩
  | write bs k ih => exact ⟨h₁, fun r _ => ih r (h₁.trans (List.prefix_append _ _))⟩
  | call e k ih => exact ⟨h₁, fun r => ih r (h₁.trans (List.prefix_append _ _))⟩

end Rules

section Runs

variable {I : Hist E R → Prop} {Q : Hist E R → α → Prop}

/-- A weakest precondition survives one step. -/
theorem wp_step {p q : Proc E R α} {h : Hist E R} {a : Act E R} (hp : wp I Q p h)
    (hs : Step p a q) : wp I Q q (h ++ [a]) := by
  cases hs with
  | read hr => exact hp.2 _ hr
  | write hr => exact hp.2 _ hr
  | call => exact hp.2 _

/-- A weakest precondition survives a run. -/
theorem wp_run {p q : Proc E R α} {h : Hist E R} (hp : wp I Q p []) (hr : Run p h q) :
    wp I Q q h := by
  induction hr with
  | refl => exact hp
  | tail _ hs ih => exact wp_step ih hs

/-- What holds when the task is about to interact and when it returns holds
throughout. -/
theorem wp_always (hQ : ∀ h a, Q h a → I h) {p q : Proc E R α} {h : Hist E R}
    (hp : wp I Q p []) (hr : Run p h q) : I h := by
  have hq := wp_run hp hr
  cases q with
  | ret a => exact hQ h a hq
  | read n k => exact hq.1
  | write bs k => exact hq.1
  | call e k => exact hq.1

end Runs

/-! ## Conditions that see what the task is about to do -/

/-- As `wp`, with a condition on the kind of the next interaction as well. -/
def wpAt (I : Kind → Hist E R → Prop) (Q : Hist E R → α → Prop) :
    Proc E R α → Hist E R → Prop
  | .ret a, h => Q h a
  | .read n k, h => I .read h ∧ ∀ r : ReadRes, r.Fits n → wpAt I Q (k r) (h ++ [.recv r])
  | .write bs k, h =>
      I .write h ∧ ∀ r : WriteRes, r.Fits bs.length → wpAt I Q (k r) (h ++ [.send bs r])
  | .call e k, h => I .call h ∧ ∀ r : R e, wpAt I Q (k r) (h ++ [.call e r])

theorem wpAt_const {I : Hist E R → Prop} {Q : Hist E R → α → Prop} {p : Proc E R α}
    {h : Hist E R} : wpAt (fun _ => I) Q p h ↔ wp I Q p h := by
  induction p generalizing h with
  | ret a => rfl
  | read n k ih => simp only [wpAt, wp, ih]
  | write bs k ih => simp only [wpAt, wp, ih]
  | call e k ih => simp only [wpAt, wp, ih]

section RulesAt

variable {I : Kind → Hist E R → Prop}

theorem wpAt_bind {Q : Hist E R → β → Prop} (p : Proc E R α) (f : α → Proc E R β)
    (h : Hist E R) :
    wpAt I Q (p.bind f) h ↔ wpAt I (fun h' a => wpAt I Q (f a) h') p h := by
  induction p generalizing h with
  | ret a => rfl
  | read n k ih => simp only [read_bind, wpAt, ih]
  | write bs k ih => simp only [write_bind, wpAt, ih]
  | call e k ih => simp only [call_bind, wpAt, ih]

theorem wpAt_mono {I' : Kind → Hist E R → Prop} {Q Q' : Hist E R → α → Prop}
    (hI : ∀ k h, I k h → I' k h) (hQ : ∀ h a, Q h a → Q' h a) {p : Proc E R α} {h : Hist E R}
    (hp : wpAt I Q p h) : wpAt I' Q' p h := by
  induction p generalizing h with
  | ret a => exact hQ h a hp
  | read n k ih => exact ⟨hI _ h hp.1, fun r hr => ih r (hp.2 r hr)⟩
  | write bs k ih => exact ⟨hI _ h hp.1, fun r hr => ih r (hp.2 r hr)⟩
  | call e k ih => exact ⟨hI _ h hp.1, fun r => ih r (hp.2 r)⟩

/-- Two postconditions at once. -/
theorem wpAt_and {Q Q' : Hist E R → α → Prop} {p : Proc E R α} {h : Hist E R}
    (hp : wpAt I Q p h) (hp' : wpAt (fun _ _ => True) Q' p h) :
    wpAt I (fun h a => Q h a ∧ Q' h a) p h := by
  induction p generalizing h with
  | ret a => exact ⟨hp, hp'⟩
  | read n k ih => exact ⟨hp.1, fun r hr => ih r (hp.2 r hr) (hp'.2 r hr)⟩
  | write bs k ih => exact ⟨hp.1, fun r hr => ih r (hp.2 r hr) (hp'.2 r hr)⟩
  | call e k ih => exact ⟨hp.1, fun r => ih r (hp.2 r) (hp'.2 r)⟩

/-- A condition that holds from `h₀` on. -/
theorem wpAt_of_extends {Q : Hist E R → α → Prop} {h₀ : Hist E R}
    (hI : ∀ k h, h₀ <+: h → I k h) (hQ : ∀ h a, h₀ <+: h → Q h a) (p : Proc E R α)
    {h : Hist E R} (hpre : h₀ <+: h) : wpAt I Q p h :=
  wpAt_mono hI hQ (wpAt_const.mpr (wp_extends p hpre))

/-- The condition survives a run and holds for what the task does next. -/
theorem wpAt_run {Q : Hist E R → α → Prop} {p q : Proc E R α} {h : Hist E R}
    (hp : wpAt I Q p []) (hr : Run p h q) : wpAt I Q q h := by
  induction hr with
  | refl => exact hp
  | tail _ hs ih =>
    cases hs with
    | read hfits => exact ih.2 _ hfits
    | write hfits => exact ih.2 _ hfits
    | call => exact ih.2 _

/-- What the condition says about a task that stands before an interaction. -/
theorem wpAt_kind {Q : Hist E R → α → Prop} {p : Proc E R α} {h : Hist E R}
    (hp : wpAt I Q p h) (hk : p.kind ≠ .ret) : I p.kind h := by
  cases p with
  | ret a => exact absurd rfl hk
  | read n k => exact hp.1
  | write bs k => exact hp.1
  | call e k => exact hp.1

/-- What holds before every interaction and on return holds throughout. -/
theorem wpAt_always {P : Hist E R → Prop} {Q : Hist E R → α → Prop} {p q : Proc E R α}
    {h : Hist E R} (hI : ∀ k h, I k h → P h) (hQ : ∀ h a, Q h a → P h) (hp : wpAt I Q p [])
    (hr : Run p h q) : P h := by
  have hq := wpAt_run hp hr
  cases q with
  | ret a => exact hQ h a hq
  | read n k => exact hI _ h hq.1
  | write bs k => exact hI _ h hq.1
  | call e k => exact hI _ h hq.1

/-- The task never gets to an interaction of kind `x`. -/
def Avoids (x : Kind) : Proc E R α → Prop
  | .ret _ => True
  | .read _ k => x ≠ .read ∧ ∀ r, Avoids x (k r)
  | .write _ k => x ≠ .write ∧ ∀ r, Avoids x (k r)
  | .call _ k => x ≠ .call ∧ ∀ r, Avoids x (k r)

theorem Avoids.bind {x : Kind} {p : Proc E R α} {f : α → Proc E R β} (hp : Avoids x p)
    (hf : ∀ a, Avoids x (f a)) : Avoids x (p.bind f) := by
  induction p with
  | ret a => exact hf a
  | read n k ih => exact ⟨hp.1, fun r => ih r (hp.2 r)⟩
  | write bs k ih => exact ⟨hp.1, fun r => ih r (hp.2 r)⟩
  | call e k ih => exact ⟨hp.1, fun r => ih r (hp.2 r)⟩

theorem Avoids.step {x : Kind} {p q : Proc E R α} {a : Act E R} (hp : Avoids x p)
    (hs : Step p a q) : Avoids x q := by
  cases hs with
  | read _ => exact hp.2 _
  | write _ => exact hp.2 _
  | call => exact hp.2 _

/-- A task that never writes sends nothing. -/
theorem Avoids.outs {p q : Proc E R α} {h : Hist E R} (hp : Avoids .write p) (hr : Run p h q) :
    h.outs = [] := by
  have hkept : h.outs = [] ∧ Avoids .write q := by
    induction hr with
    | refl => exact ⟨rfl, hp⟩
    | tail _ hs ih =>
      refine ⟨?_, ih.2.step hs⟩
      rw [Hist.outs_append, ih.1]
      cases hs with
      | read _ => rfl
      | write _ => exact absurd rfl ih.2.1
      | call => rfl
  exact hkept.1

/-- No read of the task has a buffer of more than `b` bytes. -/
def ReadsAtMost (b : Nat) : Proc E R α → Prop
  | .ret _ => True
  | .read n k => n ≤ b ∧ ∀ r, ReadsAtMost b (k r)
  | .write _ k => ∀ r, ReadsAtMost b (k r)
  | .call _ k => ∀ r, ReadsAtMost b (k r)

theorem Avoids.readsAtMost {p : Proc E R α} (hp : Avoids .read p) (b : Nat) : ReadsAtMost b p := by
  induction p with
  | ret a => exact trivial
  | read n k _ => exact absurd rfl hp.1
  | write bs k ih => exact fun r => ih r (hp.2 r)
  | call e k ih => exact fun r => ih r (hp.2 r)

theorem ReadsAtMost.bind {b : Nat} {p : Proc E R α} {f : α → Proc E R β} (hp : ReadsAtMost b p)
    (hf : ∀ a, ReadsAtMost b (f a)) : ReadsAtMost b (p.bind f) := by
  induction p with
  | ret a => exact hf a
  | read n k ih => exact ⟨hp.1, fun r => ih r (hp.2 r)⟩
  | write bs k ih => exact fun r => ih r (hp r)
  | call e k ih => exact fun r => ih r (hp r)

theorem ReadsAtMost.step {b : Nat} {p q : Proc E R α} {a : Act E R} (hp : ReadsAtMost b p)
    (hs : Step p a q) : ReadsAtMost b q ∧ a.ins.length ≤ b := by
  cases hs with
  | @read n k r hfits =>
    refine ⟨hp.2 r, ?_⟩
    cases r with
    | data bs => exact Nat.le_trans hfits hp.1
    | timeout => exact Nat.zero_le _
    | fault => exact Nat.zero_le _
  | write _ => exact ⟨hp _, Nat.zero_le _⟩
  | call => exact ⟨hp _, Nat.zero_le _⟩

theorem ReadsAtMost.run {b : Nat} {p q : Proc E R α} {h : Hist E R} (hp : ReadsAtMost b p)
    (hr : Run p h q) : ReadsAtMost b q ∧ ∀ a ∈ h, a.ins.length ≤ b := by
  induction hr with
  | refl => exact ⟨hp, fun a ha => absurd ha List.not_mem_nil⟩
  | tail _ hs ih =>
    obtain ⟨hq, hall⟩ := ih
    obtain ⟨hq', hlast⟩ := hq.step hs
    refine ⟨hq', fun a ha => ?_⟩
    rcases List.mem_append.mp ha with ha | ha
    · exact hall a ha
    · rw [List.mem_singleton.mp ha]
      exact hlast

/-- A condition on the other kinds that holds from `h₀` on. -/
theorem wpAt_of_avoids {x : Kind} {h₀ : Hist E R} (hI : ∀ y h, y ≠ x → h₀ <+: h → I y h)
    {p : Proc E R α} {h : Hist E R} (hp : Avoids x p) (hpre : h₀ <+: h) :
    wpAt I (fun _ _ => True) p h := by
  induction p generalizing h with
  | ret a => exact trivial
  | read n k ih =>
    refine ⟨hI _ h hp.1.symm hpre, fun r _ => ih r (hp.2 r) ?_⟩
    exact hpre.trans (List.prefix_append _ _)
  | write bs k ih =>
    refine ⟨hI _ h hp.1.symm hpre, fun r _ => ih r (hp.2 r) ?_⟩
    exact hpre.trans (List.prefix_append _ _)
  | call e k ih =>
    refine ⟨hI _ h hp.1.symm hpre, fun r => ih r (hp.2 r) ?_⟩
    exact hpre.trans (List.prefix_append _ _)

end RulesAt

end RustBackup.Io.Proc
