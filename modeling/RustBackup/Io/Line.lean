/-
  Io/Line.lean --- two tasks that may go on forever, at the two ends of a stream.

  A `Net` is about two programs, and every run of it ends.  A line is about two
  families of unrollings, so its runs have no bound: its state is what the tasks have
  done, the bytes in flight, and how much each side has read without giving it back.
  Neither end is dropped.  A sender is at most a window ahead of what was given back to
  it.  A reader gives back what it likes of what it has read, when it likes, but nothing
  as long as that is little.
-/
import RustBackup.Io.Solo
import RustBackup.Io.Tasks
import Mathlib.Logic.Relation

set_option autoImplicit false

namespace RustBackup.Io

variable {E E₁ E₂ : Type} {R : E → Type} {R₁ : E₁ → Type} {R₂ : E₂ → Type} {α β : Type}

/-- The kind of an interaction. -/
def Act.kind : Act E R → Proc.Kind
  | .recv _ => .read
  | .send _ _ => .write
  | .call _ _ => .call

/-- What holds before every interaction of a family's programs holds before every
interaction of its traces. -/
theorem Proc.Trace.before {prog : Nat → Proc E R α} {I : Proc.Kind → Hist E R → Prop}
    {Q : Hist E R → α → Prop} {h : Hist E R} {a : Act E R}
    (hp : ∀ n, Proc.wpAt I Q (prog n) []) (ht : Proc.Trace prog (h ++ [a])) : I a.kind h := by
  obtain ⟨n, hn⟩ := ht
  obtain ⟨q, hr⟩ := hn n (Nat.le_refl n)
  obtain ⟨q', hr', hs⟩ := hr.of_concat
  have hq := Proc.wpAt_run (hp n) hr'
  cases hs with
  | read _ => exact hq.1
  | write _ => exact hq.1
  | call => exact hq.1

/-- What holds before every interaction and on return holds of every trace. -/
theorem Proc.Trace.always {prog : Nat → Proc E R α} {I : Proc.Kind → Hist E R → Prop}
    {Q : Hist E R → α → Prop} {P : Hist E R → Prop} {h : Hist E R}
    (hp : ∀ n, Proc.wpAt I Q (prog n) []) (hI : ∀ k h, I k h → P h) (hQ : ∀ h a, Q h a → P h)
    (ht : Proc.Trace prog h) : P h := by
  obtain ⟨n, hn⟩ := ht
  obtain ⟨q, hr⟩ := hn n (Nat.le_refl n)
  exact Proc.wpAt_always hI hQ (hp n) hr

/-- What a task has done says where it stands. -/
theorem Proc.Step.unique {p q q' : Proc E R α} {a : Act E R} (hs : p.Step a q)
    (hs' : p.Step a q') : q = q' := by
  cases hs with
  | read _ => cases hs'; rfl
  | write _ => cases hs'; rfl
  | call => cases hs'; rfl

theorem Proc.Run.unique {p q q' : Proc E R α} {h : Hist E R} (hr : p.Run h q)
    (hr' : p.Run h q') : q = q' := by
  induction hr generalizing q' with
  | refl =>
    generalize hnil : ([] : Hist E R) = h at hr'
    cases hr' with
    | refl => rfl
    | tail _ _ => exact absurd hnil (by simp)
  | tail _ hs ih =>
    obtain ⟨q₁, hr₁, hs₁⟩ := hr'.of_concat
    rw [← ih hr₁] at hs₁
    exact hs.unique hs₁

/-- A history at the end of which the task has returned something that `P` holds of. -/
def Proc.EndsIn (prog : Nat → Proc E R α) (P : α → Prop) (h : Hist E R) : Prop :=
  ∃ n₀, ∀ n, n₀ ≤ n → ∃ a, P a ∧ (prog n).Run h (.ret a)

theorem Proc.EndsIn.trace {prog : Nat → Proc E R α} {P : α → Prop} {h : Hist E R}
    (he : Proc.EndsIn prog P h) : Proc.Trace prog h := by
  obtain ⟨n₀, hn⟩ := he
  refine ⟨n₀, fun n hle => ?_⟩
  obtain ⟨a, -, hr⟩ := hn n hle
  exact ⟨_, hr⟩

/-- A task that has returned does nothing more. -/
theorem Proc.EndsIn.not_trace {prog : Nat → Proc E R α} {P : α → Prop} {h : Hist E R}
    (he : Proc.EndsIn prog P h) (a : Act E R) : ¬ Proc.Trace prog (h ++ [a]) := by
  rintro ⟨n₁, hn₁⟩
  obtain ⟨n₀, hn₀⟩ := he
  obtain ⟨x, -, hx⟩ := hn₀ (max n₀ n₁) (Nat.le_max_left _ _)
  obtain ⟨q, hq⟩ := hn₁ (max n₀ n₁) (Nat.le_max_right _ _)
  obtain ⟨q', hr', hs⟩ := hq.of_concat
  rw [hr'.unique hx] at hs
  cases hs

/-- How a stream is throttled. -/
structure Window where
  /-- so many bytes a sender may be ahead of what was given back to it -/
  size : Nat
  /-- a reader that keeps fewer bytes gives nothing back -/
  least : Nat

/-- What two tasks have done, and the stream between them. -/
structure Line (E₁ : Type) (R₁ : E₁ → Type) (E₂ : Type) (R₂ : E₂ → Type) where
  left : Hist E₁ R₁
  right : Hist E₂ R₂
  /-- bytes sent by the left side and not yet read -/
  toRight : Bytes
  /-- bytes sent by the right side and not yet read -/
  toLeft : Bytes
  /-- how many bytes the left side has read and not given back -/
  keptLeft : Nat
  /-- how many bytes the right side has read and not given back -/
  keptRight : Nat

namespace Line

section Runs

variable (prog₁ : Nat → Proc E₁ R₁ α) (prog₂ : Nat → Proc E₂ R₂ β) (w : Window)

/-- One step: one of the two tasks interacts, or gives back some of what it has read.  A
call may get any reply. -/
inductive Step : Line E₁ R₁ E₂ R₂ → Line E₁ R₁ E₂ R₂ → Prop where
  | left {s : Line E₁ R₁ E₂ R₂} {a : Act E₁ R₁} {i o : Bytes}
      (ht : Proc.Trace prog₁ (s.left ++ [a]))
      (ha : Allowed (fun _ _ => True) (w.size - s.keptRight) False s.toLeft i s.toRight o a) :
      Step s { s with left := s.left ++ [a], toLeft := i, toRight := o
                      keptLeft := s.keptLeft + a.ins.length }
  | right {s : Line E₁ R₁ E₂ R₂} {a : Act E₂ R₂} {i o : Bytes}
      (ht : Proc.Trace prog₂ (s.right ++ [a]))
      (ha : Allowed (fun _ _ => True) (w.size - s.keptLeft) False s.toRight i s.toLeft o a) :
      Step s { s with right := s.right ++ [a], toRight := i, toLeft := o
                      keptRight := s.keptRight + a.ins.length }
  | giveLeft {s : Line E₁ R₁ E₂ R₂} {n : Nat} (hleast : w.least ≤ s.keptLeft)
      (hn : n ≤ s.keptLeft) : Step s { s with keptLeft := s.keptLeft - n }
  | giveRight {s : Line E₁ R₁ E₂ R₂} {n : Nat} (hleast : w.least ≤ s.keptRight)
      (hn : n ≤ s.keptRight) : Step s { s with keptRight := s.keptRight - n }

/-- Nothing has happened. -/
def start : Line E₁ R₁ E₂ R₂ := ⟨[], [], [], [], 0, 0⟩

/-- Any number of steps. -/
abbrev Steps : Line E₁ R₁ E₂ R₂ → Line E₁ R₁ E₂ R₂ → Prop :=
  Relation.ReflTransGen (Step prog₁ prog₂ w)

/-- The states that can be reached. -/
abbrev Reach (s : Line E₁ R₁ E₂ R₂) : Prop := Steps prog₁ prog₂ w start s

end Runs

/-- A side that has read `read` bytes has kept `kept` of them: all, as long as there is
nothing to give back. -/
structure Keeps (w : Window) (read kept : Nat) : Prop where
  le : kept ≤ read
  all : read < w.least → kept = read

/-- What a reachable state owes to the two histories. -/
structure History (prog₁ : Nat → Proc E₁ R₁ α) (prog₂ : Nat → Proc E₂ R₂ β) (w : Window)
    (s : Line E₁ R₁ E₂ R₂) : Prop where
  leftTrace : Proc.Trace prog₁ s.left
  rightTrace : Proc.Trace prog₂ s.right
  leftSent : s.left.outs = s.right.ins ++ s.toRight
  rightSent : s.right.outs = s.left.ins ++ s.toLeft
  leftMoves : ∀ a ∈ s.left, Act.Moves a
  rightMoves : ∀ a ∈ s.right, Act.Moves a
  leftKept : Keeps w s.left.ins.length s.keptLeft
  rightKept : Keeps w s.right.ins.length s.keptRight
  roomRight : s.toRight.length + s.keptRight ≤ w.size
  roomLeft : s.toLeft.length + s.keptLeft ≤ w.size

variable {prog₁ : Nat → Proc E₁ R₁ α} {prog₂ : Nat → Proc E₂ R₂ β} {w : Window}
variable {s s' : Line E₁ R₁ E₂ R₂}

/-- As long as the other end is there, an interaction moves bytes or is a call. -/
theorem moves_of_allowed {prog : Nat → Proc E R α} {policy : Policy E R} {cap : Nat}
    {h : Hist E R} {a : Act E R} {inq inq' outq outq' : Bytes} (ht : Proc.Trace prog (h ++ [a]))
    (ha : Allowed policy cap False inq inq' outq outq' a) : a.Moves := by
  cases a with
  | recv r =>
    cases r with
    | data bs =>
      cases bs with
      | nil => exact ha.1.elim
      | cons b bs => exact List.cons_ne_nil _ _
    | timeout => exact ha.elim
    | fault => exact ha.elim
  | send bs r =>
    cases r with
    | wrote m =>
      obtain ⟨n, hn⟩ := ht
      obtain ⟨q, hr⟩ := hn n (Nat.le_refl n)
      obtain ⟨q', -, hs⟩ := hr.of_concat
      cases hs with
      | write hfits => exact ⟨ha.1, hfits⟩
    | timeout => exact ha.elim
    | fault => exact ha.1.elim
  | call e r => exact trivial

/-! ## The same line from its other end -/

def swap (s : Line E₁ R₁ E₂ R₂) : Line E₂ R₂ E₁ R₁ :=
  ⟨s.right, s.left, s.toLeft, s.toRight, s.keptRight, s.keptLeft⟩

theorem Step.swap (hs : Step prog₁ prog₂ w s s') : Step prog₂ prog₁ w s.swap s'.swap := by
  cases hs with
  | left ht ha => exact .right (s := s.swap) ht ha
  | right ht ha => exact .left (s := s.swap) ht ha
  | giveLeft hleast hn => exact .giveRight (s := s.swap) hleast hn
  | giveRight hleast hn => exact .giveLeft (s := s.swap) hleast hn

theorem Steps.swap (hs : Steps prog₁ prog₂ w s s') : Steps prog₂ prog₁ w s.swap s'.swap := by
  induction hs with
  | refl => exact .refl
  | tail _ hs ih => exact ih.tail hs.swap

theorem History.swap (h : History prog₁ prog₂ w s) : History prog₂ prog₁ w s.swap :=
  ⟨h.rightTrace, h.leftTrace, h.rightSent, h.leftSent, h.rightMoves, h.leftMoves, h.rightKept,
    h.leftKept, h.roomLeft, h.roomRight⟩

/-! ## Nothing is lost -/

/-- What is read is kept. -/
theorem Keeps.read {read kept n : Nat} (h : Keeps w read kept) : Keeps w (read + n) (kept + n) := by
  refine ⟨Nat.add_le_add_right h.le n, fun hlt => ?_⟩
  rw [h.all (Nat.lt_of_le_of_lt (Nat.le_add_right _ _) hlt)]

/-- Something is given back. -/
theorem Keeps.give {read kept : Nat} (h : Keeps w read kept) (hleast : w.least ≤ kept) (n : Nat) :
    Keeps w read (kept - n) := by
  refine ⟨(Nat.sub_le _ _).trans h.le, fun hlt => ?_⟩
  exact absurd (hleast.trans h.le) (Nat.not_le.mpr hlt)

theorem History.left {a : Act E₁ R₁} {i o : Bytes} (h : History prog₁ prog₂ w s)
    (ht : Proc.Trace prog₁ (s.left ++ [a]))
    (ha : Allowed (fun _ _ => True) (w.size - s.keptRight) False s.toLeft i s.toRight o a) :
    History prog₁ prog₂ w { s with left := s.left ++ [a], toLeft := i, toRight := o
                                   keptLeft := s.keptLeft + a.ins.length } := by
  obtain ⟨hin, hout, hcap⟩ := Net.allowed_bytes ha
  refine ⟨ht, h.rightTrace, ?_, ?_, ?_, h.rightMoves, ?_, h.rightKept, ?_, ?_⟩
  · show Hist.outs (s.left ++ [a]) = s.right.ins ++ o
    rw [Hist.outs_append, h.leftSent, Hist.outs_singleton, hout, List.append_assoc]
  · show s.right.outs = Hist.ins (s.left ++ [a]) ++ i
    rw [h.rightSent, hin, Hist.ins_append, Hist.ins_singleton, List.append_assoc]
  · intro b hb
    rcases List.mem_append.mp hb with hb | hb
    · exact h.leftMoves b hb
    · rw [List.mem_singleton.mp hb]
      exact moves_of_allowed ht ha
  · show Keeps w (Hist.ins (s.left ++ [a])).length _
    rw [Hist.ins_append, Hist.ins_singleton, List.length_append]
    exact h.leftKept.read
  · have hroom := h.roomRight
    have hle : o.length ≤ w.size - s.keptRight := hcap (by omega)
    show o.length + s.keptRight ≤ w.size
    omega
  · -- the bytes that were read have only changed their place
    have hroom := h.roomLeft
    rw [hin, List.length_append] at hroom
    show i.length + (s.keptLeft + a.ins.length) ≤ w.size
    omega

theorem History.giveLeft (h : History prog₁ prog₂ w s) (hleast : w.least ≤ s.keptLeft) (n : Nat) :
    History prog₁ prog₂ w { s with keptLeft := s.keptLeft - n } :=
  ⟨h.leftTrace, h.rightTrace, h.leftSent, h.rightSent, h.leftMoves, h.rightMoves,
    h.leftKept.give hleast n, h.rightKept, h.roomRight,
    (Nat.add_le_add_left (Nat.sub_le _ _) _).trans h.roomLeft⟩

theorem History.step (h : History prog₁ prog₂ w s) (hs : Step prog₁ prog₂ w s s') :
    History prog₁ prog₂ w s' := by
  cases hs with
  | left ht ha => exact h.left ht ha
  | right ht ha => exact (h.swap.left ht ha).swap
  | giveLeft hleast _ => exact h.giveLeft hleast _
  | giveRight hleast _ => exact (h.swap.giveLeft hleast _).swap

theorem Reach.history (hr : Reach prog₁ prog₂ w s) : History prog₁ prog₂ w s := by
  induction hr with
  | refl =>
    have hkeeps : Keeps w 0 0 := ⟨Nat.le_refl _, fun _ => rfl⟩
    exact ⟨Proc.trace_nil _, Proc.trace_nil _, rfl, rfl, fun _ h => absurd h List.not_mem_nil,
      fun _ h => absurd h List.not_mem_nil, hkeeps, hkeeps, Nat.zero_le _, Nat.zero_le _⟩
  | tail _ hs ih => exact ih.step hs

/-- As long as the left side has read too little to give anything back, the right side
has sent no more than a window. -/
theorem History.length_outs_le (h : History prog₁ prog₂ w s) (hread : s.left.ins.length < w.least) :
    s.right.outs.length ≤ w.size := by
  have hroom := h.roomLeft
  rw [h.leftKept.all hread] at hroom
  rw [h.rightSent, List.length_append, Nat.add_comm]
  exact hroom

/-! ## Stretches -/

/-- The left side goes on alone, and gives nothing back. -/
theorem steps_left {t : Hist E₁ R₁} {rest : Bytes} (ht : Proc.Trace prog₁ (s.left ++ t))
    (hm : ∀ a ∈ t, Act.Moves a) (hin : s.toLeft = t.ins ++ rest)
    (hroom : s.toRight.length + s.keptRight + t.outs.length ≤ w.size) :
    Steps prog₁ prog₂ w s
      { s with left := s.left ++ t, toLeft := rest, toRight := s.toRight ++ t.outs
               keptLeft := s.keptLeft + t.ins.length } := by
  induction t using List.reverseRecOn generalizing rest with
  | nil =>
    rw [Hist.ins_nil, List.nil_append] at hin
    subst hin
    rw [List.append_nil, Hist.outs_nil, List.append_nil]
    exact .refl
  | append_singleton t a ih =>
    rw [Hist.ins_append, Hist.ins_singleton, List.append_assoc] at hin
    rw [Hist.outs_append, Hist.outs_singleton, List.length_append] at hroom
    have hsteps := ih (by rw [← List.append_assoc] at ht; exact ht.of_append)
      (fun b hb => hm b (List.mem_append_left _ hb)) hin (by omega)
    rw [← List.append_assoc] at ht ⊢
    rw [Hist.outs_append, Hist.outs_singleton, ← List.append_assoc, Hist.ins_append,
      Hist.ins_singleton, List.length_append, ← Nat.add_assoc]
    refine hsteps.tail (.left ht ?_)
    refine Net.allowed_of_moves (hm a (List.mem_append_right _ (List.mem_singleton_self _)))
      (fun _ _ _ => trivial) rfl ?_ (.inr id)
    show (s.toRight ++ Hist.outs t).length + _ ≤ w.size - s.keptRight
    rw [List.length_append]
    omega

/-- The right side goes on alone, and gives nothing back. -/
theorem steps_right {t : Hist E₂ R₂} {rest : Bytes} (ht : Proc.Trace prog₂ (s.right ++ t))
    (hm : ∀ a ∈ t, Act.Moves a) (hin : s.toRight = Hist.ins t ++ rest)
    (hroom : s.toLeft.length + s.keptLeft + (Hist.outs t).length ≤ w.size) :
    Steps prog₁ prog₂ w s
      { s with right := s.right ++ t, toRight := rest, toLeft := s.toLeft ++ Hist.outs t
               keptRight := s.keptRight + (Hist.ins t).length } := by
  have hsteps : Steps prog₂ prog₁ w s.swap
      { s.swap with left := s.right ++ t, toLeft := rest, toRight := s.toLeft ++ Hist.outs t
                    keptLeft := s.keptRight + (Hist.ins t).length } :=
    steps_left ht hm hin hroom
  exact hsteps.swap

end Line

end RustBackup.Io
