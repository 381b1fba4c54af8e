/-
  Io/Backpressure.lean --- when two tasks over a bounded stream cannot deadlock.

  Two tasks are deadlocked when neither has a step and one of them has not
  returned: each reads an empty direction that may still carry bytes, or writes to
  a full one that may still be drained.  Since a direction of positive capacity is
  never empty and full at once, both must be reading or both must be writing.

  `Leads` and `Follows` are a discipline that excludes both.  One message goes each
  way before anything else: the leading side sends a first message and waits for a
  first answer, the following side waits for the message and then answers.  `C` says
  that what was sent holds the whole message and `D` that it holds the whole answer.
  After that each side may go on in one direction; `W` says from when on the leading
  side writes again, and the following side must not write from then on.

  Either side may also drop its end at any point (`Move`), which only ever frees
  the other one.
-/
import RustBackup.Io.Rendezvous

set_option autoImplicit false

namespace RustBackup.Io

variable {E E₁ E₂ : Type} {R : E → Type} {R₁ : E₁ → Type} {R₂ : E₂ → Type} {α β : Type}

/-- The task reads an empty open direction or writes to a full open one. -/
def Blocked (cap : Nat) (peerDone : Prop) (inq outq : Bytes) : Proc E R α → Prop
  | .ret _ => False
  | .read _ _ => inq = [] ∧ ¬ peerDone
  | .write _ _ => cap ≤ outq.length ∧ ¬ peerDone
  | .call _ _ => False

theorem Blocked.peer {cap : Nat} {peerDone : Prop} {inq outq : Bytes} {p : Proc E R α}
    (h : Blocked cap peerDone inq outq p) : ¬ peerDone := by
  cases p with
  | ret a => exact h.elim
  | read n k => exact h.2
  | write bs k => exact h.2
  | call e k => exact h.elim

theorem Blocked.kind {cap : Nat} {peerDone : Prop} {inq outq : Bytes} {p : Proc E R α}
    (h : Blocked cap peerDone inq outq p) :
    (p.kind = .read ∧ inq = []) ∨ (p.kind = .write ∧ cap ≤ outq.length) := by
  cases p with
  | ret a => exact h.elim
  | read n k => exact .inl ⟨rfl, h.1⟩
  | write bs k => exact .inr ⟨rfl, h.1⟩
  | call e k => exact h.elim

namespace Net

variable (c : Link E₁ R₁ E₂ R₂)

/-- Some side has not returned, and every such side is blocked. -/
structure Deadlocked (s : Net E₁ R₁ α E₂ R₂ β) : Prop where
  unfinished : ¬ s.Final
  left : ¬ s.left.Finished → Blocked c.capRight s.right.Finished s.toLeft s.toRight s.left
  right : ¬ s.right.Finished → Blocked c.capLeft s.left.Finished s.toRight s.toLeft s.right

/-- One step of the network, or one side dropping its end with some result. -/
inductive Move : Net E₁ R₁ α E₂ R₂ β → Net E₁ R₁ α E₂ R₂ β → Prop where
  | step {s s' : Net E₁ R₁ α E₂ R₂ β} (hs : Step c s s') : Move s s'
  | dropLeft (s : Net E₁ R₁ α E₂ R₂ β) (a : α) : Move s { s with left := .ret a }
  | dropRight (s : Net E₁ R₁ α E₂ R₂ β) (b : β) : Move s { s with right := .ret b }

/-- States reachable by steps and drops. -/
inductive Moves (p : Proc E₁ R₁ α) (q : Proc E₂ R₂ β) : Net E₁ R₁ α E₂ R₂ β → Prop where
  | init : Moves p q (init p q)
  | move {s s' : Net E₁ R₁ α E₂ R₂ β} (hr : Moves p q s) (hs : Move c s s') : Moves p q s'

theorem Reach.moves {p : Proc E₁ R₁ α} {q : Proc E₂ R₂ β} {s : Net E₁ R₁ α E₂ R₂ β}
    (hr : Reach c p q s) : Moves c p q s := by
  induction hr with
  | init => exact .init
  | step _ hs ih => exact .move ih (.step hs)

/-- A side that has returned stays so. -/
theorem Step.finished {s s' : Net E₁ R₁ α E₂ R₂ β} (hs : Step c s s') :
    (s.left.Finished → s'.left.Finished) ∧ (s.right.Finished → s'.right.Finished) := by
  cases hs with
  | left hs _ =>
    refine ⟨fun hf => ?_, id⟩
    obtain ⟨a, ha⟩ := hf
    rw [ha] at hs
    cases hs
  | right hs _ =>
    refine ⟨id, fun hf => ?_⟩
    obtain ⟨b, hb⟩ := hf
    rw [hb] at hs
    cases hs

/-- While neither side has returned, neither has dropped its end. -/
theorem Moves.reach {p : Proc E₁ R₁ α} {q : Proc E₂ R₂ β} {s : Net E₁ R₁ α E₂ R₂ β}
    (hr : Moves c p q s) (hl : ¬ s.left.Finished) (hr' : ¬ s.right.Finished) :
    Reach c p q s := by
  induction hr with
  | init => exact .init
  | move _ hs ih =>
    cases hs with
    | step hs =>
      obtain ⟨h₁, h₂⟩ := hs.finished
      exact .step (ih (fun h => hl (h₁ h)) (fun h => hr' (h₂ h))) hs
    | dropLeft a => exact absurd ⟨a, rfl⟩ hl
    | dropRight b => exact absurd ⟨b, rfl⟩ hr'

/-- In a deadlock neither side has returned. -/
theorem Deadlocked.both {s : Net E₁ R₁ α E₂ R₂ β} (h : Deadlocked c s) :
    ¬ s.left.Finished ∧ ¬ s.right.Finished := by
  have hleft : ¬ s.left.Finished := fun hl =>
    (h.right fun hr => h.unfinished ⟨hl, hr⟩).peer hl
  exact ⟨hleft, (h.left hleft).peer⟩

/-- In a deadlock both sides read from empty directions, or both write to full ones. -/
theorem Deadlocked.kinds {s : Net E₁ R₁ α E₂ R₂ β} (h : Deadlocked c s)
    (hcr : 0 < c.capRight) (hcl : 0 < c.capLeft) :
    (s.left.kind = .read ∧ s.right.kind = .read ∧ s.toLeft = [] ∧ s.toRight = []) ∨
    (s.left.kind = .write ∧ s.right.kind = .write) := by
  obtain ⟨hl, hr⟩ := h.both
  rcases (h.left hl).kind with ⟨hl, hin⟩ | ⟨hl, hout⟩
  · rcases (h.right hr).kind with ⟨hr, hin'⟩ | ⟨hr, hout'⟩
    · exact .inl ⟨hl, hr, hin, hin'⟩
    · rw [hin, List.length_nil] at hout'
      omega
  · rcases (h.right hr).kind with ⟨hr, hin'⟩ | ⟨hr, hout'⟩
    · rw [hin', List.length_nil] at hout
      omega
    · exact .inr ⟨hl, hr⟩

/-! ## One message each way -/

/-- The leading side waits only between its first message and the first answer, and
sends only before the end of the one or when `W` holds of what it received. -/
def Leads (C D W : Bytes → Prop) : Proc.Kind → Hist E R → Prop
  | .read, h => C h.outs ∧ ¬ D h.ins
  | .write, h => ¬ C h.outs ∨ W h.ins
  | _, _ => True

/-- The following side waits for the first message or after its answer, and sends
only after the message and while `W` does not hold of what it sent. -/
def Follows (C D W : Bytes → Prop) : Proc.Kind → Hist E R → Prop
  | .read, h => ¬ C h.ins ∨ D h.outs
  | .write, h => C h.ins ∧ ¬ W h.outs
  | _, _ => True

/-- A leading and a following side cannot deadlock. -/
theorem not_deadlocked {C D W : Bytes → Prop} (hC : ∀ x y, C x → x <+: y → C y)
    (hW : ∀ x y, W x → x <+: y → W y) (hcr : 0 < c.capRight) (hcl : 0 < c.capLeft)
    {p : Proc E₁ R₁ α} {q : Proc E₂ R₂ β} {P : Hist E₁ R₁ → α → Prop}
    {Q : Hist E₂ R₂ → β → Prop} (hp : p.wpAt (Leads C D W) P [])
    (hq : q.wpAt (Follows C D W) Q []) {s : Net E₁ R₁ α E₂ R₂ β} (hr : Moves c p q s) :
    ¬ Deadlocked c s := by
  intro hdead
  obtain ⟨hl, hr'⟩ := hdead.both
  have hist := (hr.reach c hl hr').history
  rw [Proc.finished_iff_kind] at hl hr'
  have hleft := Proc.wpAt_kind (Proc.wpAt_run hp hist.leftRun) hl
  have hright := Proc.wpAt_kind (Proc.wpAt_run hq hist.rightRun) hr'
  rcases hdead.kinds c hcr hcl with ⟨hkl, hkr, hin, hout⟩ | ⟨hkl, hkr⟩
  · -- nothing is in flight, so each side has all that the other one sent
    rw [hkl] at hleft
    rw [hkr] at hright
    obtain ⟨hmsg, hans⟩ := hleft
    have h₁ := hist.leftSent
    have h₂ := hist.rightSent
    rw [hout, List.append_nil] at h₁
    rw [hin, List.append_nil] at h₂
    rw [h₁] at hmsg
    rw [← h₂] at hans
    rcases hright with h | h
    · exact h hmsg
    · exact hans h
  · -- what a side has received was sent by the other one
    rw [hkl] at hleft
    rw [hkr] at hright
    obtain ⟨hmsg, hquiet⟩ := hright
    have h₁ : s.rightHist.ins <+: s.leftHist.outs := ⟨_, hist.leftSent.symm⟩
    have h₂ : s.leftHist.ins <+: s.rightHist.outs := ⟨_, hist.rightSent.symm⟩
    rcases hleft with h | h
    · exact h (hC _ _ hmsg h₁)
    · exact hquiet (hW _ _ h h₂)

end Net

/-! ## Progress -/

namespace Proc

/-- Every read has room for something and every write has something to write. -/
def Regular : Proc E R α → Prop
  | .ret _ => True
  | .read n k => 0 < n ∧ ∀ r, r.Fits n → (k r).Regular
  | .write bs k => bs ≠ [] ∧ ∀ r, r.Fits bs.length → (k r).Regular
  | .call _ k => ∀ r, (k r).Regular

theorem Regular.step {p q : Proc E R α} {a : Act E R} (hp : p.Regular) (hs : Step p a q) :
    q.Regular := by
  cases hs with
  | read hr => exact hp.2 _ hr
  | write hr => exact hp.2 _ hr
  | call => exact hp _

theorem Regular.bind {p : Proc E R α} {f : α → Proc E R β} (hp : p.Regular)
    (hf : ∀ a, (f a).Regular) : (p.bind f).Regular := by
  induction p with
  | ret a => exact hf a
  | read n k ih => exact ⟨hp.1, fun r hr => ih r (hp.2 r hr)⟩
  | write bs k ih => exact ⟨hp.1, fun r hr => ih r (hp.2 r hr)⟩
  | call e k ih => exact fun r => ih r (hp r)

theorem Coalescing.regular {p : Proc E R α} (hp : p.Coalescing) : p.Regular := by
  induction p with
  | ret a => exact trivial
  | read n k ih => exact ⟨hp.1, fun r hr => ih r (hp.2.2 r hr)⟩
  | write bs k ih => exact ⟨hp.1, fun r hr => ih r (hp.2.2 r hr)⟩
  | call e k ih => exact fun r => ih r (hp r)

end Proc

namespace Net

variable (c : Link E₁ R₁ E₂ R₂)

/-- A side that has not returned and cannot step is blocked. -/
theorem blocked_of_stuck_left (hans : Answers c) {s : Net E₁ R₁ α E₂ R₂ β}
    (hl : s.left.Regular) (hfin : ¬ s.left.Finished) (hstuck : ∀ s', ¬ Step c s s') :
    Blocked c.capRight s.right.Finished s.toLeft s.toRight s.left := by
  cases hleft : s.left with
  | ret a => exact absurd ⟨a, hleft⟩ hfin
  | read n k =>
    rw [hleft] at hl
    have hempty : s.toLeft = [] := by
      by_contra hne
      obtain ⟨s', hs⟩ := exists_step_of_read_right (c := c.swap) (s := s.swap) hleft hl.1 hne
      exact hstuck s'.swap hs.swap
    refine ⟨hempty, fun hdone => hstuck _ (.left (a := .recv (.data [])) (i := [])
      (o := s.toRight) (by rw [hleft]; exact .read (Nat.zero_le n)) ?_)⟩
    exact ⟨hdone, hempty, rfl, rfl⟩
  | write bs k =>
    rw [hleft] at hl
    have hopen : ¬ s.right.Finished := by
      intro hdone
      refine hstuck _ (.left (a := .send bs .fault) (i := s.toLeft) (o := s.toRight)
        (by rw [hleft]; exact .write trivial) ?_)
      exact ⟨hdone, rfl, rfl⟩
    refine ⟨?_, hopen⟩
    by_contra hroom
    obtain ⟨s', hs⟩ := exists_step_of_write_left hleft hl.1 (Nat.not_le.mp hroom) hopen
    exact hstuck s' hs
  | call e k =>
    obtain ⟨r, hr⟩ := hans.left e
    exact absurd (.left (a := .call e r) (i := s.toLeft) (o := s.toRight)
      (by rw [hleft]; exact .call) ⟨hr, rfl, rfl⟩) (hstuck _)

/-- Without a deadlock an unfinished network can step. -/
theorem final_or_step (hans : Answers c) {s : Net E₁ R₁ α E₂ R₂ β} (hl : s.left.Regular)
    (hr : s.right.Regular) (h : ¬ Deadlocked c s) : s.Final ∨ ∃ s', Step c s s' := by
  by_cases hex : ∃ s', Step c s s'
  · exact .inr hex
  have hstuck : ∀ s', ¬ Step c s s' := fun s' hs => hex ⟨s', hs⟩
  by_contra hfin
  refine h ⟨fun hf => hfin (.inl hf), ?_, ?_⟩
  · exact fun hf => blocked_of_stuck_left c hans hl hf hstuck
  · intro hf
    exact blocked_of_stuck_left c.swap ⟨hans.right, hans.left⟩ (s := s.swap) hr hf
      fun s' hs => hstuck s'.swap hs.swap

/-- Tasks that cannot deadlock run to the end. -/
theorem inevitable_final (hans : Answers c) {p : Proc E₁ R₁ α} {q : Proc E₂ R₂ β}
    (hp : p.Regular) (hq : q.Regular) (h : ∀ s, Reach c p q s → ¬ Deadlocked c s) :
    Inevitable c Final (init p q) := by
  refine inevitable c (fun s => Reach c p q s ∧ s.left.Regular ∧ s.right.Regular)
    ?_ ?_ (fun _ _ hf => hf) ⟨.init, hp, hq⟩
  · rintro s s' ⟨hr, hl, hr'⟩ hs
    refine ⟨.step hr hs, ?_⟩
    cases hs with
    | left hs _ => exact ⟨hl.step hs, hr'⟩
    | right hs _ => exact ⟨hl, hr'.step hs⟩
  · rintro s ⟨hr, hl, hr'⟩
    exact final_or_step c hans hl hr' (h s hr)

end Net

end RustBackup.Io
