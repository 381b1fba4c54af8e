/-
  Io/Duplex.lean --- two tasks at the two ends of a bounded duplex stream.

  The stream is reliable: each direction is a queue of bytes of bounded
  capacity, a `read` delivers some nonempty prefix of what is queued, a `write`
  queues some nonempty prefix of its buffer that fits, and nothing is lost,
  duplicated or reordered.  A task that has returned has dropped its end: its
  peer reads what is still queued and then end of stream, and its peer's writes
  fail.  Which task moves, how much a call transfers and how the calls out are
  answered are all free, so a statement about every reachable state is a
  statement about every interleaving and every fragmentation.

  Three facts hold whatever the tasks are.  No run is infinite
  (`Net.step_wellFounded`).  The bytes one side was handed followed by those in
  flight are the bytes the other side sent (`Net.Reach.history`).  And a state
  property that survives every step and always leaves a step or a final state is
  enough for every run to end in one (`Net.inevitable`).
-/
import RustBackup.Io.Hoare
import Mathlib.Order.GameAdd

set_option autoImplicit false

namespace RustBackup.Io

variable {E₁ E₂ : Type} {R₁ : E₁ → Type} {R₂ : E₂ → Type} {α β : Type}

/-- Which replies a side's calls may get. -/
abbrev Policy (E : Type) (R : E → Type) : Type := (e : E) → R e → Prop

/-- The state of the two tasks and of the bytes in flight, with what each task
has done so far. -/
structure Net (E₁ : Type) (R₁ : E₁ → Type) (α : Type)
    (E₂ : Type) (R₂ : E₂ → Type) (β : Type) where
  left : Proc E₁ R₁ α
  right : Proc E₂ R₂ β
  /-- bytes sent by the left side and not yet read -/
  toRight : Bytes
  /-- bytes sent by the right side and not yet read -/
  toLeft : Bytes
  leftHist : Hist E₁ R₁
  rightHist : Hist E₂ R₂

/-- What the stream and the callees let one side do: `peerDone` says that the
other side has returned, `inq` is the queue towards this side and `outq` the one
away from it, before and after. -/
def Allowed {E : Type} {R : E → Type} (policy : Policy E R) (cap : Nat)
    (peerDone : Prop) (inq inq' outq outq' : Bytes) : Act E R → Prop
  | .recv (.data []) => peerDone ∧ inq = [] ∧ inq' = [] ∧ outq' = outq
  | .recv (.data (b :: bs)) => inq = b :: bs ++ inq' ∧ outq' = outq
  | .recv .timeout => False
  | .recv .fault => False
  | .send bs (.wrote m) =>
      0 < m ∧ ¬ peerDone ∧ outq.length + m ≤ cap ∧ inq' = inq ∧ outq' = outq ++ bs.take m
  | .send _ .timeout => False
  | .send _ .fault => peerDone ∧ inq' = inq ∧ outq' = outq
  | .call e r => policy e r ∧ inq' = inq ∧ outq' = outq

/-- The parameters of a network: the capacity of each direction and the reply
policy of each side. -/
structure Link (E₁ : Type) (R₁ : E₁ → Type) (E₂ : Type) (R₂ : E₂ → Type) where
  capRight : Nat
  capLeft : Nat
  leftPolicy : Policy E₁ R₁
  rightPolicy : Policy E₂ R₂

namespace Net

variable (c : Link E₁ R₁ E₂ R₂)

/-- One step of the network: one of the two tasks makes one step. -/
inductive Step : Net E₁ R₁ α E₂ R₂ β → Net E₁ R₁ α E₂ R₂ β → Prop where
  | left {s : Net E₁ R₁ α E₂ R₂ β} {a : Act E₁ R₁} {p : Proc E₁ R₁ α} {i o : Bytes}
      (hs : s.left.Step a p)
      (ha : Allowed c.leftPolicy c.capRight s.right.Finished s.toLeft i s.toRight o a) :
      Step s { s with left := p, toLeft := i, toRight := o,
                      leftHist := s.leftHist ++ [a] }
  | right {s : Net E₁ R₁ α E₂ R₂ β} {a : Act E₂ R₂} {q : Proc E₂ R₂ β} {i o : Bytes}
      (hs : s.right.Step a q)
      (ha : Allowed c.rightPolicy c.capLeft s.left.Finished s.toRight i s.toLeft o a) :
      Step s { s with right := q, toRight := i, toLeft := o,
                      rightHist := s.rightHist ++ [a] }

/-- The network before the first step. -/
def init (p : Proc E₁ R₁ α) (q : Proc E₂ R₂ β) : Net E₁ R₁ α E₂ R₂ β where
  left := p
  right := q
  toRight := []
  toLeft := []
  leftHist := []
  rightHist := []

/-- States reachable from the initial one. -/
inductive Reach (p : Proc E₁ R₁ α) (q : Proc E₂ R₂ β) : Net E₁ R₁ α E₂ R₂ β → Prop where
  | init : Reach p q (init p q)
  | step {s s' : Net E₁ R₁ α E₂ R₂ β} (hr : Reach p q s) (hs : Step c s s') : Reach p q s'

/-- Both sides have returned. -/
def Final (s : Net E₁ R₁ α E₂ R₂ β) : Prop := s.left.Finished ∧ s.right.Finished

/-! ## Every run is finite -/

/-- A network cannot step forever: each step replaces one of two well-founded
trees by one of its children. -/
theorem step_wellFounded :
    WellFounded fun s' s : Net E₁ R₁ α E₂ R₂ β => Step c s s' := by
  have hwf := (Proc.child_wellFounded (E := E₁) (R := R₁) (α := α)).prod_gameAdd
    (Proc.child_wellFounded (E := E₂) (R := R₂) (α := β))
  refine Subrelation.wf ?_ (InvImage.wf (fun s => (s.left, s.right)) hwf)
  intro s' s hs
  cases hs with
  | left hs _ => exact .fst ⟨_, hs⟩
  | right hs _ => exact .snd ⟨_, hs⟩

/-- Every run from `s` ends, and ends in a state where no step is possible and
`P` holds. -/
inductive Inevitable (P : Net E₁ R₁ α E₂ R₂ β → Prop) : Net E₁ R₁ α E₂ R₂ β → Prop where
  | done {s : Net E₁ R₁ α E₂ R₂ β} (hstuck : ∀ s', ¬ Step c s s') (hp : P s) :
      Inevitable P s
  | step {s : Net E₁ R₁ α E₂ R₂ β} (hex : ∃ s', Step c s s')
      (hall : ∀ s', Step c s s' → Inevitable P s') : Inevitable P s

/-- A finished network cannot step. -/
theorem Final.stuck {s : Net E₁ R₁ α E₂ R₂ β} (hf : s.Final) (s' : Net E₁ R₁ α E₂ R₂ β) :
    ¬ Step c s s' := by
  obtain ⟨⟨a, ha⟩, ⟨b, hb⟩⟩ := hf
  intro hs
  cases hs with
  | left hs _ => rw [ha] at hs; cases hs
  | right hs _ => rw [hb] at hs; cases hs

/-- The liveness rule: an invariant under which every unfinished state can step
makes every run end, in a finished state that satisfies the invariant. -/
theorem inevitable (Inv : Net E₁ R₁ α E₂ R₂ β → Prop) {P : Net E₁ R₁ α E₂ R₂ β → Prop}
    (hstep : ∀ s s', Inv s → Step c s s' → Inv s')
    (hprogress : ∀ s, Inv s → s.Final ∨ ∃ s', Step c s s')
    (hfinal : ∀ s, Inv s → s.Final → P s) {s : Net E₁ R₁ α E₂ R₂ β} (hs : Inv s) :
    Inevitable c P s := by
  induction s using (step_wellFounded c).induction with
  | _ s ih =>
    rcases hprogress s hs with hf | hex
    · exact .done (Final.stuck c hf) (hfinal s hs hf)
    · exact .step hex fun s' hs' => ih s' hs' (hstep s s' hs hs')

theorem Inevitable.imp {P Q : Net E₁ R₁ α E₂ R₂ β → Prop} (hpq : ∀ s, P s → Q s)
    {s : Net E₁ R₁ α E₂ R₂ β} (h : Inevitable c P s) : Inevitable c Q s := by
  induction h with
  | done hstuck hp => exact .done hstuck (hpq _ hp)
  | step hex _ ih => exact .step hex ih

/-- An inevitable state is reached. -/
theorem Inevitable.exists_reach {P : Net E₁ R₁ α E₂ R₂ β → Prop} {p : Proc E₁ R₁ α}
    {q : Proc E₂ R₂ β} {s : Net E₁ R₁ α E₂ R₂ β} (h : Inevitable c P s) (hr : Reach c p q s) :
    ∃ s', Reach c p q s' ∧ P s' := by
  induction h with
  | done _ hp => exact ⟨_, hr, hp⟩
  | step hex _ ih =>
    obtain ⟨s', hs⟩ := hex
    exact ih s' hs (.step hr hs)

/-- What is inevitable holds of a state that is reached. -/
theorem Inevitable.reached {P : Net E₁ R₁ α E₂ R₂ β → Prop} {p : Proc E₁ R₁ α}
    {q : Proc E₂ R₂ β} {s : Net E₁ R₁ α E₂ R₂ β} (h : Inevitable c P s) (hr : Reach c p q s) :
    Inevitable c (fun s' => Reach c p q s' ∧ P s') s := by
  induction h with
  | done hstuck hp => exact .done hstuck ⟨hr, hp⟩
  | step hex _ ih => exact .step hex fun s' hs => ih s' hs (.step hr hs)

/-! ## Nothing is lost, duplicated or reordered -/

/-- What a reachable state owes to the two histories. -/
structure History (p : Proc E₁ R₁ α) (q : Proc E₂ R₂ β) (s : Net E₁ R₁ α E₂ R₂ β) :
    Prop where
  leftRun : p.Run s.leftHist s.left
  rightRun : q.Run s.rightHist s.right
  leftSent : s.leftHist.outs = s.rightHist.ins ++ s.toRight
  rightSent : s.rightHist.outs = s.leftHist.ins ++ s.toLeft
  leftReplies : ∀ e r, Act.call e r ∈ s.leftHist → c.leftPolicy e r
  rightReplies : ∀ e r, Act.call e r ∈ s.rightHist → c.rightPolicy e r
  /-- the queue towards the right never exceeds its capacity -/
  capRight : s.toRight.length ≤ c.capRight
  /-- the queue towards the left never exceeds its capacity -/
  capLeft : s.toLeft.length ≤ c.capLeft

/-- What one allowed interaction does to the bytes and the queues. -/
theorem allowed_bytes {E : Type} {R : E → Type} {policy : Policy E R} {cap : Nat}
    {peerDone : Prop} {inq inq' outq outq' : Bytes} {a : Act E R}
    (ha : Allowed policy cap peerDone inq inq' outq outq' a) :
    inq = Act.ins a ++ inq' ∧ outq' = outq ++ Act.outs a ∧
      (outq.length ≤ cap → outq'.length ≤ cap) := by
  cases a with
  | recv r =>
    cases r with
    | data bs =>
      cases bs with
      | nil =>
        obtain ⟨-, h1, h2, h3⟩ := ha
        simp [Act.ins, Act.outs, h1, h2, h3]
      | cons b bs =>
        obtain ⟨h1, h2⟩ := ha
        simp [Act.ins, Act.outs, h1, h2]
    | timeout => exact ha.elim
    | fault => exact ha.elim
  | send bs r =>
    cases r with
    | wrote m =>
      obtain ⟨-, -, hcap, h1, h2⟩ := ha
      refine ⟨by simp [Act.ins, h1], by simp [Act.outs, h2], fun _ => ?_⟩
      rw [h2, List.length_append, List.length_take]
      omega
    | timeout => exact ha.elim
    | fault =>
      obtain ⟨-, h1, h2⟩ := ha
      simp [Act.ins, Act.outs, h1, h2]
  | call e r =>
    obtain ⟨-, h1, h2⟩ := ha
    simp [Act.ins, Act.outs, h1, h2]

theorem allowed_call {E : Type} {R : E → Type} {policy : Policy E R} {cap : Nat}
    {peerDone : Prop} {inq inq' outq outq' : Bytes} {e : E} {r : R e}
    (ha : Allowed policy cap peerDone inq inq' outq outq' (.call e r)) : policy e r :=
  ha.1

/-- Only the reply to a call depends on the policy. -/
theorem allowed_congr {E : Type} {R : E → Type} {policy policy' : Policy E R} {cap : Nat}
    {peerDone : Prop} {inq inq' outq outq' : Bytes} {a : Act E R}
    (ha : Allowed policy cap peerDone inq inq' outq outq' a)
    (hp : ∀ e r, a = .call e r → policy' e r) :
    Allowed policy' cap peerDone inq inq' outq outq' a := by
  cases a with
  | recv r =>
    cases r with
    | data bs =>
      cases bs with
      | nil => exact ha
      | cons b bs => exact ha
    | timeout => exact ha
    | fault => exact ha
  | send bs r =>
    cases r with
    | wrote m => exact ha
    | timeout => exact ha
    | fault => exact ha
  | call e r => exact ⟨hp e r rfl, ha.2⟩

/-- The history invariant of every run. -/
theorem Reach.history {p : Proc E₁ R₁ α} {q : Proc E₂ R₂ β}
    {s : Net E₁ R₁ α E₂ R₂ β} (hr : Reach c p q s) : History c p q s := by
  induction hr with
  | init =>
    exact ⟨.refl p, .refl q, rfl, rfl, fun _ _ h => by simp [Net.init] at h,
      fun _ _ h => by simp [Net.init] at h, by simp [Net.init], by simp [Net.init]⟩
  | @step s s' _ hs ih =>
    cases hs with
    | @left a p' i o hs ha =>
      obtain ⟨hin, hout, hcap⟩ := allowed_bytes ha
      refine ⟨ih.leftRun.tail hs, ih.rightRun, ?_, ?_, ?_, ih.rightReplies,
        hcap ih.capRight, ?_⟩
      · simp [ih.leftSent, hout, Hist.outs_singleton]
      · simp [ih.rightSent, hin, Hist.ins_singleton]
      · intro e r hmem
        rcases List.mem_append.mp hmem with hmem | hmem
        · exact ih.leftReplies e r hmem
        · rw [List.mem_singleton] at hmem
          subst hmem
          exact allowed_call ha
      · have := ih.capLeft
        simp only [hin, List.length_append] at this
        show i.length ≤ c.capLeft
        omega
    | @right a q' i o hs ha =>
      obtain ⟨hin, hout, hcap⟩ := allowed_bytes ha
      refine ⟨ih.leftRun, ih.rightRun.tail hs, ?_, ?_, ih.leftReplies, ?_, ?_,
        hcap ih.capLeft⟩
      · simp [ih.leftSent, hin, Hist.ins_singleton]
      · simp [ih.rightSent, hout, Hist.outs_singleton]
      · intro e r hmem
        rcases List.mem_append.mp hmem with hmem | hmem
        · exact ih.rightReplies e r hmem
        · rw [List.mem_singleton] at hmem
          subst hmem
          exact allowed_call ha
      · have := ih.capRight
        simp only [hin, List.length_append] at this
        show i.length ≤ c.capRight
        omega

end Net

end RustBackup.Io
