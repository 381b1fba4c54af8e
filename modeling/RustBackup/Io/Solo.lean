/-
  Io/Solo.lean --- particular runs, put together from stretches of one side.

  To show that something can happen one has to exhibit a run.  A stretch
  `Goes p i o l q` is a run of one task from `p` to `q` in which nothing fails: it
  reads `i`, sends `o` and makes the calls `l`.  Stretches compose like programs
  do, and `Net.Reach.left` and `Net.Reach.right` play one inside a network.
-/
import RustBackup.Io.Loops

set_option autoImplicit false

namespace RustBackup.Io

variable {E : Type} {R : E → Type} {ε α β : Type}

/-- An interaction that moves bytes, or a call. -/
def Act.Moves : Act E R → Prop
  | .recv (.data bs) => bs ≠ []
  | .recv .timeout => False
  | .recv .fault => False
  | .send bs (.wrote m) => 0 < m ∧ m ≤ bs.length
  | .send _ .timeout => False
  | .send _ .fault => False
  | .call _ _ => True

/-- A run from `p` to `q` in which nothing fails. -/
def Goes (p : Proc E R α) (i o : Bytes) (l : Calls E R) (q : Proc E R α) : Prop :=
  ∃ h : Hist E R, p.Run h q ∧ h.ins = i ∧ h.outs = o ∧ h.calls = l ∧ ∀ a ∈ h, Act.Moves a

theorem Proc.Run.trans {p q q' : Proc E R α} {h h' : Hist E R} (hr : p.Run h q)
    (hr' : q.Run h' q') : p.Run (h ++ h') q' := by
  induction hr' with
  | refl => rw [List.append_nil]; exact hr
  | tail _ hs ih => rw [← List.append_assoc]; exact .tail ih hs

theorem Proc.Run.head {p p' q : Proc E R α} {a : Act E R} {h : Hist E R} (hs : p.Step a p')
    (hr : p'.Run h q) : p.Run (a :: h) q :=
  (Proc.Run.tail (.refl p) hs).trans hr

theorem Proc.Run.of_ret {a : α} {h : Hist E R} {q : Proc E R α}
    (hr : (Proc.ret a : Proc E R α).Run h q) : h = [] ∧ q = .ret a := by
  induction hr with
  | refl => exact ⟨rfl, rfl⟩
  | tail _ hs ih =>
    rw [ih.2] at hs
    cases hs

theorem Proc.Run.bind {p q : Proc E R α} {h : Hist E R} (hr : p.Run h q)
    (f : α → Proc E R β) : (p.bind f).Run h (q.bind f) := by
  induction hr with
  | refl => exact .refl _
  | tail _ hs ih => exact .tail ih (hs.bind f)

namespace Goes

variable {p q q' : Proc E R α} {i i' o o' : Bytes} {l l' : Calls E R}

theorem refl (p : Proc E R α) : Goes p [] [] [] p :=
  ⟨[], .refl p, rfl, rfl, rfl, fun a ha => by simp at ha⟩

theorem trans (h : Goes p i o l q) (h' : Goes q i' o' l' q') :
    Goes p (i ++ i') (o ++ o') (l ++ l') q' := by
  obtain ⟨t, hr, hi, ho, hl, hm⟩ := h
  obtain ⟨t', hr', hi', ho', hl', hm'⟩ := h'
  refine ⟨t ++ t', hr.trans hr', by rw [Hist.ins_append, hi, hi'],
    by rw [Hist.outs_append, ho, ho'], by rw [Hist.calls_append, hl, hl'], ?_⟩
  intro a ha
  rcases List.mem_append.mp ha with ha | ha
  · exact hm a ha
  · exact hm' a ha

theorem to_eq {q' : Proc E R α} (h : Goes p i o l q) (hq : q = q') : Goes p i o l q' := hq ▸ h

theorem bind (h : Goes p i o l q) (f : α → Proc E R β) : Goes (p.bind f) i o l (q.bind f) := by
  obtain ⟨t, hr, hi, ho, hl, hm⟩ := h
  exact ⟨t, hr.bind f, hi, ho, hl, hm⟩

/-- A part that returns, and then the rest. -/
theorem andThen {a : α} {f : α → Proc E R β} {q : Proc E R β} (h : Goes p i o l (.ret a))
    (h' : Goes (f a) i' o' l' q) : Goes (p.bind f) (i ++ i') (o ++ o') (l ++ l') q :=
  (h.bind f).trans h'

/-- A call, and then the rest. -/
theorem call {e : E} {k : R e → Proc E R α} (r : R e) (h : Goes (k r) i o l q) :
    Goes (.call e k) i o (⟨e, r⟩ :: l) q := by
  have h₁ : Goes (.call e k) [] [] [⟨e, r⟩] (k r) :=
    ⟨[.call e r], .tail (.refl _) .call, rfl, rfl, rfl, fun a ha => by
      rw [List.mem_singleton] at ha
      rw [ha]
      trivial⟩
  exact h₁.trans h

theorem write {bs : Bytes} {k : WriteRes → Proc E R α} (hbs : bs ≠ []) :
    Goes (.write bs k) [] bs [] (k (.wrote bs.length)) := by
  refine ⟨[.send bs (.wrote bs.length)], .tail (.refl _) (.write (Nat.le_refl _)), rfl,
    by simp, rfl, fun a ha => ?_⟩
  rw [List.mem_singleton] at ha
  rw [ha]
  exact ⟨List.length_pos_iff.mpr hbs, Nat.le_refl _⟩

theorem read {n : Nat} {k : ReadRes → Proc E R α} {bs : Bytes} (hbs : bs ≠ [])
    (hn : bs.length ≤ n) : Goes (.read n k) bs [] [] (k (.data bs)) := by
  refine ⟨[.recv (.data bs)], .tail (.refl _) (.read hn), by simp, rfl, rfl, fun a ha => ?_⟩
  rw [List.mem_singleton] at ha
  rw [ha]
  exact hbs

/-- A task that makes a call has not returned. -/
theorem not_finished (h : Goes p i o l q) (hl : l ≠ []) : ¬ p.Finished := by
  rintro ⟨a, rfl⟩
  obtain ⟨t, hr, -, -, hcalls, -⟩ := h
  rw [hr.of_ret.1] at hcalls
  exact hl hcalls.symm

end Goes

/-! ## The loops -/

theorem goes_writeAll {onZero onTimeout onFault : ε} (bs : Bytes) :
    Goes (writeAll onZero onTimeout onFault bs : Proc E R (Except ε Unit)) [] bs []
      (.ret (.ok ())) := by
  cases bs with
  | nil => rw [writeAll_nil]; exact .refl _
  | cons b bs =>
    rw [writeAll_cons]
    apply Goes.to_eq (Goes.write (show b :: bs ≠ [] by simp))
    simp only [List.length_cons, List.drop_length, writeAll_nil]

theorem goes_readExact {onEof onTimeout onFault : ε} (bs : Bytes) :
    Goes (readExact onEof onTimeout onFault bs.length : Proc E R (Except ε Bytes)) bs [] []
      (.ret (.ok bs)) := by
  cases bs with
  | nil =>
    rw [readExact, List.length_nil, readExactFrom_zero]
    exact .refl _
  | cons b bs =>
    rw [readExact, List.length_cons, readExactFrom_succ]
    apply Goes.to_eq (Goes.read (show b :: bs ≠ [] by simp) (Nat.le_refl _))
    simp only [Nat.sub_self, readExactFrom_zero, List.nil_append]

/-! ## Inside a network -/

namespace Net

variable {E₁ E₂ : Type} {R₁ : E₁ → Type} {R₂ : E₂ → Type} {c : Link E₁ R₁ E₂ R₂}
variable {p : Proc E₁ R₁ α} {q : Proc E₂ R₂ β}

/-- An interaction that moves bytes is possible when the bytes are there, when there
is room and when the peer is. -/
theorem allowed_of_moves {policy : Policy E R} {cap : Nat} {peerDone : Prop}
    {inq inq' outq : Bytes} {a : Act E R} (hm : a.Moves)
    (hcall : ∀ e r, a = .call e r → policy e r) (hin : inq = Act.ins a ++ inq')
    (hroom : outq.length + (Act.outs a).length ≤ cap) (hpeer : Act.outs a = [] ∨ ¬ peerDone) :
    Allowed policy cap peerDone inq inq' outq (outq ++ Act.outs a) a := by
  cases a with
  | recv r =>
    cases r with
    | data bs =>
      cases bs with
      | nil => exact absurd rfl hm
      | cons b bs => exact ⟨hin, List.append_nil _⟩
    | timeout => exact hm.elim
    | fault => exact hm.elim
  | send bs r =>
    cases r with
    | wrote m =>
      obtain ⟨hpos, hle⟩ := hm
      have hlen : (Act.outs (.send bs (.wrote m) : Act E R)).length = m := by
        rw [Act.outs, List.length_take, Nat.min_eq_left hle]
      rw [hlen] at hroom
      refine ⟨hpos, hpeer.resolve_left fun hnil => ?_, hroom, by simpa [Act.ins] using hin.symm,
        rfl⟩
      rw [hnil, List.length_nil] at hlen
      omega
    | timeout => exact hm.elim
    | fault => exact hm.elim
  | call e r => exact ⟨hcall e r rfl, by simpa [Act.ins] using hin.symm, List.append_nil _⟩

/-- A stretch of the left side, played in the network. -/
theorem Reach.left {s : Net E₁ R₁ α E₂ R₂ β} {i o rest : Bytes} {l : Calls E₁ R₁}
    {p' : Proc E₁ R₁ α} (hr : Reach c p q s) (hg : Goes s.left i o l p')
    (hpolicy : ∀ e r, (⟨e, r⟩ : Sigma R₁) ∈ l → c.leftPolicy e r) (hin : s.toLeft = i ++ rest)
    (hroom : s.toRight.length + o.length ≤ c.capRight)
    (hpeer : o = [] ∨ ¬ s.right.Finished) :
    ∃ h, h.calls = s.leftHist.calls ++ l ∧
      Reach c p q { s with left := p', toLeft := rest, toRight := s.toRight ++ o,
                           leftHist := h } := by
  obtain ⟨t, hrun, hi, ho, hl, hm⟩ := hg
  refine ⟨s.leftHist ++ t, by rw [Hist.calls_append, hl], ?_⟩
  induction hrun generalizing i o l rest with
  | refl =>
    rw [Hist.ins_nil] at hi
    rw [Hist.outs_nil] at ho
    subst hi ho
    rw [List.nil_append] at hin
    rw [List.append_nil, List.append_nil, ← hin]
    exact hr
  | @tail p₁ p₂ t a hrun hs ih =>
    rw [Hist.ins_append, Hist.ins_singleton] at hi
    rw [Hist.outs_append, Hist.outs_singleton] at ho
    rw [Hist.calls_append] at hl
    subst hi ho hl
    rw [List.length_append] at hroom
    have hcall : ∀ e r, a = .call e r → c.leftPolicy e r := by
      rintro e r rfl
      refine hpolicy e r ?_
      rw [Hist.calls_call]
      exact List.mem_append_right _ (List.mem_singleton_self _)
    rw [List.append_eq_nil_iff] at hpeer
    have hrest : s.toLeft = t.ins ++ (Act.ins a ++ rest) := by rw [hin, List.append_assoc]
    have hmid := ih (fun e r he => hpolicy e r (List.mem_append_left _ he)) hrest (by omega)
      (hpeer.imp And.left id) rfl rfl rfl
      (fun b hb => hm b (List.mem_append_left _ hb))
    have hallowed : Allowed c.leftPolicy c.capRight s.right.Finished (Act.ins a ++ rest) rest
        (s.toRight ++ t.outs) (s.toRight ++ t.outs ++ Act.outs a) a :=
      allowed_of_moves (hm a (List.mem_append_right _ (List.mem_singleton_self _))) hcall rfl
        (by rw [List.length_append]; omega) (hpeer.imp And.right id)
    have hstep := Reach.step hmid (.left hs hallowed)
    rw [List.append_assoc, List.append_assoc] at hstep
    exact hstep

theorem Reach.swap {s : Net E₁ R₁ α E₂ R₂ β} (hr : Reach c p q s) :
    Reach c.swap q p s.swap := by
  induction hr with
  | init => exact .init
  | step _ hs ih => exact .step ih hs.swap

/-- A stretch of the right side, played in the network. -/
theorem Reach.right {s : Net E₁ R₁ α E₂ R₂ β} {i o rest : Bytes} {l : Calls E₂ R₂}
    {q' : Proc E₂ R₂ β} (hr : Reach c p q s) (hg : Goes s.right i o l q')
    (hpolicy : ∀ e r, (⟨e, r⟩ : Sigma R₂) ∈ l → c.rightPolicy e r) (hin : s.toRight = i ++ rest)
    (hroom : s.toLeft.length + o.length ≤ c.capLeft) (hpeer : o = [] ∨ ¬ s.left.Finished) :
    ∃ h, h.calls = s.rightHist.calls ++ l ∧
      Reach c p q { s with right := q', toRight := rest, toLeft := s.toLeft ++ o,
                           rightHist := h } := by
  obtain ⟨h, hcalls, hr'⟩ := hr.swap.left (s := s.swap) hg hpolicy hin hroom hpeer
  exact ⟨h, hcalls, hr'.swap⟩

end Net

end RustBackup.Io
