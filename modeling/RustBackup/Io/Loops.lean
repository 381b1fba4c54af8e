/-
  Io/Loops.lean --- the two transfer loops, `write_all` and `read_exact`.

  Both repeat one system call until a buffer is done.  Each gets one lemma per
  way of reasoning about tasks: it coalesces, it has a weakest precondition, it
  pairs with the other loop in a synchronous run, and it has a value on a stream
  followed by end of stream.  Programs built from the loops never unfold them.
-/
import RustBackup.Io.Feed

set_option autoImplicit false

namespace RustBackup.Io

variable {E E₁ E₂ : Type} {R : E → Type} {R₁ : E₁ → Type} {R₂ : E₂ → Type}
variable {ε α β : Type}

/-- `write_all`: write until nothing is left.  The three errors are what it
returns when a call takes nothing, when its idle timer fires and when it fails. -/
def writeAll (onZero onTimeout onFault : ε) : Bytes → Proc E R (Except ε Unit)
  | [] => .ret (.ok ())
  | b :: bs =>
      .write (b :: bs) fun
        | .wrote 0 => .ret (.error onZero)
        | .wrote (n + 1) => writeAll onZero onTimeout onFault (bs.drop n)
        | .timeout => .ret (.error onTimeout)
        | .fault => .ret (.error onFault)
termination_by bs => bs.length
decreasing_by simp only [List.length_drop, List.length_cons]; omega

/-- `read_exact` with `acc` already read and `n` bytes to go. -/
def readExactFrom (onEof onTimeout onFault : ε) (acc : Bytes) :
    Nat → Proc E R (Except ε Bytes)
  | 0 => .ret (.ok acc)
  | n + 1 =>
      .read (n + 1) fun
        | .data [] => .ret (.error onEof)
        | .data (b :: bs) => readExactFrom onEof onTimeout onFault (acc ++ b :: bs) (n - bs.length)
        | .timeout => .ret (.error onTimeout)
        | .fault => .ret (.error onFault)
termination_by n => n

/-- `read_exact`: read until the buffer of `n` bytes is full. -/
def readExact (onEof onTimeout onFault : ε) (n : Nat) : Proc E R (Except ε Bytes) :=
  readExactFrom onEof onTimeout onFault [] n

section Equations

variable (onZero onEof onTimeout onFault : ε)

@[simp] theorem writeAll_nil :
    (writeAll onZero onTimeout onFault [] : Proc E R (Except ε Unit)) = .ret (.ok ()) := by
  rw [writeAll]

theorem writeAll_cons (b : UInt8) (bs : Bytes) :
    (writeAll onZero onTimeout onFault (b :: bs) : Proc E R (Except ε Unit)) =
      .write (b :: bs) fun
        | .wrote 0 => .ret (.error onZero)
        | .wrote (n + 1) => writeAll onZero onTimeout onFault (bs.drop n)
        | .timeout => .ret (.error onTimeout)
        | .fault => .ret (.error onFault) := by
  rw [writeAll]

@[simp] theorem readExactFrom_zero (acc : Bytes) :
    (readExactFrom onEof onTimeout onFault acc 0 : Proc E R (Except ε Bytes)) =
      .ret (.ok acc) := by
  rw [readExactFrom]

theorem readExactFrom_succ (acc : Bytes) (n : Nat) :
    (readExactFrom onEof onTimeout onFault acc (n + 1) : Proc E R (Except ε Bytes)) =
      .read (n + 1) fun
        | .data [] => .ret (.error onEof)
        | .data (b :: bs) =>
            readExactFrom onEof onTimeout onFault (acc ++ b :: bs) (n - bs.length)
        | .timeout => .ret (.error onTimeout)
        | .fault => .ret (.error onFault) := by
  rw [readExactFrom]

end Equations

/-! ## The loops coalesce -/

theorem coalescing_ret (a : α) : (Proc.ret a : Proc E R α).Coalescing := trivial

theorem coalescing_writeAll (onZero onTimeout onFault : ε) (bs : Bytes) :
    (writeAll onZero onTimeout onFault bs : Proc E R (Except ε Unit)).Coalescing := by
  induction h : bs.length using Nat.strongRecOn generalizing bs with
  | _ len ih =>
    cases bs with
    | nil => rw [writeAll_nil]; exact coalescing_ret _
    | cons b bs =>
      rw [writeAll_cons]
      refine ⟨by simp, ?_, ?_⟩
      · intro m hm hlt
        obtain ⟨m, rfl⟩ : ∃ m', m = m' + 1 := ⟨m - 1, by omega⟩
        simp only [List.length_cons] at hlt
        obtain ⟨c, cs, hcs⟩ : ∃ c cs, bs.drop m = c :: cs := by
          cases hd : bs.drop m with
          | nil => rw [List.drop_eq_nil_iff] at hd; omega
          | cons c cs => exact ⟨c, cs, rfl⟩
        show writeAll onZero onTimeout onFault (bs.drop m) = _
        rw [List.drop_succ_cons, hcs, writeAll_cons]
        congr 1
        funext r
        cases r with
        | wrote n =>
          cases n with
          | zero => rfl
          | succ n =>
            show writeAll onZero onTimeout onFault (cs.drop n) =
              writeAll onZero onTimeout onFault (bs.drop (m + 1 + n))
            have : cs = bs.drop (m + 1) := by
              rw [← List.drop_drop, hcs]
              rfl
            rw [this, List.drop_drop]
        | timeout => rfl
        | fault => rfl
      · intro r hr
        cases r with
        | wrote n =>
          cases n with
          | zero => exact coalescing_ret _
          | succ n =>
            refine ih (bs.drop n).length ?_ _ rfl
            simp only [List.length_drop, List.length_cons] at h ⊢
            omega
        | timeout => exact coalescing_ret _
        | fault => exact coalescing_ret _

theorem coalescing_readExactFrom (onEof onTimeout onFault : ε) (acc : Bytes) (n : Nat) :
    (readExactFrom onEof onTimeout onFault acc n : Proc E R (Except ε Bytes)).Coalescing := by
  induction n using Nat.strongRecOn generalizing acc with
  | _ n ih =>
    cases n with
    | zero => rw [readExactFrom_zero]; exact coalescing_ret _
    | succ n =>
      rw [readExactFrom_succ]
      refine ⟨Nat.succ_pos n, ?_, ?_⟩
      · intro a ha hlt
        cases a with
        | nil => exact absurd rfl ha
        | cons b bs =>
          simp only [List.length_cons] at hlt
          obtain ⟨m, hm⟩ : ∃ m, n - bs.length = m + 1 := ⟨n - bs.length - 1, by omega⟩
          show readExactFrom onEof onTimeout onFault (acc ++ b :: bs) (n - bs.length) = _
          have hsub : n + 1 - (b :: bs).length = m + 1 := by simp only [List.length_cons]; omega
          rw [hsub, hm, readExactFrom_succ]
          congr 1
          funext r
          cases r with
          | data cs =>
            cases cs with
            | nil => rfl
            | cons c cs =>
              show readExactFrom onEof onTimeout onFault (acc ++ b :: bs ++ c :: cs)
                  (m - cs.length) =
                readExactFrom onEof onTimeout onFault (acc ++ b :: (bs ++ c :: cs))
                  (n - (bs ++ c :: cs).length)
              have h1 : m - cs.length = n - (bs ++ c :: cs).length := by
                simp only [List.length_append, List.length_cons]
                omega
              rw [h1]
              simp
          | timeout => rfl
          | fault => rfl
      · intro r hr
        cases r with
        | data cs =>
          cases cs with
          | nil => exact coalescing_ret _
          | cons c cs => exact ih _ (by omega) _
        | timeout => exact coalescing_ret _
        | fault => exact coalescing_ret _

theorem coalescing_readExact (onEof onTimeout onFault : ε) (n : Nat) :
    (readExact onEof onTimeout onFault n : Proc E R (Except ε Bytes)).Coalescing :=
  coalescing_readExactFrom onEof onTimeout onFault [] n

theorem coalescing_bind {x : Task E R ε α} {g : α → Task E R ε β}
    (hx : x.run.Coalescing) (hg : ∀ a, (g a).run.Coalescing) :
    (x >>= g).run.Coalescing := by
  refine Proc.Coalescing.bind hx fun r => ?_
  cases r with
  | ok a => exact hg a
  | error e => exact coalescing_ret _

/-! ## The loops in a weakest precondition -/

/-- A stretch of history in which the task only sent, and sent `o`. -/
structure Sends (t : Hist E R) (o : Bytes) : Prop where
  ins : t.ins = []
  outs : t.outs = o
  calls : t.calls = []

/-- A stretch of history in which the task only received, and received `i`. -/
structure Recvs (t : Hist E R) (i : Bytes) : Prop where
  ins : t.ins = i
  outs : t.outs = []
  calls : t.calls = []

theorem Sends.nil : Sends ([] : Hist E R) [] := ⟨rfl, rfl, rfl⟩

theorem Recvs.nil : Recvs ([] : Hist E R) [] := ⟨rfl, rfl, rfl⟩

theorem Sends.append {t t' : Hist E R} {o o' : Bytes} (h : Sends t o) (h' : Sends t' o') :
    Sends (t ++ t') (o ++ o') :=
  ⟨by simp [h.ins, h'.ins], by simp [h.outs, h'.outs], by simp [h.calls, h'.calls]⟩

theorem Recvs.append {t t' : Hist E R} {i i' : Bytes} (h : Recvs t i) (h' : Recvs t' i') :
    Recvs (t ++ t') (i ++ i') :=
  ⟨by simp [h.ins, h'.ins], by simp [h.outs, h'.outs], by simp [h.calls, h'.calls]⟩

/-- A `write` call that took nothing. -/
def WriteRes.Failed : WriteRes → Prop
  | .wrote n => n = 0
  | .timeout => True
  | .fault => True

/-- A `read` call that delivered nothing, and the error it becomes. -/
inductive ReadRes.Stops (onEof onTimeout onFault : ε) : ReadRes → ε → Prop where
  | eof : Stops onEof onTimeout onFault (.data []) onEof
  | timeout : Stops onEof onTimeout onFault .timeout onTimeout
  | fault : Stops onEof onTimeout onFault .fault onFault

theorem ReadRes.Stops.ne_data {onEof onTimeout onFault e : ε} {q : ReadRes}
    (h : ReadRes.Stops onEof onTimeout onFault q e) (b : UInt8) (bs : Bytes) :
    q ≠ .data (b :: bs) := by
  rintro rfl
  cases h

section WpAt

variable {I : Proc.Kind → Hist E R → Prop}

/-- `write_all` keeps `I` while it has not sent everything and ends having sent
everything, or after a call that took nothing. -/
theorem wpAt_writeAll {onZero onTimeout onFault : ε} {Q : Hist E R → Except ε Unit → Prop}
    {bs : Bytes} {h : Hist E R}
    (hI : ∀ t o, Sends t o → o <+: bs → o ≠ bs → I .write (h ++ t))
    (hok : ∀ t, Sends t bs → Q (h ++ t) (.ok ()))
    (herr : ∀ t o buf r e, Sends t o → o <+: bs → o ≠ bs → WriteRes.Failed r →
      Q (h ++ t ++ [.send buf r]) (.error e)) :
    Proc.wpAt I Q (writeAll onZero onTimeout onFault bs) h := by
  induction hlen : bs.length using Nat.strongRecOn generalizing bs h with
  | _ len ih =>
    cases bs with
    | nil =>
      rw [writeAll_nil]
      show Q h (.ok ())
      simpa using hok [] .nil
    | cons b bs =>
      rw [writeAll_cons]
      have hne : ([] : Bytes) ≠ b :: bs := by simp
      refine ⟨by simpa using hI [] [] .nil (List.nil_prefix) hne, ?_⟩
      have hfail : ∀ (r : WriteRes) (e : ε), r.Failed →
          Q (h ++ [.send (b :: bs) r]) (.error e) := by
        intro r e hr
        have := herr [] [] (b :: bs) r e .nil List.nil_prefix hne hr
        rw [List.append_nil] at this
        exact this
      intro r hr
      cases r with
      | wrote n =>
        cases n with
        | zero => exact hfail _ _ rfl
        | succ n =>
          have hsent : Sends [(.send (b :: bs) (.wrote (n + 1)) : Act E R)]
              ((b :: bs).take (n + 1)) := ⟨rfl, by simp, rfl⟩
          have hsplit : (b :: bs).take (n + 1) ++ bs.drop n = b :: bs := by
            rw [List.take_succ_cons, List.cons_append, List.take_append_drop]
          have hpre : ∀ o, o <+: bs.drop n → (b :: bs).take (n + 1) ++ o <+: b :: bs := by
            intro o hp
            have := (List.prefix_append_right_inj ((b :: bs).take (n + 1))).mpr hp
            rwa [hsplit] at this
          have hrest : ∀ o, o ≠ bs.drop n → (b :: bs).take (n + 1) ++ o ≠ b :: bs :=
            fun o hno heq => hno (List.append_cancel_left (heq.trans hsplit.symm))
          refine ih (bs.drop n).length ?_ ?_ ?_ ?_ rfl
          · simp only [List.length_drop, List.length_cons] at hlen ⊢
            omega
          · intro t o hs hp hno
            rw [List.append_assoc]
            exact hI _ _ (hsent.append hs) (hpre o hp) (hrest o hno)
          · intro t hs
            rw [List.append_assoc]
            have hall := hsent.append hs
            rw [hsplit] at hall
            exact hok _ hall
          · intro t o buf r e hs hp hno hr'
            rw [List.append_assoc h]
            exact herr _ _ buf r e (hsent.append hs) (hpre o hp) (hrest o hno) hr'
      | timeout => exact hfail _ _ trivial
      | fault => exact hfail _ _ trivial

/-- `read_exact` keeps `I` while it has not read everything and ends having read
exactly `n` bytes, or after a call that delivered nothing. -/
theorem wpAt_readExactFrom {onEof onTimeout onFault : ε}
    {Q : Hist E R → Except ε Bytes → Prop} {acc : Bytes} {n : Nat} {h : Hist E R}
    (hI : ∀ t i, Recvs t i → i.length < n → I .read (h ++ t))
    (hok : ∀ t i, Recvs t i → i.length = n → Q (h ++ t) (.ok (acc ++ i)))
    (herr : ∀ t i r e, Recvs t i → i.length < n →
      ReadRes.Stops onEof onTimeout onFault r e → Q (h ++ t ++ [.recv r]) (.error e)) :
    Proc.wpAt I Q (readExactFrom onEof onTimeout onFault acc n) h := by
  induction n using Nat.strongRecOn generalizing acc h with
  | _ n ih =>
    cases n with
    | zero =>
      rw [readExactFrom_zero]
      show Q h (.ok acc)
      simpa using hok [] [] .nil rfl
    | succ n =>
      rw [readExactFrom_succ]
      refine ⟨by simpa using hI [] [] .nil (Nat.succ_pos n), ?_⟩
      have hfail : ∀ (r : ReadRes) (e : ε), ReadRes.Stops onEof onTimeout onFault r e →
          Q (h ++ [.recv r]) (.error e) := by
        intro r e hr
        have := herr [] [] r e .nil (Nat.succ_pos n) hr
        rw [List.append_nil] at this
        exact this
      intro r hr
      cases r with
      | data bs =>
        cases bs with
        | nil => exact hfail _ _ .eof
        | cons b bs =>
          have hrecv : Recvs [(.recv (.data (b :: bs)) : Act E R)] (b :: bs) :=
            ⟨by simp, rfl, rfl⟩
          have hfit : (b :: bs).length ≤ n + 1 := hr
          simp only [List.length_cons] at hfit
          refine ih (n - bs.length) (by omega) ?_ ?_ ?_
          · intro t i hs hlt
            rw [List.append_assoc]
            refine hI _ _ (hrecv.append hs) ?_
            simp only [List.length_append, List.length_cons]
            omega
          · intro t i hs hlen
            rw [List.append_assoc, List.append_assoc]
            refine hok _ _ (hrecv.append hs) ?_
            simp only [List.length_append, List.length_cons]
            omega
          · intro t i r e hs hlt hr'
            rw [List.append_assoc h]
            refine herr _ _ r e (hrecv.append hs) ?_ hr'
            simp only [List.length_append, List.length_cons]
            omega
      | timeout => exact hfail _ _ .timeout
      | fault => exact hfail _ _ .fault

theorem wpAt_readExact {onEof onTimeout onFault : ε} {Q : Hist E R → Except ε Bytes → Prop}
    {n : Nat} {h : Hist E R}
    (hI : ∀ t i, Recvs t i → i.length < n → I .read (h ++ t))
    (hok : ∀ t i, Recvs t i → i.length = n → Q (h ++ t) (.ok i))
    (herr : ∀ t i r e, Recvs t i → i.length < n →
      ReadRes.Stops onEof onTimeout onFault r e → Q (h ++ t ++ [.recv r]) (.error e)) :
    Proc.wpAt I Q (readExact onEof onTimeout onFault n) h :=
  wpAt_readExactFrom hI hok herr

end WpAt

section Wp

variable {I : Hist E R → Prop}

theorem wp_readExact {onEof onTimeout onFault : ε} {Q : Hist E R → Except ε Bytes → Prop}
    {n : Nat} {h : Hist E R}
    (hI : ∀ t i, Recvs t i → i.length < n → I (h ++ t))
    (hok : ∀ t i, Recvs t i → i.length = n → Q (h ++ t) (.ok i))
    (herr : ∀ t i r e, Recvs t i → i.length < n →
      ReadRes.Stops onEof onTimeout onFault r e → Q (h ++ t ++ [.recv r]) (.error e)) :
    Proc.wp I Q (readExact onEof onTimeout onFault n) h :=
  Proc.wpAt_const.mp (wpAt_readExact hI hok herr)

end Wp

/-! ## What the loops never do -/

theorem avoids_writeAll {x : Proc.Kind} (hx : x ≠ .write) (onZero onTimeout onFault : ε)
    (bs : Bytes) :
    (writeAll onZero onTimeout onFault bs : Proc E R (Except ε Unit)).Avoids x := by
  induction h : bs.length using Nat.strongRecOn generalizing bs with
  | _ len ih =>
    cases bs with
    | nil => rw [writeAll_nil]; exact trivial
    | cons b bs =>
      rw [writeAll_cons]
      refine ⟨hx, fun r => ?_⟩
      cases r with
      | wrote n =>
        cases n with
        | zero => exact trivial
        | succ n =>
          refine ih (bs.drop n).length ?_ _ rfl
          simp only [List.length_drop, List.length_cons] at h ⊢
          omega
      | timeout => exact trivial
      | fault => exact trivial

theorem avoids_readExact {x : Proc.Kind} (hx : x ≠ .read) (onEof onTimeout onFault : ε)
    (n : Nat) : (readExact onEof onTimeout onFault n : Proc E R (Except ε Bytes)).Avoids x := by
  rw [readExact]
  generalize ([] : Bytes) = acc
  induction n using Nat.strongRecOn generalizing acc with
  | _ n ih =>
    cases n with
    | zero => rw [readExactFrom_zero]; exact trivial
    | succ n =>
      rw [readExactFrom_succ]
      refine ⟨hx, fun r => ?_⟩
      cases r with
      | data bs =>
        cases bs with
        | nil => exact trivial
        | cons b bs => exact ih _ (by omega) _
      | timeout => exact trivial
      | fault => exact trivial

/-! ## One byte -/

/-- A step of a composed program is one of its first part, unless that has returned. -/
theorem Proc.Step.of_bind {p : Proc E R α} {f : α → Proc E R β} {a : Act E R} {q : Proc E R β}
    (hs : (p.bind f).Step a q) (hp : ¬ p.Finished) : ∃ p', p.Step a p' ∧ q = p'.bind f := by
  cases p with
  | ret x => exact absurd ⟨x, rfl⟩ hp
  | read n k =>
    cases hs with
    | read hr => exact ⟨_, .read hr, rfl⟩
  | write bs k =>
    cases hs with
    | write hr => exact ⟨_, .write hr, rfl⟩
  | call e k =>
    cases hs with
    | call => exact ⟨_, .call, rfl⟩

theorem Proc.Step.bind {p q : Proc E R α} {a : Act E R} (hs : p.Step a q)
    (f : α → Proc E R β) : (p.bind f).Step a (q.bind f) := by
  cases hs with
  | read hr => exact .read hr
  | write hr => exact .write hr
  | call => exact .call

theorem Proc.Finished.of_bind {p : Proc E R α} {f : α → Proc E R β} (h : (p.bind f).Finished) :
    p.Finished := by
  cases p with
  | ret a => exact ⟨a, rfl⟩
  | read n k => obtain ⟨b, hb⟩ := h; cases hb
  | write bs k => obtain ⟨b, hb⟩ := h; cases hb
  | call e k => obtain ⟨b, hb⟩ := h; cases hb

theorem not_finished_readExact (onEof onTimeout onFault : ε) (n : Nat) :
    ¬ (readExact onEof onTimeout onFault (n + 1) : Proc E R (Except ε Bytes)).Finished := by
  rw [readExact, readExactFrom_succ]
  rintro ⟨x, hx⟩
  cases hx

theorem not_finished_writeAll (onZero onTimeout onFault : ε) (b : UInt8) (bs : Bytes) :
    ¬ (writeAll onZero onTimeout onFault (b :: bs) : Proc E R (Except ε Unit)).Finished := by
  rw [writeAll_cons]
  rintro ⟨x, hx⟩
  cases hx

theorem step_readExact_one {onEof onTimeout onFault : ε} {a : Act E R}
    {q : Proc E R (Except ε Bytes)} (hs : (readExact onEof onTimeout onFault 1).Step a q) :
    (∃ b, a = .recv (.data [b]) ∧ q = .ret (.ok [b])) ∨
      ∃ r e, a = .recv r ∧ (∀ b bs, r ≠ .data (b :: bs)) ∧ q = .ret (.error e) ∧
        (e = onEof ∨ e = onTimeout ∨ e = onFault) := by
  rw [readExact, readExactFrom_succ] at hs
  cases hs with
  | @read _ _ r hfits =>
    cases r with
    | data bs =>
      cases bs with
      | nil => exact .inr ⟨_, _, rfl, by simp, rfl, .inl rfl⟩
      | cons b bs =>
        have hnil : bs = [] := by
          have hlen : (b :: bs).length ≤ 1 := hfits
          rw [List.length_cons] at hlen
          exact List.eq_nil_of_length_eq_zero (by omega)
        subst hnil
        refine .inl ⟨b, rfl, ?_⟩
        show readExactFrom _ _ _ _ 0 = _
        rw [readExactFrom_zero]
        rfl
    | timeout => exact .inr ⟨_, _, rfl, by simp, rfl, .inr (.inl rfl)⟩
    | fault => exact .inr ⟨_, _, rfl, by simp, rfl, .inr (.inr rfl)⟩

theorem step_writeAll_one {onZero onTimeout onFault : ε} {b : UInt8} {a : Act E R}
    {q : Proc E R (Except ε Unit)} (hs : (writeAll onZero onTimeout onFault [b]).Step a q) :
    (a = .send [b] (.wrote 1) ∧ q = .ret (.ok ())) ∨
      ∃ r e, a = .send [b] r ∧ (∀ m, r ≠ .wrote (m + 1)) ∧ q = .ret (.error e) := by
  rw [writeAll_cons] at hs
  cases hs with
  | @write _ _ r hfits =>
    cases r with
    | wrote m =>
      cases m with
      | zero => exact .inr ⟨_, _, rfl, by simp, rfl⟩
      | succ m =>
        have hone : m = 0 := by
          have hlen : m + 1 ≤ 1 := hfits
          omega
        subst hone
        refine .inl ⟨rfl, ?_⟩
        show writeAll _ _ _ (List.drop 0 []) = _
        rw [List.drop_nil, writeAll_nil]
    | timeout => exact .inr ⟨_, _, rfl, by simp, rfl⟩
    | fault => exact .inr ⟨_, _, rfl, by simp, rfl⟩

theorem readExact_one (onEof onTimeout onFault : ε)
    (b : UInt8) : (readExact onEof onTimeout onFault 1 : Proc E R (Except ε Bytes)).Step
      (.recv (.data [b])) (.ret (.ok [b])) := by
  have hstep : ∃ q, (readExact onEof onTimeout onFault 1 : Proc E R (Except ε Bytes)).Step
      (.recv (.data [b])) q := by
    rw [readExact, readExactFrom_succ]
    exact ⟨_, .read (Nat.le_refl 1)⟩
  obtain ⟨q, hs⟩ := hstep
  rcases step_readExact_one hs with ⟨b', ha, rfl⟩ | ⟨r, e, ha, hne, -⟩
  · cases ha
    exact hs
  · cases ha
    exact absurd rfl (hne b [])

theorem writeAll_one (onZero onTimeout onFault : ε)
    (b : UInt8) : (writeAll onZero onTimeout onFault [b] : Proc E R (Except ε Unit)).Step
      (.send [b] (.wrote 1)) (.ret (.ok ())) := by
  have hstep : ∃ q, (writeAll onZero onTimeout onFault [b] : Proc E R (Except ε Unit)).Step
      (.send [b] (.wrote 1)) q := by
    rw [writeAll_cons]
    exact ⟨_, .write (Nat.le_refl 1)⟩
  obtain ⟨q, hs⟩ := hstep
  rcases step_writeAll_one hs with ⟨-, rfl⟩ | ⟨r, e, ha, hne, -⟩
  · exact hs
  · cases ha
    exact absurd rfl (hne 0)

/-! ## The loops in a synchronous run -/

section Synchronous

variable {f : (e : E₁) → R₁ e} {g : (e : E₂) → R₂ e} {a : α} {b : β}
variable {la l : Calls E₁ R₁} {lb l' : Calls E₂ R₂} {ε₁ ε₂ : Type}

/-- A `write_all` opposite a `read_exact` of the same length hands over the
buffer. -/
theorem sync_writeAll_readExactFrom {onZero onTimeout onFault : ε₁}
    {onEof onTimeout' onFault' : ε₂} {k : Except ε₁ Unit → Proc E₁ R₁ α}
    {k' : Except ε₂ Bytes → Proc E₂ R₂ β} {bs acc : Bytes}
    (h : Sync f g a b la lb (k (.ok ())) l (k' (.ok (acc ++ bs))) l') :
    Sync f g a b la lb (Proc.bind (writeAll onZero onTimeout onFault bs) k) l
      (Proc.bind (readExactFrom onEof onTimeout' onFault' acc bs.length) k') l' := by
  induction bs generalizing acc with
  | nil =>
    rw [writeAll_nil, List.length_nil, readExactFrom_zero]
    rw [List.append_nil] at h
    exact h
  | cons c bs ih =>
    rw [writeAll_cons, List.length_cons, readExactFrom_succ]
    refine .toRight (ih ?_)
    simpa using h

theorem sync_writeAll_readExact {onZero onTimeout onFault : ε₁}
    {onEof onTimeout' onFault' : ε₂} {k : Except ε₁ Unit → Proc E₁ R₁ α}
    {k' : Except ε₂ Bytes → Proc E₂ R₂ β} {bs : Bytes} {n : Nat} (hn : n = bs.length)
    (h : Sync f g a b la lb (k (.ok ())) l (k' (.ok bs)) l') :
    Sync f g a b la lb (Proc.bind (writeAll onZero onTimeout onFault bs) k) l
      (Proc.bind (readExact onEof onTimeout' onFault' n) k') l' := by
  rw [readExact, hn]
  exact sync_writeAll_readExactFrom h

end Synchronous

/-! ## The loops on a stream followed by end of stream -/

section Feeding

variable {f : (e : E) → R e}

/-- However its calls are cut, `write_all` succeeds. -/
theorem feeds_writeAll {onZero onTimeout onFault : ε}
    {Q : Bytes → Calls E R → Except ε Unit → Prop} {bs x : Bytes} {l : Calls E R}
    (h : Q x l (.ok ())) :
    Proc.feeds f Q (writeAll onZero onTimeout onFault bs) x l := by
  induction hlen : bs.length using Nat.strongRecOn generalizing bs with
  | _ len ih =>
    cases bs with
    | nil => rw [writeAll_nil]; exact h
    | cons c bs =>
      rw [writeAll_cons]
      intro m hm hle
      obtain ⟨m, rfl⟩ : ∃ m', m = m' + 1 := ⟨m - 1, by omega⟩
      refine ih (bs.drop m).length ?_ rfl
      simp only [List.length_drop, List.length_cons] at hlen ⊢
      omega

/-- However the stream is cut, `read_exact` returns its first `n` bytes, or
reports end of stream with the stream used up. -/
theorem feeds_readExactFrom {onEof onTimeout onFault : ε}
    {Q : Bytes → Calls E R → Except ε Bytes → Prop} {acc x : Bytes} {n : Nat}
    {l : Calls E R}
    (hok : n ≤ x.length → Q (x.drop n) l (.ok (acc ++ x.take n)))
    (heof : x.length < n → Q [] l (.error onEof)) :
    Proc.feeds f Q (readExactFrom onEof onTimeout onFault acc n) x l := by
  induction n using Nat.strongRecOn generalizing acc x with
  | _ n ih =>
    cases n with
    | zero =>
      rw [readExactFrom_zero]
      show Q x l (.ok acc)
      simpa using hok (Nat.zero_le _)
    | succ n =>
      rw [readExactFrom_succ]
      constructor
      · intro hx
        subst hx
        exact heof (Nat.succ_pos n)
      · intro y z hxy hy hlen
        subst hxy
        cases y with
        | nil => exact absurd rfl hy
        | cons c y =>
          simp only [List.length_cons] at hlen
          refine ih (n - y.length) (by omega) ?_ ?_
          · intro hz
            have := hok (by simp only [List.length_append, List.length_cons]; omega)
            have hd : (c :: y ++ z).drop (n + 1) = z.drop (n - y.length) := by
              rw [List.cons_append, List.drop_succ_cons, List.drop_append,
                List.drop_eq_nil_of_le (by omega), List.nil_append]
            have ht : (c :: y ++ z).take (n + 1) = c :: y ++ z.take (n - y.length) := by
              rw [List.cons_append, List.take_succ_cons, List.take_append,
                List.take_of_length_le (by omega)]
              rfl
            rw [hd, ht] at this
            simpa using this
          · intro hz
            exact heof (by simp only [List.length_append, List.length_cons]; omega)

theorem feeds_readExact {onEof onTimeout onFault : ε}
    {Q : Bytes → Calls E R → Except ε Bytes → Prop} {x : Bytes} {n : Nat} {l : Calls E R}
    (hok : n ≤ x.length → Q (x.drop n) l (.ok (x.take n)))
    (heof : x.length < n → Q [] l (.error onEof)) :
    Proc.feeds f Q (readExact onEof onTimeout onFault n) x l :=
  feeds_readExactFrom hok heof

end Feeding

end RustBackup.Io
