/-
  Io/Feed.lean --- one task against a finite byte stream followed by end of
  stream.

  `Fed f p x l a x' l'` reads: `p`, given the stream `x` in some fragmentation
  and then end of stream, its writes taken in some fragmentation and its calls
  answered by `f`, returns `a` with `x'` unread; `l` and `l'` are the calls made
  before and after.  `feeds f Q p x l` is the same thing as a weakest
  precondition: every such run ends in `Q`.  `feeds_iff` connects the two, and
  the rules for `feeds` are what programs are verified with.
-/
import RustBackup.Io.Rendezvous

set_option autoImplicit false

namespace RustBackup.Io

variable {E : Type} {R : E → Type} {α β : Type}

/-- A complete run against the stream `x` and then end of stream. -/
inductive Fed (f : (e : E) → R e) :
    Proc E R α → Bytes → Calls E R → α → Bytes → Calls E R → Prop where
  | ret (a : α) (x : Bytes) (l : Calls E R) : Fed f (.ret a) x l a x l
  | data {n : Nat} {k : ReadRes → Proc E R α} {y z x' : Bytes} {l l' : Calls E R} {a : α}
      (hy : y ≠ []) (hn : y.length ≤ n) (h : Fed f (k (.data y)) z l a x' l') :
      Fed f (.read n k) (y ++ z) l a x' l'
  | eof {n : Nat} {k : ReadRes → Proc E R α} {x' : Bytes} {l l' : Calls E R} {a : α}
      (h : Fed f (k (.data [])) [] l a x' l') : Fed f (.read n k) [] l a x' l'
  | write {bs : Bytes} {k : WriteRes → Proc E R α} {m : Nat} {x x' : Bytes}
      {l l' : Calls E R} {a : α} (hm : 0 < m) (hle : m ≤ bs.length)
      (h : Fed f (k (.wrote m)) x l a x' l') : Fed f (.write bs k) x l a x' l'
  | call {e : E} {k : R e → Proc E R α} {x x' : Bytes} {l l' : Calls E R} {a : α}
      (h : Fed f (k (f e)) x (l ++ [⟨e, f e⟩]) a x' l') : Fed f (.call e k) x l a x' l'

namespace Proc

/-- Every run against the stream `x` and then end of stream ends in `Q`. -/
def feeds (f : (e : E) → R e) (Q : Bytes → Calls E R → α → Prop) :
    Proc E R α → Bytes → Calls E R → Prop
  | .ret a, x, l => Q x l a
  | .read n k, x, l =>
      (x = [] → feeds f Q (k (.data [])) [] l) ∧
      ∀ y z, x = y ++ z → y ≠ [] → y.length ≤ n → feeds f Q (k (.data y)) z l
  | .write bs k, x, l => ∀ m, 0 < m → m ≤ bs.length → feeds f Q (k (.wrote m)) x l
  | .call e k, x, l => feeds f Q (k (f e)) x (l ++ [⟨e, f e⟩])

variable {f : (e : E) → R e}

theorem feeds_bind {Q : Bytes → Calls E R → β → Prop} (p : Proc E R α)
    (g : α → Proc E R β) (x : Bytes) (l : Calls E R) :
    feeds f Q (p.bind g) x l ↔ feeds f (fun x' l' a => feeds f Q (g a) x' l') p x l := by
  induction p generalizing x l with
  | ret a => rfl
  | read n k ih => simp only [read_bind, feeds, ih]
  | write bs k ih => simp only [write_bind, feeds, ih]
  | call e k ih => simp only [call_bind, feeds, ih]

theorem feeds_mono {Q Q' : Bytes → Calls E R → α → Prop}
    (hQ : ∀ x l a, Q x l a → Q' x l a) {p : Proc E R α} {x : Bytes} {l : Calls E R}
    (hp : feeds f Q p x l) : feeds f Q' p x l := by
  induction p generalizing x l with
  | ret a => exact hQ x l a hp
  | read n k ih =>
    exact ⟨fun hx => ih _ (hp.1 hx), fun y z hxy hy hn => ih _ (hp.2 y z hxy hy hn)⟩
  | write bs k ih => exact fun m hm hle => ih _ (hp m hm hle)
  | call e k ih => exact ih _ hp

/-- `feeds` speaks about exactly the runs of `Fed`. -/
theorem feeds_iff {Q : Bytes → Calls E R → α → Prop} (p : Proc E R α) (x : Bytes)
    (l : Calls E R) :
    feeds f Q p x l ↔ ∀ a x' l', Fed f p x l a x' l' → Q x' l' a := by
  induction p generalizing x l with
  | ret a =>
    constructor
    · intro h a' x' l' hf
      cases hf
      exact h
    · intro h
      exact h a x l (.ret a x l)
  | read n k ih =>
    constructor
    · intro h a x' l' hf
      cases hf with
      | data hy hn hf => exact (ih _ _ _).mp (h.2 _ _ rfl hy hn) a x' l' hf
      | eof hf => exact (ih _ _ _).mp (h.1 rfl) a x' l' hf
    · intro h
      refine ⟨fun hx => ?_, fun y z hxy hy hn => ?_⟩
      · subst hx
        exact (ih _ _ _).mpr fun a x' l' hf => h a x' l' (.eof hf)
      · subst hxy
        exact (ih _ _ _).mpr fun a x' l' hf => h a x' l' (.data hy hn hf)
  | write bs k ih =>
    constructor
    · intro h a x' l' hf
      cases hf with
      | write hm hle hf => exact (ih _ _ _).mp (h _ hm hle) a x' l' hf
    · intro h m hm hle
      exact (ih _ _ _).mpr fun a x' l' hf => h a x' l' (.write hm hle hf)
  | call e k ih =>
    constructor
    · intro h a x' l' hf
      cases hf with
      | call hf => exact (ih _ _ _).mp h a x' l' hf
    · intro h
      exact (ih _ _ _).mpr fun a x' l' hf => h a x' l' (.call hf)

/-- A task whose calls are well formed has a run on every stream. -/
theorem exists_fed {p : Proc E R α} (hp : p.Coalescing) (x : Bytes) (l : Calls E R) :
    ∃ a x' l', Fed f p x l a x' l' := by
  induction p generalizing x l with
  | ret a => exact ⟨a, x, l, .ret a x l⟩
  | read n k ih =>
    cases x with
    | nil =>
      obtain ⟨a, x', l', h⟩ := ih (.data []) (hp.2.2 _ (Nat.zero_le n)) [] l
      exact ⟨a, x', l', .eof h⟩
    | cons b x =>
      obtain ⟨a, x', l', h⟩ := ih (.data [b]) (hp.2.2 _ hp.1) x l
      exact ⟨a, x', l', .data (y := [b]) (by simp) hp.1 h⟩
  | write bs k ih =>
    have hlen : 0 < bs.length := List.length_pos_iff.mpr hp.1
    obtain ⟨a, x', l', h⟩ := ih (.wrote 1) (hp.2.2 _ hlen) x l
    exact ⟨a, x', l', .write Nat.one_pos hlen h⟩
  | call e k ih =>
    obtain ⟨a, x', l', h⟩ := ih (f e) (hp _) x (l ++ [⟨e, f e⟩])
    exact ⟨a, x', l', .call h⟩

end Proc

end RustBackup.Io
