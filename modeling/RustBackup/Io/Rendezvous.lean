/-
  Io/Rendezvous.lean --- from one synchronous run to every asynchronous one.

  WHAT THIS FILE IS FOR.  Two tasks that never talk at the same time have one
  obvious run: byte by byte, the sender hands over and the receiver takes
  (`Sync`).  Over a bounded stream they have very many, because reads and writes
  may be cut anywhere and the sender may run ahead by as much as the queue
  holds.  `Sync.inevitable` says that the obvious run decides all the others:
  whatever the capacities (at least one byte each), the interleaving and the
  fragmentation, both tasks return, with the same results and the same calls.

  THE TWO CONDITIONS.  `Coalescing` says that a task does not notice where its
  transfers were cut: a partial answer leaves it at the same call with the rest
  of the buffer.  Loops of the `read_exact` and `write_all` kind have this
  property.  The calls out must be answered by functions, since a run whose
  replies vary has no single outcome.

  THE INVARIANT.  In every reachable state one direction is empty, and the task
  that lags behind would, after reading what is queued for it, stand opposite
  the other task in a synchronous run (`Net.InSync`).
-/
import RustBackup.Io.Duplex

set_option autoImplicit false

namespace RustBackup.Io

variable {E E₁ E₂ : Type} {R : E → Type} {R₁ : E₁ → Type} {R₂ : E₂ → Type}
variable {α β : Type}

/-! ## Tasks that do not notice fragmentation -/

/-- The answer of a `read` that continues one which delivered `a`. -/
def ReadRes.after (a : Bytes) : ReadRes → ReadRes
  | .data [] => .data []
  | .data (b :: bs) => .data (a ++ b :: bs)
  | .timeout => .timeout
  | .fault => .fault

/-- The answer of a `write` that continues one which took `m` bytes. -/
def WriteRes.after (m : Nat) : WriteRes → WriteRes
  | .wrote 0 => .wrote 0
  | .wrote (n + 1) => .wrote (m + (n + 1))
  | .timeout => .timeout
  | .fault => .fault

theorem ReadRes.after_data {a bs : Bytes} (h : bs ≠ []) :
    (ReadRes.data bs).after a = .data (a ++ bs) := by
  cases bs with
  | nil => exact absurd rfl h
  | cons b bs => rfl

theorem WriteRes.after_wrote {m n : Nat} (h : 0 < n) :
    (WriteRes.wrote n).after m = .wrote (m + n) := by
  cases n with
  | zero => exact absurd h (Nat.lt_irrefl 0)
  | succ n => rfl

namespace Proc

/-- A partial answer leaves the task at the same call with the rest of the
buffer, and the answers add up. -/
def Coalescing : Proc E R α → Prop
  | .ret _ => True
  | .read n k =>
      0 < n ∧
      (∀ a : Bytes, a ≠ [] → a.length < n →
        k (.data a) = .read (n - a.length) fun r => k (r.after a)) ∧
      ∀ r, r.Fits n → (k r).Coalescing
  | .write bs k =>
      bs ≠ [] ∧
      (∀ m : Nat, 0 < m → m < bs.length →
        k (.wrote m) = .write (bs.drop m) fun r => k (r.after m)) ∧
      ∀ r, r.Fits bs.length → (k r).Coalescing
  | .call _ k => ∀ r, (k r).Coalescing

theorem Coalescing.bind {p : Proc E R α} {f : α → Proc E R β} (hp : p.Coalescing)
    (hf : ∀ a, (f a).Coalescing) : (p.bind f).Coalescing := by
  induction p with
  | ret a => exact hf a
  | read n k ih =>
    refine ⟨hp.1, fun a ha hlt => ?_, fun r hr => ih r (hp.2.2 r hr)⟩
    show (k (.data a)).bind f = _
    rw [hp.2.1 a ha hlt]
    rfl
  | write bs k ih =>
    refine ⟨hp.1, fun m hm hlt => ?_, fun r hr => ih r (hp.2.2 r hr)⟩
    show (k (.wrote m)).bind f = _
    rw [hp.2.1 m hm hlt]
    rfl
  | call e k ih => exact fun r => ih r (hp r)

theorem Coalescing.step {p q : Proc E R α} {a : Act E R} (hp : p.Coalescing)
    (hs : Step p a q) : q.Coalescing := by
  cases hs with
  | read hr => exact hp.2.2 _ hr
  | write hr => exact hp.2.2 _ hr
  | call => exact hp _

end Proc

/-! ## Lagging and synchronous runs -/

/-- The calls a side has made, with their replies. -/
abbrev Calls (E : Type) (R : E → Type) : Type := List (Sigma R)

/-- `p` reads exactly the bytes `x` one by one, making calls on the way, and is
then `q`. -/
inductive Lag (f : (e : E) → R e) :
    Proc E R α → Calls E R → Bytes → Proc E R α → Calls E R → Prop where
  | refl (p : Proc E R α) (l : Calls E R) : Lag f p l [] p l
  | byte {n : Nat} {k : ReadRes → Proc E R α} {l l' : Calls E R} {b : UInt8} {x : Bytes}
      {q : Proc E R α} (h : Lag f (k (.data [b])) l x q l') :
      Lag f (.read n k) l (b :: x) q l'
  | call {e : E} {k : R e → Proc E R α} {l l' : Calls E R} {x : Bytes} {q : Proc E R α}
      (h : Lag f (k (f e)) (l ++ [⟨e, f e⟩]) x q l') : Lag f (.call e k) l x q l'

namespace Lag

variable {f : (e : E) → R e} {p q q' : Proc E R α} {l l' l'' : Calls E R} {x y : Bytes}

theorem trans (h : Lag f p l x q l') (h' : Lag f q l' y q' l'') :
    Lag f p l (x ++ y) q' l'' := by
  induction h with
  | refl p l => exact h'
  | byte _ ih => exact .byte (ih h')
  | call _ ih => exact .call (ih h')

/-- A fragmented read is a run of single bytes. -/
theorem read_data {n : Nat} {k : ReadRes → Proc E R α} {a : Bytes}
    (hc : (Proc.read n k).Coalescing) (ha : a ≠ []) (hlen : a.length ≤ n)
    (h : Lag f (.read n k) l (a ++ x) q l') : Lag f (k (.data a)) l x q l' := by
  induction a generalizing n k with
  | nil => exact absurd rfl ha
  | cons b a ih =>
    have hbyte : Lag f (k (.data [b])) l (a ++ x) q l' := by
      cases h with
      | byte h => exact h
    cases a with
    | nil => exact hbyte
    | cons b' a =>
      have hlt : [b].length < n := by simp at hlen ⊢; omega
      have hk := hc.2.1 [b] (by simp) hlt
      rw [hk] at hbyte
      have hc' : (Proc.read (n - [b].length) fun r => k (r.after [b])).Coalescing := by
        rw [← hk]
        exact hc.2.2 _ (by simp only [ReadRes.Fits]; omega)
      have := ih hc' (by simp) (by simp at hlen ⊢; omega) hbyte
      rwa [ReadRes.after_data (by simp)] at this

/-- A task that is not reading or calling does not lag. -/
theorem eq_of_kind (h : Lag f p l x q l') (hr : p.kind ≠ .read) (hcall : p.kind ≠ .call) :
    x = [] ∧ q = p ∧ l' = l := by
  cases h with
  | refl => exact ⟨rfl, rfl, rfl⟩
  | byte => exact absurd rfl hr
  | call => exact absurd rfl hcall

/-- A lagging task with nothing queued is reading only if it has caught up. -/
theorem eq_of_read_nil {n : Nat} {k : ReadRes → Proc E R α}
    (h : Lag f (.read n k) l [] q l') : q = .read n k ∧ l' = l := by
  cases h with
  | refl => exact ⟨rfl, rfl⟩

end Lag

section Synchronous

variable (f : (e : E₁) → R₁ e) (g : (e : E₂) → R₂ e) (a : α) (b : β)
variable (la : Calls E₁ R₁) (lb : Calls E₂ R₂)

/-- A synchronous run of two tasks to the results `a` and `b`, with `la` and `lb`
the calls made on the two sides: every byte is taken as soon as it is sent. -/
inductive Sync : Proc E₁ R₁ α → Calls E₁ R₁ → Proc E₂ R₂ β → Calls E₂ R₂ → Prop where
  | done : Sync (.ret a) la (.ret b) lb
  | callLeft {e : E₁} {k : R₁ e → Proc E₁ R₁ α} {l : Calls E₁ R₁} {q : Proc E₂ R₂ β}
      {l' : Calls E₂ R₂} (h : Sync (k (f e)) (l ++ [⟨e, f e⟩]) q l') :
      Sync (.call e k) l q l'
  | callRight {e : E₂} {k : R₂ e → Proc E₂ R₂ β} {l : Calls E₁ R₁} {p : Proc E₁ R₁ α}
      {l' : Calls E₂ R₂} (h : Sync p l (k (g e)) (l' ++ [⟨e, g e⟩])) :
      Sync p l (.call e k) l'
  | toRight {c : UInt8} {bs : Bytes} {n : Nat} {k : WriteRes → Proc E₁ R₁ α}
      {k' : ReadRes → Proc E₂ R₂ β} {l : Calls E₁ R₁} {l' : Calls E₂ R₂}
      (h : Sync (k (.wrote 1)) l (k' (.data [c])) l') :
      Sync (.write (c :: bs) k) l (.read n k') l'
  | toLeft {c : UInt8} {bs : Bytes} {n : Nat} {k : ReadRes → Proc E₁ R₁ α}
      {k' : WriteRes → Proc E₂ R₂ β} {l : Calls E₁ R₁} {l' : Calls E₂ R₂}
      (h : Sync (k (.data [c])) l (k' (.wrote 1)) l') :
      Sync (.read n k) l (.write (c :: bs) k') l'

end Synchronous

namespace Sync

variable {f : (e : E₁) → R₁ e} {g : (e : E₂) → R₂ e} {a : α} {b : β}
variable {la : Calls E₁ R₁} {lb : Calls E₂ R₂}
variable {p : Proc E₁ R₁ α} {q : Proc E₂ R₂ β} {l : Calls E₁ R₁} {l' : Calls E₂ R₂}

theorem swap (h : Sync f g a b la lb p l q l') : Sync g f b a lb la q l' p l := by
  induction h with
  | done => exact .done
  | callLeft _ ih => exact .callRight ih
  | callRight _ ih => exact .callLeft ih
  | toRight _ ih => exact .toLeft ih
  | toLeft _ ih => exact .toRight ih

/-- Calls of the left side commute with everything the right side does. -/
theorem call_left {e : E₁} {k : R₁ e → Proc E₁ R₁ α}
    (h : Sync f g a b la lb (.call e k) l q l') :
    Sync f g a b la lb (k (f e)) (l ++ [⟨e, f e⟩]) q l' := by
  generalize hp : Proc.call e k = p at h
  induction h with
  | done => cases hp
  | callLeft h _ => cases hp; exact h
  | callRight _ ih => exact .callRight (ih hp)
  | toRight _ _ => cases hp
  | toLeft _ _ => cases hp

/-- A side that has returned leaves its peer only calls to make. -/
theorem ret_left {x : α} (h : Sync f g a b la lb (.ret x) l q l') :
    q.kind = .ret ∨ q.kind = .call := by
  cases h with
  | done => exact .inl rfl
  | callRight _ => exact .inr rfl

/-- A reading side stands opposite a writing or calling one. -/
theorem read_left {n : Nat} {k : ReadRes → Proc E₁ R₁ α}
    (h : Sync f g a b la lb (.read n k) l q l') :
    (∃ c bs k', q = .write (c :: bs) k') ∨ q.kind = .call := by
  cases h with
  | callRight _ => exact .inr rfl
  | toLeft _ => exact .inl ⟨_, _, _, rfl⟩

/-- A writing side stands opposite a reading or calling one. -/
theorem write_left {bs : Bytes} {k : WriteRes → Proc E₁ R₁ α}
    (h : Sync f g a b la lb (.write bs k) l q l') :
    q.kind = .read ∨ q.kind = .call := by
  cases h with
  | callRight _ => exact .inr rfl
  | toRight _ => exact .inl rfl

/-- Handing over one byte. -/
theorem write_byte {c : UInt8} {bs : Bytes} {k : WriteRes → Proc E₁ R₁ α}
    (h : Sync f g a b la lb (.write (c :: bs) k) l q l') :
    ∃ q' l'', Lag g q l' [c] q' l'' ∧ Sync f g a b la lb (k (.wrote 1)) l q' l'' := by
  generalize hp : Proc.write (c :: bs) k = p at h
  induction h with
  | done => cases hp
  | callLeft _ _ => cases hp
  | callRight _ ih =>
    obtain ⟨q', l'', hlag, hsync⟩ := ih hp
    exact ⟨q', l'', .call hlag, hsync⟩
  | toRight h _ => cases hp; exact ⟨_, _, .byte (.refl _ _), h⟩
  | toLeft _ _ => cases hp

/-- A fragmented write is a run of single bytes that the peer would take. -/
theorem write_wrote {m : Nat} {bs : Bytes} {k : WriteRes → Proc E₁ R₁ α}
    (hc : (Proc.write bs k).Coalescing) (hm : 0 < m) (hle : m ≤ bs.length)
    (h : Sync f g a b la lb (.write bs k) l q l') :
    ∃ q' l'', Lag g q l' (bs.take m) q' l'' ∧
      Sync f g a b la lb (k (.wrote m)) l q' l'' := by
  induction m generalizing bs k q l' with
  | zero => exact absurd hm (Nat.lt_irrefl 0)
  | succ m ih =>
    cases bs with
    | nil => simp at hle
    | cons c bs =>
      obtain ⟨q₁, l₁, hlag, hsync⟩ := h.write_byte
      cases m with
      | zero => exact ⟨q₁, l₁, by simpa using hlag, hsync⟩
      | succ m =>
        have hlt : 1 < (c :: bs).length := by simp at hle ⊢; omega
        have hk := hc.2.1 1 (by omega) hlt
        rw [hk] at hsync
        have hc' : (Proc.write ((c :: bs).drop 1) fun r => k (r.after 1)).Coalescing := by
          rw [← hk]
          exact hc.2.2 _ (by simp only [WriteRes.Fits]; omega)
        obtain ⟨q', l'', hlag', hsync'⟩ :=
          ih hc' (by omega) (by simp at hle ⊢; omega) hsync
        refine ⟨q', l'', ?_, ?_⟩
        · simpa using hlag.trans hlag'
        · rw [WriteRes.after_wrote (by omega)] at hsync'
          rwa [Nat.add_comm] at hsync'

end Sync

/-! ## Exchanging the two sides -/

/-- The link seen from the other side. -/
def Link.swap (c : Link E₁ R₁ E₂ R₂) : Link E₂ R₂ E₁ R₁ where
  capRight := c.capLeft
  capLeft := c.capRight
  leftPolicy := c.rightPolicy
  rightPolicy := c.leftPolicy

/-- Calls are answered by `f` on the left and by `g` on the right. -/
def Link.ofReplies (capRight capLeft : Nat) (f : (e : E₁) → R₁ e) (g : (e : E₂) → R₂ e) :
    Link E₁ R₁ E₂ R₂ where
  capRight := capRight
  capLeft := capLeft
  leftPolicy := fun e r => r = f e
  rightPolicy := fun e r => r = g e

namespace Net

/-- The network seen from the other side. -/
def swap (s : Net E₁ R₁ α E₂ R₂ β) : Net E₂ R₂ β E₁ R₁ α where
  left := s.right
  right := s.left
  toRight := s.toLeft
  toLeft := s.toRight
  leftHist := s.rightHist
  rightHist := s.leftHist

theorem Step.swap {c : Link E₁ R₁ E₂ R₂} {s s' : Net E₁ R₁ α E₂ R₂ β}
    (h : Step c s s') : Step c.swap s.swap s'.swap := by
  cases h with
  | left hs ha => exact .right (s := s.swap) hs ha
  | right hs ha => exact .left (s := s.swap) hs ha

/-! ## The invariant of asynchronous runs -/

section Invariant

variable (f : (e : E₁) → R₁ e) (g : (e : E₂) → R₂ e) (a : α) (b : β)
variable (la : Calls E₁ R₁) (lb : Calls E₂ R₂)

/-- The right side lags: nothing is queued for the left side, and once the right
side has read its queue the two stand opposite each other. -/
def RightLags (s : Net E₁ R₁ α E₂ R₂ β) : Prop :=
  s.toLeft = [] ∧ ∃ q l, Lag g s.right s.rightHist.calls s.toRight q l ∧
    Sync f g a b la lb s.left s.leftHist.calls q l

/-- One of the two sides lags behind a synchronous run to `a` and `b`. -/
structure InSync (s : Net E₁ R₁ α E₂ R₂ β) : Prop where
  left : s.left.Coalescing
  right : s.right.Coalescing
  lags : RightLags f g a b la lb s ∨ RightLags g f b a lb la s.swap

variable {f g a b la lb}

/-- The lagging invariant survives a step of the side that is ahead. -/
theorem RightLags.left_step {capRight capLeft : Nat} {s : Net E₁ R₁ α E₂ R₂ β}
    {act : Act E₁ R₁} {p : Proc E₁ R₁ α} {inq outq : Bytes}
    (h : RightLags f g a b la lb s) (hc : s.left.Coalescing) (hs : s.left.Step act p)
    (ha : Allowed (Link.ofReplies capRight capLeft f g).leftPolicy capRight
      s.right.Finished s.toLeft inq s.toRight outq act) :
    RightLags f g a b la lb { s with left := p, toLeft := inq, toRight := outq,
                                     leftHist := s.leftHist ++ [act] } := by
  obtain ⟨hnil, q, l, hlag, hsync⟩ := h
  -- A peer that has returned has caught up, so the synchronous run is at its end.
  have hdone : s.right.Finished → q.kind = .ret := fun hf => by
    obtain ⟨y, hy⟩ := hf
    rw [hy] at hlag
    rw [(hlag.eq_of_kind (by simp [Proc.kind]) (by simp [Proc.kind])).2.1]
    rfl
  generalize hl : s.left = left at hc hs hsync
  cases hs with
  | @read n k r hfit =>
    cases r with
    | data bs =>
      cases bs with
      | nil =>
        have hq := hdone ha.1
        rcases hsync.read_left with ⟨_, _, _, rfl⟩ | hcall
        · simp [Proc.kind] at hq
        · rw [hcall] at hq; cases hq
      | cons x xs =>
        have := ha.1
        rw [hnil] at this
        simp at this
    | timeout => exact ha.elim
    | fault => exact ha.elim
  | @write bs k r hfit =>
    cases r with
    | wrote m =>
      obtain ⟨hm, -, -, hin, hout⟩ := ha
      obtain ⟨q', l'', hlag', hsync'⟩ := hsync.write_wrote hc hm hfit
      refine ⟨by rw [← hnil]; exact hin, q', l'', ?_, ?_⟩
      · show Lag g s.right s.rightHist.calls outq q' l''
        rw [hout]
        exact hlag.trans hlag'
      · show Sync f g a b la lb (k (.wrote m)) (Hist.calls (s.leftHist ++ [_])) q' l''
        simpa using hsync'
    | timeout => exact ha.elim
    | fault =>
      have hq := hdone ha.1
      rcases hsync.write_left with hread | hcall
      · rw [hread] at hq; cases hq
      · rw [hcall] at hq; cases hq
  | @call e k r =>
    obtain ⟨hr, hin, hout⟩ := ha
    have hr : r = f e := hr
    subst hr
    refine ⟨by rw [← hnil]; exact hin, q, l, ?_, ?_⟩
    · show Lag g s.right s.rightHist.calls outq q l
      rw [hout]
      exact hlag
    · show Sync f g a b la lb (k (f e)) (Hist.calls (s.leftHist ++ [_])) q l
      simpa using hsync.call_left

/-- A step of the lagging side either catches up or, when there is nothing left
to catch up on, puts it ahead. -/
theorem RightLags.right_step {capRight capLeft : Nat} {s : Net E₁ R₁ α E₂ R₂ β}
    {act : Act E₂ R₂} {q' : Proc E₂ R₂ β} {inq outq : Bytes}
    (h : RightLags f g a b la lb s) (hc : s.right.Coalescing) (hs : s.right.Step act q')
    (ha : Allowed (Link.ofReplies capRight capLeft f g).rightPolicy capLeft
      s.left.Finished s.toRight inq s.toLeft outq act) :
    RightLags f g a b la lb { s with right := q', toRight := inq, toLeft := outq,
                                     rightHist := s.rightHist ++ [act] } ∨
    RightLags g f b a lb la
      (Net.swap { s with right := q', toRight := inq, toLeft := outq,
                         rightHist := s.rightHist ++ [act] }) := by
  obtain ⟨hnil, q, l, hlag, hsync⟩ := h
  generalize hr : s.right = right at hc hs hlag
  cases hs with
  | @read n k r hfit =>
    cases r with
    | data bs =>
      cases bs with
      | nil =>
        obtain ⟨⟨x, hx⟩, hin, -, -⟩ := ha
        rw [hin] at hlag
        obtain ⟨rfl, rfl⟩ := hlag.eq_of_read_nil
        rw [hx] at hsync
        rcases hsync.ret_left with h | h <;> simp [Proc.kind] at h
      | cons y ys =>
        left
        obtain ⟨hin, hout⟩ := ha
        refine ⟨by rw [← hnil]; exact hout, q, l, ?_, hsync⟩
        show Lag g (k (.data (y :: ys))) (Hist.calls (s.rightHist ++ [_])) inq q l
        rw [hin] at hlag
        simpa using hlag.read_data hc (by simp) hfit
    | timeout => exact ha.elim
    | fault => exact ha.elim
  | @write bs k r hfit =>
    obtain ⟨hx, rfl, rfl⟩ := hlag.eq_of_kind (by simp [Proc.kind]) (by simp [Proc.kind])
    cases r with
    | wrote m =>
      right
      obtain ⟨hm, -, -, hin, hout⟩ := ha
      obtain ⟨p', l'', hlag', hsync'⟩ := hsync.swap.write_wrote hc hm hfit
      refine ⟨by rw [← hx]; exact hin, p', l'', ?_, ?_⟩
      · show Lag f s.left s.leftHist.calls outq p' l''
        rw [hout, hnil]
        exact hlag'
      · show Sync g f b a lb la (k (.wrote m)) (Hist.calls (s.rightHist ++ [_])) p' l''
        simpa using hsync'
    | timeout => exact ha.elim
    | fault =>
      obtain ⟨⟨x, hleft⟩, -, -⟩ := ha
      rw [hleft] at hsync
      rcases hsync.ret_left with h | h <;> simp [Proc.kind] at h
  | @call e k r =>
    left
    obtain ⟨hrep, hin, hout⟩ := ha
    have hrep : r = g e := hrep
    subst hrep
    have hlag' : ∃ q₁ l₁, Lag g (k (g e)) (s.rightHist.calls ++ [⟨e, g e⟩]) s.toRight q₁ l₁ ∧
        Sync f g a b la lb s.left s.leftHist.calls q₁ l₁ := by
      generalize s.toRight = x at hlag
      cases hlag with
      | refl => exact ⟨_, _, .refl _ _, hsync.swap.call_left.swap⟩
      | call h => exact ⟨q, l, h, hsync⟩
    obtain ⟨q₁, l₁, hlag₁, hsync₁⟩ := hlag'
    refine ⟨by rw [← hnil]; exact hout, q₁, l₁, ?_, hsync₁⟩
    show Lag g (k (g e)) (Hist.calls (s.rightHist ++ [_])) inq q₁ l₁
    rw [hin]
    simpa using hlag₁

/-- The lagging invariant survives every step, up to which side lags. -/
theorem RightLags.step {capRight capLeft : Nat} {s s' : Net E₁ R₁ α E₂ R₂ β}
    (h : RightLags f g a b la lb s) (hl : s.left.Coalescing) (hr : s.right.Coalescing)
    (hs : Step (Link.ofReplies capRight capLeft f g) s s') :
    RightLags f g a b la lb s' ∨ RightLags g f b a lb la s'.swap := by
  cases hs with
  | left hs ha => exact .inl (h.left_step hl hs ha)
  | right hs ha => exact h.right_step hr hs ha

theorem InSync.step {capRight capLeft : Nat} {s s' : Net E₁ R₁ α E₂ R₂ β}
    (h : InSync f g a b la lb s)
    (hs : Step (Link.ofReplies capRight capLeft f g) s s') :
    InSync f g a b la lb s' := by
  have hlags : RightLags f g a b la lb s' ∨ RightLags g f b a lb la s'.swap := by
    rcases h.lags with hlags | hlags
    · exact hlags.step h.left h.right hs
    · exact (hlags.step h.right h.left hs.swap).symm
  cases hs with
  | left hs _ => exact ⟨h.left.step hs, h.right, hlags⟩
  | right hs _ => exact ⟨h.left, h.right.step hs, hlags⟩

/-! ## Progress -/

/-- A side that is about to call can do so. -/
theorem exists_step_of_call_left {capRight capLeft : Nat} {s : Net E₁ R₁ α E₂ R₂ β}
    (h : s.left.kind = .call) :
    ∃ s', Step (Link.ofReplies capRight capLeft f g) s s' := by
  cases hl : s.left with
  | ret x => rw [hl] at h; cases h
  | read n k => rw [hl] at h; cases h
  | write bs k => rw [hl] at h; cases h
  | call e k =>
    refine ⟨_, .left (a := .call e (f e)) (i := s.toLeft) (o := s.toRight)
      (by rw [hl]; exact .call) ?_⟩
    exact ⟨rfl, rfl, rfl⟩

theorem exists_step_of_call_right {capRight capLeft : Nat} {s : Net E₁ R₁ α E₂ R₂ β}
    (h : s.right.kind = .call) :
    ∃ s', Step (Link.ofReplies capRight capLeft f g) s s' := by
  obtain ⟨s', hs⟩ : ∃ s', Step (Link.ofReplies capLeft capRight g f) s.swap s' :=
    exists_step_of_call_left h
  exact ⟨s'.swap, hs.swap⟩

/-- A side that is about to write can do so when there is room and its peer is
still there. -/
theorem exists_step_of_write_left {c : Link E₁ R₁ E₂ R₂} {s : Net E₁ R₁ α E₂ R₂ β}
    {bs : Bytes} {k : WriteRes → Proc E₁ R₁ α} (h : s.left = .write bs k) (hbs : bs ≠ [])
    (hroom : s.toRight.length < c.capRight) (hpeer : ¬ s.right.Finished) :
    ∃ s', Step c s s' := by
  have hlen : 1 ≤ bs.length := List.length_pos_iff.mpr hbs
  refine ⟨_, .left (a := .send bs (.wrote 1)) (i := s.toLeft)
    (o := s.toRight ++ bs.take 1) (by rw [h]; exact .write hlen) ?_⟩
  exact ⟨Nat.one_pos, hpeer, hroom, rfl, rfl⟩

/-- A side that is about to read can do so when something is queued for it. -/
theorem exists_step_of_read_right {c : Link E₁ R₁ E₂ R₂} {s : Net E₁ R₁ α E₂ R₂ β}
    {n : Nat} {k : ReadRes → Proc E₂ R₂ β} (h : s.right = .read n k) (hn : 0 < n)
    (hq : s.toRight ≠ []) : ∃ s', Step c s s' := by
  cases hx : s.toRight with
  | nil => exact absurd hx hq
  | cons x xs =>
    refine ⟨_, .right (a := .recv (.data [x])) (i := xs) (o := s.toLeft)
      (by rw [h]; exact .read hn) ?_⟩
    exact ⟨hx, rfl⟩

/-- While one side lags, an unfinished network can step: with a byte queued the
lagging side reads it, with none queued the synchronous run names the step. -/
theorem RightLags.progress {capRight capLeft : Nat} (hcr : 0 < capRight)
    (hcl : 0 < capLeft) {s : Net E₁ R₁ α E₂ R₂ β} (h : RightLags f g a b la lb s)
    (hl : s.left.Coalescing) (hr : s.right.Coalescing) :
    s.Final ∨ ∃ s', Step (Link.ofReplies capRight capLeft f g) s s' := by
  obtain ⟨hnil, q, l, hlag, hsync⟩ := h
  by_cases hcallL : s.left.kind = .call
  · exact .inr (exists_step_of_call_left hcallL)
  by_cases hcallR : s.right.kind = .call
  · exact .inr (exists_step_of_call_right hcallR)
  cases hright : s.right with
  | call e k => rw [hright] at hcallR; exact absurd rfl hcallR
  | read n k =>
    rw [hright] at hr hlag
    by_cases hq : s.toRight = []
    · rw [hq] at hlag
      obtain ⟨rfl, rfl⟩ := hlag.eq_of_read_nil
      cases hleft : s.left with
      | call e k => rw [hleft] at hcallL; exact absurd rfl hcallL
      | ret x =>
        rw [hleft] at hsync
        rcases hsync.ret_left with h | h <;> simp [Proc.kind] at h
      | read n' k' =>
        rw [hleft] at hsync
        rcases hsync.read_left with ⟨_, _, _, h⟩ | h
        · cases h
        · simp [Proc.kind] at h
      | write bs k' =>
        rw [hleft] at hl
        refine .inr (exists_step_of_write_left hleft hl.1 ?_ ?_)
        · rw [hq]; exact hcr
        · simp [hright, Proc.kind]
    · exact .inr (exists_step_of_read_right hright hr.1 hq)
  | write bs k =>
    rw [hright] at hr hlag
    obtain ⟨hx, rfl, rfl⟩ := hlag.eq_of_kind (by simp [Proc.kind]) (by simp [Proc.kind])
    cases hleft : s.left with
    | call e k => rw [hleft] at hcallL; exact absurd rfl hcallL
    | ret x =>
      rw [hleft] at hsync
      rcases hsync.ret_left with h | h <;> simp [Proc.kind] at h
    | write bs' k' =>
      rw [hleft] at hsync
      rcases hsync.write_left with h | h <;> simp [Proc.kind] at h
    | read n k' =>
      obtain ⟨s', hs⟩ := exists_step_of_write_left
        (c := Link.ofReplies capLeft capRight g f) (s := s.swap) hright hr.1
        (by show s.toLeft.length < capLeft; rw [hnil]; exact hcl)
        (by simp [Net.swap, hleft, Proc.kind])
      exact .inr ⟨s'.swap, hs.swap⟩
  | ret y =>
    rw [hright] at hlag
    obtain ⟨hx, rfl, rfl⟩ := hlag.eq_of_kind (by simp [Proc.kind]) (by simp [Proc.kind])
    rcases hsync.swap.ret_left with h | h
    · exact .inl ⟨by simpa using h, by rw [hright]; exact ⟨y, rfl⟩⟩
    · exact absurd h hcallL

/-- In a finished state both sides have the results of the synchronous run. -/
theorem RightLags.final {s : Net E₁ R₁ α E₂ R₂ β} (h : RightLags f g a b la lb s)
    (hf : s.Final) :
    s.left = .ret a ∧ s.right = .ret b ∧ s.leftHist.calls = la ∧ s.rightHist.calls = lb := by
  obtain ⟨-, q, l, hlag, hsync⟩ := h
  obtain ⟨⟨x, hx⟩, ⟨y, hy⟩⟩ := hf
  rw [hy] at hlag
  obtain ⟨-, rfl, rfl⟩ := hlag.eq_of_kind (by simp [Proc.kind]) (by simp [Proc.kind])
  rw [hx] at hsync ⊢
  rw [hy]
  generalize s.leftHist.calls = l₁ at hsync ⊢
  generalize s.rightHist.calls = l₂ at hsync ⊢
  cases hsync
  exact ⟨rfl, rfl, rfl, rfl⟩

end Invariant

end Net

/-- One synchronous run decides every asynchronous run: over queues of any
capacity from one byte up, however the tasks interleave and wherever reads and
writes are cut, both tasks return, with the results and the calls of the
synchronous run. -/
theorem Sync.inevitable {f : (e : E₁) → R₁ e} {g : (e : E₂) → R₂ e} {a : α} {b : β}
    {la : Calls E₁ R₁} {lb : Calls E₂ R₂} {p : Proc E₁ R₁ α} {q : Proc E₂ R₂ β}
    {capRight capLeft : Nat} (hcr : 0 < capRight) (hcl : 0 < capLeft)
    (hp : p.Coalescing) (hq : q.Coalescing) (h : Sync f g a b la lb p [] q []) :
    Net.Inevitable (Link.ofReplies capRight capLeft f g)
      (fun s => s.left = .ret a ∧ s.right = .ret b ∧
        s.leftHist.calls = la ∧ s.rightHist.calls = lb) (Net.init p q) := by
  refine Net.inevitable (Link.ofReplies capRight capLeft f g)
    (Net.InSync f g a b la lb) (fun s s' hs hstep => hs.step hstep) ?_ ?_ ?_
  · intro s hs
    rcases hs.lags with hlags | hlags
    · exact hlags.progress hcr hcl hs.left hs.right
    · rcases hlags.progress hcl hcr hs.right hs.left with hf | ⟨s', hstep⟩
      · exact .inl ⟨hf.2, hf.1⟩
      · exact .inr ⟨s'.swap, hstep.swap⟩
  · intro s hs hf
    rcases hs.lags with hlags | hlags
    · exact hlags.final hf
    · obtain ⟨h1, h2, h3, h4⟩ := hlags.final ⟨hf.2, hf.1⟩
      exact ⟨h2, h1, h4, h3⟩
  · exact ⟨hp, hq, .inl ⟨rfl, q, [], .refl q [], h⟩⟩

/-! ## Inside a network whose callees are free

A run in which the callees happened to answer like `f` and `g` is a run of the
network in which they always do. -/

theorem Sync.eq_of_ret {f : (e : E₁) → R₁ e} {g : (e : E₂) → R₂ e} {a x : α} {b : β}
    {la l : Calls E₁ R₁} {lb l' : Calls E₂ R₂} {q : Proc E₂ R₂ β}
    (h : Sync f g a b la lb (.ret x) l q l') : x = a := by
  generalize hp : Proc.ret x = p at h
  induction h with
  | done => cases hp; rfl
  | callLeft _ _ => cases hp
  | callRight _ ih => exact ih hp
  | toRight _ _ => cases hp
  | toLeft _ _ => cases hp

namespace Net

variable {c : Link E₁ R₁ E₂ R₂} {f : (e : E₁) → R₁ e} {g : (e : E₂) → R₂ e}
variable {p : Proc E₁ R₁ α} {q : Proc E₂ R₂ β}

/-- Every reply so far was the one of `f` or `g`. -/
structure Answered (f : (e : E₁) → R₁ e) (g : (e : E₂) → R₂ e)
    (s : Net E₁ R₁ α E₂ R₂ β) : Prop where
  left : ∀ e r, Act.call e r ∈ s.leftHist → r = f e
  right : ∀ e r, Act.call e r ∈ s.rightHist → r = g e

theorem Reach.ofReplies {s : Net E₁ R₁ α E₂ R₂ β} (hr : Reach c p q s) (ha : Answered f g s) :
    Reach (Link.ofReplies c.capRight c.capLeft f g) p q s := by
  induction hr with
  | init => exact .init
  | @step s s' _ hs ih =>
    cases hs with
    | @left act p' i o hs hallowed =>
      refine .step (ih ⟨fun e r hm => ha.left e r (List.mem_append_left _ hm), ha.right⟩)
        (.left hs (allowed_congr hallowed ?_))
      rintro e r rfl
      exact ha.left e r (List.mem_append_right _ (List.mem_singleton_self _))
    | @right act q' i o hs hallowed =>
      refine .step (ih ⟨ha.left, fun e r hm => ha.right e r (List.mem_append_left _ hm)⟩)
        (.right hs (allowed_congr hallowed ?_))
      rintro e r rfl
      exact ha.right e r (List.mem_append_right _ (List.mem_singleton_self _))

/-- Every call gets some reply. -/
structure Answers (c : Link E₁ R₁ E₂ R₂) : Prop where
  left : ∀ e, ∃ r, c.leftPolicy e r
  right : ∀ e, ∃ r, c.rightPolicy e r

/-- Whether a step is possible does not depend on what the callees answer. -/
theorem Step.answered {s s' : Net E₁ R₁ α E₂ R₂ β} (hans : Answers c)
    (hs : Step (Link.ofReplies c.capRight c.capLeft f g) s s') : ∃ s'', Step c s s'' := by
  cases hs with
  | @left act p' i o hs hallowed =>
    generalize hp : s.left = p₀ at hs
    cases hs with
    | read hfit =>
      exact ⟨_, .left (by rw [hp]; exact .read hfit)
        (allowed_congr hallowed fun e r h => by cases h)⟩
    | write hfit =>
      exact ⟨_, .left (by rw [hp]; exact .write hfit)
        (allowed_congr hallowed fun e r h => by cases h)⟩
    | @call e k r =>
      obtain ⟨r', hr'⟩ := hans.left e
      exact ⟨_, .left (a := .call e r') (by rw [hp]; exact .call) ⟨hr', hallowed.2⟩⟩
  | @right act q' i o hs hallowed =>
    generalize hq : s.right = q₀ at hs
    cases hs with
    | read hfit =>
      exact ⟨_, .right (by rw [hq]; exact .read hfit)
        (allowed_congr hallowed fun e r h => by cases h)⟩
    | write hfit =>
      exact ⟨_, .right (by rw [hq]; exact .write hfit)
        (allowed_congr hallowed fun e r h => by cases h)⟩
    | @call e k r =>
      obtain ⟨r', hr'⟩ := hans.right e
      exact ⟨_, .right (a := .call e r') (by rw [hq]; exact .call) ⟨hr', hallowed.2⟩⟩

/-- While one side lags, a side that has returned has returned its result. -/
theorem RightLags.results {a : α} {b : β} {la : Calls E₁ R₁} {lb : Calls E₂ R₂}
    {s : Net E₁ R₁ α E₂ R₂ β} (h : RightLags f g a b la lb s) :
    (∀ x, s.left = .ret x → x = a) ∧ (∀ y, s.right = .ret y → y = b) := by
  obtain ⟨-, q', l', hlag, hsync⟩ := h
  refine ⟨fun x hx => ?_, fun y hy => ?_⟩
  · rw [hx] at hsync
    exact hsync.eq_of_ret
  · rw [hy] at hlag
    obtain ⟨-, rfl, -⟩ := hlag.eq_of_kind (by simp [Proc.kind]) (by simp [Proc.kind])
    exact hsync.swap.eq_of_ret

end Net

/-- A synchronous run decides every run that is answered like it: a side that has
returned has returned its result, and while one side has not there is a step. -/
theorem Sync.decides {c : Link E₁ R₁ E₂ R₂} {f : (e : E₁) → R₁ e} {g : (e : E₂) → R₂ e}
    {a : α} {b : β} {la : Calls E₁ R₁} {lb : Calls E₂ R₂} {p : Proc E₁ R₁ α}
    {q : Proc E₂ R₂ β} {s : Net E₁ R₁ α E₂ R₂ β} (hcr : 0 < c.capRight) (hcl : 0 < c.capLeft)
    (hans : Net.Answers c) (hp : p.Coalescing) (hq : q.Coalescing)
    (h : Sync f g a b la lb p [] q []) (hr : Net.Reach c p q s) (ha : Net.Answered f g s) :
    (∀ x, s.left = .ret x → x = a) ∧ (∀ y, s.right = .ret y → y = b) ∧
      (s.Final ∨ ∃ s', Net.Step c s s') := by
  have hin : Net.InSync f g a b la lb s := by
    have hr' := hr.ofReplies ha
    clear hr ha
    induction hr' with
    | init => exact ⟨hp, hq, .inl ⟨rfl, q, [], .refl q [], h⟩⟩
    | step _ hs ih => exact ih.step hs
  rcases hin.lags with hlags | hlags
  · refine ⟨hlags.results.1, hlags.results.2, ?_⟩
    exact (hlags.progress hcr hcl hin.left hin.right).imp id fun ⟨_, hs⟩ => hs.answered hans
  · refine ⟨hlags.results.2, hlags.results.1, ?_⟩
    rcases hlags.progress hcl hcr hin.right hin.left with hf | ⟨s', hs⟩
    · exact .inl ⟨hf.2, hf.1⟩
    · have hs' : Net.Step (Link.ofReplies c.capRight c.capLeft f g) s s'.swap := hs.swap
      exact .inr (hs'.answered hans)

end RustBackup.Io
