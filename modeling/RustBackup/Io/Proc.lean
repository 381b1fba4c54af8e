/-
  Io/Proc.lean --- tasks that talk to one end of a byte stream.

  WHAT THIS FILE IS FOR.  An asynchronous function that owns one end of a duplex
  byte stream is, seen from outside, a tree: it returns, it issues one `read` or
  one `write` system call and continues with whatever the call answered, or it
  calls out to an object it was handed and continues with the reply.  `Proc` is
  that tree.  Nothing in it fixes how much a `read` delivers or how much a
  `write` takes: the answer is the environment's choice, which is what makes
  fragmentation a quantifier and not a parameter.

  LAYOUT.  The tree and its monad come first, then fallible tasks (`Task`, the
  `?` operator), then the labelled steps and the histories they leave.  Every
  tree is well founded, so every run of a task is finite; `Proc.Child` says so.
-/
import Mathlib.Order.WellFounded

set_option autoImplicit false

namespace RustBackup.Io

/-- A finite sequence of bytes. -/
abbrev Bytes : Type := List UInt8

/-- The answer to one `read` call.  `data []` is end of stream. -/
inductive ReadRes where
  /-- these bytes were delivered; none of them means end of stream -/
  | data (bs : Bytes)
  /-- the idle timer around the call fired -/
  | timeout
  /-- the call failed -/
  | fault
  deriving DecidableEq, Repr

/-- The answer to one `write` call. -/
inductive WriteRes where
  /-- so many bytes of the buffer were taken -/
  | wrote (n : Nat)
  /-- the idle timer around the call fired -/
  | timeout
  /-- the call failed -/
  | fault
  deriving DecidableEq, Repr

/-- A `read` into a buffer of `n` bytes delivers at most `n` bytes. -/
def ReadRes.Fits (n : Nat) : ReadRes → Prop
  | .data bs => bs.length ≤ n
  | .timeout => True
  | .fault => True

/-- A `write` from a buffer of `n` bytes takes at most `n` bytes. -/
def WriteRes.Fits (n : Nat) : WriteRes → Prop
  | .wrote m => m ≤ n
  | .timeout => True
  | .fault => True

/-- A task over one end of a byte stream.  `E` names the calls it makes to other
objects and `R e` is the type of the reply to `e`. -/
inductive Proc (E : Type) (R : E → Type) (α : Type) : Type where
  /-- the task has returned `a` and dropped its end of the stream -/
  | ret (a : α)
  /-- `read` into a buffer of `n` bytes -/
  | read (n : Nat) (k : ReadRes → Proc E R α)
  /-- `write` from the buffer `bs` -/
  | write (bs : Bytes) (k : WriteRes → Proc E R α)
  /-- call out -/
  | call (e : E) (k : R e → Proc E R α)

namespace Proc

variable {E : Type} {R : E → Type} {α β γ : Type}

/-- Sequencing. -/
def bind : Proc E R α → (α → Proc E R β) → Proc E R β
  | .ret a, f => f a
  | .read n k, f => .read n fun r => (k r).bind f
  | .write bs k, f => .write bs fun r => (k r).bind f
  | .call e k, f => .call e fun r => (k r).bind f

@[simp] theorem ret_bind (a : α) (f : α → Proc E R β) :
    (Proc.ret a).bind f = f a := rfl

@[simp] theorem read_bind (n : Nat) (k : ReadRes → Proc E R α) (f : α → Proc E R β) :
    (Proc.read n k).bind f = .read n fun r => (k r).bind f := rfl

@[simp] theorem write_bind (bs : Bytes) (k : WriteRes → Proc E R α)
    (f : α → Proc E R β) :
    (Proc.write bs k).bind f = .write bs fun r => (k r).bind f := rfl

@[simp] theorem call_bind (e : E) (k : R e → Proc E R α) (f : α → Proc E R β) :
    (Proc.call e k).bind f = .call e fun r => (k r).bind f := rfl

theorem bind_assoc (p : Proc E R α) (f : α → Proc E R β) (g : β → Proc E R γ) :
    (p.bind f).bind g = p.bind fun a => (f a).bind g := by
  induction p with
  | ret a => rfl
  | read n k ih => simp only [read_bind, ih]
  | write bs k ih => simp only [write_bind, ih]
  | call e k ih => simp only [call_bind, ih]

/-- What a task is about to do. -/
inductive Kind where
  | ret | read | write | call
  deriving DecidableEq, Repr

/-- The kind of the root of a task. -/
def kind : Proc E R α → Kind
  | .ret _ => .ret
  | .read _ _ => .read
  | .write _ _ => .write
  | .call _ _ => .call

/-- The task has returned. -/
def Finished (p : Proc E R α) : Prop := ∃ a, p = .ret a

/-- The call a task is about to make. -/
def head? : Proc E R α → Option E
  | .call e _ => some e
  | _ => none

@[simp] theorem finished_iff_kind (p : Proc E R α) : p.Finished ↔ p.kind = .ret := by
  cases p <;> simp [Finished, kind]

end Proc

/-! ## Fallible tasks -/

/-- An `async fn` that returns `Result<α, ε>`. -/
structure Task (E : Type) (R : E → Type) (ε α : Type) : Type where
  run : Proc E R (Except ε α)

namespace Task

variable {E : Type} {R : E → Type} {ε α β : Type}

/-- `Ok(a)`. -/
def ok (a : α) : Task E R ε α := ⟨.ret (.ok a)⟩

/-- `return Err(e)`. -/
def fail (e : ε) : Task E R ε α := ⟨.ret (.error e)⟩

/-- What the `?` operator does with a result: go on, or return the error. -/
def cont (f : α → Task E R ε β) : Except ε α → Proc E R (Except ε β)
  | .ok a => (f a).run
  | .error e => .ret (.error e)

/-- Run `x`, then `f` on its value, returning early on its error. -/
def andThen (x : Task E R ε α) (f : α → Task E R ε β) : Task E R ε β :=
  ⟨x.run.bind (cont f)⟩

instance : Monad (Task E R ε) where
  pure := ok
  bind := andThen

@[simp] theorem run_ok (a : α) : (ok a : Task E R ε α).run = .ret (.ok a) := rfl

@[simp] theorem run_fail (e : ε) : (fail e : Task E R ε α).run = .ret (.error e) := rfl

@[simp] theorem run_pure (a : α) : (pure a : Task E R ε α).run = .ret (.ok a) := rfl

@[simp] theorem run_bind (x : Task E R ε α) (f : α → Task E R ε β) :
    (x >>= f).run = x.run.bind (cont f) := rfl

@[simp] theorem cont_ok (f : α → Task E R ε β) (a : α) : cont f (.ok a) = (f a).run := rfl

@[simp] theorem cont_error (f : α → Task E R ε β) (e : ε) :
    cont f (.error e) = .ret (.error e) := rfl

end Task

/-! ## Labelled steps and histories -/

/-- One completed interaction of a task with its environment. -/
inductive Act (E : Type) (R : E → Type) : Type where
  /-- a `read` call answered `r` -/
  | recv (r : ReadRes)
  /-- a `write` call on the buffer `bs` answered `r` -/
  | send (bs : Bytes) (r : WriteRes)
  /-- the call `e` was answered `r` -/
  | call (e : E) (r : R e)

namespace Act

variable {E : Type} {R : E → Type}

/-- The bytes an interaction delivered to the task. -/
def ins : Act E R → Bytes
  | .recv (.data bs) => bs
  | _ => []

/-- The bytes an interaction took from the task. -/
def outs : Act E R → Bytes
  | .send bs (.wrote m) => bs.take m
  | _ => []

/-- The call an interaction was, with its reply. -/
def call? : Act E R → Option (Sigma R)
  | .call e r => some ⟨e, r⟩
  | _ => none

end Act

/-- What a task has done so far, oldest first. -/
abbrev Hist (E : Type) (R : E → Type) : Type := List (Act E R)

namespace Hist

variable {E : Type} {R : E → Type}

/-- All bytes delivered to the task. -/
def ins (h : Hist E R) : Bytes := h.flatMap Act.ins

/-- All bytes taken from the task. -/
def outs (h : Hist E R) : Bytes := h.flatMap Act.outs

/-- All calls the task made, with their replies. -/
def calls (h : Hist E R) : List (Sigma R) := h.filterMap Act.call?

@[simp] theorem ins_nil : ins ([] : Hist E R) = [] := rfl
@[simp] theorem outs_nil : outs ([] : Hist E R) = [] := rfl
@[simp] theorem calls_nil : calls ([] : Hist E R) = [] := rfl

@[simp] theorem ins_append (h h' : Hist E R) : ins (h ++ h') = ins h ++ ins h' := by
  simp [ins]

@[simp] theorem outs_append (h h' : Hist E R) : outs (h ++ h') = outs h ++ outs h' := by
  simp [outs]

@[simp] theorem calls_append (h h' : Hist E R) :
    calls (h ++ h') = calls h ++ calls h' := by
  simp [calls]

theorem ins_singleton (a : Act E R) : ins [a] = a.ins := by simp [ins]

theorem outs_singleton (a : Act E R) : outs [a] = a.outs := by simp [outs]

@[simp] theorem ins_recv_data (bs : Bytes) : ins [(.recv (.data bs) : Act E R)] = bs := by
  simp [ins, Act.ins]

@[simp] theorem ins_recv_timeout : ins [(.recv .timeout : Act E R)] = [] := rfl
@[simp] theorem ins_recv_fault : ins [(.recv .fault : Act E R)] = [] := rfl

@[simp] theorem ins_send (bs : Bytes) (r : WriteRes) :
    ins [(.send bs r : Act E R)] = [] := rfl

@[simp] theorem ins_call (e : E) (r : R e) : ins [(.call e r : Act E R)] = [] := rfl

@[simp] theorem outs_recv (r : ReadRes) : outs [(.recv r : Act E R)] = [] := rfl

@[simp] theorem outs_send_wrote (bs : Bytes) (m : Nat) :
    outs [(.send bs (.wrote m) : Act E R)] = bs.take m := by
  simp [outs, Act.outs]

@[simp] theorem outs_send_timeout (bs : Bytes) :
    outs [(.send bs .timeout : Act E R)] = [] := rfl

@[simp] theorem outs_send_fault (bs : Bytes) :
    outs [(.send bs .fault : Act E R)] = [] := rfl

@[simp] theorem outs_call (e : E) (r : R e) : outs [(.call e r : Act E R)] = [] := rfl

@[simp] theorem calls_recv (r : ReadRes) : calls [(.recv r : Act E R)] = [] := rfl

@[simp] theorem calls_send (bs : Bytes) (r : WriteRes) :
    calls [(.send bs r : Act E R)] = [] := rfl

@[simp] theorem calls_call (e : E) (r : R e) :
    calls [(.call e r : Act E R)] = [⟨e, r⟩] := rfl

end Hist

namespace Proc

variable {E : Type} {R : E → Type} {α β : Type}

/-- One step of a task. -/
inductive Step : Proc E R α → Act E R → Proc E R α → Prop where
  | read {n : Nat} {k : ReadRes → Proc E R α} {r : ReadRes} (h : r.Fits n) :
      Step (.read n k) (.recv r) (k r)
  | write {bs : Bytes} {k : WriteRes → Proc E R α} {r : WriteRes}
      (h : r.Fits bs.length) : Step (.write bs k) (.send bs r) (k r)
  | call {e : E} {k : R e → Proc E R α} {r : R e} :
      Step (.call e k) (.call e r) (k r)

/-- A run of a task from `p` to `q` that leaves the history `h`. -/
inductive Run : Proc E R α → Hist E R → Proc E R α → Prop where
  | refl (p : Proc E R α) : Run p [] p
  | tail {p q q' : Proc E R α} {h : Hist E R} {a : Act E R}
      (hr : Run p h q) (hs : Step q a q') : Run p (h ++ [a]) q'

/-- `q` is what is left of `p` after some step. -/
def Child (q p : Proc E R α) : Prop := ∃ a, Step p a q

/-- Tasks are well-founded trees, so a task cannot step forever. -/
theorem child_wellFounded : WellFounded (Child (E := E) (R := R) (α := α)) := by
  refine ⟨fun p => ?_⟩
  induction p with
  | ret a => exact ⟨_, fun q ⟨_, h⟩ => by cases h⟩
  | read n k ih => exact ⟨_, fun q ⟨_, h⟩ => by cases h; exact ih _⟩
  | write bs k ih => exact ⟨_, fun q ⟨_, h⟩ => by cases h; exact ih _⟩
  | call e k ih => exact ⟨_, fun q ⟨_, h⟩ => by cases h; exact ih _⟩

end Proc

end RustBackup.Io
