/-
  Io/Pipe.lean --- one direction of a reliable byte stream.

  A pipe remembers everything that was put into it and everything that was taken out
  again.  What comes out is a prefix of what went in; the structure carries that, so a
  pipe that loses, repeats or reorders bytes cannot be built.
-/
import Mathlib.Data.List.Infix
import RustBackup.Io.Proc

set_option autoImplicit false

namespace RustBackup.Io

/-- A first-in first-out pipe. -/
structure Pipe where
  put : Bytes
  taken : Bytes
  fifo : taken <+: put

namespace Pipe

/-- A new pipe. -/
def empty : Pipe := ⟨[], [], List.nil_prefix⟩

/-- More bytes go in. -/
def push (p : Pipe) (bs : Bytes) : Pipe where
  put := p.put ++ bs
  taken := p.taken
  fifo := p.fifo.trans (List.prefix_append _ _)

/-- The next bytes come out. -/
structure Pull (p : Pipe) (bs : Bytes) (p' : Pipe) : Prop where
  put : p'.put = p.put
  taken : p'.taken = p.taken ++ bs

@[simp] theorem put_empty : empty.put = [] := rfl

@[simp] theorem taken_empty : empty.taken = [] := rfl

@[simp] theorem put_push (p : Pipe) (bs : Bytes) : (p.push bs).put = p.put ++ bs := rfl

@[simp] theorem taken_push (p : Pipe) (bs : Bytes) : (p.push bs).taken = p.taken := rfl

/-- Bytes that are in can come out. -/
theorem exists_pull (p : Pipe) (bs : Bytes) (h : p.taken ++ bs <+: p.put) :
    ∃ p', p.Pull bs p' :=
  ⟨⟨p.put, p.taken ++ bs, h⟩, rfl, rfl⟩

/-- What is in the pipe and has not come out. -/
def Holds (p : Pipe) (bs : Bytes) : Prop := p.put = p.taken ++ bs

theorem Holds.push {p : Pipe} {bs : Bytes} (h : p.Holds bs) (bs' : Bytes) :
    (p.push bs').Holds (bs ++ bs') := by
  unfold Holds at h ⊢
  rw [put_push, taken_push, h, List.append_assoc]

/-- The next bytes can come out. -/
theorem Holds.exists_pull {p : Pipe} {bs bs' : Bytes} (h : p.Holds (bs ++ bs')) :
    ∃ p', p.Pull bs p' ∧ p'.Holds bs' := by
  unfold Holds at h
  rw [← List.append_assoc] at h
  obtain ⟨p', hpull⟩ := Pipe.exists_pull p bs ⟨bs', h.symm⟩
  refine ⟨p', hpull, ?_⟩
  unfold Holds
  rw [hpull.put, hpull.taken, h]

/-- All of them can. -/
theorem Holds.exists_pull_all {p : Pipe} {bs : Bytes} (h : p.Holds bs) :
    ∃ p', p.Pull bs p' ∧ p'.Holds [] := by
  rw [← List.append_nil bs] at h
  exact h.exists_pull

end Pipe

end RustBackup.Io
