/-
  Core/OneStream.lean --- a source asks its channel for one stream.

  Source: crates/rb-core/src/session.rs, `run_source`.

  `acceptNext` is the protocol of a source that may call `accept_stream` once, before
  it sends anything.  Every run of `run_source` conforms to it, whatever the module's
  `stream_out` does, because a module reaches its sink and nothing else.
-/
import RustBackup.Core.SourceLog
import RustBackup.Io.Tasks

set_option autoImplicit false

namespace RustBackup.Core

open RustBackup.Serde RustBackup.Io

/-- The protocol: the state says whether `accept_stream` has returned. -/
def acceptNext (asked : Bool) : Sigma Call.Reply → Option Bool
  | ⟨.acceptStream, _⟩ => if asked then none else some true
  | _ => some asked

/-- Anything may come next. -/
def Anything (_ : Proc.Kind) (_ : Bool) : Prop := True

/-- The task asks for no stream. -/
def Unasking {α : Type} (p : Proc Call Call.Reply α) : Prop :=
  ∀ asked, p.Conforms acceptNext Anything (fun asked' _ => asked' = asked) asked

namespace Unasking

variable {α β : Type}

theorem ret (a : α) : Unasking (.ret a : Proc Call Call.Reply α) := fun _ => rfl

theorem bind {p : Proc Call Call.Reply α} {f : α → Proc Call Call.Reply β} (hp : Unasking p)
    (hf : ∀ a, Unasking (f a)) : Unasking (p.bind f) := by
  intro asked
  apply (hp asked).bind
  rintro asked' a rfl
  exact hf a asked'

theorem call {e : Call} {k : e.Reply → Proc Call Call.Reply α} (he : e ≠ .acceptStream)
    (hk : ∀ r, Unasking (k r)) : Unasking (.call e k) := by
  intro asked
  refine ⟨trivial, fun r => ⟨asked, ?_, hk r asked⟩⟩
  cases e with
  | acceptStream => exact absurd rfl he
  | _ => rfl

theorem of_avoids {p : Proc Call Call.Reply α} (hp : p.Avoids .call) : Unasking p :=
  fun _ => Proc.conforms_of_avoids trivial trivial hp

theorem taskBind {x : Session α} {f : α → Session β} (hx : Unasking x.run)
    (hf : ∀ a, Unasking (f a).run) : Unasking (x >>= f).run := by
  apply hx.bind
  intro r
  cases r with
  | ok a => exact hf a
  | error e => exact .ret _

end Unasking

namespace Metered

variable {α β : Type}

/-- The task asks for no stream, whatever has been counted. -/
def Unasking (x : Metered α) : Prop := ∀ p, Core.Unasking (x.run p)

theorem unasking_bind {x : Metered α} {f : α → Metered β} (hx : x.Unasking)
    (hf : ∀ a, (f a).Unasking) : (x >>= f).Unasking := by
  intro p
  apply (hx p).bind
  intro o
  obtain ⟨r, p'⟩ := o
  cases r with
  | ok a => exact hf a p'
  | error e => exact .ret _

theorem unasking_lift {x : Session α} (hx : Core.Unasking x.run) :
    (monadLift x : Metered α).Unasking := fun _ => hx.bind fun _ => .ret _

theorem unasking_attempt {x : Metered α} (hx : x.Unasking) : (attempt x).Unasking :=
  fun p => (hx p).bind fun _ => .ret _

theorem unasking_ofResult (r : Result α) : (ofResult r).Unasking := fun _ => .ret _

theorem unasking_pure (a : α) : (pure a : Metered α).Unasking := fun _ => .ret _

theorem unasking_count (f : Progress → Progress) : (count f).Unasking := fun _ => .ret _

theorem unasking_bytes : bytes.Unasking := fun _ => .ret _

end Metered

/-! ## The parts of a source -/

section Parts

variable (d : Deps)

theorem unasking_mark (m : Mark) : (monadLift (mark m) : Metered Unit).Unasking :=
  Metered.unasking_lift (.call (by simp) fun _ => .ret _)

theorem unasking_sendFrame {F : Type} [Frame F] (frame : F) :
    Unasking (sendFrame d frame).run := by
  have hwrite : ∀ bs, Unasking (writeAllIdle bs).run :=
    fun bs => .of_avoids (avoids_writeAll (by simp) _ _ _ bs)
  unfold sendFrame
  simp only
  split
  · exact .ret _
  · apply (hwrite _).taskBind
    intro _
    apply (hwrite _).taskBind
    intro _
    apply Unasking.call (by simp)
    intro r
    cases r with
    | true => exact .ret _
    | false => exact .ret _

theorem unasking_recvFrame (F : Type) [Frame F] : Unasking (recvFrame F d).run := by
  apply (Unasking.of_avoids (avoids_readExact (by simp) _ _ _ 4)).bind
  intro r
  cases r with
  | error e => cases e <;> exact .ret _
  | ok lenBuf =>
    unfold recvBody
    simp only
    split
    · exact .ret _
    · apply (Unasking.of_avoids (avoids_readExact (by simp) _ _ _ _)).taskBind
      intro body
      cases decode F d body with
      | none => exact .ret _
      | some frame => exact .ret _

theorem unasking_recvAck : Unasking (recvAck d).run := by
  apply (unasking_recvFrame d ControlFrame).taskBind
  intro frame
  cases frame with
  | none => exact .ret _
  | some frame =>
    cases frame with
    | planAck accepted reason => cases accepted <;> exact .ret _
    | _ => exact .ret _

theorem unasking_sinkCall (c : SinkCall) : (c.perform d).Unasking := by
  have hsend : ∀ frame : DataFrame, (monadLift (sendFrame d frame) : Metered Unit).Unasking :=
    fun frame => Metered.unasking_lift (unasking_sendFrame d frame)
  cases c with
  | sendChunk itemId offset data =>
    simp only [SinkCall.perform, Core.sendChunk]
    split
    · exact Metered.unasking_ofResult _
    · refine Metered.unasking_bind (hsend _) fun _ => ?_
      refine Metered.unasking_bind (Metered.unasking_lift ?_) fun _ => Metered.unasking_count _
      exact .of_avoids (avoids_writeAll (by simp) _ _ _ data)
  | finishItem itemId total blake3 =>
    exact Metered.unasking_bind (hsend _) fun _ => Metered.unasking_count _
  | finish => exact hsend _

/-- A module's `stream_out` has a sink and no channel. -/
theorem unasking_streamOut (prog : SinkProg) : (prog.perform d).Unasking := by
  induction prog with
  | ret r => exact Metered.unasking_ofResult r
  | call c k ih =>
    refine Metered.unasking_bind (Metered.unasking_attempt (unasking_sinkCall d c)) fun r => ?_
    exact Metered.unasking_bind (unasking_mark _) fun _ => ih r

theorem unasking_fingerprint : (monadLift fingerprint : Metered String).Unasking :=
  Metered.unasking_lift (.call (by simp) fun _ => .ret _)

theorem unasking_streamSource (streamOut : BackupPlan → SinkProg) (fp : String)
    (plan : BackupPlan) : (streamSource d streamOut fp plan).Unasking := by
  refine Metered.unasking_bind (unasking_mark _) fun _ => ?_
  refine Metered.unasking_bind (Metered.unasking_attempt (unasking_streamOut d _)) fun r => ?_
  refine Metered.unasking_bind (unasking_mark _) fun _ => ?_
  refine Metered.unasking_bind (Metered.unasking_ofResult r) fun _ => ?_
  refine Metered.unasking_bind (unasking_sinkCall d .finish) fun _ => ?_
  refine Metered.unasking_bind Metered.unasking_bytes fun n => ?_
  refine Metered.unasking_bind (Metered.unasking_lift (unasking_sendFrame d _)) fun _ => ?_
  refine Metered.unasking_bind unasking_fingerprint fun fp' => ?_
  split
  · exact Metered.unasking_ofResult _
  · exact Metered.unasking_pure _

end Parts

/-- A source calls `accept_stream` at most once. -/
theorem conforms_runSource (d : Deps) (streamOut : BackupPlan → SinkProg) (p : Progress) :
    ((runSource d streamOut).run p).Conforms acceptNext Anything (fun _ _ => True) false := by
  have hrest : ∀ fp plan, (do sendPlan d plan; recvAck d; streamSource d streamOut fp plan :
      Metered SourceOutcome).Unasking := fun fp plan =>
    Metered.unasking_bind (Metered.unasking_lift (unasking_sendFrame d _)) fun _ =>
      Metered.unasking_bind (Metered.unasking_lift (unasking_recvAck d)) fun _ =>
        unasking_streamSource d streamOut fp plan
  rw [runSource_eq]
  refine ⟨trivial, fun r => ⟨false, rfl, ?_⟩⟩
  cases r with
  | error e => exact trivial
  | ok fp =>
    refine ⟨trivial, fun r => ⟨false, rfl, ?_⟩⟩
    cases r with
    | error e => exact trivial
    | ok plan =>
      refine ⟨trivial, fun r => ⟨true, rfl, ?_⟩⟩
      cases r with
      | error e => exact trivial
      | ok _ => exact (hrest fp plan p true).mono fun _ _ _ => trivial

end RustBackup.Core
