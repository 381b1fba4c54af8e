/-
  Core/Channel.lean --- chunk-level sink and source over one substream, and the
  plan-exchange handshake.

  Source: crates/rb-core/src/channel.rs.

  A sink and a source share the session's progress handle, so the functions that
  touch it run in `Metered`, a task that also holds the counters.  The state is
  part of the outcome on every path: an error does not undo what was counted.

  A module's `stream_out` and `stream_in` reach the channel through a trait
  object only.  They are trees of trait calls (`SinkProg`, `StreamInProg`): which
  call comes next may depend on every earlier result.  What a module does between
  two calls is its own business and does not appear.

  `StreamChunkSink::new` and `StreamChunkSource::new`, which count nothing, are
  used by tests only and left out.
-/
import RustBackup.Core.Framing

set_option autoImplicit false

namespace RustBackup.Core

open RustBackup.Serde RustBackup.Io

/-! ## Tasks that hold the progress handle -/

/-- A fallible task of the session layer that holds the progress counters. -/
structure Metered (α : Type) : Type where
  run : Progress → Proc Call Call.Reply (Result α × Progress)

namespace Metered

variable {α β : Type}

/-- What the `?` operator does with a result. -/
def cont (f : α → Metered β) : Result α × Progress → Proc Call Call.Reply (Result β × Progress)
  | (.ok a, p) => (f a).run p
  | (.error e, p) => .ret (.error e, p)

instance : Monad Metered where
  pure a := ⟨fun p => .ret (.ok a, p)⟩
  bind x f := ⟨fun p => (x.run p).bind (cont f)⟩

/-- A task that does not touch the counters. -/
def lift (x : Session α) : Metered α := ⟨fun p => x.run.bind fun r => .ret (r, p)⟩

instance : MonadLift (Task Call Call.Reply BackupError) Metered := ⟨lift⟩

/-- Return a result as it is. -/
def ofResult (r : Result α) : Metered α := ⟨fun p => .ret (r, p)⟩

/-- Run `x` and return its result instead of passing its error on. -/
def attempt (x : Metered α) : Metered (Result α) :=
  ⟨fun p => (x.run p).bind fun o => .ret (.ok o.1, o.2)⟩

/-- Update the counters. -/
def count (f : Progress → Progress) : Metered Unit := ⟨fun p => .ret (.ok (), f p)⟩

/-- Read the byte counter. -/
def bytes : Metered UInt64 := ⟨fun p => .ret (.ok p.bytes, p)⟩

@[simp] theorem run_pure (a : α) (p : Progress) :
    (pure a : Metered α).run p = .ret (.ok a, p) := rfl

@[simp] theorem run_bind (x : Metered α) (f : α → Metered β) (p : Progress) :
    (x >>= f).run p = (x.run p).bind (cont f) := rfl

@[simp] theorem cont_ok (f : α → Metered β) (a : α) (p : Progress) :
    cont f (.ok a, p) = (f a).run p := rfl

@[simp] theorem cont_error (f : α → Metered β) (e : BackupError) (p : Progress) :
    cont f (.error e, p) = .ret (.error e, p) := rfl

@[simp] theorem run_lift (x : Session α) (p : Progress) :
    (lift x).run p = x.run.bind fun r => .ret (r, p) := rfl

@[simp] theorem run_monadLift (x : Session α) (p : Progress) :
    (monadLift x : Metered α).run p = x.run.bind fun r => .ret (r, p) := rfl

@[simp] theorem run_ofResult (r : Result α) (p : Progress) :
    (ofResult r).run p = .ret (r, p) := rfl

@[simp] theorem run_attempt (x : Metered α) (p : Progress) :
    (attempt x).run p = (x.run p).bind fun o => .ret (.ok o.1, o.2) := rfl

@[simp] theorem run_count (f : Progress → Progress) (p : Progress) :
    (count f).run p = .ret (.ok (), f p) := rfl

@[simp] theorem run_bytes (p : Progress) : bytes.run p = .ret (.ok p.bytes, p) := rfl

/-- A part that succeeds, and then the rest, in one particular run. -/
theorem goes_bind {x : Metered α} {f : α → Metered β} {p p' : Progress} {a : α}
    {i i' o o' : Bytes} {l l' : Calls Call Call.Reply}
    {q : Proc Call Call.Reply (Result β × Progress)}
    (h : Goes (x.run p) i o l (.ret (.ok a, p'))) (h' : Goes ((f a).run p') i' o' l' q) :
    Goes ((x >>= f).run p) (i ++ i') (o ++ o') (l ++ l') q := h.andThen h'

theorem goes_lift {x : Session α} {p : Progress} {r : Result α} {i o : Bytes}
    {l : Calls Call Call.Reply} (h : Goes x.run i o l (.ret r)) :
    Goes ((monadLift x : Metered α).run p) i o l (.ret (r, p)) :=
  h.bind fun r => .ret (r, p)

theorem goes_attempt {x : Metered α} {p p' : Progress} {r : Result α} {i o : Bytes}
    {l : Calls Call Call.Reply} (h : Goes (x.run p) i o l (.ret (r, p'))) :
    Goes ((attempt x).run p) i o l (.ret (.ok r, p')) :=
  h.bind fun o => .ret ((.ok o.1 : Result (Result α)), o.2)

end Metered

/-! ### Composed tasks do not notice fragmentation -/

namespace Metered

variable {α β : Type}

/-- However reads and writes are cut, the task goes on in the same way. -/
def Coalescing (x : Metered α) : Prop := ∀ p, (x.run p).Coalescing

theorem coalescing_bind {x : Metered α} {f : α → Metered β} (hx : x.Coalescing)
    (hf : ∀ a, (f a).Coalescing) : (x >>= f).Coalescing := by
  intro p
  refine (hx p).bind fun o => ?_
  obtain ⟨r, p'⟩ := o
  cases r with
  | ok a => exact hf a p'
  | error e => exact coalescing_ret _

theorem coalescing_lift {x : Session α} (hx : x.run.Coalescing) :
    (monadLift x : Metered α).Coalescing :=
  fun _ => hx.bind fun _ => coalescing_ret _

theorem coalescing_attempt {x : Metered α} (hx : x.Coalescing) : (attempt x).Coalescing :=
  fun p => (hx p).bind fun _ => coalescing_ret _

theorem coalescing_ofResult (r : Result α) : (ofResult r).Coalescing :=
  fun _ => coalescing_ret _

theorem coalescing_pure (a : α) : (pure a : Metered α).Coalescing := fun _ => coalescing_ret _

theorem coalescing_count (f : Progress → Progress) : (count f).Coalescing :=
  fun _ => coalescing_ret _

end Metered

/-- A call out whose reply is passed on. -/
theorem coalescing_call {α : Type} (e : Call) (k : e.Reply → Result α) :
    (Proc.call e fun r => .ret (k r) : Proc Call Call.Reply (Result α)).Coalescing :=
  fun _ => coalescing_ret _

/-- Leave a mark in the run's record. -/
def mark (m : Mark) : Session Unit := ⟨.call (.mark m) fun _ => .ret (.ok ())⟩

theorem goes_mark (m : Mark) : Goes (mark m).run [] [] [⟨.mark m, ()⟩] (.ret (.ok ())) :=
  Goes.call (R := Call.Reply) (e := .mark m) () (.refl _)

/-! ## The sink -/

/-- `StreamChunkSink::send_chunk`. -/
def sendChunk (d : Deps) (itemId : UInt32) (offset : UInt64) (data : Bytes) : Metered Unit := do
  if CHUNK_SIZE < data.length then
    Metered.ofResult (.error (.inPhase .transfer "chunk exceeds CHUNK_SIZE"))
  else
    let header := DataFrame.chunkStart itemId offset (UInt32.ofNat data.length) (d.blake3Hex data)
    sendFrame d header
    -- the raw payload follows the header and is not wrapped in JSON
    writeAllIdle data
    Metered.count (·.addBytes (UInt64.ofNat data.length))

/-- `StreamChunkSink::finish_item`. -/
def finishItem (d : Deps) (itemId : UInt32) (total : UInt64) (blake3 : String) :
    Metered Unit := do
  sendFrame d (DataFrame.itemEnd itemId total blake3)
  Metered.count (·.itemDone)

/-- `StreamChunkSink::finish`. -/
def finish (d : Deps) : Metered Unit := do
  sendFrame d DataFrame.streamEnd

/-- A sink call. -/
def SinkCall.perform (d : Deps) : SinkCall → Metered Unit
  | .sendChunk itemId offset data => Core.sendChunk d itemId offset data
  | .finishItem itemId total blake3 => Core.finishItem d itemId total blake3
  | .finish => Core.finish d

/-- What a module's `stream_out` does with its sink. -/
inductive SinkProg where
  /-- return `r` -/
  | ret (r : Result Unit)
  /-- make a sink call and continue with its result -/
  | call (c : SinkCall) (k : Result Unit → SinkProg)

/-- `stream_out` running against a `StreamChunkSink`. -/
def SinkProg.perform (d : Deps) : SinkProg → Metered Unit
  | .ret r => Metered.ofResult r
  | .call c k => do
      let r ← Metered.attempt (c.perform d)
      mark (.sink c r)
      (k r).perform d

theorem coalescing_sinkCall (d : Deps) (c : SinkCall) : (c.perform d).Coalescing := by
  cases c with
  | sendChunk itemId offset data =>
    simp only [SinkCall.perform, Core.sendChunk]
    split
    · exact Metered.coalescing_ofResult _
    · refine Metered.coalescing_bind (Metered.coalescing_lift (coalescing_sendFrame d _))
        fun _ => ?_
      refine Metered.coalescing_bind (Metered.coalescing_lift (coalescing_writeAllIdle _))
        fun _ => ?_
      exact Metered.coalescing_count _
  | finishItem itemId total blake3 =>
    exact Metered.coalescing_bind (Metered.coalescing_lift (coalescing_sendFrame d _)) fun _ =>
      Metered.coalescing_count _
  | finish => exact Metered.coalescing_lift (coalescing_sendFrame d _)

theorem coalescing_perform (d : Deps) (prog : SinkProg) : (prog.perform d).Coalescing := by
  induction prog with
  | ret r => exact Metered.coalescing_ofResult r
  | call c k ih =>
    refine Metered.coalescing_bind (Metered.coalescing_attempt (coalescing_sinkCall d c))
      fun r => ?_
    exact Metered.coalescing_bind (Metered.coalescing_lift (coalescing_call _ _)) fun _ => ih r

/-! ## The source -/

/-- What `next` does with the frame it received. -/
def handleFrame (d : Deps) : Option DataFrame → Metered ChunkEvent
  | none => pure .done
  | some .streamEnd => pure .done
  | some (.chunkStart itemId offset len blake3) => do
      let data ← readExactIdle len.toNat
      let got := d.blake3Hex data
      if got ≠ blake3 then
        Metered.ofResult (.error (.integrity
          s!"chunk item={itemId} offset={offset}: blake3 mismatch"))
      else
        Metered.count (·.addBytes (UInt64.ofNat data.length))
        return .chunk itemId offset data
  | some (.itemEnd itemId total blake3) => do
      Metered.count (·.itemDone)
      return .itemEnd itemId total blake3

/-- `StreamChunkSource::next`. -/
def next (d : Deps) : Metered ChunkEvent := do
  let frame ← recvFrame DataFrame d
  handleFrame d frame

/-- What a module's `stream_in` does with its source. -/
inductive StreamInProg where
  /-- return `r` -/
  | ret (r : Result Unit)
  /-- call `next` and continue with its result -/
  | next (k : Result ChunkEvent → StreamInProg)

/-- `stream_in` running against a `StreamChunkSource`. -/
def StreamInProg.perform (d : Deps) : StreamInProg → Metered Unit
  | .ret r => Metered.ofResult r
  | .next k => do
      let r ← Metered.attempt (Core.next d)
      mark (.next r)
      (k r).perform d

/-- A `stream_in` that calls `next` until it gets the end event, then returns
`Ok`, and passes every error on.  A loop that has seen `n` events is the tree of
depth `n + 1`; a run that gets no end event within the depth stops with an error,
which a deep enough tree never does. -/
def StreamInProg.drain : Nat → StreamInProg
  | 0 => .ret (.error (.other "more events than the unrolling of the loop"))
  | n + 1 =>
      .next fun
        | .ok .done => .ret (.ok ())
        | .ok _ => drain n
        | .error e => .ret (.error e)

theorem coalescing_next (d : Deps) : (next d).Coalescing := by
  refine Metered.coalescing_bind (Metered.coalescing_lift (coalescing_recvFrame _ d))
    fun frame => ?_
  cases frame with
  | none => exact Metered.coalescing_pure _
  | some frame =>
    cases frame with
    | streamEnd => exact Metered.coalescing_pure _
    | itemEnd itemId total blake3 =>
      exact Metered.coalescing_bind (Metered.coalescing_count _) fun _ =>
        Metered.coalescing_pure _
    | chunkStart itemId offset len blake3 =>
      refine Metered.coalescing_bind (Metered.coalescing_lift (coalescing_readExactIdle _))
        fun data => ?_
      simp only
      split
      · exact Metered.coalescing_ofResult _
      · exact Metered.coalescing_bind (Metered.coalescing_count _) fun _ =>
          Metered.coalescing_pure _

theorem coalescing_streamIn (d : Deps) (prog : StreamInProg) :
    (prog.perform d).Coalescing := by
  induction prog with
  | ret r => exact Metered.coalescing_ofResult r
  | next k ih =>
    refine Metered.coalescing_bind (Metered.coalescing_attempt (coalescing_next d)) fun r => ?_
    exact Metered.coalescing_bind (Metered.coalescing_lift (coalescing_call _ _)) fun _ => ih r

/-! ## The plan handshake -/

/-- Source to destination: send the plan. -/
def sendPlan (d : Deps) (plan : BackupPlan) : Session Unit :=
  sendFrame d (ControlFrame.plan plan)

/-- Destination: receive the plan. -/
def recvPlan (d : Deps) : Session BackupPlan := do
  match ← recvFrame ControlFrame d with
  | some (.plan p) => Task.ok p
  | some (.abort reason) => Task.fail (.planRejected reason)
  | other => Task.fail (.inPhase .connect ("expected Plan frame, got " ++ d.debug other))

/-- Destination to source: send the accept/reject decision. -/
def sendAck (d : Deps) (accepted : Bool) (reason : String) : Session Unit :=
  sendFrame d (ControlFrame.planAck accepted reason)

/-- Source: await the destination's decision. -/
def recvAck (d : Deps) : Session Unit := do
  match ← recvFrame ControlFrame d with
  | some (.planAck true _) => Task.ok ()
  | some (.planAck false reason) => Task.fail (.planRejected reason)
  | other => Task.fail (.inPhase .connect ("expected PlanAck, got " ++ d.debug other))

theorem coalescing_recvPlan (d : Deps) : (recvPlan d).run.Coalescing := by
  refine coalescing_bind (coalescing_recvFrame _ d) fun frame => ?_
  cases frame with
  | none => exact coalescing_ret _
  | some frame => cases frame <;> exact coalescing_ret _

theorem coalescing_recvAck (d : Deps) : (recvAck d).run.Coalescing := by
  refine coalescing_bind (coalescing_recvFrame _ d) fun frame => ?_
  cases frame with
  | none => exact coalescing_ret _
  | some frame =>
    cases frame with
    | planAck accepted reason => cases accepted <;> exact coalescing_ret _
    | plan plan => exact coalescing_ret _
    | done n blake3 => exact coalescing_ret _
    | abort reason => exact coalescing_ret _

end RustBackup.Core
