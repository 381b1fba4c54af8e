/-
  Core/Session.lean --- the run loops that tie a source and a destination to a
  channel.

  Source: crates/rb-core/src/session.rs.

  The frames ride one stream in order:
  `Plan`, `PlanAck`, chunks and item ends, `StreamEnd`, `Done`.
-/
import RustBackup.Core.Channel
import RustBackup.Serde.Text

set_option autoImplicit false

namespace RustBackup.Core

open RustBackup.Serde RustBackup.Io

/-- Outcome of a completed source run. -/
structure SourceOutcome where
  plan : BackupPlan
  bytesSent : UInt64

/-- `source.fingerprint().await?`. -/
def fingerprint : Session String := ⟨.call .fingerprint fun r => .ret r⟩

/-- `source.analyze().await?`. -/
def analyze : Session BackupPlan := ⟨.call .analyze fun r => .ret r⟩

/-- `channel.accept_stream().await?`. -/
def acceptStream : Session Unit := ⟨.call .acceptStream fun r => .ret r⟩

/-- `channel.open_stream().await?`. -/
def openStream : Session Unit := ⟨.call .openStream fun r => .ret r⟩

/-- `dest.validate(&plan).await?`. -/
def validate (plan : BackupPlan) : Session Preflight := ⟨.call (.validate plan) fun r => .ret r⟩

/-- `accept(&plan)`. -/
def accept (plan : BackupPlan) : Session Bool := ⟨.call (.accept plan) fun r => .ret (.ok r)⟩

/-- The error of a source whose fingerprint changed. -/
def mutatedError (fpBefore fpAfter : String) : BackupError :=
  .sourceMutated s!"source fingerprint changed during backup ({fpBefore} -> {fpAfter})"

/-- Run the source side. -/
def runSource (d : Deps) (streamOut : BackupPlan → SinkProg) : Metered SourceOutcome := do
  -- 1. immutability baseline
  let fpBefore ← fingerprint
  -- 2. analyze
  let plan ← analyze
  -- 3. exchange plan and decision
  acceptStream
  sendPlan d plan
  recvAck d
  -- 4. stream the payload
  mark (.streamOut plan)
  let r ← Metered.attempt ((streamOut plan).perform d)
  mark (.streamOutReturned r)
  Metered.ofResult r
  finish d
  -- 5. completion frame
  let bytesSent ← Metered.bytes
  sendFrame d (ControlFrame.done bytesSent "")
  -- 6. immutability audit
  let fpAfter ← fingerprint
  if fpBefore ≠ fpAfter then
    Metered.ofResult (.error (mutatedError fpBefore fpAfter))
  else
    return { plan, bytesSent }

/-- Preflight must pass and the accept policy, consulted only then, must approve. -/
def decideApproval (plan : BackupPlan) (preflight : Preflight) : Session Bool :=
  if preflight.ok then accept plan else Task.ok false

/-- The reason sent with the decision. -/
def reasonFor (preflight : Preflight) (approved : Bool) : String :=
  if !preflight.ok then "preflight failed"
  else if !approved then "rejected by operator"
  else "accepted"

/-- The destination's own error when it does not approve. -/
def refusal (preflight : Preflight) (reason : String) : BackupError :=
  if !preflight.ok then .preflight reason else .planRejected reason

/-- What the destination does with the completion frame. -/
def complete (plan : BackupPlan) : Option ControlFrame → Metered BackupPlan
  | some (.done totalBytes _) => do
      mark (.restoreComplete totalBytes)
      return plan
  | some (.abort reason) =>
      Metered.ofResult (.error (.inPhase .apply s!"source aborted: {reason}"))
  | _ => do
      mark .unexpectedCompletion
      return plan

/-- The destination after it approved the plan. -/
def applyPayload (d : Deps) (streamIn : BackupPlan → StreamInProg) (plan : BackupPlan) :
    Metered BackupPlan := do
  -- 4. apply the streamed payload
  mark (.streamIn plan)
  let r ← Metered.attempt ((streamIn plan).perform d)
  mark (.streamInReturned r)
  Metered.ofResult r
  -- 5. completion frame
  let frame ← recvFrame ControlFrame d
  complete plan frame

/-- Run the destination side. -/
def runDestination (d : Deps) (streamIn : BackupPlan → StreamInProg) :
    Metered BackupPlan := do
  -- 1. open the stream and receive the plan
  openStream
  let plan ← recvPlan d
  -- 2. preflight
  let preflight ← validate plan
  -- 3. decide
  let approved ← decideApproval plan preflight
  let reason := reasonFor preflight approved
  sendAck d approved reason
  if !approved then
    Metered.ofResult (.error (refusal preflight reason))
  else
    applyPayload d streamIn plan

/-! ## Neither side notices fragmentation -/

theorem coalescing_runSource (d : Deps) (streamOut : BackupPlan → SinkProg) :
    (runSource d streamOut).Coalescing := by
  refine Metered.coalescing_bind (Metered.coalescing_lift (coalescing_call _ _)) fun fp => ?_
  refine Metered.coalescing_bind (Metered.coalescing_lift (coalescing_call _ _)) fun plan => ?_
  refine Metered.coalescing_bind (Metered.coalescing_lift (coalescing_call _ _)) fun _ => ?_
  refine Metered.coalescing_bind (Metered.coalescing_lift (coalescing_sendFrame d _)) fun _ => ?_
  refine Metered.coalescing_bind (Metered.coalescing_lift (coalescing_recvAck d)) fun _ => ?_
  refine Metered.coalescing_bind (Metered.coalescing_lift (coalescing_call _ _)) fun _ => ?_
  refine Metered.coalescing_bind (Metered.coalescing_attempt (coalescing_perform d _))
    fun r => ?_
  refine Metered.coalescing_bind (Metered.coalescing_lift (coalescing_call _ _)) fun _ => ?_
  refine Metered.coalescing_bind (Metered.coalescing_ofResult r) fun _ => ?_
  refine Metered.coalescing_bind (coalescing_sinkCall d .finish) fun _ => ?_
  refine Metered.coalescing_bind (fun _ => coalescing_ret _) fun n => ?_
  refine Metered.coalescing_bind (Metered.coalescing_lift (coalescing_sendFrame d _)) fun _ => ?_
  refine Metered.coalescing_bind (Metered.coalescing_lift (coalescing_call _ _)) fun fp' => ?_
  split
  · exact Metered.coalescing_ofResult _
  · exact Metered.coalescing_pure _

theorem coalescing_applyPayload (d : Deps) (streamIn : BackupPlan → StreamInProg)
    (plan : BackupPlan) : (applyPayload d streamIn plan).Coalescing := by
  refine Metered.coalescing_bind (Metered.coalescing_lift (coalescing_call _ _)) fun _ => ?_
  refine Metered.coalescing_bind (Metered.coalescing_attempt (coalescing_streamIn d _))
    fun r => ?_
  refine Metered.coalescing_bind (Metered.coalescing_lift (coalescing_call _ _)) fun _ => ?_
  refine Metered.coalescing_bind (Metered.coalescing_ofResult r) fun _ => ?_
  refine Metered.coalescing_bind (Metered.coalescing_lift (coalescing_recvFrame _ d))
    fun frame => ?_
  have hwarn : (do mark .unexpectedCompletion; return plan : Metered BackupPlan).Coalescing :=
    Metered.coalescing_bind (Metered.coalescing_lift (coalescing_call _ _)) fun _ =>
      Metered.coalescing_pure _
  cases frame with
  | none => exact hwarn
  | some frame =>
    cases frame with
    | plan plan' => exact hwarn
    | planAck accepted reason => exact hwarn
    | done n blake3 =>
      exact Metered.coalescing_bind (Metered.coalescing_lift (coalescing_call _ _)) fun _ =>
        Metered.coalescing_pure _
    | abort reason => exact Metered.coalescing_ofResult _

theorem coalescing_runDestination (d : Deps) (streamIn : BackupPlan → StreamInProg) :
    (runDestination d streamIn).Coalescing := by
  refine Metered.coalescing_bind (Metered.coalescing_lift (coalescing_call _ _)) fun _ => ?_
  refine Metered.coalescing_bind (Metered.coalescing_lift (coalescing_recvPlan d)) fun plan => ?_
  refine Metered.coalescing_bind (Metered.coalescing_lift (coalescing_call _ _))
    fun preflight => ?_
  refine Metered.coalescing_bind (Metered.coalescing_lift ?_) fun approved => ?_
  · rw [decideApproval]
    split
    · exact coalescing_call _ _
    · exact coalescing_ret _
  refine Metered.coalescing_bind (Metered.coalescing_lift (coalescing_sendFrame d _)) fun _ => ?_
  split
  · exact Metered.coalescing_ofResult _
  · exact coalescing_applyPayload d streamIn plan

/-! ## A sample session

Concrete libraries and a plan, for exhibiting particular runs.  The digests are right for
the chunks that these runs send. -/

/-- Compact JSON text and the BLAKE3 digests of nothing and of one byte. -/
def sampleDeps : Deps where
  json := Text.compact
  blake3Hex := fun data =>
    if data = [] then "af1349b9f5f9a1a6a0404dea36dcc9499bcb25c9adc112b7cc9a93cae41f3262"
    else if data = [7] then "448bd8dd9624154a690f8e84dc52d6f633ba7cd545c4d3c9b4e0f6a2f6fa71f4"
    else ""
  debug := fun _ => "None"

/-- A plan without items. -/
def samplePlan : BackupPlan where
  formatVersion := PLAN_FORMAT_VERSION
  module := "sample"
  mode := .copy1to1
  createdAt := "1970-01-01T00:00:00Z"
  sourceSummary := "nothing"
  items := []
  estimatedBytes := 0
  integrity := .default
  payload := .null

end RustBackup.Core
