/-
  Core/Wire.lean --- on-the-wire framing for the data channel.

  Source: crates/rb-core/src/wire.rs.

  Two frame families, both a little-endian `u32` length and a JSON body.  The raw
  payload of a chunk follows its `ChunkStart` frame and is not a frame.

  `serde_json`, BLAKE3 and the text of `{:?}` are not part of this repository;
  they are the parameters `Deps`.  What a task asks of the objects around it
  (`Source`, `Destination`, the accept policy, the channel) is a `Call`, and the
  points where the session enters and leaves a module are `Mark`s, so that a run
  records which of them happened and with what result.
-/
import RustBackup.Core.Data
import RustBackup.Io.Loops

set_option autoImplicit false

namespace RustBackup.Core

open RustBackup.Serde RustBackup.Io

/-- Max bytes per data chunk on the wire. -/
def CHUNK_SIZE : Nat := 1024 * 1024

/-- Max JSON control/data frame body size. -/
def FRAME_LIMIT : Nat := 16 * 1024 * 1024

/-! ## Frames -/

/-- Control-plane frames. -/
inductive ControlFrame where
  /-- source to destination: the full backup plan -/
  | plan (plan : BackupPlan)
  /-- destination to source: accept/reject decision -/
  | planAck (accepted : Bool) (reason : String)
  /-- source to destination: all items streamed -/
  | done (totalBytes : UInt64) (blake3 : String)
  /-- either side: abort with reason -/
  | abort (reason : String)
  deriving Repr

/-- Data-plane frames.  A `chunkStart` is followed by exactly `len` raw bytes. -/
inductive DataFrame where
  /-- header for one chunk of `itemId` at byte `offset` -/
  | chunkStart (itemId : UInt32) (offset : UInt64) (len : UInt32) (blake3 : String)
  /-- all chunks for `itemId` sent -/
  | itemEnd (itemId : UInt32) (total : UInt64) (blake3 : String)
  /-- no more items on this substream -/
  | streamEnd
  deriving DecidableEq, Repr

/-- A type with derived `Serialize` and `Deserialize`. -/
class Frame (F : Type) where
  serialize : F → Json
  deserialize : Json → Option F

namespace ControlFrame

def serialize : ControlFrame → Json
  | .plan p => .obj [("Plan", p.serialize)]
  | .planAck accepted reason =>
      .obj [("PlanAck", .obj [("accepted", .bool accepted), ("reason", .str reason)])]
  | .done totalBytes blake3 =>
      .obj [("Done", .obj [("total_bytes", .int totalBytes.toNat), ("blake3", .str blake3)])]
  | .abort reason => .obj [("Abort", .obj [("reason", .str reason)])]

def deserializePlanAck (j : Json) : Option ControlFrame :=
  match j.fields ["accepted", "reason"] with
  | some [some accepted, some reason] => do return .planAck (← accepted.asBool) (← reason.asStr)
  | _ => none

def deserializeDone (j : Json) : Option ControlFrame :=
  match j.fields ["total_bytes", "blake3"] with
  | some [some totalBytes, some blake3] => do return .done (← totalBytes.asU64) (← blake3.asStr)
  | _ => none

def deserializeAbort (j : Json) : Option ControlFrame :=
  match j.fields ["reason"] with
  | some [some reason] => do return .abort (← reason.asStr)
  | _ => none

/-- An unknown variant name is an error. -/
def deserialize (j : Json) : Option ControlFrame :=
  match j.variant with
  | some (name, some content) =>
      if name = "Plan" then (BackupPlan.deserialize content).map .plan
      else if name = "PlanAck" then deserializePlanAck content
      else if name = "Done" then deserializeDone content
      else if name = "Abort" then deserializeAbort content
      else none
  | _ => none

instance : Frame ControlFrame := ⟨serialize, deserialize⟩

theorem deserialize_serialize (f : ControlFrame) : deserialize f.serialize = some f := by
  cases f <;>
    simp [deserialize, serialize, Json.variant, deserializePlanAck, deserializeDone,
      deserializeAbort, Json.fields, Json.lookup]

end ControlFrame

namespace DataFrame

def serialize : DataFrame → Json
  | .chunkStart itemId offset len blake3 =>
      .obj [("ChunkStart", .obj [("item_id", .int itemId.toNat), ("offset", .int offset.toNat),
        ("len", .int len.toNat), ("blake3", .str blake3)])]
  | .itemEnd itemId total blake3 =>
      .obj [("ItemEnd", .obj [("item_id", .int itemId.toNat), ("total", .int total.toNat),
        ("blake3", .str blake3)])]
  | .streamEnd => .str "StreamEnd"

def deserializeChunkStart (j : Json) : Option DataFrame :=
  match j.fields ["item_id", "offset", "len", "blake3"] with
  | some [some itemId, some offset, some len, some blake3] => do
      return .chunkStart (← itemId.asU32) (← offset.asU64) (← len.asU32) (← blake3.asStr)
  | _ => none

def deserializeItemEnd (j : Json) : Option DataFrame :=
  match j.fields ["item_id", "total", "blake3"] with
  | some [some itemId, some total, some blake3] => do
      return .itemEnd (← itemId.asU32) (← total.asU64) (← blake3.asStr)
  | _ => none

/-- An unknown variant name is an error. -/
def deserialize (j : Json) : Option DataFrame :=
  match j.variant with
  | some (name, content) =>
      if name = "StreamEnd" then (if Json.isUnit content then some .streamEnd else none)
      else if name = "ChunkStart" then content.bind deserializeChunkStart
      else if name = "ItemEnd" then content.bind deserializeItemEnd
      else none
  | none => none

instance : Frame DataFrame := ⟨serialize, deserialize⟩

theorem deserialize_chunkStart (content : Json) :
    deserialize (.obj [("ChunkStart", content)]) = deserializeChunkStart content := by
  simp [deserialize, Json.variant]

theorem deserialize_itemEnd (content : Json) :
    deserialize (.obj [("ItemEnd", content)]) = deserializeItemEnd content := by
  simp [deserialize, Json.variant]

theorem deserialize_serialize (f : DataFrame) : deserialize f.serialize = some f := by
  cases f with
  | chunkStart itemId offset len blake3 =>
    rw [serialize, deserialize_chunkStart]
    simp [deserializeChunkStart, Json.fields, Json.lookup]
  | itemEnd itemId total blake3 =>
    rw [serialize, deserialize_itemEnd]
    simp [deserializeItemEnd, Json.fields, Json.lookup]
  | streamEnd => rfl

/-- Data frames are flat and hold no floating-point number. -/
theorem plain_serialize (f : DataFrame) : f.serialize.Plain := by
  cases f with
  | chunkStart itemId offset len blake3 =>
    refine ⟨⟨⟨?_, ?_, ?_, trivial, trivial⟩, trivial⟩, by show 2 ≤ 127; decide⟩
    · exact Json.exact_int_of_lt (Nat.lt_trans itemId.toNat_lt (by decide))
    · exact Json.exact_int_of_lt offset.toNat_lt
    · exact Json.exact_int_of_lt (Nat.lt_trans len.toNat_lt (by decide))
  | itemEnd itemId total blake3 =>
    refine ⟨⟨⟨?_, ?_, trivial, trivial⟩, trivial⟩, by show 2 ≤ 127; decide⟩
    · exact Json.exact_int_of_lt (Nat.lt_trans itemId.toNat_lt (by decide))
    · exact Json.exact_int_of_lt total.toNat_lt
  | streamEnd => exact ⟨trivial, by decide⟩

end DataFrame

/-! ## What a session asks of its surroundings -/

/-- One event drawn from a chunk source. -/
inductive ChunkEvent where
  /-- payload bytes for `itemId` at `offset` -/
  | chunk (itemId : UInt32) (offset : UInt64) (data : Bytes)
  /-- `itemId` fully delivered -/
  | itemEnd (itemId : UInt32) (total : UInt64) (blake3 : String)
  /-- no further data on this stream -/
  | done
  deriving DecidableEq, Repr

/-- A call on a chunk sink. -/
inductive SinkCall where
  | sendChunk (itemId : UInt32) (offset : UInt64) (data : Bytes)
  | finishItem (itemId : UInt32) (total : UInt64) (blake3 : String)
  | finish
  deriving DecidableEq, Repr

/-- What the session leaves in a run's record. -/
inductive Mark where
  /-- `stream_out` is entered -/
  | streamOut (plan : BackupPlan)
  /-- a sink call made by `stream_out` returned `r` -/
  | sink (c : SinkCall) (r : Result Unit)
  /-- `stream_out` returned `r` -/
  | streamOutReturned (r : Result Unit)
  /-- `stream_in` is entered -/
  | streamIn (plan : BackupPlan)
  /-- a `next` call made by `stream_in` returned `r` -/
  | next (r : Result ChunkEvent)
  /-- `stream_in` returned `r` -/
  | streamInReturned (r : Result Unit)
  /-- the log line "destination done; restore complete" -/
  | restoreComplete (totalBytes : UInt64)
  /-- the warning "expected Done, got ..." -/
  | unexpectedCompletion
  deriving Repr

/-- A call out of a session task. -/
inductive Call where
  /-- `Source::fingerprint` -/
  | fingerprint
  /-- `Source::analyze` -/
  | analyze
  /-- `DataChannel::accept_stream` -/
  | acceptStream
  /-- `DataChannel::open_stream` -/
  | openStream
  /-- `Destination::validate` -/
  | validate (plan : BackupPlan)
  /-- the accept policy -/
  | accept (plan : BackupPlan)
  /-- `flush` on the stream; the reply says whether it succeeded -/
  | flush
  | mark (m : Mark)

/-- The type of the reply to a call. -/
@[reducible] def Call.Reply : Call → Type
  | .fingerprint => Result String
  | .analyze => Result BackupPlan
  | .acceptStream => Result Unit
  | .openStream => Result Unit
  | .validate _ => Result Preflight
  | .accept _ => Bool
  | .flush => Bool
  | .mark _ => Unit

/-- A fallible task of the session layer. -/
abbrev Session (α : Type) : Type := Task Call Call.Reply BackupError α

/-- The libraries the framing relies on: `serde_json`, `blake3::hash(..).to_hex()`
and the derived `Debug` text of a received frame. -/
structure Deps where
  json : Text
  blake3Hex : Bytes → String
  debug : Option ControlFrame → String

/-! ## Transfer loops -/

/-- `write_all` with an idle timeout re-armed on every successful write. -/
def writeAllIdle (buf : Bytes) : Session Unit :=
  ⟨writeAll (.inPhase .transfer "write returned 0 (peer closed)")
    (.inPhase .transfer "write idle timeout") (.phaseSrc .transfer "write" .io) buf⟩

/-- `read_exact` with an idle timeout re-armed on every successful read. -/
def readExactIdle (n : Nat) : Session Bytes :=
  ⟨readExact (.inPhase .transfer "unexpected EOF mid-frame")
    (.inPhase .transfer "read idle timeout") (.phaseSrc .transfer "read" .io) n⟩

/-- How tokio's `read_exact` fails. -/
inductive ReadExactError where
  /-- `ErrorKind::UnexpectedEof` -/
  | unexpectedEof
  | other
  deriving DecidableEq, Repr

/-- `stream.flush().await` with its error mapped. -/
def flush : Session Unit :=
  ⟨.call .flush fun
    | true => .ret (.ok ())
    | false => .ret (.error (.phaseSrc .transfer "frame flush" .io))⟩

/-! ## Framing -/

/-- `(n as u32).to_le_bytes()`. -/
def leBytes (n : Nat) : Bytes :=
  [UInt8.ofNat n, UInt8.ofNat (n / 2 ^ 8), UInt8.ofNat (n / 2 ^ 16), UInt8.ofNat (n / 2 ^ 24)]

/-- `u32::from_le_bytes(b) as usize`. -/
def fromLeBytes (b : Bytes) : Nat :=
  (b.getD 0 0).toNat + 2 ^ 8 * (b.getD 1 0).toNat + 2 ^ 16 * (b.getD 2 0).toNat +
    2 ^ 24 * (b.getD 3 0).toNat

variable {F : Type} [Frame F]

/-- `serde_json::to_vec(frame)`.  It cannot fail on the two frame types. -/
def encode (d : Deps) (frame : F) : Bytes := d.json.print (Frame.serialize frame)

/-- `serde_json::from_slice(body)`. -/
def decode (F : Type) [Frame F] (d : Deps) (body : Bytes) : Option F :=
  (d.json.parse body).bind Frame.deserialize

/-- Write a length-prefixed JSON frame. -/
def sendFrame (d : Deps) (frame : F) : Session Unit := do
  let body := encode d frame
  if FRAME_LIMIT < body.length then
    Task.fail (.inPhase .transfer "frame exceeds FRAME_LIMIT")
  else
    writeAllIdle (leBytes body.length)
    writeAllIdle body
    flush

/-- What `recv_frame` does with the outcome of reading the length prefix. -/
def recvBody (F : Type) [Frame F] (d : Deps) :
    Except ReadExactError Bytes → Session (Option F)
  | .error .unexpectedEof => Task.ok none
  | .error .other => Task.fail (.phaseSrc .transfer "frame len read" .io)
  | .ok lenBuf =>
      let len := fromLeBytes lenBuf
      if FRAME_LIMIT < len then
        Task.fail (.inPhase .transfer "incoming frame too large")
      else do
        let body ← readExactIdle len
        match decode F d body with
        | some frame => Task.ok (some frame)
        | none => Task.fail (.phaseSrc .transfer "frame deserialize" .json)

/-- Read a length-prefixed JSON frame.  Returns `none` when the stream ends before
the length prefix is complete. -/
def recvFrame (F : Type) [Frame F] (d : Deps) : Session (Option F) :=
  ⟨(readExact ReadExactError.unexpectedEof .other .other 4).bind fun r => (recvBody F d r).run⟩

end RustBackup.Core
