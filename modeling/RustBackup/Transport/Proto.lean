/-
  Transport/Proto.lean --- the control protocol and its NUL-delimited JSON codec.

  Source: crates/rb-transport/src/proto.rs.

  `Delimited` keeps the bytes it has read and not yet used in `read_buf`.  That
  buffer outlives a receive that fails and a receive that is dropped half way, so
  it is a state of its own here (`Control`) and not a local variable of the
  receive.

  A receive loops until its buffer holds a zero byte.  The loop is unrolled to a
  given depth; a receive that gets there without a frame stops with an error of
  its own, which a deep enough unrolling never does.

  `send_client` and `send_server` have the same body, and so have the two
  receives.  They are instances of `send` and `recv`.
-/
import RustBackup.Serde.Text
import RustBackup.Io.Solo
import RustBackup.Core.Data

set_option autoImplicit false

namespace RustBackup.Transport

open RustBackup.Serde RustBackup.Io

export RustBackup.Io (Bytes)

/-- Max frame length for a JSON message on the control channel. -/
def MAX_FRAME_LENGTH : Nat := 1024

/-- The size of the buffer one `read` of a receive fills. -/
def READ_SIZE : Nat := 1024

/-! ## Messages -/

/-- `hex::encode`: two lower-case digits a byte. -/
def hexEncode (bs : Bytes) : String :=
  String.ofList (bs.flatMap fun b => [Nat.digitChar (b.toNat / 16), Nat.digitChar (b.toNat % 16)])

/-- A UUID. -/
structure Uuid where
  bytes : Bytes
  length_bytes : bytes.length = 16
  deriving DecidableEq, Repr

/-- The text of a UUID: its bytes in five groups. -/
def Uuid.hyphenated (u : Uuid) : String :=
  "-".intercalate ([(0, 4), (4, 2), (6, 2), (8, 2), (10, 6)].map fun (i, n) =>
    hexEncode ((u.bytes.drop i).take n))

/-- A UUID in a human-readable format is its text. -/
def Uuid.serialize (u : Uuid) : Json := .str u.hyphenated

/-- Client to server. -/
inductive ClientMsg where
  /-- register as the source/provider for a channel -/
  | register (channel : String)
  /-- connect as the destination/consumer for a channel -/
  | connect (channel : String)
  /-- authenticate with the server using the provided HMAC tag -/
  | authenticate (tag : String)
  /-- keep the connection alive -/
  | heartbeat
  deriving DecidableEq, Repr

/-- Server to client. -/
inductive ServerMsg where
  /-- authentication challenge; the client must respond with `authenticate` -/
  | challenge (uuid : Uuid)
  /-- registration, connection or authentication accepted -/
  | ok
  | heartbeat
  /-- the connection will close -/
  | error (reason : String)
  deriving DecidableEq, Repr

/-- A message type with derived `Serialize` and `Deserialize`.  What was serialised
is read back, and its JSON is within what the parser accepts. -/
class ControlMsg (M : Type) where
  serialize : M → Option Json
  deserialize : Json → Option M
  deserialize_serialize : ∀ m j, serialize m = some j → deserialize j = some m
  plain_serialize : ∀ m j, serialize m = some j → j.Plain

/-- What is left of a unit variant once its tag is taken out: other keys are ignored,
other elements are not. -/
def isUnitRest : Json → Bool
  | .obj _ => true
  | .arr [] => true
  | _ => false

/-- The one field of `register` and `connect`. -/
def channelOf (rest : Json) : Option String :=
  match rest.fields ["channel"] with
  | some [some channel] => channel.asStr
  | _ => none

namespace ClientMsg

/-- A `String` is not a map, so `authenticate` has no JSON. -/
def serialize : ClientMsg → Option Json
  | .register channel => some (Json.tagged "type" "register" [("channel", .str channel)])
  | .connect channel => some (Json.tagged "type" "connect" [("channel", .str channel)])
  | .authenticate tag => Json.taggedNewtype "type" "authenticate" (.str tag)
  | .heartbeat => some (Json.tagged "type" "heartbeat" [])

/-- The content of a newtype variant is what is left without the tag, a map or a
sequence.  No `String` is read from those. -/
def deserialize (j : Json) : Option ClientMsg :=
  match j.untag "type" with
  | some (name, rest) =>
      if name = "register" then (channelOf rest).map .register
      else if name = "connect" then (channelOf rest).map .connect
      else if name = "authenticate" then rest.asStr.map .authenticate
      else if name = "heartbeat" then (if isUnitRest rest then some .heartbeat else none)
      else none
  | none => none

end ClientMsg

namespace ServerMsg

/-- Neither a `Uuid` nor a `String` is a map, so `challenge` and `error` have no
JSON. -/
def serialize : ServerMsg → Option Json
  | .challenge uuid => Json.taggedNewtype "type" "challenge" uuid.serialize
  | .ok => some (Json.tagged "type" "ok" [])
  | .heartbeat => some (Json.tagged "type" "heartbeat" [])
  | .error reason => Json.taggedNewtype "type" "error" (.str reason)

/-- No `Uuid` and no `String` is read from a map or a sequence. -/
def deserialize (j : Json) : Option ServerMsg :=
  match j.untag "type" with
  | some (name, rest) =>
      if name = "challenge" then none
      else if name = "ok" then (if isUnitRest rest then some .ok else none)
      else if name = "heartbeat" then (if isUnitRest rest then some .heartbeat else none)
      else if name = "error" then rest.asStr.map .error
      else none
  | none => none

/-- No JSON reads as a challenge. -/
theorem deserialize_ne_challenge (j : Json) (uuid : Uuid) :
    deserialize j ≠ some (.challenge uuid) := by
  intro h
  unfold deserialize at h
  split at h
  · split_ifs at h <;> simp at h
  · cases h

end ServerMsg

theorem ClientMsg.deserialize_serialize (m : ClientMsg) (j : Json)
    (h : m.serialize = some j) : ClientMsg.deserialize j = some m := by
  cases m with
  | register channel =>
    cases h
    simp [ClientMsg.deserialize, Json.untag, Json.tagged, Json.lookup, channelOf, Json.fields]
  | connect channel =>
    cases h
    simp [ClientMsg.deserialize, Json.untag, Json.tagged, Json.lookup, channelOf, Json.fields]
  | authenticate tag => cases h
  | heartbeat =>
    cases h
    simp [ClientMsg.deserialize, Json.untag, Json.tagged, Json.lookup, isUnitRest]

theorem ServerMsg.deserialize_serialize (m : ServerMsg) (j : Json)
    (h : m.serialize = some j) : ServerMsg.deserialize j = some m := by
  cases m with
  | challenge uuid => cases h
  | ok =>
    cases h
    simp [ServerMsg.deserialize, Json.untag, Json.tagged, Json.lookup, isUnitRest]
  | heartbeat =>
    cases h
    simp [ServerMsg.deserialize, Json.untag, Json.tagged, Json.lookup, isUnitRest]
  | error reason => cases h

/-- Strings under one tag are within what the parser accepts. -/
theorem plain_tagged {name : String} {fs : List (String × Json)}
    (hfs : ∀ f ∈ fs, ∃ s, f.2 = .str s) : (Json.tagged "type" name fs).Plain := by
  have hexact : Json.ExactFields fs ∧ Json.depthFields fs = 0 := by
    induction fs with
    | nil => exact ⟨trivial, rfl⟩
    | cons f fs ih =>
      obtain ⟨s, hs⟩ := hfs f (List.mem_cons_self)
      obtain ⟨h₁, h₂⟩ := ih fun g hg => hfs g (List.mem_cons_of_mem _ hg)
      obtain ⟨k, v⟩ := f
      cases hs
      refine ⟨⟨trivial, h₁⟩, ?_⟩
      rw [Json.depthFields, h₂]
      rfl
  refine ⟨⟨trivial, hexact.1⟩, ?_⟩
  rw [Json.tagged, Json.depth, Json.depthFields, hexact.2]
  show 1 ≤ 127
  decide

theorem ClientMsg.plain_serialize (m : ClientMsg) (j : Json) (h : m.serialize = some j) :
    j.Plain := by
  cases m with
  | register channel => cases h; exact plain_tagged (by simp)
  | connect channel => cases h; exact plain_tagged (by simp)
  | authenticate tag => cases h
  | heartbeat => cases h; exact plain_tagged (by simp)

theorem ServerMsg.plain_serialize (m : ServerMsg) (j : Json) (h : m.serialize = some j) :
    j.Plain := by
  cases m with
  | challenge uuid => cases h
  | ok => cases h; exact plain_tagged (by simp)
  | heartbeat => cases h; exact plain_tagged (by simp)
  | error reason => cases h

instance : ControlMsg ClientMsg where
  serialize := ClientMsg.serialize
  deserialize := ClientMsg.deserialize
  deserialize_serialize := ClientMsg.deserialize_serialize
  plain_serialize := ClientMsg.plain_serialize

instance : ControlMsg ServerMsg where
  serialize := ServerMsg.serialize
  deserialize := ServerMsg.deserialize
  deserialize_serialize := ServerMsg.deserialize_serialize
  plain_serialize := ServerMsg.plain_serialize

/-! ## Tasks that hold a control stream -/

/-- The role a client asks for. -/
inductive Role where
  /-- `Register`: the source, served by `serve_provider` -/
  | provider
  /-- `Connect`: the destination, served by `serve_consumer` -/
  | consumer
  deriving DecidableEq, Repr

/-- The branch of the provider's `select!` that moves on. -/
inductive ProviderBranch where
  /-- the heartbeat timer ticked -/
  | tick
  /-- the pending receive makes a turn of its loop -/
  | control
  deriving DecidableEq, Repr

/-- The branch of the consumer's `select!` that moves on. -/
inductive ConsumerBranch where
  /-- the heartbeat timer ticked -/
  | tick
  /-- the pending receive makes a turn of its loop -/
  | control
  /-- the acceptor has an answer: a data substream, or none if the connection is gone -/
  | inbound (stream : Option Nat)
  deriving DecidableEq, Repr

/-- A call out of a task that holds a control stream. -/
inductive Call where
  /-- `flush` on the control stream; the reply says whether it succeeded -/
  | flush
  /-- `transport::connect`; an error is its text -/
  | connect
  /-- `Opener::open` for the control substream; an error is its text -/
  | openControl
  /-- `Acceptor::accept` for the control substream; the reply says whether there is one -/
  | acceptControl
  /-- `Uuid::new_v4` -/
  | newV4
  /-- `registry.contains_key` -/
  | containsKey (id : String)
  /-- `registry.insert` of this connection's own carrier pool -/
  | insert (id : String)
  /-- `registry.remove` -/
  | remove (id : String)
  /-- the `select!` of `serve_provider` -/
  | selectProvider
  /-- the `select!` of `serve_consumer` -/
  | selectConsumer
  /-- `try_acquire_owned`; the reply says whether there was a permit -/
  | tryAcquire
  /-- `tokio::spawn` of a relay for a data substream -/
  | spawnRelay (stream : Nat) (id : String)
  /-- `serve_provider` or `serve_consumer` is entered -/
  | enter (role : Role) (id : String)

/-- The type of the reply to a call. -/
@[reducible] def Call.Reply : Call → Type
  | .flush => Bool
  | .connect => Except String Unit
  | .openControl => Except String Unit
  | .acceptControl => Bool
  | .newV4 => Uuid
  | .containsKey _ => Bool
  | .insert _ => Unit
  | .remove _ => Unit
  | .selectProvider => ProviderBranch
  | .selectConsumer => ConsumerBranch
  | .tryAcquire => Bool
  | .spawnRelay _ _ => Unit
  | .enter _ _ => Unit

/-- An `anyhow::Error` of the control layer. -/
inductive ControlError where
  /-- a `serde_json::Error` -/
  | json
  /-- a `std::io::Error` -/
  | io
  /-- a message -/
  | message (text : String)
  /-- a loop ran for as long as it is unrolled -/
  | unrolled
  deriving DecidableEq, Repr

/-- A fallible task that holds a control stream.  The state is the codec's
`read_buf`; it is kept on every path. -/
structure Control (ε α : Type) : Type where
  run : Bytes → Proc Call Call.Reply (Except ε α × Bytes)

namespace Control

variable {ε ε' α β : Type}

/-- What the `?` operator does with a result. -/
def cont (f : α → Control ε β) : Except ε α × Bytes → Proc Call Call.Reply (Except ε β × Bytes)
  | (.ok a, buf) => (f a).run buf
  | (.error e, buf) => .ret (.error e, buf)

instance : Monad (Control ε) where
  pure a := ⟨fun buf => .ret (.ok a, buf)⟩
  bind x f := ⟨fun buf => (x.run buf).bind (cont f)⟩

/-- Return an error. -/
def fail (e : ε) : Control ε α := ⟨fun buf => .ret (.error e, buf)⟩

/-- A call out whose reply is passed on. -/
def call (e : Call) : Control ε e.Reply := ⟨fun buf => .call e fun r => .ret (.ok r, buf)⟩

/-- `map_err`. -/
def mapErr (f : ε → ε') (x : Control ε α) : Control ε' α :=
  ⟨fun buf => (x.run buf).bind fun o => .ret (o.1.mapError f, o.2)⟩

/-- Run `x` and return its result instead of passing its error on. -/
def attempt (x : Control ε α) : Control ε (Except ε α) :=
  ⟨fun buf => (x.run buf).bind fun o => .ret (.ok o.1, o.2)⟩

@[simp] theorem run_pure (a : α) (buf : Bytes) :
    (pure a : Control ε α).run buf = .ret (.ok a, buf) := rfl

@[simp] theorem run_bind (x : Control ε α) (f : α → Control ε β) (buf : Bytes) :
    (x >>= f).run buf = (x.run buf).bind (cont f) := rfl

@[simp] theorem cont_ok (f : α → Control ε β) (a : α) (buf : Bytes) :
    cont f (.ok a, buf) = (f a).run buf := rfl

@[simp] theorem cont_error (f : α → Control ε β) (e : ε) (buf : Bytes) :
    cont f (.error e, buf) = .ret (.error e, buf) := rfl

@[simp] theorem run_fail (e : ε) (buf : Bytes) :
    (fail e : Control ε α).run buf = .ret (.error e, buf) := rfl

@[simp] theorem run_call (e : Call) (buf : Bytes) :
    (call e : Control ε e.Reply).run buf = .call e fun r => .ret (.ok r, buf) := rfl

@[simp] theorem run_mapErr (f : ε → ε') (x : Control ε α) (buf : Bytes) :
    (x.mapErr f).run buf = (x.run buf).bind fun o => .ret (o.1.mapError f, o.2) := rfl

@[simp] theorem run_attempt (x : Control ε α) (buf : Bytes) :
    x.attempt.run buf = (x.run buf).bind fun o => .ret (.ok o.1, o.2) := rfl

end Control

/-! ## The codec -/

section Codec

variable {M : Type} [ControlMsg M]

/-- `self.inner.write_all(buf).await?`. -/
def writeAllControl (buf : Bytes) : Control ControlError Unit :=
  ⟨fun readBuf => (writeAll .io .io .io buf).bind fun r => .ret (r, readBuf)⟩

/-- `self.inner.flush().await?`. -/
def flushControl : Control ControlError Unit := do
  if ← Control.call .flush then pure () else Control.fail .io

/-- `serde_json::to_vec(&msg)`. -/
def encode (t : Text) (msg : M) : Option Bytes := (ControlMsg.serialize msg).map t.print

/-- `serde_json::from_slice(json)`. -/
def decode (M : Type) [ControlMsg M] (t : Text) (json : Bytes) : Option M :=
  (t.parse json).bind ControlMsg.deserialize

/-- The body of `send_client` and of `send_server`. -/
def send (t : Text) (msg : M) : Control ControlError Unit := do
  match encode t msg with
  | none => Control.fail .json
  | some json =>
      writeAllControl json
      writeAllControl [0]
      flushControl

/-- The frame in front of the first zero byte of `read_buf`, and the buffer once the
frame and the zero byte are drained. -/
def takeFrame (readBuf : Bytes) : Option (Bytes × Bytes) :=
  (readBuf.findIdx? (· == 0)).map fun pos =>
    let frame := readBuf.take (pos + 1)
    (frame.take (frame.length - 1), readBuf.drop (pos + 1))

/-- What a receive returns for a frame. -/
def frameResult (M : Type) [ControlMsg M] (t : Text) (json : Bytes) :
    Except ControlError (Option M) :=
  match decode M t json with
  | some msg => .ok (some msg)
  | none => .error .json

/-- The loop of `recv_client` and of `recv_server`, unrolled for `n` reads. -/
def recvLoop (M : Type) [ControlMsg M] (t : Text) :
    Nat → Bytes → Proc Call Call.Reply (Except ControlError (Option M) × Bytes)
  | n, readBuf =>
      match takeFrame readBuf with
      | some (json, rest) => .ret (frameResult M t json, rest)
      | none =>
          match n with
          | 0 => .ret (.error .unrolled, readBuf)
          | n + 1 =>
              .read READ_SIZE fun
                | .data [] => .ret (.ok none, readBuf)
                | .data (b :: bs) => recvLoop M t n (readBuf ++ b :: bs)
                | .timeout => .ret (.error .io, readBuf)
                | .fault => .ret (.error .io, readBuf)

/-- Where a turn of the loop leaves a receive. -/
inductive Poll (M : Type) where
  | pending
  | ready (msg : Option M)

/-- One turn of the loop: what a receive that a `select!` polls does before it is
polled again. -/
def recvTurn (M : Type) [ControlMsg M] (t : Text) : Control ControlError (Poll M) :=
  ⟨fun readBuf =>
    match takeFrame readBuf with
    | some (json, rest) => .ret ((frameResult M t json).map .ready, rest)
    | none =>
        .read READ_SIZE fun
          | .data [] => .ret (.ok (.ready none), readBuf)
          | .data (b :: bs) => .ret (.ok .pending, readBuf ++ b :: bs)
          | .timeout => .ret (.error .io, readBuf)
          | .fault => .ret (.error .io, readBuf)⟩

/-- The body of `recv_client` and of `recv_server`. -/
def recv (M : Type) [ControlMsg M] (t : Text) (n : Nat) : Control ControlError (Option M) :=
  ⟨recvLoop M t n⟩

end Codec

/-- `Delimited::send_client`. -/
def sendClient (t : Text) (msg : ClientMsg) : Control ControlError Unit := send t msg

/-- `Delimited::recv_client`. -/
def recvClient (t : Text) (n : Nat) : Control ControlError (Option ClientMsg) :=
  recv ClientMsg t n

/-- `Delimited::send_server`. -/
def sendServer (t : Text) (msg : ServerMsg) : Control ControlError Unit := send t msg

/-- `Delimited::recv_server`. -/
def recvServer (t : Text) (n : Nat) : Control ControlError (Option ServerMsg) :=
  recv ServerMsg t n

end RustBackup.Transport
