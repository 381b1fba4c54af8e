/-
  Transport/Auth.lean --- the shared-secret handshake and the two clients.

  Sources: crates/rb-transport/src/{auth,client}.rs.

  The message authentication code is a parameter: HMAC-SHA256 under the SHA-256 of
  the secret.  `connect_source` and `connect_destination` differ in their first
  message, in one word of an error and in the channel they return; they are
  instances of `connectAs`.
-/
import RustBackup.Transport.Codec
import RustBackup.Serde.Text

set_option autoImplicit false

namespace RustBackup.Transport

open RustBackup.Serde RustBackup.Io RustBackup.Core

/-- The libraries the transport relies on. -/
structure Deps where
  json : Text
  /-- the authentication code of a challenge under a secret -/
  mac : String → Bytes → Bytes
  /-- the text of an error -/
  display : ControlError → String
  /-- the derived `Debug` text of a response -/
  debug : Option ServerMsg → String

/-- Libraries to run the transport with. -/
def sampleDeps : Deps where
  json := Text.compact
  mac secret challenge := secret.toUTF8.toList ++ challenge
  display _ := ""
  debug _ := ""

/-! ## Authentication -/

/-- The value of a hexadecimal digit of either case. -/
def hexValue (c : Char) : Option Nat :=
  if '0' ≤ c ∧ c ≤ '9' then some (c.toNat - '0'.toNat)
  else if 'a' ≤ c ∧ c ≤ 'f' then some (c.toNat - 'a'.toNat + 10)
  else if 'A' ≤ c ∧ c ≤ 'F' then some (c.toNat - 'A'.toNat + 10)
  else none

/-- The bytes of pairs of digits. -/
def hexPairs : List Char → Option Bytes
  | [] => some []
  | [_] => none
  | c :: c' :: cs => do
      return UInt8.ofNat (16 * (← hexValue c) + (← hexValue c')) :: (← hexPairs cs)

/-- `hex::decode`. -/
def hexDecode (s : String) : Option Bytes := hexPairs s.toList

/-- `Authenticator`: the secret it was made from. -/
structure Authenticator where
  secret : String
  deriving DecidableEq, Repr

namespace Authenticator

/-- `Authenticator::answer`. -/
def answer (d : Deps) (a : Authenticator) (challenge : Uuid) : String :=
  hexEncode (d.mac a.secret challenge.bytes)

/-- `Authenticator::validate`. -/
def validate (d : Deps) (a : Authenticator) (challenge : Uuid) (tag : String) : Bool :=
  match hexDecode tag with
  | some tag => tag = d.mac a.secret challenge.bytes
  | none => false

/-- `Authenticator::server_handshake`. -/
def serverHandshake (d : Deps) (n : Nat) (a : Authenticator) : Control ControlError Unit := do
  let challenge ← Control.call .newV4
  sendServer d.json (.challenge challenge)
  match ← recvClient d.json n with
  | some (.authenticate tag) =>
      if a.validate d challenge tag then pure ()
      else Control.fail (.message "invalid secret")
  | _ => Control.fail (.message "server requires secret, but no secret was provided")

/-- `Authenticator::client_handshake`. -/
def clientHandshake (d : Deps) (n : Nat) (a : Authenticator) : Control ControlError Unit := do
  match ← recvServer d.json n with
  | some (.challenge challenge) => sendClient d.json (.authenticate (a.answer d challenge))
  | some _ =>
      Control.fail (.message "expected authentication challenge, but no secret was required")
  | none => Control.fail (.message "connection closed before authentication")

end Authenticator

/-! ## The clients -/

/-- `PairedChannel`. -/
inductive PairedChannel where
  | source
  | destination
  deriving DecidableEq, Repr

/-- The first message of a client. -/
def Role.request (channel : String) : Role → ClientMsg
  | .provider => .register channel
  | .consumer => .connect channel

theorem Role.request_inj {role role' : Role} {channel channel' : String}
    (h : role.request channel = role'.request channel') : role = role' ∧ channel = channel' := by
  cases role with
  | provider =>
    cases role' with
    | provider => exact ⟨rfl, ClientMsg.register.inj h⟩
    | consumer => cases h
  | consumer =>
    cases role' with
    | provider => cases h
    | consumer => exact ⟨rfl, ClientMsg.connect.inj h⟩

/-- A request has a JSON form. -/
theorem Role.exists_encode_request (t : Text) (role : Role) (channel : String) :
    ∃ req, encode t (role.request channel) = some req := by
  cases role with
  | provider => exact ⟨_, rfl⟩
  | consumer => exact ⟨_, rfl⟩

/-- How a client's errors name its first message. -/
def Role.verb : Role → String
  | .provider => "register"
  | .consumer => "connect"

/-- The channel a client returns. -/
def Role.channel : Role → PairedChannel
  | .provider => .source
  | .consumer => .destination

/-- `BackupError::phase(Phase::Connect, ..)`. -/
def connectError (message : String) : BackupError := .inPhase .connect message

/-- A call that reports its error as a text. -/
def connectStep (what : String) (r : Except String Unit) : Control BackupError Unit :=
  match r with
  | .ok _ => pure ()
  | .error e => Control.fail (connectError s!"{what}: {e}")

/-- The server's answer to the first message. -/
def awaitAnswer (d : Deps) (n : Nat) (role : Role) : Control BackupError PairedChannel := do
  match ← (recvServer d.json n).mapErr fun e => connectError s!"recv: {d.display e}" with
  | some .ok => pure role.channel
  | some (.error reason) => Control.fail (connectError s!"server error: {reason}")
  | other => Control.fail (connectError s!"unexpected response: {d.debug other}")

/-- The body of `connect_source` and of `connect_destination`. -/
def connectAs (d : Deps) (n : Nat) (role : Role) (channel : String) (secret : Option String) :
    Control BackupError PairedChannel := do
  connectStep "transport" (← Control.call .connect)
  connectStep "open control" (← Control.call .openControl)
  -- the first message goes out before authentication
  (sendClient d.json (role.request channel)).mapErr fun e =>
    connectError s!"send {role.verb}: {d.display e}"
  match secret with
  | some secret =>
      ((Authenticator.mk secret).clientHandshake d n).mapErr fun e =>
        connectError s!"auth: {d.display e}"
  | none => pure ()
  awaitAnswer d n role

/-- `connect_source`. -/
def connectSource (d : Deps) (n : Nat) (channel : String) (secret : Option String) :
    Control BackupError PairedChannel :=
  connectAs d n .provider channel secret

/-- `connect_destination`. -/
def connectDestination (d : Deps) (n : Nat) (channel : String) (secret : Option String) :
    Control BackupError PairedChannel :=
  connectAs d n .consumer channel secret

end RustBackup.Transport
