/-
  Transport/Server.lean --- the connection handlers of the coordination server.

  Source: crates/rb-transport/src/server.rs.

  A handler serves one connection.  It owns the connection's control stream and
  reaches the registry, the semaphore and the acceptor by calls.  Relays, which own
  two data substreams, are in `Transport/Relay.lean`.

  The two serve loops run until their client is gone.  They are unrolled like the
  receive loop.
-/
import RustBackup.Transport.Auth
import RustBackup.Io.Backpressure

set_option autoImplicit false

namespace RustBackup.Transport

open RustBackup.Serde RustBackup.Io

/-- What a serve loop does with the message of its `recv_client` branch: it goes on,
unless the stream has ended. -/
def onMessage (again : Control ControlError Unit) : Poll ClientMsg → Control ControlError Unit
  | .pending => again
  | .ready (some _) => again
  | .ready none => pure ()

/-- The heartbeat branch of a serve loop. -/
def onTick (d : Deps) (again : Control ControlError Unit) : Control ControlError Unit := do
  match ← (sendServer d.json .heartbeat).attempt with
  | .ok _ => again
  | .error _ => pure ()

/-- The loop of `serve_provider`, unrolled for `n` turns. -/
def providerLoop (d : Deps) : Nat → Control ControlError Unit
  | 0 => Control.fail .unrolled
  | n + 1 => do
      match ← Control.call .selectProvider with
      | .tick => onTick d (providerLoop d n)
      | .control => onMessage (providerLoop d n) (← recvTurn ClientMsg d.json)

/-- `serve_provider`. -/
def serveProvider (d : Deps) (n : Nat) (id : String) : Control ControlError Unit := do
  if ← Control.call (.containsKey id) then
    sendServer d.json (.error "channel already in use")
  else
    Control.call (.insert id)
    -- the guard is dropped on every way out of the rest
    let r ← Control.attempt do
      sendServer d.json .ok
      providerLoop d n
    Control.call (.remove id)
    match r with
    | .ok _ => pure ()
    | .error e => Control.fail e

/-- The loop of `serve_consumer`, unrolled for `n` turns. -/
def consumerLoop (d : Deps) (id : String) : Nat → Control ControlError Unit
  | 0 => Control.fail .unrolled
  | n + 1 => do
      match ← Control.call .selectConsumer with
      | .tick => onTick d (consumerLoop d id n)
      | .control => onMessage (consumerLoop d id n) (← recvTurn ClientMsg d.json)
      | .inbound none => pure ()
      | .inbound (some stream) =>
          if ← Control.call .tryAcquire then
            Control.call (.spawnRelay stream id)
            consumerLoop d id n
          else
            consumerLoop d id n

/-- `serve_consumer`. -/
def serveConsumer (d : Deps) (n : Nat) (id : String) : Control ControlError Unit := do
  sendServer d.json .ok
  consumerLoop d id n

/-- What `handle_conn` does with the first message of an admitted client. -/
def dispatch (d : Deps) (n : Nat) : Option ClientMsg → Control ControlError Unit
  | some (.register channel) => do
      Control.call (.enter .provider channel)
      serveProvider d n channel
  | some (.connect channel) => do
      Control.call (.enter .consumer channel)
      serveConsumer d n channel
  | some _ => pure ()
  | none => pure ()

/-- `handle_conn`. -/
def handleConn (d : Deps) (n : Nat) (auth : Option Authenticator) :
    Control ControlError Unit := do
  if ← Control.call .acceptControl then
    let first ← recvClient d.json n
    -- authentication comes after the first message
    match auth with
    | some authenticator => authenticator.serverHandshake d n
    | none => pure ()
    dispatch d n first
  else
    pure ()

/-! ## Every read has room and every write has bytes -/

namespace Control

variable {ε ε' α β : Type}

/-- Every read has room for something and every write has something to write. -/
def Regular (x : Control ε α) : Prop := ∀ buf, (x.run buf).Regular

theorem regular_bind {x : Control ε α} {f : α → Control ε β} (hx : x.Regular)
    (hf : ∀ a, (f a).Regular) : (x >>= f).Regular := by
  intro buf
  refine (hx buf).bind fun o => ?_
  obtain ⟨r, buf'⟩ := o
  cases r with
  | ok a => exact hf a buf'
  | error e => exact trivial

theorem regular_pure (a : α) : (pure a : Control ε α).Regular := fun _ => trivial

theorem regular_fail (e : ε) : (fail e : Control ε α).Regular := fun _ => trivial

theorem regular_call (e : Call) : (call e : Control ε e.Reply).Regular := fun _ _ => trivial

theorem regular_mapErr {x : Control ε α} (hx : x.Regular) (f : ε → ε') : (x.mapErr f).Regular :=
  fun buf => (hx buf).bind fun _ => trivial

theorem regular_attempt {x : Control ε α} (hx : x.Regular) : x.attempt.Regular :=
  fun buf => (hx buf).bind fun _ => trivial

end Control

section Regular

open Control

variable {M : Type} [ControlMsg M]

theorem regular_send (t : Text) (msg : M) : (send t msg).Regular := by
  unfold send
  cases encode t msg with
  | none => exact regular_fail _
  | some json =>
    have hwrite : ∀ bs, (writeAllControl bs).Regular :=
      fun bs buf => (coalescing_writeAll _ _ _ bs).regular.bind fun _ => trivial
    refine regular_bind (hwrite json) fun _ => regular_bind (hwrite [0]) fun _ => ?_
    refine regular_bind (regular_call _) fun r => ?_
    split
    · exact regular_pure _
    · exact regular_fail _

theorem regular_recv (t : Text) (n : Nat) : (recv M t n).Regular := by
  intro buf
  show (recvLoop M t n buf).Regular
  induction n generalizing buf with
  | zero =>
    cases hf : takeFrame buf with
    | some frame => rw [recvLoop_of_frame hf]; exact trivial
    | none => rw [recvLoop_zero hf]; exact trivial
  | succ n ih =>
    cases hf : takeFrame buf with
    | some frame => rw [recvLoop_of_frame hf]; exact trivial
    | none =>
      rw [recvLoop_succ hf]
      refine ⟨by decide, fun r _ => ?_⟩
      cases r with
      | data bs =>
        cases bs with
        | nil => exact trivial
        | cons b bs => exact ih _
      | timeout => exact trivial
      | fault => exact trivial

theorem regular_recvTurn (t : Text) : (recvTurn M t).Regular := by
  intro buf
  unfold recvTurn
  cases hf : takeFrame buf with
  | some frame => simp only [hf]; exact trivial
  | none =>
    simp only [hf]
    refine ⟨by decide, fun r _ => ?_⟩
    cases r with
    | data bs =>
      cases bs with
      | nil => exact trivial
      | cons b bs => exact trivial
    | timeout => exact trivial
    | fault => exact trivial

variable (d : Deps) (n : Nat)

theorem regular_clientHandshake (a : Authenticator) : (a.clientHandshake d n).Regular := by
  refine regular_bind (regular_recv _ _) fun msg => ?_
  cases msg with
  | none => exact regular_fail _
  | some msg =>
    cases msg with
    | challenge uuid => exact regular_send _ _
    | ok => exact regular_fail _
    | heartbeat => exact regular_fail _
    | error reason => exact regular_fail _

theorem regular_connectAs (role : Role) (channel : String) (secret : Option String) :
    (connectAs d n role channel secret).Regular := by
  have hstep : ∀ what r, (connectStep what r).Regular := by
    intro what r
    cases r with
    | ok _ => exact regular_pure _
    | error e => exact regular_fail _
  refine regular_bind (regular_call _) fun _ => regular_bind (hstep _ _) fun _ => ?_
  refine regular_bind (regular_call _) fun _ => regular_bind (hstep _ _) fun _ => ?_
  refine regular_bind (regular_mapErr (regular_send _ _) _) fun _ => ?_
  have hanswer : (awaitAnswer d n role).Regular := by
    refine regular_bind (regular_mapErr (regular_recv _ _) _) fun msg => ?_
    cases msg with
    | none => exact regular_fail _
    | some msg =>
      cases msg with
      | challenge uuid => exact regular_fail _
      | ok => exact regular_pure _
      | heartbeat => exact regular_fail _
      | error reason => exact regular_fail _
  cases secret with
  | none => exact hanswer
  | some secret =>
    exact regular_bind (regular_mapErr (regular_clientHandshake d n _) _) fun _ => hanswer

theorem regular_onMessage {again : Control ControlError Unit} (h : again.Regular)
    (poll : Poll ClientMsg) : (onMessage again poll).Regular := by
  cases poll with
  | pending => exact h
  | ready msg =>
    cases msg with
    | none => exact regular_pure _
    | some msg => exact h

theorem regular_onTick {again : Control ControlError Unit} (h : again.Regular) :
    (onTick d again).Regular := by
  refine regular_bind (regular_attempt (regular_send _ _)) fun r => ?_
  cases r with
  | ok _ => exact h
  | error e => exact regular_pure _

theorem regular_providerLoop : (providerLoop d n).Regular := by
  induction n with
  | zero => exact regular_fail _
  | succ n ih =>
    refine regular_bind (regular_call _) fun branch => ?_
    cases branch with
    | tick => exact regular_onTick d ih
    | control => exact regular_bind (regular_recvTurn _) fun poll => regular_onMessage ih poll

theorem regular_consumerLoop (id : String) : (consumerLoop d id n).Regular := by
  induction n with
  | zero => exact regular_fail _
  | succ n ih =>
    refine regular_bind (regular_call _) fun branch => ?_
    cases branch with
    | tick => exact regular_onTick d ih
    | control => exact regular_bind (regular_recvTurn _) fun poll => regular_onMessage ih poll
    | inbound stream =>
      cases stream with
      | none => exact regular_pure _
      | some stream =>
        refine regular_bind (regular_call _) fun permit => ?_
        split
        · exact regular_bind (regular_call _) fun _ => ih
        · exact ih

theorem regular_dispatch (first : Option ClientMsg) : (dispatch d n first).Regular := by
  cases first with
  | none => exact regular_pure _
  | some msg =>
    cases msg with
    | authenticate tag => exact regular_pure _
    | heartbeat => exact regular_pure _
    | connect channel =>
      refine regular_bind (regular_call _) fun _ => ?_
      exact regular_bind (regular_send _ _) fun _ => regular_consumerLoop d n channel
    | register channel =>
      refine regular_bind (regular_call _) fun _ => regular_bind (regular_call _) fun taken => ?_
      split
      · exact regular_send _ _
      · refine regular_bind (regular_call _) fun _ => ?_
        refine regular_bind (regular_attempt ?_) fun r => regular_bind (regular_call _) fun _ => ?_
        · exact regular_bind (regular_send _ _) fun _ => regular_providerLoop d n
        · cases r with
          | ok _ => exact regular_pure _
          | error e => exact regular_fail _

theorem regular_handleConn (auth : Option Authenticator) : (handleConn d n auth).Regular := by
  refine regular_bind (regular_call _) fun accepted => ?_
  split
  · refine regular_bind (regular_recv _ _) fun first => ?_
    cases auth with
    | none => exact regular_dispatch d n first
    | some a =>
      refine regular_bind ?_ fun _ => regular_dispatch d n first
      refine regular_bind (regular_call _) fun uuid => regular_bind (regular_send _ _) fun _ => ?_
      refine regular_bind (regular_recv _ _) fun msg => ?_
      split
      · split
        · exact regular_pure _
        · exact regular_fail _
      · exact regular_fail _
  · exact regular_pure _

end Regular

end RustBackup.Transport
