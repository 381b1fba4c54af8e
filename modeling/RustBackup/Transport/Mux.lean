/-
  Transport/Mux.lean --- the task that drives a multiplexed connection.

  Source: crates/rb-transport/src/mux.rs, `spawn_driver` and `drive`.

  The driver is a loop: it polls the requests of the openers and the connection until
  there is something to do, and then does it.  Substreams that the peer has opened go
  into a bounded channel, from which the acceptor takes them; while that is full the
  driver waits, and a driver that waits does not poll.  The connection itself is a
  library: what its polls return is given by whoever is around the driver.
-/
import RustBackup.Core.Session
import RustBackup.Transport.World

set_option autoImplicit false

namespace RustBackup.Transport

open RustBackup.Serde RustBackup.Io RustBackup.Core

/-- The capacity of the channel between driver and acceptor. -/
def INBOUND_CAPACITY : Nat := 32

/-! ## Polling -/

/-- `std::task::Poll`. -/
inductive Polled (α : Type) where
  | pending
  | ready (value : α)

/-- A request for a new substream; it stands for its `oneshot` sender. -/
abbrev OpenRequest : Type := Nat

/-- What one round of the driver found to do. -/
inductive DriveStep where
  | inbound (stream : Nat)
  | opened (result : Except String Nat)
  | done
  deriving DecidableEq, Repr

/-- The driver's variables. -/
structure Drive where
  pending : Option OpenRequest
  openersGone : Bool
  deriving DecidableEq, Repr

namespace Drive

/-- A driver that was just spawned. -/
def new : Drive := ⟨none, false⟩

/-- The driver's variables once `open_rx` was polled, if it is. -/
def pollRequests (v : Drive) (requests : Polled (Option OpenRequest)) : Drive :=
  if v.pending.isNone && !v.openersGone then
    match requests with
    | .ready (some reply) => { v with pending := some reply }
    | .ready none => { v with openersGone := true }
    | .pending => v
  else v

/-- What `conn.poll_next_inbound` comes to. -/
def pollInbound : Polled (Option (Except String Nat)) → Polled DriveStep
  | .ready (some (.ok stream)) => .ready (.inbound stream)
  | .ready (some (.error _)) => .ready .done
  | .ready none => .ready .done
  | .pending => .pending

/-- The closure that the driver polls.  `requests`, `outbound` and `inbound` are what
`open_rx.poll_recv`, `conn.poll_new_outbound` and `conn.poll_next_inbound` return if
they are polled. -/
def poll (v : Drive) (requests : Polled (Option OpenRequest))
    (outbound : Polled (Except String Nat)) (inbound : Polled (Option (Except String Nat))) :
    Drive × Polled DriveStep :=
  let v := v.pollRequests requests
  if v.pending.isSome then
    match outbound with
    | .ready result => (v, .ready (.opened result))
    | .pending => (v, pollInbound inbound)
  else (v, pollInbound inbound)

/-- A substream comes in when the connection has one and nothing else is ready. -/
theorem poll_inbound (v : Drive) (stream : Nat) :
    v.poll .pending .pending (.ready (some (.ok stream))) = (v, .ready (.inbound stream)) := by
  have hsame : v.pollRequests .pending = v := ite_self _
  unfold poll
  rw [hsame]
  exact ite_self _

theorem of_pollInbound {inbound : Polled (Option (Except String Nat))} {stream : Nat}
    (h : pollInbound inbound = .ready (.inbound stream)) :
    inbound = .ready (some (.ok stream)) := by
  cases inbound with
  | pending => cases h
  | ready r =>
    cases r with
    | none => cases h
    | some r =>
      cases r with
      | error e => cases h
      | ok s => cases h; rfl

/-- A substream comes in only if the connection has handed it out. -/
theorem of_poll_inbound {v v' : Drive} {requests : Polled (Option OpenRequest)}
    {outbound : Polled (Except String Nat)} {inbound : Polled (Option (Except String Nat))}
    {stream : Nat} (h : v.poll requests outbound inbound = (v', .ready (.inbound stream))) :
    inbound = .ready (some (.ok stream)) := by
  unfold poll at h
  dsimp only at h
  split at h
  · cases outbound with
    | ready result => cases h
    | pending => exact of_pollInbound (Prod.mk.inj h).2
  · exact of_pollInbound (Prod.mk.inj h).2

end Drive

/-! ## The loop -/

/-- Where the driver stands. -/
inductive Driver where
  /-- it polls -/
  | polling (v : Drive)
  /-- it sends a substream to the acceptor -/
  | handing (v : Drive) (stream : Nat)
  /-- it closes the connection -/
  | closing
  /-- it has returned, and its end of the channel is dropped -/
  | returned
  deriving DecidableEq, Repr

namespace Driver

/-- What follows a round.  A result goes to the request that it is for; whether anybody
still waits for it does not matter. -/
def after (v : Drive) : Polled DriveStep → Driver
  | .pending => .polling v
  | .ready (.opened _) => .polling { v with pending := none }
  | .ready (.inbound stream) => .handing v stream
  | .ready .done => .closing

/-- The substream in the driver's hands. -/
def stream? : Driver → Option Nat
  | .handing _ stream => some stream
  | _ => none

/-- It has not left its loop. -/
def Running : Driver → Prop
  | .polling _ => True
  | .handing _ _ => True
  | _ => False

end Driver

end RustBackup.Transport
