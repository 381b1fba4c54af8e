/-
  Transport/Relay.lean --- carrier pools, relays, and how the two clients get a data
  stream.

  Sources: crates/rb-transport/src/{server,channel,pool}.rs.

  A relay owns the consumer's substream, which is the stream of its program, and
  reaches the registry, the pools and the provider's substream by calls.
  `copy_bidirectional` is one call: the bytes it moves are moved by the system the
  relay is part of.  Substreams are numbers; so are connections, and a connection
  stands for its opener and for the carrier pool that its handler makes.
-/
import RustBackup.Transport.Auth

set_option autoImplicit false

namespace RustBackup.Transport

open RustBackup.Serde RustBackup.Io RustBackup.Core

/-- The byte that announces a data stream. -/
def STREAM_READY : UInt8 := 0

/-! ## Carrier pools -/

/-- `Carrier`: the connection it opens substreams on. -/
structure Carrier where
  opener : Nat
  alive : Bool
  deriving DecidableEq, Repr

/-- `Carrier::new`. -/
def Carrier.new (opener : Nat) : Carrier := ⟨opener, true⟩

/-- `CarrierPool`. -/
structure CarrierPool where
  carriers : List Carrier
  /-- an `AtomicUsize` -/
  next : Nat
  deriving DecidableEq, Repr

namespace CarrierPool

/-- `CarrierPool::new`. -/
def new (first : Nat) : CarrierPool := ⟨[.new first], 0⟩

/-- `CarrierPool::pick`: the next carrier that is alive, and the pool without those that
are not. -/
def pick (pool : CarrierPool) : Option Nat × CarrierPool :=
  let carriers := pool.carriers.filter (·.alive)
  if carriers.isEmpty then (none, { pool with carriers := carriers })
  else
    let idx := pool.next % carriers.length
    (carriers[idx]?.map (·.opener), ⟨carriers, (pool.next + 1) % 2 ^ 64⟩)

/-- A pool as `new` made it, however often it was picked from. -/
theorem pick_of_single {pool : CarrierPool} {first : Nat} (h : pool.carriers = [.new first]) :
    pool.pick.1 = some first ∧ pool.pick.2.carriers = [.new first] := by
  simp [pick, h, Carrier.new, Nat.mod_one]

end CarrierPool

/-! ## Relays -/

/-- A call out of a relay. -/
inductive RelayCall where
  /-- `registry.get`; the reply is the pool of a connection -/
  | get (id : String)
  /-- `pool.pick`; the reply is the opener of a connection -/
  | pick (pool : Nat)
  /-- `opener.open`; an error is its text -/
  | openProvider (opener : Nat)
  /-- `write` on the provider's substream -/
  | writeProvider (provider : Nat) (buf : Bytes)
  /-- `copy_bidirectional_with_sizes`; the reply comes when both directions are done -/
  | copyBidirectional (provider : Nat)

/-- The type of the reply to a call. -/
@[reducible] def RelayCall.Reply : RelayCall → Type
  | .get _ => Option Nat
  | .pick _ => Option Nat
  | .openProvider _ => Except String Nat
  | .writeProvider _ _ => WriteRes
  | .copyBidirectional _ => Except String Unit

/-- An `anyhow::Error` of a relay. -/
inductive RelayError where
  /-- a `std::io::Error` -/
  | io
  /-- a message, or the outermost context -/
  | message (text : String)
  deriving DecidableEq, Repr

/-- There is nobody to relay to. -/
def RelayError.noProvider (id : String) : RelayError :=
  .message s!"no provider registered for '{id}'"

/-- A fallible task that owns a consumer's substream. -/
abbrev RelayTask (α : Type) : Type := Task RelayCall RelayCall.Reply RelayError α

/-- A call out whose reply is passed on. -/
def RelayTask.ask (e : RelayCall) : RelayTask e.Reply := ⟨.call e fun r => .ret (.ok r)⟩

/-- `provider.write_all(buf).await?`. -/
def writeAllProvider (provider : Nat) : Bytes → Proc RelayCall RelayCall.Reply
    (Except RelayError Unit)
  | [] => .ret (.ok ())
  | b :: bs =>
      .call (.writeProvider provider (b :: bs)) fun
        | .wrote 0 => .ret (.error .io)
        | .wrote (n + 1) => writeAllProvider provider (bs.drop n)
        | .timeout => .ret (.error .io)
        | .fault => .ret (.error .io)
termination_by bs => bs.length
decreasing_by simp only [List.length_drop, List.length_cons]; omega

/-- The last step of `relay`. -/
def relayCopy (provider : Nat) : RelayTask Unit := do
  match ← RelayTask.ask (.copyBidirectional provider) with
  | .ok _ => pure ()
  | .error _ => Task.fail .io

/-- `relay` once the provider's substream is open. -/
def relayReady (provider : Nat) : RelayTask Unit := do
  Task.mk (writeAllProvider provider [STREAM_READY])
  relayCopy provider

/-- `relay` once it has an opener. -/
def relayOpen (opener : Nat) : RelayTask Unit := do
  match ← RelayTask.ask (.openProvider opener) with
  | .ok provider => relayReady provider
  | .error _ => Task.fail (.message "provider unavailable")

/-- `relay` once it has a pool. -/
def relayPick (pool : Nat) : RelayTask Unit := do
  match ← RelayTask.ask (.pick pool) with
  | some opener => relayOpen opener
  | none => Task.fail (.message "no live provider carrier")

/-- `relay` once the marker is read. -/
def relayGet (id : String) : RelayTask Unit := do
  match ← RelayTask.ask (.get id) with
  | some pool => relayPick pool
  | none => Task.fail (.noProvider id)

/-- `relay`: the marker is read but not looked at. -/
def relay (id : String) : RelayTask Unit := do
  let _marker ← Task.mk (readExact .io .io .io 1)
  relayGet id

theorem step_writeAllProvider_one {provider : Nat} {b : UInt8}
    {a : Act RelayCall RelayCall.Reply}
    {q : Proc RelayCall RelayCall.Reply (Except RelayError Unit)}
    (hs : (writeAllProvider provider [b]).Step a q) :
    (∃ m, a = .call (.writeProvider provider [b]) (.wrote (m + 1)) ∧ q = .ret (.ok ())) ∨
      ∃ r, a = .call (.writeProvider provider [b]) r ∧ (∀ m, r ≠ .wrote (m + 1)) ∧
        q = .ret (.error .io) := by
  rw [writeAllProvider] at hs
  cases hs with
  | @call _ _ r =>
    cases r with
    | wrote m =>
      cases m with
      | zero => exact .inr ⟨_, rfl, by simp, rfl⟩
      | succ m =>
        refine .inl ⟨m, rfl, ?_⟩
        show writeAllProvider provider (List.drop m []) = _
        rw [List.drop_nil, writeAllProvider]
    | timeout => exact .inr ⟨_, rfl, by simp, rfl⟩
    | fault => exact .inr ⟨_, rfl, by simp, rfl⟩

theorem writeAllProvider_one (provider : Nat) (b : UInt8) :
    (writeAllProvider provider [b]).Step (.call (.writeProvider provider [b]) (.wrote 1))
      (.ret (.ok ())) := by
  have hstep : ∃ q, (writeAllProvider provider [b]).Step
      (.call (.writeProvider provider [b]) (.wrote 1)) q := by
    rw [writeAllProvider]
    exact ⟨_, .call⟩
  obtain ⟨q, hs⟩ := hstep
  rcases step_writeAllProvider_one hs with ⟨m, -, rfl⟩ | ⟨r, ha, hne, -⟩
  · exact hs
  · cases ha
    exact absurd rfl (hne 0)

/-- A relay reads its marker. -/
theorem relay_marks (id : String) (b : UInt8) :
    (relay id).run.Step (.recv (.data [b])) (relayGet id).run :=
  (readExact_one _ _ _ _).bind _

/-- A relay writes its marker. -/
theorem relayReady_marks (provider : Nat) :
    (relayReady provider).run.Step
      (.call (.writeProvider provider [STREAM_READY]) (.wrote 1)) (relayCopy provider).run :=
  (writeAllProvider_one _ _).bind _

/-- Where a relay stands. -/
inductive RelayPhase where
  /-- it waits for the marker -/
  | waiting
  /-- it is about to look its id up -/
  | looking
  /-- it has a pool -/
  | found (pool : Nat)
  /-- it has an opener -/
  | picked (opener : Nat)
  /-- it has opened a substream to the provider -/
  | opened (provider : Nat)
  /-- it copies in both directions -/
  | copying (provider : Nat)
  | ended (r : Except RelayError Unit)

namespace RelayPhase

/-- What is left of `relay`. -/
def task (id : String) : RelayPhase → Proc RelayCall RelayCall.Reply (Except RelayError Unit)
  | .waiting => (relay id).run
  | .looking => (relayGet id).run
  | .found pool => (relayPick pool).run
  | .picked opener => (relayOpen opener).run
  | .opened provider => (relayReady provider).run
  | .copying provider => (relayCopy provider).run
  | .ended r => .ret r

/-- The steps of `relay`. -/
inductive Next (id : String) :
    RelayPhase → Act RelayCall RelayCall.Reply → RelayPhase → Prop where
  | marked (b : UInt8) : Next id .waiting (.recv (.data [b])) .looking
  | unmarked {q : ReadRes} (hq : ∀ b bs, q ≠ .data (b :: bs)) :
      Next id .waiting (.recv q) (.ended (.error .io))
  | found (pool : Nat) : Next id .looking (.call (.get id) (some pool)) (.found pool)
  | missing : Next id .looking (.call (.get id) none) (.ended (.error (.noProvider id)))
  | picked (pool opener : Nat) :
      Next id (.found pool) (.call (.pick pool) (some opener)) (.picked opener)
  | dead (pool : Nat) :
      Next id (.found pool) (.call (.pick pool) none)
        (.ended (.error (.message "no live provider carrier")))
  | opened (opener provider : Nat) :
      Next id (.picked opener) (.call (.openProvider opener) (.ok provider)) (.opened provider)
  | unavailable (opener : Nat) (e : String) :
      Next id (.picked opener) (.call (.openProvider opener) (.error e))
        (.ended (.error (.message "provider unavailable")))
  | ready (provider m : Nat) :
      Next id (.opened provider) (.call (.writeProvider provider [STREAM_READY]) (.wrote (m + 1)))
        (.copying provider)
  | unready (provider : Nat) {q : WriteRes} (hq : ∀ m, q ≠ .wrote (m + 1)) :
      Next id (.opened provider) (.call (.writeProvider provider [STREAM_READY]) q)
        (.ended (.error .io))
  | copied (provider : Nat) (q : Except String Unit) {r : Except RelayError Unit}
      (hr : r = .ok () ∨ r = .error .io) :
      Next id (.copying provider) (.call (.copyBidirectional provider) q) (.ended r)

/-- Every step of a relay is one of these. -/
theorem next_of_step {id : String} {ph : RelayPhase} {a : Act RelayCall RelayCall.Reply}
    {q : Proc RelayCall RelayCall.Reply (Except RelayError Unit)} (hs : (ph.task id).Step a q) :
    ∃ ph', q = ph'.task id ∧ Next id ph a ph' := by
  cases ph with
  | waiting =>
    obtain ⟨q', hs', rfl⟩ := hs.of_bind (not_finished_readExact _ _ _ 0)
    rcases step_readExact_one hs' with ⟨b, rfl, rfl⟩ | ⟨r, e, rfl, hr, rfl, he⟩
    · exact ⟨.looking, rfl, .marked b⟩
    · obtain rfl : e = .io := by
        rcases he with he | he | he
        · exact he
        · exact he
        · exact he
      exact ⟨.ended _, rfl, .unmarked hr⟩
  | looking =>
    cases hs with
    | @call _ _ r =>
      cases r with
      | none => exact ⟨_, rfl, .missing⟩
      | some pool => exact ⟨.found pool, rfl, .found pool⟩
  | found pool =>
    cases hs with
    | @call _ _ r =>
      cases r with
      | none => exact ⟨_, rfl, .dead pool⟩
      | some opener => exact ⟨.picked opener, rfl, .picked pool opener⟩
  | picked opener =>
    cases hs with
    | @call _ _ r =>
      cases r with
      | error e => exact ⟨_, rfl, .unavailable opener e⟩
      | ok provider => exact ⟨.opened provider, rfl, .opened opener provider⟩
  | opened provider =>
    have hunfinished : ¬ (writeAllProvider provider [STREAM_READY]).Finished := by
      rw [writeAllProvider]
      rintro ⟨x, hx⟩
      cases hx
    obtain ⟨q', hs', rfl⟩ := hs.of_bind hunfinished
    rcases step_writeAllProvider_one hs' with ⟨m, rfl, rfl⟩ | ⟨r, rfl, hr, rfl⟩
    · exact ⟨.copying provider, rfl, .ready provider m⟩
    · exact ⟨.ended _, rfl, .unready provider hr⟩
  | copying provider =>
    cases hs with
    | @call _ _ r =>
      cases r with
      | error e => exact ⟨.ended _, rfl, .copied provider _ (.inr rfl)⟩
      | ok _ => exact ⟨.ended _, rfl, .copied provider _ (.inl rfl)⟩
  | ended r => cases hs

/-- The call a relay is about to make. -/
def head (id : String) : RelayPhase → Option RelayCall
  | .waiting => none
  | .looking => some (.get id)
  | .found pool => some (.pick pool)
  | .picked opener => some (.openProvider opener)
  | .opened provider => some (.writeProvider provider [STREAM_READY])
  | .copying provider => some (.copyBidirectional provider)
  | .ended _ => none

theorem head_task (id : String) (ph : RelayPhase) : (ph.task id).head? = ph.head id := by
  cases ph with
  | waiting =>
    show (Proc.bind (readExact _ _ _ 1) _).head? = none
    rw [readExact, readExactFrom_succ]
    rfl
  | opened provider =>
    show (Proc.bind (writeAllProvider provider [STREAM_READY]) _).head? = _
    rw [writeAllProvider]
    rfl
  | _ => rfl

/-- A relay that copies is in the phase that copies. -/
theorem eq_copying {id : String} {ph : RelayPhase} {provider : Nat}
    (h : ph.task id = (relayCopy provider).run) : ph = .copying provider := by
  have hhead : ph.head id = some (.copyBidirectional provider) := by
    rw [← head_task, h]
    rfl
  cases ph with
  | copying provider' =>
    cases hhead
    rfl
  | _ => cases hhead

end RelayPhase

/-! ## Data streams of the clients -/

/-- A call out of `open_stream` or `accept_stream`. -/
inductive ChannelCall where
  /-- `opener.open`; an error is its text -/
  | openStream
  /-- `acceptor.accept` -/
  | acceptStream

/-- The type of the reply to a call. -/
@[reducible] def ChannelCall.Reply : ChannelCall → Type
  | .openStream => Except String Nat
  | .acceptStream => Option Nat

/-- A fallible task that owns a data substream once it has one. -/
abbrev ChannelTask (α : Type) : Type := Task ChannelCall ChannelCall.Reply BackupError α

/-- A call out whose reply is passed on. -/
def ChannelTask.ask (e : ChannelCall) : ChannelTask e.Reply := ⟨.call e fun r => .ret (.ok r)⟩

/-- `open_stream` once the substream is open. -/
def openReady (d : Deps) (stream : Nat) : ChannelTask Nat := do
  let failed := connectError s!"write ready: {d.display .io}"
  Task.mk (writeAll failed failed failed [STREAM_READY])
  pure stream

/-- `PairedChannel::open_stream`. -/
def openStream (d : Deps) : PairedChannel → ChannelTask Nat
  | .destination => do
      match ← ChannelTask.ask .openStream with
      | .ok stream => openReady d stream
      | .error e => Task.fail (connectError s!"open stream: {e}")
  | .source => Task.fail (connectError "source cannot open streams")

/-- `accept_stream` once it has a substream. -/
def acceptReady (d : Deps) (stream : Nat) : ChannelTask Nat := do
  let failed := connectError s!"read ready: {d.display .io}"
  let marker ← Task.mk (readExact failed failed failed 1)
  if marker[0]? = some STREAM_READY then pure stream
  else Task.fail (connectError "invalid stream ready marker")

/-- `PairedChannel::accept_stream`. -/
def acceptStream (d : Deps) : PairedChannel → ChannelTask Nat
  | .source => do
      match ← ChannelTask.ask .acceptStream with
      | some stream => acceptReady d stream
      | none => Task.fail (connectError "acceptor closed")
  | .destination => Task.fail (connectError "destination cannot accept streams")

theorem not_finished_openReady (d : Deps) (stream : Nat) :
    ¬ (openReady d stream).run.Finished :=
  fun h => not_finished_writeAll _ _ _ _ [] h.of_bind

theorem not_finished_acceptReady (d : Deps) (stream : Nat) :
    ¬ (acceptReady d stream).run.Finished :=
  fun h => not_finished_readExact _ _ _ 0 h.of_bind

/-- The step of `open_stream` that writes the marker. -/
theorem step_openReady {d : Deps} {stream : Nat} {a : Act ChannelCall ChannelCall.Reply}
    {q : Proc ChannelCall ChannelCall.Reply (Except BackupError Nat)}
    (hs : (openReady d stream).run.Step a q) :
    (a = .send [STREAM_READY] (.wrote 1) ∧ q = .ret (.ok stream)) ∨
      ∃ r e, a = .send [STREAM_READY] r ∧ (∀ m, r ≠ .wrote (m + 1)) ∧ q = .ret (.error e) := by
  obtain ⟨q', hs', rfl⟩ := hs.of_bind (not_finished_writeAll _ _ _ _ [])
  rcases step_writeAll_one hs' with ⟨rfl, rfl⟩ | ⟨r, e, rfl, hr, rfl⟩
  · exact .inl ⟨rfl, rfl⟩
  · exact .inr ⟨r, e, rfl, hr, rfl⟩

/-- The step of `accept_stream` that reads the marker. -/
theorem step_acceptReady {d : Deps} {stream : Nat} {a : Act ChannelCall ChannelCall.Reply}
    {q : Proc ChannelCall ChannelCall.Reply (Except BackupError Nat)}
    (hs : (acceptReady d stream).run.Step a q) :
    (a = .recv (.data [STREAM_READY]) ∧ q = .ret (.ok stream)) ∨
      ∃ r e, a = .recv r ∧ q = .ret (.error e) := by
  obtain ⟨q', hs', rfl⟩ := hs.of_bind (not_finished_readExact _ _ _ 0)
  rcases step_readExact_one hs' with ⟨b, rfl, rfl⟩ | ⟨r, e, rfl, -, rfl, -⟩
  · by_cases hb : b = STREAM_READY
    · subst hb
      exact .inl ⟨rfl, rfl⟩
    · refine .inr ⟨_, connectError "invalid stream ready marker", rfl, ?_⟩
      have hmarker : ¬ [b][0]? = some STREAM_READY := by simpa using hb
      simp only [Proc.ret_bind, Task.cont_ok, if_neg hmarker, Task.run_fail]
  · exact .inr ⟨r, e, rfl, rfl⟩

/-- `open_stream` writes its marker. -/
theorem openReady_marks (d : Deps) (k : Nat) :
    (openReady d k).run.Step (.send [STREAM_READY] (.wrote 1)) (.ret (.ok k)) :=
  (writeAll_one _ _ _ _).bind _

/-- `accept_stream` reads its marker. -/
theorem acceptReady_marks (d : Deps) (stream : Nat) :
    (acceptReady d stream).run.Step (.recv (.data [STREAM_READY])) (.ret (.ok stream)) :=
  (readExact_one _ _ _ _).bind _

end RustBackup.Transport
