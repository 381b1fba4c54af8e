/-
  Transport/World.lean --- the coordination server with all its clients.

  Sources: crates/rb-transport/src/{server,channel,mux}.rs.

  The handlers of any number of connections share the registry, the semaphore, the
  carrier pools, the data substreams and the relays.  The substreams are reliable
  pipes.  Besides the handlers, relays move, `copy_bidirectional` moves bytes,
  destinations open substreams, sources accept them, and the applications at both
  ends read and write.  Who moves next, how much is moved and what fails are free.

  Everything but the registry belongs to a line: the consumer's substream `k`, its
  relay, and the provider's substream that the relay has opened.  `Line` says how the
  bytes of a line hang together, and every event leaves all lines but one alone.
-/
import RustBackup.Transport.Registry
import RustBackup.Transport.Relay
import RustBackup.Io.Pipe

set_option autoImplicit false

namespace RustBackup.Transport

open RustBackup.Serde RustBackup.Io RustBackup.Core

/-! ## State -/

/-- A data substream that a destination has opened, with both of its ends. -/
structure Consumer where
  /-- the connection it is multiplexed over -/
  conn : Nat
  /-- the server's acceptor has handed it out -/
  accepted : Bool
  /-- what is left of `open_stream` -/
  task : Proc ChannelCall ChannelCall.Reply (Except BackupError Nat)
  /-- from the destination to the server -/
  up : Pipe
  /-- from the server to the destination -/
  down : Pipe
  /-- what the application has written since `open_stream` returned -/
  wrote : Bytes
  /-- what the application has read -/
  read : Bytes

/-- A data substream that a relay has opened to a source, with both of its ends. -/
structure Provider where
  /-- the connection it is multiplexed over -/
  conn : Nat
  /-- the consumer's substream that its relay was spawned for -/
  relay : Nat
  /-- what is left of `accept_stream`, once that has the substream -/
  task : Option (Proc ChannelCall ChannelCall.Reply (Except BackupError Nat))
  /-- from the source to the server -/
  up : Pipe
  /-- from the server to the source -/
  down : Pipe
  /-- what the application has written since `accept_stream` returned -/
  wrote : Bytes
  /-- what the application has read since `accept_stream` returned -/
  read : Bytes

/-- A relay. -/
structure Relay where
  id : String
  /-- what is left of `relay` -/
  task : Proc RelayCall RelayCall.Reply (Except RelayError Unit)
  /-- the provider's substream, once it is open -/
  provider : Option Nat
  /-- what `copy_bidirectional` takes from the consumer and gives to the provider -/
  forth : Pipe
  /-- what `copy_bidirectional` takes from the provider and gives to the consumer -/
  back : Pipe
  /-- its permit has not been dropped -/
  permit : Bool

/-- A relay that was just spawned. -/
def Relay.new (id : String) : Relay := ⟨id, (relay id).run, none, .empty, .empty, true⟩

/-- What the handlers share. -/
structure World where
  registry : Registry
  /-- the carrier pool that the handler of each connection has made -/
  pools : Nat → CarrierPool
  /-- the permits left in the semaphore -/
  permits : Nat
  consumers : Nat → Option Consumer
  providers : Nat → Option Provider
  /-- the relay of each consumer's substream -/
  relays : Nat → Option Relay

namespace World

/-- A server that has just started. -/
def start (maxConns : Nat) : World where
  registry := .empty
  pools := fun _ => ⟨[], 0⟩
  permits := maxConns
  consumers := fun _ => none
  providers := fun _ => none
  relays := fun _ => none

section Set

variable (w : World) (k p : Nat) (c : Consumer) (e : Provider) (r : Relay)

def setConsumer : World := { w with consumers := Function.update w.consumers k (some c) }

def setProvider : World := { w with providers := Function.update w.providers p (some e) }

def setRelay : World := { w with relays := Function.update w.relays k (some r) }

@[simp] theorem consumers_setConsumer : (w.setConsumer k c).consumers k = some c :=
  Function.update_self _ _ _

@[simp] theorem relays_setConsumer : (w.setConsumer k c).relays = w.relays := rfl

@[simp] theorem providers_setConsumer : (w.setConsumer k c).providers = w.providers := rfl

@[simp] theorem providers_setProvider : (w.setProvider p e).providers p = some e :=
  Function.update_self _ _ _

@[simp] theorem consumers_setProvider : (w.setProvider p e).consumers = w.consumers := rfl

@[simp] theorem relays_setProvider : (w.setProvider p e).relays = w.relays := rfl

@[simp] theorem relays_setRelay : (w.setRelay k r).relays k = some r :=
  Function.update_self _ _ _

@[simp] theorem consumers_setRelay : (w.setRelay k r).consumers = w.consumers := rfl

@[simp] theorem providers_setRelay : (w.setRelay k r).providers = w.providers := rfl

@[simp] theorem setConsumer_setConsumer (c' : Consumer) :
    (w.setConsumer k c).setConsumer k c' = w.setConsumer k c' :=
  congrArg (fun f => { w with consumers := f }) (Function.update_idem _ _ _)

@[simp] theorem setProvider_setProvider (e' : Provider) :
    (w.setProvider p e).setProvider p e' = w.setProvider p e' :=
  congrArg (fun f => { w with providers := f }) (Function.update_idem _ _ _)

@[simp] theorem setRelay_setRelay (r' : Relay) :
    (w.setRelay k r).setRelay k r' = w.setRelay k r' :=
  congrArg (fun f => { w with relays := f }) (Function.update_idem _ _ _)

variable {w k p c e r} {k' p' : Nat}

theorem consumers_setConsumer_of_ne (h : k' ≠ k) :
    (w.setConsumer k c).consumers k' = w.consumers k' := Function.update_of_ne h _ _

theorem providers_setProvider_of_ne (h : p' ≠ p) :
    (w.setProvider p e).providers p' = w.providers p' := Function.update_of_ne h _ _

theorem relays_setRelay_of_ne (h : k' ≠ k) :
    (w.setRelay k r).relays k' = w.relays k' := Function.update_of_ne h _ _

end Set

end World

/-! ## Events -/

/-- What an interaction of the handler of connection `i` does.  A substream can be
handed out once its first bytes are on their way, because they take the announcement
of the substream along. -/
def handlerEffect (i : Nat) : Act Call Call.Reply → World → World → Prop
  | .call .selectConsumer (.inbound (some k)), w, w' =>
      ∃ c, w.consumers k = some c ∧ c.conn = i ∧ c.accepted = false ∧ c.up.put ≠ [] ∧
        w' = w.setConsumer k { c with accepted := true }
  | .call .tryAcquire permit, w, w' =>
      permit = decide (0 < w.permits) ∧ w' = { w with permits := w.permits - 1 }
  | .call (.spawnRelay k id) _, w, w' => w' = w.setRelay k (.new id)
  | .call (.insert id) _, w, w' =>
      w' = { w with registry := Function.update w.registry id (some i)
                    pools := Function.update w.pools i (.new i) }
  | a, w, w' => ∃ registry, registryEffect i a w.registry registry ∧
      w' = { w with registry := registry }

/-- What an interaction of the relay of the consumer's substream `k` does. -/
def relayEffect (k : Nat) : Act RelayCall RelayCall.Reply → World → World → Prop
  | .recv q, w, w' => ∃ c up, w.consumers k = some c ∧
      c.up.Pull (Act.ins (.recv q : Act RelayCall RelayCall.Reply)) up ∧
      w' = w.setConsumer k { c with up := up }
  | .send _ _, _, _ => False
  | .call (.get id) pool, w, w' => pool = w.registry id ∧ w' = w
  | .call (.pick pool) opener, w, w' =>
      opener = (w.pools pool).pick.1 ∧
      w' = { w with pools := Function.update w.pools pool (w.pools pool).pick.2 }
  | .call (.openProvider opener) (.ok p), w, w' =>
      w.providers p = none ∧ w' = w.setProvider p ⟨opener, k, none, .empty, .empty, [], []⟩
  | .call (.openProvider _) (.error _), w, w' => w' = w
  | .call (.writeProvider p buf) (.wrote m), w, w' =>
      ∃ e, w.providers p = some e ∧ m ≤ buf.length ∧
        w' = w.setProvider p { e with down := e.down.push (buf.take m) }
  | .call (.writeProvider _ _) _, w, w' => w' = w
  | .call (.copyBidirectional _) _, w, w' => w' = w

/-- The provider's substream of a relay after an interaction. -/
def Relay.opened (r : Relay) : Act RelayCall RelayCall.Reply → Option Nat
  | .call (.openProvider _) (.ok p) => some p
  | _ => r.provider

/-- What can happen besides interactions of handlers. -/
inductive Happening where
  /-- the opener of a connection hands a substream to `open_stream` -/
  | opens (conn k : Nat)
  /-- `open_stream` interacts -/
  | opening (k : Nat) (a : Act ChannelCall ChannelCall.Reply)
  /-- a relay interacts -/
  | relaying (k : Nat) (a : Act RelayCall RelayCall.Reply)
  /-- `copy_bidirectional` moves bytes -/
  | copying (k : Nat)
  /-- a relay that has returned drops its permit -/
  | releases (k : Nat)
  /-- the acceptor of a source hands a substream to `accept_stream` -/
  | accepts (p : Nat)
  /-- `accept_stream` interacts -/
  | accepting (p : Nat) (a : Act ChannelCall ChannelCall.Reply)
  /-- the destination's application reads or writes -/
  | consumes (k : Nat)
  /-- the source's application reads or writes -/
  | provides (p : Nat)

/-- What it does. -/
inductive Happens (d : Deps) : Happening → World → World → Prop where
  | opens {w : World} {conn k : Nat}
      {t : Proc ChannelCall ChannelCall.Reply (Except BackupError Nat)}
      (hnew : w.consumers k = none)
      (hs : (openStream d .destination).run.Step (.call .openStream (.ok k)) t) :
      Happens d (.opens conn k) w (w.setConsumer k ⟨conn, false, t, .empty, .empty, [], []⟩)
  | opening {w : World} {k : Nat} {c : Consumer} {a : Act ChannelCall ChannelCall.Reply}
      {t : Proc ChannelCall ChannelCall.Reply (Except BackupError Nat)}
      (hc : w.consumers k = some c) (hs : c.task.Step a t) :
      Happens d (.opening k a) w (w.setConsumer k { c with task := t, up := c.up.push a.outs })
  | relaying {w w' : World} {k : Nat} {r : Relay} {a : Act RelayCall RelayCall.Reply}
      {t : Proc RelayCall RelayCall.Reply (Except RelayError Unit)}
      (hr : w.relays k = some r) (hs : r.task.Step a t) (he : relayEffect k a w w') :
      Happens d (.relaying k a) w (w'.setRelay k { r with task := t, provider := r.opened a })
  | releases {w : World} {k : Nat} {r : Relay} (hr : w.relays k = some r)
      (hdone : r.task.Finished) (hpermit : r.permit = true) :
      Happens d (.releases k) w
        ({ w with permits := w.permits + 1 }.setRelay k { r with permit := false })
  | takeForth {w : World} {k p : Nat} {r : Relay} {c : Consumer} {bs : Bytes} {up : Pipe}
      (hr : w.relays k = some r) (hcopy : r.task = (relayCopy p).run)
      (hc : w.consumers k = some c) (hpull : c.up.Pull bs up) :
      Happens d (.copying k) w
        ((w.setConsumer k { c with up := up }).setRelay k { r with forth := r.forth.push bs })
  | giveForth {w : World} {k p : Nat} {r : Relay} {e : Provider} {bs : Bytes} {forth : Pipe}
      (hr : w.relays k = some r) (hcopy : r.task = (relayCopy p).run)
      (hp : w.providers p = some e) (hpull : r.forth.Pull bs forth) :
      Happens d (.copying k) w
        ((w.setProvider p { e with down := e.down.push bs }).setRelay k { r with forth := forth })
  | takeBack {w : World} {k p : Nat} {r : Relay} {e : Provider} {bs : Bytes} {up : Pipe}
      (hr : w.relays k = some r) (hcopy : r.task = (relayCopy p).run)
      (hp : w.providers p = some e) (hpull : e.up.Pull bs up) :
      Happens d (.copying k) w
        ((w.setProvider p { e with up := up }).setRelay k { r with back := r.back.push bs })
  | giveBack {w : World} {k p : Nat} {r : Relay} {c : Consumer} {bs : Bytes} {back : Pipe}
      (hr : w.relays k = some r) (hcopy : r.task = (relayCopy p).run)
      (hc : w.consumers k = some c) (hpull : r.back.Pull bs back) :
      Happens d (.copying k) w
        ((w.setConsumer k { c with down := c.down.push bs }).setRelay k { r with back := back })
  | accepts {w : World} {p : Nat} {e : Provider}
      {t : Proc ChannelCall ChannelCall.Reply (Except BackupError Nat)}
      (hp : w.providers p = some e) (hnew : e.task = none) (hsent : e.down.put ≠ [])
      (hs : (acceptStream d .source).run.Step (.call .acceptStream (some p)) t) :
      Happens d (.accepts p) w (w.setProvider p { e with task := some t })
  | accepting {w : World} {p : Nat} {e : Provider} {a : Act ChannelCall ChannelCall.Reply}
      {t t' : Proc ChannelCall ChannelCall.Reply (Except BackupError Nat)} {down : Pipe}
      (hp : w.providers p = some e) (ht : e.task = some t) (hs : t.Step a t')
      (hpull : e.down.Pull a.ins down) :
      Happens d (.accepting p a) w (w.setProvider p { e with task := some t', down := down })
  | consumerWrites {w : World} {k : Nat} {c : Consumer} (bs : Bytes)
      (hc : w.consumers k = some c) (hopen : c.task = .ret (.ok k)) :
      Happens d (.consumes k) w
        (w.setConsumer k { c with up := c.up.push bs, wrote := c.wrote ++ bs })
  | consumerReads {w : World} {k : Nat} {c : Consumer} {bs : Bytes} {down : Pipe}
      (hc : w.consumers k = some c) (hopen : c.task = .ret (.ok k))
      (hpull : c.down.Pull bs down) :
      Happens d (.consumes k) w (w.setConsumer k { c with down := down, read := c.read ++ bs })
  | providerWrites {w : World} {p : Nat} {e : Provider} (bs : Bytes)
      (hp : w.providers p = some e) (hopen : e.task = some (.ret (.ok p))) :
      Happens d (.provides p) w
        (w.setProvider p { e with up := e.up.push bs, wrote := e.wrote ++ bs })
  | providerReads {w : World} {p : Nat} {e : Provider} {bs : Bytes} {down : Pipe}
      (hp : w.providers p = some e) (hopen : e.task = some (.ret (.ok p)))
      (hpull : e.down.Pull bs down) :
      Happens d (.provides p) w (w.setProvider p { e with down := down, read := e.read ++ bs })

/-! ## What a handler does to the world -/

/-- The substream a handler is about to spawn a relay for. -/
def Handler.holding : Handler → Option Nat
  | .offered _ k => some k
  | .granted _ k => some k
  | _ => none

/-- The id of the destination that a handler serves. -/
def Handler.channel : Handler → Option String
  | .consuming id => some id
  | .offered id _ => some id
  | .granted id _ => some id
  | _ => none

/-- The steps of a handler that stands at `m`, as far as they matter to others. -/
inductive HandlerStep (i : Nat) (w : World) (m : Handler) :
    Act Call Call.Reply → World → Handler → Prop where
  | accept {id : String} {k : Nat} {c : Consumer} (hm : m = .consuming id)
      (hc : w.consumers k = some c) (hconn : c.conn = i) (hacc : c.accepted = false) :
      HandlerStep i w m (.call .selectConsumer (.inbound (some k)))
        (w.setConsumer k { c with accepted := true }) (.offered id k)
  | acquire {id : String} {k : Nat} (hm : m = .offered id k) (hpermits : 0 < w.permits) :
      HandlerStep i w m (.call .tryAcquire true) { w with permits := w.permits - 1 }
        (.granted id k)
  | deny {id : String} {k : Nat} (hm : m = .offered id k) (hpermits : w.permits = 0) :
      HandlerStep i w m (.call .tryAcquire false) { w with permits := w.permits - 1 }
        (.consuming id)
  | spawn {id : String} {k : Nat} (hm : m = .granted id k) :
      HandlerStep i w m (.call (.spawnRelay k id) ()) (w.setRelay k (.new id)) (.consuming id)
  | enter {id : String} (hm : m = .cleared id) :
      HandlerStep i w m (.call (.insert id) ())
        { w with registry := Function.update w.registry id (some i)
                 pools := Function.update w.pools i (.new i) } (.registered id)
  | leave {id : String} (hm : m = .registered id) :
      HandlerStep i w m (.call (.remove id) ())
        { w with registry := Function.update w.registry id none } (.gone id)
  | quiet {a : Act Call Call.Reply} {m' : Handler} (hm : m.holding = none)
      (hkeep : ∀ id, m.channel = some id → m' = m) (hm' : m'.holding = none)
      (ha : ∀ id, (⟨.insert id, ()⟩ : Sigma Call.Reply) ∉ Hist.calls [a]) :
      HandlerStep i w m a w m'

theorem Handler.holding_of_open {m : Handler} (hm : m.Open) : m.holding = none := by
  cases m with
  | offered id k => exact hm.elim
  | granted id k => exact hm.elim
  | _ => rfl

/-- An effect on the registry only, and none at that. -/
theorem eq_of_registryEffect {i : Nat} {a : Act Call Call.Reply} {w w' : World}
    (he : ∃ registry, registryEffect i a w.registry registry ∧ w' = { w with registry := registry })
    (hsame : ∀ r, registryEffect i a w.registry r → r = w.registry) : w' = w := by
  obtain ⟨registry, hr, rfl⟩ := he
  rw [hsame registry hr]

theorem handlerEffect_private {i : Nat} {e : Call} {q : e.Reply} {w w' : World}
    (hc : Handler.Private ⟨e, q⟩) (he : handlerEffect i (.call e q) w w') : w' = w := by
  cases e with
  | containsKey id => exact hc.elim
  | insert id => exact hc.elim
  | remove id => exact hc.elim
  | tryAcquire => exact hc.elim
  | spawnRelay k id => exact hc.elim
  | selectConsumer =>
    cases q with
    | tick => exact eq_of_registryEffect he fun _ h => h
    | control => exact eq_of_registryEffect he fun _ h => h
    | inbound stream =>
      cases stream with
      | none => exact eq_of_registryEffect he fun _ h => h
      | some k => exact hc.elim
  | _ => exact eq_of_registryEffect he fun _ h => registryEffect_private hc h

theorem handlerStep {d : Deps} {auth : Option Authenticator} {h : Hist Call Call.Reply} {i : Nat}
    {a : Act Call Call.Reply} {w w' : World} (ht : Proc.Trace (handler d auth) (h ++ [a]))
    (he : handlerEffect i a w w') :
    ∃ m m', standing h = some m ∧ standing (h ++ [a]) = some m' ∧ HandlerStep i w m a w' m' := by
  cases a with
  | recv q =>
    obtain ⟨m, hm, hopen⟩ := ht.stream (conforms_handler d auth) rfl
    cases eq_of_registryEffect he fun _ h => h
    have hnone := Handler.holding_of_open (hopen.elim (fun h => h) fun h => h)
    exact ⟨m, m, hm, (Proc.after_concat _ rfl).trans hm,
      .quiet hnone (fun _ _ => rfl) hnone fun _ h => by cases h⟩
  | send bs q =>
    obtain ⟨m, hm, hopen⟩ := ht.stream (conforms_handler d auth) rfl
    cases eq_of_registryEffect he fun _ h => h
    have hnone := Handler.holding_of_open (hopen.elim (fun h => h) fun h => h)
    exact ⟨m, m, hm, (Proc.after_concat _ rfl).trans hm,
      .quiet hnone (fun _ _ => rfl) hnone fun _ h => by cases h⟩
  | call e q =>
    obtain ⟨m, m', hm, -, hnext⟩ := ht.call (conforms_handler d auth)
    refine ⟨m, m', hm, (Proc.after_concat_call _ hm e q).trans hnext, ?_⟩
    cases Handler.next_cases hnext with
    | stay hopen hc =>
      cases handlerEffect_private hc he
      have hnone := Handler.holding_of_open hopen
      refine .quiet hnone (fun _ _ => rfl) hnone fun id hmem => ?_
      cases List.mem_singleton.mp hmem
      exact hc
    | provide id =>
      cases eq_of_registryEffect he fun _ h => h
      exact .quiet rfl (fun _ h => by cases h) rfl fun _ h => by cases List.mem_singleton.mp h
    | consume id =>
      cases eq_of_registryEffect he fun _ h => h
      exact .quiet rfl (fun _ h => by cases h) rfl fun _ h => by cases List.mem_singleton.mp h
    | refuse id =>
      cases eq_of_registryEffect he fun _ h => h.2
      exact .quiet rfl (fun _ h => by cases h) rfl fun _ h => by cases List.mem_singleton.mp h
    | clear id =>
      cases eq_of_registryEffect he fun _ h => h.2
      exact .quiet rfl (fun _ h => by cases h) rfl fun _ h => by cases List.mem_singleton.mp h
    | register id =>
      cases he
      exact .enter rfl
    | leave id =>
      obtain ⟨registry, hr, rfl⟩ := he
      cases hr
      exact .leave rfl
    | offer id k =>
      obtain ⟨c, hc, hconn, hacc, -, rfl⟩ := he
      exact .accept rfl hc hconn hacc
    | grant id k =>
      obtain ⟨hpermits, rfl⟩ := he
      exact .acquire rfl (of_decide_eq_true hpermits.symm)
    | deny id k =>
      obtain ⟨hpermits, rfl⟩ := he
      exact .deny rfl (Nat.eq_zero_of_not_pos (of_decide_eq_false hpermits.symm))
    | spawn id k =>
      cases he
      exact .spawn rfl

/-! ## The server -/

/-- The whole server. -/
def server (d : Deps) (auth : Option Authenticator) :
    Host Nat Call Call.Reply (Except ControlError Unit × Bytes) World Happening where
  prog _ := handler d auth
  effect := handlerEffect
  env := Happens d

/-- What the handlers have done, and the world around them. -/
abbrev System : Type := Tasks Nat Call Call.Reply World

/-- The states the server can reach, whatever happens. -/
abbrev ServerReach (d : Deps) (auth : Option Authenticator) (maxConns : Nat) (s : System) : Prop :=
  (server d auth).Reach (fun _ _ => True) (.start maxConns) s

/-! ## Steps at which nothing goes wrong -/

/-- An interaction of a relay at which neither of its two substreams fails. -/
def Smooth : Act RelayCall RelayCall.Reply → Prop
  | .recv (.data (_ :: _)) => True
  | .recv _ => False
  | .call (.openProvider _) (.error _) => False
  | .call (.writeProvider _ _) (.wrote (_ + 1)) => True
  | .call (.writeProvider _ _) _ => False
  | _ => True

/-- If a relay looks its id up, somebody is registered for it. -/
def LooksUpRegistered (s : System) : Event Nat Call Call.Reply Happening → Prop
  | .env (.relaying _ (.call (.get id) _)) => s.shared.registry id ≠ none
  | _ => True

/-- The clients at both ends of the consumer's substream `k` stay connected, and there
is a permit when the handler of its connection `i` asks for one. -/
def Undisturbed (i k : Nat) (s : System) : Event Nat Call Call.Reply Happening → Prop
  | .task j (.call .tryAcquire _) => j = i → 0 < s.shared.permits
  | .env (.relaying k' a) => k' = k → Smooth a
  | _ => True

/-- Nothing goes wrong for anybody. -/
def Orderly (s : System) (e : Event Nat Call Call.Reply Happening) : Prop :=
  LooksUpRegistered s e ∧ ∀ i k, Undisturbed i k s e

/-- The states that a server without a secret can reach while nothing goes wrong. -/
abbrev OrderlyReach (d : Deps) (maxConns : Nat) (s : System) : Prop :=
  (server d none).Reach Orderly (.start maxConns) s

theorem OrderlyReach.server {d : Deps} {maxConns : Nat} {s : System}
    (hr : OrderlyReach d maxConns s) : ServerReach d none maxConns s :=
  hr.mono fun _ _ _ => trivial

/-! ## Runs of a source and a destination -/

section Sample

variable {d : Deps} {maxConns : Nat} {s : System} {i : Nat} {id : String} {json ack : Bytes}

/-- A handler interacts. -/
theorem exists_handled {w : World} {h : Hist Call Call.Reply}
    (hr : OrderlyReach d maxConns s) (hi : s.hist i = h) (a : Act Call Call.Reply)
    (hok : Orderly s (.task i a)) (ht : Proc.Trace (handler d none) (h ++ [a]))
    (he : handlerEffect i a s.shared w) :
    ∃ s', OrderlyReach d maxConns s' ∧ s'.shared = w ∧ s'.hist i = h ++ [a] ∧
      ∀ j, j ≠ i → s'.hist j = s.hist j := by
  subst hi
  exact ⟨s.log i a w, hr.step hok (.task ht he), rfl, Tasks.hist_log_self _ _ _ _,
    fun j hj => Tasks.hist_log_of_ne _ _ _ _ hj⟩

/-- Something else happens. -/
theorem OrderlyReach.env {l : Happening} {w : World} (hr : OrderlyReach d maxConns s)
    (hs : Happens d l s.shared w) (hok : Orderly s (.env l)) :
    OrderlyReach d maxConns ⟨s.hist, w⟩ :=
  hr.step hok (.env hs)

/-- What a handler does until it serves its client as a destination. -/
theorem exists_connecting (hjson : encode d.json (ClientMsg.connect id) = some json)
    (hlen : (json ++ [0]).length ≤ READ_SIZE) (hack : encode d.json ServerMsg.ok = some ack) :
    ∃ t, t.calls = [⟨.acceptControl, true⟩, ⟨.enter .consumer id, ()⟩, ⟨.flush, true⟩] ∧
      t.ins = json ++ [0] ∧ t.outs = ack ++ [0] ∧ (∀ a ∈ t, Act.Moves a) ∧
      ∀ n, (handler d none (n + 1)).Run t ((consumerLoop d id (n + 1)).run []) := by
  obtain ⟨t, hrun, hins, houts, hcalls, hmoves⟩ := goes_send hack []
  refine ⟨opening json ++ [.call (.enter .consumer id) ()] ++ t, ?_, ?_, ?_, ?_, fun n => ?_⟩
  · rw [Hist.calls_append, hcalls]
    rfl
  · rw [Hist.ins_append, hins]
    simp [opening, Hist.ins, Act.ins]
  · rw [Hist.outs_append, houts]
    rfl
  · intro a ha
    rcases List.mem_append.mp ha with ha | ha
    · obtain rfl | rfl | rfl : a = .call .acceptControl true ∨ a = .recv (.data (json ++ [0])) ∨
          a = .call (.enter .consumer id) () := by simpa [opening] using ha
      · exact trivial
      · exact List.append_ne_nil_of_right_ne_nil _ (by simp)
      · exact trivial
    · exact hmoves a ha
  · have henter : ((dispatch d (n + 1) (some (.connect id))).run []).Run
        [.call (.enter .consumer id) ()] ((serveConsumer d (n + 1) id).run []) :=
      .tail (.refl _) .call
    exact ((run_opening hjson hlen n).trans henter).trans (hrun.bind _)

/-- A client connects as a destination. -/
theorem exists_destination (hjson : encode d.json (ClientMsg.connect id) = some json)
    (hlen : (json ++ [0]).length ≤ READ_SIZE) (hack : encode d.json ServerMsg.ok = some ack)
    (hr : OrderlyReach d maxConns s) (hi : s.hist i = []) :
    ∃ s', OrderlyReach d maxConns s' ∧ s'.shared = s.shared ∧
      (∀ n, (handler d none (n + 1)).Run (s'.hist i) ((consumerLoop d id (n + 1)).run [])) ∧
      ∀ j, j ≠ i → s'.hist j = s.hist j := by
  obtain ⟨t, hcalls, -, -, -, hrun⟩ := exists_connecting hjson hlen hack
  have ht : Proc.Trace (handler d none) (s.hist i ++ t) := by
    rw [hi]
    exact .of_add 1 fun n => ⟨_, hrun n⟩
  have heffect : ∀ a ∈ t, (∀ s, Orderly s (.task i a)) ∧
      handlerEffect i a s.shared s.shared := by
    intro a ha
    cases a with
    | recv q => exact ⟨fun _ => ⟨trivial, fun _ _ => trivial⟩, _, rfl, rfl⟩
    | send bs q => exact ⟨fun _ => ⟨trivial, fun _ _ => trivial⟩, _, rfl, rfl⟩
    | call e q =>
      have hmem : (⟨e, q⟩ : Sigma Call.Reply) ∈ t.calls := List.mem_filterMap.mpr ⟨_, ha, rfl⟩
      rw [hcalls] at hmem
      simp only [List.mem_cons, List.not_mem_nil, or_false] at hmem
      rcases hmem with hmem | hmem | hmem
      · cases hmem
        exact ⟨fun _ => ⟨trivial, fun _ _ => trivial⟩, _, rfl, rfl⟩
      · cases hmem
        exact ⟨fun _ => ⟨trivial, fun _ _ => trivial⟩, _, rfl, rfl⟩
      · cases hmem
        exact ⟨fun _ => ⟨trivial, fun _ _ => trivial⟩, _, rfl, rfl⟩
  obtain ⟨s', hr', hshared, hself, hothers⟩ :=
    hr.stretch ht (fun a ha => (heffect a ha).1) fun a ha => (heffect a ha).2
  refine ⟨s', hr', hshared, ?_, hothers⟩
  rw [hself, hi]
  exact hrun

/-- A client asks to be registered as a source, and its handler finds the id free. -/
theorem exists_checked (hjson : encode d.json (ClientMsg.register id) = some json)
    (hlen : (json ++ [0]).length ≤ READ_SIZE) (hr : OrderlyReach d maxConns s)
    (hi : s.hist i = []) (hfree : s.shared.registry id = none) :
    ∃ s', OrderlyReach d maxConns s' ∧ s'.shared = s.shared ∧ s'.hist i = registering id json ∧
      ∀ j, j ≠ i → s'.hist j = s.hist j := by
  have ht : Proc.Trace (handler d none) (s.hist i ++ registering id json) := by
    rw [hi]
    exact (trace_registering hjson hlen).of_append
  have heffect : ∀ a ∈ registering id json, (∀ s, Orderly s (.task i a)) ∧
      handlerEffect i a s.shared s.shared := by
    intro a ha
    rcases mem_registering ha with rfl | rfl | rfl | rfl
    · exact ⟨fun _ => ⟨trivial, fun _ _ => trivial⟩, _, rfl, rfl⟩
    · exact ⟨fun _ => ⟨trivial, fun _ _ => trivial⟩, _, rfl, rfl⟩
    · exact ⟨fun _ => ⟨trivial, fun _ _ => trivial⟩, _, rfl, rfl⟩
    · exact ⟨fun _ => ⟨trivial, fun _ _ => trivial⟩, _, ⟨by rw [hfree]; rfl, rfl⟩, rfl⟩
  obtain ⟨s', hr', hshared, hself, hothers⟩ :=
    hr.stretch ht (fun a ha => (heffect a ha).1) fun a ha => (heffect a ha).2
  refine ⟨s', hr', hshared, ?_, hothers⟩
  rw [hself, hi, List.nil_append]

/-- A client registers as a source. -/
theorem exists_source (hjson : encode d.json (ClientMsg.register id) = some json)
    (hlen : (json ++ [0]).length ≤ READ_SIZE) (hr : OrderlyReach d maxConns s)
    (hi : s.hist i = []) (hfree : s.shared.registry id = none) :
    ∃ s', OrderlyReach d maxConns s' ∧
      s'.shared = { s.shared with registry := Function.update s.shared.registry id (some i)
                                  pools := Function.update s.shared.pools i (.new i) } ∧
      ∀ j, j ≠ i → s'.hist j = s.hist j := by
  obtain ⟨s₁, hr₁, hshared, hself, hothers⟩ := exists_checked hjson hlen hr hi hfree
  obtain ⟨s₂, hr₂, hw₂, -, hothers₂⟩ := exists_handled hr₁ hself (.call (.insert id) ())
    ⟨trivial, fun _ _ => trivial⟩ (trace_registering hjson hlen) rfl
  refine ⟨s₂, hr₂, ?_, fun j hj => ?_⟩
  · rw [hw₂, hshared]
  · rw [hothers₂ j hj]
    exact hothers j hj

/-- A destination opens a substream. -/
theorem exists_opened {k : Nat} (hr : OrderlyReach d maxConns s)
    (hnew : s.shared.consumers k = none) (i : Nat) :
    ∃ c, OrderlyReach d maxConns ⟨s.hist, s.shared.setConsumer k c⟩ ∧ c.conn = i ∧
      c.accepted = false ∧ c.task = .ret (.ok k) ∧ c.up.put = [STREAM_READY] ∧ c.up.taken = [] := by
  have hopens : Happens d (.opens i k) s.shared
      (s.shared.setConsumer k ⟨i, false, (openReady d k).run, .empty, .empty, [], []⟩) :=
    .opens hnew .call
  have hmarks := Happens.opening (d := d) (World.consumers_setConsumer s.shared k
    ⟨i, false, (openReady d k).run, .empty, .empty, [], []⟩) (openReady_marks d k)
  rw [World.setConsumer_setConsumer] at hmarks
  have hr₁ := hr.env hopens ⟨trivial, fun _ _ => trivial⟩
  exact ⟨_, hr₁.env hmarks ⟨trivial, fun _ _ => trivial⟩, rfl, rfl, rfl, rfl, rfl⟩

/-- The handler of the destination spawns a relay for it. -/
theorem exists_spawned {k : Nat} {c : Consumer} (hr : OrderlyReach d maxConns s)
    (hserve : ∀ n, (handler d none (n + 1)).Run (s.hist i) ((consumerLoop d id (n + 1)).run []))
    (hc : s.shared.consumers k = some c) (hconn : c.conn = i) (hacc : c.accepted = false)
    (hput : c.up.put ≠ []) (hpermits : 0 < s.shared.permits) :
    ∃ s', OrderlyReach d maxConns s' ∧ (∀ j, j ≠ i → s'.hist j = s.hist j) ∧
      s'.shared = (World.setConsumer { s.shared with permits := s.shared.permits - 1 } k
        { c with accepted := true }).setRelay k (.new id) := by
  have htrace : ∀ t : Hist Call Call.Reply,
      t <+: [.call .selectConsumer (.inbound (some k)), .call .tryAcquire true,
        .call (.spawnRelay k id) ()] → Proc.Trace (handler d none) (s.hist i ++ t) := by
    rintro t ⟨t', ht⟩
    refine Proc.Trace.of_append (t := t') (.of_add 1 fun n => ?_)
    rw [List.append_assoc, ht]
    exact ⟨_, (hserve n).trans (.head .call (.head .call (.head .call (.refl _))))⟩
  obtain ⟨s₁, hr₁, hw₁, hi₁, hothers₁⟩ := exists_handled hr rfl
    (.call .selectConsumer (.inbound (some k))) ⟨trivial, fun _ _ => trivial⟩
    (htrace _ ⟨_, rfl⟩) ⟨c, hc, hconn, hacc, hput, rfl⟩
  have hpermits₁ : 0 < s₁.shared.permits := by rw [hw₁]; exact hpermits
  obtain ⟨s₂, hr₂, hw₂, hi₂, hothers₂⟩ := exists_handled hr₁ hi₁ (.call .tryAcquire true)
    ⟨trivial, fun _ _ _ => hpermits₁⟩
    (by
      rw [List.append_assoc]
      exact htrace _ ⟨_, rfl⟩)
    ⟨(decide_eq_true hpermits₁).symm, rfl⟩
  obtain ⟨s₃, hr₃, hw₃, -, hothers₃⟩ := exists_handled hr₂ hi₂ (.call (.spawnRelay k id) ())
    ⟨trivial, fun _ _ => trivial⟩
    (by
      rw [List.append_assoc, List.append_assoc]
      exact htrace _ ⟨[], rfl⟩) rfl
  refine ⟨s₃, hr₃, fun j hj => ?_, ?_⟩
  · rw [hothers₃ j hj, hothers₂ j hj, hothers₁ j hj]
  · rw [hw₃, hw₂, hw₁]
    rfl

/-- A substream of a destination gets its relay, and the relay has its marker. -/
theorem exists_looking {k : Nat} (hr : OrderlyReach d maxConns s)
    (hserve : ∀ n, (handler d none (n + 1)).Run (s.hist i) ((consumerLoop d id (n + 1)).run []))
    (hnew : s.shared.consumers k = none) (hpermits : 0 < s.shared.permits) :
    ∃ s' c, OrderlyReach d maxConns s' ∧ (∀ j, j ≠ i → s'.hist j = s.hist j) ∧
      s'.shared = (World.setConsumer { s.shared with permits := s.shared.permits - 1 } k c).setRelay
        k ⟨id, (relayGet id).run, none, .empty, .empty, true⟩ ∧
      c.conn = i ∧ c.task = .ret (.ok k) ∧ c.up.put = [STREAM_READY] ∧
      c.up.taken = [STREAM_READY] := by
  obtain ⟨c, hr₁, hconn, hacc, htask, hput, htaken⟩ := exists_opened hr hnew i
  obtain ⟨s₂, hr₂, hothers, hshared⟩ := exists_spawned hr₁ hserve
    (World.consumers_setConsumer _ _ _) hconn hacc (by rw [hput]; simp) hpermits
  have hc₂ : s₂.shared.consumers k = some { c with accepted := true } := by
    rw [hshared]
    exact World.consumers_setConsumer _ _ _
  have hrel₂ : s₂.shared.relays k = some (.new id) := by
    rw [hshared]
    exact World.relays_setRelay _ _ _
  obtain ⟨up, hpull⟩ := Pipe.exists_pull c.up [STREAM_READY] (by
    rw [hput, htaken]
    exact List.prefix_rfl)
  have hmarks : Happens d (.relaying k (.recv (.data [STREAM_READY]))) s₂.shared _ :=
    .relaying hrel₂ (relay_marks id STREAM_READY) ⟨_, up, hc₂, hpull, rfl⟩
  refine ⟨_, { c with accepted := true, up := up }, hr₂.env hmarks ⟨trivial, fun _ _ _ => trivial⟩,
    hothers, ?_, hconn, htask, ?_, ?_⟩
  · rw [hshared]
    simp only [World.setConsumer, World.setRelay, Function.update_idem]
    rfl
  · rw [← hput]
    exact hpull.put
  · show up.taken = _
    rw [hpull.taken, htaken]
    rfl

/-- A relay interacts. -/
theorem exists_relayed {k : Nat} {r : Relay} {w : World} {a : Act RelayCall RelayCall.Reply}
    {t : Proc RelayCall RelayCall.Reply (Except RelayError Unit)}
    (hr : OrderlyReach d maxConns s) (hrel : s.shared.relays k = some r)
    (hs : r.task.Step a t) (he : relayEffect k a s.shared w)
    (hok : Orderly s (.env (.relaying k a))) :
    ∃ s', OrderlyReach d maxConns s' ∧ s'.hist = s.hist ∧
      s'.shared = w.setRelay k { r with task := t, provider := r.opened a } :=
  ⟨⟨s.hist, _⟩, hr.env (.relaying hrel hs he) hok, rfl, rfl⟩

/-- The relay finds the source and opens a substream to it. -/
theorem exists_copying {j k p : Nat} (hr : OrderlyReach d maxConns s)
    (hrel : s.shared.relays k = some ⟨id, (relayGet id).run, none, .empty, .empty, true⟩)
    (hreg : s.shared.registry id = some j) (hpool : (s.shared.pools j).carriers = [.new j])
    (hnew : s.shared.providers p = none) :
    ∃ s', OrderlyReach d maxConns s' ∧ s'.hist = s.hist ∧
      s'.shared = (World.setProvider
        { s.shared with pools := Function.update s.shared.pools j (s.shared.pools j).pick.2 } p
        ⟨j, k, none, .empty, Pipe.empty.push [STREAM_READY], [], []⟩).setRelay k
        ⟨id, (relayCopy p).run, some p, .empty, .empty, true⟩ := by
  obtain ⟨s₁, hr₁, hh₁, hw₁⟩ := exists_relayed (a := .call (.get id) (some j)) hr hrel .call
    ⟨hreg.symm, rfl⟩ ⟨by simp [LooksUpRegistered, hreg], fun _ _ _ => trivial⟩
  have hrel₁ : s₁.shared.relays k = some ⟨id, (relayPick j).run, none, .empty, .empty, true⟩ := by
    rw [hw₁]
    exact World.relays_setRelay _ _ _
  have hpick : (s₁.shared.pools j).pick.1 = some j := by
    rw [hw₁]
    exact (CarrierPool.pick_of_single hpool).1
  obtain ⟨s₂, hr₂, hh₂, hw₂⟩ := exists_relayed (a := .call (.pick j) (some j)) hr₁ hrel₁ .call
    ⟨hpick.symm, rfl⟩ ⟨trivial, fun _ _ _ => trivial⟩
  have hrel₂ : s₂.shared.relays k = some ⟨id, (relayOpen j).run, none, .empty, .empty, true⟩ := by
    rw [hw₂]
    exact World.relays_setRelay _ _ _
  have hnew₂ : s₂.shared.providers p = none := by
    rw [hw₂, hw₁]
    exact hnew
  obtain ⟨s₃, hr₃, hh₃, hw₃⟩ := exists_relayed (a := .call (.openProvider j) (.ok p)) hr₂ hrel₂
    .call ⟨hnew₂, rfl⟩ ⟨trivial, fun _ _ _ => trivial⟩
  have hrel₃ : s₃.shared.relays k =
      some ⟨id, (relayReady p).run, some p, .empty, .empty, true⟩ := by
    rw [hw₃]
    exact World.relays_setRelay _ _ _
  have hprov₃ : s₃.shared.providers p = some ⟨j, k, none, .empty, .empty, [], []⟩ := by
    rw [hw₃]
    exact World.providers_setProvider _ _ _
  obtain ⟨s₄, hr₄, hh₄, hw₄⟩ := exists_relayed hr₃ hrel₃ (relayReady_marks p)
    ⟨_, hprov₃, Nat.le_refl 1, rfl⟩ ⟨trivial, fun _ _ _ => trivial⟩
  refine ⟨s₄, hr₄, by rw [hh₄, hh₃, hh₂, hh₁], ?_⟩
  rw [hw₄, hw₃, hw₂, hw₁]
  simp only [World.setProvider, World.setRelay, Function.update_idem]
  rfl

/-- A source and a destination of a channel: the source comes first, and the relay of the
destination's stream copies. -/
theorem exists_paired :
    ∃ s c, OrderlyReach sampleDeps 1 s ∧ s.shared.registry "db" = some 0 ∧
      s.shared.consumers 0 = some c ∧ c.conn = 1 ∧ c.task = .ret (.ok 0) ∧
      c.up.taken = c.up.put ∧
      s.shared.relays 0 = some ⟨"db", (relayCopy 0).run, some 0, .empty, .empty, true⟩ ∧
      s.shared.providers 0 =
        some ⟨0, 0, none, .empty, Pipe.empty.push [STREAM_READY], [], []⟩ := by
  obtain ⟨json, hjson, hlen⟩ := exists_request
  obtain ⟨json', ack, hjson', hlen', hack⟩ := exists_connect
  obtain ⟨s₁, hr₁, hw₁, hothers₁⟩ := exists_source hjson hlen
    (.init : OrderlyReach sampleDeps 1 _) (i := 0) rfl rfl
  obtain ⟨s₂, hr₂, hw₂, hserve, -⟩ := exists_destination hjson' hlen' hack hr₁
    (hothers₁ 1 (by simp))
  rw [hw₁] at hw₂
  obtain ⟨s₃, c, hr₃, -, hw₃, hconn, hopen, hput, htaken⟩ :=
    exists_looking (k := 0) hr₂ hserve (by rw [hw₂]; rfl) (by rw [hw₂]; exact Nat.one_pos)
  rw [hw₂] at hw₃
  obtain ⟨s₄, hr₄, -, hw₄⟩ := exists_copying (j := 0) (k := 0) (p := 0) hr₃
    (by rw [hw₃]; exact World.relays_setRelay _ _ _) (by rw [hw₃]; rfl) (by rw [hw₃]; rfl)
    (by rw [hw₃]; rfl)
  have hc : s₃.shared.consumers 0 = some c := by
    rw [hw₃, World.consumers_setRelay, World.consumers_setConsumer]
  refine ⟨s₄, c, hr₄, ?_, ?_, hconn, hopen, htaken.trans hput.symm, ?_, ?_⟩
  · rw [hw₄, hw₃]
    rfl
  · rw [hw₄]
    exact hc
  · rw [hw₄]
    exact World.relays_setRelay _ _ _
  · rw [hw₄, World.providers_setRelay]
    exact World.providers_setProvider _ _ _

/-- A byte goes from the destination's application to the source's. -/
theorem exists_byte {k p : Nat} {c : Consumer} {r : Relay} {e : Provider} (b : UInt8)
    (hr : OrderlyReach d maxConns s) (hc : s.shared.consumers k = some c)
    (hopen : c.task = .ret (.ok k)) (hup : c.up.taken = c.up.put)
    (hrel : s.shared.relays k = some r) (hcopy : r.task = (relayCopy p).run)
    (hforth : r.forth.taken = r.forth.put) (hp : s.shared.providers p = some e)
    (htask : e.task = some (.ret (.ok p))) (hdown : e.down.taken = e.down.put) :
    ∃ s', OrderlyReach d maxConns s' ∧
      ∃ e', s'.shared.providers p = some e' ∧ e'.task = e.task ∧ e'.read = e.read ++ [b] := by
  have hr₁ := hr.env (.consumerWrites [b] hc hopen)
    ⟨trivial, fun _ _ => trivial⟩
  obtain ⟨up, hpull⟩ := Pipe.exists_pull (c.up.push [b]) [b] (by
    rw [Pipe.taken_push, Pipe.put_push, hup])
  have hr₂ := hr₁.env (.takeForth hrel hcopy (World.consumers_setConsumer _ _ _) hpull)
    ⟨trivial, fun _ _ => trivial⟩
  obtain ⟨forth, hpull'⟩ := Pipe.exists_pull (r.forth.push [b]) [b] (by
    rw [Pipe.taken_push, Pipe.put_push, hforth])
  have hr₃ := hr₂.env (.giveForth (World.relays_setRelay _ _ _) hcopy hp hpull')
    ⟨trivial, fun _ _ => trivial⟩
  obtain ⟨down, hpull''⟩ := Pipe.exists_pull (e.down.push [b]) [b] (by
    rw [Pipe.taken_push, Pipe.put_push, hdown])
  have hr₄ := hr₃.env (.providerReads (World.providers_setProvider _ _ _) htask hpull'')
    ⟨trivial, fun _ _ => trivial⟩
  exact ⟨_, hr₄, _, World.providers_setProvider _ _ _, rfl, rfl⟩

end Sample

end RustBackup.Transport
