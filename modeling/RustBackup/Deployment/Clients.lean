/-
  Deployment/Clients.lean --- the coordination server with backup sessions at its ends.

  Sources: crates/rust-backup/src/main.rs (execute), crates/rb-transport/src/channel.rs.

  A client that has its channel runs `run_source` or `run_destination` over the one data
  substream that `accept_stream` or `open_stream` gives it.  The system has any number
  of such sessions, each at a connection of its own, around the whole server; substreams
  that no session holds are used by anybody in any way.  Every step is one of the server
  or one interaction of one session.

  `Sound` ties the two layers together: what a session has read and written is what its
  end of the substream has delivered and taken.
-/
import RustBackup.Core.Delivery
import RustBackup.Transport.Isolation

set_option autoImplicit false

namespace RustBackup.Deployment

open RustBackup.Io RustBackup.Transport

/-! ## State -/

/-- A session at a client's end of a substream. -/
structure Client (α : Type) where
  /-- what is left of `run_source` or `run_destination` -/
  task : Proc Core.Call Core.Call.Reply α
  /-- the substream it was given -/
  stream : Option Nat
  /-- what it has done -/
  hist : Hist Core.Call Core.Call.Reply

/-- A client that runs `run_source`. -/
abbrev SourceClient : Type := Client (Core.Result Core.SourceOutcome × Core.Progress)

/-- A client that runs `run_destination`. -/
abbrev DestinationClient : Type := Client (Core.Result Core.BackupPlan × Core.Progress)

/-- The server and the sessions of the connections. -/
structure System where
  server : Transport.System
  sources : Nat → Option SourceClient
  destinations : Nat → Option DestinationClient

/-- What the clients and the server are made of. -/
structure Setup where
  /-- the libraries of the transport -/
  transport : Transport.Deps
  /-- the libraries of the sessions -/
  session : Core.Deps
  auth : Option Authenticator
  maxConns : Nat
  /-- `stream_out` of the source at a connection -/
  streamOut : Nat → Core.BackupPlan → Core.SinkProg
  /-- `stream_in` of the destination at a connection -/
  streamIn : Nat → Core.BackupPlan → Core.StreamInProg
  /-- the counters a session starts with -/
  progress : Nat → Core.Progress

namespace System

/-- A server without sessions. -/
def idle (s : Transport.System) : System := ⟨s, fun _ => none, fun _ => none⟩

section Set

variable (s : System) (i : Nat) (c : SourceClient) (e : DestinationClient) (w : World)

/-- The world around the handlers changes. -/
def setWorld : System := { s with server := { s.server with shared := w } }

def setSource : System := { s with sources := Function.update s.sources i (some c) }

def setDestination : System :=
  { s with destinations := Function.update s.destinations i (some e) }

@[simp] theorem sources_setSource : (s.setSource i c).sources i = some c :=
  Function.update_self _ _ _

@[simp] theorem destinations_setSource : (s.setSource i c).destinations = s.destinations := rfl

@[simp] theorem server_setSource : (s.setSource i c).server = s.server := rfl

@[simp] theorem destinations_setDestination : (s.setDestination i e).destinations i = some e :=
  Function.update_self _ _ _

@[simp] theorem sources_setDestination : (s.setDestination i e).sources = s.sources := rfl

@[simp] theorem server_setDestination : (s.setDestination i e).server = s.server := rfl

variable {s i c e} {j : Nat}

theorem sources_setSource_of_ne (h : j ≠ i) : (s.setSource i c).sources j = s.sources j :=
  Function.update_of_ne h _ _

theorem destinations_setDestination_of_ne (h : j ≠ i) :
    (s.setDestination i e).destinations j = s.destinations j := Function.update_of_ne h _ _

end Set

end System

/-! ## Steps -/

/-- The interaction moves nothing and gives the session no substream. -/
def Idle : Act Core.Call Core.Call.Reply → Prop
  | .call .acceptStream (.ok _) => False
  | .call .openStream (.ok _) => False
  | .call _ _ => True
  | .recv (.data (_ :: _)) => False
  | .recv _ => True
  | .send _ (.wrote _) => False
  | .send _ _ => True

/-- What an interaction of the source at connection `i` does.  `accept_stream` returns a
substream that nobody has used yet; a session asks for one only. -/
inductive SourceEffect (i : Nat) (w : World) :
    Option Nat → Act Core.Call Core.Call.Reply → World → Option Nat → Prop where
  | accept {p : Nat} {e : Provider} (hp : w.providers p = some e) (hconn : e.conn = i)
      (hopen : e.task = some (.ret (.ok p))) (hread : e.read = []) (hwrote : e.wrote = []) :
      SourceEffect i w none (.call .acceptStream (.ok ())) w (some p)
  | read {p : Nat} {e : Provider} {down : Pipe} {b : UInt8} {bs : Bytes}
      (hp : w.providers p = some e) (hopen : e.task = some (.ret (.ok p)))
      (hpull : e.down.Pull (b :: bs) down) :
      SourceEffect i w (some p) (.recv (.data (b :: bs)))
        (w.setProvider p { e with down := down, read := e.read ++ b :: bs }) (some p)
  | write {p m : Nat} {e : Provider} {buf : Bytes} (hp : w.providers p = some e)
      (hopen : e.task = some (.ret (.ok p))) :
      SourceEffect i w (some p) (.send buf (.wrote m))
        (w.setProvider p { e with up := e.up.push (buf.take m), wrote := e.wrote ++ buf.take m })
        (some p)
  | idle {stream : Option Nat} {a : Act Core.Call Core.Call.Reply} (ha : Idle a) :
      SourceEffect i w stream a w stream

/-- What an interaction of the destination at connection `j` does. -/
inductive DestinationEffect (j : Nat) (w : World) :
    Option Nat → Act Core.Call Core.Call.Reply → World → Option Nat → Prop where
  | opened {k : Nat} {c : Consumer} (hc : w.consumers k = some c) (hconn : c.conn = j)
      (hopen : c.task = .ret (.ok k)) (hread : c.read = []) (hwrote : c.wrote = []) :
      DestinationEffect j w none (.call .openStream (.ok ())) w (some k)
  | read {k : Nat} {c : Consumer} {down : Pipe} {b : UInt8} {bs : Bytes}
      (hc : w.consumers k = some c) (hopen : c.task = .ret (.ok k))
      (hpull : c.down.Pull (b :: bs) down) :
      DestinationEffect j w (some k) (.recv (.data (b :: bs)))
        (w.setConsumer k { c with down := down, read := c.read ++ b :: bs }) (some k)
  | write {k m : Nat} {c : Consumer} {buf : Bytes} (hc : w.consumers k = some c)
      (hopen : c.task = .ret (.ok k)) :
      DestinationEffect j w (some k) (.send buf (.wrote m))
        (w.setConsumer k { c with up := c.up.push (buf.take m), wrote := c.wrote ++ buf.take m })
        (some k)
  | idle {stream : Option Nat} {a : Act Core.Call Core.Call.Reply} (ha : Idle a) :
      DestinationEffect j w stream a w stream

/-- The event uses no substream that a session holds. -/
def Free (s : System) : Event Nat Call Call.Reply Happening → Prop
  | .env (.provides p) => ∀ i c, s.sources i = some c → c.stream ≠ some p
  | .env (.consumes k) => ∀ j c, s.destinations j = some c → c.stream ≠ some k
  | _ => True

/-- One step of the deployment. -/
inductive Step (x : Setup) : System → System → Prop where
  | serve {s : System} {e : Event Nat Call Call.Reply Happening} {server' : Transport.System}
      (hs : (server x.transport x.auth).Step e s.server server') (hfree : Free s e) :
      Step x s { s with server := server' }
  | startSource {s : System} (i : Nat) (hnew : s.sources i = none) :
      Step x s (s.setSource i
        ⟨(Core.runSource x.session (x.streamOut i)).run (x.progress i), none, []⟩)
  | startDestination {s : System} (j : Nat) (hnew : s.destinations j = none) :
      Step x s (s.setDestination j
        ⟨(Core.runDestination x.session (x.streamIn j)).run (x.progress j), none, []⟩)
  | source {s : System} {i : Nat} {c : SourceClient} {a : Act Core.Call Core.Call.Reply}
      {t : Proc Core.Call Core.Call.Reply (Core.Result Core.SourceOutcome × Core.Progress)}
      {w : World} {stream : Option Nat} (hc : s.sources i = some c) (hs : c.task.Step a t)
      (he : SourceEffect i s.server.shared c.stream a w stream) :
      Step x s ((s.setWorld w).setSource i ⟨t, stream, c.hist ++ [a]⟩)
  | destination {s : System} {j : Nat} {c : DestinationClient}
      {a : Act Core.Call Core.Call.Reply}
      {t : Proc Core.Call Core.Call.Reply (Core.Result Core.BackupPlan × Core.Progress)}
      {w : World} {stream : Option Nat} (hc : s.destinations j = some c) (hs : c.task.Step a t)
      (he : DestinationEffect j s.server.shared c.stream a w stream) :
      Step x s ((s.setWorld w).setDestination j ⟨t, stream, c.hist ++ [a]⟩)

/-- The states the deployment can reach. -/
inductive Reach (x : Setup) : System → Prop where
  | init : Reach x (.idle ⟨fun _ => [], .start x.maxConns⟩)
  | step {s s' : System} (hr : Reach x s) (hs : Step x s s') : Reach x s'

/-! ## What the server leaves alone -/

/-- The parts of a provider's substream that only its own application changes. -/
structure SameProvider (e e' : Provider) : Prop where
  conn : e'.conn = e.conn
  read : e'.read = e.read
  wrote : e'.wrote = e.wrote

/-- The parts of a consumer's substream that only its own application changes. -/
structure SameConsumer (c c' : Consumer) : Prop where
  conn : c'.conn = c.conn
  read : c'.read = c.read
  wrote : c'.wrote = c.wrote

section Frame

variable {d : Transport.Deps} {auth : Option Authenticator} {w w' : World} {p k : Nat}
variable {e : Provider} {c : Consumer}

theorem SameProvider.refl (e : Provider) : SameProvider e e := ⟨rfl, rfl, rfl⟩

theorem SameConsumer.refl (c : Consumer) : SameConsumer c c := ⟨rfl, rfl, rfl⟩

/-- The provider's substream `p` is as before, as far as its application is concerned. -/
def KeepsProvider (p : Nat) (w w' : World) : Prop :=
  ∀ e, w.providers p = some e → ∃ e', w'.providers p = some e' ∧ SameProvider e e'

/-- The consumer's substream `k` is as before, as far as its application is concerned. -/
def KeepsConsumer (k : Nat) (w w' : World) : Prop :=
  ∀ c, w.consumers k = some c → ∃ c', w'.consumers k = some c' ∧ SameConsumer c c'

theorem keepsProvider_of_eq (h : w'.providers = w.providers) : KeepsProvider p w w' := by
  intro e he
  rw [h]
  exact ⟨e, he, .refl e⟩

theorem keepsConsumer_of_eq (h : w'.consumers = w.consumers) : KeepsConsumer k w w' := by
  intro c hc
  rw [h]
  exact ⟨c, hc, .refl c⟩

theorem keepsProvider_setProvider {p' : Nat} {e' : Provider} (hp : w.providers p' = some e)
    (hsame : p = p' → SameProvider e e') : KeepsProvider p w (w.setProvider p' e') := by
  intro e₀ he₀
  by_cases h : p = p'
  · subst h
    rw [hp] at he₀
    cases he₀
    exact ⟨e', World.providers_setProvider _ _ _, hsame rfl⟩
  · rw [World.providers_setProvider_of_ne h]
    exact ⟨e₀, he₀, .refl e₀⟩

theorem keepsConsumer_setConsumer {k' : Nat} {c' : Consumer} (hc : w.consumers k' = some c)
    (hsame : k = k' → SameConsumer c c') : KeepsConsumer k w (w.setConsumer k' c') := by
  intro c₀ hc₀
  by_cases h : k = k'
  · subst h
    rw [hc] at hc₀
    cases hc₀
    exact ⟨c', World.consumers_setConsumer _ _ _, hsame rfl⟩
  · rw [World.consumers_setConsumer_of_ne h]
    exact ⟨c₀, hc₀, .refl c₀⟩

/-- A new substream is nobody else's. -/
theorem keepsProvider_new {p' : Nat} (hnew : w.providers p' = none) (e' : Provider) :
    KeepsProvider p w (w.setProvider p' e') := by
  intro e he
  have hne : p ≠ p' := by
    rintro rfl
    rw [hnew] at he
    cases he
  rw [World.providers_setProvider_of_ne hne]
  exact ⟨e, he, .refl e⟩

theorem keepsConsumer_new {k' : Nat} (hnew : w.consumers k' = none) (c' : Consumer) :
    KeepsConsumer k w (w.setConsumer k' c') := by
  intro c hc
  have hne : k ≠ k' := by
    rintro rfl
    rw [hnew] at hc
    cases hc
  rw [World.consumers_setConsumer_of_ne hne]
  exact ⟨c, hc, .refl c⟩

/-- What a relay does to the substreams at its ends. -/
theorem keeps_relayEffect {j : Nat} {a : Act RelayCall RelayCall.Reply}
    (he : relayEffect j a w w') (p k : Nat) : KeepsProvider p w w' ∧ KeepsConsumer k w w' := by
  cases a with
  | recv q =>
    obtain ⟨c, up, hc, -, rfl⟩ := he
    exact ⟨keepsProvider_of_eq rfl, keepsConsumer_setConsumer hc fun _ => ⟨rfl, rfl, rfl⟩⟩
  | send buf q => exact he.elim
  | call x q =>
    cases x with
    | get id =>
      obtain ⟨-, rfl⟩ := he
      exact ⟨keepsProvider_of_eq rfl, keepsConsumer_of_eq rfl⟩
    | pick pool =>
      obtain ⟨-, rfl⟩ := he
      exact ⟨keepsProvider_of_eq rfl, keepsConsumer_of_eq rfl⟩
    | openProvider opener =>
      cases q with
      | ok p' =>
        obtain ⟨hnew, rfl⟩ := he
        exact ⟨keepsProvider_new hnew _, keepsConsumer_of_eq rfl⟩
      | error msg =>
        cases he
        exact ⟨keepsProvider_of_eq rfl, keepsConsumer_of_eq rfl⟩
    | writeProvider p' buf =>
      cases q with
      | wrote m =>
        obtain ⟨e, hp, -, rfl⟩ := he
        exact ⟨keepsProvider_setProvider hp fun _ => ⟨rfl, rfl, rfl⟩, keepsConsumer_of_eq rfl⟩
      | timeout =>
        cases he
        exact ⟨keepsProvider_of_eq rfl, keepsConsumer_of_eq rfl⟩
      | fault =>
        cases he
        exact ⟨keepsProvider_of_eq rfl, keepsConsumer_of_eq rfl⟩
    | copyBidirectional p' =>
      cases he
      exact ⟨keepsProvider_of_eq rfl, keepsConsumer_of_eq rfl⟩

/-- Whatever happens at the server, only the application at an end of a substream reads
or writes there. -/
theorem keepsProvider_happens {l : Happening} (h : Happens d l w w') (hl : l ≠ .provides p) :
    KeepsProvider p w w' := by
  cases h with
  | relaying hr hs he => exact (keeps_relayEffect he p 0).1
  | giveForth hr hcopy hp hpull => exact keepsProvider_setProvider hp fun _ => ⟨rfl, rfl, rfl⟩
  | takeBack hr hcopy hp hpull => exact keepsProvider_setProvider hp fun _ => ⟨rfl, rfl, rfl⟩
  | accepts hp hnew hsent hs => exact keepsProvider_setProvider hp fun _ => ⟨rfl, rfl, rfl⟩
  | accepting hp ht hs hpull => exact keepsProvider_setProvider hp fun _ => ⟨rfl, rfl, rfl⟩
  | providerWrites bs hp hopen =>
    exact keepsProvider_setProvider hp fun heq => absurd (by rw [heq]) hl
  | providerReads hp hopen hpull =>
    exact keepsProvider_setProvider hp fun heq => absurd (by rw [heq]) hl
  | opens hnew hs => exact keepsProvider_of_eq rfl
  | opening hc hs => exact keepsProvider_of_eq rfl
  | releases hr hdone hpermit => exact keepsProvider_of_eq rfl
  | takeForth hr hcopy hc hpull => exact keepsProvider_of_eq rfl
  | giveBack hr hcopy hc hpull => exact keepsProvider_of_eq rfl
  | consumerWrites bs hc hopen => exact keepsProvider_of_eq rfl
  | consumerReads hc hopen hpull => exact keepsProvider_of_eq rfl

theorem keepsConsumer_happens {l : Happening} (h : Happens d l w w') (hl : l ≠ .consumes k) :
    KeepsConsumer k w w' := by
  cases h with
  | relaying hr hs he => exact (keeps_relayEffect he 0 k).2
  | opens hnew hs => exact keepsConsumer_new hnew _
  | opening hc hs => exact keepsConsumer_setConsumer hc fun _ => ⟨rfl, rfl, rfl⟩
  | takeForth hr hcopy hc hpull => exact keepsConsumer_setConsumer hc fun _ => ⟨rfl, rfl, rfl⟩
  | giveBack hr hcopy hc hpull => exact keepsConsumer_setConsumer hc fun _ => ⟨rfl, rfl, rfl⟩
  | consumerWrites bs hc hopen =>
    exact keepsConsumer_setConsumer hc fun heq => absurd (by rw [heq]) hl
  | consumerReads hc hopen hpull =>
    exact keepsConsumer_setConsumer hc fun heq => absurd (by rw [heq]) hl
  | releases hr hdone hpermit => exact keepsConsumer_of_eq rfl
  | giveForth hr hcopy hp hpull => exact keepsConsumer_of_eq rfl
  | takeBack hr hcopy hp hpull => exact keepsConsumer_of_eq rfl
  | accepts hp hnew hsent hs => exact keepsConsumer_of_eq rfl
  | accepting hp ht hs hpull => exact keepsConsumer_of_eq rfl
  | providerWrites bs hp hopen => exact keepsConsumer_of_eq rfl
  | providerReads hp hopen hpull => exact keepsConsumer_of_eq rfl

/-- A handler does not touch what its client's applications have read and written. -/
theorem keeps_handler {h : Hist Call Call.Reply} {i : Nat} {a : Act Call Call.Reply}
    (ht : Proc.Trace (handler d auth) (h ++ [a])) (he : handlerEffect i a w w') :
    KeepsProvider p w w' ∧ KeepsConsumer k w w' := by
  obtain ⟨m, m', -, -, hs⟩ := handlerStep ht he
  cases hs with
  | accept hm hc hconn hacc =>
    exact ⟨keepsProvider_of_eq rfl, keepsConsumer_setConsumer hc fun _ => ⟨rfl, rfl, rfl⟩⟩
  | acquire hm hpermits => exact ⟨keepsProvider_of_eq rfl, keepsConsumer_of_eq rfl⟩
  | deny hm hpermits => exact ⟨keepsProvider_of_eq rfl, keepsConsumer_of_eq rfl⟩
  | spawn hm => exact ⟨keepsProvider_of_eq rfl, keepsConsumer_of_eq rfl⟩
  | enter hm => exact ⟨keepsProvider_of_eq rfl, keepsConsumer_of_eq rfl⟩
  | leave hm => exact ⟨keepsProvider_of_eq rfl, keepsConsumer_of_eq rfl⟩
  | quiet hm hkeep hm' ha => exact ⟨keepsProvider_of_eq rfl, keepsConsumer_of_eq rfl⟩

end Frame

/-! ## Sessions and substreams -/

/-- The source's session stands at an end of the substream it was given. -/
structure SourceSound (x : Setup) (w : World) (i : Nat) (c : SourceClient) : Prop where
  run : ((Core.runSource x.session (x.streamOut i)).run (x.progress i)).Run c.hist c.task
  fresh : c.stream = none → c.hist.ins = [] ∧ c.hist.outs = []
  stream : ∀ p, c.stream = some p → ∃ e, w.providers p = some e ∧ e.conn = i ∧
    e.read = c.hist.ins ∧ e.wrote = c.hist.outs

/-- The destination's session stands at an end of the substream it was given. -/
structure DestinationSound (x : Setup) (w : World) (j : Nat) (c : DestinationClient) : Prop where
  run : ((Core.runDestination x.session (x.streamIn j)).run (x.progress j)).Run c.hist c.task
  fresh : c.stream = none → c.hist.ins = [] ∧ c.hist.outs = []
  stream : ∀ k, c.stream = some k → ∃ e, w.consumers k = some e ∧ e.conn = j ∧
    e.read = c.hist.ins ∧ e.wrote = c.hist.outs

/-- Every session does, and the server is one that its own runs can reach. -/
structure Sound (x : Setup) (s : System) : Prop where
  server : ServerReach x.transport x.auth x.maxConns s.server
  sources : ∀ i c, s.sources i = some c → SourceSound x s.server.shared i c
  destinations : ∀ j c, s.destinations j = some c → DestinationSound x s.server.shared j c

section Sound

variable {x : Setup} {s s' : System} {w w' : World} {i j : Nat}

theorem SourceSound.keep {c : SourceClient} (h : SourceSound x w i c)
    (hk : ∀ p, c.stream = some p → KeepsProvider p w w') : SourceSound x w' i c := by
  refine ⟨h.run, h.fresh, fun p hp => ?_⟩
  obtain ⟨e, he, hconn, hread, hwrote⟩ := h.stream p hp
  obtain ⟨e', he', hsame⟩ := hk p hp e he
  exact ⟨e', he', hsame.conn.trans hconn, hsame.read.trans hread, hsame.wrote.trans hwrote⟩

theorem DestinationSound.keep {c : DestinationClient} (h : DestinationSound x w j c)
    (hk : ∀ k, c.stream = some k → KeepsConsumer k w w') : DestinationSound x w' j c := by
  refine ⟨h.run, h.fresh, fun k hstream => ?_⟩
  obtain ⟨e, he, hconn, hread, hwrote⟩ := h.stream k hstream
  obtain ⟨e', he', hsame⟩ := hk k hstream e he
  exact ⟨e', he', hsame.conn.trans hconn, hsame.read.trans hread, hsame.wrote.trans hwrote⟩

/-- A session that was just started. -/
theorem SourceSound.start (x : Setup) (w : World) (i : Nat) :
    SourceSound x w i
      ⟨(Core.runSource x.session (x.streamOut i)).run (x.progress i), none, []⟩ := by
  refine ⟨.refl _, fun _ => ⟨rfl, rfl⟩, fun p hp => ?_⟩
  cases hp

theorem DestinationSound.start (x : Setup) (w : World) (j : Nat) :
    DestinationSound x w j
      ⟨(Core.runDestination x.session (x.streamIn j)).run (x.progress j), none, []⟩ := by
  refine ⟨.refl _, fun _ => ⟨rfl, rfl⟩, fun k hk => ?_⟩
  cases hk

/-! ### Interactions of the sessions -/

section Effect

variable {a : Act Core.Call Core.Call.Reply} {stream stream' : Option Nat} {p k : Nat}

theorem Idle.moves_nothing (ha : Idle a) : Act.ins a = [] ∧ Act.outs a = [] := by
  cases a with
  | recv q =>
    cases q with
    | data bs =>
      cases bs with
      | nil => exact ⟨rfl, rfl⟩
      | cons b bs => exact ha.elim
    | timeout => exact ⟨rfl, rfl⟩
    | fault => exact ⟨rfl, rfl⟩
  | send buf q =>
    cases q with
    | wrote m => exact ha.elim
    | timeout => exact ⟨rfl, rfl⟩
    | fault => exact ⟨rfl, rfl⟩
  | call e q => exact ⟨rfl, rfl⟩

theorem ins_concat (h : Hist Core.Call Core.Call.Reply) (a : Act Core.Call Core.Call.Reply) :
    Hist.ins (h ++ [a]) = h.ins ++ Act.ins a := by
  rw [Hist.ins_append]
  simp [Hist.ins]

theorem outs_concat (h : Hist Core.Call Core.Call.Reply)
    (a : Act Core.Call Core.Call.Reply) : Hist.outs (h ++ [a]) = h.outs ++ Act.outs a := by
  rw [Hist.outs_append]
  simp [Hist.outs]

/-- To the server, a session is an application that reads and writes. -/
theorem SourceEffect.server {d : Transport.Deps} {auth : Option Authenticator} {n : Nat}
    {s : Transport.System} (he : SourceEffect i s.shared stream a w stream')
    (hr : ServerReach d auth n s) : ServerReach d auth n ⟨s.hist, w⟩ := by
  cases he with
  | accept hp hconn hopen hread hwrote => exact hr
  | read hp hopen hpull => exact hr.step trivial (.env (.providerReads hp hopen hpull))
  | write hp hopen => exact hr.step trivial (.env (.providerWrites _ hp hopen))
  | idle ha => exact hr

theorem DestinationEffect.server {d : Transport.Deps} {auth : Option Authenticator} {n : Nat}
    {s : Transport.System} (he : DestinationEffect j s.shared stream a w stream')
    (hr : ServerReach d auth n s) : ServerReach d auth n ⟨s.hist, w⟩ := by
  cases he with
  | opened hc hconn hopen hread hwrote => exact hr
  | read hc hopen hpull => exact hr.step trivial (.env (.consumerReads hc hopen hpull))
  | write hc hopen => exact hr.step trivial (.env (.consumerWrites _ hc hopen))
  | idle ha => exact hr

/-- A source touches no consumer's substream, and no provider's but its own. -/
theorem SourceEffect.keeps (he : SourceEffect i w stream a w' stream') (p k : Nat) :
    (stream ≠ some p → KeepsProvider p w w') ∧ KeepsConsumer k w w' := by
  cases he with
  | accept hp hconn hopen hread hwrote =>
    exact ⟨fun _ => keepsProvider_of_eq rfl, keepsConsumer_of_eq rfl⟩
  | read hp hopen hpull =>
    exact ⟨fun hne => keepsProvider_setProvider hp fun heq => absurd (congrArg some heq.symm) hne,
      keepsConsumer_of_eq rfl⟩
  | write hp hopen =>
    exact ⟨fun hne => keepsProvider_setProvider hp fun heq => absurd (congrArg some heq.symm) hne,
      keepsConsumer_of_eq rfl⟩
  | idle ha => exact ⟨fun _ => keepsProvider_of_eq rfl, keepsConsumer_of_eq rfl⟩

theorem DestinationEffect.keeps (he : DestinationEffect j w stream a w' stream') (p k : Nat) :
    (stream ≠ some k → KeepsConsumer k w w') ∧ KeepsProvider p w w' := by
  cases he with
  | opened hc hconn hopen hread hwrote =>
    exact ⟨fun _ => keepsConsumer_of_eq rfl, keepsProvider_of_eq rfl⟩
  | read hc hopen hpull =>
    exact ⟨fun hne => keepsConsumer_setConsumer hc fun heq => absurd (congrArg some heq.symm) hne,
      keepsProvider_of_eq rfl⟩
  | write hc hopen =>
    exact ⟨fun hne => keepsConsumer_setConsumer hc fun heq => absurd (congrArg some heq.symm) hne,
      keepsProvider_of_eq rfl⟩
  | idle ha => exact ⟨fun _ => keepsConsumer_of_eq rfl, keepsProvider_of_eq rfl⟩

/-- The session that interacts stays at its end. -/
theorem SourceSound.step {c : SourceClient}
    {t : Proc Core.Call Core.Call.Reply (Core.Result Core.SourceOutcome × Core.Progress)}
    (h : SourceSound x w i c) (hs : c.task.Step a t)
    (he : SourceEffect i w c.stream a w' stream') :
    SourceSound x w' i ⟨t, stream', c.hist ++ [a]⟩ := by
  have hrun := h.run.tail hs
  generalize hst : c.stream = st at he
  cases he with
  | @accept p e hp hconn hopen hread hwrote =>
    obtain ⟨hins, houts⟩ := h.fresh hst
    refine ⟨hrun, fun hnone => (by cases hnone), ?_⟩
    rintro p' ⟨⟩
    refine ⟨e, hp, hconn, ?_, ?_⟩
    · rw [ins_concat, hins, hread]
      rfl
    · rw [outs_concat, houts, hwrote]
      rfl
  | @read p e down b bs hp hopen hpull =>
    obtain ⟨e', he', hconn, hread, hwrote⟩ := h.stream p hst
    rw [hp] at he'
    cases he'
    refine ⟨hrun, fun hnone => (by cases hnone), ?_⟩
    rintro p' ⟨⟩
    refine ⟨_, World.providers_setProvider _ _ _, hconn, ?_, ?_⟩
    · rw [ins_concat, ← hread]
      rfl
    · rw [outs_concat, ← hwrote]
      exact (List.append_nil _).symm
  | @write p m e buf hp hopen =>
    obtain ⟨e', he', hconn, hread, hwrote⟩ := h.stream p hst
    rw [hp] at he'
    cases he'
    refine ⟨hrun, fun hnone => (by cases hnone), ?_⟩
    rintro p' ⟨⟩
    refine ⟨_, World.providers_setProvider _ _ _, hconn, ?_, ?_⟩
    · rw [ins_concat, ← hread]
      exact (List.append_nil _).symm
    · rw [outs_concat, ← hwrote]
      rfl
  | idle ha =>
    obtain ⟨hins, houts⟩ := ha.moves_nothing
    subst hst
    refine ⟨hrun, fun hnone => ?_, fun p hp => ?_⟩
    · rw [ins_concat, outs_concat, hins, houts, List.append_nil, List.append_nil]
      exact h.fresh hnone
    · rw [ins_concat, outs_concat, hins, houts, List.append_nil, List.append_nil]
      exact h.stream p hp

theorem DestinationSound.step {c : DestinationClient}
    {t : Proc Core.Call Core.Call.Reply (Core.Result Core.BackupPlan × Core.Progress)}
    (h : DestinationSound x w j c) (hs : c.task.Step a t)
    (he : DestinationEffect j w c.stream a w' stream') :
    DestinationSound x w' j ⟨t, stream', c.hist ++ [a]⟩ := by
  have hrun := h.run.tail hs
  generalize hst : c.stream = st at he
  cases he with
  | @opened k e hc hconn hopen hread hwrote =>
    obtain ⟨hins, houts⟩ := h.fresh hst
    refine ⟨hrun, fun hnone => (by cases hnone), ?_⟩
    rintro k' ⟨⟩
    refine ⟨e, hc, hconn, ?_, ?_⟩
    · rw [ins_concat, hins, hread]
      rfl
    · rw [outs_concat, houts, hwrote]
      rfl
  | @read k e down b bs hc hopen hpull =>
    obtain ⟨e', he', hconn, hread, hwrote⟩ := h.stream k hst
    rw [hc] at he'
    cases he'
    refine ⟨hrun, fun hnone => (by cases hnone), ?_⟩
    rintro k' ⟨⟩
    refine ⟨_, World.consumers_setConsumer _ _ _, hconn, ?_, ?_⟩
    · rw [ins_concat, ← hread]
      rfl
    · rw [outs_concat, ← hwrote]
      exact (List.append_nil _).symm
  | @write k m e buf hc hopen =>
    obtain ⟨e', he', hconn, hread, hwrote⟩ := h.stream k hst
    rw [hc] at he'
    cases he'
    refine ⟨hrun, fun hnone => (by cases hnone), ?_⟩
    rintro k' ⟨⟩
    refine ⟨_, World.consumers_setConsumer _ _ _, hconn, ?_, ?_⟩
    · rw [ins_concat, ← hread]
      exact (List.append_nil _).symm
    · rw [outs_concat, ← hwrote]
      rfl
  | idle ha =>
    obtain ⟨hins, houts⟩ := ha.moves_nothing
    subst hst
    refine ⟨hrun, fun hnone => ?_, fun k hk => ?_⟩
    · rw [ins_concat, outs_concat, hins, houts, List.append_nil, List.append_nil]
      exact h.fresh hnone
    · rw [ins_concat, outs_concat, hins, houts, List.append_nil, List.append_nil]
      exact h.stream k hk

end Effect

/-! ### Every state -/

/-- Two sessions never hold one substream: each stands at its own connection. -/
theorem SourceSound.stream_ne {c c' : SourceClient} (h : SourceSound x w i c)
    (h' : SourceSound x w j c') (hne : j ≠ i) {p : Nat} (hp : c'.stream = some p) :
    c.stream ≠ some p := by
  intro hp'
  obtain ⟨e, he, hconn, -⟩ := h.stream p hp'
  obtain ⟨e', he', hconn', -⟩ := h'.stream p hp
  rw [he] at he'
  cases he'
  exact hne (hconn'.symm.trans hconn)

theorem DestinationSound.stream_ne {c c' : DestinationClient} (h : DestinationSound x w i c)
    (h' : DestinationSound x w j c') (hne : j ≠ i) {k : Nat} (hk : c'.stream = some k) :
    c.stream ≠ some k := by
  intro hk'
  obtain ⟨e, he, hconn, -⟩ := h.stream k hk'
  obtain ⟨e', he', hconn', -⟩ := h'.stream k hk
  rw [he] at he'
  cases he'
  exact hne (hconn'.symm.trans hconn)

/-- The server takes a step. -/
theorem Sound.serve (h : Sound x s) {e : Event Nat Call Call.Reply Happening}
    {server' : Transport.System}
    (hs : (Transport.server x.transport x.auth).Step e s.server server')
    (hfree : Free s e) : Sound x { s with server := server' } := by
  refine ⟨h.server.step trivial hs, fun i c hc => ?_, fun j c hc => ?_⟩
  · refine (h.sources i c hc).keep fun p hp => ?_
    cases hs with
    | task ht he => exact (keeps_handler (k := 0) ht he).1
    | env he =>
      refine keepsProvider_happens he ?_
      rintro rfl
      exact hfree i c hc hp
  · refine (h.destinations j c hc).keep fun k hk => ?_
    cases hs with
    | task ht he => exact (keeps_handler (p := 0) ht he).2
    | env he =>
      refine keepsConsumer_happens he ?_
      rintro rfl
      exact hfree j c hc hk

/-- A source takes a step. -/
theorem Sound.source (h : Sound x s) {c : SourceClient} {a : Act Core.Call Core.Call.Reply}
    {t : Proc Core.Call Core.Call.Reply (Core.Result Core.SourceOutcome × Core.Progress)}
    {stream : Option Nat} (hc : s.sources i = some c) (hs : c.task.Step a t)
    (he : SourceEffect i s.server.shared c.stream a w stream) :
    Sound x ((s.setWorld w).setSource i ⟨t, stream, c.hist ++ [a]⟩) := by
  refine ⟨he.server h.server, fun i' c' hc' => ?_, fun j c' hc' => ?_⟩
  · by_cases hne : i' = i
    · subst hne
      rw [System.sources_setSource] at hc'
      cases hc'
      exact (h.sources i' c hc).step hs he
    · rw [System.sources_setSource_of_ne hne] at hc'
      have hsound := h.sources i' c' hc'
      exact hsound.keep fun p hp => (he.keeps p 0).1 ((h.sources i c hc).stream_ne hsound hne hp)
  · exact (h.destinations j c' hc').keep fun k _ => (he.keeps 0 k).2

/-- A destination takes a step. -/
theorem Sound.destination (h : Sound x s) {c : DestinationClient}
    {a : Act Core.Call Core.Call.Reply}
    {t : Proc Core.Call Core.Call.Reply (Core.Result Core.BackupPlan × Core.Progress)}
    {stream : Option Nat} (hc : s.destinations j = some c) (hs : c.task.Step a t)
    (he : DestinationEffect j s.server.shared c.stream a w stream) :
    Sound x ((s.setWorld w).setDestination j ⟨t, stream, c.hist ++ [a]⟩) := by
  refine ⟨he.server h.server, fun i c' hc' => ?_, fun j' c' hc' => ?_⟩
  · exact (h.sources i c' hc').keep fun p _ => (he.keeps p 0).2
  · by_cases hne : j' = j
    · subst hne
      rw [System.destinations_setDestination] at hc'
      cases hc'
      exact (h.destinations j' c hc).step hs he
    · rw [System.destinations_setDestination_of_ne hne] at hc'
      have hsound := h.destinations j' c' hc'
      exact hsound.keep fun k hk =>
        (he.keeps 0 k).1 ((h.destinations j c hc).stream_ne hsound hne hk)

theorem Sound.step (h : Sound x s) (hs : Step x s s') : Sound x s' := by
  cases hs with
  | serve hs hfree => exact h.serve hs hfree
  | startSource i hnew =>
    refine ⟨h.server, fun i' c hc => ?_, h.destinations⟩
    by_cases hne : i' = i
    · subst hne
      rw [System.sources_setSource] at hc
      cases hc
      exact .start x _ i'
    · rw [System.sources_setSource_of_ne hne] at hc
      exact h.sources i' c hc
  | startDestination j hnew =>
    refine ⟨h.server, h.sources, fun j' c hc => ?_⟩
    by_cases hne : j' = j
    · subst hne
      rw [System.destinations_setDestination] at hc
      cases hc
      exact .start x _ j'
    · rw [System.destinations_setDestination_of_ne hne] at hc
      exact h.destinations j' c hc
  | source hc hs he => exact h.source hc hs he
  | destination hc hs he => exact h.destination hc hs he

theorem Reach.sound (hr : Reach x s) : Sound x s := by
  induction hr with
  | init =>
    refine ⟨.init, fun i c hc => ?_, fun j c hc => ?_⟩
    · cases hc
    · cases hc
  | step _ hs ih => exact ih.step hs

/-- Whatever the server can do, it can do before any session starts. -/
theorem reach_idle {t : Transport.System} (hr : ServerReach x.transport x.auth x.maxConns t) :
    Reach x (.idle t) := by
  induction hr with
  | init => exact .init
  | @step t t' e _ _ hs ih =>
    refine ih.step (.serve hs ?_)
    cases e with
    | task i a => exact trivial
    | env l =>
      cases l with
      | consumes k => exact fun j c hc => (by cases hc)
      | provides p => exact fun i c hc => (by cases hc)
      | _ => exact trivial

end Sound

end RustBackup.Deployment
