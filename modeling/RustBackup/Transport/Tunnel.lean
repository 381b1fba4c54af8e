/-
  Transport/Tunnel.lean --- a source behind the server.

  Sources: crates/rb-core/src/session.rs (`run_source`) and
  crates/rb-transport/src/{channel,mux,server}.rs.

  The server is as in `Transport/World.lean`, with any number of destinations.  On the
  source's side of its connection there are the driver, the channel of inbound
  substreams, the acceptor that takes from it, and `run_source`, which calls
  `accept_stream` once.  Who moves next is free.

  The acceptor takes one substream, the channel holds thirty-two, and one more is in
  the driver's hands: the thirty-fourth substream that is announced to the source is
  the one the driver never gets rid of (`driver_blocks_exact`).
-/
import RustBackup.Core.OneStream
import RustBackup.Transport.Mux
import RustBackup.Transport.Meeting
import Mathlib.Logic.Relation

set_option autoImplicit false

namespace RustBackup.Transport

open RustBackup.Serde RustBackup.Io RustBackup.Core

/-! ## State -/

/-- What a source is started with. -/
structure Source where
  /-- its connection -/
  conn : Nat
  /-- the libraries that its session uses -/
  session : Core.Deps
  streamOut : BackupPlan → SinkProg
  progress : Progress

/-- A server, and a source with its end of a connection. -/
structure Tunnel where
  server : System
  driver : Driver
  /-- the substreams that the connection has handed to the driver, in order -/
  taken : List Nat
  /-- the channel from the driver to the acceptor -/
  inbound : List Nat
  /-- the substreams that the acceptor has handed out, in order -/
  accepted : List Nat
  /-- what is left of `run_source` -/
  session : Proc Core.Call Core.Call.Reply (Result SourceOutcome × Progress)
  /-- the substream of an `accept_stream` that has not returned -/
  accepting : Option Nat
  /-- the stream that `accept_stream` has returned -/
  stream : Option Nat

namespace Tunnel

/-- Nothing has happened. -/
def start (maxConns : Nat) (c : Source) : Tunnel where
  server := ⟨fun _ => [], .start maxConns⟩
  driver := .polling .new
  taken := []
  inbound := []
  accepted := []
  session := (runSource c.session c.streamOut).run c.progress
  accepting := none
  stream := none

/-- A substream to connection `i` has been opened and its first bytes are on their way. -/
def Announced (i : Nat) (w : World) (p : Nat) : Prop :=
  ∃ e, w.providers p = some e ∧ e.conn = i ∧ e.down.put ≠ []

/-! ## Steps -/

/-- An event at the source's end of connection `i`. -/
def AtSource (i : Nat) (w : World) : Event Nat Transport.Call Transport.Call.Reply Happening → Prop
  | .env (.accepts p) => ∃ e, w.providers p = some e ∧ e.conn = i
  | .env (.provides p) => ∃ e, w.providers p = some e ∧ e.conn = i
  | _ => False

/-- What an interaction of `run_source` does with its stream. -/
def sessionEffect (stream : Option Nat) :
    Act Core.Call Core.Call.Reply → World → World → Prop
  | .recv (.data bs), w, w' => ∃ p e down, stream = some p ∧ w.providers p = some e ∧
      e.down.Pull bs down ∧ w' = w.setProvider p { e with down := down, read := e.read ++ bs }
  | .send bs (.wrote m), w, w' => ∃ p e, stream = some p ∧ w.providers p = some e ∧
      w' = w.setProvider p { e with up := e.up.push (bs.take m)
                                    wrote := e.wrote ++ bs.take m }
  | .call .acceptStream _, _, _ => False
  | _, w, w' => w' = w

/-- The steps of the driver of connection `i`. -/
inductive Drives (i : Nat) : Tunnel → Tunnel → Prop where
  /-- a round of polling; a substream comes in once -/
  | polls {s : Tunnel} {v v' : Drive} {requests : Polled (Option OpenRequest)}
      {outbound : Polled (Except String Nat)} {inbound : Polled (Option (Except String Nat))}
      {found : Polled DriveStep} (hd : s.driver = .polling v)
      (hnew : ∀ p, inbound = .ready (some (.ok p)) →
        Announced i s.server.shared p ∧ p ∉ s.taken)
      (hpoll : v.poll requests outbound inbound = (v', found)) :
      Drives i s { s with driver := .after v' found
                          taken := s.taken ++ (Driver.after v' found).stream?.toList }
  /-- `inbound_tx.send` -/
  | hands {s : Tunnel} {v : Drive} {p : Nat} (hd : s.driver = .handing v p)
      (hroom : s.inbound.length < INBOUND_CAPACITY) :
      Drives i s { s with driver := .polling v, inbound := s.inbound ++ [p] }
  | returns {s : Tunnel} (hd : s.driver = .closing) : Drives i s { s with driver := .returned }

/-- One step. -/
inductive Step (d : Deps) (auth : Option Authenticator) (i : Nat) : Tunnel → Tunnel → Prop where
  /-- the server, another client, or `accept_stream` that reads its marker -/
  | server {s : Tunnel} {e : Event Nat Transport.Call Transport.Call.Reply Happening}
      {server : System} (hs : (Transport.server d auth).Step e s.server server)
      (hother : ¬ AtSource i s.server.shared e) : Step d auth i s { s with server := server }
  | drives {s s' : Tunnel} (hs : Drives i s s') : Step d auth i s s'
  /-- `accept_stream` gets a substream -/
  | accepts {s : Tunnel} {p : Nat} {rest : List Nat} {w : World}
      {k : Result Unit → Proc Core.Call Core.Call.Reply (Result SourceOutcome × Progress)}
      (hask : s.session = .call .acceptStream k) (hfree : s.accepting = none)
      (hin : s.inbound = p :: rest) (hw : Happens d (.accepts p) s.server.shared w) :
      Step d auth i s { s with server := ⟨s.server.hist, w⟩, inbound := rest
                               accepted := s.accepted ++ [p], accepting := some p }
  /-- `accept_stream` returns -/
  | returns {s : Tunnel} {p : Nat} {e : Provider} {r : Result Nat}
      {k : Result Unit → Proc Core.Call Core.Call.Reply (Result SourceOutcome × Progress)}
      (hask : s.session = .call .acceptStream k) (hp : s.accepting = some p)
      (he : s.server.shared.providers p = some e) (hr : e.task = some (.ret r)) :
      Step d auth i s { s with session := k (r.map fun _ => ()), accepting := none
                               stream := r.toOption }
  /-- `accept_stream` finds the channel closed -/
  | refused {s : Tunnel}
      {k : Result Unit → Proc Core.Call Core.Call.Reply (Result SourceOutcome × Progress)}
      (hask : s.session = .call .acceptStream k) (hfree : s.accepting = none)
      (hin : s.inbound = []) (hd : s.driver = .returned) :
      Step d auth i s { s with session := k (.error (connectError "acceptor closed")) }
  /-- `run_source` interacts otherwise -/
  | session {s : Tunnel} {a : Act Core.Call Core.Call.Reply} {w : World}
      {q : Proc Core.Call Core.Call.Reply (Result SourceOutcome × Progress)}
      (hs : s.session.Step a q) (hw : sessionEffect s.stream a s.server.shared w) :
      Step d auth i s { s with session := q, server := ⟨s.server.hist, w⟩ }

/-- Any number of steps. -/
abbrev Steps (d : Deps) (auth : Option Authenticator) (i : Nat) : Tunnel → Tunnel → Prop :=
  Relation.ReflTransGen (Step d auth i)

/-- The states that can be reached, whatever happens. -/
abbrev Reach (d : Deps) (auth : Option Authenticator) (maxConns : Nat) (c : Source)
    (s : Tunnel) : Prop :=
  Steps d auth c.conn (start maxConns c) s

/-- The driver has a substream in its hands, and the channel is full. -/
def Blocked (s : Tunnel) : Prop :=
  ∃ v p, s.driver = .handing v p ∧ INBOUND_CAPACITY ≤ s.inbound.length

/-- `accept_stream` has returned the stream of the session. -/
def Accepted (s : Tunnel) : Prop := s.stream ≠ none

/-- More substreams have been announced on connection `i` than the source's and
thirty-two others. -/
def Crowded (i : Nat) (s : Tunnel) : Prop :=
  ∃ l : List Nat, l.Nodup ∧ l.length = INBOUND_CAPACITY + 2 ∧
    ∀ p ∈ l, Announced i s.server.shared p

end Tunnel

/-! ## Substreams of a source stay -/

/-- A provider's substream stays with its connection, does not forget what was put into
it, and stays with the acceptor that has it. -/
structure Provider.Grows (e e' : Provider) : Prop where
  conn : e'.conn = e.conn
  put : e.down.put <+: e'.down.put
  task : e'.task = none → e.task = none

theorem Provider.Grows.refl (e : Provider) : e.Grows e := ⟨rfl, List.prefix_rfl, fun h => h⟩

section Grows

variable {d : Deps} {auth : Option Authenticator} {w w' : World} {e : Provider} {p : Nat}

theorem grows_setProvider {p₀ : Nat} {e₀ e₁ : Provider} (hp₀ : w.providers p₀ = some e₀)
    (hg : e₀.Grows e₁) (hp : w.providers p = some e) :
    ∃ e', (w.setProvider p₀ e₁).providers p = some e' ∧ e.Grows e' := by
  by_cases hne : p = p₀
  · subst hne
    rw [hp] at hp₀
    cases hp₀
    exact ⟨e₁, World.providers_setProvider _ _ _, hg⟩
  · exact ⟨e, (World.providers_setProvider_of_ne hne).trans hp, .refl e⟩

theorem grows_relayEffect_provider {k : Nat} {a : Act RelayCall RelayCall.Reply}
    (he : relayEffect k a w w') (hp : w.providers p = some e) :
    ∃ e', w'.providers p = some e' ∧ e.Grows e' := by
  have hsame : w'.providers = w.providers → ∃ e', w'.providers p = some e' ∧ e.Grows e' :=
    fun heq => ⟨e, (congrFun heq p).trans hp, .refl e⟩
  cases a with
  | recv q =>
    obtain ⟨c, up, -, -, rfl⟩ := he
    exact hsame rfl
  | send bs q => exact he.elim
  | call e' q =>
    cases e' with
    | get id => exact hsame (congrArg World.providers he.2)
    | pick pool => exact hsame (by rw [he.2])
    | openProvider opener =>
      cases q with
      | ok p₀ =>
        obtain ⟨hnew, rfl⟩ := he
        have hne : p ≠ p₀ := by
          rintro rfl
          rw [hp] at hnew
          cases hnew
        exact ⟨e, (World.providers_setProvider_of_ne hne).trans hp, .refl e⟩
      | error e => exact hsame (by rw [he])
    | writeProvider p₀ buf =>
      cases q with
      | wrote m =>
        obtain ⟨e₀, hp₀, -, rfl⟩ := he
        exact grows_setProvider hp₀ ⟨rfl, List.prefix_append _ _, fun h => h⟩ hp
      | timeout => exact hsame (by rw [he])
      | fault => exact hsame (by rw [he])
    | copyBidirectional p => exact hsame (by rw [he])

theorem Happens.grows_provider {l : Happening} (hs : Happens d l w w')
    (hp : w.providers p = some e) : ∃ e', w'.providers p = some e' ∧ e.Grows e' := by
  cases hs with
  | relaying _ _ he =>
    obtain ⟨e', hp', hg⟩ := grows_relayEffect_provider he hp
    exact ⟨e', hp', hg⟩
  | giveForth _ _ hp₀ _ => exact grows_setProvider hp₀ ⟨rfl, List.prefix_append _ _, id⟩ hp
  | takeBack _ _ hp₀ _ => exact grows_setProvider hp₀ ⟨rfl, List.prefix_rfl, id⟩ hp
  | accepts hp₀ _ _ _ => exact grows_setProvider hp₀ ⟨rfl, List.prefix_rfl, fun h => by cases h⟩ hp
  | accepting hp₀ _ _ hpull =>
    exact grows_setProvider hp₀ ⟨rfl, by rw [hpull.put], fun h => by cases h⟩ hp
  | providerWrites bs hp₀ _ => exact grows_setProvider hp₀ ⟨rfl, List.prefix_rfl, id⟩ hp
  | providerReads hp₀ _ hpull => exact grows_setProvider hp₀ ⟨rfl, by rw [hpull.put], id⟩ hp
  | _ => exact ⟨e, hp, .refl e⟩

/-- A handler does not touch the substreams of a source. -/
theorem HandlerStep.providers {i : Nat} {m m' : Handler} {a : Act Transport.Call Call.Reply}
    (h : HandlerStep i w m a w' m') : w'.providers = w.providers := by
  cases h <;> rfl

theorem grows_of_step {s s' : System}
    {ev : Event Nat Transport.Call Call.Reply Happening}
    (hs : (server d auth).Step ev s s') (hp : s.shared.providers p = some e) :
    ∃ e', s'.shared.providers p = some e' ∧ e.Grows e' := by
  cases hs with
  | task ht he =>
    obtain ⟨m, m', -, -, hstep⟩ := handlerStep ht he
    refine ⟨e, ?_, .refl e⟩
    rw [Tasks.shared_log, hstep.providers]
    exact hp
  | env hs => exact hs.grows_provider hp

end Grows

namespace Tunnel

variable {d : Deps} {auth : Option Authenticator} {i maxConns : Nat} {c : Source} {s s' : Tunnel}

/-! ## The invariant -/

/-- The session against what its acceptor has handed out: `asked` says whether
`accept_stream` has returned. -/
structure Asks (s : Tunnel) (asked : Bool) : Prop where
  conforms : s.session.Conforms acceptNext Anything (fun _ _ => True) asked
  before : asked = false → s.accepted.length = s.accepting.toList.length ∧ s.stream = none
  after : asked = true → s.accepting = none ∧ s.accepted.length ≤ 1 ∧
    (s.stream ≠ none → s.accepted.length = 1)

/-- Where the substreams are that the connection has handed out. -/
structure Inv (i : Nat) (s : Tunnel) : Prop where
  order : s.taken = s.accepted ++ s.inbound ++ s.driver.stream?.toList
  nodup : s.taken.Nodup
  announced : ∀ p ∈ s.taken, Announced i s.server.shared p
  room : s.inbound.length ≤ INBOUND_CAPACITY
  asks : ∃ asked, Asks s asked

theorem inv_start (maxConns : Nat) (c : Source) : Inv c.conn (start maxConns c) where
  order := rfl
  nodup := List.nodup_nil
  announced _ h := absurd h List.not_mem_nil
  room := Nat.zero_le _
  asks := ⟨false, conforms_runSource _ _ _, fun _ => ⟨rfl, rfl⟩, fun h => by cases h⟩

/-- A session that is about to call `accept_stream` has not done so before. -/
theorem Asks.of_call {asked : Bool} (h : Asks s asked)
    {k : Result Unit → Proc Core.Call Core.Call.Reply (Result SourceOutcome × Progress)}
    (hask : s.session = .call .acceptStream k) :
    asked = false ∧ ∀ r, (k r).Conforms acceptNext Anything (fun _ _ => True) true := by
  have hc := h.conforms
  rw [hask] at hc
  cases asked with
  | true =>
    obtain ⟨m, hm, -⟩ := hc.2 (.ok ())
    cases hm
  | false =>
    refine ⟨rfl, fun r => ?_⟩
    obtain ⟨m, hm, hk⟩ := hc.2 r
    cases hm
    exact hk

/-- Any other interaction leaves the protocol where it is. -/
theorem conforms_step {asked : Bool} {a : Act Core.Call Core.Call.Reply}
    {p q : Proc Core.Call Core.Call.Reply (Result SourceOutcome × Progress)}
    (hp : p.Conforms acceptNext Anything (fun _ _ => True) asked) (hs : p.Step a q)
    (ha : ∀ r, a ≠ .call .acceptStream r) :
    q.Conforms acceptNext Anything (fun _ _ => True) asked := by
  cases hs with
  | read _ => exact hp.2 _
  | write _ => exact hp.2 _
  | @call e k r =>
    obtain ⟨m, hm, hk⟩ := hp.2 r
    cases e with
    | acceptStream => exact absurd rfl (ha r)
    | _ => cases hm; exact hk

theorem announced_of_grows {w w' : World} {p : Nat}
    (hw : ∀ e, w.providers p = some e → ∃ e', w'.providers p = some e' ∧ e.Grows e')
    (h : Announced i w p) : Announced i w' p := by
  obtain ⟨e, hp, hconn, hput⟩ := h
  obtain ⟨e', hp', hg⟩ := hw e hp
  refine ⟨e', hp', hg.conn.trans hconn, fun hnil => hput ?_⟩
  exact List.prefix_nil.mp (hnil ▸ hg.put)

theorem grows_sessionEffect {a : Act Core.Call Core.Call.Reply} {w w' : World} {p : Nat}
    {stream : Option Nat} {e : Provider} (hw : sessionEffect stream a w w')
    (hp : w.providers p = some e) : ∃ e', w'.providers p = some e' ∧ e.Grows e' := by
  have hsame : w' = w → ∃ e', w'.providers p = some e' ∧ e.Grows e' :=
    fun heq => ⟨e, by rw [heq]; exact hp, .refl e⟩
  cases a with
  | recv q =>
    cases q with
    | data bs =>
      obtain ⟨q, e₀, down, -, hq, hpull, rfl⟩ := hw
      exact grows_setProvider hq ⟨rfl, by rw [hpull.put], id⟩ hp
    | timeout => exact hsame hw
    | fault => exact hsame hw
  | send bs q =>
    cases q with
    | wrote m =>
      obtain ⟨q, e₀, -, hq, rfl⟩ := hw
      exact grows_setProvider hq ⟨rfl, List.prefix_rfl, id⟩ hp
    | timeout => exact hsame hw
    | fault => exact hsame hw
  | call e' r =>
    cases e' with
    | acceptStream => exact hw.elim
    | _ => exact hsame hw

/-- What has been announced stays so. -/
theorem Step.announced {j p : Nat} (hs : Step d auth i s s')
    (h : Announced j s.server.shared p) : Announced j s'.server.shared p := by
  cases hs with
  | server hs _ => exact announced_of_grows (fun e => grows_of_step hs) h
  | drives hs =>
    cases hs with
    | _ => exact h
  | accepts _ _ _ hw => exact announced_of_grows (fun e => hw.grows_provider) h
  | returns _ _ _ _ => exact h
  | refused _ _ _ _ => exact h
  | session _ hw => exact announced_of_grows (fun e => grows_sessionEffect hw) h

theorem Crowded.steps {j : Nat} (hc : Crowded j s) (hs : Steps d auth i s s') : Crowded j s' := by
  induction hs with
  | refl => exact hc
  | tail _ hs ih =>
    obtain ⟨l, hl, hlen, hann⟩ := ih
    exact ⟨l, hl, hlen, fun p hp => hs.announced (hann p hp)⟩

/-- A substream that comes in has been announced and is new. -/
theorem of_found {v v' : Drive} {requests : Polled (Option OpenRequest)}
    {outbound : Polled (Except String Nat)} {inbound : Polled (Option (Except String Nat))}
    {found : Polled DriveStep} {p : Nat}
    (hnew : ∀ p, inbound = .ready (some (.ok p)) → Announced i s.server.shared p ∧ p ∉ s.taken)
    (hpoll : v.poll requests outbound inbound = (v', found))
    (hp : (Driver.after v' found).stream? = some p) :
    Announced i s.server.shared p ∧ p ∉ s.taken := by
  cases found with
  | pending => cases hp
  | ready found =>
    cases found with
    | inbound stream =>
      cases hp
      exact hnew p (Drive.of_poll_inbound hpoll)
    | opened result => cases hp
    | done => cases hp

theorem Inv.drives (h : Inv i s) (hs : Drives i s s') : Inv i s' := by
  obtain ⟨asked, hasks⟩ := h.asks
  have hasks' : Asks s' asked := by
    cases hs with
    | polls _ _ _ => exact ⟨hasks.conforms, hasks.before, hasks.after⟩
    | hands _ _ => exact ⟨hasks.conforms, hasks.before, hasks.after⟩
    | returns _ => exact ⟨hasks.conforms, hasks.before, hasks.after⟩
  cases hs with
  | @polls v v' requests outbound inbound found hd hnew hpoll =>
    have horder := h.order
    rw [hd] at horder
    refine ⟨?_, ?_, ?_, h.room, asked, hasks'⟩
    · show s.taken ++ _ = _
      rw [horder]
      exact congrArg (· ++ _) (List.append_nil _)
    · show (s.taken ++ _).Nodup
      cases hp : (Driver.after v' found).stream? with
      | none =>
        rw [Option.toList_none, List.append_nil]
        exact h.nodup
      | some p =>
        rw [Option.toList_some, ← List.concat_eq_append, List.nodup_concat]
        exact ⟨(of_found hnew hpoll hp).2, h.nodup⟩
    · intro p hp
      rcases List.mem_append.mp hp with hp | hp
      · exact h.announced p hp
      · exact (of_found hnew hpoll (Option.mem_toList.mp hp)).1
  | @hands v p hd hroom =>
    have horder := h.order
    rw [hd] at horder
    refine ⟨?_, h.nodup, h.announced, ?_, asked, hasks'⟩
    · show s.taken = s.accepted ++ (s.inbound ++ [p]) ++ []
      rw [horder, List.append_nil, List.append_assoc]
      rfl
    · show (s.inbound ++ [p]).length ≤ _
      rw [List.length_append]
      exact hroom
  | returns hd =>
    have horder := h.order
    rw [hd] at horder
    exact ⟨horder, h.nodup, h.announced, h.room, asked, hasks'⟩

theorem Inv.step (h : Inv i s) (hs : Step d auth i s s') : Inv i s' := by
  obtain ⟨asked, hasks⟩ := h.asks
  have hann : ∀ p ∈ s.taken, Announced i s'.server.shared p :=
    fun p hp => hs.announced (h.announced p hp)
  cases hs with
  | server _ _ =>
    exact ⟨h.order, h.nodup, hann, h.room, asked, hasks.conforms, hasks.before, hasks.after⟩
  | drives hs => exact h.drives hs
  | @accepts p rest w k hask hfree hin hw =>
    obtain ⟨rfl, hk⟩ := hasks.of_call hask
    obtain ⟨hlen, hnone⟩ := hasks.before rfl
    refine ⟨?_, h.nodup, hann, ?_, false, hasks.conforms, fun _ => ⟨?_, hnone⟩,
      fun h => by cases h⟩
    · show s.taken = s.accepted ++ [p] ++ rest ++ s.driver.stream?.toList
      rw [h.order, hin, List.append_assoc s.accepted [p]]
      rfl
    · have hroom := h.room
      rw [hin, List.length_cons] at hroom
      show rest.length ≤ _
      omega
    · rw [hfree] at hlen
      show (s.accepted ++ [p]).length = 1
      rw [List.length_append, hlen]
      rfl
  | @returns p e r k hask hp he hr =>
    obtain ⟨rfl, hk⟩ := hasks.of_call hask
    obtain ⟨hlen, -⟩ := hasks.before rfl
    rw [hp] at hlen
    exact ⟨h.order, h.nodup, h.announced, h.room, true, hk _, fun h => (by cases h),
      fun _ => ⟨rfl, hlen.le, fun _ => hlen⟩⟩
  | @refused k hask hfree hin hd =>
    obtain ⟨rfl, hk⟩ := hasks.of_call hask
    obtain ⟨hlen, hnone⟩ := hasks.before rfl
    rw [hfree] at hlen
    exact ⟨h.order, h.nodup, h.announced, h.room, true, hk _, fun h => (by cases h),
      fun _ => ⟨hfree, hlen.le.trans (Nat.zero_le _), fun hs => absurd hnone hs⟩⟩
  | @session a w q hs hw =>
    have ha : ∀ r, a ≠ .call .acceptStream r := by
      rintro r rfl
      exact hw
    exact ⟨h.order, h.nodup, hann, h.room, asked, conforms_step hasks.conforms hs ha,
      hasks.before, hasks.after⟩

theorem inv_of_reach (hr : Reach d auth maxConns c s) : Inv c.conn s := by
  induction hr with
  | refl => exact inv_start maxConns c
  | tail _ hs ih => exact ih.step hs

/-! ## The driver blocks -/

/-- A source that has its stream has taken one substream from its acceptor and takes no
other. -/
theorem Inv.of_accepted (h : Inv i s) (ha : Accepted s) :
    s.accepted.length = 1 ∧
      ∀ k, s.session ≠ (.call .acceptStream k : Proc Core.Call Core.Call.Reply _) := by
  obtain ⟨asked, hasks⟩ := h.asks
  cases asked with
  | false => exact absurd (hasks.before rfl).2 ha
  | true =>
    refine ⟨(hasks.after rfl).2.2 ha, fun k hask => ?_⟩
    cases (hasks.of_call hask).1

/-- How many substreams have come in once the source has its stream. -/
theorem Inv.length_taken (h : Inv i s) (ha : Accepted s) :
    s.taken.length = 1 + s.inbound.length + s.driver.stream?.toList.length := by
  rw [h.order, List.length_append, List.length_append, (h.of_accepted ha).1]

/-- A driver that is blocked has been handed more substreams than there is room for. -/
theorem crowded_of_blocked (h : Inv i s) (ha : Accepted s) (hb : Blocked s) : Crowded i s := by
  obtain ⟨v, p, hd, hfull⟩ := hb
  refine ⟨s.taken, h.nodup, ?_, h.announced⟩
  have hlen := h.length_taken ha
  have hroom := h.room
  rw [hd] at hlen
  have hone : (Driver.handing v p).stream?.toList.length = 1 := rfl
  omega

/-- Of more substreams than have come in, one can come in next. -/
theorem exists_announced {l taken : List Nat} (hl : l.Nodup) (hlt : taken.length < l.length) :
    ∃ p ∈ l, p ∉ taken := by
  by_contra hall
  push Not at hall
  exact absurd (hl.subperm hall).length_le (Nat.not_le.mpr hlt)

/-- An announced substream that has not come in yet can come in. -/
theorem drives_inbound {v : Drive} {p : Nat} (hd : s.driver = .polling v)
    (hann : Announced i s.server.shared p) (hnew : p ∉ s.taken) :
    Drives i s { s with driver := .handing v p, taken := s.taken ++ [p] } := by
  refine .polls hd (fun q hq => ?_) (v.poll_inbound p)
  cases hq
  exact ⟨hann, hnew⟩

/-- Left to itself, the driver of a crowded connection blocks. -/
theorem exists_blocked (h : Inv i s) (ha : Accepted s) (hc : Crowded i s)
    (hd : s.driver.Running) : ∃ s', Relation.ReflTransGen (Drives i) s s' ∧ Blocked s' := by
  -- every substream that comes in fills the channel by one
  induction hn : INBOUND_CAPACITY - s.inbound.length using Nat.strongRecOn generalizing s with
  | ind n ih =>
    -- a substream in hand is sent if it can be
    have hhand : ∀ {t : Tunnel} {v p}, Inv i t → Accepted t → Crowded i t →
        t.driver = .handing v p → INBOUND_CAPACITY - t.inbound.length = n →
        ∃ s', Relation.ReflTransGen (Drives i) t s' ∧ Blocked s' := by
      intro t v p h ha hc hd hn
      by_cases hroom : t.inbound.length < INBOUND_CAPACITY
      · have hstep := Drives.hands (i := i) hd hroom
        have hless : INBOUND_CAPACITY - (t.inbound ++ [p]).length < n := by
          rw [List.length_append, List.length_singleton]
          omega
        obtain ⟨s', hruns, hb⟩ := ih _ hless (h.drives hstep) ha hc trivial rfl
        exact ⟨s', .head hstep hruns, hb⟩
      · exact ⟨t, .refl, v, p, hd, Nat.not_lt.mp hroom⟩
    cases hdriver : s.driver with
    | handing v p => exact hhand h ha hc hdriver hn
    | polling v =>
      obtain ⟨l, hl, hlen, hann⟩ := hc
      have htaken := h.length_taken ha
      have hroom := h.room
      rw [hdriver] at htaken
      have hzero : (Driver.polling v).stream?.toList.length = 0 := rfl
      have hlt : s.taken.length < l.length := by omega
      obtain ⟨p, hp, hnew⟩ := exists_announced hl hlt
      have hstep := drives_inbound hdriver (hann p hp) hnew
      obtain ⟨s', hruns, hb⟩ := hhand (h.drives hstep) ha ⟨l, hl, hlen, hann⟩ rfl hn
      exact ⟨s', .head hstep hruns, hb⟩
    | closing => rw [hdriver] at hd; exact hd.elim
    | returned => rw [hdriver] at hd; exact hd.elim

/-- The driver leaves the session's stream alone. -/
theorem accepted_of_drives (hs : Relation.ReflTransGen (Drives i) s s') (ha : Accepted s) :
    Accepted s' := by
  induction hs with
  | refl => exact ha
  | tail _ hs ih =>
    cases hs with
    | _ => exact ih

/-- A blocked driver of a source that has its stream does nothing any more. -/
theorem Step.of_blocked (hs : Step d auth i s s') (h : Inv i s) (ha : Accepted s)
    (hb : Blocked s) :
    Accepted s' ∧ Blocked s' ∧ s'.driver = s.driver ∧ s'.inbound = s.inbound := by
  have hask := (h.of_accepted ha).2
  have hb' := hb
  obtain ⟨v, p, hd, hfull⟩ := hb
  cases hs with
  | server _ _ => exact ⟨ha, hb', rfl, rfl⟩
  | session _ _ => exact ⟨ha, hb', rfl, rfl⟩
  | accepts hcall _ _ _ => exact absurd hcall (hask _)
  | returns hcall _ _ _ => exact absurd hcall (hask _)
  | refused hcall _ _ _ => exact absurd hcall (hask _)
  | drives hs =>
    cases hs with
    | polls hpolling _ _ => rw [hd] at hpolling; cases hpolling
    | returns hclosing => rw [hd] at hclosing; cases hclosing
    | hands _ hroom => exact absurd hroom (Nat.not_lt.mpr hfull)

theorem Steps.of_blocked (hs : Steps d auth i s s') (h : Inv i s) (ha : Accepted s)
    (hb : Blocked s) : Blocked s' ∧ s'.driver = s.driver ∧ s'.inbound = s.inbound := by
  suffices Inv i s' ∧ Accepted s' ∧ Blocked s' ∧ s'.driver = s.driver ∧ s'.inbound = s.inbound from
    this.2.2
  induction hs with
  | refl => exact ⟨h, ha, hb, rfl, rfl⟩
  | tail _ hs ih =>
    obtain ⟨h₁, ha₁, hb₁, hd₁, hin₁⟩ := ih
    obtain ⟨ha₂, hb₂, hd₂, hin₂⟩ := hs.of_blocked h₁ ha₁ hb₁
    exact ⟨h₁.step hs, ha₂, hb₂, hd₂.trans hd₁, hin₂.trans hin₁⟩

/-- In every run, whoever moves: the driver of a source that has its stream is never
blocked while no more than thirty-two other substreams have been announced to it.  Once
there are more, the driver blocks if it is left to itself, and then it never does
anything again. -/
theorem driver_blocks_exact (d : Deps) (auth : Option Authenticator) (maxConns : Nat) (c : Source)
    (s : Tunnel) (hr : Reach d auth maxConns c s) (ha : Accepted s) :
    (¬ Crowded c.conn s → ¬ Blocked s) ∧
    (Crowded c.conn s → s.driver.Running →
      ∃ s', Relation.ReflTransGen (Drives c.conn) s s' ∧ Blocked s') ∧
    (Blocked s → ∀ s', Steps d auth c.conn s s' →
      Blocked s' ∧ s'.driver = s.driver ∧ s'.inbound = s.inbound) := by
  have h := inv_of_reach hr
  exact ⟨fun hc hb => hc (crowded_of_blocked h ha hb), fun hc hd => exists_blocked h ha hc hd,
    fun hb s' hs => hs.of_blocked h ha hb⟩

/-! ## Thirty-four destinations -/

/-- `n` destinations have opened a stream each, and every relay has announced its
substream to the source, which has taken none of them. -/
structure Crowding (n : Nat) (s : System) : Prop where
  registry : s.shared.registry "db" = some 0
  pool : (s.shared.pools 0).carriers = [.new 0]
  permits : n + s.shared.permits = 256
  clients : ∀ j, n < j → s.hist j = []
  consumers : ∀ k, n ≤ k → s.shared.consumers k = none
  providers : ∀ p, n ≤ p → s.shared.providers p = none
  announced : ∀ p, p < n → ∃ e, s.shared.providers p = some e ∧ e.conn = 0 ∧ e.task = none ∧
    e.down.put = [STREAM_READY] ∧ e.down.taken = []

/-- A source registers. -/
theorem exists_crowding_zero : ∃ s, OrderlyReach Transport.sampleDeps 256 s ∧ Crowding 0 s := by
  obtain ⟨json, hjson, hlen⟩ := exists_request
  obtain ⟨s, hr, hw, hothers⟩ := exists_source hjson hlen
    (.init : OrderlyReach Transport.sampleDeps 256 _) (i := 0) rfl rfl
  refine ⟨s, hr, ?_, ?_, ?_, fun j hj => hothers j (Nat.ne_of_gt hj), ?_, ?_, ?_⟩
  · rw [hw]
    rfl
  · rw [hw]
    rfl
  · rw [hw]
    rfl
  · intro k _
    rw [hw]
    rfl
  · intro p _
    rw [hw]
    rfl
  · intro p hp
    exact absurd hp (Nat.not_lt_zero p)

/-- One more destination opens a stream. -/
theorem Crowding.succ {n : Nat} {s : System} (hr : OrderlyReach Transport.sampleDeps 256 s)
    (h : Crowding n s) (hn : n < 256) :
    ∃ s', OrderlyReach Transport.sampleDeps 256 s' ∧ Crowding (n + 1) s' := by
  obtain ⟨json, ack, hjson, hlen, hack⟩ := exists_connect
  have hpermits := h.permits
  obtain ⟨s₁, hr₁, hw₁, hserve, hothers₁⟩ := exists_destination hjson hlen hack hr
    (h.clients (n + 1) (Nat.lt_succ_self n))
  obtain ⟨s₂, c, hr₂, hothers₂, hw₂, -, -, -, -⟩ := exists_looking hr₁ hserve
    (by rw [hw₁]; exact h.consumers n (Nat.le_refl n)) (by rw [hw₁]; omega)
  rw [hw₁] at hw₂
  obtain ⟨s₃, hr₃, hh₃, hw₃⟩ := exists_copying (j := 0) (k := n) (p := n) hr₂
    (by rw [hw₂]; exact World.relays_setRelay _ _ _) (by rw [hw₂]; exact h.registry)
    (by rw [hw₂]; exact h.pool) (by rw [hw₂]; exact h.providers n (Nat.le_refl n))
  rw [hw₂] at hw₃
  refine ⟨s₃, hr₃, ?_, ?_, ?_, fun j hj => ?_, fun k hk => ?_, fun p hp => ?_, fun p hp => ?_⟩
  · rw [hw₃]
    exact h.registry
  · rw [hw₃]
    show (Function.update s.shared.pools 0 _ 0).carriers = _
    rw [Function.update_self]
    exact (CarrierPool.pick_of_single h.pool).2
  · rw [hw₃]
    show n + 1 + (s.shared.permits - 1) = 256
    omega
  · rw [hh₃, hothers₂ j (Nat.ne_of_gt hj), hothers₁ j (Nat.ne_of_gt hj)]
    exact h.clients j (Nat.lt_of_succ_lt hj)
  · rw [hw₃]
    exact (World.consumers_setConsumer_of_ne (Nat.ne_of_gt hk)).trans
      (h.consumers k (Nat.le_of_succ_le hk))
  · rw [hw₃]
    exact (World.providers_setProvider_of_ne (Nat.ne_of_gt hp)).trans
      (h.providers p (Nat.le_of_succ_le hp))
  · rw [hw₃, World.providers_setRelay]
    by_cases hpn : p = n
    · subst hpn
      exact ⟨_, World.providers_setProvider _ _ _, rfl, rfl, rfl, rfl⟩
    · rw [World.providers_setProvider_of_ne hpn]
      exact h.announced p (Nat.lt_of_le_of_ne (Nat.lt_succ_iff.mp hp) hpn)

theorem exists_crowding {n : Nat} (hn : n ≤ 256) :
    ∃ s, OrderlyReach Transport.sampleDeps 256 s ∧ Crowding n s := by
  induction n with
  | zero => exact exists_crowding_zero
  | succ n ih =>
    obtain ⟨s, hr, h⟩ := ih (Nat.le_of_succ_le hn)
    exact h.succ hr hn

/-- The source on connection `i` has taken none of its substreams. -/
def Untouched (i : Nat) (s : System) : Prop :=
  ∀ p e, s.shared.providers p = some e → e.conn = i → e.task = none

/-- Whatever the server can do before the source takes a substream, it can do while the
source has not begun. -/
theorem reach_of_untouched {server : System} (hr : ServerReach d auth maxConns server)
    (hun : Untouched c.conn server) :
    Reach d auth maxConns c { start maxConns c with server := server } := by
  induction hr with
  | init => exact .refl
  | @step server server' ev hr hok hs ih =>
    have hback : Untouched c.conn server := by
      intro p e hp hconn
      obtain ⟨e', hp', hg⟩ := grows_of_step hs hp
      exact hg.task (hun p e' hp' (hg.conn.trans hconn))
    have hbusy : ∀ {p : Nat} {e : Provider} {t}, server.shared.providers p = some e →
        e.task = some t → ¬ ∃ e, server.shared.providers p = some e ∧ e.conn = c.conn := by
      rintro p e t hp ht ⟨e₀, hp₀, hconn⟩
      rw [hp] at hp₀
      cases hp₀
      rw [hback p e hp hconn] at ht
      cases ht
    refine (ih hback).tail (.server (s := { start maxConns c with server := server }) hs ?_)
    intro hat
    cases hs with
    | task _ _ => exact hat
    | @env s l w he =>
      cases he with
      | @accepts w p e t hp hnew hsent hs =>
        obtain ⟨e₀, hp₀, hconn⟩ := hat
        rw [hp] at hp₀
        cases hp₀
        cases hun p _ (World.providers_setProvider _ _ _) hconn
      | providerWrites bs hp hopen => exact hbusy hp hopen hat
      | providerReads hp hopen _ => exact hbusy hp hopen hat
      | _ => exact hat

theorem Crowding.untouched {n : Nat} {server : System} (h : Crowding n server) :
    Untouched 0 server := by
  intro p e hp _
  by_cases hlt : p < n
  · obtain ⟨e', hp', -, htask, -⟩ := h.announced p hlt
    rw [hp] at hp'
    cases hp'
    exact htask
  · rw [h.providers p (Nat.not_lt.mp hlt)] at hp
    cases hp

theorem Crowding.crowded {n : Nat} (h : Crowding n s.server) (hn : INBOUND_CAPACITY + 2 ≤ n) :
    Crowded 0 s := by
  refine ⟨List.range (INBOUND_CAPACITY + 2), List.nodup_range, List.length_range, fun p hp => ?_⟩
  obtain ⟨e, hp', hconn, -, hput, -⟩ :=
    h.announced p (Nat.lt_of_lt_of_le (List.mem_range.mp hp) hn)
  exact ⟨e, hp', hconn, by rw [hput]; simp⟩

/-- A source on connection 0 that has nothing to send. -/
def sampleSource : Source := ⟨0, Core.sampleDeps, fun _ => .ret (.ok ()), .fresh⟩

/-- The source accepts the first of its substreams. -/
theorem exists_accepted {n : Nat} {server : System}
    (hr : ServerReach Transport.sampleDeps none 256 server) (h : Crowding (n + 1) server) :
    ∃ s s', s.server = server ∧ Reach Transport.sampleDeps none 256 sampleSource s ∧
      Steps Transport.sampleDeps none 0 s s' ∧ Accepted s' ∧ s'.driver.Running := by
  obtain ⟨e, hp, hconn, hnew, hput, htaken⟩ := h.announced 0 (Nat.succ_pos n)
  have hsent : e.down.put ≠ [] := by
    rw [hput]
    simp
  obtain ⟨down, hpull⟩ := Pipe.exists_pull e.down [STREAM_READY] (by
    rw [htaken, hput]
    exact List.prefix_rfl)
  -- the substream comes in and is handed over
  have hcomes : Steps Transport.sampleDeps none 0
      { start 256 sampleSource with server := server } _ :=
    .single (.drives (drives_inbound rfl ⟨e, hp, hconn, hsent⟩ List.not_mem_nil))
  have hhanded := hcomes.tail (.drives (.hands rfl (Nat.zero_lt_succ 31)))
  -- the session comes to its `accept_stream`
  have hfingerprint := hhanded.tail (.session (a := .call .fingerprint (.ok "")) .call rfl)
  have hanalyzed := hfingerprint.tail (.session (a := .call .analyze (.ok samplePlan)) .call rfl)
  -- which takes the substream, reads its marker and returns
  have htakes := hanalyzed.tail (.accepts rfl rfl rfl (.accepts hp hnew hsent .call))
  have hreads := htakes.tail (.server (.env (.accepting (World.providers_setProvider _ _ _) rfl
    (acceptReady_marks Transport.sampleDeps 0) hpull)) fun h => h)
  have hreturns := hreads.tail (.returns rfl rfl (World.providers_setProvider _ _ _) rfl)
  exact ⟨_, _, rfl, reach_of_untouched hr h.untouched, hreturns, Option.some_ne_none 0,
    trivial⟩

/-- The source has its stream, and thirty-three more have been announced to it. -/
theorem exists_accepted_crowded :
    ∃ s, Reach Transport.sampleDeps none 256 sampleSource s ∧ Accepted s ∧ Crowded 0 s ∧
      s.driver.Running := by
  obtain ⟨server, hr, h⟩ := exists_crowding (n := INBOUND_CAPACITY + 2) (by decide)
  obtain ⟨s, s', rfl, hreach, hsteps, ha, hd⟩ := exists_accepted hr.server h
  exact ⟨s', hreach.trans hsteps, ha, (h.crowded (Nat.le_refl _)).steps hsteps, hd⟩

/-- Thirty-three streams too many. -/
theorem driver_blocks_thirty_four :
    ∃ s s', Reach Transport.sampleDeps none 256 sampleSource s ∧ Accepted s ∧
      Relation.ReflTransGen (Drives 0) s s' ∧ Blocked s' := by
  obtain ⟨s, hr, ha, hc, hd⟩ := exists_accepted_crowded
  obtain ⟨s', hruns, hb⟩ := (driver_blocks_exact Transport.sampleDeps none 256 sampleSource s hr
    ha).2.1 hc hd
  exact ⟨s, s', hr, ha, hruns, hb⟩

/-- The driver of a source that has its stream can block. -/
theorem not_driver_never_blocks :
    ¬ ∀ (d : Deps) (auth : Option Authenticator) (maxConns : Nat) (c : Source) (s : Tunnel),
      Reach d auth maxConns c s → Accepted s → ¬ Blocked s := by
  intro hnever
  obtain ⟨s, hr, ha, hc, hd⟩ := exists_accepted_crowded
  obtain ⟨s', hruns, hb⟩ := exists_blocked (inv_of_reach hr) ha hc hd
  have hr' : Reach Transport.sampleDeps none 256 sampleSource s' :=
    hr.trans (Relation.ReflTransGen.mono (fun _ _ => Step.drives) _ _ hruns)
  exact hnever _ _ _ _ s' hr' (accepted_of_drives hruns ha) hb

end Tunnel

end RustBackup.Transport
