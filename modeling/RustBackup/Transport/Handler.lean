/-
  Transport/Handler.lean --- a connection handler as the rest of the server sees it.

  Source: crates/rb-transport/src/server.rs, `handle_conn`, `serve_provider`,
  `serve_consumer`.

  `Handler` is an automaton on the calls of a handler.  It says in which order a
  handler looks an id up, enters it, removes it, takes inbound substreams and spawns
  relays, and nothing of what goes over the control stream.  Every handler conforms
  to it, whatever its client sends (`conforms_handleConn`).
-/
import RustBackup.Transport.Server
import RustBackup.Io.Tasks

set_option autoImplicit false

namespace RustBackup.Transport

open RustBackup.Serde RustBackup.Io

/-! ## The automaton -/

/-- Where a handler stands. -/
inductive Handler where
  /-- it does not serve, or not yet -/
  | fresh
  /-- `serve_provider` was entered -/
  | checking (id : String)
  /-- the id was taken -/
  | refused (id : String)
  /-- the id was free when it was looked up -/
  | cleared (id : String)
  /-- its own carrier pool was entered under the id -/
  | registered (id : String)
  /-- its guard was dropped -/
  | gone (id : String)
  /-- it is in the loop of `serve_consumer` -/
  | consuming (id : String)
  /-- the acceptor handed it a substream -/
  | offered (id : String) (stream : Nat)
  /-- it has a permit for the relay of the substream -/
  | granted (id : String) (stream : Nat)
  deriving DecidableEq, Repr

namespace Handler

/-- The calls a handler makes where it stands, and where they lead. -/
def next : Handler → Sigma Call.Reply → Option Handler
  | .fresh, ⟨.flush, _⟩ => some .fresh
  | .fresh, ⟨.acceptControl, _⟩ => some .fresh
  | .fresh, ⟨.newV4, _⟩ => some .fresh
  | .fresh, ⟨.enter .provider id, _⟩ => some (.checking id)
  | .fresh, ⟨.enter .consumer id, _⟩ => some (.consuming id)
  | .checking id, ⟨.containsKey id', taken⟩ =>
      if id' = id then some (if taken then .refused id else .cleared id) else none
  | .refused id, ⟨.flush, _⟩ => some (.refused id)
  | .cleared id, ⟨.insert id', _⟩ => if id' = id then some (.registered id) else none
  | .registered id, ⟨.flush, _⟩ => some (.registered id)
  | .registered id, ⟨.selectProvider, _⟩ => some (.registered id)
  | .registered id, ⟨.remove id', _⟩ => if id' = id then some (.gone id) else none
  | .consuming id, ⟨.flush, _⟩ => some (.consuming id)
  | .consuming id, ⟨.selectConsumer, .inbound (some stream)⟩ => some (.offered id stream)
  | .consuming id, ⟨.selectConsumer, _⟩ => some (.consuming id)
  | .offered id stream, ⟨.tryAcquire, permit⟩ =>
      some (if permit then .granted id stream else .consuming id)
  | .granted id stream, ⟨.spawnRelay stream' id', _⟩ =>
      if stream' = stream ∧ id' = id then some (.consuming id) else none
  | _, _ => none

/-- It uses its control stream here. -/
def Open : Handler → Prop
  | .fresh => True
  | .refused _ => True
  | .registered _ => True
  | .consuming _ => True
  | _ => False

/-- It makes a call here. -/
def Calls : Handler → Prop
  | .gone _ => False
  | _ => True

/-- What a handler does where it stands. -/
def Acts : Proc.Kind → Handler → Prop
  | .call, m => m.Calls
  | _, m => m.Open

/-- It may return here. -/
def Ends : Handler → Prop
  | .fresh => True
  | .refused _ => True
  | .gone _ => True
  | .consuming _ => True
  | _ => False

theorem Open.calls {m : Handler} (h : m.Open) : m.Calls := by
  cases m with
  | gone id => exact h
  | _ => exact trivial

theorem next_flush {m : Handler} (h : m.Open) (r : Bool) : m.next ⟨.flush, r⟩ = some m := by
  cases m with
  | fresh => rfl
  | refused id => rfl
  | registered id => rfl
  | consuming id => rfl
  | checking id => exact h.elim
  | cleared id => exact h.elim
  | gone id => exact h.elim
  | offered id stream => exact h.elim
  | granted id stream => exact h.elim

/-- The rest of the server does not notice the call. -/
def Private : Sigma Call.Reply → Prop
  | ⟨.flush, _⟩ => True
  | ⟨.acceptControl, _⟩ => True
  | ⟨.newV4, _⟩ => True
  | ⟨.selectProvider, _⟩ => True
  | ⟨.selectConsumer, .inbound (some _)⟩ => False
  | ⟨.selectConsumer, _⟩ => True
  | _ => False

/-- The transitions one by one. -/
inductive Next : Handler → Sigma Call.Reply → Handler → Prop where
  | stay {m : Handler} {c : Sigma Call.Reply} (hm : m.Open) (hc : Private c) : Next m c m
  | provide (id : String) : Next .fresh ⟨.enter .provider id, ()⟩ (.checking id)
  | consume (id : String) : Next .fresh ⟨.enter .consumer id, ()⟩ (.consuming id)
  | refuse (id : String) : Next (.checking id) ⟨.containsKey id, true⟩ (.refused id)
  | clear (id : String) : Next (.checking id) ⟨.containsKey id, false⟩ (.cleared id)
  | register (id : String) : Next (.cleared id) ⟨.insert id, ()⟩ (.registered id)
  | leave (id : String) : Next (.registered id) ⟨.remove id, ()⟩ (.gone id)
  | offer (id : String) (stream : Nat) :
      Next (.consuming id) ⟨.selectConsumer, .inbound (some stream)⟩ (.offered id stream)
  | grant (id : String) (stream : Nat) :
      Next (.offered id stream) ⟨.tryAcquire, true⟩ (.granted id stream)
  | deny (id : String) (stream : Nat) :
      Next (.offered id stream) ⟨.tryAcquire, false⟩ (.consuming id)
  | spawn (id : String) (stream : Nat) :
      Next (.granted id stream) ⟨.spawnRelay stream id, ()⟩ (.consuming id)

theorem next_cases {m m' : Handler} {c : Sigma Call.Reply} (h : m.next c = some m') :
    Next m c m' := by
  unfold next at h
  split at h
  case h_6 id id' taken =>
    obtain ⟨rfl, h⟩ := Option.ite_none_right_eq_some.mp h
    cases h
    cases taken with
    | true => exact .refuse _
    | false => exact .clear _
  case h_8 id id' _ =>
    obtain ⟨rfl, h⟩ := Option.ite_none_right_eq_some.mp h
    cases h
    exact .register _
  case h_11 id id' _ =>
    obtain ⟨rfl, h⟩ := Option.ite_none_right_eq_some.mp h
    cases h
    exact .leave _
  case h_14 id branch hbranch =>
    cases h
    refine .stay trivial ?_
    cases branch with
    | tick => exact trivial
    | control => exact trivial
    | inbound stream =>
      cases stream with
      | none => exact trivial
      | some stream => exact (hbranch stream rfl).elim
  case h_15 id stream permit =>
    cases h
    cases permit with
    | true => exact .grant _ _
    | false => exact .deny _ _
  case h_16 id stream stream' id' _ =>
    obtain ⟨⟨hstream, hid⟩, h⟩ := Option.ite_none_right_eq_some.mp h
    cases h
    rw [hstream, hid]
    exact .spawn _ _
  case h_17 => cases h
  case h_4 => cases h; exact .provide _
  case h_5 => cases h; exact .consume _
  case h_13 => cases h; exact .offer _ _
  -- what is left is private
  all_goals
    cases h
    exact .stay trivial trivial

end Handler

/-! ## Handlers conform to it -/

namespace Control

variable {ε α β : Type}

/-- The task conforms to the automaton from `m` on and returns as `Q` says. -/
def Conforms (Q : Handler → Except ε α → Prop) (x : Control ε α) (m : Handler) : Prop :=
  ∀ buf, (x.run buf).Conforms Handler.next Handler.Acts (fun m' o => Q m' o.1) m

variable {m : Handler}

theorem Conforms.bind {P : Handler → Except ε α → Prop} {Q : Handler → Except ε β → Prop}
    {x : Control ε α} {f : α → Control ε β} (hx : x.Conforms P m)
    (hf : ∀ m' a, P m' (.ok a) → (f a).Conforms Q m')
    (he : ∀ m' e, P m' (.error e) → Q m' (.error e)) : (x >>= f).Conforms Q m := by
  intro buf
  refine (hx buf).bind fun m' o hp => ?_
  obtain ⟨r, buf'⟩ := o
  cases r with
  | ok a => exact hf m' a hp buf'
  | error e => exact he m' e hp

/-- A task that stays where it is, and what follows. -/
theorem Conforms.andThen {Q : Handler → Except ε β → Prop} {x : Control ε α}
    {f : α → Control ε β} (hx : x.Conforms (fun m' _ => m' = m) m)
    (hf : ∀ a, (f a).Conforms Q m) (he : ∀ e, Q m (.error e)) : (x >>= f).Conforms Q m := by
  refine hx.bind ?_ ?_
  · rintro m' a rfl
    exact hf a
  · rintro m' e rfl
    exact he e

theorem Conforms.mono {Q Q' : Handler → Except ε α → Prop} (hQ : ∀ m' r, Q m' r → Q' m' r)
    {x : Control ε α} (hx : x.Conforms Q m) : x.Conforms Q' m :=
  fun buf => (hx buf).mono fun m' o ho => hQ m' o.1 ho

theorem conforms_pure {Q : Handler → Except ε α → Prop} {a : α} (h : Q m (.ok a)) :
    (pure a : Control ε α).Conforms Q m := fun _ => h

theorem conforms_fail {Q : Handler → Except ε α → Prop} {e : ε} (h : Q m (.error e)) :
    (fail e : Control ε α).Conforms Q m := fun _ => h

theorem conforms_call {Q : Handler → Except ε β → Prop} {e : Call} {f : e.Reply → Control ε β}
    (hm : m.Calls) (hf : ∀ r, ∃ m', m.next ⟨e, r⟩ = some m' ∧ (f r).Conforms Q m') :
    (call e >>= f).Conforms Q m := by
  intro buf
  refine ⟨hm, fun r => ?_⟩
  obtain ⟨m', hm', hr⟩ := hf r
  exact ⟨m', hm', hr buf⟩

theorem Conforms.attempt {Q : Handler → Except ε α → Prop} {x : Control ε α}
    (hx : x.Conforms Q m) :
    x.attempt.Conforms (fun m' r => ∃ r', r = .ok r' ∧ Q m' r') m :=
  fun buf => (hx buf).bind fun _ o ho => ⟨o.1, rfl, ho⟩

end Control

section Codec

open Control

variable {M : Type} [ControlMsg M] {m : Handler}

/-- A receive only reads. -/
theorem avoids_recvLoop {x : Proc.Kind} (hx : x ≠ .read) (t : Text) (n : Nat) (buf : Bytes) :
    (recvLoop M t n buf).Avoids x := by
  induction n generalizing buf with
  | zero =>
    cases hf : takeFrame buf with
    | some frame => rw [recvLoop_of_frame hf]; exact trivial
    | none => rw [recvLoop_zero hf]; exact trivial
  | succ n ih =>
    cases hf : takeFrame buf with
    | some frame => rw [recvLoop_of_frame hf]; exact trivial
    | none =>
      rw [recvLoop_succ hf]
      refine ⟨hx, fun r => ?_⟩
      cases r with
      | data bs =>
        cases bs with
        | nil => exact trivial
        | cons b bs => exact ih _
      | timeout => exact trivial
      | fault => exact trivial

theorem avoids_recvTurn {x : Proc.Kind} (hx : x ≠ .read) (t : Text) (buf : Bytes) :
    ((recvTurn M t).run buf).Avoids x := by
  unfold recvTurn
  cases hf : takeFrame buf with
  | some frame => simp only [hf]; exact trivial
  | none =>
    simp only [hf]
    refine ⟨hx, fun r => ?_⟩
    cases r with
    | data bs =>
      cases bs with
      | nil => exact trivial
      | cons b bs => exact trivial
    | timeout => exact trivial
    | fault => exact trivial

/-- A receive stays where it is. -/
theorem conforms_recv (hm : m.Open) (t : Text) (n : Nat) :
    (recv M t n).Conforms (fun m' _ => m' = m) m :=
  fun buf => Proc.conforms_of_avoids hm hm (avoids_recvLoop (by simp) t n buf)

theorem conforms_recvTurn (hm : m.Open) (t : Text) :
    (recvTurn M t).Conforms (fun m' _ => m' = m) m :=
  fun buf => Proc.conforms_of_avoids hm hm (avoids_recvTurn (by simp) t buf)

/-- A send stays where it is. -/
theorem conforms_send (hm : m.Open) (t : Text) (msg : M) :
    (send t msg).Conforms (fun m' _ => m' = m) m := by
  have hwrite : ∀ bs, (writeAllControl bs).Conforms (fun m' _ => m' = m) m := fun bs buf =>
    Proc.conforms_of_avoids hm hm ((avoids_writeAll (by simp) _ _ _ bs).bind fun _ => trivial)
  unfold send
  cases encode t msg with
  | none => exact conforms_fail rfl
  | some json =>
    refine (hwrite json).andThen (fun _ => (hwrite [0]).andThen (fun _ => ?_) fun _ => rfl)
      fun _ => rfl
    refine conforms_call hm.calls fun r => ⟨m, Handler.next_flush hm r, ?_⟩
    cases r with
    | true => exact conforms_pure rfl
    | false => exact conforms_fail rfl

end Codec

section Serve

open Control

/-- A handler that returns does so where it may. -/
def Returns (m : Handler) (_ : Except ControlError Unit) : Prop := m.Ends

variable (d : Deps) (n : Nat)

theorem conforms_onTick {m : Handler} {Q : Handler → Except ControlError Unit → Prop}
    (hm : m.Open) (hq : ∀ r, Q m r) {again : Control ControlError Unit} (ha : again.Conforms Q m) :
    (onTick d again).Conforms Q m := by
  refine (conforms_send hm d.json ServerMsg.heartbeat).attempt.bind ?_ ?_
  · rintro m' r ⟨_, _, rfl⟩
    cases r with
    | ok _ => exact ha
    | error e => exact conforms_pure (hq _)
  · rintro m' e ⟨_, he, _⟩
    cases he

theorem conforms_onMessage {m : Handler} {Q : Handler → Except ControlError Unit → Prop}
    (hq : ∀ r, Q m r) {again : Control ControlError Unit} (ha : again.Conforms Q m)
    (poll : Poll ClientMsg) : (onMessage again poll).Conforms Q m := by
  cases poll with
  | pending => exact ha
  | ready msg =>
    cases msg with
    | none => exact conforms_pure (hq _)
    | some msg => exact ha

/-- The loop of a provider stays registered. -/
theorem conforms_providerLoop (id : String) :
    (providerLoop d n).Conforms (fun m' _ => m' = .registered id) (.registered id) := by
  have hopen : (Handler.registered id).Open := trivial
  induction n with
  | zero => exact conforms_fail rfl
  | succ n ih =>
    refine conforms_call trivial fun branch => ⟨.registered id, rfl, ?_⟩
    cases branch with
    | tick => exact conforms_onTick d hopen (fun _ => rfl) ih
    | control =>
      exact (conforms_recvTurn hopen d.json).andThen
        (fun poll => conforms_onMessage (fun _ => rfl) ih poll) fun _ => rfl

theorem conforms_serveProvider (id : String) :
    (serveProvider d n id).Conforms Returns (.checking id) := by
  refine conforms_call trivial fun taken => ?_
  cases taken with
  | true =>
    have hopen : (Handler.refused id).Open := trivial
    refine ⟨.refused id, if_pos rfl, ?_⟩
    have hsend := conforms_send hopen d.json (ServerMsg.error "channel already in use")
    refine Conforms.mono ?_ hsend
    rintro m' r rfl
    exact trivial
  | false =>
    refine ⟨.cleared id, if_pos rfl, conforms_call trivial fun _ => ?_⟩
    have hopen : (Handler.registered id).Open := trivial
    have hserve : (do sendServer d.json .ok; providerLoop d n : Control ControlError Unit).Conforms
        (fun m' _ => m' = .registered id) (.registered id) :=
      (conforms_send hopen d.json _).andThen (fun _ => conforms_providerLoop d n id) fun _ => rfl
    refine ⟨.registered id, if_pos rfl, hserve.attempt.bind ?_ ?_⟩
    · -- whatever the loop returned, the guard is dropped
      rintro m' r ⟨_, _, rfl⟩
      refine conforms_call trivial fun _ => ⟨.gone id, if_pos rfl, ?_⟩
      cases r with
      | ok _ => exact conforms_pure trivial
      | error e => exact conforms_fail trivial
    · rintro m' e ⟨_, he, _⟩
      cases he

theorem conforms_consumerLoop (id : String) :
    (consumerLoop d id n).Conforms Returns (.consuming id) := by
  have hopen : (Handler.consuming id).Open := trivial
  induction n with
  | zero => exact conforms_fail trivial
  | succ n ih =>
    refine conforms_call trivial fun branch => ?_
    cases branch with
    | tick => exact ⟨.consuming id, rfl, conforms_onTick d hopen (fun _ => trivial) ih⟩
    | control =>
      refine ⟨.consuming id, rfl, (conforms_recvTurn hopen d.json).andThen ?_ fun _ => trivial⟩
      exact fun poll => conforms_onMessage (fun _ => trivial) ih poll
    | inbound stream =>
      cases stream with
      | none => exact ⟨.consuming id, rfl, conforms_pure trivial⟩
      | some stream =>
        refine ⟨.offered id stream, rfl, conforms_call trivial fun permit => ?_⟩
        cases permit with
        | true =>
          refine ⟨.granted id stream, rfl, conforms_call trivial fun _ => ?_⟩
          exact ⟨.consuming id, if_pos ⟨rfl, rfl⟩, ih⟩
        | false => exact ⟨.consuming id, rfl, ih⟩

theorem conforms_dispatch (first : Option ClientMsg) :
    (dispatch d n first).Conforms Returns .fresh := by
  cases first with
  | none => exact conforms_pure trivial
  | some msg =>
    cases msg with
    | authenticate tag => exact conforms_pure trivial
    | heartbeat => exact conforms_pure trivial
    | register channel =>
      exact conforms_call trivial fun _ => ⟨.checking channel, rfl, conforms_serveProvider d n _⟩
    | connect channel =>
      have hopen : (Handler.consuming channel).Open := trivial
      refine conforms_call trivial fun _ => ⟨.consuming channel, rfl, ?_⟩
      exact (conforms_send hopen d.json _).andThen (fun _ => conforms_consumerLoop d n channel)
        fun _ => trivial

/-- Every handler conforms to the automaton. -/
theorem conforms_handleConn (auth : Option Authenticator) :
    (handleConn d n auth).Conforms Returns .fresh := by
  have hopen : Handler.fresh.Open := trivial
  refine conforms_call trivial fun accepted => ⟨.fresh, rfl, ?_⟩
  cases accepted with
  | false => exact conforms_pure trivial
  | true =>
    refine (conforms_recv hopen d.json n).andThen (fun first => ?_) fun _ => trivial
    cases auth with
    | none => exact conforms_dispatch d n first
    | some a =>
      refine Conforms.andThen ?_ (fun _ => conforms_dispatch d n first) fun _ => trivial
      refine conforms_call trivial fun challenge => ⟨.fresh, rfl, ?_⟩
      refine (conforms_send hopen d.json _).andThen (fun _ => ?_) fun _ => rfl
      refine (conforms_recv hopen d.json n).andThen (fun msg => ?_) fun _ => rfl
      split
      · split
        · exact conforms_pure rfl
        · exact conforms_fail rfl
      · exact conforms_fail rfl

end Serve

end RustBackup.Transport
