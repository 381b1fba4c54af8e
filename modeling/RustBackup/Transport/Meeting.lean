/-
  Transport/Meeting.lean --- a destination and a source meet, whoever comes first.

  Sources: crates/rb-transport/src/{server,channel}.rs, README.md.

  A relay looks its id up once, as soon as it has its marker, and gives up if nobody is
  registered.  So the two meet in every fair run in which the source is registered when
  the relay looks, and only in those: a relay that looks too early closes the stream
  of the destination for good.
-/
import RustBackup.Transport.Isolation
import RustBackup.Io.Fair

set_option autoImplicit false

namespace RustBackup.Transport

open RustBackup.Serde RustBackup.Io RustBackup.Core

/-! ## The steps of relays -/

namespace RelayPhase

/-- How many steps it takes until the relay copies. -/
def rank : RelayPhase → Nat
  | .waiting => 5
  | .looking => 4
  | .found _ => 3
  | .picked _ => 2
  | .opened _ => 1
  | .copying _ => 0
  | .ended _ => 0

theorem finished_task {id : String} {ph : RelayPhase} (h : (ph.task id).Finished) :
    ∃ r, ph = .ended r := by
  cases ph with
  | ended r => exact ⟨r, rfl⟩
  | waiting => exact absurd h.of_bind (not_finished_readExact _ _ _ 0)
  | _ =>
    obtain ⟨x, hx⟩ := h
    have hhead := head_task id _ ▸ congrArg Proc.head? hx
    cases hhead

end RelayPhase

/-- A relay that gave up because it found nobody. -/
def Lacking (id : String) (t : Proc RelayCall RelayCall.Reply (Except RelayError Unit)) : Prop :=
  t = .ret (.error (.noProvider id)) ∨ t = .ret (.error (.message "no live provider carrier"))

theorem unavailable_ne_noProvider (id : String) :
    RelayError.message "provider unavailable" ≠ .noProvider id := by
  intro heq
  have hfirst : "provider unavailable".toList.head? =
      ("no provider registered for '" ++ id ++ "'").toList.head? :=
    congrArg (fun text => text.toList.head?) (RelayError.message.inj heq)
  rw [String.toList_append, String.toList_append] at hfirst
  cases hfirst

/-- A relay gives up at its lookup, or when it has an empty pool. -/
theorem RelayPhase.Next.of_lacking {id : String} {ph ph' : RelayPhase}
    {a : Act RelayCall RelayCall.Reply} (hn : RelayPhase.Next id ph a ph')
    (hl : Lacking id (ph'.task id)) :
    a = .call (.get id) none ∨ ∃ pool, ph = .found pool ∧ a = .call (.pick pool) none := by
  have hended : ∃ r, ph' = .ended r := by
    rcases hl with h | h
    · exact RelayPhase.finished_task ⟨_, h⟩
    · exact RelayPhase.finished_task ⟨_, h⟩
  obtain ⟨r, rfl⟩ := hended
  have hr : r = .error (.noProvider id) ∨ r = .error (.message "no live provider carrier") :=
    hl.imp Proc.ret.inj Proc.ret.inj
  cases hn with
  | missing => exact .inl rfl
  | dead pool => exact .inr ⟨pool, rfl, rfl⟩
  | unmarked _ =>
    rcases hr with h | h
    · cases h
    · cases h
  | unready _ _ =>
    rcases hr with h | h
    · cases h
    · cases h
  | unavailable opener e =>
    rcases hr with h | h
    · exact absurd (Except.error.inj h) (unavailable_ne_noProvider id)
    · exact absurd h (by decide)
  | copied provider q hres =>
    rcases hres with rfl | rfl
    · rcases hr with h | h
      · cases h
      · cases h
    · rcases hr with h | h
      · cases h
      · cases h

/-- Unless something fails or nobody is found, a relay comes closer to copying. -/
theorem RelayPhase.Next.progress {id : String} {ph ph' : RelayPhase}
    {a : Act RelayCall RelayCall.Reply} (hn : RelayPhase.Next id ph a ph') (ha : Smooth a)
    (hl : ¬ Lacking id (ph'.task id)) (hrank : 0 < ph.rank) :
    ph'.rank < ph.rank ∧ ∀ r, ph' ≠ .ended r := by
  cases hn with
  | marked b => exact ⟨Nat.lt_succ_self 4, by simp⟩
  | found pool => exact ⟨Nat.lt_succ_self 3, by simp⟩
  | picked pool opener => exact ⟨Nat.lt_succ_self 2, by simp⟩
  | opened opener provider => exact ⟨Nat.lt_succ_self 1, by simp⟩
  | ready provider m => exact ⟨Nat.lt_succ_self 0, by simp⟩
  | copied provider q hres => exact absurd hrank (Nat.lt_irrefl 0)
  | missing => exact absurd (.inl rfl) hl
  | dead pool => exact absurd (.inr rfl) hl
  | unavailable opener e => exact ha.elim
  | @unmarked q hq =>
    cases q with
    | data bs =>
      cases bs with
      | nil => exact ha.elim
      | cons b bs => exact absurd rfl (hq b bs)
    | timeout => exact ha.elim
    | fault => exact ha.elim
  | @unready provider q hq =>
    cases q with
    | wrote m =>
      cases m with
      | zero => exact ha.elim
      | succ m => exact absurd rfl (hq m)
    | timeout => exact ha.elim
    | fault => exact ha.elim

/-- A relay touches pools and the substreams of providers. -/
theorem skeleton_relayEffect {k : Nat} {a : Act RelayCall RelayCall.Reply} {w w' : World}
    (he : relayEffect k a w w') :
    w'.skeleton.consumers = w.skeleton.consumers ∧ w'.skeleton.relays = w.skeleton.relays := by
  cases a with
  | recv q =>
    rw [skeleton_recv he]
    exact ⟨rfl, rfl⟩
  | send bs q => exact he.elim
  | call e q =>
    cases e with
    | get id =>
      obtain ⟨-, rfl⟩ := he
      exact ⟨rfl, rfl⟩
    | pick pool =>
      obtain ⟨-, rfl⟩ := he
      exact ⟨rfl, rfl⟩
    | openProvider opener =>
      cases q with
      | ok p =>
        obtain ⟨-, rfl⟩ := he
        exact ⟨rfl, rfl⟩
      | error e =>
        cases he
        exact ⟨rfl, rfl⟩
    | writeProvider p buf =>
      rw [skeleton_writeProvider he]
      exact ⟨rfl, rfl⟩
    | copyBidirectional p =>
      cases he
      exact ⟨rfl, rfl⟩

section Steps

variable {d : Deps} {auth : Option Authenticator} {maxConns : Nat} {s s' : System}
variable {e : Event Nat Call Call.Reply Happening} {k : Nat}

/-- What a step does to the relay of the consumer's substream `k`. -/
inductive RelayStep (k : Nat) (s : System) (e : Event Nat Call Call.Reply Happening)
    (s' : System) : Prop where
  | rests (he : ∀ a, e ≠ .env (.relaying k a))
      (h : s'.shared.skeleton.relays k = s.shared.skeleton.relays k)
  | spawned {id : String} (he : ∀ a, e ≠ .env (.relaying k a))
      (hnone : s.shared.skeleton.relays k = none)
      (h : s'.shared.skeleton.relays k = some (id, RelayPhase.waiting.task id))
  | moves {id : String} {t t' : Proc RelayCall RelayCall.Reply (Except RelayError Unit)}
      {a : Act RelayCall RelayCall.Reply} {w : World} (he : e = .env (.relaying k a))
      (hr : s.shared.skeleton.relays k = some (id, t)) (hs : t.Step a t')
      (heffect : relayEffect k a s.shared w)
      (h : s'.shared.skeleton.relays k = some (id, t'))

theorem Connected.relayStep (h : Connected d s) (hs : (server d auth).Step e s s') (k : Nat) :
    RelayStep k s e s' := by
  cases hs with
  | @task s i a w ht he =>
    obtain ⟨m, m', hm, -, hstep⟩ := handlerStep ht he
    cases hstep with
    | @spawn id k' hstands =>
      have hnone := (h.routed.held i m k' hm (by rw [hstands]; rfl)).2
      by_cases hne : k = k'
      · subst hne
        have hnew : (s.shared.setRelay k (.new id)).skeleton.relays k =
            some (id, RelayPhase.waiting.task id) := by
          rw [World.skeleton_setRelay]
          exact Function.update_self _ _ _
        exact .spawned (by simp) hnone hnew
      · refine .rests (by simp) ?_
        rw [Tasks.shared_log, World.skeleton_setRelay]
        exact Function.update_of_ne hne _ _
    | _ => exact .rests (by simp) rfl
  | @env s l w he =>
    cases he.trace with
    | none hl hsame =>
      refine .rests (fun a heq => hl k a (Event.env.inj heq)) ?_
      rw [hsame]
    | opens hl _ hsame =>
      refine .rests (fun a heq => hl k a (Event.env.inj heq)) ?_
      rw [hsame]
    | @relaying w₁ k' r a t' hl hr hs he hsame =>
      have hrelays := (skeleton_relayEffect he).2
      by_cases hne : k = k'
      · subst hne
        refine .moves (congrArg _ hl) (World.skeleton_relays hr) hs he ?_
        rw [hsame]
        exact Function.update_self _ _ _
      · refine .rests (fun a' heq => ?_) ?_
        · rw [hl] at heq
          cases heq
          exact hne rfl
        · rw [hsame]
          exact (Function.update_of_ne hne _ _).trans (congrFun hrelays k)

theorem Connected.phase (h : Connected d s) {id : String}
    {t : Proc RelayCall RelayCall.Reply (Except RelayError Unit)}
    (hr : s.shared.skeleton.relays k = some (id, t)) : ∃ ph : RelayPhase, t = ph.task id := by
  obtain ⟨r, hr', hpair⟩ := Option.map_eq_some_iff.mp hr
  cases hpair
  obtain ⟨c, -, -, ⟨-, ph, htask, -⟩⟩ := (h.wired k).relay r hr'
  exact ⟨ph, htask⟩

/-- A relay that gives up was turned away at its lookup. -/
theorem Connected.lacking_step (h : Connected d s) {id : String}
    {t t' : Proc RelayCall RelayCall.Reply (Except RelayError Unit)}
    {a : Act RelayCall RelayCall.Reply} {w : World}
    (hr : s.shared.skeleton.relays k = some (id, t)) (hs : t.Step a t')
    (he : relayEffect k a s.shared w) (hl : Lacking id t') :
    a = .call (.get id) none ∧ s.shared.registry id = none := by
  obtain ⟨ph, rfl⟩ := h.phase hr
  obtain ⟨ph', rfl, hn⟩ := RelayPhase.next_of_step hs
  rcases hn.of_lacking hl with rfl | ⟨pool, rfl, rfl⟩
  · exact ⟨rfl, he.1.symm⟩
  · have hmem := h.routed.heads k id _ pool hr (.inl (RelayPhase.head_task _ _))
    obtain ⟨hfirst, -⟩ := CarrierPool.pick_of_single (h.routed.pooled id pool hmem)
    cases he.1.trans hfirst

/-- No destination's stream was closed for lack of a provider. -/
def NoneLacking (s : System) : Prop :=
  ∀ k r, s.shared.relays k = some r → ¬ Lacking r.id r.task

theorem noneLacking_iff :
    NoneLacking s ↔ ∀ k id t, s.shared.skeleton.relays k = some (id, t) → ¬ Lacking id t := by
  constructor
  · intro hnone k id t hr
    obtain ⟨r, hr', hpair⟩ := Option.map_eq_some_iff.mp hr
    cases hpair
    exact hnone k r hr'
  · intro hnone k r hr
    exact hnone k r.id r.task (World.skeleton_relays hr)

theorem NoneLacking.step (h : Connected d s) (hs : (server d auth).Step e s s')
    (hok : LooksUpRegistered s e) (hnone : NoneLacking s) : NoneLacking s' := by
  rw [noneLacking_iff] at hnone ⊢
  intro k id t hr
  cases h.relayStep hs k with
  | rests _ hsame =>
    rw [hsame] at hr
    exact hnone k id t hr
  | spawned _ _ hnew =>
    rw [hnew] at hr
    cases hr
    intro hl
    have hfin : (RelayPhase.waiting.task id).Finished := by
      rcases hl with hl | hl
      · exact ⟨_, hl⟩
      · exact ⟨_, hl⟩
    obtain ⟨r, hr⟩ := RelayPhase.finished_task hfin
    cases hr
  | moves he hrel hn heffect hnew =>
    rw [hnew] at hr
    cases hr
    intro hl
    obtain ⟨rfl, hreg⟩ := h.lacking_step hrel hn heffect hl
    subst he
    exact hok hreg

end Steps

/-! ## The stages of a stream -/

/-- The destination's stream waits to be handed to the handler that serves it. -/
def Waits (i k : Nat) (s : System) : Prop :=
  (∃ c, s.shared.consumers k = some c ∧ c.conn = i ∧ c.accepted = false ∧ c.up.put ≠ []) ∧
    ∃ m id, standing (s.hist i) = some m ∧ m.channel = some id

/-- The handler is about to spawn a relay for it. -/
def InHand (i k : Nat) (s : System) : Prop :=
  ∃ m, standing (s.hist i) = some m ∧ m.holding = some k

/-- Its relay neither copies nor has returned. -/
def Underway (k : Nat) (s : System) : Prop :=
  ∃ r, s.shared.relays k = some r ∧ ¬ r.task.Finished ∧ ∀ p, r.task ≠ (relayCopy p).run

def Offered (i k : Nat) (s : System) : Prop :=
  ∃ id, standing (s.hist i) = some (.offered id k)

def Granted (i k : Nat) (s : System) : Prop :=
  ∃ id, standing (s.hist i) = some (.granted id k)

/-- Its relay has `j + 1` steps to go. -/
def Ahead (k j : Nat) (s : System) : Prop :=
  ∃ id ph, s.shared.skeleton.relays k = some (id, RelayPhase.task id ph) ∧ ph.rank = j + 1

/-- Its relay copies. -/
def Copies (k : Nat) (s : System) : Prop :=
  ∃ id p, s.shared.skeleton.relays k = some (id, (RelayPhase.copying p).task id)

section Stages

variable {d : Deps} {auth : Option Authenticator} {s s' : System}
variable {e : Event Nat Call Call.Reply Happening} {i k : Nat}

theorem Ahead.underway {j : Nat} (h : Ahead k j s) : Underway k s := by
  obtain ⟨id, ph, hr, hrank⟩ := h
  obtain ⟨r, hr', hpair⟩ := Option.map_eq_some_iff.mp hr
  have htask : r.task = ph.task id := congrArg Prod.snd hpair
  refine ⟨r, hr', ?_, fun p hcopy => ?_⟩
  · rw [htask]
    intro hfin
    obtain ⟨res, rfl⟩ := RelayPhase.finished_task hfin
    cases hrank
  · rw [htask] at hcopy
    obtain rfl := RelayPhase.eq_copying hcopy
    cases hrank

/-- What a step does to the handler of connection `i`. -/
theorem handler_step (hs : (server d auth).Step e s s') (i : Nat) :
    (s'.hist i = s.hist i ∧ ∀ a, e ≠ .task i a) ∨
      ∃ a m m', e = .task i a ∧ standing (s.hist i) = some m ∧ standing (s'.hist i) = some m' ∧
        HandlerStep i s.shared m a s'.shared m' := by
  cases hs with
  | @task s j a w ht he =>
    by_cases hne : i = j
    · subst hne
      obtain ⟨m, m', hm, hm', hstep⟩ := handlerStep ht he
      refine .inr ⟨a, m, m', rfl, hm, ?_, hstep⟩
      rw [Tasks.hist_log_self]
      exact hm'
    · refine .inl ⟨Tasks.hist_log_of_ne _ _ _ _ hne, fun a' heq => ?_⟩
      cases heq
      exact hne rfl
  | env _ => exact .inl ⟨rfl, by simp⟩

/-- The handler gets its permit. -/
theorem Offered.step (hs : (server d auth).Step e s s') (hok : Undisturbed i k s e)
    (h : Offered i k s) : (Offered i k s' ∧ ∀ a, e ≠ .task i a) ∨ Granted i k s' := by
  obtain ⟨id, hm⟩ := h
  rcases handler_step hs i with ⟨hsame, hother⟩ | ⟨a, m, m', rfl, hm₀, hm', hstep⟩
  · refine .inl ⟨⟨id, ?_⟩, hother⟩
    rw [hsame]
    exact hm
  · rw [hm] at hm₀
    cases hm₀
    refine .inr ?_
    generalize s'.shared = w' at hstep
    cases hstep with
    | acquire hm _ =>
      cases hm
      exact ⟨id, hm'⟩
    | deny _ hpermits => exact absurd hpermits (Nat.pos_iff_ne_zero.mp (hok rfl))
    | accept hm _ _ _ => cases hm
    | spawn hm => cases hm
    | enter hm => cases hm
    | leave hm => cases hm
    | quiet hm _ _ _ => cases hm

/-- The handler spawns the relay. -/
theorem Granted.step (hs : (server d auth).Step e s s') (h : Granted i k s) :
    (Granted i k s' ∧ ∀ a, e ≠ .task i a) ∨ Ahead k 4 s' := by
  obtain ⟨id, hm⟩ := h
  rcases handler_step hs i with ⟨hsame, hother⟩ | ⟨a, m, m', rfl, hm₀, hm', hstep⟩
  · refine .inl ⟨⟨id, ?_⟩, hother⟩
    rw [hsame]
    exact hm
  · rw [hm] at hm₀
    cases hm₀
    refine .inr ?_
    unfold Ahead
    generalize s'.shared = w' at hstep
    cases hstep with
    | spawn hm =>
      cases hm
      refine ⟨id, .waiting, ?_, rfl⟩
      rw [World.skeleton_setRelay]
      exact Function.update_self _ _ _
    | acquire hm _ => cases hm
    | deny hm _ => cases hm
    | accept hm _ _ _ => cases hm
    | enter hm => cases hm
    | leave hm => cases hm
    | quiet hm _ _ _ => cases hm

/-- The relay comes closer to copying. -/
theorem Ahead.step {j : Nat} (h : Connected d s) (hs : (server d auth).Step e s s')
    (hok : LooksUpRegistered s e) (hsmooth : Undisturbed i k s e) (hj : Ahead k j s) :
    (Ahead k j s' ∧ ∀ a, e ≠ .env (.relaying k a)) ∨
      (∃ j', j' < j ∧ Ahead k j' s') ∨ Copies k s' := by
  obtain ⟨id, ph, hr, hrank⟩ := hj
  cases h.relayStep hs k with
  | rests hother hsame =>
    refine .inl ⟨⟨id, ph, ?_, hrank⟩, hother⟩
    rw [hsame]
    exact hr
  | spawned _ hnone _ =>
    rw [hr] at hnone
    cases hnone
  | @moves id' t t' a w he hr₁ hstep heffect hnew =>
    rw [hr] at hr₁
    cases hr₁
    subst he
    have hl : ¬ Lacking id t' := by
      intro hl
      obtain ⟨rfl, hreg⟩ := h.lacking_step hr hstep heffect hl
      exact hok hreg
    obtain ⟨ph', rfl, hn⟩ := RelayPhase.next_of_step hstep
    obtain ⟨hlt, hended⟩ := hn.progress (hsmooth rfl) hl (by omega)
    refine .inr ?_
    cases hrank' : ph'.rank with
    | zero =>
      cases ph' with
      | copying p => exact .inr ⟨id, p, hnew⟩
      | ended r => exact absurd rfl (hended r)
      | _ => cases hrank'
    | succ j' => exact .inl ⟨j', by omega, id, ph', hnew, hrank'⟩

/-- A consumer's substream stays with its connection and does not forget what was put
into it. -/
structure Consumer.Grows (c c' : Consumer) : Prop where
  conn : c'.conn = c.conn
  accepted : c'.accepted = c.accepted
  put : c.up.put <+: c'.up.put

theorem grows_setConsumer {w : World} {k₀ : Nat} {c₀ c₁ : Consumer}
    (hc₀ : w.consumers k₀ = some c₀) (hg : c₀.Grows c₁) {c : Consumer}
    (hc : w.consumers k = some c) :
    ∃ c', (w.setConsumer k₀ c₁).consumers k = some c' ∧ c.Grows c' := by
  by_cases hne : k = k₀
  · subst hne
    rw [hc] at hc₀
    cases hc₀
    exact ⟨c₁, World.consumers_setConsumer _ _ _, hg⟩
  · exact ⟨c, (World.consumers_setConsumer_of_ne hne).trans hc, rfl, rfl, List.prefix_rfl⟩

theorem grows_relayEffect {k₀ : Nat} {a : Act RelayCall RelayCall.Reply} {w w' : World}
    (he : relayEffect k₀ a w w') {c : Consumer} (hc : w.consumers k = some c) :
    ∃ c', w'.consumers k = some c' ∧ c.Grows c' := by
  have hsame : w'.consumers = w.consumers → ∃ c', w'.consumers k = some c' ∧ c.Grows c' := by
    intro heq
    exact ⟨c, by rw [heq]; exact hc, rfl, rfl, List.prefix_rfl⟩
  cases a with
  | recv q =>
    obtain ⟨c₀, up, hc₀, hpull, rfl⟩ := he
    refine grows_setConsumer hc₀ ?_ hc
    exact ⟨rfl, rfl, by rw [hpull.put]⟩
  | send bs q => exact he.elim
  | call e q =>
    cases e with
    | get id => exact hsame (congrArg World.consumers he.2)
    | pick pool => exact hsame (by rw [he.2])
    | openProvider opener =>
      cases q with
      | ok p => exact hsame (by rw [he.2]; rfl)
      | error e => exact hsame (by rw [he])
    | writeProvider p buf =>
      cases q with
      | wrote m =>
        obtain ⟨e, -, -, rfl⟩ := he
        exact hsame rfl
      | timeout => exact hsame (by rw [he])
      | fault => exact hsame (by rw [he])
    | copyBidirectional p => exact hsame (by rw [he])

theorem Happens.grows {l : Happening} {w w' : World} (hs : Happens d l w w') {c : Consumer}
    (hc : w.consumers k = some c) : ∃ c', w'.consumers k = some c' ∧ c.Grows c' := by
  have hrefl : c.Grows c := ⟨rfl, rfl, List.prefix_rfl⟩
  cases hs with
  | @opens w conn k₀ t hnew _ =>
    have hne : k ≠ k₀ := by
      rintro rfl
      rw [hc] at hnew
      cases hnew
    exact ⟨c, (World.consumers_setConsumer_of_ne hne).trans hc, hrefl⟩
  | opening hc₀ _ =>
    refine grows_setConsumer hc₀ ?_ hc
    exact ⟨rfl, rfl, List.prefix_append _ _⟩
  | relaying _ _ he => exact grows_relayEffect he hc
  | takeForth _ _ hc₀ hpull =>
    refine grows_setConsumer hc₀ ?_ hc
    exact ⟨rfl, rfl, by rw [hpull.put]⟩
  | giveBack _ _ hc₀ _ =>
    refine grows_setConsumer hc₀ ?_ hc
    exact ⟨rfl, rfl, List.prefix_rfl⟩
  | consumerWrites bs hc₀ _ =>
    refine grows_setConsumer hc₀ ?_ hc
    exact ⟨rfl, rfl, List.prefix_append _ _⟩
  | consumerReads hc₀ _ _ =>
    refine grows_setConsumer hc₀ ?_ hc
    exact ⟨rfl, rfl, List.prefix_rfl⟩
  | _ => exact ⟨c, hc, hrefl⟩

theorem HandlerStep.channel {w w' : World} {m m' : Handler} {a : Act Call Call.Reply}
    (hstep : HandlerStep i w m a w' m') {id : String} (hid : m.channel = some id) :
    m'.channel = some id := by
  cases hstep with
  | accept hm _ _ _ =>
    subst hm
    exact hid
  | acquire hm _ =>
    subst hm
    exact hid
  | deny hm _ =>
    subst hm
    exact hid
  | spawn hm =>
    subst hm
    exact hid
  | enter hm =>
    subst hm
    cases hid
  | leave hm =>
    subst hm
    cases hid
  | quiet _ hkeep _ _ =>
    rw [hkeep id hid]
    exact hid

/-- A handler that takes a substream is about to ask for a permit. -/
theorem standing_select {h : Hist Call Call.Reply}
    (ht : Proc.Trace (handler d auth) (h ++ [.call .selectConsumer (.inbound (some k))])) :
    ∃ id, standing (h ++ [.call .selectConsumer (.inbound (some k))]) = some (.offered id k) := by
  obtain ⟨m, m', hm, -, hnext⟩ := ht.call (conforms_handler d auth)
  cases Handler.next_cases hnext with
  | stay _ hc => exact hc.elim
  | offer id k => exact ⟨id, (Proc.after_concat_call _ hm _ _).trans hnext⟩

/-- Once its handler serves a destination, it goes on to do so. -/
theorem channel_step (hs : (server d auth).Step e s s') {m : Handler} {id : String}
    (hm : standing (s.hist i) = some m) (hid : m.channel = some id) :
    ∃ m', standing (s'.hist i) = some m' ∧ m'.channel = some id := by
  rcases handler_step hs i with ⟨hsame, -⟩ | ⟨a, m₀, m', -, hm₀, hm', hstep⟩
  · refine ⟨m, ?_, hid⟩
    rw [hsame]
    exact hm
  · rw [hm] at hm₀
    cases hm₀
    exact ⟨m', hm', hstep.channel hid⟩

/-- The handler takes the stream. -/
theorem Waits.step (hs : (server d auth).Step e s s') (h : Waits i k s) :
    (Waits i k s' ∧ e ≠ .task i (.call .selectConsumer (.inbound (some k)))) ∨ Offered i k s' := by
  obtain ⟨⟨c, hc, hconn, hacc, hput⟩, m, id, hm, hid⟩ := h
  obtain ⟨m', hm', hid'⟩ := channel_step hs hm hid
  cases hs with
  | @env s l w he =>
    obtain ⟨c', hc', hg⟩ := he.grows hc
    refine .inl ⟨⟨⟨c', hc', hg.conn.trans hconn, hg.accepted.trans hacc, ?_⟩, m, id, hm, hid⟩,
      by simp⟩
    intro hnil
    have hprefix := hg.put
    rw [hnil] at hprefix
    exact hput (List.prefix_nil.mp hprefix)
  | @task s j a w ht he =>
    by_cases hsel : j = i ∧ a = .call .selectConsumer (.inbound (some k))
    · obtain ⟨rfl, rfl⟩ := hsel
      refine .inr ?_
      obtain ⟨id', hoffer⟩ := standing_select ht
      refine ⟨id', ?_⟩
      rw [Tasks.hist_log_self]
      exact hoffer
    · refine .inl ⟨⟨⟨c, ?_, hconn, hacc, hput⟩, m', id, hm', hid'⟩, ?_⟩
      · obtain ⟨m₁, m₂, -, -, hstep⟩ := handlerStep ht he
        rw [Tasks.shared_log]
        cases hstep with
        | @accept id' k' c' _ hc' hconn' _ =>
          have hne : k ≠ k' := by
            rintro rfl
            rw [hc] at hc'
            cases hc'
            exact hsel ⟨hconn'.symm.trans hconn, rfl⟩
          exact (World.consumers_setConsumer_of_ne hne).trans hc
        | _ => exact hc
      · intro heq
        cases heq
        exact hsel ⟨rfl, rfl⟩

/-- Only its handler takes a stream. -/
theorem offered_of_accepted (hs : (server d auth).Step e s s')
    (hacc : s.shared.skeleton.consumers k ≠ some (i, true))
    (hacc' : s'.shared.skeleton.consumers k = some (i, true)) : Offered i k s' := by
  cases hs with
  | @env s l w he =>
    exfalso
    cases he.trace with
    | none _ hsame =>
      rw [hsame] at hacc'
      exact hacc hacc'
    | @opens conn k' _ _ hsame =>
      rw [hsame] at hacc'
      change Function.update s.shared.skeleton.consumers k' _ k = _ at hacc'
      by_cases hne : k = k'
      · subst hne
        rw [Function.update_self] at hacc'
        cases hacc'
      · rw [Function.update_of_ne hne] at hacc'
        exact hacc hacc'
    | relaying _ _ _ he hsame =>
      rw [hsame] at hacc'
      exact hacc ((congrFun (skeleton_relayEffect he).1 k).symm.trans hacc')
  | @task s j a w ht he =>
    obtain ⟨m, m', -, hm', hstep⟩ := handlerStep ht he
    rw [Tasks.shared_log] at hacc'
    cases hstep with
    | @accept id k' c _ hc hconn _ =>
      rw [World.skeleton_setConsumer] at hacc'
      change Function.update s.shared.skeleton.consumers k' _ k = _ at hacc'
      by_cases hne : k = k'
      · subst hne
        rw [Function.update_self] at hacc'
        cases hacc'
        subst hconn
        refine ⟨id, ?_⟩
        rw [Tasks.hist_log_self]
        exact hm'
      · rw [Function.update_of_ne hne] at hacc'
        exact absurd hacc' hacc
    | _ => exact absurd hacc' hacc

/-- A stream that was handed out has a relay, or its handler is about to spawn one. -/
def Kept (i k : Nat) (s : System) : Prop :=
  s.shared.skeleton.consumers k = some (i, true) →
    (Offered i k s ∨ Granted i k s) ∨ s.shared.skeleton.relays k ≠ none

theorem Kept.step (h : Connected d s) (hs : (server d auth).Step e s s')
    (hok : Undisturbed i k s e) (hkept : Kept i k s) : Kept i k s' := by
  intro hacc'
  by_cases hacc : s.shared.skeleton.consumers k = some (i, true)
  · rcases hkept hacc with (hoffered | hgranted) | hrel
    · rcases hoffered.step hs hok with ⟨h', -⟩ | h'
      · exact .inl (.inl h')
      · exact .inl (.inr h')
    · rcases hgranted.step hs with ⟨h', -⟩ | ⟨id, ph, hr, -⟩
      · exact .inl (.inr h')
      · refine .inr ?_
        rw [hr]
        simp
    · refine .inr ?_
      cases h.relayStep hs k with
      | rests _ hsame =>
        rw [hsame]
        exact hrel
      | spawned _ _ hnew =>
        rw [hnew]
        simp
      | moves _ _ _ _ hnew =>
        rw [hnew]
        simp
  · exact .inl (.inl (offered_of_accepted hs hacc hacc'))

/-- A substream stays with its connection. -/
theorem conn_step (hs : (server d auth).Step e s s') {c : Consumer}
    (hc : s.shared.consumers k = some c) :
    ∃ c', s'.shared.consumers k = some c' ∧ c'.conn = c.conn := by
  cases hs with
  | env he =>
    obtain ⟨c', hc', hg⟩ := he.grows hc
    exact ⟨c', hc', hg.conn⟩
  | @task s j a w ht he =>
    obtain ⟨m, m', -, -, hstep⟩ := handlerStep ht he
    rw [Tasks.shared_log]
    cases hstep with
    | @accept id k' c₀ _ hc₀ _ _ =>
      by_cases hne : k = k'
      · subst hne
        rw [hc] at hc₀
        cases hc₀
        exact ⟨_, World.consumers_setConsumer _ _ _, rfl⟩
      · exact ⟨c, (World.consumers_setConsumer_of_ne hne).trans hc, rfl⟩
    | _ => exact ⟨c, hc, rfl⟩

theorem channel_of_enter {h : Hist Call Call.Reply} {m : Handler} {id : String}
    (hm : standing h = some m) (hmem : (⟨.enter .consumer id, ()⟩ : Sigma Call.Reply) ∈ h.calls) :
    m.channel = some id := by
  refine Proc.after_of_mem Handler.next (P := fun m => m.channel = some id) ?_ ?_ hm hmem
  · intro m m' hnext
    cases Handler.next_cases hnext with
    | stay _ hc => exact hc.elim
    | consume id => rfl
  · intro m c m' hid hnext
    cases Handler.next_cases hnext with
    | stay _ _ => exact hid
    | offer id' k => exact hid
    | grant id' k => exact hid
    | deny id' k => exact hid
    | spawn id' k => exact hid
    | provide id' => cases hid
    | consume id' => cases hid
    | refuse id' => cases hid
    | clear id' => cases hid
    | register id' => cases hid
    | leave id' => cases hid

theorem ConnectedOn.step (hs : (server d auth).Step e s s') {id : String}
    (h : ConnectedOn s i id) : ConnectedOn s' i id := by
  cases hs with
  | env _ => exact h
  | @task s j a w _ _ =>
    unfold ConnectedOn
    by_cases hne : i = j
    · subst hne
      rw [Tasks.hist_log_self, Hist.calls_append]
      exact List.mem_append_left _ h
    · rw [Tasks.hist_log_of_ne _ _ _ _ hne]
      exact h

/-- The consumer's substream `k` is one of a destination of channel `id`. -/
def BelongsTo (k : Nat) (id : String) (s : System) : Prop :=
  ∃ c, s.shared.consumers k = some c ∧ ConnectedOn s c.conn id

theorem BelongsTo.step {id : String} (hs : (server d auth).Step e s s')
    (h : BelongsTo k id s) : BelongsTo k id s' := by
  obtain ⟨c, hc, hid⟩ := h
  obtain ⟨c', hc', hconn⟩ := conn_step hs hc
  refine ⟨c', hc', ?_⟩
  rw [hconn]
  exact hid.step hs

theorem BelongsTo.unique {maxConns : Nat} (hr : ServerReach d auth maxConns s)
    {id id' : String} (h : BelongsTo k id s) (h' : BelongsTo k id' s) : id = id' := by
  obtain ⟨c, hc, hid⟩ := h
  obtain ⟨c', hc', hid'⟩ := h'
  rw [hc] at hc'
  cases hc'
  obtain ⟨m, hm⟩ := exists_standing (hr.trace c.conn)
  exact Option.some.inj ((channel_of_enter hm hid).symm.trans (channel_of_enter hm hid'))

end Stages

/-! ## The two meet -/

/-- The consumer's substream `k` is spliced to a substream of a source of channel
`id`, and its relay copies between the two. -/
def Met (s : System) (k : Nat) (id : String) : Prop :=
  ∃ r p e, s.shared.relays k = some r ∧ r.task = (relayCopy p).run ∧ r.provider = some p ∧
    s.shared.providers p = some e ∧ RegisteredOn s e.conn id

theorem Connected.met {d : Deps} {s : System} {k : Nat} (h : Connected d s) (hc : Copies k s) :
    ∃ id c, s.shared.consumers k = some c ∧ ConnectedOn s c.conn id ∧ Met s k id := by
  obtain ⟨id₀, p, hrel⟩ := hc
  obtain ⟨r, hr, hpair⟩ := Option.map_eq_some_iff.mp hrel
  have htask : r.task = (relayCopy p).run := congrArg Prod.snd hpair
  obtain ⟨-, e, -, -, -, hp, rfl, hprov, -⟩ := h.wired.copying hr htask
  obtain ⟨id, c, hreg, hc, -, hconn⟩ := h.paired hp
  exact ⟨id, c, hc, hconn, r, p, e, hr, htask, hprov, hp, hreg⟩

section Live

variable {d : Deps} {auth : Option Authenticator} {maxConns : Nat} {i k : Nat}
variable {ok : System → Event Nat Call Call.Reply Happening → Prop}

/-- Whoever is obliged to do something for stream `k` of connection `i` does it: the
acceptor hands the stream to the handler, and the handler and the relay go on. -/
structure Attended (b : Behaviour (server d auth) ok (.start maxConns)) (i k : Nat) : Prop where
  select : b.Fair (Waits i k) fun e => e = .task i (.call .selectConsumer (.inbound (some k)))
  handler : b.Fair (InHand i k) fun e => ∃ a, e = .task i a
  relay : b.Fair (Underway k) fun e => ∃ a, e = .env (.relaying k a)

/-- The steps for which stream `k` of connection `i` is not disturbed and that find
somebody registered. -/
abbrev Prompt (i k : Nat) (s : System) (e : Event Nat Call Call.Reply Happening) : Prop :=
  LooksUpRegistered s e ∧ Undisturbed i k s e

variable (b : Behaviour (server d auth) (Prompt i k) (.start maxConns))

theorem Behaviour.connected (n : Nat) : Connected d (b.state n) :=
  connected_of_reach ((b.reach n).mono fun _ _ _ => trivial)

theorem ahead_leadsTo (hfair : Attended b i k) (j : Nat) :
    LeadsTo (fun n => Ahead k j (b.state n)) fun n => Copies k (b.state n) := by
  refine LeadsTo.of_rank (P := fun j n => Ahead k j (b.state n)) (fun j => ?_) j
  refine b.leadsTo (P := Ahead k j) (Q := fun s => (∃ j', j' < j ∧ Ahead k j' s) ∨ Copies k s)
    (hfair.relay.mono fun s hs => hs.underway) ?_
  intro s s' e hr hok hs hP
  have h : Connected d s := connected_of_reach (hr.mono fun _ _ _ => trivial)
  exact (hP.step h hs hok.1 hok.2).imp_left fun hstay => ⟨hstay.1, not_exists.mpr hstay.2⟩

theorem granted_leadsTo (hfair : Attended b i k) :
    LeadsTo (fun n => Granted i k (b.state n)) fun n => Copies k (b.state n) := by
  have hheld : b.Fair (Granted i k) fun e => ∃ a, e = .task i a := by
    refine hfair.handler.mono fun s hs => ?_
    obtain ⟨id, hm⟩ := hs
    exact ⟨_, hm, rfl⟩
  refine (b.leadsTo (Q := Ahead k 4) hheld ?_).trans (ahead_leadsTo b hfair 4)
  intro s s' e _ _ hs hP
  exact (hP.step hs).imp_left fun hstay => ⟨hstay.1, not_exists.mpr hstay.2⟩

theorem offered_leadsTo (hfair : Attended b i k) :
    LeadsTo (fun n => Offered i k (b.state n)) fun n => Copies k (b.state n) := by
  have hheld : b.Fair (Offered i k) fun e => ∃ a, e = .task i a := by
    refine hfair.handler.mono fun s hs => ?_
    obtain ⟨id, hm⟩ := hs
    exact ⟨_, hm, rfl⟩
  refine (b.leadsTo (Q := Granted i k) hheld ?_).trans (granted_leadsTo b hfair)
  intro s s' e _ hok hs hP
  exact (hP.step hs hok.2).imp_left fun hstay => ⟨hstay.1, not_exists.mpr hstay.2⟩

theorem waits_leadsTo (hfair : Attended b i k) :
    LeadsTo (fun n => Waits i k (b.state n)) fun n => Copies k (b.state n) := by
  refine (b.leadsTo (Q := Offered i k) hfair.select ?_).trans (offered_leadsTo b hfair)
  intro s s' e _ _ hs hP
  exact hP.step hs

theorem kept (n : Nat) : Kept i k (b.state n) := by
  induction n with
  | zero =>
    rw [b.init]
    rintro ⟨⟩
  | succ n ih =>
    cases he : b.event n with
    | none =>
      rw [b.idle n he]
      exact ih
    | some e =>
      obtain ⟨hok, hs⟩ := b.step n e he
      exact ih.step (Behaviour.connected b n) hs hok.2

/-- A relay is on its way, or has been copying. -/
theorem ahead_or_copies (n : Nat) (hr : (b.state n).shared.skeleton.relays k ≠ none) :
    (∃ j, Ahead k j (b.state n)) ∨ ∃ m, Copies k (b.state m) := by
  induction n with
  | zero =>
    rw [b.init] at hr
    exact absurd rfl hr
  | succ n ih =>
    cases he : b.event n with
    | none =>
      rw [b.idle n he] at hr ⊢
      exact ih hr
    | some e =>
      obtain ⟨hok, hs⟩ := b.step n e he
      have h := Behaviour.connected b n
      by_cases hnone : (b.state n).shared.skeleton.relays k = none
      · cases h.relayStep hs k with
        | rests _ hsame => exact absurd (hsame.trans hnone) hr
        | spawned _ _ hnew => exact .inl ⟨4, _, .waiting, hnew, rfl⟩
        | moves _ hr' _ _ _ =>
          rw [hnone] at hr'
          cases hr'
      · rcases ih hnone with ⟨j, hj⟩ | hcopies
        · rcases hj.step h hs hok.1 hok.2 with ⟨hj', -⟩ | ⟨j', -, hj'⟩ | hcopies
          · exact .inl ⟨j, hj'⟩
          · exact .inl ⟨j', hj'⟩
          · exact .inr ⟨n + 1, hcopies⟩
        · exact .inr hcopies

/-- A stream that its destination has is spliced at some time. -/
theorem exists_copies (hfair : Attended b i k) {n : Nat} {c : Consumer} {id : String}
    (hc : (b.state n).shared.consumers k = some c) (hconn : c.conn = i)
    (hopen : c.task = .ret (.ok k)) (hid : ConnectedOn (b.state n) i id) :
    ∃ m, Copies k (b.state m) := by
  have hsoon : ∀ {P : System → Prop}, P (b.state n) →
      LeadsTo (fun n => P (b.state n)) (fun n => Copies k (b.state n)) →
      ∃ m, Copies k (b.state m) := by
    intro P hP hleads
    obtain ⟨m, -, hm⟩ := hleads n hP
    exact ⟨m, hm⟩
  cases hacc : c.accepted with
  | false =>
    obtain ⟨m, hm⟩ := exists_standing ((b.reach n).trace i)
    have hput : c.up.put ≠ [] := by
      rw [((Behaviour.connected b n).wired k |>.consumer c hc).opens.of_ready hopen]
      simp
    have hwaits : Waits i k (b.state n) :=
      ⟨⟨c, hc, hconn, hacc, hput⟩, m, id, hm, channel_of_enter hm hid⟩
    exact hsoon hwaits (waits_leadsTo b hfair)
  | true =>
    have haccepted : (b.state n).shared.skeleton.consumers k = some (i, true) := by
      rw [World.skeleton_consumers hc, hconn, hacc]
    rcases kept b n haccepted with (hoffered | hgranted) | hrel
    · exact hsoon hoffered (offered_leadsTo b hfair)
    · exact hsoon hgranted (granted_leadsTo b hfair)
    · rcases ahead_or_copies b n hrel with ⟨j, hj⟩ | hcopies
      · exact hsoon hj (ahead_leadsTo b hfair j)
      · exact hcopies

end Live

/-- The source and the destination of channel `id` meet: the destination has its stream
`k` on connection `i`, the source comes to be registered on connection `j` and stays so,
neither is disturbed, and everybody does what is due.  Then the server does not close
the stream for lack of a provider, and splices it to a stream of the channel. -/
def Rendezvous (d : Deps) (auth : Option Authenticator) (maxConns : Nat)
    (ok : System → Event Nat Call Call.Reply Happening → Prop) : Prop :=
  ∀ (i j k : Nat) (id : String)
    (b : Behaviour (server d auth) (fun s e => ok s e ∧ Undisturbed i k s e) (.start maxConns)),
    Attended b i k → (∃ n₀, ∀ n, n₀ ≤ n → (b.state n).shared.registry id = some j) →
    ∀ n c, (b.state n).shared.consumers k = some c → c.conn = i → c.task = .ret (.ok k) →
      ConnectedOn (b.state n) i id →
      (∀ m r, (b.state m).shared.relays k = some r → ¬ Lacking r.id r.task) ∧
        ∃ m, Met (b.state m) k id

section Rendezvous

variable {d : Deps} {auth : Option Authenticator} {maxConns : Nat}

theorem noneLacking_of_reach {s : System}
    (hr : (server d auth).Reach LooksUpRegistered (.start maxConns) s) : NoneLacking s := by
  induction hr with
  | init => rintro k r ⟨⟩
  | step hr hok hs ih =>
    exact ih.step (connected_of_reach (hr.mono fun _ _ _ => trivial)) hs hok

/-- A relay that looks up an id for which nobody is registered gives up. -/
theorem lacking_of_lookup {s s' : System} {k : Nat} {id : String} {pool : Option Nat}
    (hr : ServerReach d auth maxConns s)
    (hs : (server d auth).Step (.env (.relaying k (.call (.get id) pool))) s s')
    (hnone : s.shared.registry id = none) :
    ∃ r, s'.shared.relays k = some r ∧ Lacking r.id r.task := by
  have h := connected_of_reach hr
  cases hs with
  | env he =>
    cases he with
    | @relaying w w' k r a t hrel hs he =>
      obtain ⟨c, -, -, ⟨-, ph, htask, -⟩⟩ := (h.wired k).relay r hrel
      rw [htask] at hs
      obtain ⟨ph', rfl, hn⟩ := RelayPhase.next_of_step hs
      have hpool : pool = none := he.1.trans hnone
      subst hpool
      refine ⟨_, World.relays_setRelay _ _ _, ?_⟩
      cases hn with
      | missing => exact .inl rfl

theorem rendezvous_of_registered : Rendezvous d auth maxConns LooksUpRegistered := by
  intro i j k id b hfair _ n c hc hconn hopen hid
  refine ⟨fun m r hr => ?_, ?_⟩
  · exact noneLacking_of_reach ((b.reach m).mono fun _ _ hok => hok.1) k r hr
  · obtain ⟨m, hcopies⟩ := exists_copies b hfair hc hconn hopen hid
    obtain ⟨id', c', hc', hid', hmet⟩ := (Behaviour.connected b m).met hcopies
    -- what is true at either moment is true at the later of them
    have hn := b.lasts (P := BelongsTo k id) (fun _ _ _ => BelongsTo.step)
      (Nat.le_max_left n m) ⟨c, hc, hconn ▸ hid⟩
    have hm := b.lasts (P := BelongsTo k id') (fun _ _ _ => BelongsTo.step)
      (Nat.le_max_right n m) ⟨c', hc', hid'⟩
    obtain rfl := BelongsTo.unique ((b.reach _).mono fun _ _ _ => trivial) hn hm
    exact ⟨m, hmet⟩

/-- Whoever comes first: the source and the destination meet in every run in which
relays find somebody registered when they look their id up.  A relay that finds nobody
closes the stream of its destination, and nobody comes back to it. -/
theorem rendezvous_exact (d : Deps) (auth : Option Authenticator) (maxConns : Nat) :
    (∀ s, (server d auth).Reach LooksUpRegistered (.start maxConns) s → NoneLacking s) ∧
    Rendezvous d auth maxConns LooksUpRegistered ∧
    ∀ s s' k id pool, ServerReach d auth maxConns s →
      (server d auth).Step (.env (.relaying k (.call (.get id) pool))) s s' →
      s.shared.registry id = none → ∃ r, s'.shared.relays k = some r ∧ Lacking r.id r.task :=
  ⟨fun _ hr => noneLacking_of_reach hr, rendezvous_of_registered,
    fun _ _ _ _ _ hr hs hnone => lacking_of_lookup hr hs hnone⟩

/-- Nothing is due any more for a stream whose relay copies or has returned. -/
theorem attended_of_rest {ok : System → Event Nat Call Call.Reply Happening → Prop}
    {b : Behaviour (server d auth) ok (.start maxConns)} {s : System} {n₀ i k : Nat} {r : Relay}
    (hrest : ∀ n, n₀ ≤ n → b.state n = s) (h : Connected d s) (hr : s.shared.relays k = some r)
    (hdone : r.task.Finished ∨ ∃ p, r.task = (relayCopy p).run) : Attended b i k := by
  refine ⟨Behaviour.fair_of_rest hrest ?_ _, Behaviour.fair_of_rest hrest ?_ _,
    Behaviour.fair_of_rest hrest ?_ _⟩
  · rintro ⟨⟨c, hc, -, hacc, -⟩, -⟩
    obtain ⟨c₀, hc₀, hacc₀, -⟩ := (h.wired k).relay r hr
    rw [hc] at hc₀
    cases hc₀
    rw [hacc] at hacc₀
    cases hacc₀
  · rintro ⟨m, hm, hk⟩
    have hnone := (h.routed.held i m k hm hk).2
    rw [World.skeleton_relays hr] at hnone
    cases hnone
  · rintro ⟨r₀, hr₀, hrun, hcopy⟩
    rw [hr] at hr₀
    cases hr₀
    rcases hdone with hfin | ⟨p, hp⟩
    · exact hrun hfin
    · exact hcopy p hp

theorem connectedOn_of_relay {s : System} {k : Nat} {r : Relay} {c : Consumer}
    (h : Connected d s) (hr : s.shared.relays k = some r) (hc : s.shared.consumers k = some c) :
    ConnectedOn s c.conn r.id := by
  obtain ⟨i, hcons, hmem⟩ := h.routed.relay k r.id r.task (World.skeleton_relays hr)
  rw [World.skeleton_consumers hc] at hcons
  obtain rfl : c.conn = i := congrArg Prod.fst (Option.some.inj hcons)
  exact hmem

/-- The source comes first, and the two meet. -/
theorem rendezvous_source_first :
    ∃ b : Behaviour (server sampleDeps none) (Prompt 1 0) (.start 1),
      Attended b 1 0 ∧ ∃ m, Met (b.state m) 0 "db" := by
  obtain ⟨s, c, hr, hreg, hc, hconn, hopen, -, hrel, -⟩ := exists_paired
  have h : Connected sampleDeps s := connected_of_reach hr.server
  obtain ⟨b, n₀, hrest⟩ := (hr.mono fun s e hok =>
    (⟨hok.1, hok.2 1 0⟩ : Prompt 1 0 s e)).exists_behaviour
  have hstate : ∀ n, n₀ ≤ n → b.state n = s := fun n hn => (hrest n hn).1
  have hfair : Attended b 1 0 := attended_of_rest hstate h hrel (.inr ⟨0, rfl⟩)
  have hid : ConnectedOn s 1 "db" := by
    rw [← hconn]
    exact connectedOn_of_relay h hrel hc
  refine ⟨b, hfair, ?_⟩
  refine ((rendezvous_exact sampleDeps none 1).2.1 1 0 0 "db" b hfair ⟨n₀, fun n hn => ?_⟩ n₀ c
    ?_ hconn hopen ?_).2
  · rw [hstate n hn]
    exact hreg
  · rw [hstate n₀ (Nat.le_refl n₀)]
    exact hc
  · rw [hstate n₀ (Nat.le_refl n₀)]
    exact hid

/-- The destination comes first: its stream has its relay before the source, which is
connected already, has its entry in the registry.  The relay gives up. -/
theorem destination_first_closed :
    ¬ Rendezvous sampleDeps none 1 fun _ _ => True := by
  intro hmeet
  obtain ⟨json, hjson, hlen⟩ := exists_request
  obtain ⟨json', ack, hjson', hlen', hack⟩ := exists_connect
  obtain ⟨s₁, hr₁, hw₁, hself₁, hothers₁⟩ := exists_checked hjson hlen
    (.init : OrderlyReach sampleDeps 1 _) (i := 0) rfl rfl
  obtain ⟨s₂, hr₂, hw₂, hserve, hothers₂⟩ := exists_destination hjson' hlen' hack hr₁
    (hothers₁ 1 (by simp))
  rw [hw₁] at hw₂
  obtain ⟨s₃, c, hr₃, hothers₃, hw₃, hconn, hopen, -, -⟩ :=
    exists_looking (k := 0) hr₂ hserve (by rw [hw₂]; rfl) (by rw [hw₂]; exact Nat.one_pos)
  rw [hw₂] at hw₃
  have hrel : s₃.shared.relays 0 =
      some ⟨"db", (relayGet "db").run, none, .empty, .empty, true⟩ := by
    rw [hw₃]
    exact World.relays_setRelay _ _ _
  have hc : s₃.shared.consumers 0 = some c := by
    rw [hw₃, World.consumers_setRelay, World.consumers_setConsumer]
  -- the relay looks the id up
  have hnone : s₃.shared.registry "db" = none := by
    rw [hw₃]
    rfl
  obtain ⟨w, hlook, hrel₄, hcons₄⟩ : ∃ w,
      Happens sampleDeps (.relaying 0 (.call (.get "db") none)) s₃.shared w ∧
      w.relays 0 = some ⟨"db", .ret (.error (.noProvider "db")), none, .empty, .empty, true⟩ ∧
      w.consumers = s₃.shared.consumers :=
    ⟨_, .relaying hrel .call ⟨hnone.symm, rfl⟩, World.relays_setRelay _ _ _, rfl⟩
  have hok₄ : True ∧ Undisturbed 1 0 s₃ (.env (.relaying 0 (.call (.get "db") none))) :=
    ⟨trivial, fun _ => trivial⟩
  have hr₄ := (hr₃.mono fun s e hok =>
    (⟨trivial, hok.2 1 0⟩ : True ∧ Undisturbed 1 0 s e)).step hok₄ (.env hlook)
  -- then the source is registered
  have htrace : Proc.Trace (handler sampleDeps none) (s₃.hist 0 ++ [.call (.insert "db") ()]) := by
    rw [hothers₃ 0 (by simp), hothers₂ 0 (by simp), hself₁]
    exact trace_registering hjson hlen
  have hok₅ : True ∧ Undisturbed 1 0 ⟨s₃.hist, w⟩ (.task 0 (.call (.insert "db") ())) :=
    ⟨trivial, trivial⟩
  obtain ⟨s₅, hs₅, hw₅⟩ : ∃ s₅, (server sampleDeps none).Step
      (.task 0 (.call (.insert "db") ())) ⟨s₃.hist, w⟩ s₅ ∧
      s₅.shared = { w with registry := Function.update w.registry "db" (some 0)
                           pools := Function.update w.pools 0 (.new 0) } :=
    ⟨Tasks.log ⟨s₃.hist, w⟩ 0 _ _, .task htrace rfl, rfl⟩
  have hr₅ := hr₄.step hok₅ hs₅
  have h : Connected sampleDeps s₅ := connected_of_reach (hr₅.mono fun _ _ _ => trivial)
  have hc₅ : s₅.shared.consumers 0 = some c := by
    rw [hw₅]
    exact (congrFun hcons₄ 0).trans hc
  have hrel₅ : s₅.shared.relays 0 = some ⟨"db", .ret (.error (.noProvider "db")), none, .empty,
      .empty, true⟩ := by
    rw [hw₅]
    exact hrel₄
  have hid : ConnectedOn s₅ 1 "db" := by
    rw [← hconn]
    exact connectedOn_of_relay h hrel₅ hc₅
  obtain ⟨b, n₀, hrest⟩ := hr₅.exists_behaviour
  have hstate : ∀ n, n₀ ≤ n → b.state n = s₅ := fun n hn => (hrest n hn).1
  have hlast := hstate n₀ (Nat.le_refl n₀)
  have hmet := hmeet 1 0 0 "db" b (attended_of_rest hstate h hrel₅ (.inl ⟨_, rfl⟩))
    ⟨n₀, fun n hn => by rw [hstate n hn, hw₅]; rfl⟩ n₀ c (by rw [hlast]; exact hc₅) hconn hopen
    (by rw [hlast]; exact hid)
  exact hmet.1 n₀ _ (by rw [hlast]; exact hrel₅) (.inl rfl)

end Rendezvous

end RustBackup.Transport
