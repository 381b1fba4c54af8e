/-
  Transport/Isolation.lean --- relays connect the right ends.

  A relay is spawned by the handler of a destination for one of that destination's
  substreams and for the destination's own id.  It looks its id up, so it opens a
  substream to a source that has registered that id.  What matters for that is which
  connection a substream belongs to, which relay it belongs to and what the relay is
  about to do: the skeleton of the world.  Only few events touch it.
-/
import RustBackup.Transport.Splice

set_option autoImplicit false

namespace RustBackup.Transport

open RustBackup.Serde RustBackup.Io RustBackup.Core

/-! ## The skeleton -/

/-- The world without the bytes. -/
structure Skeleton where
  registry : Registry
  pools : Nat → CarrierPool
  /-- the connection of a consumer's substream, and whether it was handed out -/
  consumers : Nat → Option (Nat × Bool)
  /-- the connection of a provider's substream, and the line it belongs to -/
  providers : Nat → Option (Nat × Nat)
  /-- the id of a relay, and what is left of it -/
  relays : Nat → Option (String × Proc RelayCall RelayCall.Reply (Except RelayError Unit))

namespace World

def skeleton (w : World) : Skeleton where
  registry := w.registry
  pools := w.pools
  consumers := Option.map (fun c => (c.conn, c.accepted)) ∘ w.consumers
  providers := Option.map (fun e => (e.conn, e.relay)) ∘ w.providers
  relays := Option.map (fun r => (r.id, r.task)) ∘ w.relays

section Set

variable {w : World} {k p : Nat} {c c' : Consumer} {e e' : Provider} {r r' : Relay}

theorem skeleton_consumers (hc : w.consumers k = some c) :
    w.skeleton.consumers k = some (c.conn, c.accepted) := by
  show (w.consumers k).map _ = _
  rw [hc]
  rfl

theorem skeleton_providers (hp : w.providers p = some e) :
    w.skeleton.providers p = some (e.conn, e.relay) := by
  show (w.providers p).map _ = _
  rw [hp]
  rfl

theorem skeleton_relays (hr : w.relays k = some r) :
    w.skeleton.relays k = some (r.id, r.task) := by
  show (w.relays k).map _ = _
  rw [hr]
  rfl

theorem skeleton_setConsumer (w : World) (k : Nat) (c : Consumer) :
    (w.setConsumer k c).skeleton =
      { w.skeleton with
        consumers := Function.update w.skeleton.consumers k (some (c.conn, c.accepted)) } := by
  simp only [skeleton, setConsumer, Function.comp_update, Option.map_some]

theorem skeleton_setProvider (w : World) (p : Nat) (e : Provider) :
    (w.setProvider p e).skeleton =
      { w.skeleton with
        providers := Function.update w.skeleton.providers p (some (e.conn, e.relay)) } := by
  simp only [skeleton, setProvider, Function.comp_update, Option.map_some]

theorem skeleton_setRelay (w : World) (k : Nat) (r : Relay) :
    (w.setRelay k r).skeleton =
      { w.skeleton with
        relays := Function.update w.skeleton.relays k (some (r.id, r.task)) } := by
  simp only [skeleton, setRelay, Function.comp_update, Option.map_some]

/-- Bytes that move in a substream or in a relay leave no trace in the skeleton. -/
theorem skeleton_setConsumer_of_eq (hc : w.consumers k = some c) (hconn : c'.conn = c.conn)
    (hacc : c'.accepted = c.accepted) : (w.setConsumer k c').skeleton = w.skeleton := by
  rw [skeleton_setConsumer, hconn, hacc, ← skeleton_consumers hc, Function.update_eq_self]

theorem skeleton_setProvider_of_eq (hp : w.providers p = some e) (hconn : e'.conn = e.conn)
    (hrelay : e'.relay = e.relay) : (w.setProvider p e').skeleton = w.skeleton := by
  rw [skeleton_setProvider, hconn, hrelay, ← skeleton_providers hp, Function.update_eq_self]

theorem skeleton_setRelay_of_eq {w' : World} (hw : w'.skeleton = w.skeleton)
    (hr : w.relays k = some r) (hid : r'.id = r.id) (htask : r'.task = r.task) :
    (w'.setRelay k r').skeleton = w.skeleton := by
  rw [skeleton_setRelay, hw, hid, htask, ← skeleton_relays hr, Function.update_eq_self]

end Set

end World

/-- What an event besides those of handlers does to the skeleton. -/
inductive Happens.Trace (d : Deps) (l : Happening) (w w' : World) : Prop where
  | none (hl : ∀ k a, l ≠ .relaying k a) (h : w'.skeleton = w.skeleton)
  | opens {conn k : Nat} (hl : ∀ k a, l ≠ .relaying k a) (hnew : w.consumers k = none)
      (h : w'.skeleton = { w.skeleton with
        consumers := Function.update w.skeleton.consumers k (some (conn, false)) })
  | relaying {w₁ : World} {k : Nat} {r : Relay} {a : Act RelayCall RelayCall.Reply}
      {t : Proc RelayCall RelayCall.Reply (Except RelayError Unit)} (hl : l = .relaying k a)
      (hr : w.relays k = some r) (hs : r.task.Step a t) (he : relayEffect k a w w₁)
      (h : w'.skeleton = { w₁.skeleton with
        relays := Function.update w₁.skeleton.relays k (some (r.id, t)) })

theorem Happens.trace {d : Deps} {l : Happening} {w w' : World} (h : Happens d l w w') :
    Happens.Trace d l w w' := by
  cases h with
  | opens hnew _ => exact .opens (by simp) hnew (World.skeleton_setConsumer _ _ _)
  | relaying hr hs he => exact .relaying rfl hr hs he (World.skeleton_setRelay _ _ _)
  | opening hc _ => exact .none (by simp) (World.skeleton_setConsumer_of_eq hc rfl rfl)
  | accepts hp _ _ _ => exact .none (by simp) (World.skeleton_setProvider_of_eq hp rfl rfl)
  | accepting hp _ _ _ => exact .none (by simp) (World.skeleton_setProvider_of_eq hp rfl rfl)
  | consumerWrites bs hc _ => exact .none (by simp) (World.skeleton_setConsumer_of_eq hc rfl rfl)
  | consumerReads hc _ _ => exact .none (by simp) (World.skeleton_setConsumer_of_eq hc rfl rfl)
  | providerWrites bs hp _ => exact .none (by simp) (World.skeleton_setProvider_of_eq hp rfl rfl)
  | providerReads hp _ _ => exact .none (by simp) (World.skeleton_setProvider_of_eq hp rfl rfl)
  | releases hr _ _ => exact .none (by simp) (World.skeleton_setRelay_of_eq (by rfl) hr rfl rfl)
  | takeForth hr _ hc _ =>
    exact .none (by simp)
      (World.skeleton_setRelay_of_eq (World.skeleton_setConsumer_of_eq hc rfl rfl) hr rfl rfl)
  | giveForth hr _ hp _ =>
    exact .none (by simp)
      (World.skeleton_setRelay_of_eq (World.skeleton_setProvider_of_eq hp rfl rfl) hr rfl rfl)
  | takeBack hr _ hp _ =>
    exact .none (by simp)
      (World.skeleton_setRelay_of_eq (World.skeleton_setProvider_of_eq hp rfl rfl) hr rfl rfl)
  | giveBack hr _ hc _ =>
    exact .none (by simp)
      (World.skeleton_setRelay_of_eq (World.skeleton_setConsumer_of_eq hc rfl rfl) hr rfl rfl)

/-! ## Who is connected to whom -/

theorem enter_mem_of_channel {h : Hist Call Call.Reply} {m : Handler} {id : String}
    (hm : standing h = some m) (hid : m.channel = some id) :
    (⟨.enter .consumer id, ()⟩ : Sigma Call.Reply) ∈ h.calls := by
  refine Proc.mem_of_after Handler.next (P := fun m => m.channel = some id)
    (by simp [Handler.channel]) ?_ hm hid
  intro m c m' hnot hnext hchannel
  cases Handler.next_cases hnext with
  | stay _ _ => exact absurd hchannel hnot
  | consume id' =>
    cases hchannel
    rfl
  | offer id' k => exact absurd hchannel hnot
  | grant id' k => exact absurd hchannel hnot
  | deny id' k => exact absurd hchannel hnot
  | spawn id' k => exact absurd hchannel hnot
  | provide id' => cases hchannel
  | refuse id' => cases hchannel
  | clear id' => cases hchannel
  | register id' => cases hchannel
  | leave id' => cases hchannel

/-- A relay that is about to open a substream on connection `j`, or to pick an opener
from its pool. -/
def Heads (t : Proc RelayCall RelayCall.Reply (Except RelayError Unit)) (j : Nat) : Prop :=
  t.head? = some (.pick j) ∨ t.head? = some (.openProvider j)

theorem heads_task {id : String} {ph : RelayPhase} {j : Nat} (h : Heads (ph.task id) j) :
    ph = .found j ∨ ph = .picked j := by
  unfold Heads at h
  rw [RelayPhase.head_task] at h
  cases ph with
  | found pool =>
    rcases h with h | h
    · cases h
      exact .inl rfl
    · cases h
  | picked opener =>
    rcases h with h | h
    · cases h
    · cases h
      exact .inr rfl
  | _ =>
    rcases h with h | h
    · cases h
    · cases h

/-- Substreams, relays and registrations belong to the handlers they should. -/
structure Routed (h : Nat → Hist Call Call.Reply) (x : Skeleton) : Prop where
  /-- a substream that a handler holds is its own and has no relay yet -/
  held : ∀ i m k, standing (h i) = some m → m.holding = some k →
    x.consumers k = some (i, true) ∧ x.relays k = none
  /-- a relay works for the id of the destination -/
  relay : ∀ k id t, x.relays k = some (id, t) → ∃ i, x.consumers k = some (i, true) ∧
    (⟨.enter .consumer id, ()⟩ : Sigma Call.Reply) ∈ (h i).calls
  /-- the registry has an id only from who has entered it -/
  registered : ∀ id j, x.registry id = some j →
    (⟨.insert id, ()⟩ : Sigma Call.Reply) ∈ (h j).calls
  /-- who has entered an id has a pool with its own carrier -/
  pooled : ∀ id j, (⟨.insert id, ()⟩ : Sigma Call.Reply) ∈ (h j).calls →
    (x.pools j).carriers = [.new j]
  /-- a relay turns to a source that has registered its id -/
  heads : ∀ k id t j, x.relays k = some (id, t) → Heads t j →
    (⟨.insert id, ()⟩ : Sigma Call.Reply) ∈ (h j).calls
  /-- so has the source of a provider's substream -/
  provided : ∀ p j k, x.providers p = some (j, k) → ∃ id t, x.relays k = some (id, t) ∧
    (⟨.insert id, ()⟩ : Sigma Call.Reply) ∈ (h j).calls

section Routed

variable {d : Deps} {h : Nat → Hist Call Call.Reply} {w w' : World}

/-- A substream is opened, or handed out. -/
theorem Routed.setConsumer {x : Skeleton} {k : Nat} (hx : Routed h x) (v : Nat × Bool)
    (hnew : ∀ i, x.consumers k ≠ some (i, true)) :
    Routed h { x with consumers := Function.update x.consumers k (some v) } := by
  have hold : ∀ k' i, x.consumers k' = some (i, true) →
      Function.update x.consumers k (some v) k' = some (i, true) := by
    intro k' i hk'
    have hne : k' ≠ k := by
      rintro rfl
      exact hnew i hk'
    rw [Function.update_of_ne hne]
    exact hk'
  refine ⟨?_, ?_, hx.registered, hx.pooled, hx.heads, hx.provided⟩
  · intro i m k' hm hk'
    obtain ⟨hc, hr⟩ := hx.held i m k' hm hk'
    exact ⟨hold k' i hc, hr⟩
  · intro k' id t hr
    obtain ⟨i, hc, hmem⟩ := hx.relay k' id t hr
    exact ⟨i, hold k' i hc, hmem⟩

/-- A relay moves on. -/
theorem Routed.moves {x : Skeleton} {k : Nat} {id : String}
    {t t' : Proc RelayCall RelayCall.Reply (Except RelayError Unit)} (hx : Routed h x)
    (hr : x.relays k = some (id, t))
    (hheads : ∀ j, Heads t' j → (⟨.insert id, ()⟩ : Sigma Call.Reply) ∈ (h j).calls) :
    Routed h { x with relays := Function.update x.relays k (some (id, t')) } := by
  refine ⟨?_, ?_, hx.registered, hx.pooled, ?_, ?_⟩
  · intro i m k' hm hk'
    obtain ⟨hc, hnone⟩ := hx.held i m k' hm hk'
    refine ⟨hc, ?_⟩
    have hne : k' ≠ k := by
      rintro rfl
      rw [hr] at hnone
      cases hnone
    show Function.update x.relays k _ k' = none
    rw [Function.update_of_ne hne]
    exact hnone
  · intro k' id' t₁ hr₁
    change Function.update x.relays k (some (id, t')) k' = _ at hr₁
    by_cases hne : k' = k
    · subst hne
      rw [Function.update_self] at hr₁
      cases hr₁
      exact hx.relay k' id t hr
    · rw [Function.update_of_ne hne] at hr₁
      exact hx.relay k' id' t₁ hr₁
  · intro k' id' t₁ j hr₁ hj
    change Function.update x.relays k (some (id, t')) k' = _ at hr₁
    by_cases hne : k' = k
    · subst hne
      rw [Function.update_self] at hr₁
      cases hr₁
      exact hheads j hj
    · rw [Function.update_of_ne hne] at hr₁
      exact hx.heads k' id' t₁ j hr₁ hj
  · intro p j k' hp
    obtain ⟨id', t₁, hr₁, hmem⟩ := hx.provided p j k' hp
    by_cases hne : k' = k
    · subst hne
      rw [hr] at hr₁
      cases hr₁
      exact ⟨id, t', Function.update_self _ _ _, hmem⟩
    · exact ⟨id', t₁, (Function.update_of_ne hne _ _).trans hr₁, hmem⟩

/-- A relay picks from the pool of a source. -/
theorem Routed.picks {x : Skeleton} {j : Nat} {pool : CarrierPool} (hx : Routed h x)
    (hpool : pool.carriers = [.new j]) :
    Routed h { x with pools := Function.update x.pools j pool } := by
  refine ⟨hx.held, hx.relay, hx.registered, ?_, hx.heads, hx.provided⟩
  intro id j' hmem
  show (Function.update x.pools j pool j').carriers = _
  by_cases hne : j' = j
  · subst hne
    rw [Function.update_self]
    exact hpool
  · rw [Function.update_of_ne hne]
    exact hx.pooled id j' hmem

/-- A relay opens a substream to a source. -/
theorem Routed.provides {x : Skeleton} {p j k : Nat} {id : String}
    {t : Proc RelayCall RelayCall.Reply (Except RelayError Unit)} (hx : Routed h x)
    (hr : x.relays k = some (id, t))
    (hmem : (⟨.insert id, ()⟩ : Sigma Call.Reply) ∈ (h j).calls) :
    Routed h { x with providers := Function.update x.providers p (some (j, k)) } := by
  refine ⟨hx.held, hx.relay, hx.registered, hx.pooled, hx.heads, ?_⟩
  intro p' j' k' hp
  change Function.update x.providers p (some (j, k)) p' = _ at hp
  by_cases hne : p' = p
  · subst hne
    rw [Function.update_self] at hp
    cases hp
    exact ⟨id, t, hr, hmem⟩
  · rw [Function.update_of_ne hne] at hp
    exact hx.provided p' j' k' hp

theorem skeleton_writeProvider {k p : Nat} {buf : Bytes} {q : WriteRes}
    (he : relayEffect k (.call (.writeProvider p buf) q) w w') : w'.skeleton = w.skeleton := by
  cases q with
  | wrote m =>
    obtain ⟨e, hp, -, rfl⟩ := he
    exact World.skeleton_setProvider_of_eq hp rfl rfl
  | timeout =>
    cases he
    rfl
  | fault =>
    cases he
    rfl

theorem skeleton_recv {k : Nat} {q : ReadRes}
    (he : relayEffect k (.recv q) w w') : w'.skeleton = w.skeleton := by
  obtain ⟨c, up, hc, -, rfl⟩ := he
  exact World.skeleton_setConsumer_of_eq hc rfl rfl

theorem Routed.relaying {k : Nat} {r : Relay} {a : Act RelayCall RelayCall.Reply}
    {t : Proc RelayCall RelayCall.Reply (Except RelayError Unit)} (hw : Wired d w)
    (hx : Routed h w.skeleton) (hr : w.relays k = some r) (hs : r.task.Step a t)
    (he : relayEffect k a w w') :
    Routed h { w'.skeleton with
      relays := Function.update w'.skeleton.relays k (some (r.id, t)) } := by
  obtain ⟨c, hc, -, ⟨-, ph, htask, -⟩⟩ := (hw k).relay r hr
  have hrel := World.skeleton_relays hr
  have hheads : ∀ j, Heads r.task j →
      (⟨.insert r.id, ()⟩ : Sigma Call.Reply) ∈ (h j).calls :=
    fun j hj => hx.heads k r.id r.task j hrel hj
  rw [htask] at hs hheads
  obtain ⟨ph', rfl, hnext⟩ := RelayPhase.next_of_step hs
  -- only a relay that has found a pool, or an opener, turns to somebody
  have hnone : (∀ j, ph' ≠ .found j) → (∀ j, ph' ≠ .picked j) →
      ∀ j, Heads (ph'.task r.id) j → (⟨.insert r.id, ()⟩ : Sigma Call.Reply) ∈ (h j).calls := by
    intro hfound hpicked j hj
    rcases heads_task hj with h | h
    · exact absurd h (hfound j)
    · exact absurd h (hpicked j)
  cases hnext with
  | marked b =>
    rw [skeleton_recv he]
    exact hx.moves hrel (hnone (by simp) (by simp))
  | unmarked hq =>
    rw [skeleton_recv he]
    exact hx.moves hrel (hnone (by simp) (by simp))
  | found pool =>
    obtain ⟨hget, rfl⟩ := he
    refine hx.moves hrel fun j hj => ?_
    rcases heads_task hj with h | h
    · cases h
      exact hx.registered r.id pool hget.symm
    · cases h
  | missing =>
    obtain ⟨-, rfl⟩ := he
    exact hx.moves hrel (hnone (by simp) (by simp))
  | picked pool opener =>
    obtain ⟨hpick, rfl⟩ := he
    have hmem := hheads pool (.inl (RelayPhase.head_task _ _))
    obtain ⟨hfirst, hrest⟩ := CarrierPool.pick_of_single (hx.pooled r.id pool hmem)
    obtain rfl : opener = pool := Option.some.inj (hpick.trans hfirst)
    refine (hx.picks hrest).moves hrel fun j hj => ?_
    rcases heads_task hj with h | h
    · cases h
    · cases h
      exact hmem
  | dead pool =>
    obtain ⟨hpick, -⟩ := he
    have hmem := hheads pool (.inl (RelayPhase.head_task _ _))
    obtain ⟨hfirst, -⟩ := CarrierPool.pick_of_single (hx.pooled r.id pool hmem)
    cases hpick.trans hfirst
  | unavailable opener err =>
    cases he
    exact hx.moves hrel (hnone (by simp) (by simp))
  | opened opener p =>
    obtain ⟨-, rfl⟩ := he
    have hmem := hheads opener (.inr (RelayPhase.head_task _ _))
    rw [World.skeleton_setProvider]
    exact (hx.provides hrel hmem).moves hrel (hnone (by simp) (by simp))
  | ready p m =>
    rw [skeleton_writeProvider he]
    exact hx.moves hrel (hnone (by simp) (by simp))
  | unready p hq =>
    rw [skeleton_writeProvider he]
    exact hx.moves hrel (hnone (by simp) (by simp))
  | copied p q hres =>
    cases he
    exact hx.moves hrel (hnone (by simp) (by simp))

theorem Routed.happens {l : Happening} (hw : Wired d w) (hx : Routed h w.skeleton)
    (hs : Happens d l w w') : Routed h w'.skeleton := by
  cases hs.trace with
  | none _ hsame =>
    rw [hsame]
    exact hx
  | opens _ hnew hsame =>
    rw [hsame]
    refine hx.setConsumer _ fun i hi => ?_
    obtain ⟨c, hc, -⟩ := Option.map_eq_some_iff.mp hi
    rw [hnew] at hc
    cases hc
  | relaying _ hr hs he hsame =>
    rw [hsame]
    exact hx.relaying hw hr hs he

/-! ## What handlers do -/

/-- Handlers go on. -/
theorem Routed.logs {h' : Nat → Hist Call Call.Reply} {x : Skeleton} (hx : Routed h x)
    (hgrow : ∀ j c, c ∈ (h j).calls → c ∈ (h' j).calls)
    (hheld : ∀ j m k, standing (h' j) = some m → m.holding = some k →
      x.consumers k = some (j, true) ∧ x.relays k = none)
    (hpooled : ∀ id j, (⟨.insert id, ()⟩ : Sigma Call.Reply) ∈ (h' j).calls →
      (x.pools j).carriers = [.new j]) : Routed h' x := by
  refine ⟨hheld, ?_, ?_, hpooled, ?_, ?_⟩
  · intro k id t hr
    obtain ⟨i, hc, hmem⟩ := hx.relay k id t hr
    exact ⟨i, hc, hgrow i _ hmem⟩
  · intro id j hid
    exact hgrow j _ (hx.registered id j hid)
  · intro k id t j hr hj
    exact hgrow j _ (hx.heads k id t j hr hj)
  · intro p j k hp
    obtain ⟨id, t, hr, hmem⟩ := hx.provided p j k hp
    exact ⟨id, t, hr, hgrow j _ hmem⟩

/-- The handler of connection `i` goes on. -/
theorem Routed.log {s : System} {x : Skeleton} {i : Nat} {a : Act Call Call.Reply}
    {m : Handler} (hx : Routed s.hist x) (hm : standing (s.hist i ++ [a]) = some m)
    (hheld : ∀ k, m.holding = some k → x.consumers k = some (i, true) ∧ x.relays k = none)
    (hpooled : ∀ id, (⟨.insert id, ()⟩ : Sigma Call.Reply) ∈ Hist.calls [a] →
      (x.pools i).carriers = [.new i]) (w : World) : Routed (s.log i a w).hist x := by
  refine hx.logs ?_ ?_ ?_
  · intro j c hc
    by_cases hne : j = i
    · subst hne
      rw [Tasks.hist_log_self, Hist.calls_append]
      exact List.mem_append_left _ hc
    · rw [Tasks.hist_log_of_ne _ _ _ _ hne]
      exact hc
  · intro j m' k hm' hk
    by_cases hne : j = i
    · subst hne
      rw [Tasks.hist_log_self, hm] at hm'
      cases hm'
      exact hheld k hk
    · rw [Tasks.hist_log_of_ne _ _ _ _ hne] at hm'
      exact hx.held j m' k hm' hk
  · intro id j hmem
    by_cases hne : j = i
    · subst hne
      rw [Tasks.hist_log_self, Hist.calls_append] at hmem
      rcases List.mem_append.mp hmem with hmem | hmem
      · exact hx.pooled id j hmem
      · exact hpooled id hmem
    · rw [Tasks.hist_log_of_ne _ _ _ _ hne] at hmem
      exact hx.pooled id j hmem

/-- The registry changes. -/
theorem Routed.registers {x : Skeleton} (hx : Routed h x) (registry : Registry)
    (hreg : ∀ id j, registry id = some j →
      (⟨.insert id, ()⟩ : Sigma Call.Reply) ∈ (h j).calls) :
    Routed h { x with registry := registry } :=
  ⟨hx.held, hx.relay, hreg, hx.pooled, hx.heads, hx.provided⟩

/-- A relay is spawned for a substream that nobody holds any more. -/
theorem Routed.spawns {x : Skeleton} {i k : Nat} {id : String} (hx : Routed h x)
    (hc : x.consumers k = some (i, true)) (hr : x.relays k = none)
    (hmem : (⟨.enter .consumer id, ()⟩ : Sigma Call.Reply) ∈ (h i).calls)
    (hfree : ∀ j m, standing (h j) = some m → m.holding ≠ some k) :
    Routed h { x with
      relays := Function.update x.relays k (some (id, RelayPhase.waiting.task id)) } := by
  refine ⟨?_, ?_, hx.registered, hx.pooled, ?_, ?_⟩
  · intro j m k' hm hk'
    have hne : k' ≠ k := by
      rintro rfl
      exact hfree j m hm hk'
    refine ⟨(hx.held j m k' hm hk').1, ?_⟩
    show Function.update x.relays k _ k' = none
    rw [Function.update_of_ne hne]
    exact (hx.held j m k' hm hk').2
  · intro k' id' t hr'
    change Function.update x.relays k _ k' = _ at hr'
    by_cases hne : k' = k
    · subst hne
      rw [Function.update_self] at hr'
      cases hr'
      exact ⟨i, hc, hmem⟩
    · rw [Function.update_of_ne hne] at hr'
      exact hx.relay k' id' t hr'
  · intro k' id' t j hr' hj
    change Function.update x.relays k _ k' = _ at hr'
    by_cases hne : k' = k
    · subst hne
      rw [Function.update_self] at hr'
      cases hr'
      rcases heads_task hj with h | h
      · cases h
      · cases h
    · rw [Function.update_of_ne hne] at hr'
      exact hx.heads k' id' t j hr' hj
  · intro p j k' hp
    obtain ⟨id', t, hr', hmem'⟩ := hx.provided p j k' hp
    have hne : k' ≠ k := by
      rintro rfl
      rw [hr] at hr'
      cases hr'
    exact ⟨id', t, (Function.update_of_ne hne _ _).trans hr', hmem'⟩

end Routed

/-! ## Every reachable state -/

/-- The lines are in order, and they connect the right ends. -/
structure Connected (d : Deps) (s : System) : Prop where
  wired : Wired d s.shared
  routed : Routed s.hist s.shared.skeleton

section Connected

variable {d : Deps} {auth : Option Authenticator} {maxConns : Nat} {s : System}

theorem Connected.handler {i : Nat} {a : Act Call Call.Reply} {w : World} (h : Connected d s)
    (ht : Proc.Trace (handler d auth) (s.hist i ++ [a])) (he : handlerEffect i a s.shared w) :
    Connected d (s.log i a w) := by
  obtain ⟨m, m', hm, hm', hstep⟩ := handlerStep ht he
  have hheld := h.routed.held i m
  -- a handler that comes to hold nothing and enters nothing
  have hlog : ∀ w, m'.holding = none →
      (∀ id, (⟨.insert id, ()⟩ : Sigma Call.Reply) ∉ Hist.calls [a]) →
      Routed (s.log i a w).hist s.shared.skeleton := by
    intro w hnone hins
    refine h.routed.log hm' (fun k hk => ?_) (fun id hmem => absurd hmem (hins id)) w
    rw [hnone] at hk
    cases hk
  have hother : ∀ {e : Call} {q : e.Reply}, (∀ id, e ≠ .insert id) →
      ∀ id, (⟨.insert id, ()⟩ : Sigma Call.Reply) ∉ Hist.calls [.call e q] := by
    intro e q hne id hmem
    cases List.mem_singleton.mp hmem
    exact hne id rfl
  cases hstep with
  | @accept id k c hstands hc hconn hacc =>
    subst hconn
    have hnone : s.shared.relays k = none := by
      cases hr : s.shared.relays k with
      | none => rfl
      | some r =>
        obtain ⟨c₀, hc₀, haccepted, -⟩ := (h.wired k).relay r hr
        rw [hc] at hc₀
        cases hc₀
        rw [hacc] at haccepted
        cases haccepted
    have hcs := (h.wired k).consumer c hc
    refine ⟨h.wired.setConsumer hc ⟨hcs.opens.of_eq rfl rfl rfl, hcs.read⟩ (fun _ => rfl) rfl rfl,
      ?_⟩
    rw [Tasks.shared_log, World.skeleton_setConsumer]
    have hnew : ∀ i, s.shared.skeleton.consumers k ≠ some (i, true) := by
      intro i
      rw [World.skeleton_consumers hc, hacc]
      simp
    refine (h.routed.setConsumer (c.conn, true) hnew).log hm' (fun k' hk' => ?_)
      (fun id hmem => absurd hmem (hother (by simp) id)) _
    cases hk'
    exact ⟨Function.update_self _ _ _, congrArg (Option.map _) hnone⟩
  | acquire hstands hpermits =>
    refine ⟨h.wired.congr rfl rfl rfl, ?_⟩
    refine h.routed.log hm' (fun k hk => ?_) (fun id hmem => absurd hmem (hother (by simp) id)) _
    cases hk
    exact hheld _ hm (by rw [hstands]; rfl)
  | deny hstands hpermits =>
    exact ⟨h.wired.congr rfl rfl rfl, hlog _ rfl (hother (by simp))⟩
  | @spawn id k hstands =>
    obtain ⟨hcons, hnone⟩ := hheld k hm (by rw [hstands]; rfl)
    obtain ⟨c, hc, hpair⟩ := Option.map_eq_some_iff.mp hcons
    have hrel : s.shared.relays k = none := Option.map_eq_none_iff.mp hnone
    refine ⟨h.wired.spawns hc (congrArg Prod.snd hpair) hrel id, ?_⟩
    have hchannel : m.channel = some id := by rw [hstands]; rfl
    have hmem := enter_mem_of_channel hm hchannel
    rw [Tasks.shared_log, World.skeleton_setRelay]
    have hrouted := hlog (s.shared.setRelay k (.new id)) rfl (hother (by simp))
    refine hrouted.spawns hcons hnone ?_ ?_
    · rw [Tasks.hist_log_self, Hist.calls_append]
      exact List.mem_append_left _ hmem
    · intro j m₁ hm₁ hk
      have howner := (hrouted.held j m₁ k hm₁ hk).1
      rw [hcons] at howner
      cases howner
      rw [Tasks.hist_log_self, hm'] at hm₁
      cases hm₁
      cases hk
  | @enter id hstands =>
    refine ⟨h.wired.congr rfl rfl rfl, ?_⟩
    have hpools : Routed s.hist
        { s.shared.skeleton with pools := Function.update s.shared.pools i (.new i) } :=
      h.routed.picks rfl
    have hpool : (Function.update s.shared.pools i (.new i) i).carriers = [.new i] := by
      rw [Function.update_self]
      rfl
    have hrouted := hpools.log hm' (fun k hk => by cases hk) (fun id _ => hpool)
      { s.shared with registry := Function.update s.shared.registry id (some i)
                      pools := Function.update s.shared.pools i (.new i) }
    refine hrouted.registers (Function.update s.shared.registry id (some i)) ?_
    intro id' j hid
    by_cases hne : id' = id
    · subst hne
      rw [Function.update_self] at hid
      cases hid
      rw [Tasks.hist_log_self, Hist.calls_append]
      exact List.mem_append_right _ (List.mem_singleton_self _)
    · rw [Function.update_of_ne hne] at hid
      exact hrouted.registered id' j hid
  | @leave id hstands =>
    refine ⟨h.wired.congr rfl rfl rfl, ?_⟩
    have hrouted := hlog { s.shared with registry := Function.update s.shared.registry id none } rfl
      (hother (by simp))
    refine hrouted.registers (Function.update s.shared.registry id none) ?_
    intro id' j hid
    by_cases hne : id' = id
    · subst hne
      rw [Function.update_self] at hid
      cases hid
    · rw [Function.update_of_ne hne] at hid
      exact hrouted.registered id' j hid
  | quiet _ _ hnone hins => exact ⟨h.wired, hlog _ hnone hins⟩

theorem connected_start (d : Deps) (maxConns : Nat) :
    Connected d ⟨fun _ => [], .start maxConns⟩ := by
  refine ⟨fun k => ⟨?_, ?_, ?_, ?_, ?_⟩, ⟨?_, ?_, ?_, ?_, ?_, ?_⟩⟩
  · rintro c ⟨⟩
  · rintro c ⟨⟩
  · rintro r ⟨⟩
  · rintro r p ⟨⟩
  · rintro p e ⟨⟩
  · rintro i m k ⟨⟩ ⟨⟩
  · rintro k id t ⟨⟩
  · rintro id j ⟨⟩
  · rintro id j ⟨⟩
  · rintro k id t j ⟨⟩
  · rintro p j k ⟨⟩

theorem connected_of_reach (hr : ServerReach d auth maxConns s) : Connected d s := by
  induction hr with
  | init => exact connected_start d maxConns
  | step _ _ hs ih =>
    cases hs with
    | task ht he => exact ih.handler ht he
    | env he => exact ⟨ih.wired.happens he, ih.routed.happens ih.wired he⟩

end Connected

/-! ## Transparency and isolation -/

/-- The client of connection `i` is a source that was registered for the id. -/
def RegisteredOn (s : System) (i : Nat) (id : String) : Prop :=
  (⟨.insert id, ()⟩ : Sigma Call.Reply) ∈ (s.hist i).calls

/-- The client of connection `i` is a destination that was connected for the id. -/
def ConnectedOn (s : System) (i : Nat) (id : String) : Prop :=
  (⟨.enter .consumer id, ()⟩ : Sigma Call.Reply) ∈ (s.hist i).calls

/-- The relay of the consumer's substream `k` has the provider's substream `p` at its
other side. -/
def Spliced (w : World) (k p : Nat) : Prop := ∃ r, w.relays k = some r ∧ r.provider = some p

/-- What one can say of a state of the server if relays are transparent and keep apart
what does not belong together. -/
structure Transparent (s : System) : Prop where
  /-- what `accept_stream` has returned is spliced to what `open_stream` has returned,
  and source and destination have the same id -/
  paired : ∀ p e, s.shared.providers p = some e → e.task = some (.ret (.ok p)) →
    ∃ id k c, RegisteredOn s e.conn id ∧ (∀ id', RegisteredOn s e.conn id' → id' = id) ∧
      Spliced s.shared k p ∧ s.shared.consumers k = some c ∧ c.task = .ret (.ok k) ∧
      ConnectedOn s c.conn id
  /-- a substream is spliced to one other at most -/
  exclusive : ∀ k k' p p', Spliced s.shared k p → Spliced s.shared k' p' → (k = k' ↔ p = p')
  /-- a relay opens no other substream than that it has -/
  opened : ∀ p e, s.shared.providers p = some e → Spliced s.shared e.relay p
  /-- what the source's application has read, the destination's has written -/
  forth : ∀ k p c e, Spliced s.shared k p → s.shared.consumers k = some c →
    s.shared.providers p = some e → e.read <+: c.wrote
  /-- what the destination's application has read, the source's has written -/
  back : ∀ k p c e, Spliced s.shared k p → s.shared.consumers k = some c →
    s.shared.providers p = some e → c.read <+: e.wrote
  /-- an application without one at the other end reads nothing -/
  silent : ∀ k c, s.shared.consumers k = some c → (∀ p, ¬ Spliced s.shared k p) → c.read = []

section Transparent

variable {d : Deps} {auth : Option Authenticator} {maxConns : Nat} {s : System}

/-- A connection is registered for one id at most. -/
theorem registeredOn_unique (hr : ServerReach d auth maxConns s) {i : Nat} {id id' : String}
    (h : RegisteredOn s i id) (h' : RegisteredOn s i id') : id' = id := by
  obtain ⟨m, hm⟩ := exists_standing (hr.trace i)
  rcases standing_of_insert hm h with rfl | rfl
  · rcases standing_of_insert hm h' with heq | heq
    · cases heq
      rfl
    · cases heq
  · rcases standing_of_insert hm h' with heq | heq
    · cases heq
    · cases heq
      rfl

theorem Connected.opened (h : Connected d s) {p : Nat} {e : Provider}
    (hp : s.shared.providers p = some e) : Spliced s.shared e.relay p := by
  obtain ⟨-, r, hr, hprov⟩ := (h.wired e.relay).provider p e hp rfl
  exact ⟨r, hr, hprov⟩

/-- A spliced substream is one that the relay has opened. -/
theorem Connected.relay_of_spliced (h : Connected d s) {k p : Nat}
    (hk : Spliced s.shared k p) : ∃ e, s.shared.providers p = some e ∧ e.relay = k := by
  obtain ⟨r, hr, hprov⟩ := hk
  exact (h.wired k).opened r p hr hprov

theorem Connected.exclusive (h : Connected d s) {k k' p p' : Nat} (hk : Spliced s.shared k p)
    (hk' : Spliced s.shared k' p') : k = k' ↔ p = p' := by
  constructor
  · rintro rfl
    obtain ⟨r, hr, hprov⟩ := hk
    obtain ⟨r', hr', hprov'⟩ := hk'
    rw [hr] at hr'
    cases hr'
    exact Option.some.inj (hprov.symm.trans hprov')
  · rintro rfl
    obtain ⟨e, he, hrelay⟩ := h.relay_of_spliced hk
    obtain ⟨e', he', hrelay'⟩ := h.relay_of_spliced hk'
    rw [he] at he'
    cases he'
    exact hrelay.symm.trans hrelay'

/-- Whom a relay has opened a substream to is registered for the id of the
destination, which has its stream. -/
theorem Connected.paired (h : Connected d s) {p : Nat} {e : Provider}
    (hp : s.shared.providers p = some e) :
    ∃ id c, RegisteredOn s e.conn id ∧ s.shared.consumers e.relay = some c ∧
      c.task = .ret (.ok e.relay) ∧ ConnectedOn s c.conn id := by
  obtain ⟨-, r, hr, hprov⟩ := (h.wired e.relay).provider p e hp rfl
  obtain ⟨id, t, hrel, hmem⟩ :=
    h.routed.provided p e.conn e.relay (World.skeleton_providers hp)
  obtain ⟨i, hcons, henter⟩ := h.routed.relay e.relay id t hrel
  obtain ⟨c, hc, hpair⟩ := Option.map_eq_some_iff.mp hcons
  obtain rfl : c.conn = i := congrArg Prod.fst hpair
  exact ⟨id, c, hmem, hc, ((h.wired e.relay).opened_marked hr hprov hc).1, henter⟩

/-- Relays are transparent and isolate the channels: in every reachable state, whoever
has moved how far. -/
theorem relay_transparent (d : Deps) (auth : Option Authenticator) (maxConns : Nat) (s : System)
    (hr : ServerReach d auth maxConns s) : Transparent s := by
  have h := connected_of_reach hr
  refine ⟨?_, ?_, ?_, ?_, ?_, ?_⟩
  · intro p e hp _
    obtain ⟨id, c, hreg, hc, hopen, hconn⟩ := h.paired hp
    exact ⟨id, e.relay, c, hreg, fun id' => registeredOn_unique hr hreg, h.opened hp, hc, hopen,
      hconn⟩
  · intro k k' p p' hk hk'
    exact h.exclusive hk hk'
  · intro p e hp
    exact h.opened hp
  · rintro k p c e ⟨r, hr, hprov⟩ hc hp
    exact (h.wired k).forth hr hprov hc hp
  · rintro k p c e ⟨r, hr, hprov⟩ hc hp
    exact (h.wired k).back hr hprov hc hp
  · intro k c hc hnone
    refine (h.wired k).silent hc fun r hr => ?_
    cases hprov : r.provider with
    | none => rfl
    | some p => exact absurd ⟨r, hr, hprov⟩ (hnone p)

/-- A zero byte comes through: it is not taken for a marker. -/
theorem relay_transparent_zero :
    ∃ s e, ServerReach sampleDeps none 1 s ∧ s.shared.providers 0 = some e ∧
      e.task = some (.ret (.ok 0)) ∧ e.read = [0] ∧ Transparent s := by
  obtain ⟨s, c, hr, -, hc, -, hopen, hup, hrel, hp⟩ := exists_paired
  have hr₁ := hr.env (.accepts hp rfl (List.cons_ne_nil _ _) .call) ⟨trivial, fun _ _ => trivial⟩
  obtain ⟨down, hpull⟩ := Pipe.exists_pull (Pipe.empty.push [STREAM_READY]) [STREAM_READY]
    List.prefix_rfl
  have hr₂ := hr₁.env (.accepting (World.providers_setProvider _ _ _) rfl
    (acceptReady_marks sampleDeps 0) hpull) ⟨trivial, fun _ _ => trivial⟩
  have hdown : down.taken = down.put := by
    rw [hpull.taken, hpull.put]
    rfl
  obtain ⟨s', hr', e', hp', htask', hread'⟩ := exists_byte 0 hr₂ hc hopen hup hrel rfl rfl
    (World.providers_setProvider _ _ _) rfl hdown
  exact ⟨s', e', hr'.server, hp', htask', hread', relay_transparent sampleDeps none 1 s' hr'.server⟩

end Transparent

end RustBackup.Transport
