/-
  Transport/Permits.lean --- the server's semaphore.

  Source: crates/rb-transport/src/server.rs, `serve_consumer`, `relay`.

  A handler takes a permit for a substream that a destination has opened and gives it
  to the relay, which drops it when it has returned.  No permit is lost or made up on
  the way, whatever the clients do and in whatever order: the permits that are left,
  those in the hands of handlers and those of relays are `max_conns` in every state.
-/
import RustBackup.Io.Semaphore
import RustBackup.Transport.Isolation

set_option autoImplicit false

namespace RustBackup.Transport

open RustBackup.Serde RustBackup.Io RustBackup.Core

/-! ## Who holds a permit -/

/-- What can hold a permit. -/
inductive Holder where
  | handler (i : Nat)
  | relay (k : Nat)

/-- The handler has a permit in its hands. -/
def Handler.Granted : Handler → Prop
  | .granted _ _ => True
  | _ => False

theorem Handler.not_granted_of_holding {m : Handler} (h : m.holding = none) : ¬ m.Granted := by
  cases m with
  | granted id k => cases h
  | _ => exact fun h => h

/-- Those that hold one. -/
def holders (s : System) : Set Holder
  | .handler i => ∃ m, standing (s.hist i) = some m ∧ m.Granted
  | .relay k => ∃ r, s.shared.relays k = some r ∧ r.permit = true

/-- The relays that have not returned. -/
def running (s : System) : Set Nat := {k | ∃ r, s.shared.relays k = some r ∧ ¬ r.task.Finished}

/-- The semaphore is in order, and only a relay that has returned has dropped its permit. -/
structure Permitted (maxConns : Nat) (s : System) : Prop where
  accounts : Accounts maxConns s.shared.permits (holders s)
  released : ∀ k r, s.shared.relays k = some r → r.permit = false → r.task.Finished

section Handlers

variable {s : System} {i : Nat} {a : Act Call Call.Reply} {w : World} {m m' : Handler}

theorem handler_mem_log_of_ne {j : Nat} (hj : j ≠ i) :
    .handler j ∈ holders (s.log i a w) ↔ .handler j ∈ holders s := by
  show (∃ m, standing ((s.log i a w).hist j) = some m ∧ m.Granted) ↔ _
  rw [Tasks.hist_log_of_ne _ _ _ _ hj]
  exact Iff.rfl

theorem handler_mem_iff (hm : standing (s.hist i) = some m) :
    .handler i ∈ holders s ↔ m.Granted := by
  constructor
  · rintro ⟨m₁, hm₁, hgranted⟩
    rw [hm] at hm₁
    cases hm₁
    exact hgranted
  · exact fun hgranted => ⟨m, hm, hgranted⟩

theorem handler_mem_log_iff (hm' : standing (s.hist i ++ [a]) = some m') :
    .handler i ∈ holders (s.log i a w) ↔ m'.Granted := by
  apply handler_mem_iff
  rw [Tasks.hist_log_self]
  exact hm'

/-- Nothing changes hands. -/
theorem holders_log_eq (hm : standing (s.hist i) = some m)
    (hm' : standing (s.hist i ++ [a]) = some m') (hgranted : m.Granted ↔ m'.Granted)
    (hrelays : w.relays = s.shared.relays) : holders (s.log i a w) = holders s := by
  ext x
  cases x with
  | relay k =>
    show (∃ r, w.relays k = some r ∧ _) ↔ _
    rw [hrelays]
    exact Iff.rfl
  | handler j =>
    by_cases hj : j = i
    · subst hj
      rw [handler_mem_log_iff hm', handler_mem_iff hm]
      exact hgranted.symm
    · exact handler_mem_log_of_ne hj

/-- The handler takes a permit. -/
theorem holders_log_acquire (hm' : standing (s.hist i ++ [a]) = some m') (hgranted : m'.Granted)
    (hrelays : w.relays = s.shared.relays) :
    holders (s.log i a w) = insert (.handler i) (holders s) := by
  ext x
  cases x with
  | relay k =>
    rw [Set.mem_insert_iff, or_iff_right (by simp)]
    show (∃ r, w.relays k = some r ∧ _) ↔ _
    rw [hrelays]
    exact Iff.rfl
  | handler j =>
    by_cases hj : j = i
    · subst hj
      rw [handler_mem_log_iff hm']
      exact iff_of_true hgranted (Set.mem_insert _ _)
    · rw [handler_mem_log_of_ne hj, Set.mem_insert_iff, or_iff_right (by simpa using hj)]

/-- The handler gives its permit to a relay. -/
theorem holders_log_spawn {k : Nat} {id : String}
    (hm' : standing (s.hist i ++ [a]) = some m') (hgranted : ¬ m'.Granted) :
    holders (s.log i a (s.shared.setRelay k (.new id))) =
      insert (.relay k) (holders s \ {.handler i}) := by
  ext x
  cases x with
  | relay k' =>
    rw [Set.mem_insert_iff, Set.mem_sdiff]
    show (∃ r, (s.shared.setRelay k (.new id)).relays k' = some r ∧ _) ↔ _
    by_cases hk : k' = k
    · subst hk
      rw [World.relays_setRelay]
      exact iff_of_true ⟨_, rfl, rfl⟩ (.inl rfl)
    · rw [World.relays_setRelay_of_ne hk, or_iff_right (by simpa using hk)]
      exact ⟨fun h => ⟨h, by simp⟩, fun h => h.1⟩
  | handler j =>
    rw [Set.mem_insert_iff, or_iff_right (by simp), Set.mem_sdiff]
    by_cases hj : j = i
    · subst hj
      rw [handler_mem_log_iff hm']
      exact iff_of_false hgranted fun h => h.2 rfl
    · rw [handler_mem_log_of_ne hj]
      exact ⟨fun h => ⟨h, by simpa using hj⟩, fun h => h.1⟩

end Handlers

section Relays

variable {d : Deps} {h : Nat → Hist Call Call.Reply} {w w' : World} {k : Nat} {r r' : Relay}

/-- A relay moves and keeps its permit. -/
theorem holders_setRelay_eq (hr : w.relays k = some r) (hpermit : r'.permit = r.permit)
    (hrelays : w'.relays = w.relays) : holders ⟨h, w'.setRelay k r'⟩ = holders ⟨h, w⟩ := by
  ext x
  cases x with
  | handler j => exact Iff.rfl
  | relay k' =>
    show (∃ r, (w'.setRelay k r').relays k' = some r ∧ _) ↔ ∃ r, w.relays k' = some r ∧ _
    by_cases hk : k' = k
    · subst hk
      rw [World.relays_setRelay, hr]
      simp [hpermit]
    · rw [World.relays_setRelay_of_ne hk, hrelays]

/-- A relay drops its permit. -/
theorem holders_setRelay_release (hpermit : r'.permit = false) (hrelays : w'.relays = w.relays) :
    holders ⟨h, w'.setRelay k r'⟩ = holders ⟨h, w⟩ \ {.relay k} := by
  ext x
  cases x with
  | handler j => exact ⟨fun hx => ⟨hx, by simp⟩, fun hx => hx.1⟩
  | relay k' =>
    rw [Set.mem_sdiff]
    show (∃ r, (w'.setRelay k r').relays k' = some r ∧ _) ↔ (∃ r, w.relays k' = some r ∧ _) ∧ _
    by_cases hk : k' = k
    · subst hk
      rw [World.relays_setRelay]
      simp [hpermit]
    · rw [World.relays_setRelay_of_ne hk, hrelays]
      simp [hk]

/-- What a relay does to the permits and to the relays. -/
theorem relayEffect_same {a : Act RelayCall RelayCall.Reply} (he : relayEffect k a w w') :
    w'.permits = w.permits ∧ w'.relays = w.relays := by
  cases a with
  | recv q =>
    obtain ⟨c, up, -, -, rfl⟩ := he
    exact ⟨rfl, rfl⟩
  | send buf q => exact he.elim
  | call x q =>
    cases x with
    | get id =>
      obtain ⟨-, rfl⟩ := he
      exact ⟨rfl, rfl⟩
    | pick pool =>
      obtain ⟨-, rfl⟩ := he
      exact ⟨rfl, rfl⟩
    | openProvider opener =>
      cases q with
      | ok p =>
        obtain ⟨-, rfl⟩ := he
        exact ⟨rfl, rfl⟩
      | error msg =>
        cases he
        exact ⟨rfl, rfl⟩
    | writeProvider p buf =>
      cases q with
      | wrote m =>
        obtain ⟨e, -, -, rfl⟩ := he
        exact ⟨rfl, rfl⟩
      | timeout =>
        cases he
        exact ⟨rfl, rfl⟩
      | fault =>
        cases he
        exact ⟨rfl, rfl⟩
    | copyBidirectional p =>
      cases he
      exact ⟨rfl, rfl⟩

/-- A relay that has returned does nothing any more. -/
theorem not_finished_of_step {a : Act RelayCall RelayCall.Reply}
    {t t' : Proc RelayCall RelayCall.Reply (Except RelayError Unit)} (hs : t.Step a t') :
    ¬ t.Finished := by
  rintro ⟨x, rfl⟩
  cases hs

end Relays

/-! ## Every step keeps the permits in order -/

section Permitted

variable {d : Deps} {auth : Option Authenticator} {maxConns : Nat} {s : System}

theorem permitted_start (maxConns : Nat) : Permitted maxConns ⟨fun _ => [], .start maxConns⟩ := by
  have hnone : holders ⟨fun _ => [], .start maxConns⟩ = ∅ := by
    rw [Set.eq_empty_iff_forall_notMem]
    rintro (i | k)
    · rintro ⟨m, ⟨⟩, hgranted⟩
      exact hgranted
    · rintro ⟨r, ⟨⟩, -⟩
  refine ⟨?_, fun k r hr => (by cases hr)⟩
  rw [hnone]
  exact .start maxConns

/-- A relay gets on. -/
theorem Permitted.setRelay {h : Nat → Hist Call Call.Reply} {w w' : World} {k : Nat}
    {r r' : Relay} (hp : Permitted maxConns ⟨h, w⟩) (hr : w.relays k = some r)
    (hpermit : r'.permit = r.permit) (hdone : r.task.Finished → r'.task.Finished)
    (hsame : w'.permits = w.permits ∧ w'.relays = w.relays) :
    Permitted maxConns ⟨h, w'.setRelay k r'⟩ := by
  obtain ⟨hpermits, hrelays⟩ := hsame
  refine ⟨?_, fun k₁ r₁ hr₁ hdropped => ?_⟩
  · rw [holders_setRelay_eq hr hpermit hrelays]
    show Accounts maxConns w'.permits _
    rw [hpermits]
    exact hp.accounts
  · change (w'.setRelay k r').relays k₁ = some r₁ at hr₁
    by_cases hk : k₁ = k
    · subst hk
      rw [World.relays_setRelay] at hr₁
      cases hr₁
      exact hdone (hp.released k₁ r hr (hpermit.symm.trans hdropped))
    · rw [World.relays_setRelay_of_ne hk, hrelays] at hr₁
      exact hp.released k₁ r₁ hr₁ hdropped

theorem Permitted.congr {h : Nat → Hist Call Call.Reply} {w w' : World}
    (hp : Permitted maxConns ⟨h, w⟩) (hpermits : w'.permits = w.permits)
    (hrelays : w'.relays = w.relays) : Permitted maxConns ⟨h, w'⟩ := by
  have hsame : holders ⟨h, w'⟩ = holders ⟨h, w⟩ := by
    ext x
    cases x with
    | handler j => exact Iff.rfl
    | relay k =>
      show (∃ r, w'.relays k = some r ∧ _) ↔ _
      rw [hrelays]
      exact Iff.rfl
  refine ⟨?_, ?_⟩
  · rw [hsame]
    show Accounts maxConns w'.permits _
    rw [hpermits]
    exact hp.accounts
  · intro k r hr
    exact hp.released k r ((congrFun hrelays k).symm.trans hr)

/-- Something happens besides interactions of handlers. -/
theorem Permitted.happens {h : Nat → Hist Call Call.Reply} {w w' : World} {l : Happening}
    (hp : Permitted maxConns ⟨h, w⟩) (hs : Happens d l w w') : Permitted maxConns ⟨h, w'⟩ := by
  cases hs with
  | relaying hr hs he =>
    exact hp.setRelay hr rfl (fun hdone => absurd hdone (not_finished_of_step hs))
      (relayEffect_same he)
  | @releases _ k r hr hdone hpermit =>
    refine ⟨?_, fun k₁ r₁ hr₁ hdropped => ?_⟩
    · rw [holders_setRelay_release rfl rfl]
      exact hp.accounts.release ⟨r, hr, hpermit⟩
    · change (World.setRelay _ k _).relays k₁ = some r₁ at hr₁
      by_cases hk : k₁ = k
      · subst hk
        rw [World.relays_setRelay] at hr₁
        cases hr₁
        exact hdone
      · rw [World.relays_setRelay_of_ne hk] at hr₁
        exact hp.released k₁ r₁ hr₁ hdropped
  | takeForth hr _ _ _ => exact hp.setRelay hr rfl (fun h => h) ⟨rfl, rfl⟩
  | giveForth hr _ _ _ => exact hp.setRelay hr rfl (fun h => h) ⟨rfl, rfl⟩
  | takeBack hr _ _ _ => exact hp.setRelay hr rfl (fun h => h) ⟨rfl, rfl⟩
  | giveBack hr _ _ _ => exact hp.setRelay hr rfl (fun h => h) ⟨rfl, rfl⟩
  | opens _ _ => exact hp.congr rfl rfl
  | opening _ _ => exact hp.congr rfl rfl
  | accepts _ _ _ _ => exact hp.congr rfl rfl
  | accepting _ _ _ _ => exact hp.congr rfl rfl
  | consumerWrites _ _ _ => exact hp.congr rfl rfl
  | consumerReads _ _ _ => exact hp.congr rfl rfl
  | providerWrites _ _ _ => exact hp.congr rfl rfl
  | providerReads _ _ _ => exact hp.congr rfl rfl

/-- A handler interacts. -/
theorem Permitted.handler (hp : Permitted maxConns s) (hconn : Connected d s) {i : Nat}
    {a : Act Call Call.Reply} {w : World}
    (ht : Proc.Trace (Transport.handler d auth) (s.hist i ++ [a]))
    (he : handlerEffect i a s.shared w) : Permitted maxConns (s.log i a w) := by
  obtain ⟨m, m', hm, hm', hstep⟩ := handlerStep ht he
  have hquiet : ∀ w', (m.Granted ↔ m'.Granted) → w'.permits = s.shared.permits →
      w'.relays = s.shared.relays → Permitted maxConns (s.log i a w') := by
    intro w' hgranted hpermits hrelays
    refine ⟨?_, fun k r hr => hp.released k r ((congrFun hrelays k).symm.trans hr)⟩
    rw [holders_log_eq hm hm' hgranted hrelays]
    show Accounts maxConns w'.permits _
    rw [hpermits]
    exact hp.accounts
  cases hstep with
  | accept hstands _ _ _ =>
    subst hstands
    exact hquiet _ Iff.rfl rfl rfl
  | deny hstands hpermits =>
    subst hstands
    refine hquiet _ Iff.rfl ?_ rfl
    show s.shared.permits - 1 = s.shared.permits
    rw [hpermits]
  | acquire hstands hpermits =>
    subst hstands
    have hacquired := holders_log_acquire (s := s) (w := { s.shared with
      permits := s.shared.permits - 1 }) hm' trivial rfl
    refine ⟨?_, hp.released⟩
    rw [hacquired]
    refine hp.accounts.acquire (fun hmem => ?_) hpermits
    exact (handler_mem_iff hm).mp hmem
  | @spawn id k hstands =>
    subst hstands
    have hnone := (hconn.routed.held i _ k hm rfl).2
    have hrel : s.shared.relays k = none := Option.map_eq_none_iff.mp hnone
    refine ⟨?_, fun k₁ r₁ hr₁ hdropped => ?_⟩
    · rw [holders_log_spawn hm' fun h => h]
      refine hp.accounts.handOver ((handler_mem_iff hm).mpr trivial) ?_
      rintro ⟨r, hr, -⟩
      rw [hrel] at hr
      cases hr
    · change (s.shared.setRelay k (.new id)).relays k₁ = some r₁ at hr₁
      by_cases hk : k₁ = k
      · subst hk
        rw [World.relays_setRelay] at hr₁
        cases hr₁
        cases hdropped
      · rw [World.relays_setRelay_of_ne hk] at hr₁
        exact hp.released k₁ r₁ hr₁ hdropped
  | enter hstands =>
    subst hstands
    exact hquiet _ Iff.rfl rfl rfl
  | leave hstands =>
    subst hstands
    exact hquiet _ Iff.rfl rfl rfl
  | quiet hholding _ hholding' _ =>
    exact hquiet _ (iff_of_false (Handler.not_granted_of_holding hholding)
      (Handler.not_granted_of_holding hholding')) rfl rfl

theorem permitted_of_reach (hr : ServerReach d auth maxConns s) : Permitted maxConns s := by
  induction hr with
  | init => exact permitted_start maxConns
  | step hr _ hs ih =>
    cases hs with
    | task ht he => exact ih.handler (connected_of_reach hr) ht he
    | env he => exact ih.happens he

/-- In every state the permits that are left and those that are held are `max_conns`, so
no more than `max_conns` relays run at a time. -/
theorem permits_conserved (hr : ServerReach d auth maxConns s) :
    (holders s).Finite ∧ s.shared.permits + (holders s).ncard = maxConns ∧
      (running s).Finite ∧ (running s).ncard ≤ maxConns := by
  have hp := permitted_of_reach hr
  have hinj : Function.Injective Holder.relay := fun _ _ h => Holder.relay.inj h
  have hsub : Holder.relay '' running s ⊆ holders s := by
    rintro _ ⟨k, ⟨r, hrel, hrunning⟩, rfl⟩
    refine ⟨r, hrel, ?_⟩
    by_contra hdropped
    exact hrunning (hp.released k r hrel (Bool.eq_false_of_not_eq_true hdropped))
  obtain ⟨hfinite, hcard⟩ := hp.accounts.ncard_le_of_subset hsub
  rw [Set.ncard_image_of_injective _ hinj] at hcard
  exact ⟨hp.accounts.finite, hp.accounts.total, hfinite.of_finite_image hinj.injOn, hcard⟩

/-- A relay of a server with one permit has it. -/
theorem permits_conserved_one :
    ∃ s : System, ServerReach sampleDeps none 1 s ∧ .relay 0 ∈ holders s ∧
      s.shared.permits + (holders s).ncard = 1 := by
  obtain ⟨s, c, hr, -, -, -, -, -, hrel, -⟩ := exists_paired
  exact ⟨s, hr.server, ⟨_, hrel, rfl⟩, (permits_conserved hr.server).2.1⟩

end Permitted

end RustBackup.Transport
