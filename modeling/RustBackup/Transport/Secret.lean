/-
  Transport/Secret.lean --- a server with a secret serves nobody.

  Sources: crates/rb-transport/src/{server,auth,proto}.rs.

  The challenge has no JSON form, so every handshake of a server with a secret fails.
  That a single handler serves nobody is `never_entered`; here is what it means for the
  server: whatever its clients do, nothing is registered, no permit is taken, no relay
  is spawned and no substream is handed out.
-/
import RustBackup.Transport.Handshake
import RustBackup.Transport.Permits

set_option autoImplicit false

namespace RustBackup.Transport

open RustBackup.Serde RustBackup.Io RustBackup.Core

/-- Nothing was done for anybody. -/
structure Untouched (maxConns : Nat) (w : World) : Prop where
  registry : w.registry = .empty
  permits : w.permits = maxConns
  relays : ∀ k, w.relays k = none
  providers : ∀ p, w.providers p = none
  /-- the acceptors of the connections keep every substream -/
  consumers : ∀ k c, w.consumers k = some c → c.accepted = false

/-- A handler that has entered no serve function stands at its beginning. -/
theorem standing_of_outside {h : Hist Call Call.Reply} {m : Handler} (hout : Outside h)
    (hm : standing h = some m) : m = .fresh := by
  refine Proc.after_keeps Handler.next (P := fun m => m = .fresh) rfl ?_ hm
  rintro m c m' rfl hmem hnext
  cases Handler.next_cases hnext with
  | stay _ _ => rfl
  | provide id => exact absurd hmem (hout .provider id)
  | consume id => exact absurd hmem (hout .consumer id)

section Secret

variable {d : Deps} {a : Authenticator} {maxConns : Nat} {s : System}

theorem outside_of_trace {h : Hist Call Call.Reply}
    (ht : Proc.Trace (handler d (some a)) h) : Outside h := by
  obtain ⟨n, hn⟩ := ht
  obtain ⟨q, hrun⟩ := hn n (Nat.le_refl n)
  unfold handler at hrun
  exact never_entered d n a hrun

/-- A handler that stands at its beginning does nothing that others notice. -/
theorem Untouched.handler {w w' : World} {i : Nat} {b : Act Call Call.Reply} {m' : Handler}
    (hw : Untouched maxConns w) (hs : HandlerStep i w .fresh b w' m') : Untouched maxConns w' := by
  cases hs with
  | accept hm => cases hm
  | acquire hm => cases hm
  | deny hm => cases hm
  | spawn hm => cases hm
  | enter hm => cases hm
  | leave hm => cases hm
  | quiet _ _ _ _ => exact hw

/-- Without relays the substreams of the destinations are all that there is. -/
theorem Untouched.happens {w w' : World} {l : Happening} (hw : Untouched maxConns w)
    (hs : Happens d l w w') : Untouched maxConns w' := by
  have hrelay : ∀ {k r}, w.relays k ≠ some r := fun {k r} hr => by
    rw [hw.relays k] at hr
    cases hr
  have hprovider : ∀ {p e}, w.providers p ≠ some e := fun {p e} hp => by
    rw [hw.providers p] at hp
    cases hp
  have hset : ∀ {k c}, c.accepted = false → Untouched maxConns (w.setConsumer k c) := by
    intro k c hacc
    refine ⟨hw.registry, hw.permits, hw.relays, hw.providers, fun k' c' hc' => ?_⟩
    by_cases hk : k' = k
    · subst hk
      rw [World.consumers_setConsumer] at hc'
      cases hc'
      exact hacc
    · rw [World.consumers_setConsumer_of_ne hk] at hc'
      exact hw.consumers k' c' hc'
  cases hs with
  | opens _ _ => exact hset rfl
  | opening hc _ =>
    have hacc := hw.consumers _ _ hc
    exact hset hacc
  | consumerWrites _ hc _ =>
    have hacc := hw.consumers _ _ hc
    exact hset hacc
  | consumerReads hc _ _ =>
    have hacc := hw.consumers _ _ hc
    exact hset hacc
  | relaying hr _ _ => exact absurd hr hrelay
  | releases hr _ _ => exact absurd hr hrelay
  | takeForth hr _ _ _ => exact absurd hr hrelay
  | giveForth hr _ _ _ => exact absurd hr hrelay
  | takeBack hr _ _ _ => exact absurd hr hrelay
  | giveBack hr _ _ _ => exact absurd hr hrelay
  | accepts hp _ _ _ => exact absurd hp hprovider
  | accepting hp _ _ _ => exact absurd hp hprovider
  | providerWrites _ hp _ => exact absurd hp hprovider
  | providerReads hp _ _ => exact absurd hp hprovider

/-- In every state of a server with a secret, whoever connects with whatever secret,
nobody is registered, every permit is left, there is no relay, and no substream of a
destination was handed out or has given its application a byte. -/
theorem secret_server_idle (hr : ServerReach d (some a) maxConns s) :
    Untouched maxConns s.shared ∧ ∀ k c, s.shared.consumers k = some c → c.read = [] := by
  have hw : Untouched maxConns s.shared := by
    induction hr with
    | init => exact ⟨rfl, rfl, fun _ => rfl, fun _ => rfl, fun k c hc => (by cases hc)⟩
    | @step s s' e hr' _ hs ih =>
      cases hs with
      | env he => exact ih.happens he
      | @task _ i b w' ht he =>
        have ht' : Proc.Trace (Transport.handler d (some a)) (s.hist i ++ [b]) := ht
        obtain ⟨m, m', hm, -, hstep⟩ := handlerStep ht' he
        obtain rfl := standing_of_outside (outside_of_trace ht'.of_append) hm
        exact ih.handler hstep
  refine ⟨hw, fun k c hc => ?_⟩
  refine ((connected_of_reach hr).wired k).silent hc fun r hrel => ?_
  rw [hw.relays k] at hrel
  cases hrel

/-- A handler that has read a request and wants to send its challenge gives up. -/
theorem run_challenge {msg : ClientMsg} {json : Bytes} (hjson : encode d.json msg = some json)
    (hlen : (json ++ [0]).length ≤ READ_SIZE) (uuid : Uuid) (n : Nat) :
    (handler d (some a) (n + 1)).Run (opening json ++ [.call .newV4 uuid])
      (.ret (.error .json, [])) := by
  have haccept : (handler d (some a) (n + 1)).Run [.call .acceptControl true]
      ((recvLoop ClientMsg d.json (n + 1) []).bind
        (Control.cont fun first => do a.serverHandshake d (n + 1); dispatch d (n + 1) first)) :=
    .tail (.refl _) .call
  have hask : ((do a.serverHandshake d (n + 1); dispatch d (n + 1) (some msg) :
      Control ControlError Unit).run []).Step (.call .newV4 uuid) (.ret (.error .json, [])) :=
    .call
  exact (haccept.trans ((run_recvLoop hjson hlen n).bind _)).tail hask

/-- A destination's request is read, but it cannot be challenged: the handler gives up, the
registry and the permits are as they were, and nothing comes out of the substream that
the destination has opened. -/
theorem secret_server_idle_opened :
    ∃ s c, ServerReach sampleDeps (some ⟨"s3cr3t"⟩) 1 s ∧
      (∀ n, (handler sampleDeps (some ⟨"s3cr3t"⟩) (n + 1)).Run (s.hist 0)
        (.ret (.error .json, []))) ∧
      s.shared.consumers 0 = some c ∧ Untouched 1 s.shared ∧ c.read = [] := by
  obtain ⟨json, -, hjson, hlen, -⟩ := exists_connect
  obtain ⟨uuid⟩ : Nonempty Uuid := ⟨⟨List.replicate 16 0, rfl⟩⟩
  have hopens : Happens sampleDeps (.opens 0 0) (.start 1) _ := .opens rfl .call
  have hr : ServerReach sampleDeps (some ⟨"s3cr3t"⟩) 1 _ := .step .init trivial (.env hopens)
  have hrun : ∀ n, (handler sampleDeps (some ⟨"s3cr3t"⟩) (n + 1)).Run
      (opening json ++ [.call .newV4 uuid]) (.ret (.error .json, [])) :=
    fun n => run_challenge hjson hlen uuid n
  have htrace : Proc.Trace (handler sampleDeps (some ⟨"s3cr3t"⟩))
      (opening json ++ [.call .newV4 uuid]) := .of_add 1 fun n => ⟨_, hrun n⟩
  have heffect : ∀ b ∈ opening json ++ [.call .newV4 uuid], ∀ w, handlerEffect 0 b w w := by
    intro b hb w
    obtain rfl | rfl | rfl : b = .call .acceptControl true ∨ b = .recv (.data (json ++ [0])) ∨
        b = .call .newV4 uuid := by simpa [opening] using hb
    · exact ⟨_, rfl, rfl⟩
    · exact ⟨_, rfl, rfl⟩
    · exact ⟨_, rfl, rfl⟩
  obtain ⟨s, hr', hshared, hself, -⟩ := hr.stretch (i := 0) htrace (fun _ _ _ => trivial)
    fun b hb => heffect b hb _
  have hc := (congrArg (fun w => w.consumers 0) hshared).trans (World.consumers_setConsumer _ 0 _)
  obtain ⟨huntouched, hread⟩ := secret_server_idle hr'
  refine ⟨s, _, hr', fun n => ?_, hc, huntouched, hread 0 _ hc⟩
  rw [hself]
  exact hrun n

end Secret

end RustBackup.Transport
