/-
  Transport/Registry.lean --- who owns a channel id.

  Source: crates/rb-transport/src/server.rs, `serve_provider` and `DropGuard`.

  Handlers share the registry.  Each of its operations is atomic, but looking an id up
  and entering it are two of them, so another handler can come in between.  As long as
  no handler enters an id that has been entered in the meantime, the registry is in
  step with the handlers: an id is assigned to the one handler that is past its
  registration.
-/
import RustBackup.Transport.Handler

set_option autoImplicit false

namespace RustBackup.Transport

open RustBackup.Serde RustBackup.Io

/-! ## Handlers around a registry -/

/-- `Registry`: under each id, the connection whose carrier pool is entered. -/
abbrev Registry : Type := String → Option Nat

/-- What an interaction of the handler of connection `i` does to the registry. -/
def registryEffect (i : Nat) : Act Call Call.Reply → Registry → Registry → Prop
  | .call (.containsKey id) taken, r, r' => taken = (r id).isSome ∧ r' = r
  | .call (.insert id) _, r, r' => r' = Function.update r id (some i)
  | .call (.remove id) _, r, r' => r' = Function.update r id none
  | _, r, r' => r' = r

/-- The handler of a connection. -/
def handler (d : Deps) (auth : Option Authenticator) (n : Nat) :
    Proc Call Call.Reply (Except ControlError Unit × Bytes) :=
  (handleConn d n auth).run []

/-- A server with any number of connections: their handlers, whose clients send
whatever they like. -/
def handlers (d : Deps) (auth : Option Authenticator) :
    Host Nat Call Call.Reply (Except ControlError Unit × Bytes) Registry Empty where
  prog _ := handler d auth
  effect := registryEffect
  env l := l.elim

/-- What the handlers have done, and the registry. -/
abbrev Handlers : Type := Tasks Nat Call Call.Reply Registry

/-- An empty registry. -/
def Registry.empty : Registry := fun _ => none

section Ownership

variable (d : Deps) (auth : Option Authenticator)

/-- The handler of connection `i` is past its registration for `id` and has not
returned. -/
def Holds (s : Handlers) (id : String) (i : Nat) : Prop :=
  (⟨.insert id, ()⟩ : Sigma Call.Reply) ∈ (s.hist i).calls ∧
    ¬ Proc.Ended (handler d auth) (s.hist i)

/-- The handler of connection `i` found its id taken. -/
def Refused (s : Handlers) (i : Nat) : Prop :=
  ∃ id, (⟨.containsKey id, true⟩ : Sigma Call.Reply) ∈ (s.hist i).calls

/-- A handler that was refused does not change the registry. -/
def RefusalsKeep (s : Handlers) : Prop :=
  ∀ i a s', (handlers d auth).Step (.task i a) s s' → Refused s' i → s'.shared = s.shared

/-- Channel ids have owners. -/
structure Ownership (s : Handlers) : Prop where
  /-- one handler at a time is past its registration for an id -/
  unique : ∀ id i j, Holds d auth s id i → Holds d auth s id j → i = j
  /-- its own pool is in the registry until it returns -/
  own : ∀ id i, Holds d auth s id i → s.shared id = some i
  /-- an id nobody holds is not in the registry -/
  vacant : ∀ id, (∀ i, ¬ Holds d auth s id i) → s.shared id = none
  /-- a refused registration leaves the registry alone -/
  refused : RefusalsKeep d auth s

/-- A step enters no id that is in the registry. -/
def EntersVacant (s : Handlers) : Event Nat Call Call.Reply Empty → Prop
  | .task _ (.call (.insert id) _) => s.shared id = none
  | _ => True

end Ownership

/-! ## What a handler's calls say about where it stands -/

/-- Where the handler with this history stands. -/
def standing (h : Hist Call Call.Reply) : Option Handler := Proc.after Handler.next .fresh h

section Standing

variable {d : Deps} {auth : Option Authenticator} {h : Hist Call Call.Reply}

theorem conforms_handler (d : Deps) (auth : Option Authenticator) (n : Nat) :
    (handler d auth n).Conforms Handler.next Handler.Acts (fun m o => Returns m o.1) .fresh :=
  conforms_handleConn d n auth []

theorem exists_standing (ht : Proc.Trace (handler d auth) h) : ∃ m, standing h = some m :=
  ht.after (conforms_handler d auth)

/-- A handler has returned only where it may. -/
theorem ends_of_ended {m : Handler} (he : Proc.Ended (handler d auth) h)
    (hm : standing h = some m) : m.Ends := by
  obtain ⟨m', a, hm', hq⟩ := he.after (conforms_handler d auth)
  rw [standing, hm'] at hm
  cases hm
  exact hq

/-- A handler whose guard was dropped has returned. -/
theorem ended_of_gone {id : String} (ht : Proc.Trace (handler d auth) h)
    (hm : standing h = some (.gone id)) : Proc.Ended (handler d auth) h := by
  refine ht.ended (conforms_handler d auth) hm fun k => ?_
  cases k with
  | _ => exact fun h => h

/-- Who made an entry is registered, or gone. -/
theorem standing_of_insert {id : String} {m : Handler} (hm : standing h = some m)
    (hmem : (⟨.insert id, ()⟩ : Sigma Call.Reply) ∈ h.calls) :
    m = .registered id ∨ m = .gone id := by
  refine Proc.after_of_mem Handler.next (P := fun m => m = .registered id ∨ m = .gone id)
    ?_ ?_ hm hmem
  · intro m m' hnext
    cases Handler.next_cases hnext with
    | stay hm hc => exact hc.elim
    | register => exact .inl rfl
  · intro m c m' hP hnext
    rcases hP with rfl | rfl
    · cases Handler.next_cases hnext with
      | stay hm hc => exact .inl rfl
      | leave => exact .inr rfl
    · cases Handler.next_cases hnext with
      | stay hm hc => exact hm.elim

theorem insert_mem_of_registered {id : String} (hm : standing h = some (.registered id)) :
    (⟨.insert id, ()⟩ : Sigma Call.Reply) ∈ h.calls := by
  refine Proc.mem_of_after Handler.next (P := fun m => m = .registered id) (by simp) ?_ hm rfl
  rintro m c m' hP hnext rfl
  cases Handler.next_cases hnext with
  | stay hm hc => exact absurd rfl hP
  | register => rfl

/-- Who makes an entry has found the id free. -/
theorem standing_insert {id : String}
    (ht : Proc.Trace (handler d auth) (h ++ [.call (.insert id) ()])) :
    standing h = some (.cleared id) ∧
      standing (h ++ [.call (.insert id) ()]) = some (.registered id) := by
  obtain ⟨m, m', hm, -, hnext⟩ := ht.call (conforms_handler d auth)
  have hm' := (Proc.after_concat_call Handler.next hm _ _).trans hnext
  cases Handler.next_cases hnext with
  | stay _ hc => exact hc.elim
  | register => exact ⟨hm, hm'⟩

/-- Who was refused stays refused. -/
theorem standing_of_refusal {id : String} {m : Handler} (hm : standing h = some m)
    (hmem : (⟨.containsKey id, true⟩ : Sigma Call.Reply) ∈ h.calls) : m = .refused id := by
  refine Proc.after_of_mem Handler.next (P := fun m => m = .refused id) ?_ ?_ hm hmem
  · intro m m' hnext
    cases Handler.next_cases hnext with
    | stay hm hc => exact hc.elim
    | refuse => rfl
  · rintro m c m' rfl hnext
    cases Handler.next_cases hnext with
    | stay hm hc => rfl

theorem registryEffect_private {i : Nat} {e : Call} {q : e.Reply} {r r' : Registry}
    (hc : Handler.Private ⟨e, q⟩) (he : registryEffect i (.call e q) r r') : r' = r := by
  cases e with
  | containsKey id => exact hc.elim
  | insert id => exact hc.elim
  | remove id => exact hc.elim
  | _ => exact he

/-- What an interaction of a handler does to the registry and to its registration. -/
inductive RegistryStep (i : Nat) (a : Act Call Call.Reply) (r : Registry) (m : Handler) :
    Registry → Handler → Prop where
  | enter {id : String} (ha : a = .call (.insert id) ()) (hm : m = .cleared id) :
      RegistryStep i a r m (Function.update r id (some i)) (.registered id)
  | leave {id : String} (hm : m = .registered id) :
      RegistryStep i a r m (Function.update r id none) (.gone id)
  | keep {m' : Handler} (hm : ∀ id, m' = .registered id ↔ m = .registered id) :
      RegistryStep i a r m r m'

theorem registryStep {i : Nat} {a : Act Call Call.Reply} {r r' : Registry}
    (ht : Proc.Trace (handler d auth) (h ++ [a])) (he : registryEffect i a r r') :
    ∃ m m', standing h = some m ∧ standing (h ++ [a]) = some m' ∧
      RegistryStep i a r m r' m' := by
  cases a with
  | recv q =>
    obtain ⟨m, hm⟩ := exists_standing ht.of_append
    cases he
    exact ⟨m, m, hm, (Proc.after_concat _ rfl).trans hm, .keep fun _ => Iff.rfl⟩
  | send bs q =>
    obtain ⟨m, hm⟩ := exists_standing ht.of_append
    cases he
    exact ⟨m, m, hm, (Proc.after_concat _ rfl).trans hm, .keep fun _ => Iff.rfl⟩
  | call e q =>
    obtain ⟨m, m', hm, -, hnext⟩ := ht.call (conforms_handler d auth)
    refine ⟨m, m', hm, (Proc.after_concat_call _ hm e q).trans hnext, ?_⟩
    cases Handler.next_cases hnext with
    | stay _ hc =>
      cases registryEffect_private hc he
      exact .keep fun _ => Iff.rfl
    | register =>
      cases he
      exact .enter rfl rfl
    | leave =>
      cases he
      exact .leave rfl
    | provide => cases he; exact .keep (by simp)
    | consume => cases he; exact .keep (by simp)
    | refuse => cases he.2; exact .keep (by simp)
    | clear => cases he.2; exact .keep (by simp)
    | offer => cases he; exact .keep (by simp)
    | grant => cases he; exact .keep (by simp)
    | deny => cases he; exact .keep (by simp)
    | spawn => cases he; exact .keep (by simp)

end Standing

/-! ## The registry is in step with the handlers -/

/-- The registry assigns an id to a connection exactly if its handler is registered for
it. -/
def InStep (s : Handlers) : Prop :=
  ∀ id i, s.shared id = some i ↔ standing (s.hist i) = some (.registered id)

section InStep

variable {d : Deps} {auth : Option Authenticator} {s s' : Handlers}

theorem InStep.step {e : Event Nat Call Call.Reply Empty} (hin : InStep s)
    (hok : EntersVacant s e) (hs : (handlers d auth).Step e s s') : InStep s' := by
  cases hs with
  | @env s l x he => exact l.elim
  | @task s i a r ht he =>
    obtain ⟨m, m', hm, hm', hstep⟩ := registryStep ht he
    intro id j
    show r id = some j ↔ _
    by_cases hj : j = i
    · subst hj
      rw [Tasks.hist_log_self, hm', Option.some.injEq]
      have hbefore : s.shared id = some j ↔ m = .registered id := by
        rw [hin id j, hm, Option.some.injEq]
      generalize s.shared = r₀ at *
      cases hstep with
      | keep hkeep => rw [hkeep id, hbefore]
      | @enter id₀ _ hcleared =>
        by_cases hid : id = id₀
        · simp [hid]
        · rw [Function.update_of_ne hid, hbefore, hcleared]
          simp [Ne.symm hid]
      | @leave id₀ hreg =>
        by_cases hid : id = id₀
        · simp [hid]
        · rw [Function.update_of_ne hid, hbefore, hreg]
          simp [Ne.symm hid]
    · rw [Tasks.hist_log_of_ne _ _ _ _ hj, ← hin id j]
      cases hstep with
      | keep hkeep => exact Iff.rfl
      | @enter id₀ ha _ =>
        subst ha
        have hvacant : s.shared id₀ = none := hok
        by_cases hid : id = id₀
        · subst hid
          rw [Function.update_self, hvacant]
          simp [Ne.symm hj]
        · rw [Function.update_of_ne hid]
      | @leave id₀ hreg =>
        have howner : s.shared id₀ = some i := (hin id₀ i).mpr (hm.trans (congrArg some hreg))
        by_cases hid : id = id₀
        · subst hid
          rw [Function.update_self, howner]
          simp [Ne.symm hj]
        · rw [Function.update_of_ne hid]

theorem inStep_of_reach (hr : (handlers d auth).Reach EntersVacant .empty s) : InStep s := by
  induction hr with
  | init =>
    intro id i
    simp [Registry.empty, standing, Proc.after_nil]
  | step _ hok hs ih => exact ih.step hok hs

/-- Who holds an id is registered for it. -/
theorem holds_iff {ok : Handlers → Event Nat Call Call.Reply Empty → Prop} {x : Registry}
    (hr : (handlers d auth).Reach ok x s) (id : String) (i : Nat) :
    Holds d auth s id i ↔ standing (s.hist i) = some (.registered id) := by
  constructor
  · rintro ⟨hmem, hrun⟩
    obtain ⟨m, hm⟩ := exists_standing (hr.trace i)
    rcases standing_of_insert hm hmem with rfl | rfl
    · exact hm
    · exact absurd (ended_of_gone (hr.trace i) hm) hrun
  · intro hm
    exact ⟨insert_mem_of_registered hm, fun he => ends_of_ended he hm⟩

/-- A handler that was refused keeps its hands off the registry. -/
theorem refusalsKeep (d : Deps) (auth : Option Authenticator) (s : Handlers) :
    RefusalsKeep d auth s := by
  rintro i a s' hs ⟨id, hmem⟩
  cases hs with
  | @task s i a r ht he =>
    rw [Tasks.hist_log_self] at hmem
    obtain ⟨m, m', hm, hm', hstep⟩ := registryStep ht he
    have hrefused := standing_of_refusal hm' hmem
    show r = s.shared
    generalize s.shared = r₀ at hstep
    cases hstep with
    | enter _ _ => cases hrefused
    | leave _ => cases hrefused
    | keep _ => rfl

theorem ownership_of_inStep {ok : Handlers → Event Nat Call Call.Reply Empty → Prop}
    {x : Registry} (hr : (handlers d auth).Reach ok x s) (hin : InStep s) :
    Ownership d auth s := by
  have hiff : ∀ id i, Holds d auth s id i ↔ s.shared id = some i :=
    fun id i => (holds_iff hr id i).trans (hin id i).symm
  refine ⟨?_, ?_, ?_, refusalsKeep d auth s⟩
  · intro id i j hi hj
    have hsome := ((hiff id i).mp hi).symm.trans ((hiff id j).mp hj)
    exact Option.some.inj hsome
  · exact fun id i hi => (hiff id i).mp hi
  · intro id hnone
    cases hid : s.shared id with
    | none => rfl
    | some i => exact absurd ((hiff id i).mpr hid) (hnone i)

/-- An entry over another one leaves an id with two holders. -/
theorem not_ownership_of_insert (hr : (handlers d auth).Reach EntersVacant .empty s) {i : Nat}
    {id : String} (hs : (handlers d auth).Step (.task i (.call (.insert id) ())) s s')
    (htaken : s.shared id ≠ none) : ¬ Ownership d auth s' := by
  intro hown
  have hin := inStep_of_reach hr
  obtain ⟨j, hj⟩ := Option.ne_none_iff_exists'.mp htaken
  have hholder := (hin id j).mp hj
  have hr' : (handlers d auth).Reach (fun _ _ => True) .empty s' :=
    .step (hr.mono fun _ _ _ => trivial) trivial hs
  cases hs with
  | @task s i a r ht he =>
    obtain ⟨hm, hm'⟩ := standing_insert ht
    have hne : j ≠ i := by
      rintro rfl
      rw [hm] at hholder
      cases hholder
    refine hne (hown.unique id j i ?_ ?_)
    · rw [holds_iff hr', Tasks.hist_log_of_ne _ _ _ _ hne]
      exact hholder
    · rw [holds_iff hr', Tasks.hist_log_self]
      exact hm'

end InStep

/-- Channel ownership.  In every run in which no handler enters an id that has been
entered since it looked, every state has owners; the first entry over another one
breaks that; and in every run a refused registration leaves the registry alone. -/
theorem channel_ownership (d : Deps) (auth : Option Authenticator) :
    (∀ s, (handlers d auth).Reach EntersVacant .empty s → Ownership d auth s) ∧
    (∀ s s' i id, (handlers d auth).Reach EntersVacant .empty s →
      (handlers d auth).Step (.task i (.call (.insert id) ())) s s' →
      s.shared id ≠ none → ¬ Ownership d auth s') ∧
    ∀ s, (handlers d auth).Reach (fun _ _ => True) .empty s → RefusalsKeep d auth s :=
  ⟨fun _ hr => ownership_of_inStep hr (inStep_of_reach hr),
    fun _ _ _ _ hr hs htaken => not_ownership_of_insert hr hs htaken,
    fun s _ => refusalsKeep d auth s⟩

/-! ## Two registrations at once -/

/-- What a handler does until it has its client's request. -/
def opening (json : Bytes) : Hist Call Call.Reply :=
  [.call .acceptControl true, .recv (.data (json ++ [0]))]

/-- A handler without a secret gets its client's request. -/
theorem run_opening {d : Deps} {msg : ClientMsg} {json : Bytes}
    (hjson : encode d.json msg = some json) (hlen : (json ++ [0]).length ≤ READ_SIZE) (n : Nat) :
    (handler d none (n + 1)).Run (opening json) ((dispatch d (n + 1) (some msg)).run []) := by
  have haccept : (handler d none (n + 1)).Run [.call .acceptControl true]
      ((recvLoop ClientMsg d.json (n + 1) []).bind
        (Control.cont fun first => dispatch d (n + 1) first)) := by
    refine .tail (.refl _) ?_
    exact .call
  exact haccept.trans ((run_recvLoop hjson hlen n).bind _)

/-- What a handler does up to its entry, if the id is free when it looks. -/
def registering (id : String) (json : Bytes) : Hist Call Call.Reply :=
  opening json ++ [.call (.enter .provider id) (), .call (.containsKey id) false]

theorem run_entering {d : Deps} {id : String} {json : Bytes}
    (hjson : encode d.json (ClientMsg.register id) = some json)
    (hlen : (json ++ [0]).length ≤ READ_SIZE) (n : Nat) :
    (handler d none (n + 1)).Run (opening json ++ [.call (.enter .provider id) ()])
      ((serveProvider d (n + 1) id).run []) :=
  (run_opening hjson hlen n).trans (.tail (.refl _) .call)

/-- What a handler does once it serves a provider. -/
theorem trace_entering {d : Deps} {id : String} {json : Bytes} {t : Hist Call Call.Reply}
    (hjson : encode d.json (ClientMsg.register id) = some json)
    (hlen : (json ++ [0]).length ≤ READ_SIZE)
    (ht : ∀ n, ∃ q, ((serveProvider d (n + 1) id).run []).Run t q) :
    Proc.Trace (handler d none) (opening json ++ .call (.enter .provider id) () :: t) := by
  refine .of_add 1 fun n => ?_
  obtain ⟨q, hq⟩ := ht n
  have hrun := (run_entering hjson hlen n).trans hq
  rw [List.append_assoc] at hrun
  exact ⟨q, hrun⟩

theorem trace_registering {d : Deps} {id : String} {json : Bytes}
    (hjson : encode d.json (ClientMsg.register id) = some json)
    (hlen : (json ++ [0]).length ≤ READ_SIZE) :
    Proc.Trace (handler d none) (registering id json ++ [.call (.insert id) ()]) := by
  have htrace := trace_entering (t := [.call (.containsKey id) false, .call (.insert id) ()])
    hjson hlen fun _ => ⟨_, .head .call (.head .call (.refl _))⟩
  rwa [registering, List.append_assoc]

/-- What a handler does until it finds that its id is taken. -/
def refusing (id : String) (json : Bytes) : Hist Call Call.Reply :=
  opening json ++ [.call (.enter .provider id) (), .call (.containsKey id) true]

theorem trace_refusing {d : Deps} {id : String} {json : Bytes}
    (hjson : encode d.json (ClientMsg.register id) = some json)
    (hlen : (json ++ [0]).length ≤ READ_SIZE) :
    Proc.Trace (handler d none) (refusing id json) :=
  trace_entering hjson hlen fun _ => ⟨_, .head .call (.refl _)⟩

section Sample

variable {d : Deps} {id : String} {json : Bytes} {s : Handlers}

theorem mem_registering {a : Act Call Call.Reply} (ha : a ∈ registering id json) :
    a = .call .acceptControl true ∨ a = .recv (.data (json ++ [0])) ∨
      a = .call (.enter .provider id) () ∨ a = .call (.containsKey id) false := by
  simpa [registering, opening] using ha

theorem mem_refusing {a : Act Call Call.Reply} (ha : a ∈ refusing id json) :
    a = .call .acceptControl true ∨ a = .recv (.data (json ++ [0])) ∨
      a = .call (.enter .provider id) () ∨ a = .call (.containsKey id) true := by
  simpa [refusing, opening] using ha

/-- A handler that is about to look finds the id free as long as nobody has entered
it. -/
theorem exists_registering (hjson : encode d.json (ClientMsg.register id) = some json)
    (hlen : (json ++ [0]).length ≤ READ_SIZE)
    (ok : Handlers → Event Nat Call Call.Reply Empty → Prop)
    (hok : ∀ s i a, a ∈ registering id json → ok s (.task i a))
    (hr : (handlers d none).Reach ok .empty s) (hfree : s.shared id = none) {i : Nat}
    (hi : s.hist i = []) :
    ∃ s', (handlers d none).Reach ok .empty s' ∧ s'.shared = s.shared ∧
      s'.hist i = registering id json ∧ ∀ j, j ≠ i → s'.hist j = s.hist j := by
  have ht : Proc.Trace (handler d none) (s.hist i ++ registering id json) := by
    rw [hi]
    exact (trace_registering hjson hlen).of_append
  have heffect : ∀ a ∈ registering id json, registryEffect i a s.shared s.shared := by
    intro a ha
    rcases mem_registering ha with rfl | rfl | rfl | rfl
    · exact rfl
    · exact rfl
    · exact rfl
    · exact ⟨by rw [hfree]; rfl, rfl⟩
  obtain ⟨s', hr', hshared, hself, hothers⟩ := hr.stretch ht (fun a ha s => hok s i a ha) heffect
  refine ⟨s', hr', hshared, ?_, hothers⟩
  rw [hself, hi, List.nil_append]

/-- A handler that looks while the id is taken is refused. -/
theorem exists_refused (hjson : encode d.json (ClientMsg.register id) = some json)
    (hlen : (json ++ [0]).length ≤ READ_SIZE)
    (ok : Handlers → Event Nat Call Call.Reply Empty → Prop)
    (hok : ∀ s i a, a ∈ refusing id json → ok s (.task i a))
    (hr : (handlers d none).Reach ok .empty s) (htaken : s.shared id ≠ none) {i : Nat}
    (hi : s.hist i = []) :
    ∃ s', (handlers d none).Reach ok .empty s' ∧ s'.shared = s.shared ∧ Refused s' i := by
  have ht : Proc.Trace (handler d none) (s.hist i ++ refusing id json) := by
    rw [hi]
    exact trace_refusing hjson hlen
  have heffect : ∀ a ∈ refusing id json, registryEffect i a s.shared s.shared := by
    intro a ha
    rcases mem_refusing ha with rfl | rfl | rfl | rfl
    · exact rfl
    · exact rfl
    · exact rfl
    · exact ⟨(Option.isSome_iff_ne_none.mpr htaken).symm, rfl⟩
  obtain ⟨s', hr', hshared, hself, -⟩ := hr.stretch ht (fun a ha s => hok s i a ha) heffect
  refine ⟨s', hr', hshared, id, ?_⟩
  rw [hself, hi]
  simp [refusing, Hist.calls, Act.call?]

/-- A handler that has looked makes its entry. -/
theorem exists_registered (hjson : encode d.json (ClientMsg.register id) = some json)
    (hlen : (json ++ [0]).length ≤ READ_SIZE)
    {ok : Handlers → Event Nat Call Call.Reply Empty → Prop}
    (hr : (handlers d none).Reach ok .empty s) {i : Nat}
    (hok : ok s (.task i (.call (.insert id) ()))) (hi : s.hist i = registering id json) :
    ∃ s', (handlers d none).Reach ok .empty s' ∧
      s'.shared = Function.update s.shared id (some i) ∧
      standing (s'.hist i) = some (.registered id) ∧ ∀ j, j ≠ i → s'.hist j = s.hist j := by
  have ht : Proc.Trace (handler d none) (s.hist i ++ [.call (.insert id) ()]) := by
    rw [hi]
    exact trace_registering hjson hlen
  refine ⟨s.log i _ _, hr.step hok (.task ht rfl), rfl, ?_, fun j hj => ?_⟩
  · rw [Tasks.hist_log_self]
    exact (standing_insert ht).2
  · exact Tasks.hist_log_of_ne _ _ _ _ hj

end Sample

/-- The text of a request that fits in one read. -/
theorem exists_request :
    ∃ json, encode sampleDeps.json (ClientMsg.register "db") = some json ∧
      (json ++ [0]).length ≤ READ_SIZE := by
  refine ⟨_, rfl, ?_⟩
  have hlen := Text.compact.length_print (Json.tagged "type" "register" [("channel", .str "db")])
    ⟨trivial, trivial, trivial⟩
  rw [List.length_append]
  exact Nat.le_trans (Nat.add_le_add_right hlen 1) (by decide)

/-- The texts of what a destination and the server tell each other. -/
theorem exists_connect :
    ∃ json ack, encode sampleDeps.json (ClientMsg.connect "db") = some json ∧
      (json ++ [0]).length ≤ READ_SIZE ∧ encode sampleDeps.json ServerMsg.ok = some ack := by
  refine ⟨_, _, rfl, ?_, rfl⟩
  have hlen := Text.compact.length_print (Json.tagged "type" "connect" [("channel", .str "db")])
    ⟨trivial, trivial, trivial⟩
  rw [List.length_append]
  exact Nat.le_trans (Nat.add_le_add_right hlen 1) (by decide)

/-- One handler registers, and the id is its own; another one is refused. -/
theorem channel_ownership_single :
    ∃ s, (handlers sampleDeps none).Reach EntersVacant .empty s ∧
      Ownership sampleDeps none s ∧ s.shared "db" = some 0 ∧ Refused s 1 := by
  obtain ⟨json, hjson, hlen⟩ := exists_request
  have hlooks : ∀ s i a, a ∈ registering "db" json → EntersVacant s (.task i a) := by
    intro s i a ha
    rcases mem_registering ha with rfl | rfl | rfl | rfl
    · exact trivial
    · exact trivial
    · exact trivial
    · exact trivial
  obtain ⟨s₁, hr₁, hshared₁, hself₁, hothers₁⟩ :=
    exists_registering hjson hlen EntersVacant hlooks .init rfl (i := 0) rfl
  have hfree : s₁.shared "db" = none := by rw [hshared₁]; rfl
  obtain ⟨s₂, hr₂, hshared₂, -, hothers₂⟩ := exists_registered hjson hlen hr₁ hfree hself₁
  have htaken : s₂.shared "db" = some 0 := by rw [hshared₂, Function.update_self]
  have hnew : s₂.hist 1 = [] := (hothers₂ 1 (by simp)).trans (hothers₁ 1 (by simp))
  have hrefused : ∀ s i a, a ∈ refusing "db" json → EntersVacant s (.task i a) := by
    intro s i a ha
    rcases mem_refusing ha with rfl | rfl | rfl | rfl
    · exact trivial
    · exact trivial
    · exact trivial
    · exact trivial
  obtain ⟨s₃, hr₃, hshared₃, hout⟩ := exists_refused hjson hlen EntersVacant hrefused hr₂
    (by rw [htaken]; simp) hnew
  exact ⟨s₃, hr₃, (channel_ownership sampleDeps none).1 s₃ hr₃, hshared₃ ▸ htaken, hout⟩

/-- Two handlers look before either has made its entry.  Both are told that the id is
free, both make the entry, and the registry has only the second. -/
theorem channel_registered_twice :
    ¬ ∀ s, (handlers sampleDeps none).Reach (fun _ _ => True) .empty s →
      Ownership sampleDeps none s := by
  intro hown
  obtain ⟨json, hjson, hlen⟩ := exists_request
  obtain ⟨s₁, hr₁, hshared₁, hself₁, hothers₁⟩ := exists_registering hjson hlen (fun _ _ => True)
    (fun _ _ _ _ => trivial) .init rfl (i := 0) rfl
  obtain ⟨s₂, hr₂, -, hself₂, hothers₂⟩ := exists_registering hjson hlen (fun _ _ => True)
    (fun _ _ _ _ => trivial) hr₁ (by rw [hshared₁]; rfl) (hothers₁ 1 (by simp))
  obtain ⟨s₃, hr₃, -, hself₃, hothers₃⟩ := exists_registered hjson hlen hr₂ trivial
    ((hothers₂ 0 (by simp)).trans hself₁)
  obtain ⟨s₄, hr₄, -, hself₄, hothers₄⟩ := exists_registered hjson hlen hr₃ trivial
    ((hothers₃ 1 (by simp)).trans hself₂)
  have hfirst : Holds sampleDeps none s₄ "db" 0 := by
    rw [holds_iff hr₄, hothers₄ 0 (by simp)]
    exact hself₃
  have hsecond : Holds sampleDeps none s₄ "db" 1 := (holds_iff hr₄ "db" 1).mpr hself₄
  have hsame := (hown s₄ hr₄).unique "db" 0 1 hfirst hsecond
  cases hsame

end RustBackup.Transport
