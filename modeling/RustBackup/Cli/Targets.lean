/-
  Cli/Targets.lean --- the targets of a session, one after another.

  Source: crates/rust-backup/src/main.rs (`run_session`, `execute`).

  `Stage` says what the run of one target can look like, and `session_in_order` puts the
  targets together: all but the last one were served to the end, in the order of the
  configuration, and a failed set-up is the last thing that happens.
-/
import RustBackup.Cli.Program

set_option autoImplicit false

namespace RustBackup.Cli

open RustBackup.Serde RustBackup.Io RustBackup.Core

/-! ## The steps of a target -/

/-- How a target's module is opened. -/
def openStep (spec : TargetSpec) : Setup :=
  match spec.role with
  | .source => .openSource spec.module ⟨spec.params⟩
  | .destination => .openDestination spec.module ⟨spec.params⟩

/-- How its channel is connected. -/
def connectStep (spec : TargetSpec) : Setup :=
  match spec.role with
  | .source => .connectSource spec.transport
  | .destination => .connectDestination spec.transport

/-- Its session. -/
def serveStep (d : Deps) (m : BackupModule) (spec : TargetSpec) : Program Unit :=
  match spec.role with
  | .source => drive forward (runSource d (m.streamOut ⟨spec.params⟩))
  | .destination =>
      drive (answerCall spec.autoAccept) (runDestination d (m.streamIn ⟨spec.params⟩))

/-- The context of its errors. -/
def place (i : Nat) (spec : TargetSpec) : String :=
  s!"target {i} ({spec.module}/{spec.role.debug})"

/-- The interaction in which a set-up was answered. -/
abbrev did (s : Setup) (r : Result Unit) : Act Call Call.Reply := .call (.setup s) r

section Target

variable {d : Deps} {reg : ModuleRegistry} {m : BackupModule} {i : Nat} {spec : TargetSpec}
variable {u v : Hist Call Call.Reply} {p q : Proc Call Call.Reply (Except Anyhow Unit)}

theorem execute_eq (hname : m.name = spec.module) :
    execute d m spec.role spec.transport ⟨spec.params⟩ spec.autoAccept =
      (perform (openStep spec)).andThen fun _ =>
        (perform (connectStep spec)).andThen fun _ => serveStep d m spec := by
  unfold execute openStep connectStep serveStep
  rw [← hname]
  cases spec.role with
  | source => rfl
  | destination => rfl

theorem runSpec_of_get (hm : reg.get spec.module = some m) :
    runSpec d reg i spec = withContext (place i spec)
      ((perform (openStep spec)).andThen fun _ =>
        (perform (connectStep spec)).andThen fun _ => serveStep d m spec) := by
  rw [← execute_eq (reg.named _ _ hm)]
  unfold runSpec found place
  rw [hm]
  rfl

theorem runSpec_of_missing (hm : reg.get spec.module = none) :
    runSpec d reg i spec = Task.fail ⟨[], s!"unknown module '{spec.module}'"⟩ := by
  unfold runSpec found
  rw [hm]
  rfl

theorem run_withContext (text : String) {x : Program Unit} (hr : x.run.Run u p) :
    (withContext text x).run.Run u (withContext text ⟨p⟩).run := hr.bind _

theorem exists_withContext (text : String) {x : Program Unit} (hr : x.run.Run u p) :
    ∃ p', (withContext text x).run.Run u p' := ⟨_, run_withContext text hr⟩

variable (d reg i spec)

/-- What the run of one target can look like. -/
inductive Stage : Hist Call Call.Reply → Proc Call Call.Reply (Except Anyhow Unit) → Prop where
  | missing (hm : reg.get spec.module = none) :
      Stage [] (.ret (.error ⟨[], s!"unknown module '{spec.module}'"⟩))
  | opening {p : Proc Call Call.Reply (Except Anyhow Unit)} (hp : ¬ p.Finished) : Stage [] p
  | unopened (e : BackupError) :
      Stage [did (openStep spec) (.error e)] (.ret (.error ⟨[place i spec], e.display⟩))
  | connecting {p : Proc Call Call.Reply (Except Anyhow Unit)} (hp : ¬ p.Finished) :
      Stage [did (openStep spec) (.ok ())] p
  | unconnected (e : BackupError) :
      Stage [did (openStep spec) (.ok ()), did (connectStep spec) (.error e)]
        (.ret (.error ⟨[place i spec], e.display⟩))
  | serving {m : BackupModule} {v : Hist Call Call.Reply}
      {p : Proc Call Call.Reply (Except Anyhow Unit)} (hm : reg.get spec.module = some m)
      (hv : (serveStep d m spec).run.Run v p) :
      Stage (did (openStep spec) (.ok ()) :: did (connectStep spec) (.ok ()) :: v)
        (withContext (place i spec) ⟨p⟩).run

variable {d reg i spec}

/-- There is nothing else. -/
theorem stage_of_run (hr : (runSpec d reg i spec).run.Run u p) : Stage d reg i spec u p := by
  cases hm : reg.get spec.module with
  | none =>
    rw [runSpec_of_missing hm] at hr
    obtain ⟨rfl, rfl⟩ := hr.of_ret
    exact .missing hm
  | some m =>
    rw [runSpec_of_get hm] at hr
    rcases Proc.Run.of_call hr with ⟨rfl, rfl⟩ | ⟨r, u', rfl, hr'⟩
    · exact .opening fun hfin => (by obtain ⟨a, ha⟩ := hfin; cases ha)
    · cases r with
      | error e =>
        obtain ⟨rfl, rfl⟩ := hr'.of_ret
        exact .unopened e
      | ok _ =>
        rcases Proc.Run.of_call hr' with ⟨rfl, rfl⟩ | ⟨r, v, rfl, hr''⟩
        · exact .connecting fun hfin => (by obtain ⟨a, ha⟩ := hfin; cases ha)
        · cases r with
          | error e =>
            obtain ⟨rfl, rfl⟩ := hr''.of_ret
            exact .unconnected e
          | ok _ =>
            rcases Proc.Run.of_bind hr'' with ⟨p', hv, -, rfl⟩ | ⟨r, v, t, rfl, hv, ht⟩
            · exact .serving hm hv
            · obtain ⟨rfl, rfl⟩ := ht.of_ret
              rw [List.append_nil]
              exact .serving hm hv

end Target

/-! ## What the run of one target tells -/

/-- The set-up that a call was. -/
def setup? : Sigma Call.Reply → Option Setup
  | ⟨.setup s, _⟩ => some s
  | _ => none

/-- The set-ups of a history, in order. -/
def setups (t : Hist Call Call.Reply) : List Setup := t.calls.filterMap setup?

theorem setups_append (t t' : Hist Call Call.Reply) : setups (t ++ t') = setups t ++ setups t' := by
  unfold setups
  rw [Hist.calls_append, List.filterMap_append]

/-- A call that sets nothing up. -/
def SetsNothing (c : Call) : Prop := ∀ s, c ≠ .setup s

theorem setsNothing_promptYes (plan : BackupPlan) : (promptYes plan).Only SetsNothing := by
  refine ⟨fun s => by simp, fun _ => ⟨fun s => by simp, fun r => ?_⟩⟩
  cases r with
  | some line => exact trivial
  | none => exact trivial

theorem setsNothing_forward (c : Core.Call) : (forward c).Only SetsNothing :=
  ⟨fun s => by simp, fun _ => trivial⟩

theorem setsNothing_answerCall (autoAccept : Bool) (c : Core.Call) :
    (answerCall autoAccept c).Only SetsNothing := by
  cases c with
  | accept plan =>
    unfold answerCall
    split
    · exact trivial
    · exact setsNothing_promptYes plan
  | _ => exact setsNothing_forward _

theorem setsNothing_serveStep (d : Deps) (m : BackupModule) (spec : TargetSpec) :
    (serveStep d m spec).run.Only SetsNothing := by
  unfold serveStep
  cases spec.role with
  | source => exact (Proc.Only.interpret _ setsNothing_forward _).bind fun _ => trivial
  | destination =>
    exact (Proc.Only.interpret _ (setsNothing_answerCall _) _).bind fun _ => trivial

/-- A session over the channel that has run to its end without an error. -/
def SessionRan {α : Type} (h : (c : Core.Call) → Proc Call Call.Reply c.Reply) (x : Metered α)
    (v : Hist Call Call.Reply) : Prop :=
  ∃ w a p', (x.run .fresh).Run w (.ret (.ok a, p')) ∧ Proc.Carries h w v

/-- A target that was served to the end: its module opened, its channel connected, its
session run. -/
def Served (d : Deps) (reg : ModuleRegistry) (spec : TargetSpec) (u : Hist Call Call.Reply) :
    Prop :=
  ∃ m v, reg.get spec.module = some m ∧
    u = did (openStep spec) (.ok ()) :: did (connectStep spec) (.ok ()) :: v ∧
    match spec.role with
    | .source => SessionRan forward (runSource d (m.streamOut ⟨spec.params⟩)) v
    | .destination =>
        SessionRan (answerCall spec.autoAccept) (runDestination d (m.streamIn ⟨spec.params⟩)) v

section Target

variable {d : Deps} {reg : ModuleRegistry} {i : Nat} {spec : TargetSpec}
variable {u v : Hist Call Call.Reply} {p : Proc Call Call.Reply (Except Anyhow Unit)}

theorem setups_of_serveStep {m : BackupModule} (hv : (serveStep d m spec).run.Run v p) :
    setups v = [] := by
  unfold setups
  rw [List.filterMap_eq_nil_iff]
  intro c hc
  have hnone := (setsNothing_serveStep d m spec).calls hv c hc
  obtain ⟨e, r⟩ := c
  cases e with
  | setup s => exact absurd rfl (hnone s)
  | _ => rfl

/-- A target sets up its module and then its channel, and nothing else. -/
theorem Stage.setups_isPrefix (hs : Stage d reg i spec u p) :
    setups u <+: [openStep spec, connectStep spec] := by
  cases hs with
  | missing _ => exact List.nil_prefix
  | opening _ => exact List.nil_prefix
  | unopened e => exact ⟨[connectStep spec], rfl⟩
  | connecting _ => exact ⟨[connectStep spec], rfl⟩
  | unconnected e => exact ⟨[], rfl⟩
  | @serving _ v _ _ hv =>
    have hsetups := setups_append [did (openStep spec) (.ok ()), did (connectStep spec) (.ok ())] v
    rw [setups_of_serveStep hv, List.append_nil] at hsetups
    exact ⟨[], (List.append_nil _).trans hsetups⟩

/-- A set-up that fails is the last that happens. -/
theorem Stage.failed (hs : Stage d reg i spec u p) {s : Setup} {e : BackupError}
    (hmem : (⟨.setup s, .error e⟩ : Sigma Call.Reply) ∈ u.calls) :
    (∃ u', u = u' ++ [did s (.error e)]) ∧ p = .ret (.error ⟨[place i spec], e.display⟩) := by
  cases hs with
  | missing _ => exact absurd hmem List.not_mem_nil
  | opening _ => exact absurd hmem List.not_mem_nil
  | unopened e' =>
    cases List.mem_singleton.mp hmem
    exact ⟨⟨[], rfl⟩, rfl⟩
  | connecting _ => cases List.mem_singleton.mp hmem
  | unconnected e' =>
    rcases List.mem_cons.mp hmem with heq | hmem
    · cases heq
    · cases List.mem_singleton.mp hmem
      exact ⟨⟨[did (openStep spec) (.ok ())], rfl⟩, rfl⟩
  | serving _ hv =>
    rcases List.mem_cons.mp hmem with heq | hmem
    · cases heq
    · rcases List.mem_cons.mp hmem with heq | hmem
      · cases heq
      · exact absurd rfl ((setsNothing_serveStep d _ spec).calls hv _ hmem s)

theorem drive_ran {α : Type} {h : (c : Core.Call) → Proc Call Call.Reply c.Reply} {x : Metered α}
    (hr : (drive h x).run.Run v (.ret (.ok ()))) : SessionRan h x v := by
  rcases Proc.Run.of_bind hr with ⟨p, -, hp, heq⟩ | ⟨⟨r, p'⟩, v, t, rfl, hv, ht⟩
  · have hfin : (p.bind fun o : Result α × Progress =>
        (.ret ((o.1.map fun _ => ()).mapError .ofError) :
          Proc Call Call.Reply (Except Anyhow Unit))).Finished := ⟨_, heq.symm⟩
    exact absurd hfin.of_bind hp
  · obtain ⟨rfl, hend⟩ := ht.of_ret
    rw [List.append_nil]
    obtain ⟨w, hw, hcarries⟩ := hv.of_interpret_ret
    cases r with
    | ok a => exact ⟨w, a, p', hw, hcarries⟩
    | error e => cases hend

theorem Stage.served (hs : Stage d reg i spec u (.ret (.ok ()))) : Served d reg spec u := by
  generalize hq : (.ret (.ok ()) : Proc Call Call.Reply (Except Anyhow Unit)) = q at hs
  cases hs with
  | missing _ => cases hq
  | opening hp => exact absurd ⟨_, hq.symm⟩ hp
  | unopened e => cases hq
  | connecting hp => exact absurd ⟨_, hq.symm⟩ hp
  | unconnected e => cases hq
  | @serving m v p hm hv =>
    have hfin : (withContext (place i spec) ⟨p⟩).run.Finished := ⟨_, hq.symm⟩
    obtain ⟨r, rfl⟩ := hfin.of_bind
    cases r with
    | error e => cases hq
    | ok _ =>
      refine ⟨m, v, hm, rfl, ?_⟩
      unfold serveStep at hv
      cases hrole : spec.role with
      | source =>
        rw [hrole] at hv
        exact drive_ran hv
      | destination =>
        rw [hrole] at hv
        exact drive_ran hv

end Target

/-! ## One target after another -/

section Session

variable {d : Deps} {reg : ModuleRegistry} {t : Hist Call Call.Reply}
variable {q : Proc Call Call.Reply (Except Anyhow Unit)}

theorem Served.no_failure {spec : TargetSpec} {i : Nat} {u : Hist Call Call.Reply}
    (hs : Stage d reg i spec u (.ret (.ok ()))) {s : Setup} {e : BackupError} :
    (⟨.setup s, .error e⟩ : Sigma Call.Reply) ∉ u.calls := by
  intro hmem
  cases (hs.failed hmem).2

theorem in_order {i : Nat} {specs : List TargetSpec}
    (ht : Task.Through (runSpec d reg) i specs t q) :
    ∃ vs u, t = vs.flatten ++ u ∧ vs.length ≤ specs.length ∧
      List.Forall₂ (Served d reg) (specs.take vs.length) vs ∧
      (q = .ret (.ok ()) → vs.length = specs.length ∧ u = []) ∧
      (∀ spec, specs[vs.length]? = some spec → setups u <+: [openStep spec, connectStep spec]) ∧
      ∀ s e, (⟨.setup s, .error e⟩ : Sigma Call.Reply) ∈ t.calls →
        (∃ t', t = t' ++ [did s (.error e)]) ∧
        ∃ spec, specs[vs.length]? = some spec ∧
          q = .ret (.error ⟨[place (i + vs.length) spec], e.display⟩) := by
  induction ht with
  | done =>
    refine ⟨[], [], rfl, Nat.le_refl _, .nil, fun _ => ⟨rfl, rfl⟩, fun spec hspec => ?_,
      fun s e hmem => absurd hmem List.not_mem_nil⟩
    cases hspec
  | @within i spec specs u p q hu hp hq =>
    have hs := stage_of_run hu
    refine ⟨[], u, rfl, Nat.zero_le _, .nil, fun heq => absurd ⟨_, heq⟩ hq, fun spec' hspec => ?_,
      fun s e hmem => absurd ⟨_, (hs.failed hmem).2⟩ hp⟩
    cases hspec
    exact hs.setups_isPrefix
  | @failed i spec specs u e hu =>
    have hs := stage_of_run hu
    refine ⟨[], u, rfl, Nat.zero_le _, .nil, fun heq => (by cases heq), fun spec' hspec => ?_,
      fun s e' hmem => ?_⟩
    · cases hspec
      exact hs.setups_isPrefix
    · obtain ⟨hlast, hend⟩ := hs.failed hmem
      exact ⟨hlast, spec, rfl, hend⟩
  | @next i spec specs v t q hu _ ih =>
    have hs := stage_of_run hu
    obtain ⟨vs, u, rfl, hle, hserved, hok, hsetups, hfailed⟩ := ih
    refine ⟨v :: vs, u, (List.append_assoc _ _ _).symm, Nat.succ_le_succ hle,
      .cons hs.served hserved, fun heq => ?_, hsetups, fun s e hmem => ?_⟩
    · obtain ⟨hlen, hnil⟩ := hok heq
      exact ⟨congrArg (· + 1) hlen, hnil⟩
    · rw [Hist.calls_append, List.mem_append] at hmem
      have hlate := hmem.resolve_left (Served.no_failure hs)
      obtain ⟨⟨t', ht'⟩, spec', hspec', hend⟩ := hfailed s e hlate
      refine ⟨⟨v ++ t', by rw [ht', List.append_assoc]⟩, spec', hspec', ?_⟩
      rw [hend, List.length_cons, Nat.add_assoc, Nat.add_comm 1]

/-- Whatever happens in `rust-backup run`, all targets but the last were served to the
end, in the order of the configuration, and the program succeeds only when all were.  The
target at hand sets up its module and then its channel.  A set-up that fails is the last
thing that happens, and the program's error names the target. -/
theorem session_in_order {path : String} {cfg : SessionConfig}
    (hr : (runSession d reg path).run.Run (.call (.fromPath path) (.ok cfg) :: t) q) :
    ∃ vs u, t = vs.flatten ++ u ∧ vs.length ≤ cfg.targets.length ∧
      List.Forall₂ (Served d reg) (cfg.targets.take vs.length) vs ∧
      (q = .ret (.ok ()) → vs.length = cfg.targets.length ∧ u = []) ∧
      (∀ spec, cfg.targets[vs.length]? = some spec →
        setups u <+: [openStep spec, connectStep spec]) ∧
      ∀ s e, (⟨.setup s, .error e⟩ : Sigma Call.Reply) ∈ t.calls →
        (∃ t', t = t' ++ [did s (.error e)]) ∧
        ∃ spec, cfg.targets[vs.length]? = some spec ∧
          q = .ret (.error ⟨[place vs.length spec], e.display⟩) := by
  rcases Proc.Run.of_call hr with ⟨habsurd, -⟩ | ⟨r, t', heq, hrun⟩
  · cases habsurd
  · cases heq
    have horder := in_order (Task.through_of_run hrun)
    simp only [Nat.zero_add] at horder
    exact horder

end Session

/-! ## Particular runs -/

/-- A module that streams nothing, and reads one event. -/
def sampleModule : BackupModule where
  name := "sample"
  streamOut _ := noPayload
  streamIn _ := oneEvent (.ok ())

/-- The registry of that module. -/
def sampleRegistry : ModuleRegistry := ModuleRegistry.new.register sampleModule

theorem get_sampleRegistry : sampleRegistry.get "sample" = some sampleModule :=
  Std.ExtTreeMap.getElem?_insert_self

/-- A destination whose operator is asked. -/
def sampleSpec : TargetSpec where
  module := "sample"
  role := .destination
  transport := ⟨"localhost", "nightly", none, 1, true, false⟩
  params := .null
  autoAccept := false

/-- The configuration with this one target. -/
def sampleConfig : SessionConfig := ⟨[sampleSpec]⟩

section Runs

variable {d : Deps} {reg : ModuleRegistry} {spec : TargetSpec} {rest : List TargetSpec}
variable {u : Hist Call Call.Reply} {p : Proc Call Call.Reply (Except Anyhow Unit)}

/-- A run of the first target begins the session. -/
theorem exists_session_run {path : String} (hr : (runSpec d reg 0 spec).run.Run u p) :
    ∃ q, (runSession d reg path).run.Run (.call (.fromPath path) (.ok ⟨spec :: rest⟩) :: u) q := by
  have hloop := hr.bind (Task.cont fun _ => Task.forEach (runSpec d reg) 1 rest)
  exact ⟨_, .head .call hloop⟩

end Runs

/-- The first target's module does not open. -/
theorem session_in_order_unopened :
    ∃ q, (runSession sampleDeps sampleRegistry "targets.yaml").run.Run
        [.call (.fromPath "targets.yaml") (.ok sampleConfig),
          did (openStep sampleSpec) (.error (.inPhase .connect "no such file"))] q ∧
      q = .ret (.error ⟨["target 0 (sample/Destination)"], "[Connect] no such file"⟩) := by
  obtain ⟨p, hopen⟩ : ∃ p, (runSpec sampleDeps sampleRegistry 0 sampleSpec).run.Run
      [did (openStep sampleSpec) (.error (.inPhase .connect "no such file"))] p := by
    rw [runSpec_of_get get_sampleRegistry]
    exact ⟨_, .head .call (.refl _)⟩
  obtain ⟨q, hr⟩ := exists_session_run hopen
  refine ⟨q, hr, ?_⟩
  obtain ⟨vs, u, -, hle, -, -, -, hfailed⟩ := session_in_order hr
  obtain ⟨-, spec, hspec, hend⟩ := hfailed _ _ (List.mem_singleton_self _)
  cases vs with
  | nil =>
    cases hspec
    exact hend
  | cons v vs => cases hspec

end RustBackup.Cli
