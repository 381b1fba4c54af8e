/-
  Cli/Approval.lean --- nothing is restored without a flag or a typed yes.

  Source: crates/rust-backup/src/main.rs (`execute`, `prompt_yes`).

  What a session asks its accept policy, the binary answers.  A run of a destination
  target is a run of its session in which every call was answered by a program of the
  binary, so what the session has had before it enters `stream_in` is read off the
  binary's own history.
-/
import RustBackup.Cli.Targets

set_option autoImplicit false

namespace RustBackup.Cli

open RustBackup.Serde RustBackup.Io RustBackup.Core

/-! ## The programs that answer -/

section Answers

variable {u : Hist Call Call.Reply}

theorem run_forward {c : Core.Call} {q : Proc Call Call.Reply c.Reply}
    (hr : (forward c).Run u q) :
    (u = [] ∧ ¬ q.Finished) ∨ ∃ r, u = [.call (.session c) r] ∧ q = .ret r := by
  rcases Proc.Run.of_call hr with ⟨rfl, rfl⟩ | ⟨r, t, rfl, hr'⟩
  · exact .inl ⟨rfl, fun hfin => (by obtain ⟨a, ha⟩ := hfin; cases ha)⟩
  · obtain ⟨rfl, rfl⟩ := hr'.of_ret
    exact .inr ⟨r, rfl, rfl⟩

/-- The operator's yes is a line that was read right after the question. -/
theorem run_promptYes {plan : BackupPlan} (hr : (promptYes plan).Run u (.ret true)) :
    ∃ line, saysYes line = true ∧ u = [.call (.ask plan) (), .call .readLine (some line)] := by
  rcases Proc.Run.of_call hr with ⟨-, hend⟩ | ⟨r, t, rfl, hr'⟩
  · cases hend
  · rcases Proc.Run.of_call hr' with ⟨-, hend⟩ | ⟨r, t, rfl, hr''⟩
    · cases hend
    · cases r with
      | none =>
        obtain ⟨-, hend⟩ := hr''.of_ret
        cases hend
      | some line =>
        obtain ⟨rfl, hend⟩ := hr''.of_ret
        exact ⟨line, (Proc.ret.inj hend).symm, rfl⟩

/-- A call that is not the session's. -/
def AsksOperator (c : Call) : Prop := ∀ e, c ≠ .session e

theorem asksOperator_promptYes (plan : BackupPlan) : (promptYes plan).Only AsksOperator := by
  refine ⟨fun e => by simp, fun _ => ⟨fun e => by simp, fun r => ?_⟩⟩
  cases r with
  | some line => exact trivial
  | none => exact trivial

/-- A program that answers a call passes on that call or none. -/
def Relays (h : (c : Core.Call) → Proc Call Call.Reply c.Reply) : Prop :=
  ∀ c u (q : Proc Call Call.Reply c.Reply), (h c).Run u q →
    ∀ x : Sigma Core.Call.Reply, (⟨.session x.1, x.2⟩ : Sigma Call.Reply) ∈ u.calls →
      ∃ r, x = ⟨c, r⟩ ∧ q = .ret r

theorem relays_forward : Relays forward := by
  intro c u q hr x hx
  rcases run_forward hr with ⟨rfl, -⟩ | ⟨r, rfl, rfl⟩
  · exact absurd hx List.not_mem_nil
  · obtain ⟨e, r'⟩ := x
    cases List.mem_singleton.mp hx
    exact ⟨r', rfl, rfl⟩

theorem relays_answerCall (autoAccept : Bool) : Relays (answerCall autoAccept) := by
  intro c u q hr x hx
  cases c with
  | accept plan =>
    cases autoAccept with
    | true =>
      obtain ⟨rfl, -⟩ := hr.of_ret
      exact absurd hx List.not_mem_nil
    | false => exact absurd hx fun hmem => (asksOperator_promptYes plan).calls hr _ hmem _ rfl
  | _ => exact relays_forward _ u q hr x hx

end Answers

/-! ## The session behind a target -/

/-- A run of a driven session is a run of the session: every call that was passed on is
one of its calls, and each of its calls was answered. -/
theorem exists_session {h : (c : Core.Call) → Proc Call Call.Reply c.Reply} (hh : Relays h)
    {α : Type} {x : Proc Core.Call Core.Call.Reply α} {v : Hist Call Call.Reply}
    {q : Proc Call Call.Reply α} (hr : (x.interpret h).Run v q) :
    ∃ w y, x.Run w y ∧
      (∀ c : Sigma Core.Call.Reply, (⟨.session c.1, c.2⟩ : Sigma Call.Reply) ∈ v.calls →
        c ∈ w.calls) ∧
      ∀ c ∈ w.calls, ∃ u, u <:+: v ∧ (h c.1).Run u (.ret c.2) := by
  obtain ⟨w, y, hw, hanswered, -, hmade⟩ := hr.exists_made
  refine ⟨w, y, hw, fun c hc => ?_, hanswered⟩
  rcases hmade _ hc with ⟨c', hmem, u, hrun, hcu⟩ | ⟨e, k, u, q', -, hrun, hq', hcu⟩
  · obtain ⟨r, rfl, hend⟩ := hh _ _ _ hrun c hcu
    cases hend
    exact hmem
  · obtain ⟨r, -, hend⟩ := hh _ _ _ hrun c hcu
    exact absurd ⟨r, hend⟩ hq'

/-! ## Entering `stream_in` -/

/-- The interaction in which a destination enters `stream_in`. -/
abbrev entry (plan : BackupPlan) : Act Call Call.Reply :=
  .call (.session (.mark (.streamIn plan))) ()

/-- The plan was validated, with a preflight that is ok, and either the target says that
plans are accepted or the operator was shown this plan and typed yes. -/
def Approved (spec : TargetSpec) (plan : BackupPlan) (u : Hist Call Call.Reply) : Prop :=
  (∃ preflight : Preflight, preflight.ok = true ∧
    Act.call (.session (.validate plan)) (.ok preflight) ∈ u) ∧
  (spec.autoAccept = true ∨ ∃ line, saysYes line = true ∧
    [Act.call (.ask plan) (), .call .readLine (some line)] <:+: u)

/-- The target that a subcommand serves. -/
def TargetCommand.spec (a : TargetCommand) (module : String) (params : TargetParams) :
    TargetSpec where
  module := module
  role := a.role
  transport := a.transport
  params := params.value
  autoAccept := a.yes

section Entry

variable {d : Deps} {reg : ModuleRegistry} {spec : TargetSpec} {i : Nat} {plan : BackupPlan}
variable {u v t : Hist Call Call.Reply} {q : Proc Call Call.Reply (Except Anyhow Unit)}

theorem exists_driven {h : (c : Core.Call) → Proc Call Call.Reply c.Reply} {α : Type}
    {x : Metered α} (hr : (drive h x).run.Run v q) :
    ∃ y, ((x.run .fresh).interpret h).Run v y := by
  rcases Proc.Run.of_bind hr with ⟨y, hy, -, -⟩ | ⟨o, v, t, rfl, hy, ht⟩
  · exact ⟨y, hy⟩
  · obtain ⟨rfl, -⟩ := ht.of_ret
    rw [List.append_nil]
    exact ⟨_, hy⟩

/-- What came before the entry came before the last interaction. -/
theorem Approved.of_concat (hvalidate : ∃ preflight : Preflight, preflight.ok = true ∧
      Act.call (.session (.validate plan)) (.ok preflight) ∈ u ++ [entry plan])
    (haccept : spec.autoAccept = true ∨ ∃ line, saysYes line = true ∧
      [Act.call (.ask plan) (), .call .readLine (some line)] <:+: u ++ [entry plan]) :
    Approved spec plan u := by
  obtain ⟨preflight, hok, hmem⟩ := hvalidate
  refine ⟨⟨preflight, hok, ?_⟩, haccept.imp_right ?_⟩
  · exact (List.mem_append.mp hmem).resolve_right fun h => (by cases List.mem_singleton.mp h)
  · rintro ⟨line, hyes, hpart⟩
    refine ⟨line, hyes, (List.infix_concat_iff.mp hpart).resolve_left fun hsuffix => ?_⟩
    have hlast := hsuffix.getLast (by simp)
    simp at hlast

/-- What a destination's session has had before the entry, the binary has answered. -/
theorem approved_of_session {m : BackupModule} {y : Proc Call Call.Reply (Except Anyhow Unit)}
    (hv : (drive (answerCall spec.autoAccept) (runDestination d (m.streamIn ⟨spec.params⟩))).run.Run
      v y) (hvt : v <:+: u ++ [entry plan])
    (hentry : (⟨.session (.mark (.streamIn plan)), ()⟩ : Sigma Call.Reply) ∈ v.calls) :
    Approved spec plan u := by
  obtain ⟨y', hy'⟩ := exists_driven hv
  obtain ⟨w, z, hw, hpassed, hanswered⟩ := exists_session (relays_answerCall _) hy'
  obtain ⟨⟨preflight, hok, hvalidate⟩, haccept⟩ :=
    entries_of_run hw plan (hpassed ⟨.mark (.streamIn plan), ()⟩ hentry)
  apply Approved.of_concat
  · obtain ⟨u', hpart, hrun⟩ := hanswered _ hvalidate
    refine ⟨preflight, hok, ?_⟩
    rcases run_forward hrun with ⟨-, hend⟩ | ⟨r, rfl, hend⟩
    · exact absurd ⟨_, rfl⟩ hend
    · cases hend
      exact (hpart.trans hvt).subset (List.mem_singleton_self _)
  · obtain ⟨u', hpart, hrun⟩ := hanswered _ haccept
    cases hauto : spec.autoAccept with
    | true => exact .inl rfl
    | false =>
      rw [hauto] at hrun
      obtain ⟨line, hyes, rfl⟩ := run_promptYes hrun
      exact .inr ⟨line, hyes, hpart.trans hvt⟩

/-- A target that enters `stream_in` is a destination, and the plan was approved. -/
theorem approved_of_entry (hr : (runSpec d reg i spec).run.Run (u ++ [entry plan]) q) :
    spec.role = .destination ∧ Approved spec plan u := by
  generalize ht : u ++ [entry plan] = t at hr
  have hentry : (⟨.session (.mark (.streamIn plan)), ()⟩ : Sigma Call.Reply) ∈ t.calls := by
    rw [← ht, Hist.calls_append, Hist.calls_call]
    exact List.mem_append_right _ (List.mem_singleton_self _)
  cases stage_of_run hr with
  | missing _ => exact absurd hentry List.not_mem_nil
  | opening _ => exact absurd hentry List.not_mem_nil
  | unopened e => cases List.mem_singleton.mp hentry
  | connecting _ => cases List.mem_singleton.mp hentry
  | unconnected e =>
    rcases List.mem_cons.mp hentry with heq | hentry
    · cases heq
    · cases List.mem_singleton.mp hentry
  | @serving m v y hm hv =>
    have hlate : (⟨.session (.mark (.streamIn plan)), ()⟩ : Sigma Call.Reply) ∈ v.calls := by
      rcases List.mem_cons.mp hentry with heq | hentry
      · cases heq
      · exact (List.mem_cons.mp hentry).resolve_left fun heq => (by cases heq)
    unfold serveStep at hv
    cases hrole : spec.role with
    | source =>
      rw [hrole] at hv
      obtain ⟨y', hy'⟩ := exists_driven hv
      obtain ⟨w, z, hw, hpassed, -⟩ := exists_session relays_forward hy'
      have hmem := hpassed ⟨.mark (.streamIn plan), ()⟩ hlate
      exact absurd rfl ((unentered_runSource d _ _).calls hw _ hmem plan)
    | destination =>
      rw [hrole] at hv
      refine ⟨rfl, approved_of_session hv ?_ hlate⟩
      rw [ht]
      exact ((List.suffix_cons _ v).trans (List.suffix_cons _ _)).isInfix

theorem through_entry {specs : List TargetSpec}
    (ht : Task.Through (runSpec d reg) i specs (t ++ [entry plan]) q) :
    ∃ vs u spec, t = vs.flatten ++ u ∧ List.Forall₂ (Served d reg) (specs.take vs.length) vs ∧
      specs[vs.length]? = some spec ∧ spec.role = .destination ∧ Approved spec plan u := by
  generalize hx : t ++ [entry plan] = x at ht
  induction ht generalizing t with
  | done => exact absurd hx (by simp)
  | @within i spec specs u p q hu hp hq =>
    subst hx
    obtain ⟨hrole, happroved⟩ := approved_of_entry hu
    exact ⟨[], t, spec, rfl, .nil, rfl, hrole, happroved⟩
  | @failed i spec specs u e hu =>
    subst hx
    obtain ⟨hrole, happroved⟩ := approved_of_entry hu
    exact ⟨[], t, spec, rfl, .nil, rfl, hrole, happroved⟩
  | @next i spec specs v t' q hu _ ih =>
    rcases List.eq_nil_or_concat t' with rfl | ⟨t'', a, rfl⟩
    · rw [List.append_nil] at hx
      subst hx
      obtain ⟨hrole, happroved⟩ := approved_of_entry hu
      exact ⟨[], t, spec, rfl, .nil, rfl, hrole, happroved⟩
    · rw [List.concat_eq_append, ← List.append_assoc] at hx
      obtain ⟨rfl, hlast⟩ := List.append_inj' hx rfl
      cases hlast
      obtain ⟨vs, u, spec', rfl, hserved, hspec, hrole, happroved⟩ :=
        ih List.concat_eq_append.symm
      exact ⟨v :: vs, u, spec', (List.append_assoc _ _ _).symm,
        .cons (stage_of_run hu).served hserved, hspec, hrole, happroved⟩

theorem session_approved {path : String} {cfg : SessionConfig}
    (hr : (runSession d reg path).run.Run
      (.call (.fromPath path) (.ok cfg) :: (t ++ [entry plan])) q) :
    ∃ vs u spec, t = vs.flatten ++ u ∧
      List.Forall₂ (Served d reg) (cfg.targets.take vs.length) vs ∧
      cfg.targets[vs.length]? = some spec ∧ spec.role = .destination ∧ Approved spec plan u := by
  rcases Proc.Run.of_call hr with ⟨habsurd, -⟩ | ⟨r, t', heq, hrun⟩
  · cases habsurd
  · cases heq
    exact through_entry (Task.through_of_run hrun)

/-- A subcommand has failed before it did anything, or it runs as the first target of a
session with the same settings. -/
theorem run_target {module : String} {a : TargetCommand}
    (hr : (runTarget d reg module a).run.Run u q) :
    (u = [] ∧ ∃ e, q = .ret (.error e)) ∨ ∃ params, a.args.params = .ok params ∧
      (runSpec d reg 0 (a.spec module params)).run.Run u
        (withContext (place 0 (a.spec module params)) ⟨q⟩).run := by
  unfold runTarget found at hr
  cases hm : reg.get module with
  | none =>
    rw [hm] at hr
    obtain ⟨rfl, rfl⟩ := hr.of_ret
    exact .inl ⟨rfl, _, rfl⟩
  | some m =>
    rw [hm] at hr
    cases hparams : a.args.params with
    | error message =>
      simp only [hparams] at hr
      obtain ⟨rfl, rfl⟩ := hr.of_ret
      exact .inl ⟨rfl, _, rfl⟩
    | ok params =>
      simp only [hparams] at hr
      have hspec : runSpec d reg 0 (a.spec module params) =
          withContext (place 0 (a.spec module params))
            (execute d m a.role a.transport params a.yes) := by
        unfold runSpec found place TargetCommand.spec
        rw [hm]
        rfl
      have hrun : (execute d m a.role a.transport params a.yes).run.Run u q := hr
      refine .inr ⟨params, rfl, ?_⟩
      rw [hspec]
      exact run_withContext _ hrun

theorem target_approved {module : String} {a : TargetCommand}
    (hr : (runTarget d reg module a).run.Run (u ++ [entry plan]) q) :
    a.role = .destination ∧ ∃ params, a.args.params = .ok params ∧
      Approved (a.spec module params) plan u := by
  rcases run_target hr with ⟨habsurd, -⟩ | ⟨params, hparams, hrun⟩
  · exact absurd habsurd (by simp)
  · obtain ⟨hrole, happroved⟩ := approved_of_entry hrun
    exact ⟨hrole, params, hparams, happroved⟩

/-- However `rust-backup run` goes, `stream_in` is entered for a destination target only,
when all targets before it were served, and when the plan that is applied was validated
and either the target says that plans are accepted or the operator was shown that plan
and typed yes.  So it is with a subcommand, whose one target is that of its flags. -/
theorem restore_approved (d : Deps) (reg : ModuleRegistry) (plan : BackupPlan) :
    (∀ path cfg t q, (runSession d reg path).run.Run
        (.call (.fromPath path) (.ok cfg) :: (t ++ [entry plan])) q →
      ∃ vs u spec, t = vs.flatten ++ u ∧
        List.Forall₂ (Served d reg) (cfg.targets.take vs.length) vs ∧
        cfg.targets[vs.length]? = some spec ∧ spec.role = .destination ∧
        Approved spec plan u) ∧
    ∀ module a u q, (runTarget d reg module a).run.Run (u ++ [entry plan]) q →
      a.role = .destination ∧ ∃ params, a.args.params = .ok params ∧
        Approved (a.spec module params) plan u :=
  ⟨fun _ _ _ _ hr => session_approved hr, fun _ _ _ _ hr => target_approved hr⟩

end Entry

/-! ## A restore that was asked for -/

/-- The sample destination receives its plan, and the operator types yes. -/
theorem exists_entered : ∃ v y, (serveStep sampleDeps sampleModule sampleSpec).run.Run
    (v ++ [entry samplePlan]) y := by
  have hseg := isFrame_frameBytes (fits_samplePlan sampleDeps) (decode_samplePlan sampleDeps)
  obtain ⟨w, hw, -, -, hcalls, -⟩ := goes_runDestination (q := .fresh) (oneEvent (.ok ())) .pass
    hseg rfl
  have hanswered : ∀ c ∈ w.calls, ∃ u, (answerCall false c.1).Run u (.ret c.2) := by
    rw [hcalls]
    intro c hc
    simp only [List.mem_cons, List.not_mem_nil, or_false] at hc
    rcases hc with rfl | rfl | rfl | rfl
    · exact ⟨_, .head .call (.refl _)⟩
    · exact ⟨_, .head .call (.refl _)⟩
    · have hyes : saysYes " Yes\n" = true := by decide
      have hrun : (promptYes samplePlan).Run
          [.call (.ask samplePlan) (), .call .readLine (some " Yes\n")]
          (.ret (saysYes " Yes\n")) := .head .call (.head .call (.refl _))
      rw [hyes] at hrun
      exact ⟨_, hrun⟩
    · exact ⟨_, .head .call (.refl _)⟩
  obtain ⟨v, hv⟩ := Proc.exists_carries hanswered
  obtain ⟨k, hk, -⟩ := inside_applyPayload sampleDeps (oneEvent (.ok ())) samplePlan .fresh
  rw [hk] at hw
  have hrun := Proc.Run.tail (a := entry samplePlan) (hw.interpret hv) .call
  exact ⟨v, _, hrun.bind _⟩

/-- The operator's yes lets the sample destination restore. -/
theorem restore_approved_typed :
    ∃ t q, (runSession sampleDeps sampleRegistry "targets.yaml").run.Run
        (.call (.fromPath "targets.yaml") (.ok sampleConfig) :: (t ++ [entry samplePlan])) q ∧
      ∃ vs u spec, t = vs.flatten ++ u ∧
        List.Forall₂ (Served sampleDeps sampleRegistry) (sampleConfig.targets.take vs.length) vs ∧
        sampleConfig.targets[vs.length]? = some spec ∧ spec.role = .destination ∧
        Approved spec samplePlan u := by
  obtain ⟨v, y, hv⟩ := exists_entered
  obtain ⟨p, hspec⟩ : ∃ p, (runSpec sampleDeps sampleRegistry 0 sampleSpec).run.Run
      (did (openStep sampleSpec) (.ok ()) :: did (connectStep sampleSpec) (.ok ()) ::
        (v ++ [entry samplePlan])) p := by
    rw [runSpec_of_get get_sampleRegistry]
    exact exists_withContext _ (.head .call (.head .call hv))
  obtain ⟨q, hsession⟩ := exists_session_run hspec
  have hr : (runSession sampleDeps sampleRegistry "targets.yaml").run.Run
      (.call (.fromPath "targets.yaml") (.ok sampleConfig) ::
        ((did (openStep sampleSpec) (.ok ()) :: did (connectStep sampleSpec) (.ok ()) :: v) ++
          [entry samplePlan])) q := hsession
  exact ⟨_, q, hr, (restore_approved sampleDeps sampleRegistry samplePlan).1 _ _ _ _ hr⟩

end RustBackup.Cli
