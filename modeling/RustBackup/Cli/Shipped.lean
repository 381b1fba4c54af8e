/-
  Cli/Shipped.lean --- the binary with its four backends refuses every target.

  Sources: crates/rust-backup/src/main.rs (`build_registry`, `run_session`, `run_target`),
  crates/rb-{postgres,mongodb,filesystem,s3}/src/lib.rs.

  No object of the backends lets a source past its fingerprint or a destination past its
  preflight.  So no target is served, nobody is asked, and a channel never carries more
  than the refusal.
-/
import RustBackup.Cli.Approval
import RustBackup.Core.Stubs

set_option autoImplicit false

namespace RustBackup.Cli

open RustBackup.Serde RustBackup.Io RustBackup.Core

/-- `build_registry`. -/
def buildRegistry : ModuleRegistry :=
  (((ModuleRegistry.new.register Module.postgres.backupModule).register
    Module.mongodb.backupModule).register Module.filesystem.backupModule).register
    Module.s3.backupModule

/-- Every backend is found under its name. -/
theorem get_buildRegistry (m : Module) : buildRegistry.get m.name = some m.backupModule := by
  unfold buildRegistry
  simp only [ModuleRegistry.get_register]
  cases m <;> rfl

/-- The replies that the backends give. -/
def Shipped (why : Json → String) : Sigma Call.Reply → Prop
  | ⟨.setup (.openSource name params), r⟩ => ∃ m : Module, m.name = name ∧ r = m.openWith why params
  | ⟨.setup (.openDestination name params), r⟩ =>
      ∃ m : Module, m.name = name ∧ r = m.openWith why params
  | ⟨.session .fingerprint, r⟩ => ∃ m : Module, r = m.fingerprint
  | ⟨.session .analyze, r⟩ => ∃ m : Module, r = m.analyze
  | ⟨.session (.validate plan), r⟩ => ∃ m : Module, r = m.validate plan
  | _ => True

/-- A call that a target is refused with. -/
inductive Opens : Call → Prop where
  | setup (s : Setup) : Opens (.setup s)
  | fingerprint : Opens (.session .fingerprint)
  | session {c : Core.Call} (hc : IsOpening c) : Opens (.session c)

/-- All calls are those of a refusal, and so are the bytes. -/
structure Refused (d : Deps) (u : Hist Call Call.Reply)
    (q : Proc Call Call.Reply (Except Anyhow Unit)) : Prop where
  opens : ∀ c ∈ u.calls, Opens c.1
  outs : u.outs <+: refusalBytes d
  fails : q ≠ .ret (.ok ())

section Sessions

variable {why : Json → String} {d : Deps} {autoAccept : Bool}
variable {v : Hist Call Call.Reply} {y : Proc Call Call.Reply (Except Anyhow Unit)}

theorem answerCall_of_opening {c : Core.Call} (hc : IsOpening c) :
    answerCall autoAccept c = forward c := by
  cases hc with
  | openStream => rfl
  | validate plan => rfl
  | quiet he =>
    cases he
    rfl

theorem avoids_forward (c : Core.Call) : (forward c).Avoids .write :=
  ⟨by simp, fun _ => trivial⟩

theorem avoids_answerCall (c : Core.Call) : (answerCall autoAccept c).Avoids .write := by
  cases c with
  | accept plan =>
    unfold answerCall
    split
    · exact trivial
    · refine ⟨by simp, fun _ => ⟨by simp, fun r => ?_⟩⟩
      cases r with
      | some line => exact trivial
      | none => exact trivial
  | _ => exact avoids_forward _

/-- What was answered to the session is an answer in the history of the binary. -/
theorem not_passed {w : Hist Core.Call Core.Call.Reply}
    (hw : ∀ c ∈ w.calls, ∃ u, u <:+: v ∧ (answerCall autoAccept c.1).Run u (.ret c.2))
    (hs : ∀ c ∈ v.calls, Shipped why c) : ¬ Passed w := by
  rintro ⟨plan, preflight, hok, hmem⟩
  obtain ⟨u, hpart, hrun⟩ := hw _ hmem
  rcases run_forward hrun with ⟨-, hend⟩ | ⟨r, rfl, hend⟩
  · exact absurd ⟨_, rfl⟩ hend
  · cases hend
    have hcall : (⟨.session (.validate plan), .ok preflight⟩ : Sigma Call.Reply) ∈ v.calls :=
      List.mem_filterMap.mpr ⟨_, hpart.subset (List.mem_singleton_self _), rfl⟩
    obtain ⟨m, hm⟩ := hs _ hcall
    rw [Module.not_ok_of_validate hm] at hok
    cases hok

/-- A session that is about to ask for the decision has a plan that passed. -/
theorem passed_of_accept {streamIn : BackupPlan → StreamInProg} {p : Progress}
    {w : Hist Core.Call Core.Call.Reply} {plan : BackupPlan}
    {k : Bool → Proc Core.Call Core.Call.Reply (Result BackupPlan × Progress)}
    (hw : ((runDestination d streamIn).run p).Run w (.call (.accept plan) k)) : Passed w := by
  by_contra hno
  have hno' : ¬ Passed (w ++ [.call (.accept plan) true]) := by
    rintro ⟨plan', preflight, hok, hmem⟩
    rw [Hist.calls_append, List.mem_append] at hmem
    refine hno ⟨plan', preflight, hok, hmem.resolve_right fun hmem => ?_⟩
    cases List.mem_singleton.mp hmem
  have haccept := held_of_run (hw.tail .call) hno' _ (mem_calls_concat w (.accept plan) true)
  cases haccept with
  | quiet he => cases he

/-- A destination's session. -/
theorem refused_destination {streamIn : BackupPlan → StreamInProg}
    (hv : (drive (answerCall autoAccept) (runDestination d streamIn)).run.Run v y)
    (hs : ∀ c ∈ v.calls, Shipped why c) : Refused d v y := by
  obtain ⟨y', hy'⟩ := exists_driven hv
  obtain ⟨w, z, hw, hanswered, houts, hmade⟩ := hy'.exists_made
  have hno := not_passed hanswered hs
  refine ⟨fun c hc => ?_, ?_, ?_⟩
  · rcases hmade c hc with ⟨c', hmem, u, hrun, hcu⟩ | ⟨e, k, u, q', rfl, hrun, hq', hcu⟩
    · have hopening := held_of_run hw hno c' hmem
      rw [answerCall_of_opening hopening] at hrun
      rcases run_forward hrun with ⟨-, hend⟩ | ⟨r, rfl, -⟩
      · exact absurd ⟨_, rfl⟩ hend
      · obtain rfl := List.mem_singleton.mp hcu
        exact .session hopening
    · cases e with
      | accept plan => exact absurd (passed_of_accept hw) hno
      | _ =>
        rcases run_forward hrun with ⟨rfl, -⟩ | ⟨r, -, rfl⟩
        · exact absurd hcu List.not_mem_nil
        · exact absurd ⟨r, rfl⟩ hq'
  · rw [houts avoids_answerCall]
    exact outs_of_run hw hno
  · rintro rfl
    obtain ⟨w, a, p', hw, hcarries⟩ := drive_ran hv
    exact not_passed (fun c hc => hcarries.exists_answer hc) hs (passed_of_ok hw)

/-- A source's session. -/
theorem refused_source {streamOut : BackupPlan → SinkProg}
    (hv : (drive forward (runSource d streamOut)).run.Run v y)
    (hs : ∀ c ∈ v.calls, Shipped why c) : Refused d v y := by
  rcases Proc.Run.of_call hv with ⟨rfl, rfl⟩ | ⟨r, t, rfl, hr⟩
  · exact ⟨fun c hc => absurd hc List.not_mem_nil, List.nil_prefix, fun hend => (by cases hend)⟩
  · obtain ⟨m, rfl⟩ := hs ⟨.session .fingerprint, r⟩ (List.mem_cons_self)
    obtain ⟨rfl, rfl⟩ := hr.of_ret
    refine ⟨fun c hc => ?_, List.nil_prefix, fun hend => (by cases hend)⟩
    obtain rfl := List.mem_singleton.mp hc
    exact .fingerprint

end Sessions

/-! ## Every target -/

section Targets

variable {why : Json → String} {d : Deps} {reg : ModuleRegistry} {i : Nat} {spec : TargetSpec}
variable {u t : Hist Call Call.Reply} {q : Proc Call Call.Reply (Except Anyhow Unit)}

theorem refused_serveStep {m : BackupModule} (hv : (serveStep d m spec).run.Run u q)
    (hs : ∀ c ∈ u.calls, Shipped why c) : Refused d u q := by
  unfold serveStep at hv
  cases hrole : spec.role with
  | source =>
    rw [hrole] at hv
    exact refused_source hv hs
  | destination =>
    rw [hrole] at hv
    exact refused_destination hv hs

/-- A set-up belongs to a refusal. -/
theorem Refused.did (hr : Refused d u q) (s : Setup) (r : Result Unit) :
    Refused d (Cli.did s r :: u) q := by
  refine ⟨fun c hc => ?_, hr.outs, hr.fails⟩
  rcases List.mem_cons.mp hc with rfl | hlater
  · exact .setup s
  · exact hr.opens c hlater

theorem refused_nil (hq : q ≠ .ret (.ok ())) : Refused d [] q :=
  ⟨fun _ hc => absurd hc List.not_mem_nil, List.nil_prefix, hq⟩

theorem refused_spec (hr : (runSpec d reg i spec).run.Run u q)
    (hs : ∀ c ∈ u.calls, Shipped why c) : Refused d u q := by
  cases stage_of_run hr with
  | missing _ => exact refused_nil fun hend => (by cases hend)
  | opening hp => exact refused_nil fun hend => hp ⟨_, hend⟩
  | unopened e => exact (refused_nil fun hend => (by cases hend)).did _ _
  | connecting hp => exact (refused_nil fun hend => hp ⟨_, hend⟩).did _ _
  | unconnected e => exact ((refused_nil fun hend => (by cases hend)).did _ _).did _ _
  | serving _ hv =>
    have hrefused := refused_serveStep hv fun c hc =>
      hs c (List.mem_cons_of_mem _ (List.mem_cons_of_mem _ hc))
    refine (Refused.did ⟨hrefused.opens, hrefused.outs, fun hend => ?_⟩ _ _).did _ _
    have hfin : (withContext (place i spec) ⟨_⟩).run.Finished := ⟨_, hend⟩
    obtain ⟨r, rfl⟩ := hfin.of_bind
    cases r with
    | error e => cases hend
    | ok _ => exact hrefused.fails rfl

/-- Of all targets only the first is set up, and the program does not succeed. -/
theorem refused_session {path : String} {cfg : SessionConfig}
    (hr : (runSession d reg path).run.Run (.call (.fromPath path) (.ok cfg) :: t) q)
    (hs : ∀ c ∈ t.calls, Shipped why c) :
    (cfg.targets = [] ∧ t = []) ∨ ∃ spec rest, cfg.targets = spec :: rest ∧
      setups t <+: [openStep spec, connectStep spec] ∧ Refused d t q := by
  rcases Proc.Run.of_call hr with ⟨habsurd, -⟩ | ⟨r, t', heq, hrun⟩
  · cases habsurd
  · cases heq
    have hthrough := Task.through_of_run hrun
    generalize htargets : cfg.targets = targets at hthrough
    cases hthrough with
    | done => exact .inl ⟨rfl, rfl⟩
    | @within _ spec rest _ p _ hu hp hq =>
      have hrefused := refused_spec hu hs
      refine .inr ⟨spec, rest, rfl, (stage_of_run hu).setups_isPrefix, ?_⟩
      exact ⟨hrefused.opens, hrefused.outs, fun hend => hq ⟨_, hend⟩⟩
    | @failed _ spec rest _ e hu =>
      have hrefused := refused_spec hu hs
      refine .inr ⟨spec, rest, rfl, (stage_of_run hu).setups_isPrefix, ?_⟩
      exact ⟨hrefused.opens, hrefused.outs, fun hend => (by cases hend)⟩
    | @next _ spec rest u t' _ hu _ =>
      have hrefused := refused_spec hu fun c hc =>
        hs c (by rw [Hist.calls_append]; exact List.mem_append_left _ hc)
      exact absurd rfl hrefused.fails

/-- With the backends as they are, whatever the channels carry and the parameters say,
`rust-backup run` succeeds only if there are no targets, and otherwise goes no further than
the first; a subcommand does not succeed.  Nobody is asked, neither `stream_out` nor
`stream_in` is entered, and all that is ever written to a channel is a refusal. -/
theorem shipped_refuses (why : Json → String) (d : Deps) :
    (∀ path cfg (t : Hist Call Call.Reply) q, (runSession d buildRegistry path).run.Run
        (.call (.fromPath path) (.ok cfg) :: t) q → (∀ c ∈ t.calls, Shipped why c) →
      (cfg.targets = [] ∧ t = []) ∨ ∃ spec rest, cfg.targets = spec :: rest ∧
        setups t <+: [openStep spec, connectStep spec] ∧ Refused d t q) ∧
    ∀ module a (u : Hist Call Call.Reply) q, (runTarget d buildRegistry module a).run.Run u q →
      (∀ c ∈ u.calls, Shipped why c) → Refused d u q := by
  refine ⟨fun path cfg t q hr hs => refused_session hr hs, fun module a u q hr hs => ?_⟩
  rcases run_target hr with ⟨rfl, e, rfl⟩ | ⟨params, -, hrun⟩
  · exact refused_nil fun hend => (by cases hend)
  · have hrefused := refused_spec hrun hs
    refine ⟨hrefused.opens, hrefused.outs, fun hend => hrefused.fails ?_⟩
    rw [hend]
    rfl

end Targets

/-- A directory to back up. -/
def directorySpec : TargetSpec where
  module := "filesystem"
  role := .source
  transport := ⟨"localhost", "nightly", none, 1, true, false⟩
  params := .obj [("root", .str "/srv")]
  autoAccept := false

/-- Its source is opened and connected, and fails at the fingerprint. -/
theorem shipped_refuses_directory :
    ∃ q, (runSession sampleDeps buildRegistry "targets.yaml").run.Run
        [.call (.fromPath "targets.yaml") (.ok ⟨[directorySpec]⟩),
          did (openStep directorySpec) (.ok ()), did (connectStep directorySpec) (.ok ()),
          .call (.session .fingerprint) Module.filesystem.fingerprint] q ∧
      q ≠ .ret (.ok ()) := by
  obtain ⟨p, hspec⟩ : ∃ p, (runSpec sampleDeps buildRegistry 0 directorySpec).run.Run
      [did (openStep directorySpec) (.ok ()), did (connectStep directorySpec) (.ok ()),
        .call (.session .fingerprint) Module.filesystem.fingerprint] p := by
    rw [runSpec_of_get (get_buildRegistry .filesystem)]
    exact exists_withContext _ (.head .call (.head .call (.head .call (.refl _))))
  obtain ⟨q, hr⟩ := exists_session_run hspec
  have hshipped : ∀ c ∈ Hist.calls [did (openStep directorySpec) (.ok ()),
      did (connectStep directorySpec) (.ok ()),
      .call (.session .fingerprint) Module.filesystem.fingerprint], Shipped (fun _ => "") c := by
    intro c hc
    rcases List.mem_cons.mp hc with rfl | hc
    · exact ⟨.filesystem, rfl, rfl⟩
    rcases List.mem_cons.mp hc with rfl | hc
    · exact trivial
    · obtain rfl := List.mem_singleton.mp hc
      exact ⟨.filesystem, rfl⟩
  rcases (shipped_refuses _ sampleDeps).1 _ _ _ _ hr hshipped with ⟨habsurd, -⟩ | hrefused
  · cases habsurd
  · obtain ⟨_, _, -, -, hrefused⟩ := hrefused
    exact ⟨q, hr, hrefused.fails⟩

end RustBackup.Cli
