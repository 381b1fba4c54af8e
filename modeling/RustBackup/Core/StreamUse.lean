/-
  Core/StreamUse.lean --- each side asks for its stream once, and uses no stream before.

  Source: crates/rb-core/src/session.rs.

  `streamNext` is the protocol of a side that may be given one stream: the source by
  `accept_stream`, the destination by `open_stream`.  Every run of either side conforms
  to it, whatever its module does, and reads and writes only once it has the stream.
-/
import RustBackup.Core.OneStream
import RustBackup.Core.Gate

set_option autoImplicit false

namespace RustBackup.Core

open RustBackup.Serde RustBackup.Io

/-- The two sides of a session. -/
inductive Side where
  | source | destination
  deriving DecidableEq

/-- The protocol: the state says whether the side has its stream. -/
def streamNext (side : Side) (held : Bool) : Sigma Call.Reply → Option Bool
  | ⟨.acceptStream, .ok _⟩ => if side = .source ∧ held = false then some true else none
  | ⟨.openStream, .ok _⟩ => if side = .destination ∧ held = false then some true else none
  | _ => some held

/-- Before it has its stream, a side only makes calls. -/
def HoldsFirst (k : Proc.Kind) (held : Bool) : Prop := held = true ∨ k = .call

/-- A call that asks for no stream. -/
def AsksNone (e : Call) : Prop := e ≠ .acceptStream ∧ e ≠ .openStream

/-- A call that the framing makes. -/
inductive IsQuiet : Call → Prop where
  | flush : IsQuiet .flush

/-- A call that a destination makes once it has entered `stream_in`. -/
inductive IsInside : Call → Prop where
  | quiet {e : Call} (he : IsQuiet e) : IsInside e
  | next (r : Result ChunkEvent) : IsInside (.mark (.next r))
  | returned (r : Result Unit) : IsInside (.mark (.streamInReturned r))
  | complete (n : UInt64) : IsInside (.mark (.restoreComplete n))
  | unexpected : IsInside (.mark .unexpectedCompletion)

/-- A call that a source makes once it has its stream. -/
inductive IsStreaming : Call → Prop where
  | quiet {e : Call} (he : IsQuiet e) : IsStreaming e
  | entered (plan : BackupPlan) : IsStreaming (.mark (.streamOut plan))
  | sink (c : SinkCall) (r : Result Unit) : IsStreaming (.mark (.sink c r))
  | returned (r : Result Unit) : IsStreaming (.mark (.streamOutReturned r))
  | fingerprint : IsStreaming .fingerprint

theorem IsQuiet.eq_flush {e : Call} (he : IsQuiet e) : e = .flush := by
  cases he
  rfl

theorem IsQuiet.asksNone {e : Call} (he : IsQuiet e) : AsksNone e := by
  cases he
  exact ⟨by simp, by simp⟩

theorem IsInside.asksNone {e : Call} (he : IsInside e) : AsksNone e := by
  cases he with
  | quiet he => exact he.asksNone
  | _ => exact ⟨by simp, by simp⟩

theorem IsStreaming.asksNone {e : Call} (he : IsStreaming e) : AsksNone e := by
  cases he with
  | quiet he => exact he.asksNone
  | _ => exact ⟨by simp, by simp⟩

theorem IsStreaming.ne_streamIn {e : Call} (he : IsStreaming e) (plan : BackupPlan) :
    e ≠ .mark (.streamIn plan) := by
  rintro rfl
  cases he with
  | quiet he => cases he

theorem IsInside.ne_streamIn {e : Call} (he : IsInside e) (plan : BackupPlan) :
    e ≠ .mark (.streamIn plan) := by
  rintro rfl
  cases he with
  | quiet he => cases he

theorem asksNone_mark (m : Mark) : AsksNone (.mark m) := ⟨by simp, by simp⟩

theorem streamNext_of_asksNone {side : Side} {held : Bool} {e : Call} {r : e.Reply}
    (he : AsksNone e) : streamNext side held ⟨e, r⟩ = some held := by
  cases e with
  | acceptStream => exact absurd rfl he.1
  | openStream => exact absurd rfl he.2
  | _ => rfl

namespace Metered

variable {α β : Type} {P : Call → Prop}

/-- Every call that the task can ever make is one of `P`. -/
def Only (P : Call → Prop) (x : Metered α) : Prop := ∀ p, (x.run p).Only P

theorem only_bind {x : Metered α} {f : α → Metered β} (hx : x.Only P) (hf : ∀ a, (f a).Only P) :
    (x >>= f).Only P := by
  intro p
  apply (hx p).bind
  intro o
  obtain ⟨r, p'⟩ := o
  cases r with
  | ok a => exact hf a p'
  | error e => exact trivial

theorem only_lift {x : Session α} (hx : x.run.Only P) : (monadLift x : Metered α).Only P :=
  fun _ => hx.bind fun _ => trivial

theorem only_attempt {x : Metered α} (hx : x.Only P) : (attempt x).Only P :=
  fun p => (hx p).bind fun _ => trivial

theorem only_ofResult (r : Result α) : (ofResult r).Only P := fun _ => trivial

theorem only_pure (a : α) : (pure a : Metered α).Only P := fun _ => trivial

theorem Only.asksNone {x : Metered α} (hx : x.Only IsQuiet) : x.Only AsksNone :=
  fun p => (hx p).mono fun _ he => he.asksNone

theorem Only.streaming {x : Metered α} (hx : x.Only IsQuiet) : x.Only IsStreaming :=
  fun p => (hx p).mono fun _ he => .quiet he

theorem Only.inside {x : Metered α} (hx : x.Only IsQuiet) : x.Only IsInside :=
  fun p => (hx p).mono fun _ he => .quiet he

theorem only_count (f : Progress → Progress) : (count f).Only P := fun _ => trivial

theorem only_bytes : bytes.Only P := fun _ => trivial

end Metered

/-! ## The parts of both sides -/

section Parts

variable (d : Deps)

theorem only_taskBind {α β : Type} {P : Call → Prop} {x : Session α} {f : α → Session β}
    (hx : x.run.Only P) (hf : ∀ a, (f a).run.Only P) : (x >>= f).run.Only P := by
  apply hx.bind
  intro r
  cases r with
  | ok a => exact hf a
  | error e => exact trivial

theorem only_mark {P : Call → Prop} {m : Mark} (hm : P (.mark m)) :
    (monadLift (mark m) : Metered Unit).Only P :=
  Metered.only_lift ⟨hm, fun _ => trivial⟩

theorem quiet_writeAllIdle (bs : Bytes) : (writeAllIdle bs).run.Only IsQuiet :=
  (avoids_writeAll (by simp) _ _ _ bs).only

theorem quiet_readExactIdle (n : Nat) : (readExactIdle n).run.Only IsQuiet :=
  (avoids_readExact (by simp) _ _ _ n).only

theorem quiet_sendFrame {F : Type} [Frame F] (frame : F) :
    (sendFrame d frame).run.Only IsQuiet := by
  unfold sendFrame
  simp only
  split
  · exact trivial
  · apply only_taskBind (quiet_writeAllIdle _)
    intro _
    apply only_taskBind (quiet_writeAllIdle _)
    intro _
    refine ⟨.flush, fun r => ?_⟩
    cases r with
    | true => exact trivial
    | false => exact trivial

theorem quiet_recvFrame (F : Type) [Frame F] : (recvFrame F d).run.Only IsQuiet := by
  apply (Proc.Avoids.only (avoids_readExact (by simp) _ _ _ 4)).bind
  intro r
  cases r with
  | error e => cases e <;> exact trivial
  | ok lenBuf =>
    unfold recvBody
    simp only
    split
    · exact trivial
    · apply only_taskBind (quiet_readExactIdle _)
      intro body
      cases decode F d body with
      | none => exact trivial
      | some frame => exact trivial

theorem quiet_recvAck : (recvAck d).run.Only IsQuiet := by
  apply only_taskBind (quiet_recvFrame d ControlFrame)
  intro frame
  cases frame with
  | none => exact trivial
  | some frame =>
    cases frame with
    | planAck accepted reason => cases accepted <;> exact trivial
    | _ => exact trivial

theorem quiet_recvPlan : (recvPlan d).run.Only IsQuiet := by
  apply only_taskBind (quiet_recvFrame d ControlFrame)
  intro frame
  cases frame with
  | none => exact trivial
  | some frame => cases frame <;> exact trivial

theorem quiet_sinkCall (c : SinkCall) : (c.perform d).Only IsQuiet := by
  have hsend : ∀ frame : DataFrame, (monadLift (sendFrame d frame) : Metered Unit).Only IsQuiet :=
    fun frame => Metered.only_lift (quiet_sendFrame d frame)
  cases c with
  | sendChunk itemId offset data =>
    simp only [SinkCall.perform, Core.sendChunk]
    split
    · exact Metered.only_ofResult _
    · apply Metered.only_bind (hsend _)
      intro _
      apply Metered.only_bind (Metered.only_lift (quiet_writeAllIdle data))
      intro _
      apply Metered.only_count
  | finishItem itemId total blake3 =>
    exact Metered.only_bind (hsend _) fun _ => Metered.only_count _
  | finish => exact hsend _

theorem streaming_streamOut (prog : SinkProg) : (prog.perform d).Only IsStreaming := by
  induction prog with
  | ret r => exact Metered.only_ofResult r
  | call c k ih =>
    apply Metered.only_bind (Metered.only_attempt (quiet_sinkCall d c).streaming)
    intro r
    exact Metered.only_bind (only_mark (.sink c r)) fun _ => ih r

theorem quiet_next : (next d).Only IsQuiet := by
  apply Metered.only_bind (Metered.only_lift (quiet_recvFrame d DataFrame))
  intro frame
  cases frame with
  | none => exact Metered.only_pure _
  | some frame =>
    cases frame with
    | streamEnd => exact Metered.only_pure _
    | itemEnd itemId total blake3 =>
      exact Metered.only_bind (Metered.only_count _) fun _ => Metered.only_pure _
    | chunkStart itemId offset len blake3 =>
      apply Metered.only_bind (Metered.only_lift (quiet_readExactIdle len.toNat))
      intro data
      simp only
      split
      · exact Metered.only_ofResult _
      · exact Metered.only_bind (Metered.only_count _) fun _ => Metered.only_pure _

theorem inside_streamIn (prog : StreamInProg) : (prog.perform d).Only IsInside := by
  induction prog with
  | ret r => exact Metered.only_ofResult r
  | next k ih =>
    apply Metered.only_bind (Metered.only_attempt (quiet_next d).inside)
    intro r
    exact Metered.only_bind (only_mark (.next r)) fun _ => ih r

/-- What a source does once it has its answer. -/
theorem streaming_streamSource (streamOut : BackupPlan → SinkProg) (fp : String)
    (plan : BackupPlan) : (streamSource d streamOut fp plan).Only IsStreaming := by
  refine Metered.only_bind (only_mark (.entered plan)) fun _ => ?_
  refine Metered.only_bind (Metered.only_attempt (streaming_streamOut d _)) fun r => ?_
  refine Metered.only_bind (only_mark (.returned r)) fun _ => ?_
  refine Metered.only_bind (Metered.only_ofResult r) fun _ => ?_
  refine Metered.only_bind (quiet_sinkCall d .finish).streaming fun _ => ?_
  refine Metered.only_bind Metered.only_bytes fun n => ?_
  refine Metered.only_bind (Metered.only_lift (quiet_sendFrame d _)).streaming fun _ => ?_
  refine Metered.only_bind (Metered.only_lift ⟨.fingerprint, fun _ => trivial⟩) fun fp' => ?_
  split
  · exact Metered.only_ofResult _
  · exact Metered.only_pure _

/-- What it does once it has its stream. -/
theorem streaming_exchange (streamOut : BackupPlan → SinkProg) (fp : String)
    (plan : BackupPlan) : (do sendPlan d plan; recvAck d; streamSource d streamOut fp plan :
      Metered SourceOutcome).Only IsStreaming :=
  Metered.only_bind (Metered.only_lift (quiet_sendFrame d _)).streaming fun _ =>
    Metered.only_bind (Metered.only_lift (quiet_recvAck d)).streaming fun _ =>
      streaming_streamSource d streamOut fp plan

/-- A destination that applies the payload enters `stream_in` first, and once. -/
theorem inside_applyPayload (streamIn : BackupPlan → StreamInProg) (plan : BackupPlan)
    (p : Progress) : ∃ k, (applyPayload d streamIn plan).run p = .call (.mark (.streamIn plan)) k ∧
      ∀ r, (k r).Only IsInside := by
  have hmark : ∀ m, IsInside (.mark m) → (monadLift (mark m) : Metered Unit).Only IsInside :=
    fun _ => only_mark
  have hwarn : (do mark .unexpectedCompletion; return plan : Metered BackupPlan).Only IsInside :=
    Metered.only_bind (hmark _ .unexpected) fun _ => Metered.only_pure _
  have hrest : (do
      let r ← Metered.attempt ((streamIn plan).perform d)
      mark (.streamInReturned r)
      Metered.ofResult r
      let frame ← recvFrame ControlFrame d
      complete plan frame : Metered BackupPlan).Only IsInside := by
    refine Metered.only_bind (Metered.only_attempt (inside_streamIn d _)) fun r => ?_
    refine Metered.only_bind (hmark _ (.returned r)) fun _ => ?_
    refine Metered.only_bind (Metered.only_ofResult r) fun _ => ?_
    refine Metered.only_bind (Metered.only_lift (quiet_recvFrame d ControlFrame)).inside
      fun frame => ?_
    cases frame with
    | none => exact hwarn
    | some frame =>
      cases frame with
      | plan plan' => exact hwarn
      | planAck accepted reason => exact hwarn
      | done n blake3 =>
        exact Metered.only_bind (hmark _ (.complete n)) fun _ => Metered.only_pure _
      | abort reason => exact Metered.only_ofResult _
  exact ⟨_, rfl, fun _ => hrest p⟩

theorem asksNone_applyPayload (streamIn : BackupPlan → StreamInProg) (plan : BackupPlan) :
    (applyPayload d streamIn plan).Only AsksNone := by
  intro p
  obtain ⟨k, hk, hinside⟩ := inside_applyPayload d streamIn plan p
  rw [hk]
  exact ⟨asksNone_mark _, fun r => (hinside r).mono fun _ he => he.asksNone⟩

theorem asksNone_answer (streamIn : BackupPlan → StreamInProg) (plan : BackupPlan)
    (preflight : Preflight) (approved : Bool) :
    (answer d streamIn plan preflight approved).Only AsksNone := by
  apply Metered.only_bind (Metered.only_lift (quiet_sendFrame d _)).asksNone
  intro _
  cases approved with
  | false => exact Metered.only_ofResult _
  | true => exact asksNone_applyPayload d streamIn plan

end Parts

/-! ## Both sides -/

theorem conforms_of_asksNone {α : Type} {side : Side} {p : Proc Call Call.Reply α}
    (hp : p.Only AsksNone) :
    p.Conforms (streamNext side) HoldsFirst (fun _ _ => True) true := by
  have hconf : p.Conforms (streamNext side) HoldsFirst (fun m' _ => m' = true) true :=
    hp.conforms (fun _ => .inl rfl) fun _ _ he => streamNext_of_asksNone he
  exact hconf.mono fun _ _ _ => trivial

/-- A side that was given its stream has it. -/
theorem held_of_mem {side : Side} {h : Hist Call Call.Reply} {held : Bool}
    (hafter : Proc.after (streamNext side) false h = some held)
    (hmem : (⟨.acceptStream, .ok ()⟩ : Sigma Call.Reply) ∈ h.calls ∨
      (⟨.openStream, .ok ()⟩ : Sigma Call.Reply) ∈ h.calls) : held = true := by
  have hgiven : ∀ {c : Sigma Call.Reply}, c = ⟨.acceptStream, .ok ()⟩ ∨ c = ⟨.openStream, .ok ()⟩ →
      ∀ m m', streamNext side m c = some m' → m' = true := by
    rintro c (rfl | rfl) m m' hnext
    · simp only [streamNext, Option.ite_none_right_eq_some, Option.some.injEq] at hnext
      exact hnext.2.symm
    · simp only [streamNext, Option.ite_none_right_eq_some, Option.some.injEq] at hnext
      exact hnext.2.symm
  have hkeep : ∀ (m : Bool) (c : Sigma Call.Reply) (m' : Bool), m = true →
      streamNext side m c = some m' → m' = true := by
    rintro m c m' rfl hnext
    unfold streamNext at hnext
    split at hnext
    · simp at hnext
    · simp at hnext
    · exact (Option.some.inj hnext).symm
  rcases hmem with hmem | hmem
  · exact Proc.after_of_mem _ (hgiven (.inl rfl)) hkeep hafter hmem
  · exact Proc.after_of_mem _ (hgiven (.inr rfl)) hkeep hafter hmem

/-- What the protocol says about the next interaction. -/
theorem held_of_step {α : Type} {side : Side} {held : Bool} {t t' : Proc Call Call.Reply α}
    {a : Act Call Call.Reply}
    (hconf : t.Conforms (streamNext side) HoldsFirst (fun _ _ => True) held)
    (hs : t.Step a t') :
    (a.call? = none → held = true) ∧
      ∀ e q, a = .call e q → ∃ held', streamNext side held ⟨e, q⟩ = some held' := by
  cases hs with
  | read hr => exact ⟨fun _ => hconf.1.resolve_right (by simp), fun e q h => (by cases h)⟩
  | write hr => exact ⟨fun _ => hconf.1.resolve_right (by simp), fun e q h => (by cases h)⟩
  | @call e k q =>
    refine ⟨fun h => (by cases h), ?_⟩
    rintro _ _ ⟨⟩
    obtain ⟨held', hnext, -⟩ := hconf.2 q
    exact ⟨held', hnext⟩

/-- Whatever its module does, a source is given at most one stream, and it reads and
writes nothing before. -/
theorem holds_runSource (d : Deps) (streamOut : BackupPlan → SinkProg) (p : Progress) :
    ((runSource d streamOut).run p).Conforms (streamNext .source) HoldsFirst (fun _ _ => True)
      false := by
  rw [runSource_eq]
  refine ⟨.inr rfl, fun r => ⟨false, rfl, ?_⟩⟩
  cases r with
  | error e => exact trivial
  | ok fp =>
    refine ⟨.inr rfl, fun r => ⟨false, rfl, ?_⟩⟩
    cases r with
    | error e => exact trivial
    | ok plan =>
      refine ⟨.inr rfl, fun r => ?_⟩
      cases r with
      | error e => exact ⟨false, rfl, trivial⟩
      | ok _ =>
        have hrest := (streaming_exchange d streamOut fp plan p).mono fun _ he => he.asksNone
        exact ⟨true, rfl, conforms_of_asksNone hrest⟩

/-- So is a destination. -/
theorem holds_runDestination (d : Deps) (streamIn : BackupPlan → StreamInProg) (p : Progress) :
    ((runDestination d streamIn).run p).Conforms (streamNext .destination) HoldsFirst
      (fun _ _ => True) false := by
  have hrest : (do
      let plan ← recvPlan d
      let preflight ← validate plan
      let approved ← decideApproval plan preflight
      answer d streamIn plan preflight approved : Metered BackupPlan).Only AsksNone := by
    refine Metered.only_bind (Metered.only_lift (quiet_recvPlan d)).asksNone fun plan => ?_
    refine Metered.only_bind (Metered.only_lift ⟨⟨by simp, by simp⟩, fun _ => trivial⟩)
      fun preflight => ?_
    refine Metered.only_bind (Metered.only_lift ?_) fun approved =>
      asksNone_answer d streamIn plan preflight approved
    unfold decideApproval
    split
    · exact ⟨⟨by simp, by simp⟩, fun _ => trivial⟩
    · exact trivial
  rw [runDestination_eq]
  refine ⟨.inr rfl, fun r => ?_⟩
  cases r with
  | error e => exact ⟨false, rfl, trivial⟩
  | ok _ => exact ⟨true, rfl, conforms_of_asksNone (hrest p)⟩

end RustBackup.Core
