/-
  Core/Audit.lean --- what the immutability audit of `run_source` promises.

  The source takes a fingerprint of itself before anything else and compares it
  with a second one at the end.  The second is taken on one path only: a run that
  leaves early never looks again, and a change during it goes unreported.

  A run is put on a timeline of the source's states.  The state may change during
  every interaction but the fingerprint itself; a fingerprint is a function of the
  state it finds.
-/
import RustBackup.Core.SourceLog

set_option autoImplicit false

namespace RustBackup.Core

open RustBackup.Serde RustBackup.Io

/-! ## Timelines -/

/-- `s i` is the source's state before the `i`-th interaction of the run and
`s h.length` its state when the last one ends. -/
structure Timeline {σ : Type} (fp : σ → String) (s : Nat → σ) (h : Hist Call Call.Reply) :
    Prop where
  /-- a fingerprint sees the state it finds -/
  sees : ∀ (i : Nat) (r : Result String), h[i]? = some (.call .fingerprint r) →
    r = .ok (fp (s i))
  /-- and does not change it -/
  still : ∀ (i : Nat) (r : Result String), h[i]? = some (.call .fingerprint r) →
    s (i + 1) = s i

/-- A change between the baseline and the end of the run is reported. -/
def ReportsMutation {σ : Type} (fp : σ → String) (s : Nat → σ) (h : Hist Call Call.Reply)
    (o : Result SourceOutcome) : Prop :=
  fp (s h.length) ≠ fp (s 0) → ∃ message, o = .error (.sourceMutated message)

/-- Every run that is not interrupted reports a change, whatever the source, the
channel and the peer are. -/
theorem mutation_reported {d : Deps} {streamOut : BackupPlan → SinkProg} {p p' : Progress}
    {h : Hist Call Call.Reply} {o : Result SourceOutcome} {σ : Type} {fp : σ → String}
    {s : Nat → σ} (hrun : ((runSource d streamOut).run p).Run h (.ret (o, p')))
    (htime : Timeline fp s h) (hu : Uninterrupted d h) : ReportsMutation fp s h o := by
  intro hne
  have hend : SourceEnd d h o := Proc.wp_run (wp_runSource d streamOut p) hrun
  cases hend with
  | failed _ hint => exact absurd hu hint
  | @audited h₀ fp₀ plan n r heq hclosed =>
    obtain ⟨t, ht⟩ := hclosed.first
    have hfirst : h[0]? = some (.call .fingerprint (.ok fp₀)) := by
      rw [heq, ht]
      rfl
    have hlast : h[h₀.length]? = some (.call .fingerprint r) := by
      rw [heq, List.getElem?_append_right (Nat.le_refl _), Nat.sub_self]
      rfl
    have hbefore : fp₀ = fp (s 0) := Except.ok.inj (htime.sees 0 _ hfirst)
    have hafter : r = .ok (fp (s h₀.length)) := htime.sees _ r hlast
    have hlen : h.length = h₀.length + 1 := by
      rw [heq, List.length_append]
      rfl
    rw [hlen, htime.still _ r hlast, ← hbefore] at hne
    rw [hafter, audit, if_pos (Ne.symm hne)]
    exact ⟨_, rfl⟩

/-! ## Particular runs

A source whose `stream_out` makes no sink call, played up to the decision, up to the
audit and to its end. -/

/-- A `stream_out` that makes no sink call. -/
def noPayload (_ : BackupPlan) : SinkProg := .ret (.ok ())

/-- The source after it has been analyzed. -/
def afterAnalyze (d : Deps) (fp : String) (plan : BackupPlan) : Metered SourceOutcome := do
  acceptStream
  sendPlan d plan
  recvAck d
  streamSource d noPayload fp plan

/-- The source while it waits for the decision. -/
def waiting (d : Deps) (fp : String) (plan : BackupPlan) : Metered SourceOutcome := do
  recvAck d
  streamSource d noPayload fp plan

section Particular

variable {d : Deps} {fp : String} {plan : BackupPlan} {p : Progress}

/-- To the decision. -/
theorem goes_afterAnalyze (fp : String) (hfits : Fits d (ControlFrame.plan plan)) :
    Goes ((afterAnalyze d fp plan).run p) [] (frameBytes d (ControlFrame.plan plan))
      [⟨.acceptStream, .ok ()⟩, ⟨.flush, true⟩] ((waiting d fp plan).run p) := by
  have haccept : Goes acceptStream.run [] [] [⟨.acceptStream, .ok ()⟩] (.ret (.ok ())) :=
    Goes.call (R := Call.Reply) (e := .acceptStream) (.ok ()) (.refl _)
  have hplan := Metered.goes_bind (f := fun _ => waiting d fp plan)
    (Metered.goes_lift (p := p) (goes_sendFrame hfits)) (.refl _)
  simp only [List.append_nil] at hplan
  exact Metered.goes_bind (Metered.goes_lift haccept) hplan

/-- From the decision to the audit. -/
theorem goes_waiting {reason : String} (fp : String) (plan : BackupPlan)
    (hfits : Fits d (ControlFrame.planAck true reason)) :
    Goes ((waiting d fp plan).run p) (frameBytes d (ControlFrame.planAck true reason))
      (frameBytes d DataFrame.streamEnd ++ frameBytes d (ControlFrame.done p.bytes ""))
      [noteStreamOut plan, noteStreamed (.ok ()), ⟨.flush, true⟩, ⟨.flush, true⟩]
      ((auditSource fp plan p.bytes).run p) := by
  have hack : Goes (recvAck d).run (frameBytes d (ControlFrame.planAck true reason)) [] []
      (.ret (.ok ())) :=
    (goes_recvFrame hfits (decode_encode_planAck d true reason)).bind _
  have hdone := Metered.goes_bind (f := fun _ => auditSource fp plan p.bytes)
    (Metered.goes_lift (p := p) (goes_sendFrame (fits_done d p.bytes))) (.refl _)
  simp only [List.append_nil] at hdone
  have hbytes : Goes (Metered.bytes.run p) [] [] [] (.ret (.ok p.bytes, p)) := .refl _
  have hclose := Metered.goes_bind (f := fun _ => do
      let bytesSent ← Metered.bytes
      sendFrame d (ControlFrame.done bytesSent "")
      auditSource fp plan bytesSent)
    (Metered.goes_lift (p := p) (goes_sendFrame (fits_streamEnd d)))
    (Metered.goes_bind hbytes hdone)
  have hstreamed := Metered.goes_bind (f := fun _ => closeSource d fp plan)
    (Metered.goes_lift (p := p) (goes_mark (.streamOutReturned (.ok ())))) hclose
  have hentered := Metered.goes_bind (f := fun _ => do
      mark (.streamOutReturned (.ok ()))
      closeSource d fp plan)
    (Metered.goes_lift (p := p) (goes_mark (.streamOut plan))) hstreamed
  have hall := Metered.goes_bind (f := fun _ => streamSource d noPayload fp plan)
    (Metered.goes_lift (p := p) hack) hentered
  simp only [List.append_nil] at hall
  exact hall

/-- The audit. -/
theorem goes_audit (n : UInt64) (r : Result String) :
    Goes ((auditSource fp plan n).run p) [] [] [⟨.fingerprint, r⟩]
      (.ret (audit fp plan n r, p)) := by
  refine Goes.call (R := Call.Reply) (e := .fingerprint) r ?_
  cases r with
  | error e => exact .refl _
  | ok fp' =>
    simp only [Proc.ret_bind, Metered.cont_ok, audit]
    split
    · exact .refl _
    · exact .refl _

end Particular

theorem plain_samplePlan : (ControlFrame.plan samplePlan).serialize.Plain := by
  refine ⟨?_, by decide⟩
  exact ⟨⟨Json.exact_int_of_lt (by decide), trivial, trivial, trivial, trivial, trivial,
    Json.exact_int_of_lt (by decide), ⟨trivial, trivial, trivial⟩, trivial, trivial⟩, trivial⟩

theorem fits_samplePlan (d : Deps) : Fits d (ControlFrame.plan samplePlan) :=
  fits_of_size plain_samplePlan.1 (by decide)

/-- The first write of a frame fails. -/
theorem run_sendFrame_fault {F : Type} [Frame F] {d : Deps} {frame : F} (hfits : Fits d frame) :
    (sendFrame d frame).run.Run [.send (leBytes (encode d frame).length) .fault]
      (.ret (.error (.phaseSrc .transfer "write" .io))) := by
  have hlim : ¬ FRAME_LIMIT < (encode d frame).length := Nat.not_lt.mpr hfits
  rw [sendFrame, if_neg hlim, Task.run_bind, writeAllIdle, leBytes, writeAll_cons]
  exact .tail (.refl _) (.write trivial)

/-- Up to the exchange of plan and decision. -/
theorem run_opened (d : Deps) (streamOut : BackupPlan → SinkProg) (p : Progress) (fp : String)
    (plan : BackupPlan) :
    ((runSource d streamOut).run p).Run (opened fp plan)
      ((do sendPlan d plan; recvAck d; streamSource d streamOut fp plan :
        Metered SourceOutcome).run p) := by
  rw [runSource_eq]
  exact .tail (.tail (.tail (.refl _) .call) .call) .call

/-- A run whose first write fails. -/
theorem run_plan_fault {d : Deps} (streamOut : BackupPlan → SinkProg) (p : Progress)
    (fp : String) {plan : BackupPlan} (hfits : Fits d (ControlFrame.plan plan)) :
    ((runSource d streamOut).run p).Run
      (opened fp plan ++ [.send (leBytes (encode d (ControlFrame.plan plan)).length) .fault])
      (.ret (.error (.phaseSrc .transfer "write" .io), p)) := by
  have hsend := ((run_sendFrame_fault hfits).bind fun r => .ret (r, p)).bind
    (Metered.cont fun _ => do recvAck d; streamSource d streamOut fp plan)
  exact (run_opened d streamOut p fp plan).trans hsend

/-- A run that is cut off by a failed write does not report a change: the source
changes while it is analyzed, and the first write of the plan fails. -/
theorem mutation_lost_on_failed_write :
    ∃ (h : Hist Call Call.Reply) (o : Result SourceOutcome) (p' : Progress),
      ((runSource sampleDeps noPayload).run .fresh).Run h (.ret (o, p')) ∧
      Timeline (fun changed => if changed then "after" else "before")
        (fun i => decide (2 ≤ i)) h ∧
      ¬ ReportsMutation (fun changed => if changed then "after" else "before")
        (fun i => decide (2 ≤ i)) h o := by
  refine ⟨_, _, _, run_plan_fault noPayload .fresh "before" (fits_samplePlan sampleDeps),
    ⟨?_, ?_⟩, ?_⟩
  · intro i r hi
    match i, hi with
    | 0, hi => cases hi; rfl
    | 1, hi => cases hi
    | 2, hi => cases hi
    | 3, hi => cases hi
  · intro i r hi
    match i, hi with
    | 0, hi => rfl
    | 1, hi => cases hi
    | 2, hi => cases hi
    | 3, hi => cases hi
  · intro hreports
    obtain ⟨message, hm⟩ := hreports (by decide)
    cases hm

/-- A run that reaches the audit, with a second fingerprint of its own. -/
theorem exists_audited_run {d : Deps} {plan : BackupPlan} (p : Progress) (fp fp' : String)
    (hfits : Fits d (ControlFrame.plan plan))
    (hack : Fits d (ControlFrame.planAck true "accepted")) :
    ∃ t : Hist Call Call.Reply,
      ((runSource d noPayload).run p).Run
        ([.call .fingerprint (.ok fp), .call .analyze (.ok plan)] ++ t ++
          [.call .fingerprint (.ok fp')])
        (.ret (audit fp plan p.bytes (.ok fp'), p)) ∧
      t.ins = frameBytes d (ControlFrame.planAck true "accepted") ∧
      t.calls = [⟨.acceptStream, .ok ()⟩, ⟨.flush, true⟩, noteStreamOut plan,
        noteStreamed (.ok ()), ⟨.flush, true⟩, ⟨.flush, true⟩] ∧
      ∀ a ∈ t, Act.Moves a := by
  have hopen : ((runSource d noPayload).run p).Run
      [.call .fingerprint (.ok fp), .call .analyze (.ok plan)]
      ((afterAnalyze d fp plan).run p) := by
    rw [runSource_eq]
    exact .tail (.tail (.refl _) .call) .call
  obtain ⟨t, hrun, hins, -, hcalls, hmoves⟩ :=
    (goes_afterAnalyze (p := p) fp hfits).trans (goes_waiting fp plan hack)
  have haudit : ((auditSource fp plan p.bytes).run p).Run [.call .fingerprint (.ok fp')]
      (.ret (audit fp plan p.bytes (.ok fp'), p)) := by
    have hstep : ((auditSource fp plan p.bytes).run p).Run [.call .fingerprint (.ok fp')]
        ((if fp ≠ fp' then Metered.ofResult (.error (mutatedError fp fp'))
          else pure ⟨plan, p.bytes⟩ : Metered SourceOutcome).run p) := .tail (.refl _) .call
    rw [audit]
    split at hstep
    case isTrue hne => rw [if_pos hne]; exact hstep
    case isFalse heq => rw [if_neg heq]; exact hstep
  exact ⟨t, (hopen.trans hrun).trans haudit, hins, hcalls, hmoves⟩

/-- A send that moved bytes did not fail. -/
theorem Failing.eq_flush {a : Act Call Call.Reply} (hf : Failing a) (hm : a.Moves) :
    a = .call .flush false := by
  cases hf with
  | @send buf r hr =>
    cases r with
    | wrote n =>
      have h0 : n = 0 := hr
      exact absurd hm.1 (by omega)
    | timeout => exact hm.elim
    | fault => exact hm.elim
  | flush => rfl

section Witness

variable {t : Hist Call Call.Reply} {plan : BackupPlan} {fp fp' : String}

/-- A source that changes while it is analyzed and not later. -/
theorem timeline_of_change (ht : ∀ r, (⟨.fingerprint, r⟩ : Sigma Call.Reply) ∉ t.calls) :
    Timeline (fun changed => if changed then fp' else fp) (fun i => decide (2 ≤ i))
      ([.call .fingerprint (.ok fp), .call .analyze (.ok plan)] ++ t ++
        [.call .fingerprint (.ok fp')]) := by
  -- a fingerprint is the first or the last interaction
  have hpos : ∀ (i : Nat) (r : Result String),
      ([.call .fingerprint (.ok fp), .call .analyze (.ok plan)] ++ t ++
        [.call .fingerprint (.ok fp')] : Hist Call Call.Reply)[i]? =
          some (.call .fingerprint r) → i = 0 ∧ r = .ok fp ∨ 2 ≤ i ∧ r = .ok fp' := by
    intro i r hi
    match i, hi with
    | 0, hi =>
      cases hi
      exact .inl ⟨rfl, rfl⟩
    | 1, hi => cases hi
    | i + 2, hi =>
      refine .inr ⟨by omega, ?_⟩
      have hmem : (Act.call .fingerprint r : Act Call Call.Reply) ∈
          t ++ [.call .fingerprint (.ok fp')] := List.mem_of_getElem? hi
      rcases List.mem_append.mp hmem with hmem | hmem
      · exact absurd (mem_calls hmem) (ht r)
      · rw [List.mem_singleton] at hmem
        cases hmem
        rfl
  refine ⟨?_, ?_⟩
  · intro i r hi
    rcases hpos i r hi with ⟨rfl, rfl⟩ | ⟨h2, rfl⟩
    · rfl
    · simp [h2]
  · intro i r hi
    rcases hpos i r hi with ⟨rfl, -⟩ | ⟨h2, -⟩
    · rfl
    · simp [h2, Nat.le_succ_of_le h2]

/-- A run in which nothing fails is not interrupted. -/
theorem uninterrupted_of_moves {d : Deps} (fp fp' : String)
    (hfits : Fits d (ControlFrame.plan plan))
    (hack : Fits d (ControlFrame.planAck true "accepted"))
    (hins : t.ins = frameBytes d (ControlFrame.planAck true "accepted"))
    (hcalls : t.calls = [⟨.acceptStream, .ok ()⟩, ⟨.flush, true⟩, noteStreamOut plan,
      noteStreamed (.ok ()), ⟨.flush, true⟩, ⟨.flush, true⟩])
    (hmoves : ∀ a ∈ t, Act.Moves a) :
    Uninterrupted d ([.call .fingerprint (.ok fp), .call .analyze (.ok plan)] ++ t ++
      [.call .fingerprint (.ok fp')]) := by
  have hall : Hist.calls ([.call .fingerprint (.ok fp), .call .analyze (.ok plan)] ++ t ++
      [.call .fingerprint (.ok fp')]) = [⟨.fingerprint, .ok fp⟩, ⟨.analyze, .ok plan⟩,
        ⟨.acceptStream, .ok ()⟩, ⟨.flush, true⟩, noteStreamOut plan, noteStreamed (.ok ()),
        ⟨.flush, true⟩, ⟨.flush, true⟩, ⟨.fingerprint, .ok fp'⟩] := by
    rw [Hist.calls_append, Hist.calls_append, hcalls]
    rfl
  refine ⟨?_, ?_, ?_, ?_, ?_, ?_⟩
  · intro r hr
    rw [hall] at hr
    simp only [List.mem_cons, List.not_mem_nil, or_false, Sigma.mk.injEq, noteStreamOut,
      noteStreamed] at hr
    simp at hr
    rcases hr with rfl | rfl
    · exact ⟨_, rfl⟩
    · exact ⟨_, rfl⟩
  · intro r hr
    rw [hall] at hr
    simp [noteStreamOut, noteStreamed] at hr
    exact ⟨plan, hr, hfits⟩
  · intro r hr
    rw [hall] at hr
    simpa [noteStreamOut, noteStreamed] using hr
  · refine ⟨"accepted", ?_⟩
    have hframe := isFrame_frameBytes hack (decode_encode_planAck d true "accepted")
    have heq : Hist.ins ([.call .fingerprint (.ok fp), .call .analyze (.ok plan)] ++ t ++
        [.call .fingerprint (.ok fp')]) = t.ins := by
      rw [Hist.ins_append, Hist.ins_append, Hist.ins_call, List.append_nil]
      rfl
    rw [heq, hins]
    exact hframe
  · intro r hr
    rw [hall] at hr
    simpa [noteStreamOut, noteStreamed] using hr
  · intro t₁ a t₂ heq hf
    have hmem : a ∈ [.call .fingerprint (.ok fp), .call .analyze (.ok plan)] ++ t ++
        [.call .fingerprint (.ok fp')] := by
      rw [heq]
      simp
    have hm : a.Moves := by
      rcases List.mem_append.mp hmem with hmem | hmem
      · rcases List.mem_append.mp hmem with hmem | hmem
        · cases hf with
          | send buf h => simp at hmem
          | flush => trivial
        · exact hmoves a hmem
      · cases hf with
        | send buf h => simp at hmem
        | flush => trivial
    rw [hf.eq_flush hm] at hmem
    have := mem_calls hmem
    rw [hall] at this
    simp [noteStreamOut, noteStreamed] at this

end Witness

/-- The same source over a channel that works: the change is reported. -/
theorem mutation_reported_sample :
    ∃ (h : Hist Call Call.Reply) (o : Result SourceOutcome) (p' : Progress),
      ((runSource sampleDeps noPayload).run .fresh).Run h (.ret (o, p')) ∧
      Uninterrupted sampleDeps h ∧
      Timeline (fun changed => if changed then "after" else "before")
        (fun i => decide (2 ≤ i)) h ∧
      ∃ message, o = .error (.sourceMutated message) := by
  have hack : Fits sampleDeps (ControlFrame.planAck true "accepted") :=
    fits_of_size (plain_planAck true "accepted").1 (by decide)
  obtain ⟨t, hrun, hins, hcalls, hmoves⟩ := exists_audited_run .fresh "before" "after"
    (fits_samplePlan sampleDeps) hack
  have htime : Timeline (fun changed => if changed then "after" else "before")
      (fun i => decide (2 ≤ i))
      ([.call .fingerprint (.ok "before"), .call .analyze (.ok samplePlan)] ++ t ++
        [.call .fingerprint (.ok "after")]) := by
    refine timeline_of_change fun r hr => ?_
    rw [hcalls] at hr
    simp [noteStreamOut, noteStreamed] at hr
  have hu := uninterrupted_of_moves "before" "after" (fits_samplePlan sampleDeps) hack hins hcalls
    hmoves
  refine ⟨_, _, _, hrun, hu, htime, mutation_reported hrun htime hu ?_⟩
  simp

end RustBackup.Core
