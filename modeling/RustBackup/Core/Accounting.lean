/-
  Core/Accounting.lean --- the progress counters are exact.

  Sources: crates/rb-core/src/{channel,session,progress}.rs.

  Both sides count in a progress handle that outlives every error.  Whatever a run's
  modules do and however it ends, the counters have gone up by the calls that succeeded
  and by nothing else: the source's by what its sink has accepted, the destination's by
  what its module was handed.  Over a live stream every session ends, and a restore that
  reports success has either been handed all of it or noted that it may not have been.
-/
import RustBackup.Core.Backpressure
import RustBackup.Core.Delivery
import RustBackup.Core.StreamUse

set_option autoImplicit false

namespace RustBackup.Core

open RustBackup.Serde RustBackup.Io

/-! ## Counting events -/

/-- The counters after an event. -/
def ChunkEvent.counted : ChunkEvent → Progress → Progress
  | .chunk _ _ data, p => p.addBytes (UInt64.ofNat data.length)
  | .itemEnd _ _ _, p => p.itemDone
  | .done, p => p

/-- The counters after some events. -/
def tally (es : List ChunkEvent) (p : Progress) : Progress := es.foldl (fun p e => e.counted p) p

@[simp] theorem tally_nil (p : Progress) : tally [] p = p := rfl

theorem tally_append (es es' : List ChunkEvent) (p : Progress) :
    tally (es ++ es') p = tally es' (tally es p) := List.foldl_append

theorem tally_offered (c : SinkCall) (p : Progress) : tally (offered [c]) p = c.counted p := by
  cases c <;> rfl

theorem tally_handed (e : ChunkEvent) (p : Progress) : tally (handed [.ok e]) p = e.counted p := by
  cases e <;> rfl

/-! ## One call -/

/-- What a result adds to the counters. -/
def settle {α : Type} (gain : α → Progress → Progress) (p : Progress) : Result α → Progress
  | .ok a => gain a p
  | .error _ => p

/-- The task counts a success as `gain` and a failure not at all. -/
def Metered.Yields {α : Type} (gain : α → Progress → Progress) (x : Metered α) : Prop :=
  ∀ p h, Proc.wp (fun _ => True) (fun h' o => Proc.Adds IsQuiet h h' ∧ o.2 = settle gain p o.1)
    (x.run p) h

namespace Metered

variable {α β : Type} {gain : α → Progress → Progress}

theorem yields_error (e : BackupError) : (ofResult (.error e) : Metered α).Yields gain :=
  fun _ h => ⟨.refl h, rfl⟩

theorem yields_pure {a : α} (hgain : ∀ p, gain a p = p) : (pure a : Metered α).Yields gain :=
  fun p h => ⟨.refl h, (hgain p).symm⟩

theorem yields_count {f : Progress → Progress} {gain : Unit → Progress → Progress}
    (hgain : ∀ p, gain () p = f p) : (count f).Yields gain :=
  fun p h => ⟨.refl h, (hgain p).symm⟩

theorem yields_count_pure {f : Progress → Progress} {a : α} (hgain : ∀ p, gain a p = f p) :
    (count f >>= fun _ => pure a : Metered α).Yields gain :=
  fun p h => ⟨.refl h, (hgain p).symm⟩

theorem yields_lift {y : Session α} (hy : y.run.Only IsQuiet) (hgain : ∀ a p, gain a p = p) :
    (monadLift y : Metered α).Yields gain := by
  intro p h
  rw [run_monadLift, Proc.wp_bind]
  refine hy.wp (fun _ _ => trivial) (fun h' r ha => ⟨ha, ?_⟩) (.refl h)
  cases r with
  | ok a => exact (hgain a p).symm
  | error e => rfl

/-- What goes over the wire first counts nothing. -/
theorem yields_bind {y : Session β} {f : β → Metered α} (hy : y.run.Only IsQuiet)
    (hf : ∀ b, (f b).Yields gain) : (monadLift y >>= f : Metered α).Yields gain := by
  intro p h
  rw [run_bind, run_monadLift, Proc.bind_assoc, Proc.wp_bind]
  refine hy.wp (fun _ _ => trivial) (fun h' r ha => ?_) (.refl h)
  cases r with
  | error e => exact ⟨ha, rfl⟩
  | ok b => exact Proc.wp_mono (fun _ h => h) (fun _ _ ho => ⟨ha.trans ho.1, ho.2⟩) (hf b p h')

end Metered

theorem yields_sinkCall (d : Deps) (c : SinkCall) :
    (c.perform d).Yields fun _ p => c.counted p := by
  cases c with
  | sendChunk itemId offset data =>
    simp only [SinkCall.perform, Core.sendChunk]
    split
    · exact Metered.yields_error _
    · apply Metered.yields_bind (quiet_sendFrame d _)
      intro _
      apply Metered.yields_bind (quiet_writeAllIdle data)
      intro _
      exact Metered.yields_count fun _ => rfl
  | finishItem itemId total blake3 =>
    apply Metered.yields_bind (quiet_sendFrame d _)
    intro _
    exact Metered.yields_count fun _ => rfl
  | finish =>
    exact Metered.yields_lift (quiet_sendFrame d _) fun _ _ => rfl

theorem yields_next (d : Deps) : (next d).Yields ChunkEvent.counted := by
  apply Metered.yields_bind (quiet_recvFrame d DataFrame)
  intro frame
  cases frame with
  | none => exact Metered.yields_pure fun _ => rfl
  | some frame =>
    cases frame with
    | streamEnd => exact Metered.yields_pure fun _ => rfl
    | itemEnd itemId total blake3 => exact Metered.yields_count_pure fun _ => rfl
    | chunkStart itemId offset len blake3 =>
      apply Metered.yields_bind (quiet_readExactIdle len.toNat)
      intro data
      simp only
      split
      · exact Metered.yields_error _
      · exact Metered.yields_count_pure fun _ => rfl

/-! ## A whole run -/

/-- What a record is credited with: an event for each of the calls that succeeded. -/
structure Credit where
  events : Calls Call Call.Reply → List ChunkEvent
  /-- a call that is credited with nothing -/
  Idle : Call → Prop
  append : ∀ l l', events (l ++ l') = events l ++ events l'
  idle : ∀ l, (∀ c ∈ l, Idle c.1) → events l = []
  flush : Idle .flush

/-- The source is credited with the sink calls that were accepted. -/
def Credit.sink : Credit where
  events l := offered (sunk l)
  Idle e := ∀ c r, e ≠ .mark (.sink c r)
  append l l' := by rw [sunk_append, offered_append]
  idle l hl := by
    unfold sunk
    rw [sinks_eq_nil hl]
    rfl
  flush := fun c r => by simp

/-- The destination is credited with the events that were handed over. -/
def Credit.next : Credit where
  events l := handed (nexts l)
  Idle e := ∀ r, e ≠ .mark (.next r)
  append l l' := by rw [nexts_append, handed_append]
  idle l hl := by rw [nexts_eq_nil hl, handed_nil]
  flush := fun r => by simp

/-- The counters go up by what the record is credited with. -/
def Metered.Counts {α : Type} (k : Credit) (x : Metered α) : Prop :=
  ∀ p h, Proc.wp (fun _ => True)
    (fun h' o => ∃ t, h' = h ++ t ∧ o.2 = tally (k.events t.calls) p) (x.run p) h

namespace Metered

variable {α β : Type} {k : Credit}

theorem counts_ofResult (r : Result α) : (ofResult r).Counts k := by
  refine fun p h => ⟨[], (List.append_nil h).symm, ?_⟩
  rw [Hist.calls_nil, k.idle [] (fun _ hc => absurd hc List.not_mem_nil), tally_nil]

theorem counts_pure (a : α) : (pure a : Metered α).Counts k := counts_ofResult (.ok a)

theorem counts_bind {x : Metered α} {f : α → Metered β} (hx : x.Counts k)
    (hf : ∀ a, (f a).Counts k) : (x >>= f).Counts k := by
  intro p h
  rw [run_bind, Proc.wp_bind]
  refine Proc.wp_mono (fun _ h => h) (fun h' o ho => ?_) (hx p h)
  obtain ⟨t, rfl, hcount⟩ := ho
  obtain ⟨r, p'⟩ := o
  cases r with
  | error e => exact ⟨t, rfl, hcount⟩
  | ok a =>
    refine Proc.wp_mono (fun _ h => h) (fun h'' o ho => ?_) (hf a p' (h ++ t))
    obtain ⟨t', rfl, hcount'⟩ := ho
    refine ⟨t ++ t', List.append_assoc _ _ _, ?_⟩
    rw [Hist.calls_append, k.append, tally_append, ← hcount]
    exact hcount'

theorem counts_lift {x : Session α} (hx : x.run.Only k.Idle) :
    (monadLift x : Metered α).Counts k := by
  intro p h
  rw [run_monadLift, Proc.wp_bind]
  refine hx.wp (fun _ _ => trivial) (fun h' r ha => ?_) (.refl h)
  obtain ⟨t, rfl, ht⟩ := ha
  refine ⟨t, rfl, ?_⟩
  rw [k.idle _ ht, tally_nil]

theorem counts_attempt {x : Metered α} (hx : x.Counts k) : (attempt x).Counts k := by
  intro p h
  rw [run_attempt, Proc.wp_bind]
  exact Proc.wp_mono (fun _ h => h) (fun _ _ ho => ho) (hx p h)

theorem counts_bytes : bytes.Counts k := by
  refine fun p h => ⟨[], (List.append_nil h).symm, ?_⟩
  rw [Hist.calls_nil, k.idle [] (fun _ hc => absurd hc List.not_mem_nil), tally_nil]

/-- A call of a trait object and the mark behind it. -/
theorem counts_marked {gain : α → Progress → Progress} {m : Result α → Mark} {x : Metered α}
    {f : Result α → Metered β} (hx : x.Yields gain)
    (hm : ∀ p r, tally (k.events [⟨.mark (m r), ()⟩]) p = settle gain p r)
    (hf : ∀ r, (f r).Counts k) :
    (do let r ← attempt x; mark (m r); f r : Metered β).Counts k := by
  intro p h
  rw [run_bind, run_attempt, Proc.bind_assoc, Proc.wp_bind]
  refine Proc.wp_mono (fun _ h => h) (fun h' o ho => ?_) (hx p h)
  obtain ⟨⟨t, rfl, ht⟩, hsettle⟩ := ho
  refine ⟨trivial, fun u => ?_⟩
  refine Proc.wp_mono (fun _ h => h) (fun h'' o' ho => ?_)
    (hf o.1 o.2 (h ++ t ++ [.call (.mark (m o.1)) u]))
  obtain ⟨t', rfl, hcount⟩ := ho
  refine ⟨t ++ [.call (.mark (m o.1)) u] ++ t', by simp, ?_⟩
  have hquiet : k.events t.calls = [] := k.idle _ fun c hc => by
    rw [(ht c hc).eq_flush]
    exact k.flush
  rw [Hist.calls_append, Hist.calls_append, k.append, k.append, hquiet, List.nil_append,
    tally_append, Hist.calls_call, hm, ← hsettle]
  exact hcount

end Metered

/-! ## Both sides -/

section Sides

variable (d : Deps)

theorem counts_streamOut (prog : SinkProg) : (prog.perform d).Counts .sink := by
  induction prog with
  | ret r => exact Metered.counts_ofResult r
  | call c k ih =>
    refine Metered.counts_marked (yields_sinkCall d c) (fun p r => ?_) ih
    cases r with
    | ok _ => exact tally_offered c p
    | error e => rfl

theorem counts_streamIn (prog : StreamInProg) : (prog.perform d).Counts .next := by
  induction prog with
  | ret r => exact Metered.counts_ofResult r
  | next k ih =>
    refine Metered.counts_marked (yields_next d) (fun p r => ?_) ih
    cases r with
    | ok e => exact tally_handed e p
    | error e => rfl

theorem counts_mark {k : Credit} {m : Mark} (hm : k.Idle (.mark m)) :
    (monadLift (mark m) : Metered Unit).Counts k :=
  Metered.counts_lift ⟨hm, fun _ => trivial⟩

theorem counts_quiet {k : Credit} {α : Type} {x : Session α} (hx : x.run.Only IsQuiet) :
    (monadLift x : Metered α).Counts k :=
  Metered.counts_lift (hx.mono fun _ he => he.eq_flush ▸ k.flush)

theorem counts_call {k : Credit} {α : Type} {e : Call} {f : e.Reply → Result α} (he : k.Idle e) :
    (monadLift (⟨.call e fun r => .ret (f r)⟩ : Session α) : Metered α).Counts k :=
  Metered.counts_lift ⟨he, fun _ => trivial⟩

theorem counts_runSource (streamOut : BackupPlan → SinkProg) :
    (runSource d streamOut).Counts .sink := by
  refine Metered.counts_bind (counts_call fun c r => by simp) fun fp => ?_
  refine Metered.counts_bind (counts_call fun c r => by simp) fun plan => ?_
  refine Metered.counts_bind (counts_call fun c r => by simp) fun _ => ?_
  refine Metered.counts_bind (counts_quiet (quiet_sendFrame d _)) fun _ => ?_
  refine Metered.counts_bind (counts_quiet (quiet_recvAck d)) fun _ => ?_
  refine Metered.counts_bind (counts_mark fun c r => by simp) fun _ => ?_
  refine Metered.counts_bind (Metered.counts_attempt (counts_streamOut d _)) fun r => ?_
  refine Metered.counts_bind (counts_mark fun c r => by simp) fun _ => ?_
  refine Metered.counts_bind (Metered.counts_ofResult r) fun _ => ?_
  refine Metered.counts_bind (counts_quiet (quiet_sendFrame d _)) fun _ => ?_
  refine Metered.counts_bind Metered.counts_bytes fun n => ?_
  refine Metered.counts_bind (counts_quiet (quiet_sendFrame d _)) fun _ => ?_
  refine Metered.counts_bind (counts_call fun c r => by simp) fun fp' => ?_
  split
  · exact Metered.counts_ofResult _
  · exact Metered.counts_pure _

theorem counts_complete (plan : BackupPlan) (frame : Option ControlFrame) :
    (complete plan frame).Counts .next := by
  have hwarn : (do mark .unexpectedCompletion; return plan : Metered BackupPlan).Counts .next :=
    Metered.counts_bind (counts_mark fun r => by simp) fun _ => Metered.counts_pure _
  cases frame with
  | none => exact hwarn
  | some frame =>
    cases frame with
    | plan plan' => exact hwarn
    | planAck accepted reason => exact hwarn
    | done n blake3 =>
      exact Metered.counts_bind (counts_mark fun r => by simp) fun _ => Metered.counts_pure _
    | abort reason => exact Metered.counts_ofResult _

theorem counts_applyPayload (streamIn : BackupPlan → StreamInProg) (plan : BackupPlan) :
    (applyPayload d streamIn plan).Counts .next := by
  refine Metered.counts_bind (counts_mark fun r => by simp) fun _ => ?_
  refine Metered.counts_bind (Metered.counts_attempt (counts_streamIn d _)) fun r => ?_
  refine Metered.counts_bind (counts_mark fun r => by simp) fun _ => ?_
  refine Metered.counts_bind (Metered.counts_ofResult r) fun _ => ?_
  refine Metered.counts_bind (counts_quiet (quiet_recvFrame d ControlFrame)) fun frame => ?_
  exact counts_complete plan frame

theorem counts_runDestination (streamIn : BackupPlan → StreamInProg) :
    (runDestination d streamIn).Counts .next := by
  refine Metered.counts_bind (counts_call fun r => by simp) fun _ => ?_
  refine Metered.counts_bind (counts_quiet (quiet_recvPlan d)) fun plan => ?_
  refine Metered.counts_bind (counts_call fun r => by simp) fun preflight => ?_
  refine Metered.counts_bind (Metered.counts_lift ?_) fun approved => ?_
  · unfold decideApproval
    split
    · exact ⟨fun r => by simp, fun _ => trivial⟩
    · exact trivial
  · refine Metered.counts_bind (counts_quiet (quiet_sendFrame d _)) fun _ => ?_
    split
    · exact Metered.counts_ofResult _
    · exact counts_applyPayload d streamIn plan

end Sides

section Runs

variable {d : Deps} {streamOut : BackupPlan → SinkProg} {streamIn : BackupPlan → StreamInProg}
variable {p p' q q' : Progress} {h : Hist Call Call.Reply}
variable {r : Result SourceOutcome} {r' : Result BackupPlan}

/-- What a run that has returned has counted. -/
theorem Metered.Counts.run {α : Type} {k : Credit} {x : Metered α} (hx : x.Counts k) {r : Result α}
    (hr : (x.run p).Run h (.ret (r, p'))) : p' = tally (k.events h.calls) p := by
  obtain ⟨t, rfl, hcount⟩ := Proc.wp_run (hx p []) hr
  exact hcount

theorem counted_source (hr : ((runSource d streamOut).run p).Run h (.ret (r, p'))) :
    p' = tally (offered (sunk h.calls)) p :=
  (counts_runSource d streamOut).run hr

theorem counted_destination (hr : ((runDestination d streamIn).run q).Run h (.ret (r', q'))) :
    q' = tally (handed (nexts h.calls)) q :=
  (counts_runDestination d streamIn).run hr

/-- The counters after some calls are those after their events. -/
theorem tally_calls (cs : List SinkCall) (p : Progress) : tally (offered cs) p = countAll cs p := by
  induction cs generalizing p with
  | nil => rfl
  | cons c cs ih =>
    have hsplit : offered ([c] ++ cs) = offered [c] ++ offered cs := offered_append
    rw [← List.singleton_append, hsplit, tally_append, tally_offered, ih]
    rfl

theorem bytes_tally (cs : List SinkCall) (p : Progress) :
    (tally (offered cs) p).bytes = p.bytes + totalBytes cs :=
  (congrArg Progress.bytes (tally_calls cs p)).trans (bytes_countAll cs p)

/-- On any channel and however a run ends, each side's counters have gone up by what
succeeded: the sink calls that were accepted, the events that were handed over.  In a
session whose destination took the completion frame both went up by the same events, and
the frame carries the source's byte count. -/
theorem counters_exact (d : Deps) (streamOut : BackupPlan → SinkProg)
    (streamIn : BackupPlan → StreamInProg) (p q : Progress) :
    (∀ h r p', ((runSource d streamOut).run p).Run h (.ret (r, p')) →
      p' = tally (offered (sunk h.calls)) p) ∧
    (∀ h r q', ((runDestination d streamIn).run q).Run h (.ret (r, q')) →
      q' = tally (handed (nexts h.calls)) q) ∧
    ∀ (c : SessionLink) s a b p' q' n, c.Flushes →
      SessionReach c d streamOut streamIn p q s → s.left = .ret (a, p') →
      s.right = .ret (b, q') → noteComplete n ∈ s.rightHist.calls →
      (∃ events, p' = tally events p ∧ q' = tally events q) ∧ n = p'.bytes := by
  refine ⟨fun h r p' hr => counted_source hr, fun h r q' hr => counted_destination hr,
    fun c s a b p' q' n hc hr hleft hright hn => ?_⟩
  have hhist := Net.Reach.history c hr
  have hp' := counted_source (hleft ▸ hhist.leftRun)
  have hq' := counted_destination (hright ▸ hhist.rightRun)
  obtain ⟨hall, htotal⟩ := hr.joined.completed (smooth_leftHist hc hr) (smooth_rightHist hc hr) hn
  refine ⟨⟨_, hp', ?_⟩, ?_⟩
  · rw [hq']
    exact congrArg (tally · q) hall
  · rw [htotal, hp']
    exact (bytes_tally _ p).symm

/-- The counters of the sample session, on either side. -/
theorem counters_exact_sample :
    ∃ (s : SessionNet) (a : Result SourceOutcome) (b : Result BackupPlan) (p' q' : Progress),
      s.left = .ret (a, p') ∧ s.right = .ret (b, q') ∧
      (∃ events, p' = tally events .fresh ∧ q' = tally events .fresh) ∧ p'.bytes = 1 := by
  obtain ⟨s, hr, ⟨⟨⟨a, p'⟩, hleft⟩, ⟨⟨b, q'⟩, hright⟩⟩, -, hcalls⟩ := exists_sampleSession
  have hmark : noteComplete (totalBytes (sent sampleDeps sampleCalls)) ∈ s.rightHist.calls := by
    rw [hcalls]
    exact complete_mem_destRecord
  obtain ⟨hevents, htotal⟩ := (counters_exact sampleDeps (fun _ => .ofCalls sampleCalls)
    (fun _ => sampleStreamIn) .fresh .fresh).2.2 answeringLink s a b p' q' _
    answeringLink_flushes hr hleft hright hmark
  exact ⟨s, a, b, p', q', hleft, hright, hevents, htotal.symm.trans totalBytes_sampleCalls⟩

end Runs

/-! ## How a session ends -/

/-- The destination has taken some other frame for the completion frame. -/
def noteUnexpected : Sigma Call.Reply := ⟨.mark .unexpectedCompletion, ()⟩

/-- A restore that reports success says what it took for the completion frame. -/
def Reported {α : Type} (h : Hist Call Call.Reply) (r : Result α) : Prop :=
  ∀ a, r = .ok a → (∃ n, noteComplete n ∈ h.calls) ∨ noteUnexpected ∈ h.calls

/-- Every success of `x` is reported. -/
def Metered.Reports {α : Type} (x : Metered α) : Prop :=
  ∀ p h, Proc.wp (fun _ => True) (fun h' o => Reported h' o.1) (x.run p) h

namespace Metered

variable {α β : Type}

theorem reports_error (e : BackupError) : (ofResult (.error e) : Metered α).Reports :=
  fun _ _ a ha => by cases ha

/-- What a run that has returned has reported. -/
theorem Reports.run {x : Metered α} (hx : x.Reports) {p p' : Progress} {r : Result α}
    {h : Hist Call Call.Reply} (hr : (x.run p).Run h (.ret (r, p'))) : Reported h r :=
  Proc.wp_run (hx p []) hr

/-- What comes last reports. -/
theorem reports_bind {x : Metered α} {f : α → Metered β} (hf : ∀ a, (f a).Reports) :
    (x >>= f).Reports := by
  intro p h
  rw [run_bind, Proc.wp_bind]
  refine Proc.wp_of_forall (fun _ => trivial) (fun h' o => ?_) _ h
  obtain ⟨r, p'⟩ := o
  cases r with
  | error e => exact fun a ha => by cases ha
  | ok a => exact hf a p' h'

end Metered

theorem reports_complete (plan : BackupPlan) (frame : Option ControlFrame) :
    (complete plan frame).Reports := by
  have hnoted : ∀ m : Mark, (∃ n, m = .restoreComplete n) ∨ m = .unexpectedCompletion →
      (do mark m; return plan : Metered BackupPlan).Reports := by
    intro m hm p h
    refine ⟨trivial, fun _ a _ => ?_⟩
    rw [Hist.calls_append]
    rcases hm with ⟨n, rfl⟩ | rfl
    · exact .inl ⟨n, List.mem_append_right _ (List.mem_singleton_self _)⟩
    · exact .inr (List.mem_append_right _ (List.mem_singleton_self _))
  cases frame with
  | none => exact hnoted _ (.inr rfl)
  | some frame =>
    cases frame with
    | plan plan' => exact hnoted _ (.inr rfl)
    | planAck accepted reason => exact hnoted _ (.inr rfl)
    | done n blake3 => exact hnoted _ (.inl ⟨n, rfl⟩)
    | abort reason => exact Metered.reports_error _

theorem reports_runDestination (d : Deps) (streamIn : BackupPlan → StreamInProg) :
    (runDestination d streamIn).Reports := by
  apply Metered.reports_bind
  intro _
  apply Metered.reports_bind
  intro plan
  apply Metered.reports_bind
  intro preflight
  apply Metered.reports_bind
  intro approved
  apply Metered.reports_bind
  intro _
  split
  · exact Metered.reports_error _
  · apply Metered.reports_bind
    intro _
    apply Metered.reports_bind
    intro r
    apply Metered.reports_bind
    intro _
    apply Metered.reports_bind
    intro _
    apply Metered.reports_bind
    intro frame
    exact reports_complete plan frame

section Ends

variable {c : SessionLink} {d : Deps} {streamOut : BackupPlan → SinkProg}
variable {streamIn : BackupPlan → StreamInProg} {p q : Progress}

/-- Over a stream with room for a byte each way, whose calls are all answered, every
session ends with both sides returned, in whatever order they go and whatever their
modules do.  If the restore reports success, then either the destination was handed
exactly what the source's sink accepted, counted on both sides alike and with the byte
count of the completion frame, or the destination has noted that it did not see that
frame. -/
theorem session_concludes (hc : c.Flushes) (hlive : c.Live) :
    Net.Inevitable c (fun s => ∃ a b p' q',
        s.left = .ret (a, p') ∧ s.right = .ret (b, q') ∧
        p' = tally (offered (sunk s.leftHist.calls)) p ∧
        q' = tally (handed (nexts s.rightHist.calls)) q ∧
        ∀ plan, b = .ok plan →
          (handed (nexts s.rightHist.calls) = offered (sunk s.leftHist.calls) ∧
            noteComplete p'.bytes ∈ s.rightHist.calls) ∨
          noteUnexpected ∈ s.rightHist.calls)
      (Net.init ((runSource d streamOut).run p) ((runDestination d streamIn).run q)) := by
  refine ((session_ends hlive).reached c .init).imp c ?_
  rintro s ⟨hr, ⟨⟨a, p'⟩, hleft⟩, ⟨⟨b, q'⟩, hright⟩⟩
  have hhist := Net.Reach.history c hr
  have hp' := counted_source (hleft ▸ hhist.leftRun)
  have hq' := counted_destination (hright ▸ hhist.rightRun)
  refine ⟨a, b, p', q', hleft, hright, hp', hq', fun plan hplan => ?_⟩
  have hreported := (reports_runDestination d streamIn).run (hright ▸ hhist.rightRun)
  refine (hreported plan hplan).imp_left fun ⟨n, hn⟩ => ?_
  obtain ⟨hall, htotal⟩ := (SessionReach.joined hr).completed (smooth_leftHist hc hr)
    (smooth_rightHist hc hr) hn
  refine ⟨hall, ?_⟩
  rw [hp', bytes_tally, ← htotal]
  exact hn

theorem answeringLink_live : answeringLink.Live where
  capRight := Nat.one_pos
  capLeft := Nat.one_pos
  answers := ⟨fun _ => ⟨_, rfl⟩, fun _ => ⟨_, rfl⟩⟩

/-- A session over a stream of one byte each way ends, whatever is sent. -/
theorem session_concludes_answered :
    Net.Inevitable answeringLink (fun s => ∃ a b p' q',
        s.left = .ret (a, p') ∧ s.right = .ret (b, q') ∧
        p' = tally (offered (sunk s.leftHist.calls)) .fresh ∧
        q' = tally (handed (nexts s.rightHist.calls)) .fresh ∧
        ∀ plan, b = .ok plan →
          (handed (nexts s.rightHist.calls) = offered (sunk s.leftHist.calls) ∧
            noteComplete p'.bytes ∈ s.rightHist.calls) ∨
          noteUnexpected ∈ s.rightHist.calls)
      (Net.init ((runSource sampleDeps fun _ => .ofCalls sampleCalls).run .fresh)
        ((runDestination sampleDeps fun _ => sampleStreamIn).run .fresh)) :=
  session_concludes answeringLink_flushes answeringLink_live

end Ends

end RustBackup.Core
