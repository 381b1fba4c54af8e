/-
  Core/Agreement.lean --- what one side's outcome says about the other.

  A source and a destination over a reliable stream, in every interleaving: the
  facts come from the two logs and from the stream's own guarantee that what one
  side was handed is a prefix of what the other side sent.

  The completion frame is sent before the audit and nothing is sent back, so each
  side's success is ahead of the other's.  The last section exhibits the two runs
  that show it.
-/
import RustBackup.Core.Audit
import RustBackup.Core.DestLog

set_option autoImplicit false

namespace RustBackup.Core

open RustBackup.Serde RustBackup.Io

/-- A source and a destination at the two ends of a stream. -/
abbrev SessionNet : Type :=
  Net Call Call.Reply (Result SourceOutcome × Progress)
    Call Call.Reply (Result BackupPlan × Progress)

/-- The parameters of their stream and of the objects around them. -/
abbrev SessionLink : Type := Link Call Call.Reply Call Call.Reply

/-- The states a session can reach. -/
abbrev SessionReach (c : SessionLink) (d : Deps) (streamOut : BackupPlan → SinkProg)
    (streamIn : BackupPlan → StreamInProg) (p q : Progress) (s : SessionNet) : Prop :=
  Net.Reach c ((runSource d streamOut).run p) ((runDestination d streamIn).run q) s

/-- Flushing a reliable stream works. -/
structure SessionLink.Flushes (c : SessionLink) : Prop where
  left : ∀ r, c.leftPolicy .flush r → r = true
  right : ∀ r, c.rightPolicy .flush r → r = true

section Reachable

variable {c : SessionLink} {d : Deps} {streamOut : BackupPlan → SinkProg}
variable {streamIn : BackupPlan → StreamInProg} {p q : Progress} {s : SessionNet}

theorem smooth_leftHist (hc : c.Flushes) (hr : SessionReach c d streamOut streamIn p q s) :
    Smooth s.leftHist :=
  ⟨hr.orderly.1, fun r hmem => hc.left r ((Net.Reach.history c hr).leftReplies .flush r hmem)⟩

theorem smooth_rightHist (hc : c.Flushes) (hr : SessionReach c d streamOut streamIn p q s) :
    Smooth s.rightHist :=
  ⟨hr.orderly.2, fun r hmem => hc.right r ((Net.Reach.history c hr).rightReplies .flush r hmem)⟩

/-- The source stands in one of its stages or has ended. -/
theorem source_log (hr : SessionReach c d streamOut streamIn p q s) :
    (¬ s.left.Finished ∧ SourceLog d False s.leftHist) ∨
      ∃ o p', s.left = .ret (o, p') ∧ SourceEnd d s.leftHist o := by
  have hwp := Proc.wp_run (wp_runSource d streamOut p) (Net.Reach.history c hr).leftRun
  cases hl : s.left with
  | ret o =>
    rw [hl] at hwp
    exact .inr ⟨o.1, o.2, rfl, hwp⟩
  | read n k => rw [hl] at hwp; exact .inl ⟨by simp [Proc.kind], hwp.1⟩
  | write bs k => rw [hl] at hwp; exact .inl ⟨by simp [Proc.kind], hwp.1⟩
  | call e k => rw [hl] at hwp; exact .inl ⟨by simp [Proc.kind], hwp.1⟩

/-- The destination stands in one of its stages. -/
theorem dest_log (hr : SessionReach c d streamOut streamIn p q s) : DestLog d s.rightHist := by
  refine Proc.wp_always ?_ (wp_runDestination d streamIn q) (Net.Reach.history c hr).rightRun
  intro h o hend
  generalize o.1 = r at hend
  cases hend with
  | failed hlog => exact hlog
  | complete hlog _ _ _ => exact hlog
  | unexpected hlog _ => exact hlog

/-- The destination has read a prefix of what the source sent. -/
theorem prefix_dest_ins (hr : SessionReach c d streamOut streamIn p q s) :
    s.rightHist.ins <+: s.leftHist.outs := by
  rw [(Net.Reach.history c hr).leftSent]
  exact List.prefix_append _ _

/-- The source has read a prefix of what the destination sent. -/
theorem prefix_source_ins (hr : SessionReach c d streamOut streamIn p q s) :
    s.leftHist.ins <+: s.rightHist.outs := by
  rw [(Net.Reach.history c hr).rightSent]
  exact List.prefix_append _ _

end Reachable

/-! ## A completed destination -/

/-- What a destination that is behind the end of a source's output knows about that
output. -/
theorem SourceLog.of_atEnd {d : Deps} {cut : Prop} {h : Hist Call Call.Reply} {i : Bytes}
    {n : UInt64} (hlog : SourceLog d cut h) (hs : Smooth h) (hi : i <+: h.outs)
    (hend : ∀ sc : Script, sc.Fits d → i <+: sc.bytes d → sc.total = some n ∧ i = sc.bytes d) :
    ¬ cut ∧ noteStreamed (.ok ()) ∈ h.calls ∧
      ∃ sc : Script, sc.Fits d ∧ sc.total = some n ∧ h.outs = sc.bytes d := by
  -- a script without completion frame cannot be what was read
  have hnone : ∀ sc : Script, sc.Fits d → sc.total = none → ¬ i <+: sc.bytes d := by
    intro sc hfits htotal hpre
    have := (hend sc hfits hpre).1
    rw [htotal] at this
    cases this
  have hempty : h.outs ≠ [] := by
    intro hnil
    rw [hnil, List.prefix_nil] at hi
    refine hnone ⟨samplePlan, [], none⟩ ⟨fits_samplePlan d, fun c hc => by simp at hc⟩ rfl ?_
    rw [hi]
    exact List.nil_prefix
  cases hlog with
  | opening hopening => exact absurd hopening.outs hempty
  | planned fp plan hnotes houts hfits =>
    refine absurd (hi.trans (houts.trans ?_)) (hnone ⟨plan, [], none⟩
      ⟨hfits.resolve_right hempty, fun c hc => by simp at hc⟩ rfl)
    rw [Script.bytes]
    exact List.prefix_append _ _
  | streaming fp plan hnotes hack hsent =>
    obtain ⟨sc, -, htotal, hfits, hpre⟩ := hsent hs
    exact absurd (hi.trans hpre) (hnone sc hfits htotal)
  | closing fp plan r hnotes hack hsent =>
    obtain ⟨sc, -, -, hfits, hpre, hr, hcut⟩ := hsent hs
    obtain ⟨htotal, hall⟩ := hend sc hfits (hi.trans hpre)
    have houts : h.outs = sc.bytes d := by
      refine hpre.eq_of_length_le ?_
      rw [← hall]
      exact hi.length_le
    refine ⟨fun hc => hcut hc houts, ?_, sc, hfits, htotal, houts⟩
    have hr : r = .ok () := hr.resolve_right fun hne => hne houts
    refine mem_calls_of_mem_notes ?_
    rw [hnotes, hr]
    simp
  | closed fp plan m hclosed hcut =>
    obtain ⟨sc, -, -, hm, hfits, houts⟩ := hclosed.sent hs
    refine ⟨hcut, ?_, sc, hfits, (hend sc hfits (by rw [← houts]; exact hi)).1, houts⟩
    refine mem_calls_of_mem_notes ?_
    rw [hclosed.notes]
    simp

/-- A destination that has returned `Ok` on the source's `Done` knows that
`stream_out` returned `Ok` and that it has read everything the source sends.  It
does not know the audit, which is all the source has left to do: when the source
returns, its outcome is the audit's verdict. -/
theorem restore_complete_before_audit {c : SessionLink} {d : Deps}
    {streamOut : BackupPlan → SinkProg} {streamIn : BackupPlan → StreamInProg} {p q q' : Progress}
    {s : SessionNet} {plan : BackupPlan} {n : UInt64} (hc : c.Flushes)
    (hr : SessionReach c d streamOut streamIn p q s) (hok : s.right = .ret (.ok plan, q'))
    (hmark : (⟨.mark (.restoreComplete n), ()⟩ : Sigma Call.Reply) ∈ s.rightHist.calls) :
    noteStreamed (.ok ()) ∈ s.leftHist.calls ∧
    (∃ sc : Script, sc.Fits d ∧ sc.total = some n ∧ s.leftHist.outs = sc.bytes d ∧
      s.rightHist.ins = sc.bytes d) ∧
    ∀ o p', s.left = .ret (o, p') → ∃ fp t r plan',
      s.leftHist = .call .fingerprint (.ok fp) :: t ++ [.call .fingerprint r] ∧
      noteStreamed (.ok ()) ∈ Hist.calls t ∧ o = audit fp plan' n r := by
  have hend : AtEnd d n s.rightHist := by
    have hwp := Proc.wp_run (wp_runDestination d streamIn q) (Net.Reach.history c hr).rightRun
    rw [hok] at hwp
    have hmark' := mem_notes hmark rfl
    cases (show DestEnd d s.rightHist (.ok plan) from hwp) with
    | complete _ _ honly hend => rw [honly n hmark']; exact hend
    | unexpected _ hnone => exact absurd hmark' (hnone n)
  have hsl := smooth_leftHist hc hr
  have hpre := prefix_dest_ins hr
  have hread := hend (smooth_rightHist hc hr)
  have hall : ∀ sc : Script, sc.Fits d → s.leftHist.outs = sc.bytes d →
      s.rightHist.ins = sc.bytes d := by
    intro sc hfits houts
    refine (hread sc hfits ?_).2
    rw [← houts]
    exact hpre
  rcases source_log hr with ⟨hrunning, hlog⟩ | ⟨o, p', hleft, hsend⟩
  · obtain ⟨-, hstreamed, sc, hfits, htotal, houts⟩ := hlog.of_atEnd hsl hpre hread
    refine ⟨hstreamed, ⟨sc, hfits, htotal, houts, hall sc hfits houts⟩, ?_⟩
    intro o p' hleft
    exact absurd ⟨_, hleft⟩ hrunning
  · cases hsend with
    | failed hlog _ => exact absurd trivial (hlog.of_atEnd hsl hpre hread).1
    | @audited h₀ fp plan' m r heq hclosed =>
      -- the audit sends nothing, so the source's output is that of the closed stage
      have houts : s.leftHist.outs = h₀.outs := by
        rw [heq, Hist.outs_append]
        exact List.append_nil _
      have hclosedLog : SourceLog d False h₀ := .closed fp plan' m hclosed id
      rw [heq] at hsl
      rw [houts] at hpre
      obtain ⟨-, hstreamed, -⟩ := hclosedLog.of_atEnd hsl.left hpre hread
      obtain ⟨sc, -, -, htotal, hfits, hbytes⟩ := hclosed.sent hsl.left
      have hins : s.rightHist.ins <+: sc.bytes d := by
        rw [← hbytes]
        exact hpre
      obtain ⟨hn, hread'⟩ := hread sc hfits hins
      obtain rfl : m = n := by simpa [htotal] using hn
      obtain ⟨t, ht⟩ := hclosed.first
      refine ⟨?_, ⟨sc, hfits, hn, houts.trans hbytes, hread'⟩, ?_⟩
      · rw [heq, Hist.calls_append]
        exact List.mem_append_left _ hstreamed
      · intro o' p'' hleft'
        rw [hleft] at hleft'
        obtain ⟨rfl, rfl⟩ : audit fp plan' m r = o' ∧ p' = p'' := by simpa using hleft'
        refine ⟨fp, t, r, plan', by rw [heq, ht], ?_, rfl⟩
        rw [ht] at hstreamed
        simpa [Hist.calls, Act.call?, noteStreamed] using hstreamed

/-! ## A successful source -/

/-- The destination has validated a plan with success, its preflight is ok and the
accept policy approved it. -/
def Approves (h : Hist Call Call.Reply) : Prop :=
  ∃ plan preflight, preflight.ok = true ∧
    (⟨.validate plan, .ok preflight⟩ : Sigma Call.Reply) ∈ h.calls ∧
    (⟨.accept plan, true⟩ : Sigma Call.Reply) ∈ h.calls

theorem approves_of_decisionNotes {h : Hist Call Call.Reply} {plan : BackupPlan}
    {preflight : Preflight} {rest : Calls Call Call.Reply} (hok : preflight.ok = true)
    (hnotes : notes h = decisionNotes plan preflight true ++ rest) : Approves h := by
  rw [decisionNotes, if_pos hok] at hnotes
  refine ⟨plan, preflight, hok, mem_calls_of_mem_notes ?_, mem_calls_of_mem_notes ?_⟩
  · rw [hnotes]
    simp
  · rw [hnotes]
    simp

/-- A destination that has sent an accepting decision has approved. -/
theorem DestLog.approves_of_ack {d : Deps} {h : Hist Call Call.Reply} {i : Bytes}
    {reason : String} (hlog : DestLog d h) (hi : i <+: h.outs)
    (hack : IsFrame ControlFrame d i (.planAck true reason)) : Approves h := by
  have hempty : h.outs ≠ [] := by
    intro hnil
    rw [hnil, List.prefix_nil] at hi
    have := hack.length_le
    rw [hi] at this
    simp at this
  cases hlog with
  | opening houts _ => exact absurd houts hempty
  | validated plan r _ houts _ => exact absurd houts hempty
  | decided plan preflight approved _ hok hnotes houts =>
    obtain ⟨x, hx⟩ := hi.trans houts
    rw [← List.append_nil (frameBytes d _)] at hx
    obtain ⟨-, hdec, -⟩ := hack.eq_frameBytes (fits_planAck d preflight approved) hx
    rw [decode_encode_planAck] at hdec
    obtain ⟨rfl, -⟩ := ControlFrame.planAck.inj (Option.some.inj hdec)
    rw [← List.append_nil (decisionNotes plan preflight true)] at hnotes
    exact approves_of_decisionNotes (hok rfl) hnotes
  | applying plan preflight rest _ hok _ hnotes _ => exact approves_of_decisionNotes hok hnotes

/-- The destination whose decision the source has read has approved the plan. -/
theorem dest_approves_of_acked {c : SessionLink} {d : Deps}
    {streamOut : BackupPlan → SinkProg} {streamIn : BackupPlan → StreamInProg} {p q : Progress}
    {s : SessionNet} (hr : SessionReach c d streamOut streamIn p q s)
    (hack : Acked d s.leftHist) : Approves s.rightHist := by
  obtain ⟨reason, hack⟩ := hack
  exact (dest_log hr).approves_of_ack (prefix_source_ins hr) hack

/-- A source that has returned `Ok` knows that the destination approved and that
its whole output (the plan, its records with `StreamEnd` last, and the total it returns)
is in the stream.  What the destination has not read yet is still there, and nothing
tells the source what `stream_in` makes of it. -/
theorem source_ok_before_restore {c : SessionLink} {d : Deps}
    {streamOut : BackupPlan → SinkProg} {streamIn : BackupPlan → StreamInProg} {p q p' : Progress}
    {s : SessionNet} {outcome : SourceOutcome} (hc : c.Flushes)
    (hr : SessionReach c d streamOut streamIn p q s) (hok : s.left = .ret (.ok outcome, p')) :
    Approves s.rightHist ∧
    ∃ sc : Script, sc.plan = outcome.plan ∧ (∃ cs, sc.calls = cs ++ [.finish]) ∧
      sc.total = some outcome.bytesSent ∧ sc.Fits d ∧
      sc.bytes d = s.rightHist.ins ++ s.toRight ∧ s.toRight.length ≤ c.capRight := by
  have hist := Net.Reach.history c hr
  rcases source_log hr with ⟨hrunning, -⟩ | ⟨o, p'', hleft, hsend⟩
  · exact absurd ⟨_, hok⟩ hrunning
  rw [hok] at hleft
  obtain ⟨rfl, rfl⟩ : .ok outcome = o ∧ p' = p'' := by simpa using hleft
  generalize hv : (.ok outcome : Result SourceOutcome) = v at hsend
  cases hsend with
  | failed hlog _ => cases hv
  | @audited h₀ fp plan n r heq hclosed =>
    have hout : outcome = ⟨plan, n⟩ := by
      cases r with
      | error e => cases hv
      | ok fp' =>
        simp only [audit] at hv
        split at hv
        · cases hv
        · exact Except.ok.inj hv
    have hsl := smooth_leftHist hc hr
    have houts := hist.leftSent
    have hack : Acked d s.leftHist := by
      rw [heq]
      exact hclosed.acked.append rfl
    rw [heq] at hsl houts
    obtain ⟨sc, hplan, hend, htotal, hfits, hbytes⟩ := hclosed.sent hsl.left
    refine ⟨dest_approves_of_acked hr hack, sc, ?_, hend, ?_, hfits, ?_, hist.capRight⟩
    · rw [hplan, hout]
    · rw [htotal, hout]
    · rw [← hbytes, ← houts, Hist.outs_append]
      exact (List.append_nil _).symm

/-! ## Two particular runs

A source without payload and a destination that takes one event, the end of the
stream, and then returns `r`. -/

/-- A `stream_in` that takes one event and returns `r`. -/
def oneEvent (r : Result Unit) (_ : BackupPlan) : StreamInProg := .next fun _ => .ret r

/-- Every reply, except that flushing works. -/
def anyReply : Policy Call Call.Reply
  | .flush, r => r = true
  | _, _ => True

/-- A stream that holds what these runs send. -/
def sampleLink : SessionLink where
  capRight := 4 * FRAME_LIMIT
  capLeft := 4 * FRAME_LIMIT
  leftPolicy := anyReply
  rightPolicy := anyReply

theorem flushes_sampleLink : sampleLink.Flushes := ⟨fun _ h => h, fun _ h => h⟩

theorem anyReply_of_flush {l : Calls Call Call.Reply}
    (h : ∀ r, (⟨.flush, r⟩ : Sigma Call.Reply) ∈ l → r = true) (e : Call) (r : e.Reply)
    (hmem : (⟨e, r⟩ : Sigma Call.Reply) ∈ l) : anyReply e r := by
  cases e with
  | flush => exact h r hmem
  | _ => trivial

theorem decode_samplePlan (d : Deps) :
    decode ControlFrame d (encode d (ControlFrame.plan samplePlan)) = some (.plan samplePlan) :=
  decode_encode_control d _ (d.json.parse_print _ plain_samplePlan)

section Particular

variable {d : Deps} {fp : String} {plan : BackupPlan} {p q : Progress}

/-- The source, to the decision. -/
theorem goes_runSource (fp : String) (hfits : Fits d (ControlFrame.plan plan)) :
    Goes ((runSource d noPayload).run p) [] (frameBytes d (ControlFrame.plan plan))
      [⟨.fingerprint, .ok fp⟩, ⟨.analyze, .ok plan⟩, ⟨.acceptStream, .ok ()⟩, ⟨.flush, true⟩]
      ((waiting d fp plan).run p) := by
  have hanalyzed : Goes ((runSource d noPayload).run p) [] []
      [⟨.fingerprint, .ok fp⟩, ⟨.analyze, .ok plan⟩] ((afterAnalyze d fp plan).run p) := by
    rw [runSource_eq]
    exact Goes.call (R := Call.Reply) (e := .fingerprint) (.ok fp)
      (Goes.call (R := Call.Reply) (e := .analyze) (.ok plan) (.refl _))
  exact hanalyzed.trans (goes_afterAnalyze fp hfits)

/-- The destination, from the plan to its preflight. -/
theorem goes_validated (streamIn : BackupPlan → StreamInProg) (preflight : Preflight)
    {seg : Bytes} (hseg : IsFrame ControlFrame d seg (.plan plan)) :
    Goes ((runDestination d streamIn).run q) seg []
      [⟨.openStream, .ok ()⟩, ⟨.validate plan, .ok preflight⟩]
      ((do
        let approved ← decideApproval plan preflight
        answer d streamIn plan preflight approved : Metered BackupPlan).run q) := by
  have hopen : Goes openStream.run [] [] [⟨.openStream, .ok ()⟩] (.ret (.ok ())) :=
    Goes.call (R := Call.Reply) (e := .openStream) (.ok ()) (.refl _)
  have hplan : Goes (recvPlan d).run seg [] [] (.ret (.ok plan)) := hseg.goes_recvFrame.bind _
  have hvalidate : Goes (validate plan).run [] [] [⟨.validate plan, .ok preflight⟩]
      (.ret (.ok preflight)) :=
    Goes.call (R := Call.Reply) (e := .validate plan) (.ok preflight) (.refl _)
  have hvalidated := Metered.goes_bind (f := fun preflight => do
      let approved ← decideApproval plan preflight
      answer d streamIn plan preflight approved)
    (Metered.goes_lift (p := q) hvalidate) (.refl _)
  have hplanned := Metered.goes_bind (f := fun plan => do
      let preflight ← validate plan
      let approved ← decideApproval plan preflight
      answer d streamIn plan preflight approved)
    (Metered.goes_lift (p := q) hplan) hvalidated
  have hall := Metered.goes_bind (f := fun _ => do
      let plan ← recvPlan d
      let preflight ← validate plan
      let approved ← decideApproval plan preflight
      answer d streamIn plan preflight approved)
    (Metered.goes_lift (p := q) hopen) hplanned
  simp only [List.append_nil] at hall
  exact hall

/-- The destination, from the plan to its decision. -/
theorem goes_runDestination (streamIn : BackupPlan → StreamInProg) (preflight : Preflight)
    {seg : Bytes} (hseg : IsFrame ControlFrame d seg (.plan plan)) (hok : preflight.ok = true) :
    Goes ((runDestination d streamIn).run q) seg
      (frameBytes d (ControlFrame.planAck true (reasonFor preflight true)))
      [⟨.openStream, .ok ()⟩, ⟨.validate plan, .ok preflight⟩, ⟨.accept plan, true⟩,
        ⟨.flush, true⟩] ((applyPayload d streamIn plan).run q) := by
  have haccept : Goes (decideApproval plan preflight).run [] [] [⟨.accept plan, true⟩]
      (.ret (.ok true)) := by
    rw [decideApproval, if_pos hok]
    exact Goes.call (R := Call.Reply) (e := .accept plan) true (.refl _)
  have hack := Metered.goes_bind (f := fun _ => applyPayload d streamIn plan)
    (Metered.goes_lift (p := q) (goes_sendFrame (fits_planAck d preflight true))) (.refl _)
  have hdecided := Metered.goes_bind (f := answer d streamIn plan preflight)
    (Metered.goes_lift (p := q) haccept) hack
  have hall := (goes_validated streamIn preflight hseg).trans hdecided
  simp only [List.append_nil] at hall
  exact hall

/-- The destination, through `stream_in`. -/
theorem goes_oneEvent (plan : BackupPlan) (r : Result Unit) :
    Goes ((applyPayload d (oneEvent r) plan).run q) (frameBytes d DataFrame.streamEnd) []
      [⟨.mark (.streamIn plan), ()⟩, ⟨.mark (.next (.ok .done)), ()⟩,
        ⟨.mark (.streamInReturned r), ()⟩]
      ((do
        Metered.ofResult r
        let frame ← recvFrame ControlFrame d
        complete plan frame : Metered BackupPlan).run q) := by
  have hnext : Goes ((next d).run q) (frameBytes d DataFrame.streamEnd) [] []
      (.ret (.ok .done, q)) := by
    have h := (Metered.goes_lift (p := q) (goes_recvFrame (fits_streamEnd d)
      (decode_encode_data d .streamEnd))).bind (Metered.cont (handleFrame d))
    exact h
  have hmark := Metered.goes_bind (f := fun _ => Metered.ofResult r)
    (Metered.goes_lift (p := q) (goes_mark (.next (.ok .done)))) (.refl _)
  have hstreamIn : Goes (((oneEvent r plan).perform d).run q)
      (frameBytes d DataFrame.streamEnd) [] [⟨.mark (.next (.ok .done)), ()⟩] (.ret (r, q)) := by
    have h := Metered.goes_bind (f := fun e => do
        mark (.next e)
        Metered.ofResult r)
      (Metered.goes_attempt hnext) hmark
    simp only [List.append_nil] at h
    exact h
  have hreturned := Metered.goes_bind (f := fun _ => do
      Metered.ofResult r
      let frame ← recvFrame ControlFrame d
      complete plan frame)
    (Metered.goes_lift (p := q) (goes_mark (.streamInReturned r))) (.refl _)
  have happlied := Metered.goes_bind (f := fun r => do
      mark (.streamInReturned r)
      Metered.ofResult r
      let frame ← recvFrame ControlFrame d
      complete plan frame)
    (Metered.goes_attempt hstreamIn) hreturned
  have hall := Metered.goes_bind (f := fun _ => do
      let r ← Metered.attempt ((oneEvent r plan).perform d)
      mark (.streamInReturned r)
      Metered.ofResult r
      let frame ← recvFrame ControlFrame d
      complete plan frame)
    (Metered.goes_lift (p := q) (goes_mark (.streamIn plan))) happlied
  simp only [List.append_nil] at hall
  exact hall

/-- The completion frame. -/
theorem goes_complete (n : UInt64) :
    Goes ((do
        let frame ← recvFrame ControlFrame d
        complete plan frame : Metered BackupPlan).run q)
      (frameBytes d (ControlFrame.done n "")) [] [⟨.mark (.restoreComplete n), ()⟩]
      (.ret (.ok plan, q)) := by
  have hmark := Metered.goes_bind (f := fun _ => pure plan)
    (Metered.goes_lift (p := q) (goes_mark (.restoreComplete n))) (.refl _)
  have h := Metered.goes_bind (f := complete plan) (Metered.goes_lift (p := q)
    (goes_recvFrame (fits_done d n) (decode_encode_done d n ""))) hmark
  simp only [List.append_nil] at h
  exact h

/-- Room for a few frames. -/
theorem length_frameBytes_le {F : Type} [Frame F] {frame : F} (hfits : Fits d frame) :
    (frameBytes d frame).length ≤ FRAME_LIMIT + 4 := by
  have : (encode d frame).length ≤ FRAME_LIMIT := hfits
  rw [length_frameBytes]
  omega

end Particular

/-- The session can stand so: the two sides, the bytes towards the source and towards
the destination, and the destination's calls. -/
def Standing (c : SessionLink) (streamIn : BackupPlan → StreamInProg)
    (left : Proc Call Call.Reply (Result SourceOutcome × Progress))
    (right : Proc Call Call.Reply (Result BackupPlan × Progress)) (toLeft toRight : Bytes)
    (calls : Calls Call Call.Reply) : Prop :=
  ∃ s : SessionNet, SessionReach c sampleDeps noPayload streamIn .fresh .fresh s ∧
    s.left = left ∧ s.right = right ∧ s.toLeft = toLeft ∧ s.toRight = toRight ∧
    s.rightHist.calls = calls

section Standing

variable {c : SessionLink} {streamIn : BackupPlan → StreamInProg}
variable {left left' : Proc Call Call.Reply (Result SourceOutcome × Progress)}
variable {right right' : Proc Call Call.Reply (Result BackupPlan × Progress)}
variable {i o rest arriving queued : Bytes} {l calls : Calls Call Call.Reply}

theorem Standing.source (h : Standing c streamIn left right arriving queued calls)
    (hg : Goes left i o l left') (hin : arriving = i ++ rest)
    (hpolicy : ∀ e r, (⟨e, r⟩ : Sigma Call.Reply) ∈ l → c.leftPolicy e r)
    (hroom : queued.length + o.length ≤ c.capRight) (hpeer : o = [] ∨ ¬ right.Finished) :
    Standing c streamIn left' right rest (queued ++ o) calls := by
  obtain ⟨s, hr, rfl, rfl, rfl, rfl, rfl⟩ := h
  obtain ⟨h', -, hr'⟩ := hr.left hg hpolicy hin hroom hpeer
  exact ⟨_, hr', rfl, rfl, rfl, rfl, rfl⟩

theorem Standing.destination (h : Standing c streamIn left right queued arriving calls)
    (hg : Goes right i o l right') (hin : arriving = i ++ rest)
    (hpolicy : ∀ e r, (⟨e, r⟩ : Sigma Call.Reply) ∈ l → c.rightPolicy e r)
    (hroom : queued.length + o.length ≤ c.capLeft) (hpeer : o = [] ∨ ¬ left.Finished) :
    Standing c streamIn left right' (queued ++ o) rest (calls ++ l) := by
  obtain ⟨s, hr, rfl, rfl, rfl, rfl, rfl⟩ := h
  obtain ⟨h', hcalls, hr'⟩ := hr.right hg hpolicy hin hroom hpeer
  exact ⟨_, hr', rfl, rfl, rfl, rfl, hcalls⟩

end Standing

/-- Room for the frames of these runs. -/
theorem capRight_sampleLink : sampleLink.capRight = 4 * FRAME_LIMIT := rfl

theorem capLeft_sampleLink : sampleLink.capLeft = 4 * FRAME_LIMIT := rfl

/-- The session at the point where the source is about to audit, the destination has
taken the end of the stream and `Done` is in flight. -/
theorem standing_at_audit (r : Result Unit) :
    ∃ calls, Standing sampleLink (oneEvent r) ((auditSource "before" samplePlan 0).run .fresh)
      ((do
        Metered.ofResult r
        let frame ← recvFrame ControlFrame sampleDeps
        complete samplePlan frame : Metered BackupPlan).run .fresh)
      [] (frameBytes sampleDeps (ControlFrame.done 0 "")) calls := by
  have hplan := fits_samplePlan sampleDeps
  have hack : Fits sampleDeps (ControlFrame.planAck true "accepted") :=
    fits_planAck sampleDeps .pass true
  have hlimit : 100 ≤ FRAME_LIMIT := by decide
  have hlenPlan := length_frameBytes_le hplan
  have hlenAck := length_frameBytes_le hack
  have hlenEnd := length_frameBytes_le (fits_streamEnd sampleDeps)
  have hlenDone := length_frameBytes_le (fits_done sampleDeps 0)
  have hdest := goes_runDestination (q := .fresh) (oneEvent r) .pass
    (isFrame_frameBytes hplan (decode_samplePlan sampleDeps)) rfl
  rw [show reasonFor .pass true = "accepted" from rfl] at hdest
  have hwait := goes_waiting (p := .fresh) "before" samplePlan hack
  have hevent := goes_oneEvent (d := sampleDeps) (q := .fresh) samplePlan r
  have h₀ : Standing sampleLink (oneEvent r) ((runSource sampleDeps noPayload).run .fresh)
      ((runDestination sampleDeps (oneEvent r)).run .fresh) [] [] [] :=
    ⟨_, .init, rfl, rfl, rfl, rfl, rfl⟩
  -- the plan, the decision, the closing frames, and the end of the stream
  have h₁ := h₀.source (goes_runSource "before" hplan) (List.append_nil _).symm
    (anyReply_of_flush (by simp)) (by rw [List.length_nil, capRight_sampleLink]; omega)
    (.inr (hdest.not_finished (by simp)))
  have h₂ := h₁.destination hdest (List.append_nil _).symm (anyReply_of_flush (by simp))
    (by rw [List.length_nil, capLeft_sampleLink]; omega) (.inr (hwait.not_finished (by simp)))
  have h₃ := h₂.source hwait (List.append_nil _).symm
    (anyReply_of_flush (by simp [noteStreamOut, noteStreamed]))
    (by
      rw [List.length_nil, List.length_append, Progress.bytes_fresh, capRight_sampleLink]
      omega)
    (.inr (hevent.not_finished (by simp)))
  have h₄ := h₃.destination hevent rfl (anyReply_of_flush (by simp))
    (by simp) (.inl rfl)
  exact ⟨_, h₄⟩

/-- The destination completes and then the source audits. -/
theorem standing_restored (fp' : Result String) :
    ∃ calls, Standing sampleLink (oneEvent (.ok ()))
      (.ret (audit "before" samplePlan 0 fp', .fresh)) (.ret (.ok samplePlan, .fresh)) [] []
      (calls ++ [⟨.mark (.restoreComplete 0), ()⟩]) := by
  obtain ⟨calls, h⟩ := standing_at_audit (.ok ())
  have h₁ := h.destination (goes_complete 0) (List.append_nil _).symm
    (anyReply_of_flush (by simp)) (by simp) (.inl rfl)
  have h₂ := h₁.source (goes_audit 0 fp') rfl (anyReply_of_flush (by simp)) (by simp) (.inl rfl)
  exact ⟨calls, h₂⟩

/-- A destination can return `Ok` before the audit, which then fails. -/
theorem restored_from_mutated_source :
    ∃ s : SessionNet,
      SessionReach sampleLink sampleDeps noPayload (oneEvent (.ok ())) .fresh .fresh s ∧
      s.left = .ret (.error (mutatedError "before" "after"), .fresh) ∧
      s.right = .ret (.ok samplePlan, .fresh) := by
  obtain ⟨calls, s, hr, hleft, hright, -⟩ := standing_restored (.ok "after")
  refine ⟨s, hr, ?_, hright⟩
  rw [hleft, audit, if_pos (by decide)]

theorem restore_complete_before_audit_sample :
    ∃ s : SessionNet,
      SessionReach sampleLink sampleDeps noPayload (oneEvent (.ok ())) .fresh .fresh s ∧
      s.right = .ret (.ok samplePlan, .fresh) ∧ noteStreamed (.ok ()) ∈ s.leftHist.calls := by
  obtain ⟨calls, s, hr, -, hright, -, -, hcalls⟩ := standing_restored (.ok "before")
  refine ⟨s, hr, hright, (restore_complete_before_audit (n := 0) flushes_sampleLink hr hright
    ?_).1⟩
  rw [hcalls]
  simp

/-- The error of a backend that cannot commit what it was sent. -/
def commitError : BackupError := .inPhase .apply "commit failed"

/-- The source audits, with success, and the destination's `stream_in` fails at the
last event. -/
theorem standing_unrestored :
    ∃ calls, Standing sampleLink (oneEvent (.error commitError))
      (.ret (.ok ⟨samplePlan, 0⟩, .fresh)) (.ret (.error commitError, .fresh)) []
      (frameBytes sampleDeps (ControlFrame.done 0 "")) calls := by
  obtain ⟨calls, h⟩ := standing_at_audit (.error commitError)
  have h₁ := h.source (goes_audit 0 (.ok "before")) rfl (anyReply_of_flush (by simp))
    (Nat.le_trans (length_frameBytes_le (fits_done sampleDeps 0)) (by decide)) (.inl rfl)
  rw [List.append_nil, audit, if_neg (by decide)] at h₁
  exact ⟨calls, h₁⟩

/-- A source can return `Ok` although `stream_in` failed. -/
theorem source_ok_of_failed_restore :
    ∃ s : SessionNet,
      SessionReach sampleLink sampleDeps noPayload (oneEvent (.error commitError)) .fresh
        .fresh s ∧
      s.left = .ret (.ok ⟨samplePlan, 0⟩, .fresh) ∧
      s.right = .ret (.error commitError, .fresh) := by
  obtain ⟨calls, s, hr, hleft, hright, -⟩ := standing_unrestored
  exact ⟨s, hr, hleft, hright⟩

theorem source_ok_before_restore_sample :
    ∃ s : SessionNet,
      SessionReach sampleLink sampleDeps noPayload (oneEvent (.error commitError)) .fresh
        .fresh s ∧
      s.left = .ret (.ok ⟨samplePlan, 0⟩, .fresh) ∧ Approves s.rightHist := by
  obtain ⟨calls, s, hr, hleft, -⟩ := standing_unrestored
  exact ⟨s, hr, hleft, (source_ok_before_restore flushes_sampleLink hr hleft).1⟩

end RustBackup.Core
