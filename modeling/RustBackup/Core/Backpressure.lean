/-
  Core/Backpressure.lean --- a session never deadlocks on a full or an empty stream.

  Source: crates/rb-core/src/channel.rs (the backpressure invariant),
  crates/rb-core/src/session.rs.

  The source leads and the destination follows: one plan, one decision, and then
  bytes flow one way only.  That holds of the code whatever `stream_out` and
  `stream_in` do, because a sink can only write and a chunk source can only read.
  How large a plan or a chunk is next to the stream's capacity does not matter.
-/
import RustBackup.Io.Backpressure
import RustBackup.Core.Gate

set_option autoImplicit false

namespace RustBackup.Core

open RustBackup.Serde RustBackup.Io

/-! ## Complete frames -/

theorem Complete.mono {x y : Bytes} (h : Complete x) (hxy : x <+: y) : Complete y := by
  obtain ⟨z, rfl⟩ := hxy
  obtain ⟨hlen, hbody⟩ := h
  refine ⟨?_, ?_⟩
  · rw [List.length_append]
    omega
  · rw [List.take_append_of_le_length hlen, List.length_append]
    omega

/-- A length prefix with its body is complete, and nothing shorter is. -/
theorem complete_iff {body o : Bytes} (hlen : body.length ≤ FRAME_LIMIT)
    (ho : o <+: leBytes body.length ++ body) :
    Complete o ↔ o = leBytes body.length ++ body := by
  have hlt : body.length < 2 ^ 32 := Nat.lt_of_le_of_lt hlen (by decide)
  have hall : (leBytes body.length ++ body).length = 4 + body.length := by
    rw [List.length_append, length_leBytes]
  constructor
  · rintro ⟨hfour, hbody⟩
    refine ho.eq_of_length_le ?_
    have htake : o.take 4 = leBytes body.length := by
      obtain ⟨y, hy⟩ := ho
      have h₁ := congrArg (List.take 4) hy
      rwa [List.take_append_of_le_length hfour,
        List.take_append_of_le_length (Nat.le_of_eq (length_leBytes _).symm),
        List.take_of_length_le (Nat.le_of_eq (length_leBytes _))] at h₁
    rw [htake, fromLeBytes_leBytes hlt] at hbody
    omega
  · rintro rfl
    refine ⟨by omega, ?_⟩
    rw [List.take_append_of_le_length (Nat.le_of_eq (length_leBytes _).symm),
      List.take_of_length_le (Nat.le_of_eq (length_leBytes _)), fromLeBytes_leBytes hlt, hall]

theorem IsFrame.complete {F : Type} [Frame F] {d : Deps} {seg : Bytes} {frame : F}
    (h : IsFrame F d seg frame) : Complete seg := by
  obtain ⟨body, hlen, -, rfl⟩ := h
  exact (complete_iff hlen (List.prefix_refl _)).mpr rfl

/-! ## One-way tasks -/

namespace Metered

variable {α β : Type}

/-- The task never gets to an interaction of kind `x`. -/
def Avoids (x : Proc.Kind) (m : Metered α) : Prop := ∀ p, (m.run p).Avoids x

variable {x : Proc.Kind}

theorem avoids_bind {m : Metered α} {f : α → Metered β} (hm : m.Avoids x)
    (hf : ∀ a, (f a).Avoids x) : (m >>= f).Avoids x := by
  intro p
  refine (hm p).bind fun o => ?_
  obtain ⟨r, p'⟩ := o
  cases r with
  | ok a => exact hf a p'
  | error e => exact trivial

theorem avoids_lift {m : Session α} (hm : m.run.Avoids x) :
    (monadLift m : Metered α).Avoids x :=
  fun _ => hm.bind fun _ => trivial

theorem avoids_attempt {m : Metered α} (hm : m.Avoids x) : (attempt m).Avoids x :=
  fun p => (hm p).bind fun _ => trivial

theorem avoids_ofResult (r : Result α) : (ofResult r).Avoids x := fun _ => trivial

theorem avoids_pure (a : α) : (pure a : Metered α).Avoids x := fun _ => trivial

theorem avoids_count (f : Progress → Progress) : (count f).Avoids x := fun _ => trivial

end Metered

theorem avoids_mark {x : Proc.Kind} (hx : x ≠ .call) (m : Mark) :
    (monadLift (mark m) : Metered Unit).Avoids x :=
  Metered.avoids_lift ⟨hx, fun _ => trivial⟩

theorem avoids_taskBind {α β : Type} {x : Proc.Kind} {m : Session α} {f : α → Session β}
    (hm : m.run.Avoids x) (hf : ∀ a, (f a).run.Avoids x) : (m >>= f).run.Avoids x := by
  refine hm.bind fun r => ?_
  cases r with
  | ok a => exact hf a
  | error e => exact trivial

/-! ### A sink only writes -/

theorem avoids_sendFrame {F : Type} [Frame F] (d : Deps) (frame : F) :
    (sendFrame d frame).run.Avoids .read := by
  simp only [sendFrame]
  split
  · exact trivial
  · refine avoids_taskBind (avoids_writeAll (by simp) _ _ _ _) fun _ => ?_
    refine avoids_taskBind (avoids_writeAll (by simp) _ _ _ _) fun _ => ?_
    refine ⟨by simp, fun r => ?_⟩
    cases r with
    | true => exact trivial
    | false => exact trivial

theorem avoids_sinkCall (d : Deps) (c : SinkCall) : (c.perform d).Avoids .read := by
  cases c with
  | sendChunk itemId offset data =>
    simp only [SinkCall.perform, Core.sendChunk]
    split
    · exact Metered.avoids_ofResult _
    · refine Metered.avoids_bind (Metered.avoids_lift (avoids_sendFrame d _)) fun _ => ?_
      refine Metered.avoids_bind (Metered.avoids_lift (avoids_writeAll (by simp) _ _ _ _))
        fun _ => ?_
      exact Metered.avoids_count _
  | finishItem itemId total blake3 =>
    exact Metered.avoids_bind (Metered.avoids_lift (avoids_sendFrame d _)) fun _ =>
      Metered.avoids_count _
  | finish => exact Metered.avoids_lift (avoids_sendFrame d _)

theorem avoids_streamOut (d : Deps) (prog : SinkProg) : (prog.perform d).Avoids .read := by
  induction prog with
  | ret r => exact Metered.avoids_ofResult r
  | call c k ih =>
    refine Metered.avoids_bind (Metered.avoids_attempt (avoids_sinkCall d c)) fun r => ?_
    exact Metered.avoids_bind (avoids_mark (by simp) _) fun _ => ih r

/-- After the decision the source never reads. -/
theorem avoids_streamSource (d : Deps) (streamOut : BackupPlan → SinkProg) (fpBefore : String)
    (plan : BackupPlan) : (streamSource d streamOut fpBefore plan).Avoids .read := by
  refine Metered.avoids_bind (avoids_mark (by simp) _) fun _ => ?_
  refine Metered.avoids_bind (Metered.avoids_attempt (avoids_streamOut d _)) fun r => ?_
  refine Metered.avoids_bind (avoids_mark (by simp) _) fun _ => ?_
  refine Metered.avoids_bind (Metered.avoids_ofResult r) fun _ => ?_
  refine Metered.avoids_bind (avoids_sinkCall d .finish) fun _ => ?_
  refine Metered.avoids_bind (fun _ => trivial) fun n => ?_
  refine Metered.avoids_bind (Metered.avoids_lift (avoids_sendFrame d _)) fun _ => ?_
  refine Metered.avoids_bind (Metered.avoids_lift ⟨by simp, fun _ => trivial⟩) fun fp => ?_
  split
  · exact Metered.avoids_ofResult _
  · exact Metered.avoids_pure _

/-! ### A chunk source only reads -/

theorem avoids_recvFrame (F : Type) [Frame F] (d : Deps) :
    (recvFrame F d).run.Avoids .write := by
  refine (avoids_readExact (by simp) _ _ _ 4).bind fun r => ?_
  cases r with
  | error e =>
    cases e with
    | unexpectedEof => exact trivial
    | other => exact trivial
  | ok lenBuf =>
    simp only [recvBody]
    split
    · exact trivial
    · refine avoids_taskBind (avoids_readExact (by simp) _ _ _ _) fun body => ?_
      split
      · exact trivial
      · exact trivial

theorem avoids_next (d : Deps) : (next d).Avoids .write := by
  refine Metered.avoids_bind (Metered.avoids_lift (avoids_recvFrame _ d)) fun frame => ?_
  cases frame with
  | none => exact Metered.avoids_pure _
  | some frame =>
    cases frame with
    | streamEnd => exact Metered.avoids_pure _
    | itemEnd itemId total blake3 =>
      exact Metered.avoids_bind (Metered.avoids_count _) fun _ => Metered.avoids_pure _
    | chunkStart itemId offset len blake3 =>
      refine Metered.avoids_bind (Metered.avoids_lift (avoids_readExact (by simp) _ _ _ _))
        fun data => ?_
      simp only
      split
      · exact Metered.avoids_ofResult _
      · exact Metered.avoids_bind (Metered.avoids_count _) fun _ => Metered.avoids_pure _

theorem avoids_streamIn (d : Deps) (prog : StreamInProg) : (prog.perform d).Avoids .write := by
  induction prog with
  | ret r => exact Metered.avoids_ofResult r
  | next k ih =>
    refine Metered.avoids_bind (Metered.avoids_attempt (avoids_next d)) fun r => ?_
    exact Metered.avoids_bind (avoids_mark (by simp) _) fun _ => ih r

/-- After its decision the destination never writes. -/
theorem avoids_applyPayload (d : Deps) (streamIn : BackupPlan → StreamInProg)
    (plan : BackupPlan) : (applyPayload d streamIn plan).Avoids .write := by
  refine Metered.avoids_bind (avoids_mark (by simp) _) fun _ => ?_
  refine Metered.avoids_bind (Metered.avoids_attempt (avoids_streamIn d _)) fun r => ?_
  refine Metered.avoids_bind (avoids_mark (by simp) _) fun _ => ?_
  refine Metered.avoids_bind (Metered.avoids_ofResult r) fun _ => ?_
  refine Metered.avoids_bind (Metered.avoids_lift (avoids_recvFrame _ d)) fun frame => ?_
  have hwarn : (do mark .unexpectedCompletion; return plan : Metered BackupPlan).Avoids .write :=
    Metered.avoids_bind (avoids_mark (by simp) _) fun _ => Metered.avoids_pure _
  cases frame with
  | none => exact hwarn
  | some frame =>
    cases frame with
    | plan plan' => exact hwarn
    | planAck accepted reason => exact hwarn
    | done n blake3 =>
      exact Metered.avoids_bind (avoids_mark (by simp) _) fun _ => Metered.avoids_pure _
    | abort reason => exact Metered.avoids_ofResult _

/-! ## The source leads -/

section Walk

variable {d : Deps} {streamOut : BackupPlan → SinkProg} {streamIn : BackupPlan → StreamInProg}
variable {p : Progress}

/-- Once the decision has arrived, the source leads whatever `stream_out` does. -/
theorem leads_streamSource {fp : String} {plan : BackupPlan} {h : Hist Call Call.Reply}
    (hack : Complete h.ins) :
    Proc.wpAt (Net.Leads Complete Complete Complete) (fun _ _ => True)
      ((streamSource d streamOut fp plan).run p) h := by
  refine Proc.wpAt_of_avoids ?_ (avoids_streamSource d streamOut fp plan p) (List.prefix_refl h)
  intro y h' hy hpre
  cases y with
  | ret => exact trivial
  | read => exact absurd rfl hy
  | write =>
    obtain ⟨t, rfl⟩ := hpre
    rw [Net.Leads, Hist.ins_append]
    exact .inr (hack.mono (List.prefix_append _ _))
  | call => exact trivial

/-- The source waits only for the decision, and only after its whole plan. -/
theorem leads_recvAck {fp : String} {plan : BackupPlan} {h : Hist Call Call.Reply}
    (hins : h.ins = []) (hplan : Complete h.outs) :
    Proc.wpAt (Net.Leads Complete Complete Complete) (fun _ _ => True)
      ((do recvAck d; streamSource d streamOut fp plan : Metered SourceOutcome).run p) h := by
  simp only [recvAck, Metered.run_bind, Metered.run_monadLift, Task.run_bind, Proc.bind_assoc]
  rw [Proc.wpAt_bind]
  refine wpAt_recvFrame ?_ ?_
  · intro t i ht hnot
    rw [Net.Leads, Hist.outs_append, ht.outs, List.append_nil, Hist.ins_append, hins, ht.ins,
      List.nil_append]
    exact ⟨hplan, hnot⟩
  intro t r hr
  cases r with
  | error e => exact trivial
  | ok frame =>
    cases frame with
    | none => exact trivial
    | some frame =>
      cases frame with
      | planAck accepted reason =>
        cases accepted with
        | true =>
          refine leads_streamSource ?_
          rw [Hist.ins_append, hins, List.nil_append]
          exact hr.isFrame.2.complete
        | false => exact trivial
      | plan plan => exact trivial
      | done n blake3 => exact trivial
      | abort reason => exact trivial

theorem leads_runSource :
    Proc.wpAt (Net.Leads Complete Complete Complete) (fun _ _ => True)
      ((runSource d streamOut).run p) [] := by
  rw [runSource_eq]
  simp only [fingerprint, analyze, acceptStream, Metered.run_bind, Metered.run_monadLift,
    Proc.call_bind, Proc.ret_bind]
  refine ⟨trivial, fun fp => ?_⟩
  cases fp with
  | error e => exact trivial
  | ok fp =>
    refine ⟨trivial, fun plan => ?_⟩
    cases plan with
    | error e => exact trivial
    | ok plan =>
      refine ⟨trivial, fun r => ?_⟩
      cases r with
      | error e => exact trivial
      | ok _ =>
        simp only [Metered.cont_ok, Metered.run_bind, Metered.run_monadLift, Proc.bind_assoc,
          Proc.ret_bind]
        rw [Proc.wpAt_bind]
        refine wpAt_sendFrame ?_ (fun _ _ _ => trivial) ?_
        · intro t o hfits ht ho hne
          rw [Net.Leads, Hist.outs_append, ht.outs]
          exact .inl fun hc => hne ((complete_iff hfits ho).mp hc)
        intro t r hr
        cases r with
        | error e => exact trivial
        | ok _ =>
          obtain ⟨hfits, ht⟩ := hr.emits_of_ok
          refine leads_recvAck ?_ ?_
          · rw [Hist.ins_append, ht.ins]
            rfl
          · rw [Hist.outs_append, ht.outs]
            exact (complete_iff hfits (List.prefix_refl _)).mpr rfl

/-! ## The destination follows -/

/-- Once its decision is sent, the destination follows whatever `stream_in` does. -/
theorem follows_applyPayload {plan : BackupPlan} {h : Hist Call Call.Reply}
    (hack : Complete h.outs) :
    Proc.wpAt (Net.Follows Complete Complete Complete) (fun _ _ => True)
      ((applyPayload d streamIn plan).run p) h := by
  refine Proc.wpAt_of_avoids ?_ (avoids_applyPayload d streamIn plan p) (List.prefix_refl h)
  intro y h' hy hpre
  cases y with
  | ret => exact trivial
  | read =>
    obtain ⟨t, rfl⟩ := hpre
    rw [Net.Follows, Hist.outs_append]
    exact .inr (hack.mono (List.prefix_append _ _))
  | write => exact absurd rfl hy
  | call => exact trivial

/-- The destination sends only its decision, and only after a whole plan. -/
theorem follows_sendAck {plan : BackupPlan} {preflight : Preflight} {approved : Bool}
    {h : Hist Call Call.Reply} (hplan : Complete h.ins) (houts : h.outs = []) :
    Proc.wpAt (Net.Follows Complete Complete Complete) (fun _ _ => True)
      ((do
        sendAck d approved (reasonFor preflight approved)
        if !approved then
          Metered.ofResult (.error (refusal preflight (reasonFor preflight approved)))
        else
          applyPayload d streamIn plan : Metered BackupPlan).run p) h := by
  simp only [Metered.run_bind, Metered.run_monadLift, Proc.bind_assoc, Proc.ret_bind]
  rw [Proc.wpAt_bind]
  refine wpAt_sendFrame ?_ (fun _ _ _ => trivial) ?_
  · intro t o hfits ht ho hne
    rw [Net.Follows, Hist.ins_append, Hist.outs_append, houts, ht.outs, List.nil_append]
    exact ⟨hplan.mono (List.prefix_append _ _), fun hc => hne ((complete_iff hfits ho).mp hc)⟩
  intro t r hr
  cases r with
  | error e => exact trivial
  | ok _ =>
    obtain ⟨hfits, ht⟩ := hr.emits_of_ok
    rw [Metered.cont_ok]
    split
    · exact trivial
    · refine follows_applyPayload ?_
      rw [Hist.outs_append, houts, ht.outs]
      exact (complete_iff hfits (List.prefix_refl _)).mpr rfl

theorem follows_runDestination :
    Proc.wpAt (Net.Follows Complete Complete Complete) (fun _ _ => True)
      ((runDestination d streamIn).run p) [] := by
  simp only [runDestination, openStream, recvPlan, validate, Metered.run_bind,
    Metered.run_monadLift, Proc.call_bind, Proc.ret_bind]
  refine ⟨trivial, fun r => ?_⟩
  cases r with
  | error e => exact trivial
  | ok _ =>
    simp only [Metered.cont_ok, Metered.run_bind, Metered.run_monadLift, Task.run_bind,
      Proc.bind_assoc]
    rw [Proc.wpAt_bind]
    refine wpAt_recvFrame ?_ ?_
    · intro t i ht hnot
      rw [Net.Follows, Hist.ins_append, ht.ins]
      exact .inl hnot
    intro t r hr
    cases r with
    | error e => exact trivial
    | ok frame =>
      cases frame with
      | none => exact trivial
      | some frame =>
        cases frame with
        | plan plan =>
          have hplan : Complete t.ins := hr.isFrame.2.complete
          refine ⟨trivial, fun r => ?_⟩
          cases r with
          | error e => exact trivial
          | ok preflight =>
            simp only [Proc.ret_bind, Metered.cont_ok, Metered.run_bind, Metered.run_monadLift,
              decideApproval]
            split
            · refine ⟨trivial, fun approved => ?_⟩
              refine follows_sendAck ?_ ?_
              · simp only [Hist.ins_append, Hist.ins_call, List.append_nil]
                exact hplan
              · simp only [Hist.outs_append, Hist.outs_call, List.append_nil]
                exact hr.outs
            · refine follows_sendAck ?_ ?_
              · simp only [Hist.ins_append, Hist.ins_call, List.append_nil]
                exact hplan
              · simp only [Hist.outs_append, Hist.outs_call, List.append_nil]
                exact hr.outs
        | planAck accepted reason => exact trivial
        | done n blake3 => exact trivial
        | abort reason => exact trivial

end Walk

/-! ## No deadlock -/

section Deadlock

variable {c : SessionLink} {d : Deps} {streamOut : BackupPlan → SinkProg}
variable {streamIn : BackupPlan → StreamInProg} {p q : Progress}

/-- No reachable state has an unfinished side while every unfinished side is blocked
reading an empty open direction or writing to a full open one: for every capacity,
plan, `stream_out` and `stream_in`, whatever the calls out reply and wherever a side
drops its end. -/
theorem session_no_deadlock (hcr : 0 < c.capRight) (hcl : 0 < c.capLeft) {s : SessionNet}
    (hr : Net.Moves c ((runSource d streamOut).run p) ((runDestination d streamIn).run q) s) :
    ¬ Net.Deadlocked c s :=
  Net.not_deadlocked c (fun _ _ hx hxy => hx.mono hxy) (fun _ _ hx hxy => hx.mono hxy) hcr hcl
    leads_runSource follows_runDestination hr

/-- A stream that holds one byte in each direction. -/
def narrowLink : SessionLink where
  capRight := 1
  capLeft := 1
  leftPolicy := fun _ _ => True
  rightPolicy := fun _ _ => True

/-- A destination that waits for the plan is blocked while the source still takes its
baseline, and that is no deadlock. -/
theorem session_no_deadlock_waiting :
    ∃ s : SessionNet,
      Net.Moves narrowLink ((runSource sampleDeps noPayload).run .fresh)
        ((runDestination sampleDeps (oneEvent (.ok ()))).run .fresh) s ∧
      Blocked narrowLink.capLeft s.left.Finished s.toRight s.toLeft s.right ∧
      ¬ Net.Deadlocked narrowLink s := by
  have hreach : Net.Moves narrowLink ((runSource sampleDeps noPayload).run .fresh)
      ((runDestination sampleDeps (oneEvent (.ok ()))).run .fresh) _ :=
    .move .init (.step (.right (i := []) (o := [])
      (Proc.Step.call (R := Call.Reply) (e := .openStream) (r := .ok ()))
      ⟨trivial, rfl, rfl⟩))
  refine ⟨_, hreach, ?_, session_no_deadlock (by decide) (by decide) hreach⟩
  simp only [Proc.ret_bind, Metered.cont_ok, Metered.run_bind, Metered.run_monadLift, recvPlan,
    Task.run_bind, recvFrame, readExact, readExactFrom_succ, Proc.read_bind]
  refine ⟨rfl, ?_⟩
  rintro ⟨a, ha⟩
  cases ha

/-- If every call is answered, every session ends, with both sides returned. -/
theorem session_ends (hlive : c.Live) :
    Net.Inevitable c Net.Final
      (Net.init ((runSource d streamOut).run p) ((runDestination d streamIn).run q)) := by
  refine Net.inevitable_final c hlive.answers (coalescing_runSource d streamOut p).regular
    (coalescing_runDestination d streamIn q).regular fun s hr => ?_
  exact Net.not_deadlocked c (fun _ _ hx hxy => hx.mono hxy) (fun _ _ hx hxy => hx.mono hxy)
    hlive.capRight hlive.capLeft leads_runSource follows_runDestination hr.moves

end Deadlock

end RustBackup.Core
