/-
  Deployment/EndToEnd.lean --- backups through the server are sound.

  Whatever the server, its clients and everybody who uses other substreams do, and in
  whatever order: a source that streams has the approval of a destination of its own
  channel for the plan that it has sent, and what a destination is handed is what a
  source of its own channel was given.  The relay's guarantee about bytes makes the two
  sessions joined ones, and about those Core.Delivery says the rest.
-/
import RustBackup.Deployment.Simulation

set_option autoImplicit false

namespace RustBackup.Deployment

open RustBackup.Io RustBackup.Transport

section EndToEnd

variable {x : Setup} {s : System} {i j k p : Nat} {c : SourceClient} {e : DestinationClient}

/-- Sessions at the two ends of a line are joined. -/
theorem Sound.joined (h : Sound x s) (hc : s.sources i = some c) (he : s.destinations j = some e)
    (hp : c.stream = some p) (hk : e.stream = some k) (hspliced : Spliced s.server.shared k p) :
    Core.Joined x.session (x.streamOut i) (x.streamIn j) (x.progress i) (x.progress j) c.hist
      e.hist := by
  have hsource := h.sources i c hc
  have hdestination := h.destinations j e he
  obtain ⟨g, hg, -, hgread, hgwrote⟩ := hsource.stream p hp
  obtain ⟨f, hf, -, hfread, hfwrote⟩ := hdestination.stream k hk
  obtain ⟨r, hrel, hprov⟩ := hspliced
  have hline := (connected_of_reach h.server).wired k
  refine ⟨⟨_, hsource.run⟩, ⟨_, hdestination.run⟩, ?_, ?_⟩
  · rw [← hfread, ← hgwrote]
    exact hline.back hrel hprov hf hg
  · rw [← hgread, ← hfwrote]
    exact hline.forth hrel hprov hf hg

/-- A source that streams has read the decision. -/
theorem SourceSound.stream_of_entered {w : World} (h : SourceSound x w i c)
    {plan : Core.BackupPlan} (hplan : Core.entered c.hist.calls = some plan) :
    ∃ p, c.stream = some p := by
  obtain ⟨reason, hframe⟩ := (Core.awaiting_or_acked h.run).resolve_left fun hawait =>
    hawait.noteStreamOut_notMem plan (Core.noteStreamOut_of_entered hplan)
  cases hstream : c.stream with
  | some p => exact ⟨p, rfl⟩
  | none =>
    have hlen := hframe.length_le
    rw [(h.fresh hstream).1] at hlen
    exact absurd hlen (by simp)

/-- A source whose `stream_out` is called has a line to a destination that is connected
for the id that it is itself registered for; whichever session is at the other end has
validated and accepted the plan that the source has sent. -/
theorem deployment_approved (hr : Reach x s) (hc : s.sources i = some c) {plan : Core.BackupPlan}
    (hplan : Core.entered c.hist.calls = some plan) :
    ∃ id p k f, c.stream = some p ∧ Spliced s.server.shared k p ∧
      s.server.shared.consumers k = some f ∧ RegisteredOn s.server i id ∧
      ConnectedOn s.server f.conn id ∧
      ∀ j e, s.destinations j = some e → e.stream = some k → j = f.conn ∧
        ∃ plan' preflight,
          Core.decode Core.ControlFrame x.session
            (Core.encode x.session (Core.ControlFrame.plan plan)) = some (.plan plan') ∧
          preflight.ok = true ∧
          (⟨.validate plan', .ok preflight⟩ : Sigma Core.Call.Reply) ∈ e.hist.calls ∧
          (⟨.accept plan', true⟩ : Sigma Core.Call.Reply) ∈ e.hist.calls := by
  have h := hr.sound
  have hsource := h.sources i c hc
  obtain ⟨p, hp⟩ := hsource.stream_of_entered hplan
  obtain ⟨g, hg, rfl, -, -⟩ := hsource.stream p hp
  have hconn := connected_of_reach h.server
  obtain ⟨id, f, hreg, hf, -, hid⟩ := hconn.paired hg
  refine ⟨id, p, g.relay, f, hp, hconn.opened hg, hf, hreg, hid, fun j e he hk => ?_⟩
  obtain ⟨f', hf', hj, -⟩ := (h.destinations j e he).stream g.relay hk
  rw [hf] at hf'
  cases hf'
  exact ⟨hj.symm, (h.joined hc he hp hk (hconn.opened hg)).approved hplan⟩

/-- The source of the sample session streams; the destination at the other end of its line
has validated and accepted a plan. -/
theorem deployment_approved_sample :
    ∃ s c e id plan preflight, Reach sampleSetup s ∧ s.sources 0 = some c ∧
      s.destinations 1 = some e ∧ Core.entered c.hist.calls = some Core.samplePlan ∧
      RegisteredOn s.server 0 id ∧ ConnectedOn s.server 1 id ∧ preflight.ok = true ∧
      (⟨.validate plan, .ok preflight⟩ : Sigma Core.Call.Reply) ∈ e.hist.calls ∧
      (⟨.accept plan, true⟩ : Sigma Core.Call.Reply) ∈ e.hist.calls := by
  obtain ⟨s, n, h, hleft, hright, -⟩ := deployment_simulates_sample
  obtain ⟨held, -, hc⟩ := h.source
  obtain ⟨held', hafter', he⟩ := h.destination
  have hplan : Core.entered n.leftHist.calls = some Core.samplePlan := by
    rw [hleft]
    exact Core.entered_sourceRecord
  have hheld' : held' = true := by
    apply Core.held_of_mem hafter'
    rw [hright]
    simp [Core.destRecord, Core.decisionNotes]
  subst hheld'
  obtain ⟨id, p, k, f, hp, hspliced, -, hreg, hconn, hall⟩ :=
    deployment_approved h.reach hc hplan
  obtain ⟨f', g', r, hopen, -⟩ := h.line
  -- the source's line is the one between the two
  obtain rfl : p = 0 := by
    cases held with
    | true => exact (Option.some.inj hp).symm
    | false => cases hp
  obtain rfl : k = 0 := ((connected_of_reach h.reach.sound.server).exclusive hspliced
    ⟨r, hopen.relay, hopen.spliced⟩).mpr rfl
  obtain ⟨hj, plan, preflight, -, hok, hvalidate, haccept⟩ := hall 1 _ he rfl
  rw [← hj] at hconn
  exact ⟨s, _, _, id, plan, preflight, h.reach, hc, he, hplan, hreg, hconn, hok, hvalidate, haccept⟩

/-- A destination that has read anything has a line to a source that is registered for
the id that it is itself connected for.  If a session is at the other end, nothing
failed for the two, the destination was handed the first events of what the source was
given, and with the completion frame all of it. -/
theorem deployment_delivers (hr : Reach x s) (he : s.destinations j = some e)
    (hread : e.hist.ins ≠ []) :
    ∃ id k p g, e.stream = some k ∧ Spliced s.server.shared k p ∧
      s.server.shared.providers p = some g ∧ RegisteredOn s.server g.conn id ∧
      ConnectedOn s.server j id ∧
      ∀ i c, s.sources i = some c → c.stream = some p → i = g.conn ∧
        (Core.Smooth c.hist → Core.Smooth e.hist →
          Core.handed (Core.nexts e.hist.calls) <+:
              Core.offered (Core.issued (x.streamOut i) c.hist.calls) ∧
            ∀ n, Core.noteComplete n ∈ e.hist.calls →
              Core.handed (Core.nexts e.hist.calls) = Core.offered (Core.sunk c.hist.calls) ∧
                n = (x.progress i).bytes + Core.totalBytes (Core.sunk c.hist.calls)) := by
  have h := hr.sound
  have hdestination := h.destinations j e he
  have hconn := connected_of_reach h.server
  cases hstream : e.stream with
  | none => exact absurd (hdestination.fresh hstream).1 hread
  | some k =>
    obtain ⟨f, hf, rfl, hfread, -⟩ := hdestination.stream k hstream
    -- the line has a source at its other end, or the destination would have read nothing
    obtain ⟨p, hspliced⟩ : ∃ p, Spliced s.server.shared k p := by
      by_contra hnone
      refine hread (hfread.symm.trans ((hconn.wired k).silent hf fun r hrel => ?_))
      cases hprov : r.provider with
      | none => rfl
      | some p => exact absurd ⟨p, r, hrel, hprov⟩ hnone
    obtain ⟨g, hg, rfl⟩ := hconn.relay_of_spliced hspliced
    obtain ⟨id, f', hreg, hf', -, hid⟩ := hconn.paired hg
    rw [hf] at hf'
    cases hf'
    refine ⟨id, g.relay, p, g, rfl, hspliced, hg, hreg, hid, fun i c hc hp => ?_⟩
    obtain ⟨g', hg', hi, -⟩ := (h.sources i c hc).stream p hp
    rw [hg] at hg'
    cases hg'
    have hjoined := h.joined hc he hp hstream hspliced
    refine ⟨hi.symm, fun hs hs' => ?_⟩
    exact ⟨hjoined.delivered hs hs', fun n hn => hjoined.completed hs hs' hn⟩

/-- The destination of the sample session is handed all of it. -/
theorem deployment_delivers_sample :
    ∃ s c e, Reach sampleSetup s ∧ s.sources 0 = some c ∧ s.destinations 1 = some e ∧
      Core.noteComplete 1 ∈ e.hist.calls ∧
      Core.handed (Core.nexts e.hist.calls) = Core.offered (Core.sunk c.hist.calls) := by
  obtain ⟨s, m, h, hleft, hright, hsmooth, hsmooth', hread⟩ := deployment_simulates_sample
  obtain ⟨held, hafter, hc⟩ := h.source
  obtain ⟨held', hafter', he⟩ := h.destination
  have hheld : held = true := by
    apply Core.held_of_mem hafter
    rw [hleft]
    simp [Core.sourceRecord, Core.openingNotes]
  have hheld' : held' = true := by
    apply Core.held_of_mem hafter'
    rw [hright]
    simp [Core.destRecord, Core.decisionNotes]
  subst hheld hheld'
  have hmark : Core.noteComplete 1 ∈ m.rightHist.calls := by
    rw [hright, ← Core.totalBytes_sampleCalls]
    exact Core.complete_mem_destRecord
  obtain ⟨id, k, p, g, hk, hspliced, hg, -, -, hall⟩ := deployment_delivers h.reach he hread
  obtain ⟨f, g', r, hopen, -⟩ := h.line
  -- the destination's line is the one between the two
  obtain rfl : k = 0 := (Option.some.inj hk).symm
  obtain rfl : p = 0 := ((connected_of_reach h.reach.sound.server).exclusive hspliced
    ⟨r, hopen.relay, hopen.spliced⟩).mp rfl
  obtain ⟨-, hdelivers⟩ := hall 0 _ hc rfl
  exact ⟨s, _, _, h.reach, hc, he, hmark, ((hdelivers hsmooth hsmooth').2 _ hmark).1⟩

end EndToEnd

end RustBackup.Deployment
