/-
  Deployment/Simulation.lean --- a relayed line serves like a stream of its own.

  Two sessions at the ends of a line can do all that two sessions at the ends of one
  bounded duplex stream can do: every state that the latter reach, in any interleaving
  and with any fragmentation, is also reached through the server, with the same two
  histories.  A write of one session is followed by the two moves that take the bytes
  through the relay; everything else is one step.
-/
import RustBackup.Core.StreamUse
import RustBackup.Deployment.Clients

set_option autoImplicit false

namespace RustBackup.Deployment

open RustBackup.Io RustBackup.Transport

/-! ## An open line -/

/-- A line whose relay copies and holds nothing back. -/
structure Open (w : World) (i j k p : Nat) (f : Consumer) (g : Provider) (r : Relay) : Prop where
  consumer : w.consumers k = some f
  provider : w.providers p = some g
  relay : w.relays k = some r
  destination : f.conn = j
  source : g.conn = i
  opened : f.task = .ret (.ok k)
  accepted : g.task = some (.ret (.ok p))
  copies : r.task = (relayCopy p).run
  spliced : r.provider = some p
  upConsumer : f.up.Holds []
  upProvider : g.up.Holds []
  forth : r.forth.Holds []
  back : r.back.Holds []

/-- The line has carried what the two histories say. -/
structure Carried (f : Consumer) (g : Provider) (n : Core.SessionNet) : Prop where
  toRight : f.down.Holds n.toRight
  toLeft : g.down.Holds n.toLeft
  consumerRead : f.read = n.rightHist.ins
  consumerWrote : f.wrote = n.rightHist.outs
  providerRead : g.read = n.leftHist.ins
  providerWrote : g.wrote = n.leftHist.outs

/-- The substream of a side, once it has it. -/
def heldStream (p : Nat) : Bool → Option Nat
  | true => some p
  | false => none

/-- The deployment is where the direct session is. -/
structure Mirrors (x : Setup) (i j k p : Nat) (n : Core.SessionNet) (s : System) : Prop where
  reach : Reach x s
  source : ∃ held, Proc.after (Core.streamNext .source) false n.leftHist = some held ∧
    s.sources i = some ⟨n.left, heldStream p held, n.leftHist⟩
  destination : ∃ held, Proc.after (Core.streamNext .destination) false n.rightHist = some held ∧
    s.destinations j = some ⟨n.right, heldStream k held, n.rightHist⟩
  line : ∃ f g r, Open s.server.shared i j k p f g r ∧ Carried f g n

section Calls

variable {held held' : Bool} {e : Core.Call} {q : e.Reply}

/-- A call of a source either gives it its stream, or nothing. -/
theorem source_call_cases (h : Core.streamNext .source held ⟨e, q⟩ = some held') :
    ((⟨e, q⟩ : Sigma Core.Call.Reply) = ⟨.acceptStream, .ok ()⟩ ∧ held = false ∧ held' = true) ∨
      (Idle (.call e q) ∧ held' = held) := by
  cases e with
  | acceptStream =>
    cases q with
    | ok u =>
      cases held with
      | false =>
        cases h
        exact .inl ⟨rfl, rfl, rfl⟩
      | true => cases h
    | error err =>
      cases h
      exact .inr ⟨trivial, rfl⟩
  | openStream =>
    cases q with
    | ok u => cases h
    | error err =>
      cases h
      exact .inr ⟨trivial, rfl⟩
  | _ =>
    cases h
    exact .inr ⟨trivial, rfl⟩

theorem destination_call_cases (h : Core.streamNext .destination held ⟨e, q⟩ = some held') :
    ((⟨e, q⟩ : Sigma Core.Call.Reply) = ⟨.openStream, .ok ()⟩ ∧ held = false ∧ held' = true) ∨
      (Idle (.call e q) ∧ held' = held) := by
  cases e with
  | openStream =>
    cases q with
    | ok u =>
      cases held with
      | false =>
        cases h
        exact .inl ⟨rfl, rfl, rfl⟩
      | true => cases h
    | error err =>
      cases h
      exact .inr ⟨trivial, rfl⟩
  | acceptStream =>
    cases q with
    | ok u => cases h
    | error err =>
      cases h
      exact .inr ⟨trivial, rfl⟩
  | _ =>
    cases h
    exact .inr ⟨trivial, rfl⟩

end Calls

/-! ## Bytes go through the relay -/

section Carry

variable {x : Setup} {s : System} {i j k p : Nat} {f : Consumer} {g : Provider} {r : Relay}

theorem Reach.happens (hr : Reach x s) {l : Happening} {w : World}
    (hs : Happens x.transport l s.server.shared w) (hl : ∀ k, l ≠ .consumes k)
    (hl' : ∀ p, l ≠ .provides p) : Reach x (s.setWorld w) := by
  refine hr.step (.serve (.env hs) ?_)
  cases l with
  | consumes k => exact absurd rfl (hl k)
  | provides p => exact absurd rfl (hl' p)
  | _ => exact trivial

/-- What the source has written arrives at the destination's end. -/
theorem exists_carried_back {bs : Bytes} (hr : Reach x s)
    (hf : s.server.shared.consumers k = some f) (hg : s.server.shared.providers p = some g)
    (hrel : s.server.shared.relays k = some r) (hcopy : r.task = (relayCopy p).run)
    (hup : g.up.Holds bs) (hback : r.back.Holds []) :
    ∃ w up back, Reach x (s.setWorld w) ∧ up.Holds [] ∧ back.Holds [] ∧
      w.consumers k = some { f with down := f.down.push bs } ∧
      w.providers p = some { g with up := up } ∧
      w.relays k = some { r with back := back } := by
  obtain ⟨up, hpull, hup'⟩ := hup.exists_pull_all
  obtain ⟨back, hpull', hback'⟩ := (hback.push bs).exists_pull_all
  have hr₁ := hr.happens (.takeBack hrel hcopy hg hpull) (by simp) (by simp)
  have hr₂ := hr₁.happens (.giveBack (World.relays_setRelay _ _ _) hcopy hf hpull') (by simp)
    (by simp)
  refine ⟨_, up, back, hr₂, hup', hback', ?_, ?_, World.relays_setRelay _ _ _⟩
  · rw [World.consumers_setRelay]
    exact World.consumers_setConsumer _ _ _
  · exact World.providers_setProvider _ _ _

/-- What the destination has written arrives at the source's end. -/
theorem exists_carried_forth {bs : Bytes} (hr : Reach x s)
    (hf : s.server.shared.consumers k = some f) (hg : s.server.shared.providers p = some g)
    (hrel : s.server.shared.relays k = some r) (hcopy : r.task = (relayCopy p).run)
    (hup : f.up.Holds bs) (hforth : r.forth.Holds []) :
    ∃ w up forth, Reach x (s.setWorld w) ∧ up.Holds [] ∧ forth.Holds [] ∧
      w.consumers k = some { f with up := up } ∧
      w.providers p = some { g with down := g.down.push bs } ∧
      w.relays k = some { r with forth := forth } := by
  obtain ⟨up, hpull, hup'⟩ := hup.exists_pull_all
  obtain ⟨forth, hpull', hforth'⟩ := (hforth.push bs).exists_pull_all
  have hr₁ := hr.happens (.takeForth hrel hcopy hf hpull) (by simp) (by simp)
  have hr₂ := hr₁.happens (.giveForth (World.relays_setRelay _ _ _) hcopy hg hpull') (by simp)
    (by simp)
  refine ⟨_, up, forth, hr₂, hup', hforth', ?_, ?_, World.relays_setRelay _ _ _⟩
  · exact World.consumers_setConsumer _ _ _
  · rw [World.providers_setRelay]
    exact World.providers_setProvider _ _ _

end Carry

/-! ## One step of the direct session -/

section Steps

variable {x : Setup} {s : System} {i j k p : Nat} {n : Core.SessionNet} {held : Bool}
variable {a : Act Core.Call Core.Call.Reply} {inq outq : Bytes}

/-- The source has moved, and nothing is on its way but what was. -/
theorem Mirrors.source_idle (h : Mirrors x i j k p n s)
    {t : Proc Core.Call Core.Call.Reply (Core.Result Core.SourceOutcome × Core.Progress)}
    (hafter : Proc.after (Core.streamNext .source) false (n.leftHist ++ [a]) = some held)
    (hheld : s.sources i = some ⟨n.left, heldStream p held, n.leftHist⟩)
    (hs : n.left.Step a t) (ha : Idle a) :
    Mirrors x i j k p { n with left := t, leftHist := n.leftHist ++ [a] }
      (s.setSource i ⟨t, heldStream p held, n.leftHist ++ [a]⟩) := by
  obtain ⟨f, g, r, hopen, hcarried⟩ := h.line
  obtain ⟨hins, houts⟩ := ha.moves_nothing
  refine ⟨h.reach.step (.source hheld hs (.idle ha)), ⟨held, hafter, ?_⟩, h.destination,
    f, g, r, hopen, ⟨hcarried.toRight, hcarried.toLeft, hcarried.consumerRead,
      hcarried.consumerWrote, ?_, ?_⟩⟩
  · exact System.sources_setSource _ _ _
  · rw [ins_concat, hins, List.append_nil]
    exact hcarried.providerRead
  · rw [outs_concat, houts, List.append_nil]
    exact hcarried.providerWrote

theorem Mirrors.destination_idle (h : Mirrors x i j k p n s)
    {t : Proc Core.Call Core.Call.Reply (Core.Result Core.BackupPlan × Core.Progress)}
    (hafter : Proc.after (Core.streamNext .destination) false (n.rightHist ++ [a]) = some held)
    (hheld : s.destinations j = some ⟨n.right, heldStream k held, n.rightHist⟩)
    (hs : n.right.Step a t) (ha : Idle a) :
    Mirrors x i j k p { n with right := t, rightHist := n.rightHist ++ [a] }
      (s.setDestination j ⟨t, heldStream k held, n.rightHist ++ [a]⟩) := by
  obtain ⟨f, g, r, hopen, hcarried⟩ := h.line
  obtain ⟨hins, houts⟩ := ha.moves_nothing
  refine ⟨h.reach.step (.destination hheld hs (.idle ha)), h.source, ⟨held, hafter, ?_⟩,
    f, g, r, hopen, ⟨hcarried.toRight, hcarried.toLeft, ?_, ?_, hcarried.providerRead,
      hcarried.providerWrote⟩⟩
  · exact System.destinations_setDestination _ _ _
  · rw [ins_concat, hins, List.append_nil]
    exact hcarried.consumerRead
  · rw [outs_concat, houts, List.append_nil]
    exact hcarried.consumerWrote

/-- The source's step. -/
theorem Mirrors.left {c : Core.SessionLink}
    {t : Proc Core.Call Core.Call.Reply (Core.Result Core.SourceOutcome × Core.Progress)}
    (h : Mirrors x i j k p n s) (hs : n.left.Step a t)
    (ha : Allowed c.leftPolicy c.capRight n.right.Finished n.toLeft inq n.toRight outq a) :
    ∃ s', Mirrors x i j k p
      { n with left := t, toLeft := inq, toRight := outq, leftHist := n.leftHist ++ [a] } s' := by
  obtain ⟨held, hafter, hclient⟩ := h.source
  obtain ⟨f, g, r, hopen, hcarried⟩ := h.line
  have hsound := h.reach.sound.sources i _ hclient
  obtain ⟨held₁, hafter₁, hconf⟩ := (Core.holds_runSource _ _ _).run hsound.run
  obtain rfl : held = held₁ := Option.some.inj (hafter.symm.trans hafter₁)
  obtain ⟨hstream, hcall⟩ := Core.held_of_step hconf hs
  have hstay : ∀ {b : Act Core.Call Core.Call.Reply}, b.call? = none →
      Proc.after (Core.streamNext .source) false (n.leftHist ++ [b]) = some held :=
    fun hb => (Proc.after_concat _ hb).trans hafter
  cases a with
  | call e q =>
    obtain ⟨-, rfl, rfl⟩ := ha
    obtain ⟨held', hnext⟩ := hcall e q rfl
    have hafter' := (Proc.after_concat_call _ hafter e q).trans hnext
    rcases source_call_cases hnext with ⟨heq, rfl, rfl⟩ | ⟨hidle, rfl⟩
    · cases heq
      obtain ⟨hins, houts⟩ := hsound.fresh rfl
      have hread : g.read = [] := hcarried.providerRead.trans hins
      have hwrote : g.wrote = [] := hcarried.providerWrote.trans houts
      refine ⟨_, h.reach.step (.source hclient hs (.accept hopen.provider hopen.source
        hopen.accepted hread hwrote)), ⟨true, hafter', System.sources_setSource _ _ _⟩,
        h.destination, f, g, r, hopen, ⟨hcarried.toRight, hcarried.toLeft,
          hcarried.consumerRead, hcarried.consumerWrote, ?_, ?_⟩⟩
      · rw [ins_concat]
        exact hcarried.providerRead.trans (List.append_nil _).symm
      · rw [outs_concat]
        exact hcarried.providerWrote.trans (List.append_nil _).symm
    · exact ⟨_, h.source_idle hafter' hclient hs hidle⟩
  | recv q =>
    obtain rfl := hstream rfl
    cases q with
    | timeout => exact ha.elim
    | fault => exact ha.elim
    | data bs =>
      cases bs with
      | nil =>
        obtain ⟨-, hin, hin', rfl⟩ := ha
        obtain rfl : inq = n.toLeft := hin'.trans hin.symm
        exact ⟨_, h.source_idle (hstay rfl) hclient hs trivial⟩
      | cons b bs =>
        obtain ⟨hin, rfl⟩ := ha
        -- what the direct session has queued, the source's end of the line holds
        have hdown : g.down.Holds (b :: bs ++ inq) := hin ▸ hcarried.toLeft
        obtain ⟨down, hpull, hrest⟩ := hdown.exists_pull
        refine ⟨_, h.reach.step (.source hclient hs (.read hopen.provider hopen.accepted hpull)),
          ⟨true, hstay rfl, System.sources_setSource _ _ _⟩, h.destination, f, _, r,
          ⟨hopen.consumer, World.providers_setProvider _ _ _, hopen.relay, hopen.destination,
            hopen.source, hopen.opened, hopen.accepted, hopen.copies, hopen.spliced,
            hopen.upConsumer, hopen.upProvider, hopen.forth, hopen.back⟩,
          ⟨hcarried.toRight, hrest, hcarried.consumerRead, hcarried.consumerWrote, ?_, ?_⟩⟩
        · rw [ins_concat, ← hcarried.providerRead]
          rfl
        · rw [outs_concat]
          exact hcarried.providerWrote.trans (List.append_nil _).symm
  | send buf q =>
    obtain rfl := hstream rfl
    cases q with
    | timeout => exact ha.elim
    | fault =>
      obtain ⟨-, rfl, rfl⟩ := ha
      exact ⟨_, h.source_idle (hstay rfl) hclient hs trivial⟩
    | wrote m =>
      obtain ⟨-, -, -, rfl, rfl⟩ := ha
      have hwrite : SourceEffect i _ (some p) (.send buf (.wrote m)) _ (some p) :=
        .write hopen.provider hopen.accepted
      have hr := h.reach.step (.source hclient hs hwrite)
      obtain ⟨w, up, back, hr', hup, hback, hf, hg, hrel⟩ := exists_carried_back hr
        hopen.consumer (World.providers_setProvider _ _ _) hopen.relay hopen.copies
        (hopen.upProvider.push (buf.take m)) hopen.back
      refine ⟨_, hr', ⟨true, hstay rfl, System.sources_setSource _ _ _⟩, h.destination,
        _, _, _, ⟨hf, hg, hrel, hopen.destination, hopen.source, hopen.opened, hopen.accepted,
          hopen.copies, hopen.spliced, hopen.upConsumer, hup, hopen.forth, hback⟩,
        ⟨hcarried.toRight.push _, hcarried.toLeft, hcarried.consumerRead,
          hcarried.consumerWrote, ?_, ?_⟩⟩
      · rw [ins_concat]
        exact hcarried.providerRead.trans (List.append_nil _).symm
      · rw [outs_concat, ← hcarried.providerWrote]
        rfl

/-- The destination's step. -/
theorem Mirrors.right {c : Core.SessionLink}
    {t : Proc Core.Call Core.Call.Reply (Core.Result Core.BackupPlan × Core.Progress)}
    (h : Mirrors x i j k p n s) (hs : n.right.Step a t)
    (ha : Allowed c.rightPolicy c.capLeft n.left.Finished n.toRight inq n.toLeft outq a) :
    ∃ s', Mirrors x i j k p
      { n with right := t, toRight := inq, toLeft := outq
               rightHist := n.rightHist ++ [a] } s' := by
  obtain ⟨held, hafter, hclient⟩ := h.destination
  obtain ⟨f, g, r, hopen, hcarried⟩ := h.line
  have hsound := h.reach.sound.destinations j _ hclient
  obtain ⟨held₁, hafter₁, hconf⟩ := (Core.holds_runDestination _ _ _).run hsound.run
  obtain rfl : held = held₁ := Option.some.inj (hafter.symm.trans hafter₁)
  obtain ⟨hstream, hcall⟩ := Core.held_of_step hconf hs
  have hstay : ∀ {b : Act Core.Call Core.Call.Reply}, b.call? = none →
      Proc.after (Core.streamNext .destination) false (n.rightHist ++ [b]) = some held :=
    fun hb => (Proc.after_concat _ hb).trans hafter
  cases a with
  | call e q =>
    obtain ⟨-, rfl, rfl⟩ := ha
    obtain ⟨held', hnext⟩ := hcall e q rfl
    have hafter' := (Proc.after_concat_call _ hafter e q).trans hnext
    rcases destination_call_cases hnext with ⟨heq, rfl, rfl⟩ | ⟨hidle, rfl⟩
    · cases heq
      obtain ⟨hins, houts⟩ := hsound.fresh rfl
      have hread : f.read = [] := hcarried.consumerRead.trans hins
      have hwrote : f.wrote = [] := hcarried.consumerWrote.trans houts
      refine ⟨_, h.reach.step (.destination hclient hs (.opened hopen.consumer
        hopen.destination hopen.opened hread hwrote)), h.source,
        ⟨true, hafter', System.destinations_setDestination _ _ _⟩, f, g, r, hopen,
        ⟨hcarried.toRight, hcarried.toLeft, ?_, ?_, hcarried.providerRead,
          hcarried.providerWrote⟩⟩
      · rw [ins_concat]
        exact hcarried.consumerRead.trans (List.append_nil _).symm
      · rw [outs_concat]
        exact hcarried.consumerWrote.trans (List.append_nil _).symm
    · exact ⟨_, h.destination_idle hafter' hclient hs hidle⟩
  | recv q =>
    obtain rfl := hstream rfl
    cases q with
    | timeout => exact ha.elim
    | fault => exact ha.elim
    | data bs =>
      cases bs with
      | nil =>
        obtain ⟨-, hin, hin', rfl⟩ := ha
        obtain rfl : inq = n.toRight := hin'.trans hin.symm
        exact ⟨_, h.destination_idle (hstay rfl) hclient hs trivial⟩
      | cons b bs =>
        obtain ⟨hin, rfl⟩ := ha
        have hdown : f.down.Holds (b :: bs ++ inq) := hin ▸ hcarried.toRight
        obtain ⟨down, hpull, hrest⟩ := hdown.exists_pull
        refine ⟨_, h.reach.step (.destination hclient hs (.read hopen.consumer hopen.opened hpull)),
          h.source, ⟨true, hstay rfl, System.destinations_setDestination _ _ _⟩, _, g, r,
          ⟨World.consumers_setConsumer _ _ _, hopen.provider, hopen.relay, hopen.destination,
            hopen.source, hopen.opened, hopen.accepted, hopen.copies, hopen.spliced,
            hopen.upConsumer, hopen.upProvider, hopen.forth, hopen.back⟩,
          ⟨hrest, hcarried.toLeft, ?_, ?_, hcarried.providerRead, hcarried.providerWrote⟩⟩
        · rw [ins_concat, ← hcarried.consumerRead]
          rfl
        · rw [outs_concat]
          exact hcarried.consumerWrote.trans (List.append_nil _).symm
  | send buf q =>
    obtain rfl := hstream rfl
    cases q with
    | timeout => exact ha.elim
    | fault =>
      obtain ⟨-, rfl, rfl⟩ := ha
      exact ⟨_, h.destination_idle (hstay rfl) hclient hs trivial⟩
    | wrote m =>
      obtain ⟨-, -, -, rfl, rfl⟩ := ha
      have hwrite : DestinationEffect j _ (some k) (.send buf (.wrote m)) _ (some k) :=
        .write hopen.consumer hopen.opened
      have hr := h.reach.step (.destination hclient hs hwrite)
      obtain ⟨w, up, forth, hr', hup, hforth, hf, hg, hrel⟩ := exists_carried_forth hr
        (World.consumers_setConsumer _ _ _) hopen.provider hopen.relay hopen.copies
        (hopen.upConsumer.push (buf.take m)) hopen.forth
      refine ⟨_, hr', h.source, ⟨true, hstay rfl, System.destinations_setDestination _ _ _⟩,
        _, _, _, ⟨hf, hg, hrel, hopen.destination, hopen.source, hopen.opened, hopen.accepted,
          hopen.copies, hopen.spliced, hup, hopen.upProvider, hforth, hopen.back⟩,
        ⟨hcarried.toRight, hcarried.toLeft.push _, ?_, ?_, hcarried.providerRead,
          hcarried.providerWrote⟩⟩
      · rw [ins_concat]
        exact hcarried.consumerRead.trans (List.append_nil _).symm
      · rw [outs_concat, ← hcarried.consumerWrote]
        rfl

theorem Mirrors.step {c : Core.SessionLink} {n' : Core.SessionNet} (h : Mirrors x i j k p n s)
    (hs : Net.Step c n n') : ∃ s', Mirrors x i j k p n' s' := by
  cases hs with
  | left hs ha => exact h.left hs ha
  | right hs ha => exact h.right hs ha

end Steps

/-! ## Every run of the direct session -/

/-- Nobody has used the line. -/
structure Unused (f : Consumer) (g : Provider) : Prop where
  toRight : f.down.Holds []
  toLeft : g.down.Holds []
  consumerRead : f.read = []
  consumerWrote : f.wrote = []
  providerRead : g.read = []
  providerWrote : g.wrote = []

section Runs

variable {x : Setup} {s : System} {i j k p : Nat} {f : Consumer} {g : Provider} {r : Relay}

/-- The sessions start. -/
theorem exists_mirrors (hr : Reach x s) (hi : s.sources i = none) (hj : s.destinations j = none)
    (hopen : Open s.server.shared i j k p f g r) (hunused : Unused f g) :
    ∃ s', Mirrors x i j k p
      (.init ((Core.runSource x.session (x.streamOut i)).run (x.progress i))
        ((Core.runDestination x.session (x.streamIn j)).run (x.progress j))) s' := by
  have hr₁ := hr.step (.startSource i hi)
  have hr₂ := hr₁.step (.startDestination j hj)
  exact ⟨_, hr₂, ⟨false, rfl, System.sources_setSource _ _ _⟩,
    ⟨false, rfl, System.destinations_setDestination _ _ _⟩, f, g, r, hopen,
    ⟨hunused.toRight, hunused.toLeft, hunused.consumerRead, hunused.consumerWrote,
      hunused.providerRead, hunused.providerWrote⟩⟩

/-- All that two sessions at the ends of one duplex stream can come to, two sessions at
the ends of a line can come to as well, with the same histories. -/
theorem deployment_simulates {c : Core.SessionLink} {n : Core.SessionNet} (hr : Reach x s)
    (hi : s.sources i = none) (hj : s.destinations j = none)
    (hopen : Open s.server.shared i j k p f g r) (hunused : Unused f g)
    (hn : Core.SessionReach c x.session (x.streamOut i) (x.streamIn j) (x.progress i)
      (x.progress j) n) : ∃ s', Mirrors x i j k p n s' := by
  induction hn with
  | init => exact exists_mirrors hr hi hj hopen hunused
  | step _ hs ih =>
    obtain ⟨s', h⟩ := ih
    exact h.step hs

/-- The sessions of the sample calls: the source first, the destination second. -/
def sampleSetup : Setup where
  transport := Transport.sampleDeps
  session := Core.sampleDeps
  auth := none
  maxConns := 1
  streamOut := fun _ _ => .ofCalls Core.sampleCalls
  streamIn := fun _ _ => Core.sampleStreamIn
  progress := fun _ => .fresh

/-- A line on which a relay has just begun to copy has carried nothing. -/
theorem unused_of_wired {d : Transport.Deps} {w : World} (hw : Wired d w)
    (hc : w.consumers k = some f) (hup : f.up.taken = f.up.put)
    (hrel : w.relays k = some r) (hcopy : r.task = (relayCopy p).run) (hforth : r.forth.put = [])
    (hback : r.back = .empty) (hp : w.providers p = some g)
    (hread : g.read = []) (hwrote : g.wrote = []) (hdown : g.down.Holds []) : Unused f g := by
  obtain ⟨f', g', b, hf', -, hg', -, hprov, hcarries, htaken, -⟩ := hw.copying hrel hcopy
  rw [hc] at hf'
  cases hf'
  rw [hp] at hg'
  cases hg'
  have hmarked := ((hw k).opened_marked hrel hprov hc).2
  have hsilent := (hw k).back hrel hprov hc hp
  rw [hwrote] at hsilent
  have hput : f.down.put = [] := by
    rw [hcarries.given, hback]
    rfl
  refine ⟨?_, hdown, List.prefix_nil.mp hsilent, ?_, hread, hwrote⟩
  · have htaken' : f.down.taken = [] := List.prefix_nil.mp (hput ▸ f.down.fifo)
    unfold Pipe.Holds
    rw [hput, htaken']
    rfl
  · rw [← hup, htaken, hforth] at hmarked
    exact (List.cons.inj hmarked).2.symm

/-- A source and a destination have a line between them. -/
theorem exists_open :
    ∃ s f g r, Reach sampleSetup s ∧ s.sources 0 = none ∧ s.destinations 1 = none ∧
      Open s.server.shared 0 1 0 0 f g r ∧ Unused f g := by
  obtain ⟨t, f, hr, -, hc, hconn, htask, hup, hrel, hp⟩ := exists_paired
  have hr₁ := hr.env (.accepts hp rfl (List.cons_ne_nil _ _) .call) ⟨trivial, fun _ _ => trivial⟩
  obtain ⟨down, hpull⟩ := Pipe.exists_pull (Pipe.empty.push [STREAM_READY]) [STREAM_READY]
    List.prefix_rfl
  have hr₂ := (hr₁.env (.accepting (World.providers_setProvider _ _ _) rfl
    (acceptReady_marks _ 0) hpull) ⟨trivial, fun _ _ => trivial⟩).server
  have hdown : down.Holds [] := by
    unfold Pipe.Holds
    rw [hpull.put, hpull.taken]
    rfl
  have hdrained : f.up.Holds [] := hup.symm.trans (List.append_nil _).symm
  refine ⟨.idle _, f, ⟨0, 0, some (.ret (.ok 0)), .empty, down, [], []⟩, _, reach_idle hr₂, rfl,
    rfl, ⟨hc, World.providers_setProvider _ _ _, hrel, hconn, rfl, htask, rfl, rfl, rfl, hdrained,
      rfl, rfl, rfl⟩, ?_⟩
  exact unused_of_wired (connected_of_reach hr₂).wired hc hup hrel rfl rfl rfl
    (World.providers_setProvider _ _ _) rfl rfl hdown

/-- The whole session of the sample calls runs through a server. -/
theorem deployment_simulates_sample :
    ∃ s n, Mirrors sampleSetup 0 1 0 0 n s ∧
      n.leftHist.calls = Core.sourceRecord Core.sampleDeps "before" Core.samplePlan
        Core.sampleCalls ∧
      n.rightHist.calls = Core.destRecord Core.sampleDeps Core.samplePlan .pass
        Core.sampleCalls ∧
      Core.Smooth n.leftHist ∧ Core.Smooth n.rightHist ∧ n.rightHist.ins ≠ [] := by
  obtain ⟨s, f, g, r, hr, hi, hj, hopen, hunused⟩ := exists_open
  obtain ⟨n, hn, -, hleft, hright⟩ := Core.exists_sampleSession
  have hn' : Core.SessionReach Core.answeringLink sampleSetup.session (sampleSetup.streamOut 0)
      (sampleSetup.streamIn 1) (sampleSetup.progress 0) (sampleSetup.progress 1) n := by
    simpa only [sampleSetup] using hn
  obtain ⟨s', h⟩ := deployment_simulates hr hi hj hopen hunused hn'
  have hvalidate : (⟨.validate Core.samplePlan, .ok .pass⟩ : Sigma Core.Call.Reply) ∈
      n.rightHist.calls := by
    rw [hright]
    simp [Core.destRecord, Core.decisionNotes]
  refine ⟨s', n, h, hleft, hright, Core.smooth_leftHist Core.answeringLink_flushes hn,
    Core.smooth_rightHist Core.answeringLink_flushes hn, fun hins => ?_⟩
  -- the plan has arrived
  obtain ⟨seg, hseg, hpre⟩ := (Core.dest_log hn).hasPlan_of_validate hvalidate
  rw [hins] at hpre
  have hlen := hseg.length_le
  rw [List.prefix_nil.mp hpre] at hlen
  exact absurd hlen (by simp)

end Runs

end RustBackup.Deployment
