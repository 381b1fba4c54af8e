/-
  Core/Fidelity.lean --- what a source sends is what its destination gets.

  Control frames, JSON headers and raw payload share one byte stream that is decoded
  by position only.  The synchronous run of a session puts every sink call that
  passes the size checks opposite one `next` call (`sync_sinkCall`), a whole
  `stream_out` opposite a draining `stream_in` (`sync_perform`, by induction on the
  calls made), and `Done` opposite the completion match.  What it ends with is then
  what every interleaving, fragmentation and capacity ends with.
-/
import RustBackup.Core.Gate

set_option autoImplicit false

namespace RustBackup.Core

open RustBackup.Serde RustBackup.Io

/-! ## Sink calls and the events they become -/

namespace SinkCall

/-- What a call returns when nothing but its size can make it fail. -/
def verdict (d : Deps) (c : SinkCall) : Result Unit :=
  if CHUNK_SIZE < c.payload.length then
    .error (.inPhase .transfer "chunk exceeds CHUNK_SIZE")
  else if FRAME_LIMIT < (encode d (c.frame d)).length then
    .error (.inPhase .transfer "frame exceeds FRAME_LIMIT")
  else .ok ()

/-- The event the destination gets for a call. -/
def event : SinkCall → ChunkEvent
  | .sendChunk itemId offset data => .chunk itemId offset data
  | .finishItem itemId total blake3 => .itemEnd itemId total blake3
  | .finish => .done

theorem verdict_of_fits {d : Deps} {c : SinkCall} (h : c.Fits d) : c.verdict d = .ok () := by
  have h₁ : ¬ CHUNK_SIZE < c.payload.length := Nat.not_lt.mpr h.1
  have h₂ : ¬ FRAME_LIMIT < (encode d (c.frame d)).length := Nat.not_lt.mpr h.2
  rw [verdict, if_neg h₁, if_neg h₂]

theorem verdict_of_chunk {d : Deps} {c : SinkCall} (h : CHUNK_SIZE < c.payload.length) :
    c.verdict d = .error (.inPhase .transfer "chunk exceeds CHUNK_SIZE") := by
  rw [verdict, if_pos h]

theorem verdict_of_frame {d : Deps} {c : SinkCall} (h : c.payload.length ≤ CHUNK_SIZE)
    (h' : FRAME_LIMIT < (encode d (c.frame d)).length) :
    c.verdict d = .error (.inPhase .transfer "frame exceeds FRAME_LIMIT") := by
  rw [verdict, if_neg (Nat.not_lt.mpr h), if_pos h']

/-- A call that is too large returns at once: it sends nothing, calls nothing and
counts nothing. -/
theorem perform_of_not_fits {d : Deps} {c : SinkCall} (h : ¬ c.Fits d) (p : Progress) :
    (c.perform d).run p = .ret (c.verdict d, p) := by
  have hlarge : c.payload.length ≤ CHUNK_SIZE → FRAME_LIMIT < (encode d (c.frame d)).length :=
    fun hle => Nat.not_le.mp fun hframe => h ⟨hle, hframe⟩
  cases c with
  | sendChunk itemId offset data =>
    by_cases hlen : CHUNK_SIZE < data.length
    · rw [verdict_of_chunk (c := sendChunk itemId offset data) hlen, perform, Core.sendChunk,
        if_pos hlen]
      rfl
    · have hframe := hlarge (Nat.not_lt.mp hlen)
      have hsend : sendFrame d (DataFrame.chunkStart itemId offset (UInt32.ofNat data.length)
          (d.blake3Hex data)) = Task.fail (.inPhase .transfer "frame exceeds FRAME_LIMIT") :=
        if_pos hframe
      rw [verdict_of_frame (c := sendChunk itemId offset data) (Nat.not_lt.mp hlen) hframe,
        perform, Core.sendChunk, if_neg hlen]
      simp only [hsend]
      rfl
  | finishItem itemId total blake3 =>
    have hframe := hlarge (Nat.zero_le _)
    have hsend : sendFrame d (DataFrame.itemEnd itemId total blake3) =
        Task.fail (.inPhase .transfer "frame exceeds FRAME_LIMIT") := if_pos hframe
    rw [verdict_of_frame (Nat.zero_le _) hframe, perform, Core.finishItem, hsend]
    rfl
  | finish => exact absurd (fits_finish d) h

end SinkCall

/-- The program makes exactly these calls, in this order, and returns `Ok`, when
nothing but their size makes calls fail.  What it does after a failed call is its own
business. -/
inductive SinkProg.Makes (d : Deps) : SinkProg → List SinkCall → Prop where
  | ret : Makes d (.ret (.ok ())) []
  | call {c : SinkCall} {k : Result Unit → SinkProg} {cs : List SinkCall}
      (hc : c ≠ .finish) (h : Makes d (k (c.verdict d)) cs) : Makes d (.call c k) (c :: cs)

/-- The calls that pass the size checks. -/
def sent (d : Deps) (cs : List SinkCall) : List SinkCall := cs.filter fun c => c.Fits d

/-- The counters after some successful calls. -/
def countAll (cs : List SinkCall) (p : Progress) : Progress :=
  cs.foldl (fun p c => c.counted p) p

/-- The bytes some calls carry, modulo `2 ^ 64`. -/
def totalBytes (cs : List SinkCall) : UInt64 :=
  UInt64.ofNat (cs.map fun c => c.payload.length).sum

theorem SinkCall.bytes_counted (c : SinkCall) (p : Progress) :
    (c.counted p).bytes = p.bytes + UInt64.ofNat c.payload.length := by
  cases c with
  | sendChunk itemId offset data => rfl
  | finishItem itemId total blake3 => simp [counted, payload]
  | finish => simp [counted, payload]

/-- The byte counter adds up. -/
theorem bytes_countAll (cs : List SinkCall) (p : Progress) :
    (countAll cs p).bytes = p.bytes + totalBytes cs := by
  induction cs generalizing p with
  | nil => simp [countAll, totalBytes]
  | cons c cs ih =>
    have h := ih (c.counted p)
    rw [SinkCall.bytes_counted, UInt64.add_assoc] at h
    rw [totalBytes, List.map_cons, List.sum_cons, UInt64.ofNat_add]
    exact h

/-! ## The synchronous run -/

section Synchronous

variable {f g : (e : Call) → e.Reply} {α β : Type} {a : α} {b : β}
variable {la lb l l' : Calls Call Call.Reply} {d : Deps} {p q : Progress}

/-- A sink call that passes the size checks stands opposite one `next` call. -/
theorem sync_sinkCall {c : SinkCall} {k : Result Unit × Progress → Proc Call Call.Reply α}
    {k' : Result ChunkEvent × Progress → Proc Call Call.Reply β} (hfits : c.Fits d)
    (hflush : f .flush = true)
    (h : Sync f g a b la lb (k (.ok (), c.counted p)) (l ++ [⟨.flush, true⟩])
      (k' (.ok c.event, c.counted q)) l') :
    Sync f g a b la lb (((c.perform d).run p).bind k) l (((next d).run q).bind k') l' := by
  simp only [next, Metered.run_bind, Metered.run_monadLift, Proc.bind_assoc, Proc.ret_bind]
  cases c with
  | sendChunk itemId offset data =>
    have hle : data.length ≤ CHUNK_SIZE := hfits.1
    have hlen : (UInt32.ofNat data.length).toNat = data.length :=
      UInt32.toNat_ofNat_of_lt' (Nat.lt_of_le_of_lt hle (by decide))
    simp only [SinkCall.perform, sendChunk, if_neg (Nat.not_lt.mpr hle), Metered.run_bind,
      Metered.run_monadLift, Proc.bind_assoc, Proc.ret_bind]
    refine sync_sendFrame_recvFrame hfits.2 (decode_encode_data d _) hflush ?_
    simp only [Metered.cont_ok, handleFrame, Metered.run_bind, Metered.run_monadLift,
      Proc.bind_assoc, Proc.ret_bind, hlen]
    refine sync_writeAll_readExact rfl ?_
    -- the digest is that of the payload
    simp only [Metered.cont_ok, ne_eq, not_true_eq_false, if_false, Metered.run_bind,
      Metered.run_count, Metered.run_pure, Proc.ret_bind, hflush]
    exact h
  | finishItem itemId total blake3 =>
    simp only [SinkCall.perform, finishItem, Metered.run_bind, Metered.run_monadLift,
      Proc.bind_assoc, Proc.ret_bind]
    refine sync_sendFrame_recvFrame hfits.2 (decode_encode_data d _) hflush ?_
    rw [hflush]
    exact h
  | finish =>
    simp only [SinkCall.perform, finish, Metered.run_monadLift, Proc.bind_assoc, Proc.ret_bind]
    refine sync_sendFrame_recvFrame hfits.2 (decode_encode_data d _) hflush ?_
    rw [hflush]
    exact h

/-- What the source's record gains with one sink call. -/
def sinkNotes (d : Deps) (c : SinkCall) : Calls Call Call.Reply :=
  (if c.Fits d then [⟨.flush, true⟩] else []) ++ [⟨.mark (.sink c (c.verdict d)), ()⟩]

/-- What the destination's record gains with one event. -/
def nextNotes (c : SinkCall) : Calls Call Call.Reply := [⟨.mark (.next (.ok c.event)), ()⟩]

/-- A whole `stream_out` stands opposite as many rounds of a draining `stream_in` as
it makes calls that pass the size checks. -/
theorem sync_perform {prog : SinkProg} {cs : List SinkCall} {n : Nat}
    {k : Result Unit × Progress → Proc Call Call.Reply α}
    {k' : Result Unit × Progress → Proc Call Call.Reply β} (hflush : f .flush = true)
    (hmakes : prog.Makes d cs)
    (h : Sync f g a b la lb (k (.ok (), countAll (sent d cs) p)) (l ++ cs.flatMap (sinkNotes d))
      ((((StreamInProg.drain n).perform d).run (countAll (sent d cs) q)).bind k')
      (l' ++ (sent d cs).flatMap nextNotes)) :
    Sync f g a b la lb (((prog.perform d).run p).bind k) l
      ((((StreamInProg.drain ((sent d cs).length + n)).perform d).run q).bind k') l' := by
  induction hmakes generalizing p q l l' with
  | ret =>
    simp only [sent, List.filter_nil, List.flatMap_nil, List.append_nil, List.length_nil,
      Nat.zero_add] at h ⊢
    exact h
  | @call c m cs hc _ ih =>
    simp only [SinkProg.perform, Metered.run_bind, Metered.run_attempt, Metered.run_monadLift,
      Core.mark, Proc.bind_assoc, Proc.ret_bind, Proc.call_bind, Metered.cont_ok]
    by_cases hfits : c.Fits d
    · have hsent : sent d (c :: cs) = c :: sent d cs := by simp [sent, hfits]
      rw [hsent] at h ⊢
      rw [List.length_cons, Nat.add_right_comm, StreamInProg.drain]
      simp only [StreamInProg.perform, Metered.run_bind, Metered.run_attempt,
        Metered.run_monadLift, Core.mark, Proc.bind_assoc, Proc.ret_bind, Proc.call_bind,
        Metered.cont_ok]
      refine sync_sinkCall hfits hflush (.callLeft (.callRight ?_))
      have hnotes : sinkNotes d c = [⟨.flush, true⟩, ⟨.mark (.sink c (.ok ())), ()⟩] := by
        rw [sinkNotes, if_pos hfits, c.verdict_of_fits hfits]
        rfl
      have hih := @ih (l ++ [⟨.flush, true⟩, ⟨.mark (.sink c (.ok ())), ()⟩])
        (l' ++ nextNotes c) (c.counted p) (c.counted q)
      rw [c.verdict_of_fits hfits] at hih
      rw [List.flatMap_cons, List.flatMap_cons, hnotes, ← List.append_assoc,
        ← List.append_assoc] at h
      rw [List.append_assoc l]
      -- `c` is not the closing call, so the loop goes on
      cases c with
      | sendChunk itemId offset data => exact hih h
      | finishItem itemId total blake3 => exact hih h
      | finish => exact absurd rfl hc
    · have hsent : sent d (c :: cs) = sent d cs := by simp [sent, hfits]
      have hnotes : sinkNotes d c = [⟨.mark (.sink c (c.verdict d)), ()⟩] := by
        rw [sinkNotes, if_neg hfits]
        rfl
      rw [hsent, List.flatMap_cons, hnotes, ← List.append_assoc] at h
      rw [hsent, c.perform_of_not_fits hfits, Proc.ret_bind]
      exact .callLeft (ih h)

end Synchronous

/-! ## The whole session -/

section Session

variable {d : Deps} {streamOut : BackupPlan → SinkProg} {fp : String} {plan : BackupPlan}
variable {preflight : Preflight} {cs : List SinkCall}

/-- The source's record of a session in which nothing fails but the size checks. -/
def sourceRecord (d : Deps) (fp : String) (plan : BackupPlan) (cs : List SinkCall) :
    Calls Call Call.Reply :=
  openingNotes fp plan ++ [⟨.flush, true⟩] ++ [noteStreamOut plan] ++ cs.flatMap (sinkNotes d) ++
    [noteStreamed (.ok ())] ++ [⟨.flush, true⟩] ++ [⟨.flush, true⟩] ++ [⟨.fingerprint, .ok fp⟩]

/-- The destination's record of it. -/
def destRecord (d : Deps) (plan : BackupPlan) (preflight : Preflight) (cs : List SinkCall) :
    Calls Call Call.Reply :=
  decisionNotes plan preflight true ++ [⟨.flush, true⟩] ++ [⟨.mark (.streamIn plan), ()⟩] ++
    (sent d cs).flatMap nextNotes ++ [⟨.mark (.next (.ok .done)), ()⟩] ++
    [⟨.mark (.streamInReturned (.ok ())), ()⟩] ++
    [⟨.mark (.restoreComplete (totalBytes (sent d cs))), ()⟩]

/-- The decision is handed over and accepts. -/
theorem sync_approval {streamIn : BackupPlan → StreamInProg} {plan' : BackupPlan}
    {f g : (e : Call) → e.Reply} {a : Result SourceOutcome × Progress}
    {b : Result BackupPlan × Progress} {la lb l l' : Calls Call Call.Reply} {p q : Progress}
    (hflush : g .flush = true)
    (h : Sync f g a b la lb ((streamSource d streamOut fp plan).run p) l
      ((applyPayload d streamIn plan').run q) (l' ++ [⟨.flush, true⟩])) :
    Sync f g a b la lb
      ((do recvAck d; streamSource d streamOut fp plan : Metered SourceOutcome).run p) l
      ((answer d streamIn plan' preflight true).run q) l' := by
  simp only [answer, sendAck, recvAck, Metered.run_bind, Metered.run_monadLift, Task.run_bind,
    Proc.bind_assoc, Proc.ret_bind]
  refine Sync.swap (sync_sendFrame_recvFrame (fits_planAck d preflight true)
    (decode_encode_planAck d true _) hflush ?_)
  rw [hflush]
  exact h.swap

/-- The closing frames: `StreamEnd` ends the loop and `Done` is the completion
frame. -/
theorem sync_closing {f g : (e : Call) → e.Reply} {l l' : Calls Call Call.Reply}
    {p q : Progress} {n : Nat} (hflush : f .flush = true) (hfp : f .fingerprint = .ok fp) :
    Sync f g (.ok ⟨plan, p.bytes⟩, p) (.ok plan, q)
      (l ++ [noteStreamed (.ok ())] ++ [⟨.flush, true⟩] ++ [⟨.flush, true⟩] ++
        [⟨.fingerprint, .ok fp⟩])
      (l' ++ [⟨.mark (.next (.ok .done)), ()⟩] ++
        [⟨.mark (.streamInReturned (.ok ())), ()⟩] ++ [⟨.mark (.restoreComplete p.bytes), ()⟩])
      ((do
        mark (.streamOutReturned (.ok ()))
        closeSource d fp plan : Metered SourceOutcome).run p) l
      ((((StreamInProg.drain (n + 1)).perform d).run q).bind fun o => Metered.cont (fun r => do
        mark (.streamInReturned r)
        Metered.ofResult r
        let frame ← recvFrame ControlFrame d
        complete plan frame) (.ok o.1, o.2)) l' := by
  have hfinish : finish d = SinkCall.finish.perform d := rfl
  simp only [closeSource, hfinish, StreamInProg.drain, StreamInProg.perform, Core.mark,
    Metered.run_bind, Metered.run_attempt, Metered.run_monadLift, Proc.bind_assoc, Proc.ret_bind,
    Proc.call_bind, Metered.cont_ok]
  refine .callLeft (sync_sinkCall (fits_finish d) hflush ?_)
  refine .callRight ?_
  simp only [SinkCall.event, SinkCall.counted, Metered.cont_ok, Metered.run_bytes,
    Metered.run_bind, Metered.run_monadLift, Metered.run_ofResult, Proc.ret_bind, Proc.bind_assoc]
  refine .callRight ?_
  simp only [Metered.cont_ok, Metered.run_bind, Metered.run_monadLift, Proc.bind_assoc,
    Proc.ret_bind]
  refine sync_sendFrame_recvFrame (fits_done d p.bytes) (decode_encode_done d p.bytes "") hflush ?_
  simp only [Metered.cont_ok, complete, auditSource, fingerprint, Core.mark, Metered.run_bind,
    Metered.run_monadLift, Proc.ret_bind, Proc.call_bind]
  refine .callRight (.callLeft ?_)
  rw [hflush, hfp]
  simp only [Metered.cont_ok, ne_eq, not_true_eq_false, if_false]
  exact .done

/-- The synchronous run of a session in which nothing fails but the size checks. -/
theorem sync_session {m : Nat} {q : Progress} (fp : String)
    (hfits : Fits d (ControlFrame.plan plan))
    (hdec : decode ControlFrame d (encode d (ControlFrame.plan plan)) = some (.plan plan))
    (hok : preflight.ok = true) (hmakes : (streamOut plan).Makes d cs) :
    Sync (replies fp plan preflight true) (replies fp plan preflight true)
      (.ok ⟨plan, totalBytes (sent d cs)⟩, countAll (sent d cs) .fresh)
      (.ok plan, countAll (sent d cs) q) (sourceRecord d fp plan cs)
      (destRecord d plan preflight cs)
      ((runSource d streamOut).run .fresh) []
      ((runDestination d fun _ => .drain ((sent d cs).length + (m + 1))).run q) [] := by
  refine sync_plan hfits hdec (fun _ => hok) (sync_approval rfl ?_)
  simp only [streamSource, applyPayload, Core.mark, Metered.run_bind, Metered.run_attempt,
    Metered.run_monadLift, Proc.bind_assoc, Proc.ret_bind, Proc.call_bind, Metered.cont_ok]
  refine .callLeft (.callRight (sync_perform rfl hmakes ?_))
  have hbytes : (countAll (sent d cs) .fresh).bytes = totalBytes (sent d cs) := by
    rw [bytes_countAll, Progress.bytes_fresh, UInt64.zero_add]
  have hclosing := @sync_closing d fp plan (replies fp plan preflight true)
    (replies fp plan preflight true)
    (openingNotes fp plan ++ [⟨.flush, true⟩] ++ [noteStreamOut plan] ++ cs.flatMap (sinkNotes d))
    (decisionNotes plan preflight true ++ [⟨.flush, true⟩] ++ [⟨.mark (.streamIn plan), ()⟩] ++
      (sent d cs).flatMap nextNotes)
    (countAll (sent d cs) .fresh) (countAll (sent d cs) q) m rfl rfl
  rw [hbytes] at hclosing
  exact hclosing

/-! ## What the records say -/

/-- What the `next` calls returned. -/
def nexts (l : Calls Call Call.Reply) : List (Result ChunkEvent) :=
  l.filterMap fun
    | ⟨.mark (.next r), _⟩ => some r
    | _ => none

/-- The sink calls, with what they returned. -/
def sinks (l : Calls Call Call.Reply) : List (SinkCall × Result Unit) :=
  l.filterMap fun
    | ⟨.mark (.sink c r), _⟩ => some (c, r)
    | _ => none

theorem nexts_append (l l' : Calls Call Call.Reply) : nexts (l ++ l') = nexts l ++ nexts l' := by
  simp [nexts]

theorem sinks_append (l l' : Calls Call Call.Reply) : sinks (l ++ l') = sinks l ++ sinks l' := by
  simp [sinks]

theorem nexts_flatMap (cs : List SinkCall) :
    nexts (cs.flatMap nextNotes) = cs.map fun c => .ok c.event := by
  induction cs with
  | nil => rfl
  | cons c cs ih =>
    rw [List.flatMap_cons, nexts_append, ih]
    rfl

theorem sinks_flatMap (cs : List SinkCall) :
    sinks (cs.flatMap (sinkNotes d)) = cs.map fun c => (c, c.verdict d) := by
  induction cs with
  | nil => rfl
  | cons c cs ih =>
    rw [List.flatMap_cons, sinks_append, ih, sinkNotes]
    split
    · rfl
    · rfl

theorem nexts_decisionNotes (approved : Bool) :
    nexts (decisionNotes plan preflight approved) = [] := by
  rw [decisionNotes]
  split
  · rfl
  · rfl

/-- The destination's events are the calls that passed, and the end. -/
theorem nexts_destRecord : nexts (destRecord d plan preflight cs) =
    (sent d cs).map (fun c => .ok c.event) ++ [.ok .done] := by
  simp only [destRecord, nexts_append, nexts_flatMap, nexts_decisionNotes]
  simp [nexts]

/-- The source's calls are all it made, with the verdicts on their sizes. -/
theorem sinks_sourceRecord :
    sinks (sourceRecord d fp plan cs) = cs.map fun c => (c, c.verdict d) := by
  simp only [sourceRecord, sinks_append, sinks_flatMap]
  simp [sinks, openingNotes, noteStreamOut, noteStreamed]

/-- Session fidelity: whatever the capacities, the interleaving and the
fragmentation, both sides return `Ok`, with the source's plan; the destination's
events are the sink calls that passed the size checks, in order and unchanged, and
then the end; and the three totals agree.  A call that is too large is an immediate
return. -/
theorem session_fidelity {capRight capLeft m : Nat} (hcr : 0 < capRight) (hcl : 0 < capLeft)
    (hfits : Fits d (ControlFrame.plan plan))
    (hjson : d.json.parse (encode d (ControlFrame.plan plan)) =
      some (ControlFrame.plan plan).serialize)
    (hok : preflight.ok = true) (hmakes : (streamOut plan).Makes d cs) :
    Net.Inevitable (Link.ofReplies capRight capLeft (replies fp plan preflight true)
        (replies fp plan preflight true))
      (fun s => ∃ p' q',
        s.left = .ret (.ok ⟨plan, totalBytes (sent d cs)⟩, p') ∧
        s.right = .ret (.ok plan, q') ∧
        q'.bytes = totalBytes (sent d cs) ∧
        (⟨.mark (.restoreComplete (totalBytes (sent d cs))), ()⟩ : Sigma Call.Reply) ∈
          s.rightHist.calls ∧
        sinks s.leftHist.calls = cs.map (fun c => (c, c.verdict d)) ∧
        nexts s.rightHist.calls = (sent d cs).map (fun c => .ok c.event) ++ [.ok .done])
      (Net.init ((runSource d streamOut).run .fresh)
        ((runDestination d fun _ => .drain (cs.length + 1 + m)).run .fresh)) ∧
    ∀ c ∈ cs, ¬ c.Fits d → ∀ p, (c.perform d).run p = .ret (c.verdict d, p) := by
  refine ⟨?_, fun c _ hc p => c.perform_of_not_fits hc p⟩
  -- the loop has rounds to spare
  have hle : (sent d cs).length ≤ cs.length := List.length_filter_le _ _
  obtain ⟨n, hn⟩ : ∃ n, cs.length + 1 + m = (sent d cs).length + (n + 1) :=
    ⟨cs.length - (sent d cs).length + m, by omega⟩
  rw [hn]
  have hsync := sync_session (m := n) (q := .fresh) fp hfits
    (decode_encode_control d _ hjson) hok hmakes
  have hends := hsync.inevitable hcr hcl (coalescing_runSource d streamOut .fresh)
    (coalescing_runDestination d _ .fresh)
  refine hends.imp _ fun s hs => ?_
  obtain ⟨hleft, hright, hcallsLeft, hcallsRight⟩ := hs
  refine ⟨_, _, hleft, hright, ?_, ?_, ?_, ?_⟩
  · rw [bytes_countAll, Progress.bytes_fresh, UInt64.zero_add]
  · rw [hcallsRight, destRecord]
    exact List.mem_append_right _ (List.mem_singleton_self _)
  · rw [hcallsLeft, sinks_sourceRecord]
  · rw [hcallsRight, nexts_destRecord]

end Session

/-! ## A sample -/

/-- A `stream_out` that makes these calls whatever they return. -/
def SinkProg.ofCalls : List SinkCall → SinkProg
  | [] => .ret (.ok ())
  | c :: cs => .call c fun _ => ofCalls cs

theorem SinkProg.makes_ofCalls (d : Deps) {cs : List SinkCall} (h : ∀ c ∈ cs, c ≠ .finish) :
    (SinkProg.ofCalls cs).Makes d cs := by
  induction cs with
  | nil => exact .ret
  | cons c cs ih =>
    exact .call (h c List.mem_cons_self) (ih fun c' hc' => h c' (List.mem_cons_of_mem c hc'))

/-- A chunk of one byte, an empty one, one that is too large, and an item's end. -/
def sampleCalls : List SinkCall :=
  [.sendChunk 1 0 [7], .sendChunk 1 1 [], .sendChunk 1 1 (List.replicate (CHUNK_SIZE + 1) 7),
    .finishItem 1 1 "digest"]

theorem sent_sampleCalls : sent sampleDeps sampleCalls =
    [.sendChunk 1 0 [7], .sendChunk 1 1 [], .finishItem 1 1 "digest"] := by
  have hchunk : (SinkCall.sendChunk 1 0 [7]).Fits sampleDeps :=
    SinkCall.fits_of_size (by decide) (by decide)
  have hempty : (SinkCall.sendChunk 1 1 []).Fits sampleDeps :=
    SinkCall.fits_of_size (by decide) (by decide)
  have hlarge : ¬ (SinkCall.sendChunk 1 1 (List.replicate (CHUNK_SIZE + 1) 7)).Fits sampleDeps := by
    rintro ⟨hle, -⟩
    rw [SinkCall.payload, List.length_replicate] at hle
    exact Nat.not_succ_le_self _ hle
  have hitem : (SinkCall.finishItem 1 1 "digest").Fits sampleDeps :=
    SinkCall.fits_of_size (by decide) (by decide)
  simp [sent, sampleCalls, hchunk, hempty, hlarge, hitem]

theorem totalBytes_sampleCalls : totalBytes (sent sampleDeps sampleCalls) = 1 := by
  rw [sent_sampleCalls]
  rfl

/-- Over a stream of one byte each way, what is too large is all that is lost. -/
theorem session_fidelity_sample :
    Net.Inevitable (Link.ofReplies 1 1 (replies "before" samplePlan .pass true)
        (replies "before" samplePlan .pass true))
      (fun s => (∃ q', s.right = .ret (.ok samplePlan, q') ∧ q'.bytes = 1) ∧
        nexts s.rightHist.calls =
          (sent sampleDeps sampleCalls).map (fun c => .ok c.event) ++ [.ok .done])
      (Net.init ((runSource sampleDeps fun _ => .ofCalls sampleCalls).run .fresh)
        ((runDestination sampleDeps fun _ => .drain (sampleCalls.length + 1 + 0)).run
          .fresh)) := by
  have hmakes : (SinkProg.ofCalls sampleCalls).Makes sampleDeps sampleCalls :=
    SinkProg.makes_ofCalls sampleDeps (by simp [sampleCalls])
  have hall := @session_fidelity sampleDeps (fun _ => .ofCalls sampleCalls) "before" samplePlan
    .pass sampleCalls 1 1 0 Nat.one_pos Nat.one_pos
    (fits_samplePlan sampleDeps) (sampleDeps.json.parse_print _ plain_samplePlan) rfl hmakes
  refine hall.1.imp _ fun s hs => ?_
  obtain ⟨p', q', -, hright, hbytes, -, -, hnexts⟩ := hs
  exact ⟨⟨q', hright, hbytes.trans totalBytes_sampleCalls⟩, hnexts⟩

end RustBackup.Core
