/-
  Core/Payload.lean --- what a destination makes of a finite stream.

  Source: crates/rb-core/src/{channel,session}.rs.

  Whatever a `stream_in` does between its `next` calls, what it sees of a finite
  stream is a function of the bytes: `taken` runs the tree of its calls on them.  With
  the completion frame this gives the outcome of the whole destination
  (`fed_destination`), and three questions about altered or half-read streams become
  questions about lists of records: a payload whose digest does not match, a stream
  left before its end, and a total that does not match what was delivered.
-/
import RustBackup.Core.Decoder

set_option autoImplicit false

namespace RustBackup.Core

open RustBackup.Serde RustBackup.Io

/-! ## A `stream_in` on a finite stream -/

/-- What a `stream_in` returned, the counters and the stream it left, and the results of
its `next` calls. -/
structure Taken where
  result : Result Unit
  counters : Progress
  rest : Bytes
  events : List (Result ChunkEvent)

/-- The same with some earlier results. -/
def Taken.prepend (es : List (Result ChunkEvent)) (t : Taken) : Taken :=
  { t with events := es ++ t.events }

/-- The run of a `stream_in` on the stream `x` followed by end of stream. -/
def StreamInProg.taken (d : Deps) : StreamInProg → Bytes → Progress → Taken
  | .ret r, x, p => ⟨r, p, x, []⟩
  | .next k, x, p =>
      ((k (nextOf d x).1).taken d (nextOf d x).2 (countNext (nextOf d x).1 p)).prepend
        [(nextOf d x).1]

/-- What is left of a `stream_in` after some results. -/
def StreamInProg.after : StreamInProg → List (Result ChunkEvent) → StreamInProg
  | prog, [] => prog
  | .ret r, _ :: _ => .ret r
  | .next k, r :: rs => (k r).after rs

theorem StreamInProg.after_nil (prog : StreamInProg) : prog.after [] = prog := by
  cases prog <;> rfl

/-- The results of some `next` calls in a row. -/
def nextsOf (d : Deps) : Nat → Bytes → List (Result ChunkEvent)
  | 0, _ => []
  | n + 1, x => (nextOf d x).1 :: nextsOf d n (nextOf d x).2

/-- The bytes some results hand over. -/
def payloadBytes (es : List (Result ChunkEvent)) : Nat :=
  (es.map fun
    | .ok (.chunk _ _ data) => data.length
    | _ => 0).sum

/-- The marks of some `next` calls. -/
def nextMarks (es : List (Result ChunkEvent)) : Calls Call Call.Reply :=
  es.map fun r => ⟨.mark (.next r), ()⟩

/-- What `stream_in` returned, by the record of a run. -/
def returned (l : Calls Call Call.Reply) : List (Result Unit) :=
  l.filterMap fun
    | ⟨.mark (.streamInReturned r), _⟩ => some r
    | _ => none

/-- The totals of the completion frames, by the record of a run. -/
def completions (l : Calls Call Call.Reply) : List UInt64 :=
  l.filterMap fun
    | ⟨.mark (.restoreComplete n), _⟩ => some n
    | _ => none

section Taken

variable {f : (e : Call) → e.Reply} {d : Deps} {x y : Bytes} {l : Calls Call Call.Reply}
variable {p : Progress}

/-- However the stream is cut, a `stream_in` does what `taken` says. -/
theorem feeds_taken {Q : Bytes → Calls Call Call.Reply → Result Unit × Progress → Prop}
    (prog : StreamInProg)
    (h : Q (prog.taken d x p).rest (l ++ nextMarks (prog.taken d x p).events)
      ((prog.taken d x p).result, (prog.taken d x p).counters)) :
    Proc.feeds f Q ((prog.perform d).run p) x l := by
  induction prog generalizing x p l with
  | ret r =>
    rw [StreamInProg.taken, nextMarks, List.map_nil, List.append_nil] at h
    exact h
  | next k ih =>
    simp only [StreamInProg.perform, Metered.run_bind, Metered.run_attempt,
      Metered.run_monadLift, Core.mark, Proc.bind_assoc, Proc.ret_bind, Proc.call_bind,
      Metered.cont_ok]
    rw [Proc.feeds_bind]
    refine feeds_nextOf (ih _ ?_)
    rw [List.append_assoc]
    exact h

/-- The counter gains exactly the bytes that were handed over. -/
theorem bytes_taken (prog : StreamInProg) :
    (prog.taken d x p).counters.bytes =
      p.bytes + UInt64.ofNat (payloadBytes (prog.taken d x p).events) := by
  induction prog generalizing x p with
  | ret r => simp [StreamInProg.taken, payloadBytes]
  | next k ih =>
    simp only [StreamInProg.taken, Taken.prepend, ih, payloadBytes, List.singleton_append,
      List.map_cons, List.sum_cons, UInt64.ofNat_add, ← UInt64.add_assoc]
    congr 1
    cases (nextOf d x).1 with
    | error e => simp [countNext]
    | ok event =>
      cases event with
      | chunk itemId offset data => rfl
      | itemEnd itemId total blake3 => simp [countNext]
      | done => simp [countNext]

/-- The results are those of as many calls in a row. -/
theorem events_taken (prog : StreamInProg) :
    (prog.taken d x p).events = nextsOf d (prog.taken d x p).events.length x := by
  induction prog generalizing x p with
  | ret r => rfl
  | next k ih =>
    simp only [StreamInProg.taken, Taken.prepend, List.singleton_append, List.length_cons, nextsOf]
    rw [← ih]

/-- Fewer calls have fewer results. -/
theorem nextsOf_prefix {m n : Nat} (h : m ≤ n) : nextsOf d m x <+: nextsOf d n x := by
  induction m generalizing n x with
  | zero => exact List.nil_prefix
  | succ m ih =>
    obtain ⟨n, rfl⟩ : ∃ k, n = k + 1 := ⟨n - 1, by omega⟩
    rw [nextsOf, nextsOf, List.cons_prefix_cons]
    exact ⟨rfl, ih (by omega)⟩

end Taken

/-! ## The whole destination on a finite stream -/

/-- What the destination returns after its `stream_in`. -/
def Taken.outcome (d : Deps) (plan : BackupPlan) (t : Taken) : Result BackupPlan :=
  match t.result with
  | .error e => .error e
  | .ok _ => completionOf plan (frameOf ControlFrame d t.rest).1

/-- What it leaves in the record after its `stream_in`. -/
def Taken.closing (d : Deps) (t : Taken) : Calls Call Call.Reply :=
  match t.result with
  | .error _ => []
  | .ok _ => completionNotes (frameOf ControlFrame d t.rest).1

/-- The record of a destination that applied a payload. -/
def appliedNotes (d : Deps) (plan : BackupPlan) (preflight : Preflight) (t : Taken) :
    Calls Call Call.Reply :=
  decisionNotes plan preflight true ++ [⟨.flush, true⟩] ++ [⟨.mark (.streamIn plan), ()⟩] ++
    nextMarks t.events ++ [⟨.mark (.streamInReturned t.result), ()⟩] ++ t.closing d

section Destination

variable {d : Deps} {fp : String} {plan : BackupPlan} {preflight : Preflight} {seg x y : Bytes}
variable {q : Progress} {l : Calls Call Call.Reply} {streamIn : BackupPlan → StreamInProg}
variable {o : Result BackupPlan × Progress}

/-- A destination that approved the plan, on a finite stream. -/
theorem fed_destination (hseg : IsFrame ControlFrame d seg (.plan plan))
    (hok : preflight.ok = true)
    (hfed : Fed (replies fp plan preflight true) ((runDestination d streamIn).run q) (seg ++ x) []
      o y l) :
    o = (((streamIn plan).taken d x q).outcome d plan, ((streamIn plan).taken d x q).counters) ∧
      l = appliedNotes d plan preflight ((streamIn plan).taken d x q) := by
  have hfeeds : Proc.feeds (replies fp plan preflight true)
      (fun _ l o => o = (((streamIn plan).taken d x q).outcome d plan,
          ((streamIn plan).taken d x q).counters) ∧
        l = appliedNotes d plan preflight ((streamIn plan).taken d x q))
      ((runDestination d streamIn).run q) (seg ++ x) [] := by
    refine feeds_handshake hseg hok ?_
    simp only [applyPayload, Core.mark, Metered.run_bind, Metered.run_monadLift, Proc.call_bind,
      Proc.ret_bind, Metered.cont_ok, Metered.run_attempt, Proc.bind_assoc, Proc.feeds]
    rw [Proc.feeds_bind]
    refine feeds_taken _ ?_
    simp only [Proc.feeds, Taken.outcome, appliedNotes, Taken.closing]
    cases ((streamIn plan).taken d x q).result with
    | error e => exact ⟨rfl, by rw [List.append_nil]⟩
    | ok u => exact feeds_completion ⟨rfl, rfl⟩
  exact (Proc.feeds_iff _ _ _).mp hfeeds o y l hfed

/-! ### What the record says -/

theorem nexts_nextMarks (es : List (Result ChunkEvent)) : nexts (nextMarks es) = es := by
  induction es with
  | nil => rfl
  | cons r es ih =>
    rw [nextMarks, List.map_cons, ← nextMarks, nexts, List.filterMap_cons, ← nexts, ih]

theorem nexts_appliedNotes (t : Taken) : nexts (appliedNotes d plan preflight t) = t.events := by
  have hclosing : nexts (t.closing d) = [] := by
    unfold Taken.closing
    split
    · rfl
    · unfold completionNotes
      split <;> rfl
  have hdecision : nexts (decisionNotes plan preflight true) = [] := by
    unfold decisionNotes
    split <;> rfl
  rw [appliedNotes, nexts_append, nexts_append, nexts_append, nexts_append, nexts_append,
    nexts_nextMarks, hclosing, hdecision, List.append_nil]
  exact List.append_nil _

theorem returned_nextMarks (es : List (Result ChunkEvent)) : returned (nextMarks es) = [] := by
  induction es with
  | nil => rfl
  | cons r es ih => exact ih

theorem completions_nextMarks (es : List (Result ChunkEvent)) :
    completions (nextMarks es) = [] := by
  induction es with
  | nil => rfl
  | cons r es ih => exact ih

theorem returned_appliedNotes (t : Taken) :
    returned (appliedNotes d plan preflight t) = [t.result] := by
  have hclosing : returned (t.closing d) = [] := by
    unfold Taken.closing
    split
    · rfl
    · unfold completionNotes
      split <;> rfl
  have hdecision : returned (decisionNotes plan preflight true) = [] := by
    unfold decisionNotes
    split <;> rfl
  have happend : ∀ l l' : Calls Call Call.Reply, returned (l ++ l') = returned l ++ returned l' :=
    fun l l' => List.filterMap_append
  rw [appliedNotes, happend, happend, happend, happend, happend, returned_nextMarks, hclosing,
    hdecision]
  rfl

theorem completions_appliedNotes (t : Taken) :
    completions (appliedNotes d plan preflight t) = completions (t.closing d) := by
  have hdecision : completions (decisionNotes plan preflight true) = [] := by
    unfold decisionNotes
    split <;> rfl
  have happend : ∀ l l' : Calls Call Call.Reply,
      completions (l ++ l') = completions l ++ completions l' :=
    fun l l' => List.filterMap_append
  rw [appliedNotes, happend, happend, happend, happend, happend, completions_nextMarks, hdecision]
  rfl

end Destination

/-! ## Records -/

section Records

variable {d : Deps} {x y : Bytes} {p : Progress}

/-- The record of a call that passed the size checks is read as its event. -/
theorem nextOf_bytes {c : SinkCall} (hfits : c.Fits d) :
    nextOf d (c.bytes d ++ y) = (.ok c.event, y) := by
  have hframe := isFrame_frameBytes hfits.2 (decode_encode_data d (c.frame d))
  rw [SinkCall.bytes, List.append_assoc]
  cases c with
  | sendChunk itemId offset data =>
    have hle : data.length ≤ CHUNK_SIZE := hfits.1
    have hlen : (UInt32.ofNat data.length).toNat = data.length :=
      UInt32.toNat_ofNat_of_lt' (Nat.lt_of_le_of_lt hle (by decide))
    rw [SinkCall.frame] at hframe ⊢
    rw [hframe.nextOf_chunk, SinkCall.payload, payloadOf, hlen, List.take_left, List.drop_left,
      if_neg (by rw [List.length_append]; omega), if_neg (not_not.mpr rfl)]
    rfl
  | finishItem itemId total blake3 =>
    rw [SinkCall.frame] at hframe ⊢
    rw [nextOf, hframe.frameOf]
    rfl
  | finish =>
    rw [SinkCall.frame] at hframe ⊢
    rw [nextOf, hframe.frameOf]
    rfl

theorem countNext_event (c : SinkCall) (p : Progress) :
    countNext (.ok c.event) p = c.counted p := by
  cases c <;> rfl

/-- A `stream_in` on some records: it stops between two of them, or it takes them all and
calls `next` again. -/
theorem taken_wire (prog : StreamInProg) {cs : List SinkCall} (hcs : ∀ c ∈ cs, c.Fits d) :
    (∃ cs₁ cs₂ r, cs = cs₁ ++ cs₂ ∧ prog.after (cs₁.map fun c => .ok c.event) = .ret r ∧
      prog.taken d (wire d cs ++ y) p =
        ⟨r, countAll cs₁ p, wire d cs₂ ++ y, cs₁.map fun c => .ok c.event⟩) ∨
    ∃ k, prog.after (cs.map fun c => .ok c.event) = .next k ∧
      prog.taken d (wire d cs ++ y) p =
        ((StreamInProg.next k).taken d y (countAll cs p)).prepend
          (cs.map fun c => .ok c.event) := by
  induction cs generalizing prog p with
  | nil =>
    cases prog with
    | ret r => exact .inl ⟨[], [], r, rfl, rfl, rfl⟩
    | next k => exact .inr ⟨k, rfl, rfl⟩
  | cons c cs ih =>
    cases prog with
    | ret r => exact .inl ⟨[], c :: cs, r, rfl, rfl, rfl⟩
    | next k =>
      have hnext : nextOf d (wire d (c :: cs) ++ y) = (.ok c.event, wire d cs ++ y) := by
        rw [wire_cons, List.append_assoc]
        exact nextOf_bytes (hcs c List.mem_cons_self)
      have hstep : (StreamInProg.next k).taken d (wire d (c :: cs) ++ y) p =
          ((k (.ok c.event)).taken d (wire d cs ++ y) (c.counted p)).prepend [.ok c.event] := by
        rw [StreamInProg.taken, hnext, countNext_event]
      have hrest := ih (k (.ok c.event)) (p := c.counted p)
        fun c' hmem => hcs c' (List.mem_cons_of_mem c hmem)
      rw [hstep]
      rcases hrest with ⟨cs₁, cs₂, r, hsplit, hafter, htaken⟩ | ⟨k', hafter, htaken⟩
      · refine .inl ⟨c :: cs₁, cs₂, r, by rw [hsplit]; rfl, hafter, ?_⟩
        rw [htaken]
        rfl
      · refine .inr ⟨k', hafter, ?_⟩
        rw [htaken]
        rfl

end Records

/-! ## A payload that was altered -/

/-- The `stream_in` passes every error of `next` on. -/
def StreamInProg.Propagates : StreamInProg → Prop
  | .ret _ => True
  | .next k => (∀ e, k (.error e) = .ret (.error e)) ∧ ∀ event, (k (.ok event)).Propagates

theorem StreamInProg.Propagates.after {prog : StreamInProg} (h : prog.Propagates)
    (es : List ChunkEvent) : (prog.after (es.map .ok)).Propagates := by
  induction es generalizing prog with
  | nil =>
    rw [List.map_nil, StreamInProg.after_nil]
    exact h
  | cons event es ih =>
    cases prog with
    | ret r => exact h
    | next k => exact ih (h.2 event)

theorem StreamInProg.propagates_drain (n : Nat) : (StreamInProg.drain n).Propagates := by
  induction n with
  | zero => trivial
  | succ n ih =>
    refine ⟨fun e => rfl, fun event => ?_⟩
    cases event with
    | chunk itemId offset data => exact ih
    | itemEnd itemId total blake3 => exact ih
    | done => trivial

/-- A draining `stream_in` goes on after the events of records. -/
theorem StreamInProg.after_drain {cs : List SinkCall} (hcs : ∀ c ∈ cs, c ≠ .finish) (n : Nat) :
    (StreamInProg.drain (cs.length + n)).after (cs.map fun c => .ok c.event) = .drain n := by
  induction cs with
  | nil => rw [List.length_nil, Nat.zero_add, List.map_nil, StreamInProg.after_nil]
  | cons c cs ih =>
    have hrest := ih fun c' hmem => hcs c' (List.mem_cons_of_mem c hmem)
    rw [List.length_cons, Nat.add_right_comm, StreamInProg.drain, List.map_cons,
      StreamInProg.after]
    cases c with
    | sendChunk itemId offset data => exact hrest
    | finishItem itemId total blake3 => exact hrest
    | finish => exact absurd rfl (hcs .finish List.mem_cons_self)

/-- The record of a chunk with its payload replaced. -/
def alteredRecord (d : Deps) (itemId : UInt32) (offset : UInt64) (data data' : Bytes) : Bytes :=
  frameBytes d ((SinkCall.sendChunk itemId offset data).frame d) ++ data'

/-- The stream of a source with the payload of one chunk replaced. -/
def alteredStream (d : Deps) (before after : List SinkCall) (itemId : UInt32) (offset : UInt64)
    (data data' : Bytes) (n : UInt64) : Bytes :=
  wire d before ++ (alteredRecord d itemId offset data data' ++ honest d after n)

section Corruption

variable {d : Deps} {fp : String} {plan : BackupPlan} {preflight : Preflight} {seg x y : Bytes}
variable {p q : Progress} {itemId : UInt32} {offset : UInt64} {data data' : Bytes} {n : UInt64}
variable {before after : List SinkCall}

/-- The altered record is read to its end and reported. -/
theorem nextOf_altered (hfits : (SinkCall.sendChunk itemId offset data).Fits d)
    (hlen : data'.length = data.length) (hdigest : d.blake3Hex data' ≠ d.blake3Hex data) :
    nextOf d (alteredRecord d itemId offset data data' ++ y) =
      (.error (integrityError itemId offset), y) := by
  have hframe := isFrame_frameBytes hfits.2
    (decode_encode_data d ((SinkCall.sendChunk itemId offset data).frame d))
  have hle : data.length ≤ CHUNK_SIZE := hfits.1
  have htoNat : (UInt32.ofNat data.length).toNat = data'.length := by
    rw [hlen]
    exact UInt32.toNat_ofNat_of_lt' (Nat.lt_of_le_of_lt hle (by decide))
  rw [SinkCall.frame] at hframe
  rw [alteredRecord, SinkCall.frame, List.append_assoc, hframe.nextOf_chunk, payloadOf, htoNat,
    List.take_left, List.drop_left, if_neg (by rw [List.length_append]; omega), if_pos hdigest]

/-- A `stream_in` on an altered stream: it stops before the altered record, or its next
call fails there. -/
theorem taken_altered (prog : StreamInProg) (hbefore : ∀ c ∈ before, c.Fits d)
    (hfits : (SinkCall.sendChunk itemId offset data).Fits d) (hlen : data'.length = data.length)
    (hdigest : d.blake3Hex data' ≠ d.blake3Hex data) :
    (∃ cs₁ cs₂ r, before = cs₁ ++ cs₂ ∧ prog.after (cs₁.map fun c => .ok c.event) = .ret r ∧
      (prog.taken d (alteredStream d before after itemId offset data data' n) q).events =
        cs₁.map fun c => .ok c.event) ∨
    ∃ k, prog.after (before.map fun c => .ok c.event) = .next k ∧
      prog.taken d (alteredStream d before after itemId offset data data' n) q =
        ((k (.error (integrityError itemId offset))).taken d (honest d after n)
          (countAll before q)).prepend
          ((before.map fun c => .ok c.event) ++ [.error (integrityError itemId offset)]) := by
  rcases taken_wire prog hbefore with ⟨cs₁, cs₂, r, hsplit, hafter, htaken⟩ | ⟨k, hafter, htaken⟩
  · refine .inl ⟨cs₁, cs₂, r, hsplit, hafter, ?_⟩
    rw [alteredStream, htaken]
  · refine .inr ⟨k, hafter, ?_⟩
    rw [alteredStream, htaken, StreamInProg.taken, nextOf_altered hfits hlen hdigest]
    simp only [countNext, Taken.prepend, List.append_assoc]

/-- A draining `stream_in` does not stop between two records. -/
theorem not_drain_of_stops {prog : StreamInProg} {cs₁ cs₂ : List SinkCall} {r : Result Unit}
    (hcs : ∀ c ∈ cs₁ ++ cs₂, c ≠ .finish)
    (hafter : prog.after (cs₁.map fun c => .ok c.event) = .ret r) (m : Nat) :
    prog ≠ .drain ((cs₁ ++ cs₂).length + 1 + m) := by
  intro hdrain
  have hdepth : (cs₁ ++ cs₂).length + 1 + m = cs₁.length + (cs₂.length + m + 1) := by
    rw [List.length_append]
    omega
  rw [hdrain, hdepth, StreamInProg.after_drain (fun c hc => hcs c (List.mem_append_left _ hc)),
    StreamInProg.drain] at hafter
  cases hafter

/-- Replace the payload of any chunk of any stream by other bytes of the same length
with another digest.  However the stream is cut, any `stream_in` gets the events before
that chunk, then the integrity error, then only what stands behind the chunk; one that
passes errors on makes the destination return that error with exactly the chunks before
it counted; and one that drains does get there. -/
theorem corruption_contained (hseg : IsFrame ControlFrame d seg (.plan plan))
    (hok : preflight.ok = true) (hbefore : ∀ c ∈ before, c.Fits d ∧ c ≠ .finish)
    (hfits : (SinkCall.sendChunk itemId offset data).Fits d) (hlen : data'.length = data.length)
    (hdigest : d.blake3Hex data' ≠ d.blake3Hex data) (streamIn : BackupPlan → StreamInProg)
    {o : Result BackupPlan × Progress} {l : Calls Call Call.Reply}
    (hfed : Fed (replies fp plan preflight true) ((runDestination d streamIn).run q)
      (seg ++ alteredStream d before after itemId offset data data' n) [] o y l) :
    nexts l <+: (before.map fun c => .ok c.event) ++
      .error (integrityError itemId offset) :: nextsOf d (nexts l).length (honest d after n) ∧
    ((streamIn plan).Propagates → before.length < (nexts l).length →
      nexts l = (before.map fun c => .ok c.event) ++ [.error (integrityError itemId offset)] ∧
      o.1 = .error (integrityError itemId offset) ∧ o.2.bytes = q.bytes + totalBytes before) ∧
    ∀ m, streamIn plan = .drain (before.length + 1 + m) → before.length < (nexts l).length := by
  obtain ⟨ho, hl⟩ := fed_destination hseg hok hfed
  have hevents : nexts (appliedNotes d plan preflight ((streamIn plan).taken d
      (alteredStream d before after itemId offset data data' n) q)) = _ := nexts_appliedNotes _
  rw [← hl] at hevents
  rcases taken_altered (streamIn plan) (fun c hc => (hbefore c hc).1) hfits hlen hdigest with
    ⟨cs₁, cs₂, r, hsplit, hafter, htaken⟩ | ⟨k, hafter, htaken⟩
  · -- it stopped before the altered record
    rw [htaken] at hevents
    have hshort : ¬ before.length < (nexts l).length := by
      rw [hevents, List.length_map, hsplit, List.length_append]
      omega
    refine ⟨?_, fun _ hlt => absurd hlt hshort, fun m hdrain => ?_⟩
    · rw [hevents, hsplit, List.map_append, List.append_assoc]
      exact List.prefix_append _ _
    · rw [hsplit] at hdrain hbefore
      exact absurd hdrain (not_drain_of_stops (fun c hc => (hbefore c hc).2) hafter m)
  · -- its call at the altered record fails
    have hlater := events_taken (d := d) (x := honest d after n) (p := countAll before q)
      (k (.error (integrityError itemId offset)))
    rw [htaken, Taken.prepend] at hevents
    have hlt : before.length < (nexts l).length := by
      rw [hevents, List.length_append, List.length_append, List.length_map, List.length_singleton]
      omega
    refine ⟨?_, fun hprop _ => ?_, fun _ _ => hlt⟩
    · have hlen' : ((k (.error (integrityError itemId offset))).taken d (honest d after n)
          (countAll before q)).events.length ≤ (nexts l).length := by
        rw [hevents, List.length_append]
        omega
      rw [List.append_assoc, List.singleton_append, hlater] at hevents
      generalize (nexts l).length = calls at hlen' ⊢
      rw [hevents, List.prefix_append_right_inj, List.cons_prefix_cons]
      exact ⟨rfl, nextsOf_prefix hlen'⟩
    · have hk := hprop.after (before.map SinkCall.event)
      rw [List.map_map] at hk
      change ((streamIn plan).after (before.map fun c => .ok c.event)).Propagates at hk
      rw [hafter] at hk
      rw [htaken, hk.1] at ho
      rw [hk.1] at hevents
      refine ⟨?_, ?_, ?_⟩
      · rw [hevents, StreamInProg.taken, List.append_nil]
      · rw [ho]
        rfl
      · rw [ho]
        exact bytes_countAll before q

end Corruption

/-- The libraries of the sample session with the digests of other payloads: two bytes, and
four bytes of length with an empty object behind them. -/
def digestDeps : Deps where
  json := Text.compact
  blake3Hex := fun data =>
    if data = [0] then "2d3adedff11b61f14c886e35afa036736dcd87a74d27b5c1510225d0f592e213"
    else if data = [1] then "48fc721fbbc172e0925fa27af1671de225ba927134802998b10a1568a188652b"
    else if data = [0, 0, 0, 2, 123, 125] then
      "acc4456e7875a7b4aa68dfee0dadbd175d1d28177a99419dd691d2f4d9888c7c"
    else "af1349b9f5f9a1a6a0404dea36dcc9499bcb25c9adc112b7cc9a93cae41f3262"
  debug := fun _ => "None"

/-- The second of three chunks has one byte in place of another: the first is counted, the
second reported, the third not seen. -/
theorem corruption_contained_sample :
    ∃ o y l, Fed (replies "before" samplePlan .pass true)
        ((runDestination digestDeps fun _ => .drain
          ([SinkCall.sendChunk 1 0 [1]].length + 1 + 0)).run .fresh)
        (frameBytes digestDeps (ControlFrame.plan samplePlan) ++
          alteredStream digestDeps [.sendChunk 1 0 [1]]
            [.sendChunk 1 2 [0], .finishItem 1 3 ""] 1 1 [0] [1] 3) [] o y l ∧
      nexts l = [.ok (.chunk 1 0 [1]), .error (integrityError 1 1)] ∧
      o.1 = .error (integrityError 1 1) ∧ o.2.bytes = 1 := by
  have hseg := isFrame_frameBytes (fits_samplePlan digestDeps) (decode_samplePlan digestDeps)
  have hdigest : digestDeps.blake3Hex [1] ≠ digestDeps.blake3Hex [0] := by decide
  obtain ⟨o, y, l, hfed⟩ := Proc.exists_fed (f := replies "before" samplePlan .pass true)
    (coalescing_runDestination digestDeps
      (fun _ => .drain ([SinkCall.sendChunk 1 0 [1]].length + 1 + 0)) .fresh)
    (frameBytes digestDeps (ControlFrame.plan samplePlan) ++
      alteredStream digestDeps [.sendChunk 1 0 [1]]
        [.sendChunk 1 2 [0], .finishItem 1 3 ""] 1 1 [0] [1] 3) []
  have hbefore : ∀ c ∈ [SinkCall.sendChunk 1 0 [1]], c.Fits digestDeps ∧ c ≠ .finish := by
    intro c hc
    rw [List.mem_singleton.mp hc]
    exact ⟨SinkCall.fits_of_size (by decide) (by decide), by simp⟩
  have hfits : (SinkCall.sendChunk 1 1 [0]).Fits digestDeps :=
    SinkCall.fits_of_size (by decide) (by decide)
  have hlen : ([1] : Bytes).length = ([0] : Bytes).length := rfl
  obtain ⟨-, hpropagates, hdrains⟩ :=
    corruption_contained hseg rfl hbefore hfits hlen hdigest _ hfed
  exact ⟨o, y, l, hfed, hpropagates (StreamInProg.propagates_drain _) (hdrains 0 rfl)⟩

/-! ## A stream that is left too early -/

/-- No control frame stands where a record does. -/
theorem frameOf_control_record {d : Deps} {c : SinkCall} (hfits : c.Fits d) (y : Bytes) :
    (frameOf ControlFrame d (c.bytes d ++ y)).1 =
      .error (.phaseSrc .transfer "frame deserialize" .json) := by
  rw [SinkCall.bytes, List.append_assoc, frameOf_frameBytes d hfits.2, decode_control_of_data]

/-- On a complete stream, a `stream_in` that returns `Ok` without having received the end
makes the destination fail: the next frame is a data frame, and no data frame is read as
a control frame. -/
theorem early_stop_reported {d : Deps} {fp : String} {plan : BackupPlan}
    {preflight : Preflight} {seg y : Bytes} {q : Progress} {cs : List SinkCall} {n : UInt64}
    {o : Result BackupPlan × Progress} {l : Calls Call Call.Reply}
    (hseg : IsFrame ControlFrame d seg (.plan plan)) (hok : preflight.ok = true)
    (hcs : ∀ c ∈ cs, c.Fits d ∧ c ≠ .finish) (streamIn : BackupPlan → StreamInProg)
    (hfed : Fed (replies fp plan preflight true) ((runDestination d streamIn).run q)
      (seg ++ honest d cs n) [] o y l)
    (hreturned : .ok () ∈ returned l) (hend : .ok .done ∉ nexts l) :
    o.1 = .error (.phaseSrc .transfer "frame deserialize" .json) := by
  obtain ⟨ho, hl⟩ := fed_destination hseg hok hfed
  rw [hl, returned_appliedNotes, List.mem_singleton] at hreturned
  rw [hl, nexts_appliedNotes] at hend
  have hfinish : ∀ c ∈ cs ++ [.finish], c.Fits d := by
    intro c hc
    rcases List.mem_append.mp hc with hc | hc
    · exact (hcs c hc).1
    · rw [List.mem_singleton.mp hc]
      exact ⟨Nat.zero_le _, fits_streamEnd d⟩
  rcases taken_wire (p := q) (y := frameBytes d (ControlFrame.done n "")) (streamIn plan) hfinish
    with ⟨cs₁, cs₂, r, hsplit, -, htaken⟩ | ⟨k, -, htaken⟩
  · rw [honest, htaken] at ho hreturned hend
    -- the end was not among the events, so a record is left
    cases cs₂ with
    | nil =>
      refine absurd (List.mem_map.mpr ⟨SinkCall.finish, ?_, rfl⟩) hend
      rw [List.append_nil] at hsplit
      rw [← hsplit]
      exact List.mem_append_right _ (List.mem_singleton_self _)
    | cons c cs₂ =>
      have hc : c.Fits d := by
        refine hfinish c ?_
        rw [hsplit]
        exact List.mem_append_right _ List.mem_cons_self
      have hr : r = .ok () := hreturned.symm
      rw [ho, hr, Taken.outcome, wire_cons, List.append_assoc]
      simp only [frameOf_control_record hc]
      rfl
  · rw [honest, htaken] at hend
    refine absurd ?_ hend
    refine List.mem_append_left _ (List.mem_map.mpr ⟨SinkCall.finish, ?_, rfl⟩)
    exact List.mem_append_right _ (List.mem_singleton_self _)

/-- Stopping after the first of two chunks is an error, also where the payload of the
second begins like a frame. -/
theorem early_stop_reported_sample :
    ∃ o y l, Fed (replies "before" samplePlan .pass true)
        ((runDestination digestDeps fun _ => .next fun _ => .ret (.ok ())).run .fresh)
        (frameBytes digestDeps (ControlFrame.plan samplePlan) ++ honest digestDeps
          [.sendChunk 0 0 [1], .sendChunk 0 1 [0, 0, 0, 2, 123, 125]] 7) [] o y l ∧
      nexts l = [.ok (.chunk 0 0 [1])] ∧
      o.1 = .error (.phaseSrc .transfer "frame deserialize" .json) := by
  have hseg := isFrame_frameBytes (fits_samplePlan digestDeps) (decode_samplePlan digestDeps)
  obtain ⟨o, y, l, hfed⟩ := Proc.exists_fed (f := replies "before" samplePlan .pass true)
    (coalescing_runDestination digestDeps (fun _ => .next fun _ => .ret (.ok ())) .fresh)
    (frameBytes digestDeps (ControlFrame.plan samplePlan) ++ honest digestDeps
      [.sendChunk 0 0 [1], .sendChunk 0 1 [0, 0, 0, 2, 123, 125]] 7) []
  have hfirst : (SinkCall.sendChunk 0 0 [1]).Fits digestDeps :=
    SinkCall.fits_of_size (by decide) (by decide)
  have hcs : ∀ c ∈ [SinkCall.sendChunk 0 0 [1], .sendChunk 0 1 [0, 0, 0, 2, 123, 125]],
      c.Fits digestDeps ∧ c ≠ .finish := by
    intro c hc
    rcases List.mem_cons.mp hc with rfl | hc
    · exact ⟨hfirst, by simp⟩
    · rw [List.mem_singleton.mp hc]
      exact ⟨SinkCall.fits_of_size (by decide) (by decide), by simp⟩
  obtain ⟨-, hl⟩ := fed_destination hseg rfl hfed
  have hnexts : nexts l = [.ok (.chunk 0 0 [1])] := by
    rw [hl, nexts_appliedNotes, honest, List.cons_append, wire_cons, List.append_assoc]
    simp only [StreamInProg.taken, Taken.prepend, nextOf_bytes hfirst]
    rfl
  refine ⟨o, y, l, hfed, hnexts, early_stop_reported hseg rfl hcs _ hfed ?_ ?_⟩
  · rw [hl, returned_appliedNotes]
    exact List.mem_singleton_self _
  · rw [hnexts]
    simp

/-! ## A total that does not match -/

section Total

variable {d : Deps} {fp : String} {plan : BackupPlan} {preflight : Preflight} {seg x y : Bytes}
variable {q : Progress} {total : UInt64} {o : Result BackupPlan × Progress}
variable {l : Calls Call Call.Reply}

/-- A completion frame ends the run with `Ok`. -/
theorem outcome_of_completion {t : Taken} (h : total ∈ completions (t.closing d)) :
    completions (t.closing d) = [total] ∧ t.outcome d plan = .ok plan := by
  unfold Taken.closing at h ⊢
  unfold Taken.outcome
  cases hr : t.result with
  | error e =>
    rw [hr] at h
    exact absurd h List.not_mem_nil
  | ok u =>
    rw [hr] at h
    simp only at h ⊢
    cases hframe : (frameOf ControlFrame d t.rest).1 with
    | error e =>
      rw [hframe] at h
      exact absurd h List.not_mem_nil
    | ok frame =>
      rw [hframe] at h
      cases frame with
      | none => exact absurd h List.not_mem_nil
      | some frame =>
        cases frame with
        | plan plan' => exact absurd h List.not_mem_nil
        | planAck accepted reason => exact absurd h List.not_mem_nil
        | abort reason => exact absurd h List.not_mem_nil
        | done n blake3 =>
          have hn : total = n := List.mem_singleton.mp h
          rw [hn]
          exact ⟨rfl, rfl⟩

/-- A draining destination on the records of some calls, whatever the total after them. -/
theorem fed_drain_honest {cs : List SinkCall} {m : Nat}
    (hseg : IsFrame ControlFrame d seg (.plan plan)) (hok : preflight.ok = true)
    (hcs : ∀ c ∈ cs, c.Fits d ∧ c ≠ .finish)
    (hfed : Fed (replies fp plan preflight true)
      ((runDestination d fun _ => .drain (cs.length + 1 + m)).run q) (seg ++ honest d cs total) []
      o y l) :
    o.1 = .ok plan ∧ completions l = [total] ∧
      nexts l = (cs.map fun c => .ok c.event) ++ [.ok .done] := by
  obtain ⟨ho, hl⟩ := fed_destination hseg hok hfed
  have hstream : honest d cs total =
      wire d cs ++ (SinkCall.finish.bytes d ++ frameBytes d (ControlFrame.done total "")) := by
    rw [honest, wire_concat, List.append_assoc]
  have hnext : nextOf d (SinkCall.finish.bytes d ++ frameBytes d (ControlFrame.done total "")) =
      (.ok .done, frameBytes d (ControlFrame.done total "")) :=
    nextOf_bytes (c := .finish) ⟨Nat.zero_le _, fits_streamEnd d⟩
  have htaken : (StreamInProg.drain (cs.length + 1 + m)).taken d (honest d cs total) q =
      ⟨.ok (), countAll cs q, frameBytes d (ControlFrame.done total ""),
        (cs.map fun c => .ok c.event) ++ [.ok .done]⟩ := by
    rw [hstream]
    rcases taken_wire (p := q) (StreamInProg.drain (cs.length + 1 + m))
      (fun c hc => (hcs c hc).1) with ⟨cs₁, cs₂, r, hsplit, hafter, -⟩ | ⟨k, hafter, htaken⟩
    · subst hsplit
      exact absurd rfl (not_drain_of_stops (fun c hc => (hcs c hc).2) hafter m)
    · rw [Nat.add_assoc, Nat.add_comm 1 m, StreamInProg.after_drain (fun c hc => (hcs c hc).2),
        StreamInProg.drain] at hafter
      cases hafter
      rw [htaken, StreamInProg.taken, hnext]
      rfl
  have hframe : (frameOf ControlFrame d (frameBytes d (ControlFrame.done total ""))).1 =
      .ok (some (.done total "")) := by
    have h := (isFrame_frameBytes (fits_done d total) (decode_encode_done d total "")).frameOf []
    rw [List.append_nil] at h
    rw [h]
  rw [htaken] at ho hl
  refine ⟨?_, ?_, ?_⟩
  · rw [ho, Taken.outcome]
    simp only [hframe]
    rfl
  · rw [hl, completions_appliedNotes, Taken.closing]
    simp only [hframe]
    rfl
  · rw [hl, nexts_appliedNotes]

/-- The total of the completion frame is reported, not compared.  Whenever one is received
the destination returns `Ok` and its counter has gained exactly what was delivered,
whatever the total; so a draining destination takes the records that are left of a
stream, with any total behind them, for the whole of it. -/
theorem completion_total_unchecked (hseg : IsFrame ControlFrame d seg (.plan plan))
    (hok : preflight.ok = true) :
    (∀ (streamIn : BackupPlan → StreamInProg) (x : Bytes) (o : Result BackupPlan × Progress)
      (y : Bytes) (l : Calls Call Call.Reply),
      Fed (replies fp plan preflight true) ((runDestination d streamIn).run q) (seg ++ x) [] o y l →
      total ∈ completions l →
      completions l = [total] ∧ o.1 = .ok plan ∧
        o.2.bytes = q.bytes + UInt64.ofNat (payloadBytes (nexts l))) ∧
    ∀ (cs left : List SinkCall) (m : Nat), (∀ c ∈ cs, c.Fits d ∧ c ≠ .finish) →
      left.Sublist cs → ∀ (o : Result BackupPlan × Progress) (y : Bytes)
        (l : Calls Call Call.Reply),
      Fed (replies fp plan preflight true)
        ((runDestination d fun _ => .drain (left.length + 1 + m)).run q)
        (seg ++ honest d left (totalBytes cs)) [] o y l →
      o.1 = .ok plan ∧ completions l = [totalBytes cs] ∧
        nexts l = (left.map fun c => .ok c.event) ++ [.ok .done] := by
  refine ⟨?_, ?_⟩
  · intro streamIn x o y l hfed htotal
    obtain ⟨ho, hl⟩ := fed_destination hseg hok hfed
    rw [hl, completions_appliedNotes] at htotal
    obtain ⟨hone, houtcome⟩ : _ ∧ Taken.outcome d plan _ = .ok plan :=
      outcome_of_completion htotal
    refine ⟨?_, ?_, ?_⟩
    · rw [hl, completions_appliedNotes]
      exact hone
    · rw [ho]
      exact houtcome
    · rw [ho, hl, nexts_appliedNotes]
      exact bytes_taken (streamIn plan)
  · intro cs left m hcs hleft o y l hfed
    exact fed_drain_honest hseg hok (fun c hc => hcs c (hleft.subset hc)) hfed

end Total

/-- The stream of a source that sent one chunk of one byte, without that chunk, is taken
for the whole: the frame says one byte and none was delivered. -/
theorem missing_chunk_accepted :
    ∃ o y l, Fed (replies "before" samplePlan .pass true)
        ((runDestination sampleDeps fun _ => .drain (([] : List SinkCall).length + 1 + 0)).run
          .fresh)
        (frameBytes sampleDeps (ControlFrame.plan samplePlan) ++
          honest sampleDeps [] (totalBytes [.sendChunk 0 0 [7]])) [] o y l ∧
      .ok .done ∈ nexts l ∧ completions l = [1] ∧ o.1 = .ok samplePlan ∧
      payloadBytes (nexts l) = 0 := by
  have hseg := isFrame_frameBytes (fits_samplePlan sampleDeps) (decode_samplePlan sampleDeps)
  obtain ⟨o, y, l, hfed⟩ := Proc.exists_fed (f := replies "before" samplePlan .pass true)
    (coalescing_runDestination sampleDeps
      (fun _ => .drain (([] : List SinkCall).length + 1 + 0)) .fresh)
    (frameBytes sampleDeps (ControlFrame.plan samplePlan) ++
      honest sampleDeps [] (totalBytes [.sendChunk 0 0 [7]])) []
  have hnone : ∀ c ∈ ([] : List SinkCall), c.Fits sampleDeps ∧ c ≠ .finish := by simp
  obtain ⟨hout, htotals, hnexts⟩ := fed_drain_honest hseg rfl hnone hfed
  refine ⟨o, y, l, hfed, ?_, htotals, hout, ?_⟩
  · rw [hnexts]
    exact List.mem_singleton_self _
  · rw [hnexts]
    rfl

/-- The same stream, by the general statement. -/
theorem completion_total_unchecked_sample :
    ∃ o y l, Fed (replies "before" samplePlan .pass true)
        ((runDestination sampleDeps fun _ => .drain (([] : List SinkCall).length + 1 + 0)).run
          .fresh)
        (frameBytes sampleDeps (ControlFrame.plan samplePlan) ++
          honest sampleDeps [] (totalBytes [.sendChunk 0 0 [7]])) [] o y l ∧
      o.1 = .ok samplePlan ∧ completions l = [1] ∧ nexts l = [.ok .done] := by
  have hseg := isFrame_frameBytes (fits_samplePlan sampleDeps) (decode_samplePlan sampleDeps)
  obtain ⟨o, y, l, hfed⟩ := Proc.exists_fed (f := replies "before" samplePlan .pass true)
    (coalescing_runDestination sampleDeps
      (fun _ => .drain (([] : List SinkCall).length + 1 + 0)) .fresh)
    (frameBytes sampleDeps (ControlFrame.plan samplePlan) ++
      honest sampleDeps [] (totalBytes [.sendChunk 0 0 [7]])) []
  have hall := (@completion_total_unchecked sampleDeps "before" samplePlan .pass _ .fresh 0 hseg
    rfl).2 [.sendChunk 0 0 [7]] [] 0
  refine ⟨o, y, l, hfed, hall ?_ (List.nil_sublist _) o y l hfed⟩
  intro c hc
  rw [List.mem_singleton.mp hc]
  exact ⟨SinkCall.fits_of_size (by decide) (by decide), by simp⟩

end RustBackup.Core
