/-
  Core/Truncation.lean --- a stream that ends too early.

  The destination's half of the data stream as a grammar: records, then `StreamEnd`,
  then `Done`.  `recv_frame` answers end of stream inside the length prefix with
  `None`, `next` takes that for the end of the data, and the completion match only
  warns about it.  So the streams on which a draining destination returns `Ok` are
  those of the grammar (`Completed`) and those of `SilentEnd`, and no stream is both.
-/
import RustBackup.Core.Gate
import RustBackup.Io.Feed

set_option autoImplicit false

namespace RustBackup.Core

open RustBackup.Serde RustBackup.Io

/-! ## The grammar -/

/-- A well-formed data record: a chunk with the payload its header announces, or the
end of an item. -/
inductive IsRecord (d : Deps) : Bytes → Prop where
  | chunk {header data : Bytes} {itemId : UInt32} {offset : UInt64} {len : UInt32}
      (hheader : IsFrame DataFrame d header (.chunkStart itemId offset len (d.blake3Hex data)))
      (hlen : data.length = len.toNat) : IsRecord d (header ++ data)
  | itemEnd {seg : Bytes} {itemId : UInt32} {total : UInt64} {blake3 : String}
      (hseg : IsFrame DataFrame d seg (.itemEnd itemId total blake3)) : IsRecord d seg

/-- Some well-formed data records. -/
def IsRecords (d : Deps) (recs : List Bytes) : Prop := ∀ seg ∈ recs, IsRecord d seg

/-- The stream is records, an explicit `StreamEnd` and an explicit `Done`; `rest` is
what follows. -/
structure CompletedWith (d : Deps) (x rest : Bytes) (recs : List Bytes) (fin don : Bytes) :
    Prop where
  records : IsRecords d recs
  streamEnd : IsFrame DataFrame d fin .streamEnd
  done : ∃ total blake3, IsFrame ControlFrame d don (.done total blake3)
  eq : x = recs.flatten ++ (fin ++ (don ++ rest))

/-- The stream begins with data records closed by `StreamEnd` and followed by
`Done`. -/
def Completed (d : Deps) (x : Bytes) : Prop :=
  ∃ rest recs fin don, CompletedWith d x rest recs fin don

/-- What the completion match only warns about: fewer bytes than a length prefix, or a
frame of the handshake. -/
def Warned (d : Deps) (x : Bytes) : Prop :=
  x.length < 4 ∨ ∃ seg rest, x = seg ++ rest ∧
    ((∃ plan, IsFrame ControlFrame d seg (.plan plan)) ∨
      ∃ accepted reason, IsFrame ControlFrame d seg (.planAck accepted reason))

/-- The stream breaks off between two records, within the next length prefix, or it has
its `StreamEnd` and then breaks off in that way or goes on with a frame of the
handshake. -/
def SilentEnd (d : Deps) (x : Bytes) : Prop :=
  ∃ recs tail, IsRecords d recs ∧ x = recs.flatten ++ tail ∧
    (tail.length < 4 ∨
      ∃ fin rest, IsFrame DataFrame d fin .streamEnd ∧ tail = fin ++ rest ∧ Warned d rest)

theorem IsRecord.length_le {d : Deps} {seg : Bytes} (h : IsRecord d seg) : 4 ≤ seg.length := by
  cases h with
  | chunk hheader _ =>
    have := hheader.length_le
    rw [List.length_append]
    omega
  | itemEnd hseg => exact hseg.length_le

theorem IsRecords.length_le {d : Deps} {recs : List Bytes} (h : IsRecords d recs) :
    recs.length ≤ recs.flatten.length := by
  induction recs with
  | nil => simp
  | cons seg recs ih =>
    have hseg := (h seg List.mem_cons_self).length_le
    have hrest := ih fun seg' hmem => h seg' (List.mem_cons_of_mem seg hmem)
    simp only [List.length_cons, List.flatten_cons, List.length_append]
    omega

/-- A loop of more rounds than the stream has bytes has one left after its records. -/
theorem IsRecords.exists_depth {d : Deps} {recs : List Bytes} {x y : Bytes}
    (h : IsRecords d recs) (hx : x = recs.flatten ++ y) (m : Nat) :
    ∃ n, x.length + 1 + m = recs.length + (n + 1) := by
  have hlen := h.length_le
  have hle : recs.flatten.length ≤ x.length := by
    rw [hx, List.length_append]
    omega
  exact ⟨x.length + m - recs.length, by omega⟩

theorem IsRecords.cons {d : Deps} {seg : Bytes} {recs : List Bytes} (hseg : IsRecord d seg)
    (h : IsRecords d recs) : IsRecords d (seg :: recs) := by
  intro seg' hmem
  rcases List.mem_cons.mp hmem with rfl | hmem
  · exact hseg
  · exact h seg' hmem

/-! ## One `next` call -/

section Feeding

variable {f : (e : Call) → e.Reply} {d : Deps} {x y : Bytes} {l : Calls Call Call.Reply}
variable {p : Progress}

/-- A record is one event, and not the end. -/
theorem feeds_next_record {Q : Bytes → Calls Call Call.Reply → Result ChunkEvent × Progress → Prop}
    {seg : Bytes} (hseg : IsRecord d seg)
    (h : ∀ event p', event ≠ .done → Q y l (.ok event, p')) :
    Proc.feeds f Q ((next d).run p) (seg ++ y) l := by
  simp only [next, Metered.run_bind, Metered.run_monadLift, Proc.bind_assoc, Proc.ret_bind]
  rw [Proc.feeds_bind]
  refine feeds_recvFrame ?_
  cases hseg with
  | @chunk header data itemId offset len hheader hlen =>
    rw [List.append_assoc, hheader.frameOf]
    simp only [Metered.cont_ok, handleFrame, Metered.run_bind, Metered.run_monadLift,
      Proc.bind_assoc, Proc.ret_bind]
    rw [Proc.feeds_bind]
    refine feeds_readExact ?_ ?_
    · intro _
      rw [← hlen, List.take_left, List.drop_left]
      simp only [Metered.cont_ok, ne_eq, not_true_eq_false, if_false, Metered.run_bind,
        Metered.run_count, Metered.run_pure, Proc.ret_bind]
      exact h _ _ (by simp)
    · intro hlt
      rw [List.length_append] at hlt
      omega
  | itemEnd hseg =>
    rw [hseg.frameOf]
    exact h _ _ (by simp)

/-- `StreamEnd` is the end. -/
theorem feeds_next_streamEnd
    {Q : Bytes → Calls Call Call.Reply → Result ChunkEvent × Progress → Prop} {fin : Bytes}
    (hfin : IsFrame DataFrame d fin .streamEnd) (h : Q y l (.ok .done, p)) :
    Proc.feeds f Q ((next d).run p) (fin ++ y) l := by
  simp only [next, Metered.run_bind, Metered.run_monadLift, Proc.bind_assoc, Proc.ret_bind]
  rw [Proc.feeds_bind]
  refine feeds_recvFrame ?_
  rw [hfin.frameOf]
  exact h

/-- So is the end of the stream within a length prefix. -/
theorem feeds_next_short
    {Q : Bytes → Calls Call Call.Reply → Result ChunkEvent × Progress → Prop}
    (hx : x.length < 4) (h : Q [] l (.ok .done, p)) :
    Proc.feeds f Q ((next d).run p) x l := by
  simp only [next, Metered.run_bind, Metered.run_monadLift, Proc.bind_assoc, Proc.ret_bind]
  rw [Proc.feeds_bind]
  refine feeds_recvFrame ?_
  rw [frameOf_eq_none.mpr ⟨hx, rfl⟩]
  exact h

/-- There is nothing else that `next` takes for an event. -/
theorem feeds_next {Q : Bytes → Calls Call Call.Reply → Result ChunkEvent × Progress → Prop}
    (hrecord : ∀ seg y event p', IsRecord d seg → x = seg ++ y → event ≠ .done →
      Q y l (.ok event, p'))
    (hfin : ∀ fin y, IsFrame DataFrame d fin .streamEnd → x = fin ++ y → Q y l (.ok .done, p))
    (hshort : x.length < 4 → Q [] l (.ok .done, p))
    (herr : ∀ y e p', Q y l (.error e, p')) :
    Proc.feeds f Q ((next d).run p) x l := by
  simp only [next, Metered.run_bind, Metered.run_monadLift, Proc.bind_assoc, Proc.ret_bind]
  rw [Proc.feeds_bind]
  refine feeds_recvFrame ?_
  cases hframe : frameOf DataFrame d x with
  | mk r y =>
    cases r with
    | error e => exact herr y e p
    | ok frame =>
      cases frame with
      | none =>
        obtain ⟨hx, rfl⟩ := frameOf_eq_none.mp hframe
        exact hshort hx
      | some frame =>
        obtain ⟨seg, hseg, hx⟩ := isFrame_of_frameOf hframe
        cases frame with
        | streamEnd => exact hfin seg y hseg hx
        | itemEnd itemId total blake3 => exact hrecord seg y _ _ (.itemEnd hseg) hx (by simp)
        | chunkStart itemId offset len blake3 =>
          simp only [Metered.cont_ok, handleFrame, Metered.run_bind, Metered.run_monadLift,
            Proc.bind_assoc, Proc.ret_bind]
          rw [Proc.feeds_bind]
          refine feeds_readExact ?_ fun _ => herr _ _ _
          intro hle
          simp only [Metered.cont_ok]
          split
          · exact herr _ _ _
          case isFalse hdigest =>
            have hlen : (y.take len.toNat).length = len.toNat := by
              rw [List.length_take]
              omega
            rw [Classical.not_not] at hdigest
            rw [← hdigest] at hseg
            refine hrecord _ _ _ _ (.chunk hseg hlen) ?_ (by simp)
            rw [List.append_assoc, List.take_append_drop]
            exact hx

/-! ## The loop -/

variable {Q : Bytes → Calls Call Call.Reply → Result Unit × Progress → Prop}

/-- One round of the loop. -/
theorem feeds_drain_succ {n : Nat}
    (h : Proc.feeds f (fun y l o => Proc.feeds f Q
      (((match o.1 with
        | .ok .done => .ret (.ok ())
        | .ok _ => .drain n
        | .error e => .ret (.error e) : StreamInProg).perform d).run o.2) y
      (l ++ [⟨.mark (.next o.1), ()⟩])) ((next d).run p) x l) :
    Proc.feeds f Q (((StreamInProg.drain (n + 1)).perform d).run p) x l := by
  simp only [StreamInProg.drain, StreamInProg.perform, Metered.run_bind, Metered.run_attempt,
    Metered.run_monadLift, Core.mark, Proc.bind_assoc, Proc.ret_bind, Proc.call_bind,
    Metered.cont_ok]
  rw [Proc.feeds_bind]
  exact h

/-- The loop takes records. -/
theorem feeds_drain_records {recs : List Bytes} {n : Nat} (hrecs : IsRecords d recs)
    (h : ∀ l p, Proc.feeds f Q (((StreamInProg.drain n).perform d).run p) y l) :
    Proc.feeds f Q (((StreamInProg.drain (recs.length + n)).perform d).run p)
      (recs.flatten ++ y) l := by
  induction recs generalizing l p with
  | nil =>
    rw [List.length_nil, Nat.zero_add]
    exact h l p
  | cons seg recs ih =>
    rw [List.length_cons, Nat.add_right_comm, List.flatten_cons, List.append_assoc]
    refine feeds_drain_succ (feeds_next_record (hrecs seg List.mem_cons_self) ?_)
    intro event p' hevent
    have hih := ih (l := l ++ [⟨.mark (.next (.ok event)), ()⟩]) (p := p')
      fun seg' hmem => hrecs seg' (List.mem_cons_of_mem seg hmem)
    cases event with
    | chunk itemId offset data => exact hih
    | itemEnd itemId total blake3 => exact hih
    | done => exact absurd rfl hevent

/-- The loop ends well only between two records: at `StreamEnd`, or where the stream
ends. -/
theorem feeds_drain {n : Nat} (hn : x.length < n)
    (hshort : ∀ recs tail l p, IsRecords d recs → x = recs.flatten ++ tail → tail.length < 4 →
      Q [] l (.ok (), p))
    (hfin : ∀ recs fin y l p, IsRecords d recs → IsFrame DataFrame d fin .streamEnd →
      x = recs.flatten ++ (fin ++ y) → Q y l (.ok (), p))
    (herr : ∀ y l e p, Q y l (.error e, p)) :
    Proc.feeds f Q (((StreamInProg.drain n).perform d).run p) x l := by
  induction n generalizing x l p with
  | zero => omega
  | succ n ih =>
    refine feeds_drain_succ (feeds_next ?_ ?_ ?_ ?_)
    · intro seg y event p' hseg hx hevent
      have hlen := hseg.length_le
      have hih : Proc.feeds f Q (((StreamInProg.drain n).perform d).run p') y
          (l ++ [⟨.mark (.next (.ok event)), ()⟩]) := by
        refine ih ?_ ?_ ?_
        · rw [hx, List.length_append] at hn
          omega
        · intro recs tail l p hrecs hy htail
          refine hshort (seg :: recs) tail l p (.cons hseg hrecs) ?_ htail
          rw [hx, hy, List.flatten_cons, List.append_assoc]
        · intro recs fin y' l p hrecs hfin' hy
          refine hfin (seg :: recs) fin y' l p (.cons hseg hrecs) hfin' ?_
          rw [hx, hy, List.flatten_cons, List.append_assoc]
      cases event with
      | chunk itemId offset data => exact hih
      | itemEnd itemId total blake3 => exact hih
      | done => exact absurd rfl hevent
    · intro fin y hfin' hx
      exact hfin [] fin y _ _ (fun seg hmem => by simp at hmem) hfin' hx
    · intro hx
      exact hshort [] x _ _ (fun seg hmem => by simp at hmem) rfl hx
    · intro y e p'
      exact herr y _ e p'

end Feeding

/-! ## The whole destination -/

/-- What the completion match returns. -/
def completionOf (plan : BackupPlan) : Result (Option ControlFrame) → Result BackupPlan
  | .error e => .error e
  | .ok (some (.abort reason)) => .error (.inPhase .apply s!"source aborted: {reason}")
  | .ok _ => .ok plan

/-- What the completion match leaves in the record. -/
def completionNotes : Result (Option ControlFrame) → Calls Call Call.Reply
  | .error _ => []
  | .ok (some (.abort _)) => []
  | .ok (some (.done n _)) => [⟨.mark (.restoreComplete n), ()⟩]
  | .ok _ => [⟨.mark .unexpectedCompletion, ()⟩]

section Destination

variable {d : Deps} {fp : String} {plan : BackupPlan} {preflight : Preflight} {seg x : Bytes}
variable {q : Progress} {l : Calls Call Call.Reply}
variable {Q : Bytes → Calls Call Call.Reply → Result BackupPlan × Progress → Prop}

/-- The plan arrives and is approved. -/
theorem feeds_handshake {streamIn : BackupPlan → StreamInProg}
    (hseg : IsFrame ControlFrame d seg (.plan plan)) (hok : preflight.ok = true)
    (h : Proc.feeds (replies fp plan preflight true) Q ((applyPayload d streamIn plan).run q) x
      (decisionNotes plan preflight true ++ [⟨.flush, true⟩])) :
    Proc.feeds (replies fp plan preflight true) Q ((runDestination d streamIn).run q)
      (seg ++ x) [] := by
  rw [runDestination_eq]
  simp only [openStream, recvPlan, Metered.run_bind, Metered.run_monadLift, Proc.call_bind,
    Proc.ret_bind, Proc.feeds, replies, Metered.cont_ok, Task.run_bind, Proc.bind_assoc]
  rw [Proc.feeds_bind]
  refine feeds_recvFrame ?_
  rw [hseg.frameOf]
  simp only [Task.cont_ok, Task.run_ok, Proc.ret_bind, Metered.cont_ok, Metered.run_bind,
    Metered.run_monadLift, validate, decideApproval, accept, Proc.call_bind, Proc.feeds, replies,
    if_pos hok, answer, sendAck, Proc.bind_assoc]
  rw [Proc.feeds_bind]
  refine feeds_sendFrame (fits_planAck d preflight true) rfl ?_
  rw [decisionNotes, if_pos hok] at h
  exact h

/-- `stream_in`, and then the completion frame. -/
theorem feeds_applyPayload {f : (e : Call) → e.Reply} {streamIn : BackupPlan → StreamInProg}
    (h : ∀ l, Proc.feeds f (fun y l o => ∀ l', match o.1 with
      | .ok _ => Proc.feeds f Q ((do
          let frame ← recvFrame ControlFrame d
          complete plan frame : Metered BackupPlan).run o.2) y (l ++ l')
      | .error e => Q y (l ++ l') (.error e, o.2)) (((streamIn plan).perform d).run q) x l) :
    Proc.feeds f Q ((applyPayload d streamIn plan).run q) x l := by
  simp only [applyPayload, Core.mark, Metered.run_bind, Metered.run_monadLift, Proc.call_bind,
    Proc.ret_bind, Metered.cont_ok, Metered.run_attempt, Proc.bind_assoc, Proc.feeds]
  rw [Proc.feeds_bind]
  refine Proc.feeds_mono ?_ (h _)
  rintro y l' ⟨r, p'⟩ ho
  cases r with
  | error e => exact ho _
  | ok _ => exact ho _

/-- The completion match takes the first frame of what is left. -/
theorem feeds_completion {f : (e : Call) → e.Reply}
    (h : Q (frameOf ControlFrame d x).2 (l ++ completionNotes (frameOf ControlFrame d x).1)
      (completionOf plan (frameOf ControlFrame d x).1, q)) :
    Proc.feeds f Q ((do
      let frame ← recvFrame ControlFrame d
      complete plan frame : Metered BackupPlan).run q) x l := by
  simp only [Metered.run_bind, Metered.run_monadLift, Proc.bind_assoc, Proc.ret_bind]
  rw [Proc.feeds_bind]
  refine feeds_recvFrame ?_
  cases hframe : frameOf ControlFrame d x with
  | mk r y =>
    rw [hframe] at h
    cases r with
    | error e =>
      rw [completionNotes, List.append_nil] at h
      exact h
    | ok frame =>
      cases frame with
      | none => exact h
      | some frame =>
        cases frame with
        | plan plan' => exact h
        | planAck accepted reason => exact h
        | done total blake3 => exact h
        | abort reason =>
          rw [completionNotes, List.append_nil] at h
          exact h

/-- `Done` completes the restore. -/
theorem feeds_complete_done {f : (e : Call) → e.Reply} {don y : Bytes} {total : UInt64}
    {blake3 : String} (hdon : IsFrame ControlFrame d don (.done total blake3))
    (h : Q y (l ++ [⟨.mark (.restoreComplete total), ()⟩]) (.ok plan, q)) :
    Proc.feeds f Q ((do
      let frame ← recvFrame ControlFrame d
      complete plan frame : Metered BackupPlan).run q) (don ++ y) l := by
  refine feeds_completion ?_
  rw [hdon.frameOf]
  exact h

/-- Other ends are only warned about. -/
theorem feeds_complete_warned {f : (e : Call) → e.Reply} (hx : Warned d x)
    (h : ∀ y, Q y (l ++ [⟨.mark .unexpectedCompletion, ()⟩]) (.ok plan, q)) :
    Proc.feeds f Q ((do
      let frame ← recvFrame ControlFrame d
      complete plan frame : Metered BackupPlan).run q) x l := by
  refine feeds_completion ?_
  rcases hx with hx | ⟨seg, rest, rfl, ⟨plan', hseg⟩ | ⟨accepted, reason, hseg⟩⟩
  · rw [frameOf_eq_none.mpr ⟨hx, rfl⟩]
    exact h []
  · rw [hseg.frameOf]
    exact h rest
  · rw [hseg.frameOf]
    exact h rest

/-- The completion match succeeds in no other case. -/
theorem feeds_complete {f : (e : Call) → e.Reply}
    (hdone : ∀ don y total blake3 l, IsFrame ControlFrame d don (.done total blake3) →
      x = don ++ y → Q y l (.ok plan, q))
    (hwarned : ∀ y l, Warned d x → Q y l (.ok plan, q)) (herr : ∀ y l e, Q y l (.error e, q)) :
    Proc.feeds f Q ((do
      let frame ← recvFrame ControlFrame d
      complete plan frame : Metered BackupPlan).run q) x l := by
  refine feeds_completion ?_
  cases hframe : frameOf ControlFrame d x with
  | mk r y =>
    cases r with
    | error e => exact herr y _ e
    | ok frame =>
      cases frame with
      | none => exact hwarned y _ (.inl (frameOf_eq_none.mp hframe).1)
      | some frame =>
        obtain ⟨seg, hseg, hx⟩ := isFrame_of_frameOf hframe
        cases frame with
        | plan plan' => exact hwarned y _ (.inr ⟨seg, y, hx, .inl ⟨plan', hseg⟩⟩)
        | planAck accepted reason =>
          exact hwarned y _ (.inr ⟨seg, y, hx, .inr ⟨accepted, reason, hseg⟩⟩)
        | done total blake3 => exact hdone seg y total blake3 _ hseg hx
        | abort reason => exact herr y _ _

/-- A draining destination on the stream `x` after its decision. -/
abbrev drained (d : Deps) (x : Bytes) (m : Nat) (q : Progress) :
    Proc Call Call.Reply (Result BackupPlan × Progress) :=
  (runDestination d fun _ => .drain (x.length + 1 + m)).run q

/-- On a complete stream it returns `Ok`, having read all of it. -/
theorem feeds_of_completed {rest : Bytes} {recs : List Bytes} {fin don : Bytes} {m : Nat}
    (hseg : IsFrame ControlFrame d seg (.plan plan)) (hok : preflight.ok = true)
    (h : CompletedWith d x rest recs fin don) :
    Proc.feeds (replies fp plan preflight true) (fun y l o => y = rest ∧ o.1 = .ok plan ∧
      ∃ n, l.getLast? = some ⟨.mark (.restoreComplete n), ()⟩) (drained d x m q) (seg ++ x) [] := by
  obtain ⟨total, blake3, hdon⟩ := h.done
  obtain ⟨n, hn⟩ := h.records.exists_depth h.eq m
  refine feeds_handshake hseg hok (feeds_applyPayload fun l => ?_)
  rw [hn, h.eq]
  refine feeds_drain_records h.records fun l p => ?_
  refine feeds_drain_succ (feeds_next_streamEnd h.streamEnd fun l' => ?_)
  exact feeds_complete_done hdon ⟨rfl, rfl, total, List.getLast?_concat⟩

/-- On a stream that ends silently it returns `Ok` too. -/
theorem feeds_of_silentEnd {m : Nat} (hseg : IsFrame ControlFrame d seg (.plan plan))
    (hok : preflight.ok = true) (h : SilentEnd d x) :
    Proc.feeds (replies fp plan preflight true) (fun _ l o => o.1 = .ok plan ∧
      l.getLast? = some ⟨.mark .unexpectedCompletion, ()⟩) (drained d x m q) (seg ++ x) [] := by
  obtain ⟨recs, tail, hrecs, hx, htail⟩ := h
  obtain ⟨n, hn⟩ := hrecs.exists_depth hx m
  refine feeds_handshake hseg hok (feeds_applyPayload fun l => ?_)
  rw [hn, hx]
  refine feeds_drain_records hrecs fun l p => feeds_drain_succ ?_
  rcases htail with hshort | ⟨fin, rest, hfin, rfl, hwarned⟩
  · refine feeds_next_short hshort fun l' => ?_
    exact feeds_complete_warned (.inl (by simp)) fun y => ⟨rfl, List.getLast?_concat⟩
  · refine feeds_next_streamEnd hfin fun l' => ?_
    exact feeds_complete_warned hwarned fun y => ⟨rfl, List.getLast?_concat⟩

/-- It returns `Ok` on no other stream. -/
theorem feeds_ok_only (fp : String) (x : Bytes) (q : Progress) (m : Nat)
    (hseg : IsFrame ControlFrame d seg (.plan plan)) (hok : preflight.ok = true) :
    Proc.feeds (replies fp plan preflight true)
      (fun _ _ o => (∃ plan', o.1 = .ok plan') → Completed d x ∨ SilentEnd d x)
      (drained d x m q) (seg ++ x) [] := by
  refine feeds_handshake hseg hok (feeds_applyPayload fun l => ?_)
  refine feeds_drain (by omega) ?_ ?_ ?_
  · intro recs tail l p hrecs hx htail l'
    have hsilent : SilentEnd d x := ⟨recs, tail, hrecs, hx, .inl htail⟩
    exact feeds_complete_warned (.inl (by simp)) fun _ _ => .inr hsilent
  · intro recs fin y l p hrecs hfin hx l'
    refine feeds_complete ?_ ?_ ?_
    · intro don y' total blake3 l'' hdon hy _
      rw [hy] at hx
      exact .inl ⟨y', recs, fin, don, hrecs, hfin, ⟨total, blake3, hdon⟩, hx⟩
    · intro y' l'' hwarned _
      exact .inr ⟨recs, fin ++ y, hrecs, hx, .inr ⟨fin, y, hfin, rfl, hwarned⟩⟩
    · rintro y' l'' e ⟨plan', hplan⟩
      cases hplan
  · rintro y l e p l' ⟨plan', hplan⟩
    cases hplan

end Destination

/-! ## No stream is both -/

/-- Two complete readings of a stream end at the same byte. -/
theorem CompletedWith.rest_eq {d : Deps} {x rest rest' : Bytes} {recs recs' : List Bytes}
    {fin fin' don don' : Bytes} (h : CompletedWith d x rest recs fin don)
    (h' : CompletedWith d x rest' recs' fin' don') : rest = rest' := by
  have hseg := isFrame_frameBytes (fits_samplePlan d) (decode_samplePlan d)
  obtain ⟨o, y, l, hfed⟩ := Proc.exists_fed (f := replies "" samplePlan .pass true)
    (coalescing_runDestination d (fun _ => .drain (x.length + 1 + 0)) .fresh)
    (frameBytes d (ControlFrame.plan samplePlan) ++ x) []
  have h₁ := (Proc.feeds_iff _ _ _).mp (feeds_of_completed hseg rfl h) _ _ _ hfed
  have h₂ := (Proc.feeds_iff _ _ _).mp (feeds_of_completed hseg rfl h') _ _ _ hfed
  rw [← h₁.1, ← h₂.1]

theorem SilentEnd.not_completed {d : Deps} {x : Bytes} (h : SilentEnd d x) : ¬ Completed d x := by
  rintro ⟨rest, recs, fin, don, hcomplete⟩
  have hseg := isFrame_frameBytes (fits_samplePlan d) (decode_samplePlan d)
  obtain ⟨o, y, l, hfed⟩ := Proc.exists_fed (f := replies "" samplePlan .pass true)
    (coalescing_runDestination d (fun _ => .drain (x.length + 1 + 0)) .fresh)
    (frameBytes d (ControlFrame.plan samplePlan) ++ x) []
  have hlast := ((Proc.feeds_iff _ _ _).mp (feeds_of_silentEnd hseg rfl h) _ _ _ hfed).2
  obtain ⟨-, -, n, hlast'⟩ :=
    (Proc.feeds_iff _ _ _).mp (feeds_of_completed hseg rfl hcomplete) _ _ _ hfed
  rw [hlast] at hlast'
  cases hlast'

/-! ## What a source sends -/

/-- The bytes a source whose sink calls `cs` passed the size checks sends after the
decision. -/
def honest (d : Deps) (cs : List SinkCall) (n : UInt64) : Bytes :=
  wire d (cs ++ [.finish]) ++ frameBytes d (ControlFrame.done n "")

theorem isRecord_bytes {d : Deps} {c : SinkCall} (hfits : c.Fits d) (hc : c ≠ .finish) :
    IsRecord d (c.bytes d) := by
  have hframe := isFrame_frameBytes hfits.2 (decode_encode_data d (c.frame d))
  cases c with
  | sendChunk itemId offset data =>
    have hle : data.length ≤ CHUNK_SIZE := hfits.1
    refine .chunk hframe ?_
    exact (UInt32.toNat_ofNat_of_lt' (Nat.lt_of_le_of_lt hle (by decide))).symm
  | finishItem itemId total blake3 =>
    rw [SinkCall.bytes, SinkCall.payload, List.append_nil]
    exact .itemEnd hframe
  | finish => exact absurd rfl hc

theorem completedWith_honest {d : Deps} {cs : List SinkCall} {n : UInt64}
    (hcs : ∀ c ∈ cs, c.Fits d ∧ c ≠ .finish) :
    CompletedWith d (honest d cs n) [] (cs.map (SinkCall.bytes d))
      (frameBytes d DataFrame.streamEnd) (frameBytes d (ControlFrame.done n "")) := by
  refine ⟨?_, isFrame_frameBytes (fits_streamEnd d) (decode_encode_data d _),
    ⟨n, "", isFrame_frameBytes (fits_done d n) (decode_encode_done d n "")⟩, ?_⟩
  · intro seg hmem
    obtain ⟨c, hc, rfl⟩ := List.mem_map.mp hmem
    exact isRecord_bytes (hcs c hc).1 (hcs c hc).2
  · have hfinish : SinkCall.finish.bytes d = frameBytes d DataFrame.streamEnd :=
      List.append_nil _
    rw [honest, wire_concat, hfinish, List.append_nil, List.append_assoc, wire,
      List.flatMap_def]

/-- A stream that breaks off before the end of what a source sends is not complete. -/
theorem not_completed_of_cut {d : Deps} {cs : List SinkCall} {n : UInt64} {x : Bytes}
    (hcs : ∀ c ∈ cs, c.Fits d ∧ c ≠ .finish) (hpre : x <+: honest d cs n)
    (hne : x ≠ honest d cs n) : ¬ Completed d x := by
  rintro ⟨rest, recs, fin, don, hcomplete⟩
  obtain ⟨z, hz⟩ := hpre
  have hwhole : CompletedWith d (honest d cs n) (rest ++ z) recs fin don := by
    refine ⟨hcomplete.records, hcomplete.streamEnd, hcomplete.done, ?_⟩
    rw [← hz, hcomplete.eq]
    simp only [List.append_assoc]
  have hrest := hwhole.rest_eq (completedWith_honest hcs)
  rw [(List.append_eq_nil_iff.mp hrest).2, List.append_nil] at hz
  exact hne hz

/-! ## No silent truncation, and its exact condition -/

/-- A draining destination returns `Ok` on complete streams only, if and only if the
stream does not end silently; and it reports a stream that breaks off before the end
of what a source sends under the same condition. -/
theorem truncation_detected {d : Deps} {fp : String} {plan : BackupPlan}
    {preflight : Preflight} {seg x : Bytes} {q : Progress} {m : Nat}
    (hseg : IsFrame ControlFrame d seg (.plan plan)) (hok : preflight.ok = true) :
    ((∀ o y l, Fed (replies fp plan preflight true) (drained d x m q) (seg ++ x) [] o y l →
        (∃ plan', o.1 = .ok plan') → Completed d x) ↔ ¬ SilentEnd d x) ∧
    ∀ cs n, (∀ c ∈ cs, c.Fits d ∧ c ≠ .finish) → x <+: honest d cs n → x ≠ honest d cs n →
      ((∀ o y l, Fed (replies fp plan preflight true) (drained d x m q) (seg ++ x) [] o y l →
        ∃ e, o.1 = .error e) ↔ ¬ SilentEnd d x) := by
  obtain ⟨o₀, y₀, l₀, hfed₀⟩ := Proc.exists_fed (f := replies fp plan preflight true)
    (coalescing_runDestination d (fun _ => .drain (x.length + 1 + m)) q) (seg ++ x) []
  have hsilentOk : SilentEnd d x → o₀.1 = .ok plan := fun h =>
    ((Proc.feeds_iff _ _ _).mp (feeds_of_silentEnd hseg hok h) _ _ _ hfed₀).1
  have honly := (Proc.feeds_iff _ _ _).mp (feeds_ok_only fp x q m hseg hok)
  refine ⟨⟨?_, ?_⟩, ?_⟩
  · intro h hsilent
    exact hsilent.not_completed (h o₀ y₀ l₀ hfed₀ ⟨plan, hsilentOk hsilent⟩)
  · intro hsilent o y l hfed hret
    exact (honly o y l hfed hret).resolve_right hsilent
  · intro cs n hcs hpre hne
    refine ⟨?_, ?_⟩
    · intro h hsilent
      obtain ⟨e, he⟩ := h o₀ y₀ l₀ hfed₀
      rw [hsilentOk hsilent] at he
      cases he
    · intro hsilent o y l hfed
      cases hret : o.1 with
      | error e => exact ⟨e, rfl⟩
      | ok plan' =>
        rcases honly o y l hfed ⟨plan', hret⟩ with hcomplete | hs
        · exact absurd hcomplete (not_completed_of_cut hcs hpre hne)
        · exact absurd hs hsilent

/-- The stream that ends right after the decision. -/
theorem silentEnd_nil (d : Deps) : SilentEnd d [] :=
  ⟨[], [], fun seg hmem => by simp at hmem, rfl, .inl (by simp)⟩

/-- A destination whose peer goes away right after the decision returns `Ok`. -/
theorem truncated_stream_accepted :
    ∃ o y l, Fed (replies "before" samplePlan .pass true) (drained sampleDeps [] 0 .fresh)
        (frameBytes sampleDeps (ControlFrame.plan samplePlan) ++ []) [] o y l ∧
      o.1 = .ok samplePlan ∧ ¬ Completed sampleDeps [] := by
  have hseg := isFrame_frameBytes (fits_samplePlan sampleDeps) (decode_samplePlan sampleDeps)
  obtain ⟨o, y, l, hfed⟩ := Proc.exists_fed (f := replies "before" samplePlan .pass true)
    (coalescing_runDestination sampleDeps (fun _ => .drain (([] : Bytes).length + 1 + 0)) .fresh)
    (frameBytes sampleDeps (ControlFrame.plan samplePlan) ++ []) []
  have hfeeds := @feeds_of_silentEnd sampleDeps "before" samplePlan .pass _ [] .fresh 0 hseg rfl
    (silentEnd_nil sampleDeps)
  have hsilent := (Proc.feeds_iff _ _ _).mp hfeeds _ _ _ hfed
  exact ⟨o, y, l, hfed, hsilent.1, (silentEnd_nil sampleDeps).not_completed⟩

/-- A length prefix whose body is missing is not the beginning of a frame. -/
theorem IsFrame.not_prefix {F : Type} [Frame F] {d : Deps} {seg : Bytes} {frame : F}
    (h : IsFrame F d seg frame) : ¬ seg <+: [1, 0, 0, 0] := by
  intro hpre
  have heq : seg = [1, 0, 0, 0] := hpre.eq_of_length_le h.length_le
  obtain ⟨body, -, -, rfl⟩ := h
  have hbody : body = [] := by
    have := congrArg List.length heq
    rw [List.length_append, length_leBytes] at this
    exact List.length_eq_zero_iff.mp (by simpa using this)
  rw [hbody] at heq
  exact absurd heq (by decide)

theorem isRecords_eq_nil {d : Deps} {recs : List Bytes} (h : IsRecords d recs) {y : Bytes}
    (heq : [1, 0, 0, 0] = recs.flatten ++ y) : recs = [] := by
  cases recs with
  | nil => rfl
  | cons seg recs =>
    have hpre : seg <+: [1, 0, 0, 0] := by
      rw [heq, List.flatten_cons, List.append_assoc]
      exact List.prefix_append _ _
    cases h seg List.mem_cons_self with
    | chunk hheader _ => exact absurd ((List.prefix_append _ _).trans hpre) hheader.not_prefix
    | itemEnd hseg => exact absurd hpre hseg.not_prefix

/-- A stream that breaks off inside its first frame is reported. -/
theorem truncation_detected_sample :
    ∃ o y l e, Fed (replies "before" samplePlan .pass true)
        (drained sampleDeps [1, 0, 0, 0] 0 .fresh)
        (frameBytes sampleDeps (ControlFrame.plan samplePlan) ++ [1, 0, 0, 0]) [] o y l ∧
      o.1 = .error e := by
  have hseg := isFrame_frameBytes (fits_samplePlan sampleDeps) (decode_samplePlan sampleDeps)
  have hloud : ¬ SilentEnd sampleDeps [1, 0, 0, 0] := by
    rintro ⟨recs, tail, hrecs, heq, htail⟩
    rw [isRecords_eq_nil hrecs heq, List.flatten_nil, List.nil_append] at heq
    rw [← heq] at htail
    rcases htail with hlen | ⟨fin, rest, hfin, hx, -⟩
    · simp at hlen
    · refine hfin.not_prefix ?_
      rw [hx]
      exact List.prefix_append _ _
  obtain ⟨o, y, l, hfed⟩ := Proc.exists_fed (f := replies "before" samplePlan .pass true)
    (coalescing_runDestination sampleDeps (fun _ => .drain (([1, 0, 0, 0] : Bytes).length + 1 + 0))
      .fresh) (frameBytes sampleDeps (ControlFrame.plan samplePlan) ++ [1, 0, 0, 0]) []
  have honly := (@truncation_detected sampleDeps "before" samplePlan .pass _ [1, 0, 0, 0] .fresh 0
    hseg rfl).1.mpr hloud o y l hfed
  cases hret : o.1 with
  | error e => exact ⟨o, y, l, e, hfed, hret⟩
  | ok plan' =>
    obtain ⟨rest, recs, fin, don, hcomplete⟩ := honly ⟨plan', hret⟩
    have hx := hcomplete.eq
    rw [isRecords_eq_nil hcomplete.records hx, List.flatten_nil, List.nil_append] at hx
    refine absurd ?_ hcomplete.streamEnd.not_prefix
    rw [hx]
    exact List.prefix_append _ _

end RustBackup.Core
