/-
  Core/Framing.lean --- what `send_frame` and `recv_frame` do to the byte stream.

  The bytes of a frame are a grammar, `IsFrame`, and reading one is a pure
  function, `frameOf`, sound and complete for it.  The two functions get one lemma
  per way of reasoning: on a finite stream (`feeds_recvFrame`), against each other
  in a synchronous run (`sync_sendFrame_recvFrame`), and on every run in any
  environment (`wp_sendFrame`, `wp_recvFrame`).  The last two say what a stretch
  of history can be: `Sent` and `Received`.
-/
import RustBackup.Core.Wire
import RustBackup.Io.Solo

set_option autoImplicit false

namespace RustBackup.Core

open RustBackup.Serde RustBackup.Io

variable {F F' : Type} [Frame F] [Frame F']

/-! ## Codec facts -/

theorem length_leBytes (n : Nat) : (leBytes n).length = 4 := rfl

theorem fromLeBytes_leBytes {n : Nat} (h : n < 2 ^ 32) : fromLeBytes (leBytes n) = n := by
  simp only [fromLeBytes, leBytes, List.getD_cons_zero, List.getD_cons_succ,
    UInt8.toNat_ofNat']
  omega

theorem leBytes_fromLeBytes {b : Bytes} (h : b.length = 4) : leBytes (fromLeBytes b) = b := by
  match b, h with
  | [b₀, b₁, b₂, b₃], _ =>
    have h₀ := b₀.toNat_lt
    have h₁ := b₁.toNat_lt
    have h₂ := b₂.toNat_lt
    have h₃ := b₃.toNat_lt
    have hbyte : ∀ (n : Nat) (c : UInt8), n % 2 ^ 8 = c.toNat → UInt8.ofNat n = c := by
      intro n c hc
      rw [← UInt8.toNat_inj, UInt8.toNat_ofNat']
      exact hc
    simp only [leBytes, fromLeBytes, List.getD_cons_zero, List.getD_cons_succ]
    rw [hbyte _ b₀ (by omega), hbyte _ b₁ (by omega), hbyte _ b₂ (by omega),
      hbyte _ b₃ (by omega)]

theorem decode_encode_data (d : Deps) (f : DataFrame) :
    decode DataFrame d (encode d f) = some f := by
  have hp := d.json.parse_print f.serialize f.plain_serialize
  show (d.json.parse (d.json.print f.serialize)).bind DataFrame.deserialize = some f
  rw [hp]
  exact DataFrame.deserialize_serialize f

/-- A control frame is read back when its JSON is. -/
theorem decode_encode_control (d : Deps) (f : ControlFrame)
    (hp : d.json.parse (encode d f) = some f.serialize) :
    decode ControlFrame d (encode d f) = some f := by
  show (d.json.parse (encode d f)).bind ControlFrame.deserialize = some f
  rw [hp]
  exact ControlFrame.deserialize_serialize f

theorem plain_planAck (accepted : Bool) (reason : String) :
    (ControlFrame.planAck accepted reason).serialize.Plain := by
  refine ⟨⟨⟨trivial, trivial, trivial⟩, trivial⟩, ?_⟩
  show 2 ≤ 127
  decide

theorem plain_done (totalBytes : UInt64) (blake3 : String) :
    (ControlFrame.done totalBytes blake3).serialize.Plain := by
  refine ⟨⟨⟨Json.exact_int_of_lt totalBytes.toNat_lt, trivial, trivial⟩, trivial⟩, ?_⟩
  show 2 ≤ 127
  decide

theorem decode_encode_planAck (d : Deps) (accepted : Bool) (reason : String) :
    decode ControlFrame d (encode d (ControlFrame.planAck accepted reason)) =
      some (.planAck accepted reason) :=
  decode_encode_control d _ (d.json.parse_print _ (plain_planAck accepted reason))

theorem decode_encode_done (d : Deps) (totalBytes : UInt64) (blake3 : String) :
    decode ControlFrame d (encode d (ControlFrame.done totalBytes blake3)) =
      some (.done totalBytes blake3) :=
  decode_encode_control d _ (d.json.parse_print _ (plain_done totalBytes blake3))

/-- The two families do not overlap: no data frame has a variant name of a control
frame. -/
theorem deserialize_control_of_data (f : DataFrame) :
    ControlFrame.deserialize f.serialize = none := by
  cases f with
  | chunkStart itemId offset len blake3 =>
    simp [ControlFrame.deserialize, DataFrame.serialize, Json.variant]
  | itemEnd itemId total blake3 =>
    simp [ControlFrame.deserialize, DataFrame.serialize, Json.variant]
  | streamEnd => rfl

theorem decode_control_of_data (d : Deps) (f : DataFrame) :
    decode ControlFrame d (encode d f) = none := by
  have hp := d.json.parse_print f.serialize f.plain_serialize
  show (d.json.parse (d.json.print f.serialize)).bind ControlFrame.deserialize = none
  rw [hp]
  exact deserialize_control_of_data f

theorem decode_data_of_done (d : Deps) (totalBytes : UInt64) (blake3 : String) :
    decode DataFrame d (encode d (ControlFrame.done totalBytes blake3)) = none := by
  have hp := d.json.parse_print _ (plain_done totalBytes blake3)
  show (d.json.parse (d.json.print (ControlFrame.done totalBytes blake3).serialize)).bind
    DataFrame.deserialize = none
  rw [hp]
  simp [DataFrame.deserialize, ControlFrame.serialize, Json.variant]

/-! ## Frames as bytes -/

/-- The bytes of a frame on the wire. -/
def frameBytes (d : Deps) (frame : F) : Bytes :=
  leBytes (encode d frame).length ++ encode d frame

/-- The frame passes the size check of `send_frame`. -/
def Fits (d : Deps) (frame : F) : Prop := (encode d frame).length ≤ FRAME_LIMIT

instance (d : Deps) (frame : F) : Decidable (Fits d frame) :=
  inferInstanceAs (Decidable (_ ≤ _))

theorem Fits.lt {d : Deps} {frame : F} (h : Fits d frame) :
    (encode d frame).length < 2 ^ 32 :=
  Nat.lt_of_le_of_lt h (by decide)

theorem length_frameBytes (d : Deps) (frame : F) :
    (frameBytes d frame).length = 4 + (encode d frame).length := by
  simp [frameBytes, length_leBytes]

/-- What `recv_frame` returns on the stream `x` followed by end of stream, and
what it leaves unread. -/
def frameOf (F : Type) [Frame F] (d : Deps) (x : Bytes) : Result (Option F) × Bytes :=
  if x.length < 4 then (.ok none, [])
  else
    let len := fromLeBytes (x.take 4)
    let y := x.drop 4
    if FRAME_LIMIT < len then (.error (.inPhase .transfer "incoming frame too large"), y)
    else if y.length < len then
      (.error (.inPhase .transfer "unexpected EOF mid-frame"), [])
    else
      match decode F d (y.take len) with
      | some frame => (.ok (some frame), y.drop len)
      | none => (.error (.phaseSrc .transfer "frame deserialize" .json), y.drop len)

/-- A stream that starts with a complete body of an admissible length. -/
theorem frameOf_body (d : Deps) {body : Bytes} (hlen : body.length ≤ FRAME_LIMIT)
    (rest : Bytes) :
    frameOf F d (leBytes body.length ++ body ++ rest) =
      match decode F d body with
      | some frame => (.ok (some frame), rest)
      | none => (.error (.phaseSrc .transfer "frame deserialize" .json), rest) := by
  have h4 : ¬ (leBytes body.length ++ body ++ rest).length < 4 := by
    rw [List.append_assoc, List.length_append, length_leBytes]
    omega
  have htake : (leBytes body.length ++ body ++ rest).take 4 = leBytes body.length := by
    rw [List.append_assoc, List.take_append_of_le_length (by rw [length_leBytes]),
      List.take_of_length_le (by rw [length_leBytes])]
  have hdrop : (leBytes body.length ++ body ++ rest).drop 4 = body ++ rest := by
    rw [List.append_assoc, List.drop_append_of_le_length (by rw [length_leBytes])]
    rfl
  have hle : fromLeBytes (leBytes body.length) = body.length :=
    fromLeBytes_leBytes (Nat.lt_of_le_of_lt hlen (by decide))
  rw [frameOf, if_neg h4]
  simp only [htake, hdrop, hle, if_neg (Nat.not_lt.mpr hlen)]
  rw [if_neg (by simp)]
  simp

/-- A stream that starts with a frame `send_frame` wrote. -/
theorem frameOf_frameBytes (d : Deps) {frame : F'} (hfits : Fits d frame) (rest : Bytes) :
    frameOf F d (frameBytes d frame ++ rest) =
      match decode F d (encode d frame) with
      | some g => (.ok (some g), rest)
      | none => (.error (.phaseSrc .transfer "frame deserialize" .json), rest) :=
  frameOf_body d hfits rest

/-! ## The grammar of frames -/

/-- `seg` is a well-formed frame that reads as `frame`. -/
def IsFrame (F : Type) [Frame F] (d : Deps) (seg : Bytes) (frame : F) : Prop :=
  ∃ body, body.length ≤ FRAME_LIMIT ∧ decode F d body = some frame ∧
    seg = leBytes body.length ++ body

theorem isFrame_frameBytes {d : Deps} {frame : F'} {frame' : F} (hfits : Fits d frame)
    (hdec : decode F d (encode d frame) = some frame') :
    IsFrame F d (frameBytes d frame) frame' :=
  ⟨encode d frame, hfits, hdec, rfl⟩

theorem IsFrame.length_le {d : Deps} {seg : Bytes} {frame : F} (h : IsFrame F d seg frame) :
    4 ≤ seg.length := by
  obtain ⟨body, -, -, rfl⟩ := h
  rw [List.length_append, length_leBytes]
  omega

/-- `recv_frame` misses no frame. -/
theorem IsFrame.frameOf {d : Deps} {seg : Bytes} {frame : F} (h : IsFrame F d seg frame)
    (rest : Bytes) : frameOf F d (seg ++ rest) = (.ok (some frame), rest) := by
  obtain ⟨body, hlen, hdec, rfl⟩ := h
  rw [frameOf_body d hlen, hdec]

/-- `recv_frame` invents no frame. -/
theorem isFrame_of_frameOf {d : Deps} {x y : Bytes} {frame : F}
    (h : frameOf F d x = (.ok (some frame), y)) :
    ∃ seg, IsFrame F d seg frame ∧ x = seg ++ y := by
  rw [Core.frameOf] at h
  split at h
  · simp at h
  case isFalse h4 =>
    have hlen4 : (x.take 4).length = 4 := by rw [List.length_take]; omega
    simp only at h
    split at h
    · simp at h
    case isFalse hlim =>
      split at h
      · simp at h
      case isFalse hle =>
        have hblen : ((x.drop 4).take (fromLeBytes (x.take 4))).length =
            fromLeBytes (x.take 4) := by
          rw [List.length_take]
          omega
        split at h
        case h_1 g hdec =>
          simp only [Prod.mk.injEq, Except.ok.injEq, Option.some.injEq] at h
          obtain ⟨rfl, rfl⟩ := h
          refine ⟨_, ⟨_, ?_, hdec, rfl⟩, ?_⟩
          · rw [hblen]
            omega
          · rw [hblen, leBytes_fromLeBytes hlen4, List.append_assoc, List.take_append_drop,
              List.take_append_drop]
        case h_2 => simp at h

theorem frameOf_eq_none {d : Deps} {x y : Bytes} :
    frameOf F d x = (.ok none, y) ↔ x.length < 4 ∧ y = [] := by
  constructor
  · intro h
    rw [Core.frameOf] at h
    split at h
    case isTrue h4 =>
      simp only [Prod.mk.injEq, true_and] at h
      exact ⟨h4, h.symm⟩
    case isFalse h4 =>
      simp only at h
      split at h
      · simp at h
      · split at h
        · simp at h
        · split at h
          · simp at h
          · simp at h
  · rintro ⟨h4, rfl⟩
    rw [Core.frameOf, if_pos h4]

/-- A frame at the front of a stream is the one `send_frame` wrote there. -/
theorem IsFrame.eq_frameBytes {d : Deps} {seg x y : Bytes} {frame : F} {frame' : F'}
    (h : IsFrame F d seg frame) (hfits : Fits d frame')
    (heq : seg ++ x = frameBytes d frame' ++ y) :
    seg = frameBytes d frame' ∧ decode F d (encode d frame') = some frame ∧ x = y := by
  have h₁ := h.frameOf x
  rw [heq, frameOf_frameBytes d hfits] at h₁
  cases hdec : decode F d (encode d frame') with
  | none => simp [hdec] at h₁
  | some g =>
    simp only [hdec, Prod.mk.injEq, Except.ok.injEq, Option.some.injEq] at h₁
    obtain ⟨rfl, rfl⟩ := h₁
    exact ⟨List.append_cancel_right heq, rfl, rfl⟩

/-! ## No task notices fragmentation -/

theorem coalescing_flush : flush.run.Coalescing := by
  intro r
  cases r with
  | false => exact coalescing_ret _
  | true => exact coalescing_ret _

theorem coalescing_writeAllIdle (buf : Bytes) : (writeAllIdle buf).run.Coalescing :=
  coalescing_writeAll _ _ _ buf

theorem coalescing_readExactIdle (n : Nat) : (readExactIdle n).run.Coalescing :=
  coalescing_readExact _ _ _ n

theorem coalescing_sendFrame (d : Deps) (frame : F) : (sendFrame d frame).run.Coalescing := by
  rw [sendFrame]
  split
  · exact coalescing_ret _
  · refine coalescing_bind (coalescing_writeAllIdle _) fun _ => ?_
    exact coalescing_bind (coalescing_writeAllIdle _) fun _ => coalescing_flush

theorem coalescing_recvFrame (F : Type) [Frame F] (d : Deps) :
    (recvFrame F d).run.Coalescing := by
  refine Proc.Coalescing.bind (coalescing_readExact _ _ _ 4) fun r => ?_
  cases r with
  | error e =>
    cases e with
    | unexpectedEof => exact coalescing_ret _
    | other => exact coalescing_ret _
  | ok b =>
    rw [recvBody]
    split
    · exact coalescing_ret _
    · refine coalescing_bind (coalescing_readExactIdle _) fun body => ?_
      split
      · exact coalescing_ret _
      · exact coalescing_ret _

/-! ## On a finite stream -/

section Feeding

variable {f : (e : Call) → e.Reply} {x : Bytes} {l : Calls Call Call.Reply}

theorem feeds_writeAllIdle {Q : Bytes → Calls Call Call.Reply → Result Unit → Prop}
    {buf : Bytes} (h : Q x l (.ok ())) : Proc.feeds f Q (writeAllIdle buf).run x l :=
  feeds_writeAll h

theorem feeds_sendFrame {Q : Bytes → Calls Call Call.Reply → Result Unit → Prop} {d : Deps}
    {frame : F} (hfits : Fits d frame) (hflush : f .flush = true)
    (h : Q x (l ++ [⟨.flush, f .flush⟩]) (.ok ())) :
    Proc.feeds f Q (sendFrame d frame).run x l := by
  have hlim : ¬ FRAME_LIMIT < (encode d frame).length := Nat.not_lt.mpr hfits
  rw [sendFrame]
  simp only [if_neg hlim, Task.run_bind]
  rw [Proc.feeds_bind]
  refine feeds_writeAllIdle ?_
  simp only [Task.cont_ok, Task.run_bind]
  rw [Proc.feeds_bind]
  refine feeds_writeAllIdle ?_
  simp only [Task.cont_ok, flush, Proc.feeds, hflush]
  simpa only [hflush] using h

/-- However the stream is cut, `recv_frame` answers `frameOf`. -/
theorem feeds_recvFrame {Q : Bytes → Calls Call Call.Reply → Result (Option F) → Prop}
    {d : Deps} (h : Q (frameOf F d x).2 l (frameOf F d x).1) :
    Proc.feeds f Q (recvFrame F d).run x l := by
  rw [recvFrame, Proc.feeds_bind]
  rw [frameOf] at h
  refine feeds_readExact ?_ ?_
  · intro hlen
    rw [if_neg (by omega)] at h
    simp only at h
    simp only [recvBody]
    by_cases hlim : FRAME_LIMIT < fromLeBytes (x.take 4)
    · rw [if_pos hlim] at h ⊢
      exact h
    · rw [if_neg hlim] at h ⊢
      rw [Task.run_bind, Proc.feeds_bind]
      refine feeds_readExact ?_ ?_
      · intro hle
        rw [if_neg (by omega)] at h
        simp only [Task.cont_ok]
        cases hdec : decode F d ((x.drop 4).take (fromLeBytes (x.take 4))) with
        | none =>
          rw [hdec] at h
          exact h
        | some frame =>
          rw [hdec] at h
          exact h
      · intro hlt
        rw [if_pos hlt] at h
        exact h
  · intro hlt
    rw [if_pos hlt] at h
    exact h

end Feeding

/-! ## In a synchronous run -/

section Synchronous

variable {f g : (e : Call) → e.Reply} {α β : Type} {a : α} {b : β}
variable {la lb l l' : Calls Call Call.Reply}

/-- A frame that fits and decodes is handed over. -/
theorem sync_sendFrame_recvFrame {d : Deps} {frame : F} {frame' : F'}
    {k : Result Unit → Proc Call Call.Reply α}
    {k' : Result (Option F') → Proc Call Call.Reply β} (hfits : Fits d frame)
    (hdec : decode F' d (encode d frame) = some frame') (hflush : f .flush = true)
    (h : Sync f g a b la lb (k (.ok ())) (l ++ [⟨.flush, f .flush⟩])
      (k' (.ok (some frame'))) l') :
    Sync f g a b la lb ((sendFrame d frame).run.bind k) l
      ((recvFrame F' d).run.bind k') l' := by
  have hlim : ¬ FRAME_LIMIT < (encode d frame).length := Nat.not_lt.mpr hfits
  rw [sendFrame, recvFrame]
  simp only [if_neg hlim, Task.run_bind, Proc.bind_assoc]
  refine sync_writeAll_readExact (length_leBytes _).symm ?_
  simp only [Task.cont_ok, recvBody, fromLeBytes_leBytes hfits.lt, if_neg hlim, Task.run_bind,
    Proc.bind_assoc]
  refine sync_writeAll_readExact rfl ?_
  simp only [Task.cont_ok, hdec, Task.run_ok, Proc.ret_bind, flush, Proc.call_bind]
  refine .callLeft ?_
  simpa only [hflush, Proc.ret_bind] using h

end Synchronous

/-! ## In one particular run -/

theorem goes_writeAllIdle (buf : Bytes) :
    Goes (writeAllIdle buf).run [] buf [] (.ret (.ok ())) := goes_writeAll buf

theorem goes_readExactIdle (buf : Bytes) :
    Goes (readExactIdle buf.length).run buf [] [] (.ret (.ok buf)) := goes_readExact buf

theorem goes_sendFrame {d : Deps} {frame : F} (hfits : Fits d frame) :
    Goes (sendFrame d frame).run [] (frameBytes d frame) [⟨.flush, true⟩] (.ret (.ok ())) := by
  have hlim : ¬ FRAME_LIMIT < (encode d frame).length := Nat.not_lt.mpr hfits
  rw [sendFrame, if_neg hlim]
  have hflush : Goes flush.run [] [] [⟨.flush, true⟩] (.ret (.ok ())) := by
    rw [flush]
    exact Goes.call (R := Call.Reply) (e := .flush) true (.refl _)
  have hbody : Goes (writeAllIdle (encode d frame) >>= fun _ => flush).run []
      (encode d frame) [⟨.flush, true⟩] (.ret (.ok ())) := by
    have := (goes_writeAllIdle (encode d frame)).andThen (f := Task.cont fun _ => flush) hflush
    rw [Task.run_bind]
    simpa only [List.append_nil, List.nil_append] using this
  exact (goes_writeAllIdle (leBytes (encode d frame).length)).andThen hbody

theorem IsFrame.goes_recvFrame {d : Deps} {seg : Bytes} {frame : F} (h : IsFrame F d seg frame) :
    Goes (recvFrame F d).run seg [] [] (.ret (.ok (some frame))) := by
  obtain ⟨bytes, hlen, hdec, rfl⟩ := h
  have hlim : ¬ FRAME_LIMIT < bytes.length := Nat.not_lt.mpr hlen
  rw [recvFrame]
  refine (goes_readExact (leBytes bytes.length)).andThen ?_
  simp only [recvBody, fromLeBytes_leBytes (Nat.lt_of_le_of_lt hlen (by decide)), if_neg hlim,
    Task.run_bind]
  have hbody := (goes_readExactIdle bytes).bind
    (Task.cont fun body => match decode F d body with
      | some frame => Task.ok (some frame)
      | none => Task.fail (.phaseSrc .transfer "frame deserialize" .json))
  simp only [Proc.ret_bind, Task.cont_ok, hdec, Task.run_ok] at hbody
  exact hbody

theorem goes_recvFrame {d : Deps} {frame : F} {frame' : F'}
    (hfits : Fits d frame) (hdec : decode F' d (encode d frame) = some frame') :
    Goes (recvFrame F' d).run (frameBytes d frame) [] [] (.ret (.ok (some frame'))) :=
  (isFrame_frameBytes hfits hdec).goes_recvFrame

/-! ## In any environment -/

/-- A stretch of history in which the task only sent and flushed, and sent `o`. -/
structure Emits (t : Hist Call Call.Reply) (o : Bytes) : Prop where
  ins : t.ins = []
  outs : t.outs = o
  calls : ∀ c ∈ t.calls, c.1 = .flush

/-- An interaction that makes a send fail. -/
inductive Failing : Act Call Call.Reply → Prop where
  | send (buf : Bytes) {r : WriteRes} (h : r.Failed) : Failing (.send buf r)
  | flush : Failing (.call .flush false)

/-- What the history of an attempt to send `bytes` can be, and its result. -/
inductive Sent (fits : Prop) (bytes : Bytes) : Hist Call Call.Reply → Result Unit → Prop where
  /-- everything was sent -/
  | done {t : Hist Call Call.Reply} (hf : fits) (ht : Emits t bytes) : Sent fits bytes t (.ok ())
  /-- nothing was sent -/
  | refused {e : BackupError} (hf : ¬ fits) : Sent fits bytes [] (.error e)
  /-- an interaction failed after `o` was sent -/
  | broken {t : Hist Call Call.Reply} {o : Bytes} {a : Act Call Call.Reply} {e : BackupError}
      (hf : fits) (ht : Emits t o) (ho : o <+: bytes) (ha : Failing a)
      (hstrict : ∀ buf r, a = .send buf r → o ≠ bytes) : Sent fits bytes (t ++ [a]) (.error e)

theorem Emits.nil : Emits [] [] := ⟨rfl, rfl, fun c hc => by simp at hc⟩

theorem Emits.append {t t' : Hist Call Call.Reply} {o o' : Bytes} (h : Emits t o)
    (h' : Emits t' o') : Emits (t ++ t') (o ++ o') := by
  refine ⟨by rw [Hist.ins_append, h.ins, h'.ins]; rfl,
    by rw [Hist.outs_append, h.outs, h'.outs], fun c hc => ?_⟩
  rw [Hist.calls_append] at hc
  rcases List.mem_append.mp hc with hc | hc
  · exact h.calls c hc
  · exact h'.calls c hc

theorem Emits.of_sends {t : Hist Call Call.Reply} {o : Bytes} (h : Sends t o) : Emits t o :=
  ⟨h.ins, h.outs, fun c hc => by rw [h.calls] at hc; simp at hc⟩

theorem Emits.flush (r : Bool) : Emits [.call .flush r] [] :=
  ⟨rfl, rfl, fun c hc => by rw [Hist.calls_call, List.mem_singleton] at hc; rw [hc]⟩

theorem Failing.emits {a : Act Call Call.Reply} (h : Failing a) : Emits [a] [] := by
  cases h with
  | @send buf r hr =>
    refine ⟨rfl, ?_, fun c hc => by simp at hc⟩
    cases r with
    | wrote n =>
      have hn : n = 0 := hr
      simp [hn]
    | timeout => rfl
    | fault => rfl
  | flush => exact .flush false

/-- What was sent before belongs to a longer message. -/
theorem Sent.prepend {fits : Prop} {b b' : Bytes} {t t' : Hist Call Call.Reply}
    {r : Result Unit} (hf : fits) (h : Emits t b) (h' : Sent True b' t' r) :
    Sent fits (b ++ b') (t ++ t') r := by
  cases h' with
  | done _ ht => exact .done hf (h.append ht)
  | refused hf' => exact absurd trivial hf'
  | broken _ ht ho ha hstrict =>
    rw [← List.append_assoc]
    refine .broken hf (h.append ht) ((List.prefix_append_right_inj b).mpr ho) ha ?_
    intro buf r hr heq
    exact hstrict buf r hr (List.append_cancel_left heq)

/-- A failure of the first part is a failure of the whole. -/
theorem Sent.extend {fits fits' : Prop} {b : Bytes} {t : Hist Call Call.Reply}
    {e : BackupError} (hff : fits ↔ fits') (h : Sent fits b t (.error e)) (b' : Bytes) :
    Sent fits' (b ++ b') t (.error e) := by
  cases h with
  | refused hf => exact .refused fun hf' => hf (hff.mpr hf')
  | broken hf ht ho ha hstrict =>
    refine .broken (hff.mp hf) ht (ho.trans (List.prefix_append b b')) ha ?_
    intro buf r hr heq
    have hle := ho.length_le
    rw [heq, List.length_append] at hle
    have hnil : b' = [] := List.length_eq_zero_iff.mp (by omega)
    rw [hnil, List.append_nil] at heq
    exact hstrict buf r hr heq

theorem Sent.emits_of_ok {fits : Prop} {b : Bytes} {t : Hist Call Call.Reply}
    (h : Sent fits b t (.ok ())) : fits ∧ Emits t b := by
  cases h with
  | done hf ht => exact ⟨hf, ht⟩

section WpAt

variable {I : Proc.Kind → Hist Call Call.Reply → Prop} {h : Hist Call Call.Reply}

theorem wpAt_writeAllIdle {Q : Hist Call Call.Reply → Result Unit → Prop} {buf : Bytes}
    (hI : ∀ t o, Emits t o → o <+: buf → o ≠ buf → I .write (h ++ t))
    (hQ : ∀ t r, Sent True buf t r → Q (h ++ t) r) :
    Proc.wpAt I Q (writeAllIdle buf).run h := by
  refine wpAt_writeAll (fun t o hs hp hne => hI t o (.of_sends hs) hp hne)
    (fun t hs => hQ t _ (.done trivial (.of_sends hs))) ?_
  intro t o buf' r e hs hp hne hr
  rw [List.append_assoc]
  exact hQ _ _ (.broken trivial (.of_sends hs) hp (.send buf' hr) fun _ _ _ => hne)

theorem wpAt_flush {Q : Hist Call Call.Reply → Result Unit → Prop} (hI : I .call h)
    (hQ : ∀ t r, Sent True [] t r → Q (h ++ t) r) : Proc.wpAt I Q flush.run h := by
  refine ⟨hI, fun r => ?_⟩
  cases r with
  | true => exact hQ _ _ (.done trivial (.flush true))
  | false =>
    refine hQ ([] ++ [_]) _ (.broken trivial .nil List.nil_prefix .flush ?_)
    intro buf r hr
    cases hr

/-- Every attempt to send a frame is one of `Sent`. -/
theorem wpAt_sendFrame {Q : Hist Call Call.Reply → Result Unit → Prop} {d : Deps} {frame : F}
    (hI : ∀ t o, Fits d frame → Emits t o → o <+: frameBytes d frame → o ≠ frameBytes d frame →
      I .write (h ++ t))
    (hflush : ∀ t, Fits d frame → Emits t (frameBytes d frame) → I .call (h ++ t))
    (hQ : ∀ t r, Sent (Fits d frame) (frameBytes d frame) t r → Q (h ++ t) r) :
    Proc.wpAt I Q (sendFrame d frame).run h := by
  rw [sendFrame]
  by_cases hlim : FRAME_LIMIT < (encode d frame).length
  · rw [if_pos hlim]
    have := hQ [] (.error (.inPhase .transfer "frame exceeds FRAME_LIMIT"))
      (.refused (Nat.not_le.mpr hlim))
    rw [List.append_nil] at this
    exact this
  rw [if_neg hlim]
  have hfits : Fits d frame := Nat.not_lt.mp hlim
  rw [Task.run_bind, Proc.wpAt_bind]
  refine wpAt_writeAllIdle ?_ ?_
  · intro t o ht hp hne
    refine hI t o hfits ht (hp.trans (List.prefix_append _ _)) ?_
    intro heq
    have hle := hp.length_le
    rw [heq, length_frameBytes, length_leBytes] at hle
    have hnil : encode d frame = [] := List.length_eq_zero_iff.mp (by omega)
    rw [frameBytes, hnil, List.append_nil] at heq
    rw [hnil] at hne
    exact hne heq
  intro t₁ r₁ h₁
  cases r₁ with
  | error e => exact hQ t₁ _ (h₁.extend (iff_of_true trivial hfits) _)
  | ok _ =>
    obtain ⟨-, ht₁⟩ := h₁.emits_of_ok
    rw [Task.cont_ok, Task.run_bind, Proc.wpAt_bind]
    refine wpAt_writeAllIdle ?_ ?_
    · intro t o ht hp hne
      rw [List.append_assoc]
      refine hI _ _ hfits (ht₁.append ht) ((List.prefix_append_right_inj _).mpr hp) ?_
      exact fun heq => hne (List.append_cancel_left heq)
    intro t₂ r₂ h₂
    cases r₂ with
    | error e =>
      rw [List.append_assoc]
      exact hQ _ _ (h₂.prepend hfits ht₁)
    | ok _ =>
      obtain ⟨-, ht₂⟩ := h₂.emits_of_ok
      have hall : Emits (t₁ ++ t₂) (frameBytes d frame) := ht₁.append ht₂
      rw [Task.cont_ok, List.append_assoc]
      refine wpAt_flush (hflush _ hfits hall) ?_
      intro t₃ r₃ h₃
      have := h₃.prepend hfits hall
      rw [List.append_nil] at this
      rw [List.append_assoc]
      exact hQ _ _ this

end WpAt

section Wp

variable {I : Hist Call Call.Reply → Prop} {h : Hist Call Call.Reply}

theorem wp_writeAllIdle {Q : Hist Call Call.Reply → Result Unit → Prop} {buf : Bytes}
    (hI : ∀ t o, Emits t o → o <+: buf → I (h ++ t))
    (hQ : ∀ t r, Sent True buf t r → Q (h ++ t) r) :
    Proc.wp I Q (writeAllIdle buf).run h :=
  Proc.wpAt_const.mp (wpAt_writeAllIdle (fun t o ht hp _ => hI t o ht hp) hQ)

theorem wp_sendFrame {Q : Hist Call Call.Reply → Result Unit → Prop} {d : Deps} {frame : F}
    (hI : ∀ t o, Fits d frame → Emits t o → o <+: frameBytes d frame → I (h ++ t))
    (hQ : ∀ t r, Sent (Fits d frame) (frameBytes d frame) t r → Q (h ++ t) r) :
    Proc.wp I Q (sendFrame d frame).run h :=
  Proc.wpAt_const.mp (wpAt_sendFrame (fun t o hf ht hp _ => hI t o hf ht hp)
    (fun t hf ht => hI t _ hf ht (List.prefix_refl _)) hQ)

end Wp

/-- The bytes hold a length prefix and as many bytes as it says. -/
def Complete (x : Bytes) : Prop := 4 ≤ x.length ∧ 4 + fromLeBytes (x.take 4) ≤ x.length

/-- What the history of an attempt to receive a frame can be, and its result. -/
inductive Received (F : Type) [Frame F] (d : Deps) :
    Hist Call Call.Reply → Result (Option F) → Prop where
  /-- as many bytes arrived as the result depends on -/
  | whole {t : Hist Call Call.Reply} {i : Bytes} {r : Result (Option F)} (ht : Recvs t i)
      (hr : ∀ rest, frameOf F d (i ++ rest) = (r, rest)) : Received F d t r
  /-- the stream ended inside the length prefix -/
  | ended {t : Hist Call Call.Reply} {i : Bytes} (ht : Recvs t i) (hi : i.length < 4) :
      Received F d (t ++ [.recv (.data [])]) (.ok none)
  /-- a read delivered nothing before the frame was complete -/
  | cut {t : Hist Call Call.Reply} {i : Bytes} {q : ReadRes} {e : BackupError}
      (ht : Recvs t i) (hi : ∀ f : F, ¬ IsFrame F d i f) (hq : ∀ b bs, q ≠ .data (b :: bs)) :
      Received F d (t ++ [.recv q]) (.error e)

/-- A complete frame is what was received. -/
theorem Received.eq_of_isFrame {d : Deps} {t : Hist Call Call.Reply} {r : Result (Option F)}
    {frame : F} (h : Received F d t r) (hf : IsFrame F d t.ins frame) : r = .ok (some frame) := by
  cases h with
  | whole ht hr =>
    rw [ht.ins] at hf
    have h₁ := hf.frameOf []
    rw [hr []] at h₁
    exact congrArg Prod.fst h₁
  | ended ht hi =>
    have := hf.length_le
    rw [Hist.ins_append, ht.ins, List.length_append] at this
    simp at this
    omega
  | @cut t i q e ht hi hq =>
    have hnil : Hist.ins [(.recv q : Act Call Call.Reply)] = [] := by
      cases q with
      | data bs =>
        cases bs with
        | nil => rfl
        | cons b bs => exact absurd rfl (hq b bs)
      | timeout => rfl
      | fault => rfl
    rw [Hist.ins_append, ht.ins, hnil, List.append_nil] at hf
    exact absurd hf (hi frame)

/-- What was received is a frame, when the result is one. -/
theorem Received.isFrame {d : Deps} {t : Hist Call Call.Reply} {frame : F}
    (h : Received F d t (.ok (some frame))) : Recvs t t.ins ∧ IsFrame F d t.ins frame := by
  cases h with
  | whole ht hr =>
    rw [ht.ins]
    refine ⟨ht, ?_⟩
    obtain ⟨seg, hseg, heq⟩ := isFrame_of_frameOf (hr [])
    rw [List.append_nil, List.append_nil] at heq
    rw [heq]
    exact hseg

/-- Every attempt to receive a frame is one of `Received`. -/
theorem wpAt_recvFrame {I : Proc.Kind → Hist Call Call.Reply → Prop}
    {h : Hist Call Call.Reply} {Q : Hist Call Call.Reply → Result (Option F) → Prop} {d : Deps}
    (hI : ∀ t i, Recvs t i → ¬ Complete i → I .read (h ++ t))
    (hQ : ∀ t r, Received F d t r → Q (h ++ t) r) :
    Proc.wpAt I Q (recvFrame F d).run h := by
  rw [recvFrame, Proc.wpAt_bind]
  refine wpAt_readExact
    (fun t i ht hlt => hI t i ht fun hc => absurd hc.1 (Nat.not_le.mpr hlt)) ?_ ?_
  · intro t b ht hb
    -- the part of the answer that the length prefix fixes
    have hframe : ∀ rest, frameOf F d (b ++ rest) =
        if FRAME_LIMIT < fromLeBytes b then
          (.error (.inPhase .transfer "incoming frame too large"), rest)
        else if rest.length < fromLeBytes b then
          (.error (.inPhase .transfer "unexpected EOF mid-frame"), [])
        else
          match decode F d (rest.take (fromLeBytes b)) with
          | some frame => (.ok (some frame), rest.drop (fromLeBytes b))
          | none => (.error (.phaseSrc .transfer "frame deserialize" .json),
              rest.drop (fromLeBytes b)) := by
      intro rest
      rw [frameOf, if_neg (by rw [List.length_append]; omega)]
      rw [List.take_append_of_le_length (by omega), List.take_of_length_le (by omega),
        List.drop_append_of_le_length (by omega), List.drop_eq_nil_of_le (by omega),
        List.nil_append]
    simp only [recvBody]
    by_cases hlim : FRAME_LIMIT < fromLeBytes b
    · rw [if_pos hlim]
      refine hQ t _ (.whole ht fun rest => ?_)
      rw [hframe, if_pos hlim]
    rw [if_neg hlim, Task.run_bind, Proc.wpAt_bind]
    refine wpAt_readExact ?_ ?_ ?_
    · intro t' i ht' hlt
      rw [List.append_assoc]
      refine hI _ _ (ht.append ht') fun hc => ?_
      have hlen := hc.2
      rw [List.take_append_of_le_length (by omega), List.take_of_length_le (by omega),
        List.length_append] at hlen
      omega
    · intro t' body ht' hbody
      have hwhole : ∀ rest, frameOf F d (b ++ body ++ rest) =
          match decode F d body with
          | some frame => (.ok (some frame), rest)
          | none => (.error (.phaseSrc .transfer "frame deserialize" .json), rest) := by
        intro rest
        rw [List.append_assoc, hframe, if_neg hlim,
          if_neg (by rw [List.length_append]; omega), ← hbody]
        simp
      rw [List.append_assoc, Task.cont_ok]
      cases hdec : decode F d body with
      | none =>
        refine hQ _ _ (.whole (ht.append ht') fun rest => ?_)
        rw [hwhole, hdec]
      | some frame =>
        refine hQ _ _ (.whole (ht.append ht') fun rest => ?_)
        rw [hwhole, hdec]
    · intro t' i q e ht' hlt hq
      rw [List.append_assoc, List.append_assoc, ← List.append_assoc t]
      refine hQ _ _ (.cut (ht.append ht') ?_ hq.ne_data)
      intro f hf
      have h₁ := hf.frameOf []
      rw [List.append_nil, hframe, if_neg hlim, if_pos hlt] at h₁
      simp at h₁
  · intro t i q e ht hi hq
    have hshort : ∀ f : F, ¬ IsFrame F d i f :=
      fun f hf => absurd hf.length_le (Nat.not_le.mpr hi)
    rw [List.append_assoc]
    cases hq with
    | eof => exact hQ _ _ (.ended ht hi)
    | timeout => exact hQ _ _ (.cut ht hshort fun b bs => by simp)
    | fault => exact hQ _ _ (.cut ht hshort fun b bs => by simp)

theorem wp_recvFrame {I : Hist Call Call.Reply → Prop} {h : Hist Call Call.Reply}
    {Q : Hist Call Call.Reply → Result (Option F) → Prop} {d : Deps}
    (hI : ∀ t i, Recvs t i → I (h ++ t))
    (hQ : ∀ t r, Received F d t r → Q (h ++ t) r) :
    Proc.wp I Q (recvFrame F d).run h :=
  Proc.wpAt_const.mp (wpAt_recvFrame (fun t i ht _ => hI t i ht) hQ)

end RustBackup.Core
