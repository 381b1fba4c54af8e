/-
  Transport/Codec.lean --- what the control codec writes and what it reads back.

  A frame is the JSON text of a message and a zero byte.  JSON text has no zero
  byte, so the first one in a stream ends the first frame, wherever the reads cut
  it.  That makes a receive the inverse of a send for every message that has a JSON
  form (`round_trip_of_encode`); which messages have none is a matter of the
  enums' representation.
-/
import RustBackup.Transport.Proto

set_option autoImplicit false

namespace RustBackup.Transport

open RustBackup.Serde RustBackup.Io

/-! ## The first frame of a buffer -/

theorem takeFrame_append {json : Bytes} (h : (0 : UInt8) ∉ json) (rest : Bytes) :
    takeFrame (json ++ 0 :: rest) = some (json, rest) := by
  have hidx : (json ++ 0 :: rest).findIdx? (· == 0) = some json.length := by
    induction json with
    | nil => rfl
    | cons b json ih =>
      rw [List.mem_cons, not_or] at h
      rw [List.cons_append, List.findIdx?_cons, ih h.2]
      simp [Ne.symm h.1]
  have htake : (json ++ 0 :: rest).take (json.length + 1) = json ++ [0] := by
    rw [List.take_append, List.take_of_length_le (Nat.le_succ _)]
    simp
  rw [takeFrame, hidx, Option.map_some, htake]
  simp [List.drop_append]

theorem takeFrame_eq_none {buf : Bytes} : takeFrame buf = none ↔ (0 : UInt8) ∉ buf := by
  rw [takeFrame, Option.map_eq_none_iff, List.findIdx?_eq_none_iff]
  constructor
  · intro h hmem
    simpa using h 0 hmem
  · intro h b hb
    simpa using fun hb0 : b = 0 => h (hb0 ▸ hb)

/-- A buffer with a zero byte, split at the first one. -/
theorem exists_split_of_zero {buf : Bytes} (h : (0 : UInt8) ∈ buf) :
    ∃ json rest, buf = json ++ 0 :: rest ∧ (0 : UInt8) ∉ json := by
  induction buf with
  | nil => simp at h
  | cons b buf ih =>
    by_cases hb : b = 0
    · subst hb
      exact ⟨[], buf, rfl, by simp⟩
    · rw [List.mem_cons] at h
      obtain ⟨json, rest, heq, hjson⟩ := ih (h.resolve_left (Ne.symm hb))
      refine ⟨b :: json, rest, by rw [heq]; rfl, ?_⟩
      rw [List.mem_cons, not_or]
      exact ⟨Ne.symm hb, hjson⟩

theorem takeFrame_eq_some {buf json rest : Bytes} :
    takeFrame buf = some (json, rest) ↔ buf = json ++ 0 :: rest ∧ (0 : UInt8) ∉ json := by
  constructor
  · intro h
    have hmem : (0 : UInt8) ∈ buf := by
      by_contra hno
      rw [takeFrame_eq_none.mpr hno] at h
      cases h
    obtain ⟨json', rest', rfl, hjson'⟩ := exists_split_of_zero hmem
    rw [takeFrame_append hjson'] at h
    cases h
    exact ⟨rfl, hjson'⟩
  · rintro ⟨rfl, h⟩
    exact takeFrame_append h rest

/-- More input does not change the first frame. -/
theorem takeFrame_extend {buf json rest : Bytes} (h : takeFrame buf = some (json, rest))
    (x : Bytes) : takeFrame (buf ++ x) = some (json, rest ++ x) := by
  rw [takeFrame_eq_some] at h ⊢
  obtain ⟨rfl, hjson⟩ := h
  exact ⟨by simp, hjson⟩

/-! ## Sending -/

section Messages

variable {M : Type} [ControlMsg M] {t : Text}

theorem zero_notMem_encode {msg : M} {json : Bytes} (h : encode t msg = some json) :
    (0 : UInt8) ∉ json := by
  obtain ⟨j, -, rfl⟩ := Option.map_eq_some_iff.mp h
  exact t.zero_notMem_print j

/-- What was encoded is decoded. -/
theorem frameResult_encode {msg : M} {json : Bytes} (h : encode t msg = some json) :
    frameResult M t json = .ok (some msg) := by
  obtain ⟨j, hj, rfl⟩ := Option.map_eq_some_iff.mp h
  rw [frameResult, decode, t.parse_print j (ControlMsg.plain_serialize msg j hj), Option.bind_some,
    ControlMsg.deserialize_serialize msg j hj]

/-- Every write takes something and every flush succeeds. -/
structure Unhindered (h : Hist Call Call.Reply) : Prop where
  moves : ∀ a ∈ h, Act.Moves a
  flush : ∀ r, Act.call .flush r ∈ h → r = true

/-- The task succeeds with exactly `bytes` written, on every stream that takes its
bytes. -/
def Writes (x : Control ControlError Unit) (bytes : Bytes) : Prop :=
  ∀ buf, (∃ h o, (x.run buf).Run h (.ret o) ∧ Unhindered h) ∧
    ∀ h o, (x.run buf).Run h (.ret o) → Unhindered h → o = (.ok (), buf) ∧ h.outs = bytes

/-- A stretch of history in which the task only sent and flushed, and sent `o`. -/
structure Emits (t : Hist Call Call.Reply) (o : Bytes) : Prop where
  ins : t.ins = []
  outs : t.outs = o
  calls : ∀ c ∈ t.calls, c.1 = .flush

theorem Emits.of_sends {t : Hist Call Call.Reply} {o : Bytes} (h : Sends t o) : Emits t o :=
  ⟨h.ins, h.outs, fun c hc => by rw [h.calls] at hc; simp at hc⟩

theorem Emits.append {t t' : Hist Call Call.Reply} {o o' : Bytes} (h : Emits t o)
    (h' : Emits t' o') : Emits (t ++ t') (o ++ o') := by
  refine ⟨by rw [Hist.ins_append, h.ins, h'.ins]; rfl,
    by rw [Hist.outs_append, h.outs, h'.outs], fun c hc => ?_⟩
  rw [Hist.calls_append] at hc
  rcases List.mem_append.mp hc with hc | hc
  · exact h.calls c hc
  · exact h'.calls c hc

theorem Emits.flush (r : Bool) : Emits [.call .flush r] [] :=
  ⟨rfl, rfl, fun c hc => by rw [Hist.calls_call, List.mem_singleton] at hc; rw [hc]⟩

/-- An interaction that makes a send fail. -/
inductive Failing : Act Call Call.Reply → Prop where
  | send (buf : Bytes) {r : WriteRes} (h : r.Failed) : Failing (.send buf r)
  | flush : Failing (.call .flush false)

theorem Failing.emits {a : Act Call Call.Reply} (h : Failing a) : Emits [a] [] := by
  cases h with
  | @send buf r hr =>
    refine ⟨rfl, ?_, fun c hc => by simp at hc⟩
    cases r with
    | wrote n =>
      have hn : n = 0 := hr
      simp [hn]
    | timeout => rfl
    | fault => rfl
  | flush => exact .flush false

theorem Failing.not_unhindered {a : Act Call Call.Reply} (h : Failing a)
    {h' : Hist Call Call.Reply} : ¬ Unhindered (h' ++ [a]) := by
  intro hu
  have hmem : a ∈ h' ++ [a] := List.mem_append_right _ (List.mem_singleton_self _)
  cases h with
  | @send buf r hr =>
    have hm := hu.moves _ hmem
    cases r with
    | wrote n =>
      have hn : n = 0 := hr
      have hpos := hm.1
      omega
    | timeout => exact hm
    | fault => exact hm
  | flush => exact Bool.false_ne_true (hu.flush false hmem)

/-- Part of the text is less than the frame. -/
theorem ne_frame_of_part {json o : Bytes} (ho : o <+: json) : o ≠ json ++ [0] := by
  intro heq
  have := ho.length_le
  rw [heq, List.length_append] at this
  simp at this

/-- Every run of a send: it writes the frame and succeeds, or stops at an
interaction that fails. -/
theorem wpAt_send {I : Proc.Kind → Hist Call Call.Reply → Prop} {h : Hist Call Call.Reply}
    {Q : Hist Call Call.Reply → Except ControlError Unit × Bytes → Prop} {msg : M}
    {json buf : Bytes} (hjson : encode t msg = some json)
    (hI : ∀ t o, Emits t o → o <+: json ++ [0] → o ≠ json ++ [0] → I .write (h ++ t))
    (hflush : ∀ t, Emits t (json ++ [0]) → I .call (h ++ t))
    (hok : ∀ t, Emits t (json ++ [0]) → Q (h ++ t) (.ok (), buf))
    (herr : ∀ t o a e, Emits t o → o <+: json ++ [0] → Failing a →
      (a = .call .flush false ↔ o = json ++ [0]) → Q (h ++ t ++ [a]) (.error e, buf)) :
    Proc.wpAt I Q ((send t msg).run buf) h := by
  simp only [send, hjson, writeAllControl, Control.run_bind, Proc.bind_assoc, Proc.ret_bind]
  rw [Proc.wpAt_bind]
  refine wpAt_writeAll ?_ ?_ ?_
  · intro t o ht ho hne
    exact hI t o (.of_sends ht) (ho.trans (List.prefix_append _ _)) (ne_frame_of_part ho)
  · intro t₁ ht₁
    rw [Control.cont_ok, Control.run_bind, Proc.bind_assoc, Proc.wpAt_bind]
    refine wpAt_writeAll ?_ ?_ ?_
    · intro t o ht ho hne
      rw [List.append_assoc]
      refine hI _ _ (.of_sends (ht₁.append ht)) ((List.prefix_append_right_inj _).mpr ho) ?_
      exact fun heq => hne (List.append_cancel_left heq)
    · intro t₂ ht₂
      have hall : Emits (t₁ ++ t₂) (json ++ [0]) := .of_sends (ht₁.append ht₂)
      rw [Proc.ret_bind, Control.cont_ok, List.append_assoc]
      refine ⟨hflush _ hall, fun r => ?_⟩
      cases r with
      | true =>
        have hflushed := hall.append (.flush true)
        rw [List.append_nil] at hflushed
        rw [List.append_assoc]
        exact hok _ hflushed
      | false => exact herr _ _ _ _ hall (List.prefix_refl _) .flush (iff_of_true rfl rfl)
    · intro t o buf' r e ht ho hne hr
      rw [List.append_assoc h]
      refine herr _ _ _ _ (.of_sends (ht₁.append ht)) ((List.prefix_append_right_inj _).mpr ho)
        (.send buf' hr) (iff_of_false (by simp) ?_)
      exact fun heq => hne (List.append_cancel_left heq)
  · intro t o buf' r e ht ho _ hr
    exact herr _ _ _ _ (.of_sends ht) (ho.trans (List.prefix_append _ _)) (.send buf' hr)
      (iff_of_false (by simp) (ne_frame_of_part ho))

/-- A message without JSON form is not sent. -/
theorem send_of_encode_none {msg : M} (h : encode t msg = none) (buf : Bytes) :
    (send t msg).run buf = .ret (.error .json, buf) := by
  simp only [send, h]
  rfl

theorem goes_send {msg : M} {json : Bytes} (h : encode t msg = some json) (buf : Bytes) :
    Goes ((send t msg).run buf) [] (json ++ [0]) [⟨.flush, true⟩] (.ret (.ok (), buf)) := by
  simp only [send, h, writeAllControl, Control.run_bind, Proc.bind_assoc, Proc.ret_bind]
  refine Goes.andThen (i := []) (l := []) (goes_writeAll json) ?_
  rw [Control.cont_ok, Control.run_bind, Proc.bind_assoc]
  refine Goes.andThen (i := []) (o := [0]) (l := []) (goes_writeAll [0]) ?_
  exact Goes.call (R := Call.Reply) (e := .flush) true (.refl _)

/-- A message with a JSON form is sent whole. -/
theorem writes_send {msg : M} {json : Bytes} (h : encode t msg = some json) :
    Writes (send t msg) (json ++ [0]) := by
  intro buf
  constructor
  · obtain ⟨t, hrun, -, -, hcalls, hmoves⟩ := goes_send h buf
    refine ⟨t, _, hrun, hmoves, fun r hr => ?_⟩
    have hmem : (⟨.flush, r⟩ : Sigma Call.Reply) ∈ Hist.calls t :=
      List.mem_filterMap.mpr ⟨_, hr, rfl⟩
    rw [hcalls, List.mem_singleton] at hmem
    cases hmem
    rfl
  · have hwp : Proc.wpAt (fun _ _ => True)
        (fun h' o => Unhindered h' → o = (.ok (), buf) ∧ h'.outs = json ++ [0])
        ((send t msg).run buf) [] := by
      refine wpAt_send h (fun _ _ _ _ _ => trivial) (fun _ _ => trivial) ?_ ?_
      · exact fun t ht _ => ⟨rfl, ht.outs⟩
      · exact fun t o a e _ _ ha _ hu => absurd hu ha.not_unhindered
    intro h' o hrun hu
    exact Proc.wpAt_run hwp hrun hu

/-! ## Receiving -/

theorem recvLoop_of_frame {buf json rest : Bytes} (h : takeFrame buf = some (json, rest))
    (n : Nat) : recvLoop M t n buf = .ret (frameResult M t json, rest) := by
  unfold recvLoop
  rw [h]

theorem recvLoop_zero {buf : Bytes} (h : takeFrame buf = none) :
    recvLoop M t 0 buf = .ret (.error .unrolled, buf) := by
  unfold recvLoop
  rw [h]

theorem recvLoop_succ {buf : Bytes} (h : takeFrame buf = none) (n : Nat) :
    recvLoop M t (n + 1) buf =
      .read READ_SIZE fun
        | .data [] => .ret (.ok none, buf)
        | .data (b :: bs) => recvLoop M t n (buf ++ b :: bs)
        | .timeout => .ret (.error .io, buf)
        | .fault => .ret (.error .io, buf) := by
  rw [recvLoop]
  split
  · rename_i hframe
    rw [h] at hframe
    cases hframe
  · rfl

/-- One read of the loop. -/
theorem step_recvLoop {buf bs : Bytes} (h : takeFrame buf = none) (hne : bs ≠ [])
    (hlen : bs.length ≤ READ_SIZE) (n : Nat) :
    (recvLoop M t (n + 1) buf).Step (.recv (.data bs)) (recvLoop M t n (buf ++ bs)) := by
  rw [recvLoop_succ h]
  cases bs with
  | nil => exact absurd rfl hne
  | cons b bs => exact .read hlen

/-- A frame that comes in one read is received. -/
theorem run_recvLoop {msg : M} {json : Bytes} (hjson : encode t msg = some json)
    (hlen : (json ++ [0]).length ≤ READ_SIZE) (n : Nat) :
    (recvLoop M t (n + 1) []).Run [.recv (.data (json ++ [0]))] (.ret (.ok (some msg), [])) := by
  have hempty : takeFrame [] = none := rfl
  have hstep := step_recvLoop (M := M) (t := t) hempty (by simp : json ++ [0] ≠ []) hlen n
  rw [List.nil_append, recvLoop_of_frame (takeFrame_append (zero_notMem_encode hjson) []),
    frameResult_encode hjson] at hstep
  exact .tail (.refl _) hstep

/-- Every run of a receive: it takes a frame, finds the stream at an end or broken, or
has read for as long as it is unrolled. -/
theorem wpAt_recvLoop {I : Proc.Kind → Hist Call Call.Reply → Prop} {h : Hist Call Call.Reply}
    {Q : Hist Call Call.Reply → Except ControlError (Option M) × Bytes → Prop} {n : Nat}
    {buf : Bytes}
    (hI : ∀ t i, Recvs t i → (0 : UInt8) ∉ buf ++ i → I .read (h ++ t))
    (hframe : ∀ t' i json rest, Recvs t' i → buf ++ i = json ++ 0 :: rest → (0 : UInt8) ∉ json →
      Q (h ++ t') (frameResult M t json, rest))
    (hstop : ∀ t i q r, Recvs t i → (0 : UInt8) ∉ buf ++ i → (∀ b bs, q ≠ .data (b :: bs)) →
      (∀ m, r ≠ .ok (some m)) → Q (h ++ t ++ [.recv q]) (r, buf ++ i))
    (hunrolled : ∀ t i, Recvs t i → (0 : UInt8) ∉ buf ++ i → n ≤ i.length →
      Q (h ++ t) (.error .unrolled, buf ++ i)) :
    Proc.wpAt I Q (recvLoop M t n buf) h := by
  induction n generalizing buf h with
  | zero =>
    cases hf : takeFrame buf with
    | some frame =>
      obtain ⟨hbuf, hzero⟩ := takeFrame_eq_some.mp hf
      rw [recvLoop_of_frame hf]
      have := hframe [] [] frame.1 frame.2 .nil (by rw [List.append_nil]; exact hbuf) hzero
      rw [List.append_nil] at this
      exact this
    | none =>
      rw [recvLoop_zero hf]
      have := hunrolled [] [] .nil (by rw [List.append_nil]; exact takeFrame_eq_none.mp hf)
        (Nat.le_refl 0)
      rw [List.append_nil, List.append_nil] at this
      exact this
  | succ n ih =>
    cases hf : takeFrame buf with
    | some frame =>
      obtain ⟨hbuf, hzero⟩ := takeFrame_eq_some.mp hf
      rw [recvLoop_of_frame hf]
      have := hframe [] [] frame.1 frame.2 .nil (by rw [List.append_nil]; exact hbuf) hzero
      rw [List.append_nil] at this
      exact this
    | none =>
      have hzero := takeFrame_eq_none.mp hf
      have hfree : (0 : UInt8) ∉ buf ++ [] := by
        rw [List.append_nil]
        exact hzero
      rw [recvLoop_succ hf]
      refine ⟨by simpa using hI [] [] .nil hfree, fun r hr => ?_⟩
      have hstopped : ∀ q res, (∀ b bs, q ≠ .data (b :: bs)) → (∀ m, res ≠ .ok (some m)) →
          Q (h ++ [.recv q]) (res, buf) := by
        intro q res hq hres
        have := hstop [] [] q res .nil hfree hq hres
        rw [List.append_nil, List.append_nil] at this
        exact this
      cases r with
      | data bs =>
        cases bs with
        | nil => exact hstopped _ _ (by simp) (by simp)
        | cons b bs =>
          have hrecv : Recvs [(.recv (.data (b :: bs)) : Act Call Call.Reply)] (b :: bs) :=
            ⟨by simp, rfl, rfl⟩
          refine ih ?_ ?_ ?_ ?_
          · intro t i ht hz
            rw [List.append_assoc] at hz ⊢
            exact hI _ _ (hrecv.append ht) hz
          · intro t i json rest ht heq hz
            rw [List.append_assoc] at heq ⊢
            exact hframe _ _ json rest (hrecv.append ht) heq hz
          · intro t i q r ht hz hq hres
            rw [List.append_assoc] at hz
            rw [List.append_assoc h, List.append_assoc buf]
            exact hstop _ _ q r (hrecv.append ht) hz hq hres
          · intro t i ht hz hn
            rw [List.append_assoc] at hz ⊢
            rw [List.append_assoc buf]
            refine hunrolled _ _ (hrecv.append ht) hz ?_
            simp only [List.length_append, List.length_cons]
            omega
      | timeout => exact hstopped _ _ (by simp) (by simp)
      | fault => exact hstopped _ _ (by simp) (by simp)

section Feeding

variable {f : (e : Call) → e.Reply} {l : Calls Call Call.Reply}
variable {Q : Bytes → Calls Call Call.Reply → Except ControlError (Option M) × Bytes → Prop}

/-- A buffer without a zero byte lies within the first frame. -/
theorem length_le_of_zero_notMem {json rest buf x : Bytes} (hbuf : (0 : UInt8) ∉ buf)
    (hx : buf ++ x = json ++ 0 :: rest) : buf.length ≤ json.length ∧ x ≠ [] := by
  rcases List.append_eq_append_iff.mp hx with ⟨z, hz, hz'⟩ | ⟨z, hz, hz'⟩
  · constructor
    · rw [hz, List.length_append]
      omega
    · rw [hz']
      simp
  · cases z with
    | nil =>
      rw [List.nil_append] at hz'
      rw [hz, List.append_nil, ← hz']
      exact ⟨Nat.le_refl _, by simp⟩
    | cons b z =>
      rw [List.cons_append, List.cons.injEq] at hz'
      rw [hz, ← hz'.1] at hbuf
      simp at hbuf

/-- A receive whose buffer already holds the first frame. -/
theorem feeds_recvLoop_of_frame {json rest buf x : Bytes} {frame : Bytes × Bytes} {n : Nat}
    (hjson : (0 : UInt8) ∉ json) (hx : buf ++ x = json ++ 0 :: rest)
    (hQ : ∀ buf' x', buf' ++ x' = rest → Q x' l (frameResult M t json, buf'))
    (hf : takeFrame buf = some frame) : Proc.feeds f Q (recvLoop M t n buf) x l := by
  obtain ⟨json', rest'⟩ := frame
  have hsame := takeFrame_extend hf x
  rw [hx, takeFrame_append hjson] at hsame
  cases hsame
  rw [recvLoop_of_frame hf]
  exact hQ rest' x rfl

/-- However the stream is cut, a receive takes the first frame and leaves the rest,
in the buffer or on the stream. -/
theorem feeds_recvLoop {json rest buf x : Bytes} {n : Nat} (hjson : (0 : UInt8) ∉ json)
    (hx : buf ++ x = json ++ 0 :: rest) (hn : json.length < n + buf.length)
    (hQ : ∀ buf' x', buf' ++ x' = rest → Q x' l (frameResult M t json, buf')) :
    Proc.feeds f Q (recvLoop M t n buf) x l := by
  induction n generalizing buf x with
  | zero =>
    cases hf : takeFrame buf with
    | some frame => exact feeds_recvLoop_of_frame hjson hx hQ hf
    | none =>
      have := (length_le_of_zero_notMem (takeFrame_eq_none.mp hf) hx).1
      omega
  | succ n ih =>
    cases hf : takeFrame buf with
    | some frame => exact feeds_recvLoop_of_frame hjson hx hQ hf
    | none =>
      obtain ⟨-, hne⟩ := length_le_of_zero_notMem (takeFrame_eq_none.mp hf) hx
      rw [recvLoop_succ hf]
      refine ⟨fun hnil => absurd hnil hne, fun y z hyz hy _ => ?_⟩
      cases y with
      | nil => exact absurd rfl hy
      | cons b y =>
        refine ih ?_ ?_
        · rw [← hx, hyz, List.append_assoc]
        · simp only [List.length_append, List.length_cons]
          omega

/-- Without a frame to come, a receive reports the end of the stream and keeps what
it read. -/
theorem feeds_recvLoop_eof {buf x : Bytes} {n : Nat} (hx : (0 : UInt8) ∉ buf ++ x)
    (hn : x.length < n) (hQ : Q [] l (.ok none, buf ++ x)) :
    Proc.feeds f Q (recvLoop M t n buf) x l := by
  induction n generalizing buf x with
  | zero => omega
  | succ n ih =>
    have hf : takeFrame buf = none :=
      takeFrame_eq_none.mpr fun h => hx (List.mem_append_left _ h)
    rw [recvLoop_succ hf]
    constructor
    · rintro rfl
      rw [List.append_nil] at hQ
      exact hQ
    · intro y z hyz hy _
      subst hyz
      cases y with
      | nil => exact absurd rfl hy
      | cons b y =>
        have happ : buf ++ (b :: y ++ z) = buf ++ b :: y ++ z := by
          rw [List.append_assoc]
        refine ih ?_ ?_ ?_
        · rw [← happ]
          exact hx
        · simp only [List.length_append, List.length_cons] at hn
          omega
        · rw [← happ]
          exact hQ

end Feeding

/-! ## The round trip -/

/-- A receive that is unrolled far enough returns `msg` on `bytes` and consumes exactly
them, however the stream is cut, whatever follows and however much of it is in the
buffer already. -/
def Reads (t : Text) (bytes : Bytes) (msg : M) : Prop :=
  ∀ (f : (e : Call) → e.Reply) (n : Nat) (buf x rest : Bytes), buf ++ x = bytes ++ rest →
    bytes.length ≤ n →
    Proc.feeds f (fun x' _ o => o.1 = .ok (some msg) ∧ o.2 ++ x' = rest)
      ((recv M t n).run buf) x []

/-- The message is sent, and what was written is received as the same message. -/
def RoundTrip (t : Text) (msg : M) : Prop :=
  ∃ bytes, Writes (send t msg) bytes ∧ Reads t bytes msg

theorem roundTrip_of_encode {msg : M} {json : Bytes} (h : encode t msg = some json) :
    RoundTrip t msg := by
  refine ⟨json ++ [0], writes_send h, ?_⟩
  intro f n buf x rest hx hn
  have hjson := zero_notMem_encode h
  have hframe : buf ++ x = json ++ 0 :: rest := by rw [hx]; simp
  refine feeds_recvLoop hjson hframe ?_ ?_
  · rw [List.length_append, List.length_singleton] at hn
    omega
  · exact fun buf' x' hrest => ⟨frameResult_encode h, hrest⟩

theorem not_writes_of_encode {msg : M} (h : encode t msg = none) (bytes : Bytes) :
    ¬ Writes (send t msg) bytes := by
  intro hwrites
  have hrun : ((send t msg).run []).Run [] (.ret (.error .json, [])) := by
    rw [send_of_encode_none h]
    exact .refl _
  have hu : Unhindered [] := ⟨fun a ha => by simp at ha, fun r hr => by simp at hr⟩
  have := ((hwrites []).2 [] _ hrun hu).1
  cases this

theorem not_roundTrip_of_encode {msg : M} (h : encode t msg = none) : ¬ RoundTrip t msg :=
  fun ⟨bytes, hwrites, _⟩ => not_writes_of_encode h bytes hwrites

end Messages

/-- The messages that make the round trip: all but the newtype variants, whose payload
has no place for the tag. -/
theorem control_round_trip (t : Text) :
    (∀ msg : ClientMsg, RoundTrip t msg ↔ ∀ tag, msg ≠ .authenticate tag) ∧
    (∀ msg : ServerMsg, RoundTrip t msg ↔
      (∀ uuid, msg ≠ .challenge uuid) ∧ ∀ reason, msg ≠ .error reason) := by
  constructor
  · intro msg
    cases msg with
    | register channel => exact iff_of_true (roundTrip_of_encode rfl) (by simp)
    | connect channel => exact iff_of_true (roundTrip_of_encode rfl) (by simp)
    | authenticate tag =>
      refine iff_of_false (not_roundTrip_of_encode rfl) fun h => h tag rfl
    | heartbeat => exact iff_of_true (roundTrip_of_encode rfl) (by simp)
  · intro msg
    cases msg with
    | challenge uuid =>
      refine iff_of_false (not_roundTrip_of_encode rfl) fun h => h.1 uuid rfl
    | ok => exact iff_of_true (roundTrip_of_encode rfl) (by simp)
    | heartbeat => exact iff_of_true (roundTrip_of_encode rfl) (by simp)
    | error reason =>
      refine iff_of_false (not_roundTrip_of_encode rfl) fun h => h.2 reason rfl

/-- The server's own refusal of a registration cannot be sent. -/
theorem error_reply_not_sent :
    ¬ RoundTrip Text.compact (ServerMsg.error "channel already in use") :=
  not_roundTrip_of_encode rfl

end RustBackup.Transport
