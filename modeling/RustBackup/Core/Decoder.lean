/-
  Core/Decoder.lean --- what the reading side accepts, frame by frame and event by
  event.

  Sources: crates/rb-core/src/{wire,channel}.rs.

  On a finite stream followed by end of stream both `recv_frame` and `next` are
  functions of the bytes alone: `frameOf` and `nextOf`.  The module compares the
  first with the grammar of frames and the second with the limit `send_chunk` puts on
  a payload.  Each comparison holds on some streams and fails on the others, and the
  two theorems say which.
-/
import RustBackup.Core.Fidelity
import RustBackup.Core.Truncation

set_option autoImplicit false

namespace RustBackup.Core

open RustBackup.Serde RustBackup.Io

/-! ## One frame -/

section Grammar

variable {F : Type} [Frame F] {d : Deps} {x y : Bytes}

/-- The stream starts with a length `n` that `recv_frame` admits and `n` bytes that
read as `frame`; `y` is what follows them. -/
def StartsWith (F : Type) [Frame F] (d : Deps) (x : Bytes) (frame : F) (y : Bytes) : Prop :=
  ∃ n, n ≤ FRAME_LIMIT ∧ x.take 4 = leBytes n ∧ 4 + n ≤ x.length ∧
    decode F d ((x.drop 4).take n) = some frame ∧ y = x.drop (4 + n)

theorem startsWith_iff {frame : F} :
    StartsWith F d x frame y ↔ ∃ seg, IsFrame F d seg frame ∧ x = seg ++ y := by
  constructor
  · rintro ⟨n, hlim, hprefix, hlen, hdec, rfl⟩
    have hbody : ((x.drop 4).take n).length = n := by
      rw [List.length_take, List.length_drop]
      omega
    refine ⟨leBytes n ++ (x.drop 4).take n, ⟨_, ?_, hdec, ?_⟩, ?_⟩
    · rw [hbody]
      exact hlim
    · rw [hbody]
    · rw [← hprefix, List.append_assoc, ← List.drop_drop, List.take_append_drop,
        List.take_append_drop]
  · rintro ⟨seg, ⟨body, hlim, hdec, rfl⟩, rfl⟩
    have h4 : (leBytes body.length).length = 4 := length_leBytes _
    refine ⟨body.length, hlim, ?_, ?_, ?_, ?_⟩
    · rw [List.append_assoc, List.take_append_of_le_length (Nat.le_of_eq h4.symm),
        List.take_of_length_le (Nat.le_of_eq h4)]
    · rw [List.length_append, List.length_append, h4]
      omega
    · rw [List.append_assoc, ← h4, List.drop_left, List.take_left]
      exact hdec
    · rw [← h4, ← List.length_append, List.drop_left]

/-- What is asked of a run of `recv_frame` on the stream `x` that returned `o` and left
`y` unread: `None` for the empty stream, a frame where one stands, an error
otherwise. -/
structure FollowsGrammar (F : Type) [Frame F] (d : Deps) (x : Bytes) (o : Result (Option F))
    (y : Bytes) : Prop where
  none_iff : o = .ok none ↔ x = []
  some_iff : ∀ frame, o = .ok (some frame) ↔ ∃ z, StartsWith F d x frame z
  consumed : ∀ frame, o = .ok (some frame) → StartsWith F d x frame y
  error : x ≠ [] → (∀ frame z, ¬ StartsWith F d x frame z) → ∃ e, o = .error e

/-- A run of `recv_frame` on a finite stream returns `frameOf`. -/
theorem frameOf_of_fed {f : (e : Call) → e.Reply} {l l' : Calls Call Call.Reply}
    {o : Result (Option F)} (hfed : Fed f (recvFrame F d).run x l o y l') :
    frameOf F d x = (o, y) := by
  have hfeeds : Proc.feeds f (fun y _ o => frameOf F d x = (o, y)) (recvFrame F d).run x l :=
    feeds_recvFrame rfl
  exact (Proc.feeds_iff _ _ _).mp hfeeds o y l' hfed

theorem followsGrammar_of_fed {f : (e : Call) → e.Reply} {l l' : Calls Call Call.Reply}
    {o : Result (Option F)} (hx : x = [] ∨ 4 ≤ x.length)
    (hfed : Fed f (recvFrame F d).run x l o y l') : FollowsGrammar F d x o y := by
  have hframe := frameOf_of_fed hfed
  have hstarts : ∀ frame, o = .ok (some frame) → StartsWith F d x frame y := by
    rintro frame rfl
    exact startsWith_iff.mpr (isFrame_of_frameOf hframe)
  have hnone : o = .ok none → x = [] := by
    rintro rfl
    have hshort := (frameOf_eq_none.mp hframe).1
    rcases hx with hx | hx
    · exact hx
    · omega
  refine ⟨⟨hnone, ?_⟩, fun frame => ⟨fun ho => ⟨y, hstarts frame ho⟩, ?_⟩, hstarts, ?_⟩
  · rintro rfl
    have hempty : frameOf F d [] = (.ok none, []) := frameOf_eq_none.mpr ⟨by simp, rfl⟩
    rw [hempty] at hframe
    exact (congrArg Prod.fst hframe).symm
  · rintro ⟨z, hz⟩
    obtain ⟨seg, hseg, rfl⟩ := startsWith_iff.mp hz
    rw [hseg.frameOf] at hframe
    exact (congrArg Prod.fst hframe).symm
  · intro hne hnot
    cases o with
    | error e => exact ⟨e, rfl⟩
    | ok frame =>
      cases frame with
      | none => exact absurd (hnone rfl) hne
      | some frame => exact absurd (hstarts frame rfl) (hnot frame y)

end Grammar

/-- `recv_frame` follows the grammar of frames on a stream, however it is cut, if and
only if the stream does not end inside a length prefix. -/
theorem recv_frame_grammar (F : Type) [Frame F] (d : Deps) (f : (e : Call) → e.Reply)
    (x : Bytes) :
    (∀ l o y l', Fed f (recvFrame F d).run x l o y l' → FollowsGrammar F d x o y) ↔
      x = [] ∨ 4 ≤ x.length := by
  constructor
  · intro h
    obtain ⟨o, y, l', hfed⟩ := Proc.exists_fed (f := f) (coalescing_recvFrame F d) x []
    have hfollows := h [] o y l' hfed
    by_cases hlen : x.length < 4
    · -- too short for a prefix: the answer is `None`
      have hframe := frameOf_of_fed hfed
      rw [frameOf_eq_none.mpr ⟨hlen, rfl⟩] at hframe
      exact .inl (hfollows.none_iff.mp (congrArg Prod.fst hframe).symm)
    · exact .inr (Nat.not_lt.mp hlen)
  · intro hx l o y l' hfed
    exact followsGrammar_of_fed hx hfed

/-- A stream of one byte is taken for a clean end. -/
theorem short_prefix_accepted :
    ∃ o y l, Fed (replies "" samplePlan .pass true) (recvFrame DataFrame sampleDeps).run [0] [] o
        y l ∧
      o = .ok none ∧ ¬ FollowsGrammar DataFrame sampleDeps [0] o y := by
  obtain ⟨o, y, l, hfed⟩ := Proc.exists_fed (f := replies "" samplePlan .pass true)
    (coalescing_recvFrame DataFrame sampleDeps) [0] []
  have hframe := frameOf_of_fed hfed
  rw [frameOf_eq_none.mpr ⟨by decide, rfl⟩] at hframe
  have ho : o = .ok none := (congrArg Prod.fst hframe).symm
  refine ⟨o, y, l, hfed, ho, fun h => ?_⟩
  exact absurd (h.none_iff.mp ho) (by decide)

/-! ## One event -/

/-- What the counters gain with a result of `next`. -/
def countNext : Result ChunkEvent → Progress → Progress
  | .ok (.chunk _ _ data), p => p.addBytes (UInt64.ofNat data.length)
  | .ok (.itemEnd _ _ _), p => p.itemDone
  | .ok .done, p => p
  | .error _, p => p

/-- The error of a chunk whose payload does not have the announced digest. -/
def integrityError (itemId : UInt32) (offset : UInt64) : BackupError :=
  .integrity s!"chunk item={itemId} offset={offset}: blake3 mismatch"

/-- What `next` returns after the header of a chunk, with `y` what follows the header. -/
def payloadOf (d : Deps) (itemId : UInt32) (offset : UInt64) (len : UInt32) (blake3 : String)
    (y : Bytes) : Result ChunkEvent × Bytes :=
  if y.length < len.toNat then (.error (.inPhase .transfer "unexpected EOF mid-frame"), [])
  else if d.blake3Hex (y.take len.toNat) ≠ blake3 then
    (.error (integrityError itemId offset), y.drop len.toNat)
  else (.ok (.chunk itemId offset (y.take len.toNat)), y.drop len.toNat)

/-- What `next` returns on the stream `x` followed by end of stream, and what it leaves
unread. -/
def nextOf (d : Deps) (x : Bytes) : Result ChunkEvent × Bytes :=
  match frameOf DataFrame d x with
  | (.error e, y) => (.error e, y)
  | (.ok none, y) => (.ok .done, y)
  | (.ok (some .streamEnd), y) => (.ok .done, y)
  | (.ok (some (.itemEnd itemId total blake3)), y) => (.ok (.itemEnd itemId total blake3), y)
  | (.ok (some (.chunkStart itemId offset len blake3)), y) =>
      payloadOf d itemId offset len blake3 y

section Events

variable {f : (e : Call) → e.Reply} {d : Deps} {x y : Bytes} {l l' : Calls Call Call.Reply}
variable {p p' : Progress}

/-- However the stream is cut, `next` answers `nextOf`. -/
theorem feeds_nextOf {Q : Bytes → Calls Call Call.Reply → Result ChunkEvent × Progress → Prop}
    (h : Q (nextOf d x).2 l ((nextOf d x).1, countNext (nextOf d x).1 p)) :
    Proc.feeds f Q ((next d).run p) x l := by
  simp only [next, Metered.run_bind, Metered.run_monadLift, Proc.bind_assoc, Proc.ret_bind]
  rw [Proc.feeds_bind]
  refine feeds_recvFrame ?_
  unfold nextOf at h
  cases hframe : frameOf DataFrame d x with
  | mk r y =>
    rw [hframe] at h
    cases r with
    | error e => exact h
    | ok frame =>
      cases frame with
      | none => exact h
      | some frame =>
        cases frame with
        | streamEnd => exact h
        | itemEnd itemId total blake3 => exact h
        | chunkStart itemId offset len blake3 =>
          simp only [Metered.cont_ok, handleFrame, Metered.run_bind, Metered.run_monadLift,
            Proc.bind_assoc, Proc.ret_bind]
          rw [Proc.feeds_bind]
          simp only [payloadOf] at h
          refine feeds_readExact ?_ ?_
          · intro hle
            rw [if_neg (Nat.not_lt.mpr hle)] at h
            simp only [Metered.cont_ok]
            split
            case isTrue hdigest =>
              rw [if_pos hdigest] at h
              exact h
            case isFalse hdigest =>
              rw [if_neg hdigest] at h
              exact h
          · intro hlt
            rw [if_pos hlt] at h
            exact h

theorem nextOf_of_fed {r : Result ChunkEvent}
    (hfed : Fed f ((next d).run p) x l (r, p') y l') : nextOf d x = (r, y) := by
  have hfeeds : Proc.feeds f (fun y _ o => nextOf d x = (o.1, y)) ((next d).run p) x l :=
    feeds_nextOf rfl
  exact (Proc.feeds_iff _ _ _).mp hfeeds (r, p') y l' hfed

/-- After the header of a chunk. -/
theorem IsFrame.nextOf_chunk {seg rest : Bytes} {itemId : UInt32} {offset : UInt64}
    {len : UInt32} {blake3 : String}
    (hseg : IsFrame DataFrame d seg (.chunkStart itemId offset len blake3)) :
    nextOf d (seg ++ rest) = payloadOf d itemId offset len blake3 rest := by
  rw [nextOf, hseg.frameOf]

/-- A chunk is returned only with a payload of the length its header announced. -/
theorem chunk_of_nextOf {itemId : UInt32} {offset : UInt64} {data : Bytes}
    (h : nextOf d x = (.ok (.chunk itemId offset data), y)) :
    ∃ seg len blake3, IsFrame DataFrame d seg (.chunkStart itemId offset len blake3) ∧
      data.length = len.toNat ∧ x = seg ++ (data ++ y) := by
  unfold nextOf at h
  split at h
  · simp at h
  · simp at h
  · simp at h
  · simp at h
  case h_5 itemId' offset' len blake3 z hframe =>
    obtain ⟨seg, hseg, rfl⟩ := isFrame_of_frameOf hframe
    unfold payloadOf at h
    split at h
    · simp at h
    case isFalse hle =>
      split at h
      · simp at h
      · simp only [Prod.mk.injEq, Except.ok.injEq, ChunkEvent.chunk.injEq] at h
        obtain ⟨⟨rfl, rfl, rfl⟩, rfl⟩ := h
        refine ⟨seg, len, blake3, hseg, ?_, ?_⟩
        · rw [List.length_take]
          omega
        · rw [List.take_append_drop]

end Events

/-! ## The limit of a payload -/

/-- One call in a sequence of `next` calls: the stream before it, what it returned and
the stream after it. -/
structure NextCall where
  before : Bytes
  result : Result ChunkEvent
  after : Bytes

/-- A sequence of `next` calls on one stream. -/
inductive NextCalls (f : (e : Call) → e.Reply) (d : Deps) :
    Bytes → Progress → List NextCall → Prop where
  | nil (x : Bytes) (p : Progress) : NextCalls f d x p []
  | cons {x y : Bytes} {p p' : Progress} {l l' : Calls Call Call.Reply}
      {r : Result ChunkEvent} {calls : List NextCall}
      (hcall : Fed f ((next d).run p) x l (r, p') y l') (hrest : NextCalls f d y p' calls) :
      NextCalls f d x p (⟨x, r, y⟩ :: calls)

/-- The call keeps to the limit of `send_chunk`: it returns no larger payload, and a
header that announces one makes it fail with nothing read after the header. -/
structure NextCall.Limited (d : Deps) (c : NextCall) : Prop where
  payload : ∀ itemId offset data, c.result = .ok (.chunk itemId offset data) →
    data.length ≤ CHUNK_SIZE
  header : ∀ seg rest itemId offset len blake3,
    IsFrame DataFrame d seg (.chunkStart itemId offset len blake3) → c.before = seg ++ rest →
    CHUNK_SIZE < len.toNat → (∃ e, c.result = .error e) ∧ c.after = rest

/-- The stream starts with the header of a chunk larger than the limit and goes on after
it. -/
def Oversize (d : Deps) (x : Bytes) : Prop :=
  ∃ seg rest itemId offset len blake3,
    IsFrame DataFrame d seg (.chunkStart itemId offset len blake3) ∧ x = seg ++ rest ∧
      CHUNK_SIZE < len.toNat ∧ rest ≠ []

/-- Something of a payload is read whenever there is something to read. -/
theorem payloadOf_ne {d : Deps} {len : UInt32} {rest : Bytes} (itemId : UInt32)
    (offset : UInt64) (blake3 : String) (hlen : 0 < len.toNat) (hrest : rest ≠ []) :
    (payloadOf d itemId offset len blake3 rest).2 ≠ rest := by
  have hpos : 0 < rest.length := List.length_pos_iff.mpr hrest
  have hdrop : rest.drop len.toNat ≠ rest := by
    intro heq
    have := congrArg List.length heq
    rw [List.length_drop] at this
    omega
  unfold payloadOf
  split
  · exact fun heq => hrest heq.symm
  · split
    · exact hdrop
    · exact hdrop

/-- One call keeps to the limit exactly when its stream is not oversize. -/
theorem limited_iff {d : Deps} {x y : Bytes} {r : Result ChunkEvent}
    (h : nextOf d x = (r, y)) : NextCall.Limited d ⟨x, r, y⟩ ↔ ¬ Oversize d x := by
  constructor
  · rintro hlimited ⟨seg, rest, itemId, offset, len, blake3, hseg, rfl, hlen, hrest⟩
    have hafter := (hlimited.header seg rest itemId offset len blake3 hseg rfl hlen).2
    rw [hseg.nextOf_chunk] at h
    have hne := payloadOf_ne (d := d) itemId offset blake3
      (Nat.lt_of_le_of_lt (Nat.zero_le _) hlen) hrest
    rw [h] at hne
    exact hne hafter
  · intro hfine
    refine ⟨?_, ?_⟩
    · rintro itemId offset data rfl
      obtain ⟨seg, len, blake3, hseg, hdata, hx⟩ := chunk_of_nextOf h
      by_contra hlarge
      refine hfine ⟨seg, data ++ y, itemId, offset, len, blake3, hseg, hx, ?_, ?_⟩
      · omega
      · intro hnil
        rw [(List.append_eq_nil_iff.mp hnil).1] at hlarge
        exact hlarge (Nat.zero_le _)
    · intro seg rest itemId offset len blake3 hseg hx hlen
      have hrest : rest = [] := by
        by_contra hne
        exact hfine ⟨seg, rest, itemId, offset, len, blake3, hseg, hx, hlen, hne⟩
      have hpos : ([] : Bytes).length < len.toNat := Nat.lt_of_le_of_lt (Nat.zero_le _) hlen
      change x = seg ++ rest at hx
      rw [hx, hseg.nextOf_chunk, hrest, payloadOf, if_pos hpos] at h
      obtain ⟨rfl, rfl⟩ := Prod.mk.inj h
      exact ⟨⟨_, rfl⟩, hrest.symm⟩

/-- `send_chunk` can send a payload, when its header fits a frame, exactly up to the
limit. -/
theorem sendChunk_emits_iff {d : Deps} {itemId : UInt32} {offset : UInt64} {data : Bytes}
    (hfits : Fits d ((SinkCall.sendChunk itemId offset data).frame d)) :
    (∃ p h p', ((sendChunk d itemId offset data).run p).Run h (.ret (.ok (), p'))) ↔
      data.length ≤ CHUNK_SIZE := by
  constructor
  · rintro ⟨p, h, p', hrun⟩
    by_contra hlarge
    rw [sendChunk, if_pos (Nat.not_le.mp hlarge)] at hrun
    cases (hrun.of_ret).2
  · intro hle
    refine ⟨.fresh, ?_⟩
    rw [sendChunk, if_neg (Nat.not_lt.mpr hle)]
    have hheader := Metered.goes_lift (p := .fresh) (goes_sendFrame hfits)
    have hpayload := Metered.goes_bind (Metered.goes_lift (p := .fresh) (goes_writeAllIdle data))
      (f := fun _ => Metered.count (·.addBytes (UInt64.ofNat data.length))) (.refl _)
    obtain ⟨h, hrun, -⟩ := Metered.goes_bind (f := fun _ => do
      writeAllIdle data
      Metered.count (·.addBytes (UInt64.ofNat data.length))) hheader hpayload
    exact ⟨h, _, hrun⟩

/-- In every sequence of `next` calls on every stream, the calls keep to the limit of
`send_chunk` if and only if none of them starts at an oversize header with something
behind it; and `send_chunk` itself can send a payload exactly up to the limit. -/
theorem chunk_limit_agreed (f : (e : Call) → e.Reply) (d : Deps) {x : Bytes} {p : Progress}
    {calls : List NextCall} (h : NextCalls f d x p calls) :
    ((∀ c ∈ calls, NextCall.Limited d c) ↔ ∀ c ∈ calls, ¬ Oversize d c.before) ∧
    ∀ itemId offset data, Fits d ((SinkCall.sendChunk itemId offset data).frame d) →
      ((∃ p h p', ((sendChunk d itemId offset data).run p).Run h (.ret (.ok (), p'))) ↔
        data.length ≤ CHUNK_SIZE) := by
  refine ⟨?_, fun itemId offset data hfits => sendChunk_emits_iff hfits⟩
  induction h with
  | nil x p => simp
  | cons hcall hrest ih =>
    have hone := limited_iff (nextOf_of_fed hcall)
    rw [List.forall_mem_cons, List.forall_mem_cons, ih, hone]

/-- The header of a chunk one byte over the limit. -/
def oversizeHeader : DataFrame := .chunkStart 0 0 (UInt32.ofNat (CHUNK_SIZE + 1)) ""

theorem fits_oversizeHeader (d : Deps) : Fits d oversizeHeader := by
  refine Nat.le_trans (d.json.length_print _ oversizeHeader.plain_serialize.1) ?_
  decide

/-- The byte behind an oversize header is read before the call fails. -/
theorem oversize_payload_read :
    ∃ r y, NextCalls (replies "" samplePlan .pass true) sampleDeps
        (frameBytes sampleDeps oversizeHeader ++ [7]) .fresh
        [⟨frameBytes sampleDeps oversizeHeader ++ [7], r, y⟩] ∧ y = [] ∧
      ¬ NextCall.Limited sampleDeps ⟨frameBytes sampleDeps oversizeHeader ++ [7], r, y⟩ := by
  have hseg := isFrame_frameBytes (fits_oversizeHeader sampleDeps)
    (decode_encode_data sampleDeps oversizeHeader)
  have hlen : (UInt32.ofNat (CHUNK_SIZE + 1)).toNat = CHUNK_SIZE + 1 := by decide
  obtain ⟨⟨r, p⟩, y, l, hfed⟩ := Proc.exists_fed (f := replies "" samplePlan .pass true)
    (coalescing_next sampleDeps .fresh) (frameBytes sampleDeps oversizeHeader ++ [7]) []
  have hnext := nextOf_of_fed hfed
  refine ⟨r, y, .cons hfed (.nil _ _), ?_, fun hlimited => ?_⟩
  · rw [hseg.nextOf_chunk, payloadOf, hlen, if_pos (by decide)] at hnext
    exact (Prod.mk.inj hnext).2.symm
  · refine (limited_iff hnext).mp hlimited ⟨_, [7], 0, 0, _, "", hseg, rfl, ?_, by simp⟩
    rw [hlen]
    exact Nat.lt_succ_self _

/-- A header one byte over the limit with nothing behind it fails without reading. -/
theorem chunk_limit_agreed_sample :
    ∃ c, NextCalls (replies "" samplePlan .pass true) sampleDeps
        (frameBytes sampleDeps oversizeHeader) .fresh [c] ∧ NextCall.Limited sampleDeps c := by
  have hseg := isFrame_frameBytes (fits_oversizeHeader sampleDeps)
    (decode_encode_data sampleDeps oversizeHeader)
  obtain ⟨⟨r, p⟩, y, l, hfed⟩ := Proc.exists_fed (f := replies "" samplePlan .pass true)
    (coalescing_next sampleDeps .fresh) (frameBytes sampleDeps oversizeHeader) []
  have hcalls := NextCalls.cons hfed (.nil _ _)
  refine ⟨_, hcalls, ?_⟩
  have hagreed := (chunk_limit_agreed _ sampleDeps hcalls).1.mpr
  refine hagreed ?_ _ (List.mem_singleton_self _)
  intro c hc
  rw [List.mem_singleton] at hc
  rw [hc]
  rintro ⟨seg, rest, itemId, offset, len, blake3, hseg', hx, -, hrest⟩
  have heq : seg ++ rest = frameBytes sampleDeps oversizeHeader ++ [] := by
    rw [List.append_nil]
    exact hx.symm
  exact hrest (hseg'.eq_frameBytes (fits_oversizeHeader sampleDeps) heq).2.2

end RustBackup.Core
