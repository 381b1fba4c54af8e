/-
  Transport/Receiver.lean --- one control stream, receive after receive, with
  receives dropped at any point.

  Sources: crates/rb-transport/src/proto.rs, and the `select!` loops of
  crates/rb-transport/src/server.rs.

  A `select!` drops the receive of its losing branch and starts a new one in the
  next turn of the loop.  What a dropped receive has read is in `read_buf`, and
  nothing else of it survives.  `Receiver` is that: a buffer, what the peer sent and
  nobody read yet, whether a receive is pending, and the results of the receives
  that completed.  A pending receive makes a `Turn`; starting and dropping one are
  the loop's business.

  Every run of the receive of `Transport/Proto.lean` is a path of turns
  (`reaches_of_fed`), so what holds of every reachable receiver holds of it.
-/
import RustBackup.Transport.Codec
import Mathlib.Logic.Relation
import Mathlib.Data.List.DropRight

set_option autoImplicit false

namespace RustBackup.Transport

open RustBackup.Serde RustBackup.Io

/-- A codec at work on a control stream. -/
structure Receiver (M : Type) where
  readBuf : Bytes
  /-- sent by the peer and not yet read; the end of the stream comes after it -/
  incoming : Bytes
  /-- a receive is pending -/
  receiving : Bool
  /-- the results of the receives that completed, oldest first -/
  results : List (Except ControlError (Option M))

namespace Receiver

variable {M : Type} [ControlMsg M]

/-- A fresh codec on a stream that will carry `x`. -/
def init (x : Bytes) : Receiver M := ⟨[], x, false, []⟩

/-- One turn of the loop of a pending receive. -/
inductive Turn (t : Text) : Receiver M → Receiver M → Prop where
  /-- the buffer holds a frame -/
  | frame {s : Receiver M} {json rest : Bytes} (hpending : s.receiving = true)
      (hframe : takeFrame s.readBuf = some (json, rest)) :
      Turn t s { s with readBuf := rest, receiving := false,
                        results := s.results ++ [frameResult M t json] }
  /-- a read delivers something -/
  | read {s : Receiver M} {y z : Bytes} (hpending : s.receiving = true)
      (hframe : takeFrame s.readBuf = none) (hy : y ≠ []) (hlen : y.length ≤ READ_SIZE)
      (hin : s.incoming = y ++ z) :
      Turn t s { s with readBuf := s.readBuf ++ y, incoming := z }
  /-- a read finds the end of the stream -/
  | eof {s : Receiver M} (hpending : s.receiving = true) (hframe : takeFrame s.readBuf = none)
      (hin : s.incoming = []) :
      Turn t s { s with receiving := false, results := s.results ++ [.ok none] }

/-- One step: a turn of the pending receive, or its start or its end by the loop
around it. -/
inductive Step (t : Text) : Receiver M → Receiver M → Prop where
  | turn {s s' : Receiver M} (h : Turn t s s') : Step t s s'
  | start {s : Receiver M} (h : s.receiving = false) : Step t s { s with receiving := true }
  | cancel {s : Receiver M} (h : s.receiving = true) : Step t s { s with receiving := false }

/-- States reachable from `s`. -/
abbrev Reaches (t : Text) : Receiver M → Receiver M → Prop := Relation.ReflTransGen (Step t)

variable {t : Text}

/-- A receive whose buffer holds a frame returns at once. -/
theorem reaches_of_frame {s : Receiver M} {frame : Bytes × Bytes} (hs : s.receiving = true)
    (hf : takeFrame s.readBuf = some frame) :
    Reaches t s ⟨frame.2, s.incoming, false, s.results ++ [frameResult M t frame.1]⟩ :=
  .single (.turn (.frame hs hf))

/-- A receive that returns is a path of turns. -/
theorem reaches_of_fed {f : (e : Call) → e.Reply} {n : Nat} {s : Receiver M}
    {l l' : Calls Call Call.Reply} {r : Except ControlError (Option M)} {buf' x' : Bytes}
    (hs : s.receiving = true)
    (h : Fed f ((recv M t n).run s.readBuf) s.incoming l (r, buf') x' l')
    (hr : r ≠ .error .unrolled) :
    Reaches t s ⟨buf', x', false, s.results ++ [r]⟩ := by
  unfold recv at h
  induction n generalizing s with
  | zero =>
    cases hf : takeFrame s.readBuf with
    | some frame =>
      simp only [recvLoop_of_frame hf] at h
      cases h
      exact reaches_of_frame hs hf
    | none =>
      simp only [recvLoop_zero hf] at h
      cases h
      exact absurd rfl hr
  | succ n ih =>
    cases hf : takeFrame s.readBuf with
    | some frame =>
      simp only [recvLoop_of_frame hf] at h
      cases h
      exact reaches_of_frame hs hf
    | none =>
      simp only [recvLoop_succ hf] at h
      generalize hx : s.incoming = x at h
      cases h with
      | @data _ _ y z _ _ _ _ hy hlen h =>
        cases y with
        | nil => exact absurd rfl hy
        | cons b y =>
          have hturn : Turn t s { s with readBuf := s.readBuf ++ b :: y, incoming := z } :=
            .read hs hf hy hlen hx
          exact .head (.turn hturn) (ih hs h)
      | eof h =>
        cases h
        have hturn := Turn.eof (t := t) hs hf hx
        rw [hx] at hturn
        exact .single (.turn hturn)

/-! ## What completed receives return -/

/-- The bytes of a list of frames. -/
def wire (frames : List Bytes) : Bytes := frames.flatMap fun json => json ++ [0]

/-- What is left of a stream of frames when the first `k` of them were received:
`ended` says how often the end was seen. -/
structure Position (t : Text) (frames : List Bytes) (s : Receiver M) (k ended : Nat) : Prop where
  results : s.results =
    (frames.take k).map (frameResult M t) ++ List.replicate ended (.ok none)
  left : s.readBuf ++ s.incoming = wire (frames.drop k)
  bound : k ≤ frames.length
  last : 0 < ended → k = frames.length

theorem wire_cons (json : Bytes) (frames : List Bytes) :
    wire (json :: frames) = json ++ 0 :: wire frames := by
  simp [wire]

/-- Before the last frame is received, the next one is in front. -/
theorem Position.front {frames : List Bytes} (hframes : ∀ json ∈ frames, (0 : UInt8) ∉ json)
    {s : Receiver M} {k ended : Nat} (hp : Position t frames s k ended)
    (hk : k < frames.length) :
    s.readBuf ++ s.incoming = frames[k] ++ 0 :: wire (frames.drop (k + 1)) ∧
      (0 : UInt8) ∉ frames[k] ∧ ended = 0 := by
  refine ⟨?_, hframes _ (List.getElem_mem hk), ?_⟩
  · rw [hp.left, List.drop_eq_getElem_cons hk, wire_cons]
  · by_contra hne
    have := hp.last (Nat.pos_of_ne_zero hne)
    omega

/-- Behind the last frame nothing is left. -/
theorem Position.behind {frames : List Bytes} {s : Receiver M} {k ended : Nat}
    (hp : Position t frames s k ended) (hk : ¬ k < frames.length) :
    s.readBuf = [] ∧ s.incoming = [] := by
  have hleft := hp.left
  rw [List.drop_eq_nil_of_le (Nat.not_lt.mp hk)] at hleft
  exact List.append_eq_nil_iff.mp hleft

theorem Position.frame {frames : List Bytes} {s : Receiver M} {k : Nat} (hk : k < frames.length)
    (hp : Position t frames s k 0) {rest : Bytes} {b : Bool}
    (hrest : rest ++ s.incoming = wire (frames.drop (k + 1))) :
    Position t frames { s with
      readBuf := rest, receiving := b, results := s.results ++ [frameResult M t frames[k]] }
      (k + 1) 0 := by
  refine ⟨?_, hrest, hk, fun h => absurd h (Nat.lt_irrefl 0)⟩
  rw [hp.results, List.take_succ_eq_append_getElem hk, List.map_append]
  simp only [List.replicate_zero, List.append_nil, List.map_cons, List.map_nil]

/-- The position survives every step, a dropped receive included. -/
theorem Position.step {frames : List Bytes} (hframes : ∀ json ∈ frames, (0 : UInt8) ∉ json)
    {s s' : Receiver M} {k ended : Nat} (hp : Position t frames s k ended) (hs : Step t s s') :
    ∃ k' ended', Position t frames s' k' ended' := by
  cases hs with
  | start h => exact ⟨k, ended, hp.results, hp.left, hp.bound, hp.last⟩
  | cancel h => exact ⟨k, ended, hp.results, hp.left, hp.bound, hp.last⟩
  | turn h =>
    cases h with
    | read hpending hframe hy hlen hin =>
      refine ⟨k, ended, hp.results, ?_, hp.bound, hp.last⟩
      rw [← hp.left, hin, List.append_assoc]
    | @frame json rest hpending hframe =>
      by_cases hk : k < frames.length
      · obtain ⟨hleft, hzero, rfl⟩ := hp.front hframes hk
        have hsame := takeFrame_extend hframe s.incoming
        rw [hleft, takeFrame_append hzero] at hsame
        obtain ⟨rfl, hrest⟩ := Prod.mk.inj (Option.some.inj hsame)
        exact ⟨k + 1, 0, hp.frame hk hrest.symm⟩
      · rw [(hp.behind hk).1] at hframe
        cases hframe
    | eof hpending hframe hin =>
      have hk : ¬ k < frames.length := by
        intro hk
        obtain ⟨hleft, -, -⟩ := hp.front hframes hk
        rw [hin, List.append_nil] at hleft
        rw [hleft, takeFrame_eq_none] at hframe
        simp at hframe
      refine ⟨k, ended + 1, ?_, hp.left, hp.bound, fun _ => ?_⟩
      · rw [hp.results, List.replicate_succ', ← List.append_assoc]
      · have := hp.bound
        omega

theorem exists_position {frames : List Bytes} (hframes : ∀ json ∈ frames, (0 : UInt8) ∉ json)
    {s : Receiver M} (hr : Reaches t (init (wire frames)) s) :
    ∃ k ended, Position t frames s k ended := by
  induction hr with
  | refl => exact ⟨0, 0, rfl, rfl, Nat.zero_le _, fun h => absurd h (Nat.lt_irrefl 0)⟩
  | tail _ hs ih =>
    obtain ⟨k, ended, hp⟩ := ih
    exact hp.step hframes hs

theorem Position.length_results {frames : List Bytes} {s : Receiver M} {k ended : Nat}
    (hp : Position t frames s k ended) : s.results.length = k + ended := by
  rw [hp.results, List.length_append, List.length_map, List.length_take, List.length_replicate,
    Nat.min_eq_left hp.bound]

/-- The results so far are those of the frames, in order, and then the end of the
stream. -/
theorem Position.returned {frames : List Bytes} {s : Receiver M} {k ended : Nat}
    (hp : Position t frames s k ended) :
    s.results <+:
      frames.map (frameResult M t) ++ List.replicate s.results.length (.ok none) := by
  have hlen := hp.length_results
  have hres := hp.results
  by_cases hlast : 0 < ended
  · have hends : List.replicate s.results.length (.ok none : Except ControlError (Option M)) =
        List.replicate ended (.ok none) ++ List.replicate k (.ok none) := by
      rw [hlen, Nat.add_comm, List.replicate_add]
    rw [hp.last hlast, List.take_length] at hres
    rw [hends, ← List.append_assoc, ← hres]
    exact List.prefix_append _ _
  · have hzero : ended = 0 := Nat.eq_zero_of_not_pos hlast
    rw [hzero, List.replicate_zero, List.append_nil] at hres
    rw [hres]
    exact ((List.take_prefix _ _).map _).trans (List.prefix_append _ _)

/-- A receive that is not dropped returns what comes next. -/
theorem Position.feeds_recv {frames : List Bytes}
    (hframes : ∀ json ∈ frames, (0 : UInt8) ∉ json) {s : Receiver M} {k ended : Nat}
    (hp : Position t frames s k ended) {f : (e : Call) → e.Reply} {n : Nat}
    (hn : s.incoming.length < n) :
    Proc.feeds f
      (fun _ _ o => o.1 = ((frames.map (frameResult M t))[s.results.length]?).getD (.ok none))
      ((recv M t n).run s.readBuf) s.incoming [] := by
  rw [hp.length_results]
  by_cases hk : k < frames.length
  · obtain ⟨hleft, hzero, rfl⟩ := hp.front hframes hk
    refine feeds_recvLoop hzero hleft ?_ fun buf' x' _ => ?_
    · have := congrArg List.length hleft
      simp only [List.length_append, List.length_cons] at this
      omega
    · simp [hk]
  · obtain ⟨hbuf, hin⟩ := hp.behind hk
    refine feeds_recvLoop_eof ?_ hn ?_
    · rw [hbuf, hin]
      simp
    · have hnone : (frames.map (frameResult M t))[k + ended]? = none := by
        rw [List.getElem?_eq_none_iff, List.length_map]
        omega
      rw [hnone]
      rfl

end Receiver

/-! ## Messages and noise -/

section Items

variable {M : Type} [ControlMsg M] {t : Text}

/-- What stands on a control stream: a message, or bytes that are none. -/
inductive Item (M : Type) where
  | message (msg : M)
  | noise (bytes : Bytes)

/-- The bytes an item is on the stream: a message as it was sent, other bytes without
a zero byte and with one behind them. -/
def Item.Written (t : Text) : Item M → Bytes → Prop
  | .message msg, bytes => Writes (send t msg) bytes
  | .noise body, bytes =>
      (0 : UInt8) ∉ body ∧ decode M t body = none ∧ bytes = body ++ [0]

/-- What the receive of an item returns. -/
def Item.result : Item M → Except ControlError (Option M)
  | .message msg => .ok (some msg)
  | .noise _ => .error .json

/-- A message that was sent has a JSON form. -/
theorem encode_of_writes {msg : M} {bytes : Bytes} (h : Writes (send t msg) bytes) :
    ∃ json, encode t msg = some json ∧ bytes = json ++ [0] := by
  cases hjson : encode t msg with
  | none => exact absurd h (not_writes_of_encode hjson bytes)
  | some json =>
    obtain ⟨⟨h', o, hrun, hu⟩, -⟩ := writes_send hjson []
    have hbytes := ((h []).2 h' o hrun hu).2
    have hjson' := ((writes_send hjson []).2 h' o hrun hu).2
    exact ⟨json, rfl, hbytes.symm.trans hjson'⟩

theorem Item.Written.frame {item : Item M} {bytes : Bytes} (h : item.Written t bytes) :
    ∃ json, bytes = json ++ [0] ∧ (0 : UInt8) ∉ json ∧ frameResult M t json = item.result := by
  cases item with
  | message msg =>
    obtain ⟨json, hjson, rfl⟩ := encode_of_writes h
    exact ⟨json, rfl, zero_notMem_encode hjson, frameResult_encode hjson⟩
  | noise body =>
    obtain ⟨hzero, hdecode, rfl⟩ := h
    refine ⟨body, rfl, hzero, ?_⟩
    rw [frameResult, hdecode]
    rfl

/-- The frames of a stream of items. -/
theorem exists_frames {items : List (Item M)} {chunks : List Bytes}
    (h : List.Forall₂ (Item.Written t) items chunks) :
    ∃ frames : List Bytes, chunks.flatten = Receiver.wire frames ∧
      (∀ json ∈ frames, (0 : UInt8) ∉ json) ∧
      frames.map (frameResult M t) = items.map Item.result := by
  induction h with
  | nil => exact ⟨[], rfl, by simp, rfl⟩
  | cons hitem _ ih =>
    obtain ⟨json, rfl, hzero, hresult⟩ := hitem.frame
    obtain ⟨frames, hwire, hframes, hresults⟩ := ih
    refine ⟨json :: frames, ?_, ?_, ?_⟩
    · rw [List.flatten_cons, hwire, Receiver.wire_cons, List.append_assoc]
      rfl
    · intro json' hmem
      rcases List.mem_cons.mp hmem with rfl | hmem
      · exact hzero
      · exact hframes json' hmem
    · rw [List.map_cons, List.map_cons, hresult, hresults]

/-- Control framing survives fragmentation and cancellation.  On a stream of messages
and noise, wherever reads cut it and wherever receives are dropped, the completed
receives have returned the messages in order, an error for each piece of noise, and
then the end of the stream; and from every state reached, a receive that is not
dropped returns the next of them. -/
theorem control_framing {items : List (Item M)} {chunks : List Bytes}
    (h : List.Forall₂ (Item.Written t) items chunks) {s : Receiver M}
    (hr : Receiver.Reaches t (.init chunks.flatten) s) :
    s.results <+: items.map Item.result ++ List.replicate s.results.length (.ok none) ∧
    ∀ (f : (e : Call) → e.Reply) (n : Nat), s.incoming.length < n →
      Proc.feeds f
        (fun _ _ o => o.1 = ((items.map Item.result)[s.results.length]?).getD (.ok none))
        ((recv M t n).run s.readBuf) s.incoming [] := by
  obtain ⟨frames, hwire, hframes, hresults⟩ := exists_frames h
  rw [hwire] at hr
  obtain ⟨k, ended, hp⟩ := Receiver.exists_position hframes hr
  rw [← hresults]
  exact ⟨hp.returned, fun f n hn => hp.feeds_recv hframes hn⟩

end Items

/-- A heartbeat, noise and a request that share one read, the first receive of which
is dropped. -/
theorem control_framing_sample :
    ∃ s : Receiver ClientMsg,
      s.results = [.ok (some .heartbeat), .error .json] ∧
      ∀ (f : (e : Call) → e.Reply) (n : Nat), s.incoming.length < n →
        Proc.feeds f (fun _ _ o => o.1 = .ok (some (.connect "a")))
          ((recv ClientMsg Text.compact n).run s.readBuf) s.incoming [] := by
  obtain ⟨beat, hbeat⟩ : ∃ json, encode Text.compact ClientMsg.heartbeat = some json :=
    ⟨_, rfl⟩
  obtain ⟨request, hrequest⟩ : ∃ json, encode Text.compact (ClientMsg.connect "a") = some json :=
    ⟨_, rfl⟩
  have hnoise : decode ClientMsg Text.compact [1] = none := by decide
  have hitems : List.Forall₂ (Item.Written Text.compact)
      [.message ClientMsg.heartbeat, .noise [1], .message (.connect "a")]
      [beat ++ [0], [1] ++ [0], request ++ [0]] :=
    .cons (writes_send hbeat) (.cons ⟨by decide, hnoise, rfl⟩ (.cons (writes_send hrequest) .nil))
  have hx : [beat ++ [0], [1] ++ [0], request ++ [0]].flatten =
      beat ++ 0 :: ([1] ++ 0 :: (request ++ [0])) := by simp
  have hlen : (beat ++ 0 :: ([1] ++ 0 :: (request ++ [0]))).length ≤ READ_SIZE := by
    have h₁ : beat.length ≤ 100 := by
      cases hbeat
      exact Nat.le_trans (Text.compact.length_print _ ⟨trivial, trivial⟩) (by decide)
    have h₂ : request.length ≤ 200 := by
      cases hrequest
      exact Nat.le_trans (Text.compact.length_print _ ⟨trivial, trivial, trivial⟩) (by decide)
    simp only [List.length_append, List.length_cons, List.length_nil, READ_SIZE]
    omega
  have hreach : Receiver.Reaches Text.compact
      (.init [beat ++ [0], [1] ++ [0], request ++ [0]].flatten)
      (⟨request ++ [0], [], false,
        [frameResult ClientMsg Text.compact beat, frameResult ClientMsg Text.compact [1]]⟩) := by
    rw [hx]
    refine .head (.start rfl) (.head (.cancel rfl) (.head (.start rfl) ?_))
    refine .head (.turn (.read (z := []) rfl rfl ?_ hlen (List.append_nil _).symm)) ?_
    · simp
    refine .head (.turn (.frame rfl (takeFrame_append (zero_notMem_encode hbeat) _))) ?_
    have hone : (0 : UInt8) ∉ [1] := by decide
    exact .head (.start rfl) (.head (.turn (.frame rfl (takeFrame_append hone _))) .refl)
  refine ⟨_, ?_, (control_framing hitems hreach).2⟩
  rw [frameResult_encode hbeat, frameResult, hnoise]

/-! ## How much of a frame is held -/

section Bound

variable {M : Type} [ControlMsg M] {t : Text}

/-- The bytes behind the last zero byte of a buffer: a frame that is not terminated. -/
def unterminated (buf : Bytes) : Bytes := buf.rtakeWhile (· != 0)

/-- The bytes up to the first zero byte of a buffer, or all of them: the frame that is
received next, as far as it is there. -/
def frontFrame (buf : Bytes) : Bytes := buf.takeWhile (· != 0)

/-- No more than `MAX_FRAME_LENGTH` bytes of an unterminated frame and one read are
held, and a frame that exceeds the limit makes the pending receive fail at its next
turn. -/
structure FrameBounded (t : Text) (s : Receiver M) : Prop where
  held : (unterminated s.readBuf).length ≤ MAX_FRAME_LENGTH + READ_SIZE
  refused : s.receiving = true → MAX_FRAME_LENGTH < (frontFrame s.readBuf).length →
    ∀ s', Receiver.Turn t s s' → ∃ e, s'.results = s.results ++ [.error e]

theorem zero_notMem_takeWhile (buf : Bytes) : (0 : UInt8) ∉ buf.takeWhile (· != 0) := by
  intro hmem
  have := List.mem_takeWhile_imp hmem
  simp at this

theorem zero_notMem_unterminated (buf : Bytes) : (0 : UInt8) ∉ unterminated buf := by
  intro hmem
  have := List.mem_rtakeWhile_imp hmem
  simp at this

namespace Receiver

/-- What is held and what is to come is always an end of what the peer sent. -/
theorem suffix_of_reaches {x : Bytes} {s : Receiver M} (hr : Reaches t (init x) s) :
    s.readBuf ++ s.incoming <:+ x := by
  induction hr with
  | refl => exact List.suffix_refl x
  | tail _ hs ih =>
    cases hs with
    | start h => exact ih
    | cancel h => exact ih
    | turn h =>
      cases h with
      | eof hpending hframe hin => exact ih
      | read hpending hframe hy hlen hin =>
        rw [hin, ← List.append_assoc] at ih
        exact ih
      | @frame json rest hpending hframe =>
        rw [(takeFrame_eq_some.mp hframe).1] at ih
        refine List.IsSuffix.trans ⟨json ++ [0], ?_⟩ ih
        simp

/-- A pending receive reads byte by byte through what has no zero byte. -/
theorem reaches_reads {buf y z : Bytes} {rs : List (Except ControlError (Option M))}
    (hzero : (0 : UInt8) ∉ buf ++ y) :
    Reaches t (⟨buf, y ++ z, true, rs⟩ : Receiver M) ⟨buf ++ y, z, true, rs⟩ := by
  induction y generalizing buf with
  | nil =>
    rw [List.append_nil]
    exact .refl
  | cons b y ih =>
    have happ : buf ++ b :: y = buf ++ [b] ++ y := by simp
    have hf : takeFrame buf = none :=
      takeFrame_eq_none.mpr fun h => hzero (List.mem_append_left _ h)
    have hturn : Turn t (⟨buf, b :: y ++ z, true, rs⟩ : Receiver M)
        ⟨buf ++ [b], y ++ z, true, rs⟩ :=
      .read (y := [b]) rfl hf (by simp) (by simp [READ_SIZE]) rfl
    rw [happ] at hzero ⊢
    exact .head (.turn hturn) (ih hzero)

/-- Terminated frames are received one by one. -/
theorem reaches_frames {x y : Bytes} (rs : List (Except ControlError (Option M)))
    (hx : x = [] ∨ ∃ x', x = x' ++ [0]) :
    ∃ rs', Reaches t (⟨[], x ++ y, false, rs⟩ : Receiver M) ⟨[], y, false, rs'⟩ := by
  induction hlen : x.length using Nat.strongRecOn generalizing x rs with
  | _ len ih =>
    rcases hx with rfl | ⟨x', rfl⟩
    · exact ⟨rs, .refl⟩
    · obtain ⟨json, rest, hsplit, hzero⟩ :=
        exists_split_of_zero (show (0 : UInt8) ∈ x' ++ [0] by simp)
      have hrest : rest = [] ∨ ∃ x', rest = x' ++ [0] := by
        rcases List.eq_nil_or_concat rest with hnil | ⟨r, b, hr⟩
        · exact .inl hnil
        · rw [List.concat_eq_append] at hr
          have hlast : x' ++ [0] = json ++ 0 :: r ++ [b] := by rw [hsplit, hr]; simp
          rw [← List.append_inj_right' hlast rfl] at hr
          exact .inr ⟨r, hr⟩
      obtain ⟨rs', hpath⟩ := ih rest.length (by
        rw [← hlen, hsplit, List.length_append, List.length_cons]
        omega) (rs ++ [frameResult M t json]) hrest rfl
      refine ⟨rs', ?_⟩
      rw [hsplit, List.append_assoc, List.cons_append]
      refine .head (.start rfl) (.trans (reaches_reads hzero) ?_)
      refine .head (.turn (.read (y := [0]) rfl (takeFrame_eq_none.mpr hzero) (by simp)
        (by decide) rfl)) ?_
      exact .head (.turn (.frame rfl (takeFrame_append hzero []))) hpath

/-- A byte sequence is terminated frames and then part of one. -/
theorem exists_split_terminated (a : Bytes) :
    ∃ x q, a = x ++ q ∧ (x = [] ∨ ∃ x', x = x' ++ [0]) ∧ (0 : UInt8) ∉ q := by
  induction a using List.reverseRecOn with
  | nil => exact ⟨[], [], rfl, .inl rfl, by simp⟩
  | append_singleton a b ih =>
    by_cases hb : b = 0
    · subst hb
      exact ⟨a ++ [0], [], (List.append_nil _).symm, .inr ⟨a, rfl⟩, by simp⟩
    · obtain ⟨x, q, rfl, hx, hq⟩ := ih
      refine ⟨x, q ++ [b], List.append_assoc _ _ _, hx, ?_⟩
      rw [List.mem_append, List.mem_singleton, not_or]
      exact ⟨hq, Ne.symm hb⟩

/-- A stretch of at least `n` bytes without a zero byte can come to stand in front of
a pending receive, with `n` bytes of its frame read. -/
theorem exists_reaches_of_infix {x seg : Bytes} (hseg : seg <:+: x) (hzero : (0 : UInt8) ∉ seg)
    {n : Nat} (hn : n ≤ seg.length) :
    ∃ (buf z : Bytes) (rs : List (Except ControlError (Option M))),
      Reaches t (init x) (⟨buf, z, true, rs⟩ : Receiver M) ∧ (0 : UInt8) ∉ buf ∧
        buf.length = n := by
  obtain ⟨a, b, rfl⟩ := hseg
  obtain ⟨x, q, rfl, hx, hq⟩ := exists_split_terminated a
  obtain ⟨rs, hpath⟩ := reaches_frames (M := M) (t := t) (y := q ++ seg ++ b) [] hx
  have hfree : (0 : UInt8) ∉ (q ++ seg).take n := fun h =>
    (List.mem_append.mp (List.mem_of_mem_take h)).elim hq hzero
  have hinit : x ++ q ++ seg ++ b = x ++ (q ++ seg ++ b) := by simp only [List.append_assoc]
  have hread : q ++ seg ++ b = (q ++ seg).take n ++ ((q ++ seg).drop n ++ b) := by
    rw [← List.append_assoc, List.take_append_drop]
  refine ⟨(q ++ seg).take n, (q ++ seg).drop n ++ b, rs, ?_, hfree, ?_⟩
  · rw [init, hinit]
    refine hpath.trans (.head (.start rfl) ?_)
    rw [hread]
    exact reaches_reads hfree
  · rw [List.length_take, List.length_append]
    omega

end Receiver

/-- A receive goes on reading a frame that is too long. -/
theorem exists_not_frameBounded {x seg : Bytes} (hseg : seg <:+: x) (hzero : (0 : UInt8) ∉ seg)
    (hlong : MAX_FRAME_LENGTH < seg.length) :
    ∃ s : Receiver M, Receiver.Reaches t (.init x) s ∧ ¬ FrameBounded t s := by
  obtain ⟨buf, z, rs, hreach, hbuf, hlen⟩ :=
    Receiver.exists_reaches_of_infix (M := M) (t := t) hseg hzero hlong
  refine ⟨_, hreach, fun hbound => ?_⟩
  have hfront : frontFrame buf = buf := by
    refine List.takeWhile_eq_self_iff.mpr fun c hc => ?_
    simpa using fun hc0 : c = 0 => hbuf (hc0 ▸ hc)
  have hnext : ∀ s', Receiver.Turn t (⟨buf, z, true, rs⟩ : Receiver M) s' →
      ∃ e, s'.results = rs ++ [.error e] := by
    refine hbound.refused rfl ?_
    rw [hfront, hlen]
    exact Nat.lt_succ_self _
  have hf := takeFrame_eq_none.mpr hbuf
  cases z with
  | nil =>
    obtain ⟨e, he⟩ := hnext _ (.eof rfl hf rfl)
    cases List.append_cancel_left he
  | cons c z =>
    obtain ⟨e, he⟩ := hnext _ (.read (y := [c]) (z := z) rfl hf (by simp)
      (by simp [READ_SIZE]) rfl)
    have := congrArg List.length he
    simp at this

/-- The bound holds for exactly the byte sequences in which no stretch without a zero
byte is longer than the limit: nothing in a receive checks it. -/
theorem control_frame_bound (x : Bytes) :
    (∀ s : Receiver M, Receiver.Reaches t (.init x) s → FrameBounded t s) ↔
      ∀ seg, seg <:+: x → (0 : UInt8) ∉ seg → seg.length ≤ MAX_FRAME_LENGTH := by
  constructor
  · intro hbound seg hseg hzero
    by_contra hlong
    obtain ⟨s, hreach, hnot⟩ :=
      exists_not_frameBounded (M := M) (t := t) hseg hzero (Nat.not_le.mp hlong)
    exact hnot (hbound s hreach)
  · intro hx s hr
    have hsuffix := Receiver.suffix_of_reaches hr
    have hpart : ∀ seg, seg <:+: s.readBuf → (0 : UInt8) ∉ seg →
        seg.length ≤ MAX_FRAME_LENGTH := by
      intro seg hseg hzero
      refine hx seg ?_ hzero
      exact (hseg.trans (List.prefix_append _ _).isInfix).trans hsuffix.isInfix
    refine ⟨?_, fun _ hlong => ?_⟩
    · have := hpart _ (List.rtakeWhile_suffix _ s.readBuf).isInfix
        (zero_notMem_unterminated s.readBuf)
      exact Nat.le_trans this (Nat.le_add_right _ _)
    · have := hpart _ (List.takeWhile_prefix _).isInfix (zero_notMem_takeWhile s.readBuf)
      exact absurd hlong (Nat.not_lt.mpr this)

end Bound

/-- A peer that sends 4096 bytes and no zero byte. -/
theorem overlong_frame_buffered :
    ¬ ∀ s : Receiver ClientMsg,
      Receiver.Reaches Text.compact (.init (List.replicate 4096 65)) s →
        FrameBounded Text.compact s := by
  intro hbound
  have hzero : (0 : UInt8) ∉ List.replicate 4096 65 := by
    intro hmem
    have := List.eq_of_mem_replicate hmem
    cases this
  have hlong : MAX_FRAME_LENGTH < (List.replicate 4096 (65 : UInt8)).length := by
    rw [List.length_replicate]
    decide
  obtain ⟨s, hreach, hnot⟩ :=
    exists_not_frameBounded (M := ClientMsg) (List.infix_refl _) hzero hlong
  exact hnot (hbound s hreach)

end RustBackup.Transport
