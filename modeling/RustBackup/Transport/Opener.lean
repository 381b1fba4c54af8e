/-
  Transport/Opener.lean --- openers, acceptor and driver of one connection.

  Source: crates/rb-transport/src/mux.rs, `Opener::open`, `Acceptor::accept`,
  `spawn_driver`, `drive`.

  Around the driver of `Transport/Mux.lean` there are the two bounded channels that
  `spawn_driver` makes: openers send requests through one, and the driver sends inbound
  substreams through the other.  Openers come and go, the acceptor may be dropped, and
  what the connection has for the driver is free.

  Nothing gets lost in between: a request is answered at most once and in its turn, or
  fails with all that still wait when the driver returns, and substreams reach the
  acceptor in the order in which they came in.
-/
import RustBackup.Transport.Mux

set_option autoImplicit false

namespace RustBackup.Transport

/-! ## State -/

/-- The capacity of the channel between openers and driver. -/
def REQUEST_CAPACITY : Nat := 32

/-- The driver of a connection and what is around it. -/
structure Muxer where
  driver : Driver
  /-- how many clones of the opener there are -/
  openers : Nat
  /-- `open_rx` -/
  queue : List OpenRequest
  /-- the request that was pending when the driver left its loop -/
  leftover : Option OpenRequest
  /-- the acceptor has not been dropped -/
  accepting : Bool
  /-- `inbound_rx` -/
  inbound : List Nat
  /-- all requests that openers have sent, in order -/
  requested : List OpenRequest
  /-- what the driver has replied, in order -/
  answered : List (OpenRequest × Except String Nat)
  /-- the requests that were dropped with the driver: their `open` returns
  "multiplexer connection closed" -/
  failed : List OpenRequest
  /-- the substreams that the connection has handed to the driver, in order -/
  taken : List Nat
  /-- the substreams that the acceptor has handed out, in order -/
  accepted : List Nat
  /-- the substreams that were dropped with the acceptor or after it -/
  discarded : List Nat

namespace Muxer

/-- What `spawn_driver` returns. -/
def new : Muxer where
  driver := .polling .new
  openers := 1
  queue := []
  leftover := none
  accepting := true
  inbound := []
  requested := []
  answered := []
  failed := []
  taken := []
  accepted := []
  discarded := []

/-- What `open_rx.poll_recv` returns. -/
def pollRecv (s : Muxer) : Polled (Option OpenRequest) :=
  match s.queue with
  | request :: _ => .ready (some request)
  | [] => if s.openers = 0 then .ready none else .pending

/-- The requests that are left once the driver has polled. -/
def restOf (s : Muxer) (v : Drive) : List OpenRequest :=
  if v.pending.isNone && !v.openersGone then s.queue.tail else s.queue

/-- The reply that a round of the driver gives. -/
def reply (v : Drive) : Polled DriveStep → List (OpenRequest × Except String Nat)
  | .ready (.opened result) => v.pending.toList.map fun request => (request, result)
  | _ => []

/-- The request that is pending when the driver leaves its loop. -/
def leaves (v : Drive) : Polled DriveStep → Option OpenRequest
  | .ready .done => v.pending
  | _ => none

/-- A round of the driver; the connection has `outbound` and `inbound` for it. -/
def round (s : Muxer) (v : Drive) (outbound : Polled (Except String Nat))
    (inbound : Polled (Option (Except String Nat))) : Muxer :=
  let (v', found) := v.poll s.pollRecv outbound inbound
  { s with driver := .after v' found
           queue := s.restOf v
           leftover := leaves v' found
           answered := s.answered ++ reply v' found
           taken := s.taken ++ (Driver.after v' found).stream?.toList }

/-- One step. -/
inductive Step : Muxer → Muxer → Prop where
  | clones {s : Muxer} (h : 0 < s.openers) : Step s { s with openers := s.openers + 1 }
  | drops {s : Muxer} (h : 0 < s.openers) : Step s { s with openers := s.openers - 1 }
  /-- `open` sends its request -/
  | requests {s : Muxer} {request : OpenRequest} (h : 0 < s.openers)
      (hroom : s.queue.length < REQUEST_CAPACITY) (hopen : s.driver ≠ .returned)
      (hnew : request ∉ s.requested) :
      Step s { s with queue := s.queue ++ [request], requested := s.requested ++ [request] }
  | polls {s : Muxer} {v : Drive} (outbound : Polled (Except String Nat))
      (inbound : Polled (Option (Except String Nat))) (hd : s.driver = .polling v) :
      Step s (s.round v outbound inbound)
  /-- `inbound_tx.send` -/
  | hands {s : Muxer} {v : Drive} {stream : Nat} (hd : s.driver = .handing v stream)
      (halive : s.accepting = true) (hroom : s.inbound.length < INBOUND_CAPACITY) :
      Step s { s with driver := .polling v, inbound := s.inbound ++ [stream] }
  /-- without an acceptor it fails, and the driver goes on -/
  | discards {s : Muxer} {v : Drive} {stream : Nat} (hd : s.driver = .handing v stream)
      (hgone : s.accepting = false) :
      Step s { s with driver := .polling v, discarded := s.discarded ++ [stream] }
  | accepts {s : Muxer} {stream : Nat} {rest : List Nat} (halive : s.accepting = true)
      (hin : s.inbound = stream :: rest) :
      Step s { s with inbound := rest, accepted := s.accepted ++ [stream] }
  /-- the acceptor is dropped -/
  | retires {s : Muxer} (halive : s.accepting = true) :
      Step s { s with accepting := false, inbound := [], discarded := s.inbound }
  /-- the driver returns, and drops its ends of the channels with the requests it has not
  replied to -/
  | returns {s : Muxer} (hd : s.driver = .closing) :
      Step s { s with driver := .returned, queue := [], leftover := none
                      failed := s.leftover.toList ++ s.queue }

/-- The states that the driver and those around it can reach. -/
inductive Reach : Muxer → Prop where
  | init : Reach .new
  | step {s s' : Muxer} (hr : Reach s) (hs : Step s s') : Reach s'

/-! ## Requests and substreams are in order -/

/-- The requests that the driver has taken and not replied to. -/
def waiting (s : Muxer) : List OpenRequest :=
  match s.driver with
  | .polling v => v.pending.toList
  | .handing v _ => v.pending.toList
  | _ => s.leftover.toList

/-- The driver's variables, while it is in its loop. -/
def drive? (s : Muxer) : Option Drive :=
  match s.driver with
  | .polling v => some v
  | .handing v _ => some v
  | _ => none

/-- Every request and every substream is in its place. -/
structure Orderly (s : Muxer) : Prop where
  /-- replies are given in the order of the requests -/
  requests : s.requested = s.answered.map Prod.fst ++ s.failed ++ s.waiting ++ s.queue
  /-- no request fails before the driver returns, and none waits from then on -/
  served : s.driver ≠ .returned → s.failed = []
  closed : s.driver = .returned → s.waiting = [] ∧ s.queue = []
  /-- no request is sent twice -/
  once : s.requested.Nodup
  /-- substreams are handed on in the order in which they came in -/
  streams : s.taken = s.accepted ++ s.discarded ++ s.inbound ++ s.driver.stream?.toList
  /-- while there is an acceptor none is dropped -/
  kept : s.accepting = true → s.discarded = []
  emptied : s.accepting = false → s.inbound = []
  /-- the driver takes no more requests only when there can be none -/
  gone : ∀ v, s.drive? = some v → v.openersGone = true → s.openers = 0 ∧ s.queue = []
  requestRoom : s.queue.length ≤ REQUEST_CAPACITY
  inboundRoom : s.inbound.length ≤ INBOUND_CAPACITY

section Rounds

variable {s : Muxer} {v : Drive} {outbound : Polled (Except String Nat)}
variable {inbound : Polled (Option (Except String Nat))}

/-- Whether the driver takes a request or not, it loses none. -/
theorem pending_append_restOf :
    (v.pollRequests s.pollRecv).pending.toList ++ s.restOf v = v.pending.toList ++ s.queue := by
  unfold Drive.pollRequests restOf
  by_cases hpolls : (v.pending.isNone && !v.openersGone) = true
  · rw [if_pos hpolls, if_pos hpolls]
    have hnone : v.pending = none := by
      simp only [Bool.and_eq_true, Option.isNone_iff_eq_none] at hpolls
      exact hpolls.1
    unfold pollRecv
    cases hqueue : s.queue with
    | cons request rest => simp [hnone]
    | nil =>
      by_cases hopeners : s.openers = 0
      · simp [hopeners]
      · simp [hopeners]
  · rw [if_neg hpolls, if_neg hpolls]

/-- The driver forgets its openers only when the last is gone and nothing is queued. -/
theorem openersGone_pollRequests (hgone : v.openersGone = true → s.openers = 0 ∧ s.queue = [])
    (h : (v.pollRequests s.pollRecv).openersGone = true) :
    s.openers = 0 ∧ s.restOf v = [] := by
  unfold Drive.pollRequests at h
  unfold restOf
  by_cases hpolls : (v.pending.isNone && !v.openersGone) = true
  · rw [if_pos hpolls] at h ⊢
    have hopen : v.openersGone = false := by
      simp only [Bool.and_eq_true, Bool.not_eq_true'] at hpolls
      exact hpolls.2
    unfold pollRecv at h
    cases hqueue : s.queue with
    | cons request rest => simp [hqueue, hopen] at h
    | nil =>
      by_cases hopeners : s.openers = 0
      · exact ⟨hopeners, rfl⟩
      · simp [hqueue, hopeners, hopen] at h
  · rw [if_neg hpolls] at h ⊢
    exact hgone h

/-- What the driver found concerns its variables only if it has replied. -/
theorem poll_fst (requests : Polled (Option OpenRequest)) :
    (v.poll requests outbound inbound).1 = v.pollRequests requests := by
  unfold Drive.poll
  dsimp only
  split
  · cases outbound with
    | ready result => rfl
    | pending => rfl
  · rfl

theorem round_eq (s : Muxer) (v : Drive) (outbound : Polled (Except String Nat))
    (inbound : Polled (Option (Except String Nat))) :
    s.round v outbound inbound =
      { s with
        driver := .after (v.pollRequests s.pollRecv) (v.poll s.pollRecv outbound inbound).2
        queue := s.restOf v
        leftover := leaves (v.pollRequests s.pollRecv) (v.poll s.pollRecv outbound inbound).2
        answered := s.answered ++
          reply (v.pollRequests s.pollRecv) (v.poll s.pollRecv outbound inbound).2
        taken := s.taken ++ (Driver.after (v.pollRequests s.pollRecv)
          (v.poll s.pollRecv outbound inbound).2).stream?.toList } := by
  rw [← poll_fst]
  rfl

/-- What the driver has after a round is what it had and what it took, less its reply. -/
theorem reply_append_waiting (v : Drive) (found : Polled DriveStep) {t : Muxer}
    (hd : t.driver = .after v found) (hleft : t.leftover = leaves v found) :
    (reply v found).map Prod.fst ++ t.waiting = v.pending.toList := by
  unfold waiting
  rw [hd, hleft]
  cases found with
  | pending => rfl
  | ready step =>
    cases step with
    | inbound stream => rfl
    | done => rfl
    | opened result => cases hpending : v.pending <;> simp [reply, Driver.after, hpending]

/-- A round does not make the driver return. -/
theorem after_ne_returned (v : Drive) (found : Polled DriveStep) :
    Driver.after v found ≠ .returned := by
  cases found with
  | pending => exact Driver.noConfusion
  | ready step => cases step <;> exact Driver.noConfusion

/-- In its loop, the driver keeps in mind whether there are openers. -/
theorem openersGone_of_after {v v' : Drive} {found : Polled DriveStep} {t : Muxer}
    (hd : t.driver = .after v found) (hdrive : t.drive? = some v') :
    v'.openersGone = v.openersGone := by
  unfold drive? at hdrive
  rw [hd] at hdrive
  cases found with
  | pending =>
    cases hdrive
    rfl
  | ready step =>
    cases step with
    | done => cases hdrive
    | inbound stream =>
      cases hdrive
      rfl
    | opened result =>
      cases hdrive
      rfl

end Rounds

section Orderly

variable {s s' : Muxer}

theorem orderly_new : Orderly new where
  requests := rfl
  served _ := rfl
  closed h := by cases h
  once := List.nodup_nil
  streams := rfl
  kept _ := rfl
  emptied h := by cases h
  gone v h hgone := by
    cases h
    cases hgone
  requestRoom := Nat.zero_le _
  inboundRoom := Nat.zero_le _

theorem Orderly.round (h : Orderly s) {v : Drive} (hd : s.driver = .polling v)
    (outbound : Polled (Except String Nat)) (inbound : Polled (Option (Except String Nat))) :
    Orderly (s.round v outbound inbound) := by
  have hwaiting : s.waiting = v.pending.toList := by
    unfold waiting
    rw [hd]
  have hstream : s.driver.stream?.toList = [] := by
    rw [hd]
    rfl
  have hfailed : s.failed = [] := h.served (by rw [hd]; simp)
  rw [round_eq]
  generalize (v.poll s.pollRecv outbound inbound).2 = found
  refine ⟨?_, fun _ => hfailed, fun hd' => absurd hd' (after_ne_returned _ found), h.once, ?_,
    h.kept, h.emptied, ?_, ?_, h.inboundRoom⟩
  · have hreply := reply_append_waiting (v.pollRequests s.pollRecv) found
      (t := { s with driver := .after (v.pollRequests s.pollRecv) found
                     leftover := leaves (v.pollRequests s.pollRecv) found }) rfl rfl
    show s.requested = (s.answered ++ _).map Prod.fst ++ s.failed ++ _ ++ s.restOf v
    rw [h.requests, hwaiting, hfailed, List.append_nil, List.append_nil, List.append_assoc,
      ← pending_append_restOf, ← hreply, List.map_append]
    simp only [List.append_assoc]
    rfl
  · show s.taken ++ _ = s.accepted ++ s.discarded ++ s.inbound ++ _
    rw [h.streams, hstream, List.append_nil]
  · intro v' hdrive hgone
    refine openersGone_pollRequests (fun hold => h.gone v ?_ hold) ?_
    · unfold drive?
      rw [hd]
    · rw [← openersGone_of_after rfl hdrive]
      exact hgone
  · show (s.restOf v).length ≤ _
    refine (List.Sublist.length_le ?_).trans h.requestRoom
    unfold restOf
    split
    · exact List.tail_sublist _
    · exact List.Sublist.refl _

/-- A substream leaves the driver's hands. -/
theorem waiting_of_handing {v : Drive} {stream : Nat} (hd : s.driver = .handing v stream) :
    s.waiting = v.pending.toList ∧ s.drive? = some v ∧ s.driver.stream?.toList = [stream] := by
  unfold waiting drive?
  rw [hd]
  exact ⟨rfl, rfl, rfl⟩

theorem Orderly.step (h : Orderly s) (hs : Step s s') : Orderly s' := by
  cases hs with
  | clones hpos =>
    refine ⟨h.requests, h.served, h.closed, h.once, h.streams, h.kept, h.emptied,
      fun v hd hgone => ?_, h.requestRoom, h.inboundRoom⟩
    exact absurd (h.gone v hd hgone).1 hpos.ne'
  | drops hpos =>
    refine ⟨h.requests, h.served, h.closed, h.once, h.streams, h.kept, h.emptied,
      fun v hd hgone => ?_, h.requestRoom, h.inboundRoom⟩
    exact absurd (h.gone v hd hgone).1 hpos.ne'
  | @requests request hpos hroom hopen hnew =>
    refine ⟨?_, h.served, fun hd => absurd hd hopen, ?_, h.streams, h.kept, h.emptied,
      fun v hd hgone => ?_, ?_, h.inboundRoom⟩
    · show s.requested ++ [request] =
        s.answered.map Prod.fst ++ s.failed ++ s.waiting ++ (s.queue ++ [request])
      rw [h.requests, List.append_assoc (_ ++ _)]
    · exact List.nodup_append.mpr ⟨h.once, List.nodup_singleton _, by
        rintro x hx y hy rfl
        rw [List.mem_singleton.mp hy] at hx
        exact hnew hx⟩
    · exact absurd (h.gone v hd hgone).1 hpos.ne'
    · show (s.queue ++ [request]).length ≤ _
      rw [List.length_append]
      exact hroom
  | polls outbound inbound hd => exact h.round hd outbound inbound
  | @hands v stream hd halive hroom =>
    obtain ⟨hwaiting, hdrive, hstream⟩ := waiting_of_handing hd
    refine ⟨?_, fun _ => h.served (by rw [hd]; simp), fun hd' => (by cases hd'), h.once, ?_,
      h.kept, fun hgone => ?_, fun v' hd' hgone => ?_, h.requestRoom, ?_⟩
    · rw [h.requests, hwaiting]
      rfl
    · show s.taken = s.accepted ++ s.discarded ++ (s.inbound ++ [stream]) ++ []
      rw [h.streams, hstream, List.append_nil, List.append_assoc]
    · rw [halive] at hgone
      cases hgone
    · cases hd'
      exact h.gone v hdrive hgone
    · show (s.inbound ++ [stream]).length ≤ _
      rw [List.length_append]
      exact hroom
  | @discards v stream hd hgone =>
    obtain ⟨hwaiting, hdrive, hstream⟩ := waiting_of_handing hd
    refine ⟨?_, fun _ => h.served (by rw [hd]; simp), fun hd' => (by cases hd'), h.once, ?_,
      fun halive => ?_, h.emptied, fun v' hd' hgone' => ?_, h.requestRoom, h.inboundRoom⟩
    · rw [h.requests, hwaiting]
      rfl
    · show s.taken = s.accepted ++ (s.discarded ++ [stream]) ++ s.inbound ++ []
      rw [h.streams, hstream, h.emptied hgone]
      simp only [List.append_nil, List.append_assoc]
    · rw [hgone] at halive
      cases halive
    · cases hd'
      exact h.gone v hdrive hgone'
  | @accepts stream rest halive hin =>
    refine ⟨h.requests, h.served, h.closed, h.once, ?_, h.kept, fun hgone => ?_, h.gone,
      h.requestRoom, ?_⟩
    · show s.taken = s.accepted ++ [stream] ++ s.discarded ++ rest ++ s.driver.stream?.toList
      rw [h.streams, h.kept halive, hin]
      simp only [List.append_assoc, List.nil_append, List.cons_append]
    · rw [halive] at hgone
      cases hgone
    · have := h.inboundRoom
      rw [hin, List.length_cons] at this
      exact Nat.le_of_succ_le this
  | retires halive =>
    refine ⟨h.requests, h.served, h.closed, h.once, ?_, fun hgone => (by cases hgone),
      fun _ => rfl, h.gone, h.requestRoom, Nat.zero_le _⟩
    show s.taken = s.accepted ++ s.inbound ++ [] ++ s.driver.stream?.toList
    rw [h.streams, h.kept halive]
    simp only [List.append_nil]
  | returns hd =>
    refine ⟨?_, fun hne => absurd rfl hne, fun _ => ⟨rfl, rfl⟩, h.once, ?_, h.kept, h.emptied,
      fun v hd' => (by cases hd'), Nat.zero_le _, h.inboundRoom⟩
    · -- what waited has failed
      have hwaiting : s.waiting = s.leftover.toList := by
        unfold waiting
        rw [hd]
      show s.requested = s.answered.map Prod.fst ++ (s.leftover.toList ++ s.queue) ++ [] ++ []
      rw [h.requests, h.served (by rw [hd]; simp), hwaiting]
      simp only [List.append_nil, List.append_assoc]
    · rw [h.streams, hd]
      rfl

theorem Reach.orderly (hr : Reach s) : Orderly s := by
  induction hr with
  | init => exact orderly_new
  | step _ hs ih => exact ih.step hs

/-- If the connection has a substream to give, the oldest request gets what it gives. -/
theorem Orderly.round_answers (h : Orderly s) {v : Drive} (hd : s.driver = .polling v)
    {request : OpenRequest} {rest : List OpenRequest}
    (hfirst : s.waiting ++ s.queue = request :: rest) (result : Except String Nat)
    (inbound : Polled (Option (Except String Nat))) :
    (s.round v (.ready result) inbound).answered = s.answered ++ [(request, result)] := by
  have hwaiting : s.waiting = v.pending.toList := by
    unfold waiting
    rw [hd]
  have hdrive : s.drive? = some v := by
    unfold drive?
    rw [hd]
  -- after polling the openers the oldest request is pending
  have hpending : (v.pollRequests s.pollRecv).pending = some request := by
    rw [hwaiting] at hfirst
    unfold Drive.pollRequests
    cases hp : v.pending with
    | some r =>
      rw [hp] at hfirst
      rw [if_neg (by simp), hp]
      exact congrArg some (List.cons.inj hfirst).1
    | none =>
      rw [hp] at hfirst
      have hqueue : s.queue = request :: rest := hfirst
      have hopen : v.openersGone = false := by
        by_contra hgone
        rw [(h.gone v hdrive (Bool.eq_true_of_not_eq_false hgone)).2] at hqueue
        cases hqueue
      unfold pollRecv
      rw [hqueue, hopen]
      rfl
  have hfound : (v.poll s.pollRecv (.ready result) inbound).2 = .ready (.opened result) := by
    unfold Drive.poll
    dsimp only
    rw [if_pos (by rw [hpending]; rfl)]
  rw [round_eq, hfound]
  show s.answered ++ _ = _
  unfold reply
  rw [hpending]
  rfl

/-- However openers, acceptor and connection behave: every request is replied to at most
once and in its turn, or still waits, or failed when the driver returned, and then none
waits; the acceptor hands out the substreams in the order in which they came in, and none
is lost while it is there; and in every round at which the connection can open a
substream, it is the oldest request that gets it. -/
theorem requests_served_in_turn (hr : Reach s) :
    s.requested = s.answered.map Prod.fst ++ s.failed ++ s.waiting ++ s.queue ∧
      s.requested.Nodup ∧
      (s.driver ≠ .returned → s.failed = []) ∧
      (s.driver = .returned → s.waiting = [] ∧ s.queue = []) ∧
      (s.accepting = true →
        s.taken = s.accepted ++ s.inbound ++ s.driver.stream?.toList) ∧
      ∀ v request rest, s.driver = .polling v → s.waiting ++ s.queue = request :: rest →
        ∀ result inbound,
          (s.round v (.ready result) inbound).answered = s.answered ++ [(request, result)] := by
  have h := hr.orderly
  refine ⟨h.requests, h.once, h.served, h.closed, fun halive => ?_,
    fun v request rest hd hfirst result inbound => h.round_answers hd hfirst result inbound⟩
  rw [h.streams, h.kept halive, List.append_nil]

/-- Two openers ask, and the first is served. -/
theorem requests_served_in_turn_two :
    ∃ s, Reach s ∧ s.requested = [7, 8] ∧
      (s.round .new (.ready (.ok 1)) .pending).answered = [(7, .ok 1)] := by
  have hs₁ : Step new { new with queue := [7], requested := [7] } :=
    .requests Nat.one_pos (by decide) (by simp [new]) (by simp [new])
  have hs₂ : Step { new with queue := [7], requested := [7] }
      { new with queue := [7, 8], requested := [7, 8] } :=
    .requests Nat.one_pos (by decide) (by simp [new]) (by simp)
  have hr₂ := (Reach.init.step hs₁).step hs₂
  exact ⟨_, hr₂, rfl, (requests_served_in_turn hr₂).2.2.2.2.2 .new 7 [8] rfl rfl (.ok 1) .pending⟩

end Orderly

end Muxer

end RustBackup.Transport
