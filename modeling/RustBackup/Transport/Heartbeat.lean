/-
  Transport/Heartbeat.lean --- the control substream of a paired channel.

  Sources: crates/rb-transport/src/{server,client,channel}.rs.

  A client reads its control substream until it has the answer to its first message.
  Then `connect_source` or `connect_destination` returns a `PairedChannel`, which keeps
  the substream and never reads it.  The server goes on to write a heartbeat frame
  with every tick, and yamux lets it write no more than a receive window ahead of what
  was given back to it.  A side gives nothing back before it has read half a window, and
  a client that gets its channel has read far less (`Opened.length_ins_lt`).  So all that
  a handler ever writes goes into the first window.

  The frames that a handler has begun are in its calls: which branch its `select!`
  took, how its registration was answered.  A handler that does something else than
  write has written all of them (`paced_handler`).  So everything depends on how many
  bytes the frames have that were begun so far (`heartbeats_exact`).
-/
import RustBackup.Io.Line
import RustBackup.Transport.Handshake
import RustBackup.Transport.World

set_option autoImplicit false

namespace RustBackup.Transport

open RustBackup.Serde RustBackup.Io RustBackup.Core

/-! ## The control substream -/

/-- yamux's receive window of a substream. -/
def WINDOW : Nat := 256 * 1024

/-- yamux sends a window update once half of the window was read since the last one.
With an update it may also enlarge the window; none is sent here. -/
def yamux : Window := ⟨WINDOW, WINDOW / 2⟩

/-- A client that connects. -/
def connecting (d : Deps) (role : Role) (channel : String) (secret : Option String) (n : Nat) :
    Proc Call Call.Reply (Except BackupError PairedChannel × Bytes) :=
  (connectAs d n role channel secret).run []

/-- A control substream: the client is on the left, the server's handler on the
right. -/
abbrev ControlLine : Type := Line Call Call.Reply Call Call.Reply

section Line

variable (d : Deps) (auth : Option Authenticator) (role : Role) (channel : String)
variable (secret : Option String)

abbrev ControlStep : ControlLine → ControlLine → Prop :=
  Line.Step (connecting d role channel secret) (handler d auth) yamux

/-- Any number of steps in which both ends stay. -/
abbrev ControlSteps : ControlLine → ControlLine → Prop :=
  Line.Steps (connecting d role channel secret) (handler d auth) yamux

/-- The states that can be reached. -/
abbrev ControlLineReach (s : ControlLine) : Prop :=
  Line.Reach (connecting d role channel secret) (handler d auth) yamux s

/-- The client has returned a `PairedChannel`. -/
def Opened (s : ControlLine) : Prop :=
  Proc.EndsIn (connecting d role channel secret) (fun o => ∃ c, o.1 = .ok c) s.left

/-- The window is not used up, so a write of the server takes at least a byte. -/
structure Flowing (s : ControlLine) : Prop where
  window : s.toLeft.length < WINDOW
  writes : ∀ bs, Proc.Trace (handler d auth) (s.right ++ [.send bs (.wrote 1)]) →
    ∃ s', ControlStep d auth role channel secret s s' ∧
      s'.right = s.right ++ [.send bs (.wrote 1)]

end Line

/-! ## What a handler has begun to write -/

/-- The length of a frame; a message without JSON form has none. -/
def frameLength (t : Text) (msg : ServerMsg) : Nat :=
  ((encode t msg).map fun json => json.length + 1).getD 0

theorem frameLength_of_encode {t : Text} {msg : ServerMsg} {json : Bytes}
    (h : encode t msg = some json) : frameLength t msg = (json ++ [0]).length := by
  unfold frameLength
  rw [h, List.length_append]
  rfl

/-- The length of the frame that a handler writes next after a call. -/
def due (d : Deps) : Sigma Call.Reply → Nat
  | ⟨.newV4, challenge⟩ => frameLength d.json (.challenge challenge)
  | ⟨.containsKey _, true⟩ => frameLength d.json (.error "channel already in use")
  | ⟨.insert _, _⟩ => frameLength d.json .ok
  | ⟨.enter .consumer _, _⟩ => frameLength d.json .ok
  | ⟨.selectProvider, .tick⟩ => frameLength d.json .heartbeat
  | ⟨.selectConsumer, .tick⟩ => frameLength d.json .heartbeat
  | _ => 0

/-- The length of all frames that a handler has begun. -/
def begun (d : Deps) (h : Hist Call Call.Reply) : Nat := (h.calls.map (due d)).sum

section Begun

variable {d : Deps} {h t : Hist Call Call.Reply}

theorem begun_append : begun d (h ++ t) = begun d h + begun d t := by
  unfold begun
  rw [Hist.calls_append, List.map_append, List.sum_append]

/-- Nothing failed, and `k` bytes of what was begun are still to be written. -/
def Owes (d : Deps) (k : Nat) (h : Hist Call Call.Reply) : Prop :=
  (∀ a ∈ h, Act.Moves a) → h.outs.length + k = begun d h

/-- Where a handler stands that is about to interact: it writes as long as it owes
something. -/
def Paced (d : Deps) : Proc.Kind → Hist Call Call.Reply → Prop
  | .write, h => (∀ a ∈ h, Act.Moves a) → h.outs.length < begun d h
  | _, h => Owes d 0 h

/-- An interaction pays what it writes. -/
theorem Owes.append {k k' : Nat} (hh : Owes d k h)
    (ht : (∀ a ∈ t, Act.Moves a) → (Hist.outs t).length + k' = k + begun d t) :
    Owes d k' (h ++ t) := by
  intro hm
  have hk := hh fun a ha => hm a (List.mem_append_left _ ha)
  have hk' := ht fun a ha => hm a (List.mem_append_right _ ha)
  rw [Hist.outs_append, List.length_append, begun_append]
  omega

theorem Owes.recv (hh : Owes d 0 h) (r : ReadRes) : Owes d 0 (h ++ [.recv r]) :=
  hh.append fun _ => rfl

theorem Owes.call (hh : Owes d 0 h) (e : Call) (r : e.Reply) :
    Owes d (due d ⟨e, r⟩) (h ++ [.call e r]) :=
  hh.append fun _ => by simp [begun]

/-- A send begins nothing. -/
theorem begun_of_emits {o : Bytes} (ht : Emits t o) : begun d t = 0 := by
  unfold begun
  rw [List.sum_eq_zero_iff_forall_eq_nat]
  intro n hn
  obtain ⟨⟨e, r⟩, hc, rfl⟩ := List.mem_map.mp hn
  obtain rfl : e = .flush := ht.calls _ hc
  rfl

end Begun

/-! ## Handlers write what they have begun -/

namespace Control

variable {ε α β : Type}

/-- The task owes `k` bytes when it starts, writes them before it does anything else,
and owes nothing when it returns. -/
def Pays (d : Deps) (k : Nat) (x : Control ε α) : Prop :=
  ∀ buf h, Owes d k h → Proc.wpAt (Paced d) (fun h' _ => Owes d 0 h') (x.run buf) h

variable {d : Deps} {k : Nat}

theorem Pays.bind {x : Control ε α} {f : α → Control ε β} (hx : x.Pays d k)
    (hf : ∀ a, (f a).Pays d 0) : (x >>= f).Pays d k := by
  intro buf h hh
  rw [Control.run_bind, Proc.wpAt_bind]
  refine Proc.wpAt_mono (fun _ _ hI => hI) (fun h' o ho => ?_) (hx buf h hh)
  obtain ⟨r, buf'⟩ := o
  cases r with
  | ok a => exact hf a buf' h' ho
  | error e => exact ho

theorem pays_pure (a : α) : (pure a : Control ε α).Pays d 0 := fun _ _ hh => hh

theorem pays_fail (e : ε) : (fail e : Control ε α).Pays d 0 := fun _ _ hh => hh

/-- A call, and what it makes due. -/
theorem pays_call {e : Call} {f : e.Reply → Control ε β}
    (hf : ∀ r, (f r).Pays d (due d ⟨e, r⟩)) : (call e >>= f).Pays d 0 :=
  fun buf _ hh => ⟨hh, fun r => hf r buf _ (hh.call e r)⟩

theorem Pays.attempt {x : Control ε α} (hx : x.Pays d k) : x.attempt.Pays d k := by
  intro buf h hh
  rw [Control.run_attempt, Proc.wpAt_bind]
  exact hx buf h hh

/-- A task that only reads has nothing to pay. -/
theorem pays_of_avoids {x : Control ε α} (hwrite : ∀ buf, (x.run buf).Avoids .write)
    (hcall : ∀ buf, (x.run buf).Avoids .call) : x.Pays d 0 := by
  intro buf h hh
  have hw := hwrite buf
  have hc := hcall buf
  generalize x.run buf = p at hw hc
  induction p generalizing h with
  | ret o => exact hh
  | read n k ih => exact ⟨hh, fun r _ => ih r _ (hh.recv r) (hw.2 r) (hc.2 r)⟩
  | write bs k _ => exact absurd rfl hw.1
  | call e k _ => exact absurd rfl hc.1

end Control

section Codec

open Control

variable {d : Deps}

theorem pays_recv (n : Nat) : (recvClient d.json n).Pays d 0 :=
  pays_of_avoids (avoids_recvLoop (by simp) _ _) (avoids_recvLoop (by simp) _ _)

theorem pays_recvTurn : (recvTurn ClientMsg d.json).Pays d 0 :=
  pays_of_avoids (avoids_recvTurn (by simp) _) (avoids_recvTurn (by simp) _)

/-- A send pays for its frame. -/
theorem pays_send (msg : ServerMsg) :
    (sendServer d.json msg).Pays d (frameLength d.json msg) := by
  intro buf h hh
  cases hjson : encode d.json msg with
  | none =>
    have hzero : frameLength d.json msg = 0 := by
      unfold frameLength
      rw [hjson]
      rfl
    rw [hzero] at hh
    unfold sendServer
    rw [send_of_encode_none hjson]
    exact hh
  | some json =>
    rw [frameLength_of_encode hjson] at hh
    have hpaid : ∀ t, Emits t (json ++ [0]) → Owes d 0 (h ++ t) := by
      intro t ht
      refine hh.append fun _ => ?_
      rw [ht.outs, begun_of_emits ht]
    refine wpAt_send hjson ?_ hpaid hpaid ?_
    · intro t o ht ho hne hm
      have hk := hh fun a ha => hm a (List.mem_append_left _ ha)
      have hlt := Nat.lt_of_le_of_ne ho.length_le fun heq => hne (ho.eq_of_length heq)
      rw [Hist.outs_append, List.length_append, ht.outs, begun_append, begun_of_emits ht]
      omega
    · intro t o a e ht ho ha hfull
      by_cases hflush : a = .call .flush false
      · obtain rfl := hfull.mp hflush
        rw [hflush]
        exact (hpaid t ht).call .flush false
      · -- a write failed
        intro hm
        have hmoves := hm a (List.mem_append_right _ (List.mem_singleton_self _))
        cases ha with
        | @send buf r hr =>
          cases r with
          | wrote n => exact absurd hr (Nat.pos_iff_ne_zero.mp hmoves.1)
          | timeout => exact hmoves.elim
          | fault => exact hmoves.elim
        | flush => exact absurd rfl hflush

end Codec

section Serve

open Control

variable {d : Deps}

theorem pays_onTick {again : Control ControlError Unit} (h : again.Pays d 0) :
    (onTick d again).Pays d (frameLength d.json .heartbeat) := by
  apply (pays_send .heartbeat).attempt.bind
  intro r
  cases r with
  | ok _ => exact h
  | error e => exact pays_pure _

theorem pays_onMessage {again : Control ControlError Unit} (h : again.Pays d 0)
    (poll : Poll ClientMsg) : (onMessage again poll).Pays d 0 := by
  cases poll with
  | pending => exact h
  | ready msg =>
    cases msg with
    | none => exact pays_pure _
    | some msg => exact h

theorem pays_providerLoop (n : Nat) : (providerLoop d n).Pays d 0 := by
  induction n with
  | zero => exact pays_fail _
  | succ n ih =>
    apply pays_call
    intro branch
    cases branch with
    | tick => exact pays_onTick ih
    | control => exact pays_recvTurn.bind fun poll => pays_onMessage ih poll

theorem pays_serveProvider (n : Nat) (id : String) : (serveProvider d n id).Pays d 0 := by
  apply pays_call
  intro taken
  cases taken with
  | true => exact pays_send _
  | false =>
    apply pays_call
    intro _
    have hserve : (do sendServer d.json .ok; providerLoop d n : Control ControlError Unit).Pays d
        (frameLength d.json .ok) := (pays_send .ok).bind fun _ => pays_providerLoop n
    apply hserve.attempt.bind
    intro r
    apply pays_call
    intro _
    cases r with
    | ok _ => exact pays_pure _
    | error e => exact pays_fail e

theorem pays_consumerLoop (n : Nat) (id : String) : (consumerLoop d id n).Pays d 0 := by
  induction n with
  | zero => exact pays_fail _
  | succ n ih =>
    apply pays_call
    intro branch
    cases branch with
    | tick => exact pays_onTick ih
    | control => exact pays_recvTurn.bind fun poll => pays_onMessage ih poll
    | inbound stream =>
      cases stream with
      | none => exact pays_pure _
      | some stream =>
        apply pays_call
        intro permit
        cases permit with
        | true => exact pays_call fun _ => ih
        | false => exact ih

theorem pays_dispatch (n : Nat) (first : Option ClientMsg) : (dispatch d n first).Pays d 0 := by
  cases first with
  | none => exact pays_pure _
  | some msg =>
    cases msg with
    | authenticate tag => exact pays_pure _
    | heartbeat => exact pays_pure _
    | register channel => exact pays_call fun _ => pays_serveProvider n channel
    | connect channel =>
      exact pays_call fun _ => (pays_send .ok).bind fun _ => pays_consumerLoop n channel

theorem pays_serverHandshake (n : Nat) (a : Authenticator) :
    (a.serverHandshake d n).Pays d 0 := by
  apply pays_call
  intro challenge
  apply (pays_send (.challenge challenge)).bind
  intro _
  apply (pays_recv n).bind
  intro msg
  split
  · split
    · exact pays_pure _
    · exact pays_fail _
  · exact pays_fail _

/-- Every handler writes a frame as soon as it has begun it, and nothing else. -/
theorem paced_handler (d : Deps) (auth : Option Authenticator) (n : Nat) :
    Proc.wpAt (Paced d) (fun h _ => Owes d 0 h) (handler d auth n) [] := by
  have hpays : (handleConn d n auth).Pays d 0 := by
    apply pays_call
    intro accepted
    cases accepted with
    | false => exact pays_pure _
    | true =>
      apply (pays_recv n).bind
      intro first
      cases auth with
      | none => exact pays_dispatch n first
      | some a => exact (pays_serverHandshake n a).bind fun _ => pays_dispatch n first
  exact hpays [] [] fun _ => rfl

/-- A handler has written no more than it has begun. -/
theorem length_outs_le_begun {h : Hist Call Call.Reply} {auth : Option Authenticator}
    (ht : Proc.Trace (handler d auth) h) (hm : ∀ a ∈ h, Act.Moves a) :
    h.outs.length ≤ begun d h := by
  refine ht.always (P := fun h => (∀ a ∈ h, Act.Moves a) → h.outs.length ≤ begun d h)
    (paced_handler d auth) ?_ (fun h _ hh hm => (hh hm).le) hm
  intro k h hI hm
  cases k with
  | write => exact (hI hm).le
  | ret => exact (hI hm).le
  | read => exact (hI hm).le
  | call => exact (hI hm).le

/-- A handler that does something else than write has written all it has begun. -/
theorem length_outs_eq_begun {h : Hist Call Call.Reply} {auth : Option Authenticator}
    {a : Act Call Call.Reply} (ht : Proc.Trace (handler d auth) (h ++ [a]))
    (hm : ∀ a ∈ h, Act.Moves a) (ha : a.kind ≠ .write) : h.outs.length = begun d h := by
  have hI := ht.before (paced_handler d auth)
  cases a with
  | recv r => exact hI hm
  | call e r => exact hI hm
  | send bs r => exact absurd rfl ha

end Serve

/-! ## What a client reads -/

section Client

variable {d : Deps} {role : Role} {channel : String}

theorem readsAtMost_recvLoop {M : Type} [ControlMsg M] (t : Text) (n : Nat) (buf : Bytes) :
    (recvLoop M t n buf).ReadsAtMost READ_SIZE := by
  induction n generalizing buf with
  | zero =>
    cases hf : takeFrame buf with
    | some frame => rw [recvLoop_of_frame hf]; exact trivial
    | none => rw [recvLoop_zero hf]; exact trivial
  | succ n ih =>
    cases hf : takeFrame buf with
    | some frame => rw [recvLoop_of_frame hf]; exact trivial
    | none =>
      rw [recvLoop_succ hf]
      refine ⟨Nat.le_refl _, fun r => ?_⟩
      cases r with
      | data bs =>
        cases bs with
        | nil => exact trivial
        | cons b bs => exact ih _
      | timeout => exact trivial
      | fault => exact trivial

theorem readsAtMost_andThen {ε α β : Type} {b : Nat} {x : Control ε α} {f : α → Control ε β}
    {buf : Bytes} (hx : (x.run buf).ReadsAtMost b)
    (hf : ∀ a buf', ((f a).run buf').ReadsAtMost b) : ((x >>= f).run buf).ReadsAtMost b := by
  rw [Control.run_bind]
  refine hx.bind fun o => ?_
  obtain ⟨r, buf'⟩ := o
  cases r with
  | ok a => exact hf a buf'
  | error e => exact trivial

/-- A send reads nothing. -/
theorem readsAtMost_send {M : Type} [ControlMsg M] {b : Nat} (t : Text) (msg : M) (buf : Bytes) :
    ((send t msg).run buf).ReadsAtMost b := by
  have hwrite : ∀ bs buf, ((writeAllControl bs).run buf).ReadsAtMost b := by
    intro bs buf
    exact ((avoids_writeAll (by simp) _ _ _ bs).readsAtMost b).bind fun _ => trivial
  unfold send
  cases encode t msg with
  | none => exact trivial
  | some json =>
    refine readsAtMost_andThen (hwrite json buf) fun _ buf => ?_
    refine readsAtMost_andThen (hwrite [0] buf) fun _ buf => ?_
    intro flushed
    cases flushed with
    | true => exact trivial
    | false => exact trivial

theorem readsAtMost_connectStep {b : Nat} (what : String) (r : Except String Unit) (buf : Bytes) :
    ((connectStep what r).run buf).ReadsAtMost b := by
  cases r with
  | ok _ => exact trivial
  | error e => exact trivial

theorem readsAtMost_awaitAnswer (n : Nat) (buf : Bytes) :
    ((awaitAnswer d n role).run buf).ReadsAtMost READ_SIZE := by
  unfold awaitAnswer
  refine readsAtMost_andThen ((readsAtMost_recvLoop d.json n buf).bind fun _ => trivial) ?_
  intro answer buf
  cases answer with
  | none => exact trivial
  | some msg =>
    cases msg with
    | ok => exact trivial
    | challenge uuid => exact trivial
    | heartbeat => exact trivial
    | error reason => exact trivial

/-- A client reads into a buffer of `READ_SIZE` bytes. -/
theorem readsAtMost_connecting (n : Nat) :
    (connecting d role channel none n).ReadsAtMost READ_SIZE := by
  unfold connecting connectAs
  refine readsAtMost_andThen (fun _ => trivial) fun r buf => ?_
  refine readsAtMost_andThen (readsAtMost_connectStep _ r buf) fun _ buf => ?_
  refine readsAtMost_andThen (fun _ => trivial) fun r buf => ?_
  refine readsAtMost_andThen (readsAtMost_connectStep _ r buf) fun _ buf => ?_
  refine readsAtMost_andThen ((readsAtMost_send _ _ buf).bind fun _ => trivial) fun _ buf => ?_
  exact readsAtMost_awaitAnswer n buf

/-- A server that wants a secret writes nothing: its challenge has no JSON form. -/
theorem avoids_write_handler (a : Authenticator) (n : Nat) :
    (handler d (some a) n).Avoids .write := by
  have hchallenge : ∀ uuid buf, (sendServer d.json (.challenge uuid)).run buf =
      .ret (.error .json, buf) := fun uuid buf => send_of_encode_none rfl buf
  refine ⟨by simp, fun accepted => ?_⟩
  cases accepted with
  | false => exact trivial
  | true =>
    simp only [if_true, Proc.ret_bind, Control.cont_ok, Control.run_bind]
    refine Proc.Avoids.bind (avoids_recvLoop (by simp) _ _ _) fun o => ?_
    obtain ⟨r, buf⟩ := o
    cases r with
    | error e => exact trivial
    | ok first =>
      refine ⟨by simp, fun uuid => ?_⟩
      simp only [Proc.ret_bind, Control.cont_ok, Control.run_bind, hchallenge]
      exact trivial

/-- Whatever a server wants of its clients, its first frame is `ok`. -/
theorem outs_handler {auth : Option Authenticator} {h : Hist Call Call.Reply} {ack : Bytes}
    (hack : encode d.json ServerMsg.ok = some ack) (ht : Proc.Trace (handler d auth) h) :
    h.outs <+: ack ++ [0] ∨ ack ++ [0] <+: h.outs := by
  cases auth with
  | none =>
    refine ht.always (I := ServerLog ack)
      (Q := fun h _ => h.outs <+: ack ++ [0] ∨ ack ++ [0] <+: h.outs) (fun n => ?_)
      (fun _ _ hl => hl.outs) (fun _ _ hq => hq)
    exact Proc.wpAt_mono (fun _ _ hl => hl) (fun _ _ hq => hq.2)
      (@wpAt_handleConn d n .consumer "" ack hack)
  | some a =>
    obtain ⟨n, hn⟩ := ht
    obtain ⟨q, hr⟩ := hn n (Nat.le_refl n)
    left
    rw [(avoids_write_handler a n).outs hr]
    exact List.nil_prefix

/-- A client that waits has read less than a frame, and its last read takes no more than
its buffer holds. -/
theorem length_ins_le {h : Hist Call Call.Reply} {ack x : Bytes}
    (ht : Proc.Trace (connecting d role channel none) h) (hpre : h.ins <+: x)
    (hx : x <+: ack ++ [0] ∨ ack ++ [0] <+: x) : h.ins.length ≤ ack.length + READ_SIZE := by
  obtain ⟨req, hreq⟩ := Role.exists_encode_request d.json role channel
  induction h using List.reverseRecOn with
  | nil => exact Nat.zero_le _
  | append_singleton h a ih =>
    rw [Hist.ins_append, Hist.ins_singleton] at hpre ⊢
    have hbefore : Hist.ins h <+: x := (List.prefix_append _ _).trans hpre
    cases a with
    | recv r =>
      have hlog : ClientLog req .read h :=
        ht.before (Q := fun _ _ => True) (I := ClientLog req) fun n =>
          Proc.wpAt_mono (fun _ _ hl => hl) (fun _ _ _ => trivial) (wpAt_connectAs hreq)
      have hpart := length_le_of_frames hlog.leads.2 hbefore hx
      obtain ⟨n, hn⟩ := ht
      obtain ⟨q, hr⟩ := hn n (Nat.le_refl n)
      have hread := ((readsAtMost_connecting n).run hr).2 _
        (List.mem_append_right _ (List.mem_singleton_self _))
      rw [List.length_append]
      exact Nat.add_le_add hpart hread
    | send bs r => simpa [Act.ins] using ih ht.of_append hbefore
    | call e r => simpa [Act.ins] using ih ht.of_append hbefore

end Client

/-! ## The window -/

section Window

variable {d : Deps} {auth : Option Authenticator} {role : Role} {channel : String}
variable {secret : Option String} {s s' : ControlLine}

/-- A client with a secret never gets its channel. -/
theorem Opened.no_secret (ho : Opened d role channel secret s) : secret = none := by
  cases secret with
  | none => rfl
  | some secret =>
    obtain ⟨n, hn⟩ := ho
    obtain ⟨o, ⟨c, hc⟩, hr⟩ := hn n (Nat.le_refl n)
    exact absurd hc (Proc.wp_run (never_connected d n role channel secret [] []) hr c)

/-- A client that has its channel has read an answer. -/
theorem Opened.terminated (ho : Opened d role channel none s) : Terminated s.left.ins := by
  obtain ⟨req, hreq⟩ := Role.exists_encode_request d.json role channel
  obtain ⟨n, hn⟩ := ho
  obtain ⟨⟨r, buf⟩, ⟨c, hc⟩, hr⟩ := hn n (Nat.le_refl n)
  obtain ⟨hend, -⟩ := Proc.wpAt_run (wpAt_connectAs (n := n) hreq) hr
  obtain rfl : r = .ok c := hc
  cases hend with
  | connected hins => exact hins

/-- The answer is short. -/
theorem length_ok_le {ack : Bytes} (hack : encode d.json ServerMsg.ok = some ack) :
    ack.length ≤ 44 := by
  have hprint := d.json.length_print (Json.tagged "type" "ok" []) ⟨trivial, trivial⟩
  obtain rfl : d.json.print (Json.tagged "type" "ok" []) = ack := Option.some.inj hack
  exact hprint

/-- It has read far less than it would have to read to give anything back. -/
theorem Opened.length_ins_lt (ho : Opened d role channel secret s)
    (h : Line.History (connecting d role channel secret) (handler d auth) yamux s) :
    s.left.ins.length < yamux.least := by
  obtain rfl := ho.no_secret
  obtain ⟨ack, hack⟩ : ∃ ack, encode d.json ServerMsg.ok = some ack := ⟨_, rfl⟩
  have hread := length_ins_le h.leftTrace ⟨_, h.rightSent.symm⟩ (outs_handler hack h.rightTrace)
  calc s.left.ins.length ≤ ack.length + READ_SIZE := hread
    _ ≤ 44 + READ_SIZE := Nat.add_le_add_right (length_ok_le hack) _
    _ < yamux.least := by decide

theorem flowing_of_le (hr : ControlLineReach d auth role channel secret s)
    (ho : Opened d role channel secret s) (hle : begun d s.right ≤ WINDOW) :
    Flowing d auth role channel secret s := by
  have h := hr.history
  have houts := length_outs_le_begun h.rightTrace h.rightMoves
  have hsum : s.right.outs.length = s.left.ins.length + s.toLeft.length := by
    rw [h.rightSent, List.length_append]
  have hkept := h.leftKept.le
  have hread : 0 < s.left.ins.length := by
    obtain rfl := ho.no_secret
    exact List.length_pos_of_mem ho.terminated
  refine ⟨by omega, fun bs ht => ?_⟩
  have hlt : s.right.outs.length < begun d s.right := ht.before (paced_handler d auth) h.rightMoves
  have hroom : s.toLeft.length + 1 ≤ yamux.size - s.keptLeft := by
    show s.toLeft.length + 1 ≤ WINDOW - s.keptLeft
    omega
  exact ⟨_, .right ht ⟨Nat.one_pos, id, hroom, rfl, rfl⟩, rfl⟩

/-- A client that has its channel does nothing on the control substream. -/
theorem Opened.left_eq (ho : Opened d role channel secret s)
    (hs : ControlStep d auth role channel secret s s') : s'.left = s.left := by
  cases hs with
  | left ht _ => exact absurd ht (ho.not_trace _)
  | right _ _ => rfl
  | giveLeft _ _ => rfl
  | giveRight _ _ => rfl

/-- A handler that has begun more than a window does nothing but write. -/
theorem Opened.stuck (ho : Opened d role channel secret s)
    (h : Line.History (connecting d role channel secret) (handler d auth) yamux s)
    (hlt : WINDOW < begun d s.right) (hs : ControlStep d auth role channel secret s s') :
    s'.right.calls = s.right.calls ∧ s'.right.ins = s.right.ins := by
  cases hs with
  | left ht _ => exact absurd ht (ho.not_trace _)
  | giveLeft _ _ => exact ⟨rfl, rfl⟩
  | giveRight _ _ => exact ⟨rfl, rfl⟩
  | @right a i o ht ha =>
    have hfits : s.right.outs.length ≤ WINDOW := h.length_outs_le (ho.length_ins_lt h)
    have hwrites : a.kind = .write := by
      by_contra hkind
      have hall := length_outs_eq_begun ht h.rightMoves hkind
      omega
    cases a with
    | send bs r =>
      refine ⟨?_, ?_⟩
      · rw [Hist.calls_append, Hist.calls_send, List.append_nil]
      · rw [Hist.ins_append, Hist.ins_send, List.append_nil]
    | recv r => cases hwrites
    | call e r => cases hwrites

/-- So it is in every run that follows. -/
theorem Opened.stuck_steps (ho : Opened d role channel secret s)
    (hr : ControlLineReach d auth role channel secret s) (hlt : WINDOW < begun d s.right)
    (hs : ControlSteps d auth role channel secret s s') :
    s'.left = s.left ∧ s'.right.calls = s.right.calls ∧ s'.right.ins = s.right.ins := by
  induction hs with
  | refl => exact ⟨rfl, rfl, rfl⟩
  | @tail s₁ s₂ hruns hs ih =>
    obtain ⟨hleft, hcalls, hins⟩ := ih
    have h₁ := Line.Reach.history (hr.trans hruns)
    have ho₁ : Opened d role channel secret s₁ := by
      unfold Opened
      rw [hleft]
      exact ho
    have hlt₁ : WINDOW < begun d s₁.right := by
      unfold begun
      rw [hcalls]
      exact hlt
    obtain ⟨hcalls', hins'⟩ := ho₁.stuck h₁ hlt₁ hs
    exact ⟨(ho₁.left_eq hs).trans hleft, hcalls'.trans hcalls, hins'.trans hins⟩

/-- While a `PairedChannel` is open, in every run: the window is not used up as long as
the frames that the server has begun (its answer, and a heartbeat for every tick) fit
into one window together.  Once they do not, the handler makes no call and reads nothing
any more. -/
theorem heartbeats_exact (d : Deps) (auth : Option Authenticator) (role : Role) (channel : String)
    (secret : Option String) (s : ControlLine) (hr : ControlLineReach d auth role channel secret s)
    (ho : Opened d role channel secret s) :
    (begun d s.right ≤ WINDOW → Flowing d auth role channel secret s) ∧
    (WINDOW < begun d s.right → ∀ s', ControlSteps d auth role channel secret s s' →
      s'.right.calls = s.right.calls ∧ s'.right.ins = s.right.ins) := by
  refine ⟨fun hle => flowing_of_le hr ho hle, fun hlt s' hs => ?_⟩
  obtain ⟨-, hcalls, hins⟩ := ho.stuck_steps hr hlt hs
  exact ⟨hcalls, hins⟩

end Window

/-! ## Twelve thousand ticks -/

section Sample

variable {d : Deps} {id : String} {json ack beat : Bytes}

/-- A client without a secret asks to be served. -/
theorem exists_requesting (role : Role) (hjson : encode d.json (role.request id) = some json) :
    ∃ t, t.ins = [] ∧ t.outs = json ++ [0] ∧ (∀ a ∈ t, Act.Moves a) ∧
      ∀ n, (connecting d role id none n).Run t ((awaitAnswer d n role).run []) := by
  obtain ⟨t, hrun, hins, houts, -, hmoves⟩ := goes_send hjson []
  refine ⟨.call .connect (.ok ()) :: .call .openControl (.ok ()) :: t, hins, houts, ?_, fun n => ?_⟩
  · intro a ha
    rcases List.mem_cons.mp ha with rfl | ha
    · exact trivial
    · rcases List.mem_cons.mp ha with rfl | ha
      · exact trivial
      · exact hmoves a ha
  · exact .head .call (.head .call ((hrun.bind _).bind _))

/-- It gets its channel once it has read the answer. -/
theorem run_answered (role : Role) (hack : encode d.json ServerMsg.ok = some ack)
    (hlen : (ack ++ [0]).length ≤ READ_SIZE) (n : Nat) :
    ((awaitAnswer d (n + 1) role).run []).Run [.recv (.data (ack ++ [0]))]
      (.ret (.ok role.channel, [])) := by
  exact ((run_recvLoop hack hlen n).bind _).bind _

/-- A turn of the loop at a tick. -/
theorem exists_beating (id : String) (hbeat : encode d.json ServerMsg.heartbeat = some beat) :
    ∃ t : Hist Call Call.Reply, t.ins = [] ∧ t.outs = beat ++ [0] ∧ (∀ a ∈ t, Act.Moves a) ∧
      begun d t = frameLength d.json .heartbeat ∧
      ∀ n, ((consumerLoop d id (n + 1)).run []).Run t ((consumerLoop d id n).run []) := by
  obtain ⟨t, hrun, hins, houts, hcalls, hmoves⟩ := goes_send hbeat []
  refine ⟨.call .selectConsumer .tick :: t, hins, houts, ?_, ?_, fun n => ?_⟩
  · intro a ha
    rcases List.mem_cons.mp ha with rfl | ha
    · exact trivial
    · exact hmoves a ha
  · have hbegun : begun d t = 0 := by
      unfold begun
      rw [hcalls]
      rfl
    show begun d ([.call .selectConsumer .tick] ++ t) = _
    rw [begun_append, hbegun]
    rfl
  · exact .head .call ((hrun.bind _).bind _)

/-- A turn of the loop at a tick, up to the second write of the frame. -/
theorem run_two_writes (id : String) {b c : UInt8} {bs cs : Bytes} {m : Nat}
    (hbeat : encode d.json ServerMsg.heartbeat = some (b :: bs)) (hm : m ≤ bs.length)
    (hrest : bs.drop m = c :: cs) (n : Nat) :
    ∃ q, ((consumerLoop d id (n + 1)).run []).Run
      [.call .selectConsumer .tick, .send (b :: bs) (.wrote (m + 1)),
        .send (c :: cs) (.wrote 1)] q := by
  have hwrite : ∀ (b : UInt8) (bs : Bytes) (m : Nat), m ≤ bs.length →
      (writeAll ControlError.io ControlError.io ControlError.io (b :: bs) :
        Proc Call Call.Reply (Except ControlError Unit)).Step (.send (b :: bs) (.wrote (m + 1)))
        (writeAll ControlError.io ControlError.io ControlError.io (bs.drop m)) := by
    intro b bs m hm
    rw [writeAll_cons]
    exact .write (Nat.succ_le_succ hm)
  have hfirst := hwrite b bs m hm
  rw [hrest] at hfirst
  have hwrites := Proc.Run.head hfirst (.head (hwrite c cs 0 (Nat.zero_le _)) (.refl _))
  have hsend : ∃ q, ((sendServer d.json .heartbeat).run []).Run
      [.send (b :: bs) (.wrote (m + 1)), .send (c :: cs) (.wrote 1)] q := by
    unfold sendServer send
    rw [hbeat]
    exact ⟨_, (hwrites.bind _).bind _⟩
  obtain ⟨q, hsend⟩ := hsend
  exact ⟨_, .head .call ((hsend.bind _).bind _)⟩

/-- A destination has its channel, has read the server's answer and given nothing back,
and `k` ticks have passed. -/
structure Ticked (d : Deps) (id : String) (k : Nat) (s : ControlLine) : Prop where
  reach : ControlLineReach d none .consumer id none s
  opened : Opened d .consumer id none s
  kept : s.keptLeft = frameLength d.json .ok
  begun : begun d s.right = frameLength d.json .ok + frameLength d.json .heartbeat * k
  toRight : s.toRight = []
  toLeft : s.toLeft.length = frameLength d.json .heartbeat * k
  serves : ∀ n, (handler d none (n + k + 1)).Run s.right ((consumerLoop d id (n + 1)).run [])

/-- A destination connects. -/
theorem exists_ticked_zero (hjson : encode d.json (ClientMsg.connect id) = some json)
    (hlen : (json ++ [0]).length ≤ READ_SIZE) (hack : encode d.json ServerMsg.ok = some ack)
    (hlen' : (ack ++ [0]).length ≤ READ_SIZE) : ∃ s, Ticked d id 0 s := by
  obtain ⟨t, hins, houts, hmoves, hrun⟩ := exists_requesting .consumer hjson
  obtain ⟨t', hcalls', hins', houts', hmoves', hrun'⟩ := exists_connecting hjson hlen hack
  have hwindow : READ_SIZE ≤ yamux.size := by decide
  -- the client asks, the server answers, the client reads the answer
  have hasks : ControlSteps d none .consumer id none Line.start ⟨t, [], t.outs, [], 0, 0⟩ := by
    have hroom : 0 + 0 + (Hist.outs t).length ≤ yamux.size := by
      rw [houts, Nat.zero_add]
      exact hlen.trans hwindow
    have hsteps : ControlSteps d none .consumer id none Line.start
        ⟨t, [], t.outs, [], 0 + t.ins.length, 0⟩ :=
      Line.steps_left (s := Line.start) ⟨0, fun n _ => ⟨_, hrun n⟩⟩ hmoves (by rw [hins]; rfl) hroom
    rw [hins] at hsteps
    exact hsteps
  have hserved : ControlSteps d none .consumer id none ⟨t, [], t.outs, [], 0, 0⟩
      ⟨t, t', [], t'.outs, 0, 0 + t'.ins.length⟩ := by
    have htrace : Proc.Trace (handler d none) t' := .of_add 1 fun n => ⟨_, hrun' n⟩
    have hroom : 0 + 0 + (Hist.outs t').length ≤ yamux.size := by
      rw [houts', Nat.zero_add]
      exact hlen'.trans hwindow
    refine Line.steps_right (s := ⟨t, [], t.outs, [], 0, 0⟩) htrace hmoves' ?_ hroom
    show t.outs = t'.ins ++ []
    rw [houts, hins', List.append_nil]
  have hends : Proc.EndsIn (connecting d .consumer id none) (fun o => ∃ c, o.1 = .ok c)
      (t ++ [.recv (.data (ack ++ [0]))]) := by
    refine ⟨1, fun n hn => ?_⟩
    obtain ⟨n, rfl⟩ := Nat.exists_eq_add_of_le' hn
    exact ⟨_, ⟨_, rfl⟩, (hrun (n + 1)).trans (run_answered .consumer hack hlen' n)⟩
  have hreads : ControlSteps d none .consumer id none
      ⟨t, t', [], t'.outs, 0, 0 + t'.ins.length⟩
      ⟨t ++ [.recv (.data (ack ++ [0]))], t', [], [], 0 + (ack ++ [0]).length,
        0 + t'.ins.length⟩ := by
    have htrace : Proc.Trace (connecting d .consumer id none)
        (t ++ [.recv (.data (ack ++ [0]))]) := hends.trace
    have hroom : 0 + (0 + t'.ins.length) + 0 ≤ yamux.size := by
      rw [hins', Nat.zero_add, Nat.zero_add]
      exact hlen.trans hwindow
    have hdata : Hist.ins ([.recv (.data (ack ++ [0]))] : Hist Call Call.Reply) = ack ++ [0] :=
      Hist.ins_recv_data _
    rw [← congrArg List.length hdata]
    refine Line.steps_left (s := ⟨t, t', [], t'.outs, 0, 0 + t'.ins.length⟩) htrace ?_ ?_ hroom
    · intro a ha
      rw [List.mem_singleton.mp ha]
      exact List.append_ne_nil_of_right_ne_nil _ (by simp)
    · rw [hdata, List.append_nil]
      exact houts'
  refine ⟨_, (hasks.trans hserved).trans hreads, hends, ?_, ?_, rfl, rfl, hrun'⟩
  · show 0 + (ack ++ [0]).length = _
    rw [Nat.zero_add, frameLength_of_encode hack]
  · show Transport.begun d t' = _
    unfold Transport.begun
    rw [hcalls']
    exact Nat.zero_add _

/-- One more tick, if its frame fits into the window. -/
theorem Ticked.succ {k : Nat} {s : ControlLine} (h : Ticked d id k s)
    (hbeat : encode d.json ServerMsg.heartbeat = some beat)
    (hroom : frameLength d.json .ok + frameLength d.json .heartbeat * (k + 1) ≤ WINDOW) :
    ∃ s', Ticked d id (k + 1) s' := by
  obtain ⟨t, hins, houts, hmoves, hbegun, hrun⟩ := exists_beating id hbeat
  have hlen : t.outs.length = frameLength d.json .heartbeat := by
    rw [houts, frameLength_of_encode hbeat]
  have hserves : ∀ n, (handler d none (n + (k + 1) + 1)).Run (s.right ++ t)
      ((consumerLoop d id (n + 1)).run []) := by
    intro n
    have hturn := (h.serves (n + 1)).trans (hrun (n + 1))
    rwa [Nat.add_right_comm n 1 k] at hturn
  have htrace : Proc.Trace (handler d none) (s.right ++ t) :=
    .of_add (k + 1 + 1) fun n => ⟨_, hserves n⟩
  have hroom' : s.toLeft.length + s.keptLeft + t.outs.length ≤ WINDOW := by
    rw [h.toLeft, h.kept, hlen, Nat.add_right_comm, ← Nat.mul_succ, Nat.add_comm]
    exact hroom
  have hsteps : ControlSteps d none .consumer id none s
      { s with right := s.right ++ t, toRight := [], toLeft := s.toLeft ++ t.outs
               keptRight := s.keptRight + t.ins.length } :=
    Line.steps_right htrace hmoves (by rw [hins, h.toRight]; rfl) hroom'
  refine ⟨_, h.reach.trans hsteps, h.opened, h.kept, ?_, rfl, ?_, hserves⟩
  · show Transport.begun d (s.right ++ t) = _
    rw [begun_append, h.begun, hbegun, Nat.mul_succ, Nat.add_assoc]
  · show (s.toLeft ++ t.outs).length = _
    rw [List.length_append, h.toLeft, hlen, Nat.mul_succ]

/-- The next tick, if its frame fits in part: the handler has more to write. -/
theorem Ticked.exhausts {k m : Nat} {s : ControlLine} {b c : UInt8} {bs cs : Bytes}
    (h : Ticked d id k s) (hbeat : encode d.json ServerMsg.heartbeat = some (b :: bs))
    (hm : m ≤ bs.length) (hrest : bs.drop m = c :: cs)
    (hroom : frameLength d.json .ok + frameLength d.json .heartbeat * k + (m + 1) ≤ WINDOW) :
    ∃ s', ControlLineReach d none .consumer id none s' ∧ Opened d .consumer id none s' ∧
      s'.right.outs.length =
        frameLength d.json .ok + frameLength d.json .heartbeat * k + (m + 1) ∧
      Transport.begun d s'.right =
        frameLength d.json .ok + frameLength d.json .heartbeat * (k + 1) ∧
      Proc.Trace (handler d none) (s'.right ++ [.send (c :: cs) (.wrote 1)]) := by
  have hhistory := h.reach.history
  have hread := hhistory.leftKept.all (h.opened.length_ins_lt hhistory)
  have hsum : s.right.outs.length = s.toLeft.length + s.keptLeft := by
    rw [hhistory.rightSent, List.length_append, hread, Nat.add_comm]
  rw [h.toLeft, h.kept, Nat.add_comm] at hsum
  generalize hturn : ([.call .selectConsumer .tick, .send (b :: bs) (.wrote (m + 1))] :
    Hist Call Call.Reply) = t
  have hlen : (Hist.outs t).length = m + 1 := by
    rw [← hturn]
    simp [Hist.outs, Act.outs, hm]
  have htrace : Proc.Trace (handler d none) (s.right ++ t ++ [.send (c :: cs) (.wrote 1)]) := by
    refine .of_add (k + 1) fun n => ?_
    obtain ⟨q, hq⟩ := run_two_writes id hbeat hm hrest n
    refine ⟨q, ?_⟩
    rw [List.append_assoc, ← hturn]
    exact (h.serves n).trans hq
  have hmoves : ∀ a ∈ t, Act.Moves a := by
    rw [← hturn]
    intro a ha
    rcases List.mem_cons.mp ha with rfl | ha
    · exact trivial
    · rw [List.mem_singleton.mp ha]
      exact ⟨Nat.succ_pos m, Nat.succ_le_succ hm⟩
  have hroom' : s.toLeft.length + s.keptLeft + (Hist.outs t).length ≤ WINDOW := by
    rw [h.toLeft, h.kept, hlen, Nat.add_comm (_ * k)]
    exact hroom
  have hsteps : ControlSteps d none .consumer id none s
      { s with right := s.right ++ t, toRight := [], toLeft := s.toLeft ++ Hist.outs t
               keptRight := s.keptRight + (Hist.ins t).length } :=
    Line.steps_right htrace.of_append hmoves (by rw [h.toRight, ← hturn]; rfl) hroom'
  refine ⟨_, h.reach.trans hsteps, h.opened, ?_, ?_, htrace⟩
  · show (Hist.outs (s.right ++ t)).length = _
    rw [Hist.outs_append, List.length_append, hsum, hlen]
  · show Transport.begun d (s.right ++ t) = _
    rw [begun_append, h.begun, ← hturn, Nat.mul_succ, Nat.add_assoc]
    rfl

end Sample

theorem length_frame_ok : frameLength sampleDeps.json .ok = 14 := by decide

theorem length_frame_heartbeat : frameLength sampleDeps.json .heartbeat = 21 := by decide

/-- As many ticks as the window takes. -/
theorem exists_ticked {k : Nat} (hk : 14 + 21 * k ≤ WINDOW) : ∃ s, Ticked sampleDeps "db" k s := by
  obtain ⟨json, ack, hjson, hlen, hack⟩ := exists_connect
  have hlen' : (ack ++ [0]).length ≤ READ_SIZE := by
    rw [← frameLength_of_encode hack, length_frame_ok]
    decide
  induction k with
  | zero => exact exists_ticked_zero hjson hlen hack hlen'
  | succ k ih =>
    obtain ⟨s, h⟩ := ih (by omega)
    refine h.succ rfl ?_
    rw [length_frame_ok, length_frame_heartbeat]
    exact hk

/-- The window takes the answer, 12482 heartbeats and eight bytes of the next. -/
theorem exists_exhausted :
    ∃ s bs, ControlLineReach sampleDeps none .consumer "db" none s ∧
      Opened sampleDeps .consumer "db" none s ∧ s.right.outs.length = WINDOW ∧
      WINDOW < begun sampleDeps s.right ∧
      Proc.Trace (handler sampleDeps none) (s.right ++ [.send bs (.wrote 1)]) := by
  obtain ⟨s, h⟩ := exists_ticked (k := 12482) (by decide)
  obtain ⟨b, bs, c, cs, hbeat, hlen, hrest⟩ : ∃ b bs c cs,
      encode sampleDeps.json ServerMsg.heartbeat = some (b :: bs) ∧ 7 ≤ bs.length ∧
        bs.drop 7 = c :: cs := ⟨_, _, _, _, rfl, by decide, rfl⟩
  obtain ⟨s', hr, ho, houts, hbegun, ht⟩ := h.exhausts hbeat hlen hrest (by
    rw [length_frame_ok, length_frame_heartbeat]
    decide)
  rw [length_frame_ok, length_frame_heartbeat] at houts hbegun
  refine ⟨s', c :: cs, hr, ho, houts, ?_, ht⟩
  rw [hbegun]
  decide

/-- A destination that has just connected; and one whose handler makes no turn of its
loop any more. -/
theorem heartbeats_at_either_end :
    ∃ s s', ControlLineReach sampleDeps none .consumer "db" none s ∧
      Opened sampleDeps .consumer "db" none s ∧ Flowing sampleDeps none .consumer "db" none s ∧
      ControlLineReach sampleDeps none .consumer "db" none s' ∧
      Opened sampleDeps .consumer "db" none s' ∧
      ∀ s'', ControlSteps sampleDeps none .consumer "db" none s' s'' →
        s''.right.calls = s'.right.calls ∧ s''.right.ins = s'.right.ins := by
  obtain ⟨s, h⟩ := exists_ticked (k := 0) (by decide)
  obtain ⟨s', -, hr', ho', -, hlt', -⟩ := exists_exhausted
  have hle : begun sampleDeps s.right ≤ WINDOW := by
    rw [h.begun, length_frame_ok, length_frame_heartbeat]
    decide
  exact ⟨s, s', h.reach, h.opened,
    (heartbeats_exact sampleDeps none .consumer "db" none s h.reach h.opened).1 hle, hr', ho',
    (heartbeats_exact sampleDeps none .consumer "db" none s' hr' ho').2 hlt'⟩

/-- The window of an open channel can be used up. -/
theorem not_heartbeats_flow :
    ¬ ∀ (d : Deps) (auth : Option Authenticator) (role : Role) (channel : String)
      (secret : Option String) (s : ControlLine),
      ControlLineReach d auth role channel secret s → Opened d role channel secret s →
      Flowing d auth role channel secret s := by
  intro hflow
  obtain ⟨s, bs, hr, ho, hfull, -, ht⟩ := exists_exhausted
  obtain ⟨s', hs, hright⟩ := (hflow _ _ _ _ _ s hr ho).writes bs ht
  have hread : s'.left.ins.length < yamux.least := by
    rw [ho.left_eq hs]
    exact ho.length_ins_lt hr.history
  have h' := Line.Reach.history (hr.tail hs)
  have hfits : s'.right.outs.length ≤ WINDOW := h'.length_outs_le hread
  have hmoves := h'.rightMoves (.send bs (.wrote 1)) (by simp [hright])
  rw [hright, Hist.outs_append, Hist.outs_send_wrote, List.length_append, hfull,
    List.length_take_of_le hmoves.2] at hfits
  exact absurd hfits (Nat.not_succ_le_self _)

end RustBackup.Transport
