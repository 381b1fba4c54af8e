/-
  Transport/Handshake.lean --- who is admitted: a client's connect against the
  server's handler.

  Sources: crates/rb-transport/src/{auth,client,server}.rs.

  With a secret on the server no client is ever served, because the challenge has no
  JSON form and cannot be sent; with a secret on the client the client never
  succeeds, because no challenge can be received (`never_entered`,
  `never_connected`).  Without secrets every run admits the client.  The argument
  for that is about who can fail first: a side fails only if the other one has
  returned, and neither returns before it has done its part.
-/
import RustBackup.Transport.Server
import RustBackup.Io.Backpressure

set_option autoImplicit false

namespace RustBackup.Transport

open RustBackup.Serde RustBackup.Io RustBackup.Core

/-! ## With a secret on either side -/

/-- No serve function was entered. -/
def Outside (h : Hist Call Call.Reply) : Prop :=
  ∀ role id, (⟨.enter role id, ()⟩ : Sigma Call.Reply) ∉ h.calls

theorem Outside.append {h t : Hist Call Call.Reply} (hh : Outside h) (ht : t.calls = []) :
    Outside (h ++ t) := by
  intro role id
  rw [Hist.calls_append, ht, List.append_nil]
  exact hh role id

theorem Outside.call {h : Hist Call Call.Reply} (hh : Outside h) {e : Call} (r : e.Reply)
    (he : ∀ role id, e ≠ .enter role id) : Outside (h ++ [.call e r]) := by
  intro role id hmem
  rw [Hist.calls_append, Hist.calls_call, List.mem_append, List.mem_singleton] at hmem
  rcases hmem with hmem | hmem
  · exact hh role id hmem
  · exact he role id (congrArg Sigma.fst hmem).symm

/-- A server with a secret serves nobody: it cannot send its challenge. -/
theorem never_entered (d : Deps) (n : Nat) (a : Authenticator) {h : Hist Call Call.Reply}
    {q : Proc Call Call.Reply (Except ControlError Unit × Bytes)}
    (hr : ((handleConn d n (some a)).run []).Run h q) : Outside h := by
  have hchallenge : ∀ uuid buf, (sendServer d.json (.challenge uuid)).run buf =
      .ret (.error .json, buf) := fun uuid buf => send_of_encode_none rfl buf
  -- whatever the first message was, the handshake fails
  have hrest : ∀ h (r : Except ControlError (Option ClientMsg)) buf, Outside h →
      Proc.wpAt (fun _ => Outside) (fun h _ => Outside h)
        (Control.cont (fun first => do a.serverHandshake d n; dispatch d n first) (r, buf)) h := by
    intro h r buf hh
    cases r with
    | error e => exact hh
    | ok first =>
      refine ⟨hh, fun uuid => ?_⟩
      simp only [Proc.ret_bind, Control.cont_ok, Control.run_bind, hchallenge]
      exact hh.call uuid (by simp)
  have hwp : Proc.wpAt (fun _ => Outside) (fun h _ => Outside h)
      ((handleConn d n (some a)).run []) [] := by
    have hnil : Outside [] := fun role id hmem => by simp at hmem
    refine ⟨hnil, fun r => ?_⟩
    have haccept : Outside ([] ++ [.call .acceptControl r]) := hnil.call r (by simp)
    cases r with
    | false => exact haccept
    | true =>
      simp only [if_true, Proc.ret_bind, Control.cont_ok, Control.run_bind]
      rw [Proc.wpAt_bind]
      refine wpAt_recvLoop ?_ ?_ ?_ ?_
      · exact fun t i ht _ => haccept.append ht.calls
      · exact fun t i json rest ht _ _ => hrest _ _ _ (haccept.append ht.calls)
      · exact fun t i q r ht _ _ _ => hrest _ _ _ ((haccept.append ht.calls).append rfl)
      · exact fun t i ht _ _ => hrest _ _ _ (haccept.append ht.calls)
  exact Proc.wp_always (I := Outside) (Q := fun h _ => Outside h) (fun h _ hq => hq)
    (Proc.wpAt_const.mp hwp) hr

/-- The task never succeeds, whatever its environment does. -/
def Control.Fails {ε α : Type} (x : Control ε α) : Prop :=
  ∀ buf h, Proc.wp (fun _ => True) (fun _ o => ∀ a, o.1 ≠ .ok a) (x.run buf) h

theorem Control.fails_bind {ε α β : Type} {P : Except ε α → Prop} {x : Control ε α}
    {f : α → Control ε β}
    (hx : ∀ buf h, Proc.wp (fun _ => True) (fun _ o => P o.1) (x.run buf) h)
    (hf : ∀ a, P (.ok a) → (f a).Fails) : (x >>= f).Fails := by
  intro buf h
  rw [Control.run_bind, Proc.wp_bind]
  refine Proc.wp_mono (fun _ h => h) (fun h' o ho => ?_) (hx buf h)
  obtain ⟨r, buf'⟩ := o
  cases r with
  | ok a => exact hf a ho buf' h'
  | error e => exact fun a ha => by cases ha

theorem Control.fails_of_rest {ε α β : Type} {x : Control ε α} {f : α → Control ε β}
    (hf : ∀ a, (f a).Fails) : (x >>= f).Fails :=
  Control.fails_bind (P := fun _ => True)
    (fun _ _ => Proc.wp_of_forall (fun _ => trivial) (fun _ _ => trivial) _ _) fun a _ => hf a

theorem Control.Fails.bind {ε α β : Type} {x : Control ε α} (hx : x.Fails)
    (f : α → Control ε β) : (x >>= f).Fails :=
  Control.fails_bind (P := fun r => ∀ a, r ≠ .ok a) hx fun a ha => absurd rfl (ha a)

theorem Control.Fails.mapErr {ε ε' α : Type} {x : Control ε α} (hx : x.Fails) (f : ε → ε') :
    (x.mapErr f).Fails := by
  intro buf h
  rw [Control.run_mapErr, Proc.wp_bind]
  refine Proc.wp_mono (fun _ h => h) (fun h' o ho => ?_) (hx buf h)
  obtain ⟨r, buf'⟩ := o
  cases r with
  | ok a => exact absurd rfl (ho a)
  | error e => exact fun a ha => by cases ha

theorem Control.fails_fail {ε α : Type} (e : ε) : (Control.fail e : Control ε α).Fails :=
  fun _ _ a ha => by cases ha

/-- No frame reads as a challenge. -/
theorem frameResult_ne_challenge (t : Text) (json : Bytes) (uuid : Uuid) :
    frameResult ServerMsg t json ≠ .ok (some (.challenge uuid)) := by
  intro h
  unfold frameResult at h
  cases hdec : decode ServerMsg t json with
  | none => rw [hdec] at h; cases h
  | some msg =>
    rw [hdec] at h
    cases h
    obtain ⟨j, -, hj⟩ := Option.bind_eq_some_iff.mp hdec
    exact ServerMsg.deserialize_ne_challenge j uuid hj

theorem clientHandshake_fails (d : Deps) (n : Nat) (a : Authenticator) :
    (a.clientHandshake d n).Fails := by
  refine Control.fails_bind (P := fun r => ∀ uuid, r ≠ .ok (some (.challenge uuid))) ?_ ?_
  · intro buf h
    refine Proc.wpAt_const.mp (wpAt_recvLoop (fun _ _ _ _ => trivial) ?_ ?_ ?_)
    · exact fun t i json rest _ _ _ uuid => frameResult_ne_challenge d.json json uuid
    · exact fun t i q r _ _ _ hr uuid => hr _
    · exact fun t i _ _ _ uuid hr => by cases hr
  · intro msg hmsg
    cases msg with
    | none => exact Control.fails_fail _
    | some msg =>
      cases msg with
      | challenge uuid => exact absurd rfl (hmsg uuid)
      | ok => exact Control.fails_fail _
      | heartbeat => exact Control.fails_fail _
      | error reason => exact Control.fails_fail _

/-- A client with a secret never succeeds: it cannot receive a challenge. -/
theorem never_connected (d : Deps) (n : Nat) (role : Role) (channel secret : String) :
    (connectAs d n role channel (some secret)).Fails := by
  refine Control.fails_of_rest fun _ => Control.fails_of_rest fun _ => ?_
  refine Control.fails_of_rest fun _ => Control.fails_of_rest fun _ => ?_
  refine Control.fails_of_rest fun _ => ?_
  exact ((clientHandshake_fails d n _).mapErr _).bind _

/-! ## Without secrets

`req` and `ack` are the texts of the client's request and of the server's answer. -/

/-- The bytes hold a whole frame. -/
def Terminated (x : Bytes) : Prop := (0 : UInt8) ∈ x

theorem Terminated.mono {x y : Bytes} (h : Terminated x) (hxy : x <+: y) : Terminated y :=
  hxy.subset h

/-- An interaction after which a side gives up. -/
inductive Breaks (id : String) : Act Call Call.Reply → Prop where
  | failing {a : Act Call Call.Reply} (h : Failing a) : Breaks id a
  | recv {q : ReadRes} (h : ∀ b bs, q ≠ .data (b :: bs)) : Breaks id (.recv q)
  | connect (e : String) : Breaks id (.call .connect (.error e))
  | openControl (e : String) : Breaks id (.call .openControl (.error e))
  | acceptControl : Breaks id (.call .acceptControl false)
  | containsKey : Breaks id (.call (.containsKey id) true)

/-- Less than a frame has no zero byte. -/
theorem not_terminated_of_part {json o : Bytes} (hjson : (0 : UInt8) ∉ json)
    (ho : o <+: json ++ [0]) (hne : o ≠ json ++ [0]) : ¬ Terminated o := by
  rcases List.prefix_concat_iff.mp ho with h | h
  · exact absurd h hne
  · exact fun hz => hjson (h.subset hz)

/-- Where a client stands that is about to interact. -/
structure ClientLog (req : Bytes) (k : Proc.Kind) (h : Hist Call Call.Reply) : Prop where
  leads : Net.Leads Terminated Terminated (fun _ => False) k h
  outs : h.outs <+: req ++ [0]

/-- How a client without a secret ends. -/
inductive ClientEnd (d : Deps) (n : Nat) (role : Role) (id : String) (h : Hist Call Call.Reply) :
    Except BackupError PairedChannel → Prop where
  | connected (hins : Terminated h.ins) : ClientEnd d n role id h (.ok role.channel)
  | broken {e : BackupError} (h' : Hist Call Call.Reply) (a : Act Call Call.Reply)
      (heq : h = h' ++ [a]) (ha : Breaks id a) : ClientEnd d n role id h (.error e)
  | refused {e : BackupError} (json rest : Bytes) (hins : h.ins = json ++ 0 :: rest)
      (hzero : (0 : UInt8) ∉ json)
      (hres : frameResult ServerMsg d.json json ≠ .ok (some .ok)) :
      ClientEnd d n role id h (.error e)
  | unrolled {e : BackupError} (hzero : ¬ Terminated h.ins) (hn : n ≤ h.ins.length) :
      ClientEnd d n role id h (.error e)

/-- The client waits for the answer with its request sent. -/
theorem wpAt_awaitAnswer {d : Deps} {n : Nat} {role : Role} {id : String} {req : Bytes}
    {h : Hist Call Call.Reply} (hins : h.ins = []) (houts : h.outs = req ++ [0]) :
    Proc.wpAt (ClientLog req) (fun h o => ClientEnd d n role id h o.1 ∧ h.outs <+: req ++ [0])
      ((awaitAnswer d n role).run []) h := by
  have hall : ∀ {t i}, Recvs t i → (h ++ t).ins = i ∧ (h ++ t).outs = req ++ [0] := by
    intro t i ht
    rw [Hist.ins_append, Hist.outs_append, hins, houts, ht.ins, ht.outs]
    exact ⟨rfl, List.append_nil _⟩
  simp only [awaitAnswer, recvServer, recv, Control.run_bind, Control.run_mapErr,
    Proc.bind_assoc, Proc.ret_bind]
  rw [Proc.wpAt_bind]
  refine wpAt_recvLoop ?_ ?_ ?_ ?_
  · intro t i ht hzero
    refine ⟨⟨?_, ?_⟩, ?_⟩
    · rw [(hall ht).2]
      exact List.mem_append_right _ (List.mem_singleton_self _)
    · rw [(hall ht).1]
      exact hzero
    · rw [(hall ht).2]
  · intro t i json rest ht heq hzero
    have hframe : (h ++ t).ins = json ++ 0 :: rest := (hall ht).1.trans heq
    have hout : (h ++ t).outs <+: req ++ [0] := by rw [(hall ht).2]
    have hother : frameResult ServerMsg d.json json ≠ .ok (some .ok) → ∀ e,
        ClientEnd d n role id (h ++ t) (.error e) :=
      fun hres e => .refused json rest hframe hzero hres
    cases hres : frameResult ServerMsg d.json json with
    | error e => exact ⟨hother (by rw [hres]; simp) _, hout⟩
    | ok answer =>
      cases answer with
      | none => exact ⟨hother (by rw [hres]; simp) _, hout⟩
      | some msg =>
        cases msg with
        | ok =>
          refine ⟨.connected ?_, hout⟩
          rw [hframe]
          exact List.mem_append_right _ List.mem_cons_self
        | challenge uuid => exact ⟨hother (by rw [hres]; simp) _, hout⟩
        | heartbeat => exact ⟨hother (by rw [hres]; simp) _, hout⟩
        | error reason => exact ⟨hother (by rw [hres]; simp) _, hout⟩
  · intro t i q r ht hzero hq hr
    have hout : Hist.outs (h ++ t ++ [.recv q]) <+: req ++ [0] := by
      rw [Hist.outs_append, (hall ht).2]
      simp
    have hend : ∀ e, ClientEnd d n role id (h ++ t ++ [.recv q]) (.error e) :=
      fun e => .broken _ _ rfl (.recv hq)
    cases r with
    | error e => exact ⟨hend _, hout⟩
    | ok answer =>
      cases answer with
      | none => exact ⟨hend _, hout⟩
      | some msg => exact absurd rfl (hr msg)
  · intro t i ht hzero hn
    refine ⟨.unrolled ?_ ?_, ?_⟩
    · rw [(hall ht).1]
      exact hzero
    · rw [(hall ht).1]
      exact hn
    · rw [(hall ht).2]

/-- Every run of a client without a secret. -/
theorem wpAt_connectAs {d : Deps} {n : Nat} {role : Role} {id : String} {req : Bytes}
    (hreq : encode d.json (role.request id) = some req) :
    Proc.wpAt (ClientLog req) (fun h o => ClientEnd d n role id h o.1 ∧ h.outs <+: req ++ [0])
      ((connectAs d n role id none).run []) [] := by
  refine ⟨⟨trivial, List.nil_prefix⟩, fun r => ?_⟩
  cases r with
  | error e => exact ⟨.broken [] _ rfl (.connect e), List.nil_prefix⟩
  | ok _ =>
    refine ⟨⟨trivial, List.nil_prefix⟩, fun r => ?_⟩
    cases r with
    | error e => exact ⟨.broken _ _ rfl (.openControl e), List.nil_prefix⟩
    | ok _ =>
      simp only [Proc.ret_bind, Control.cont_ok, Control.run_bind, Control.run_mapErr,
        connectStep, Control.run_pure, Proc.bind_assoc]
      rw [Proc.wpAt_bind]
      generalize hopen : ([] ++ [.call .connect (.ok ())] ++ [.call .openControl (.ok ())] :
        Hist Call Call.Reply) = h₀
      have hins : h₀.ins = [] := by rw [← hopen]; rfl
      have houts : ∀ {t o}, Emits t o → (h₀ ++ t).outs = o := by
        intro t o ht
        rw [Hist.outs_append, ht.outs, ← hopen]
        rfl
      refine wpAt_send hreq ?_ ?_ ?_ ?_
      · intro t o ht ho hne
        refine ⟨.inl ?_, ?_⟩
        · rw [houts ht]
          exact not_terminated_of_part (zero_notMem_encode hreq) ho hne
        · rw [houts ht]
          exact ho
      · intro t ht
        refine ⟨trivial, ?_⟩
        rw [houts ht]
      · intro t ht
        refine wpAt_awaitAnswer ?_ (houts ht)
        rw [Hist.ins_append, hins, ht.ins]
        rfl
      · intro t o a e ht ho ha _
        refine ⟨.broken _ _ rfl (.failing ha), ?_⟩
        rw [Hist.outs_append, houts ht, ha.emits.outs, List.append_nil]
        exact ho

/-- Where a server without a secret stands that is about to interact. -/
structure ServerLog (ack : Bytes) (k : Proc.Kind) (h : Hist Call Call.Reply) : Prop where
  follows : Net.Follows Terminated Terminated (fun _ => False) k h
  outs : h.outs <+: ack ++ [0] ∨ ack ++ [0] <+: h.outs

/-- How a server without a secret ends. -/
inductive ServerEnd (d : Deps) (n : Nat) (role : Role) (id : String) (ack : Bytes)
    (h : Hist Call Call.Reply) : Prop where
  | served (hins : Terminated h.ins) (houts : ack ++ [0] <+: h.outs)
      (henter : (⟨.enter role id, ()⟩ : Sigma Call.Reply) ∈ h.calls)
  | broken (h' : Hist Call Call.Reply) (a : Act Call Call.Reply) (t : Hist Call Call.Reply)
      (heq : h = h' ++ a :: t) (ha : Breaks id a)
      (hearly : a ≠ .call .flush false → ¬ Terminated h'.outs)
  | refused (json rest : Bytes) (hins : h.ins = json ++ 0 :: rest) (hzero : (0 : UInt8) ∉ json)
      (hres : frameResult ClientMsg d.json json ≠ .ok (some (role.request id)))
  | unrolled (hzero : ¬ Terminated h.ins) (hn : n ≤ h.ins.length)

section Served

variable {d : Deps} {n : Nat} {role : Role} {id : String} {ack : Bytes}
variable {h : Hist Call Call.Reply}

/-- What holds of a server that ends. -/
def ServerDone (d : Deps) (n : Nat) (role : Role) (id : String) (ack : Bytes)
    (h : Hist Call Call.Reply) : Prop :=
  ServerEnd d n role id ack h ∧ (h.outs <+: ack ++ [0] ∨ ack ++ [0] <+: h.outs)

/-- Once its answer is out, the server follows whatever it does. -/
theorem wpAt_served {α : Type} (hins : Terminated h.ins) (houts : ack ++ [0] <+: h.outs)
    (henter : (⟨.enter role id, ()⟩ : Sigma Call.Reply) ∈ h.calls)
    (p : Proc Call Call.Reply α) :
    Proc.wpAt (ServerLog ack) (fun h _ => ServerDone d n role id ack h) p h := by
  have hlater : ∀ h' : Hist Call Call.Reply, h <+: h' → Terminated h'.ins ∧ ack ++ [0] <+: h'.outs ∧
      (⟨.enter role id, ()⟩ : Sigma Call.Reply) ∈ h'.calls := by
    rintro h' ⟨t, rfl⟩
    rw [Hist.ins_append, Hist.outs_append, Hist.calls_append]
    exact ⟨hins.mono (List.prefix_append _ _), houts.trans (List.prefix_append _ _),
      List.mem_append_left _ henter⟩
  refine Proc.wpAt_of_extends ?_ ?_ p (List.prefix_refl h)
  · intro k h' hpre
    obtain ⟨h₁, h₂, -⟩ := hlater h' hpre
    refine ⟨?_, .inr h₂⟩
    cases k with
    | ret => exact trivial
    | read => exact .inr (Terminated.mono (List.mem_append_right _ (List.mem_singleton_self _)) h₂)
    | write => exact ⟨h₁, fun hf => hf⟩
    | call => exact trivial
  · intro h' a hpre
    obtain ⟨h₁, h₂, h₃⟩ := hlater h' hpre
    exact ⟨.served h₁ h₂ h₃, .inr h₂⟩

/-- An interaction made the server give up before its answer was out. -/
structure Cut (id : String) (ack : Bytes) (h : Hist Call Call.Reply) : Prop where
  broken : ∃ (h' : Hist Call Call.Reply) (a : Act Call Call.Reply) (t : Hist Call Call.Reply),
    h = h' ++ a :: t ∧ Breaks id a ∧ (a ≠ .call .flush false → ¬ Terminated h'.outs)
  outs : h.outs <+: ack ++ [0]

theorem Cut.done (hc : Cut id ack h) : ServerDone d n role id ack h := by
  obtain ⟨h', a, t, heq, ha, hearly⟩ := hc.broken
  exact ⟨.broken h' a t heq ha hearly, .inl hc.outs⟩

theorem Cut.log (hc : Cut id ack h) : ServerLog ack .call h := ⟨trivial, .inl hc.outs⟩

theorem Cut.call (hc : Cut id ack h) (e : Call) (r : e.Reply) :
    Cut id ack (h ++ [.call e r]) := by
  obtain ⟨h', a, t, rfl, ha, hearly⟩ := hc.broken
  refine ⟨⟨h', a, t ++ [.call e r], by simp, ha, hearly⟩, ?_⟩
  rw [Hist.outs_append, Hist.outs_call, List.append_nil]
  exact hc.outs

/-- The answer to a client that is served. -/
theorem wpAt_sendOk {α : Type} {buf : Bytes}
    {k : Except ControlError Unit × Bytes → Proc Call Call.Reply α}
    (hack : encode d.json ServerMsg.ok = some ack) (hins : Terminated h.ins)
    (houts : h.outs = []) (henter : (⟨.enter role id, ()⟩ : Sigma Call.Reply) ∈ h.calls)
    (herr : ∀ h' e, Cut id ack h' →
      Proc.wpAt (ServerLog ack) (fun h _ => ServerDone d n role id ack h) (k (.error e, buf)) h') :
    Proc.wpAt (ServerLog ack) (fun h _ => ServerDone d n role id ack h)
      (((sendServer d.json .ok).run buf).bind k) h := by
  have hsent : ∀ {t o}, Emits t o → (h ++ t).outs = o ∧ Terminated (h ++ t).ins := by
    intro t o ht
    rw [Hist.outs_append, houts, ht.outs, Hist.ins_append]
    exact ⟨rfl, hins.mono (List.prefix_append _ _)⟩
  rw [Proc.wpAt_bind]
  refine wpAt_send hack ?_ ?_ ?_ ?_
  · intro t o ht ho hne
    refine ⟨⟨(hsent ht).2, fun hf => hf⟩, .inl ?_⟩
    rw [(hsent ht).1]
    exact ho
  · intro t ht
    refine ⟨trivial, .inl ?_⟩
    rw [(hsent ht).1]
  · intro t ht
    refine wpAt_served (hsent ht).2 ?_ ?_ _
    · rw [(hsent ht).1]
    · rw [Hist.calls_append]
      exact List.mem_append_left _ henter
  · intro t o a e ht ho ha hfull
    refine herr _ e ⟨⟨h ++ t, a, [], rfl, .failing ha, fun hne => ?_⟩, ?_⟩
    · rw [(hsent ht).1]
      exact not_terminated_of_part (zero_notMem_encode hack) ho (fun heq => hne (hfull.mpr heq))
    · rw [Hist.outs_append, (hsent ht).1, ha.emits.outs, List.append_nil]
      exact ho

theorem outs_append_call (h : Hist Call Call.Reply) (e : Call) (r : e.Reply) :
    (h ++ [.call e r] : Hist Call Call.Reply).outs = h.outs := by
  rw [Hist.outs_append, Hist.outs_call, List.append_nil]

theorem ins_append_call (h : Hist Call Call.Reply) (e : Call) (r : e.Reply) :
    (h ++ [.call e r] : Hist Call Call.Reply).ins = h.ins := by
  rw [Hist.ins_append, Hist.ins_call, List.append_nil]

/-- A provider whose channel is free is answered; the guard's removal comes after. -/
theorem wpAt_serveProvider {buf : Bytes} (hack : encode d.json ServerMsg.ok = some ack)
    (hins : Terminated h.ins) (houts : h.outs = [])
    (henter : (⟨.enter role id, ()⟩ : Sigma Call.Reply) ∈ h.calls) :
    Proc.wpAt (ServerLog ack) (fun h _ => ServerDone d n role id ack h)
      ((serveProvider d n id).run buf) h := by
  have hlog : ∀ h' : Hist Call Call.Reply, h'.outs = [] → ServerLog ack .call h' :=
    fun h' ho => ⟨trivial, .inl (by rw [ho]; exact List.nil_prefix)⟩
  refine ⟨hlog h houts, fun taken => ?_⟩
  cases taken with
  | true =>
    have hnot : (sendServer d.json (.error "channel already in use")).run buf =
        .ret (.error .json, buf) := send_of_encode_none rfl buf
    simp only [Proc.ret_bind, Control.cont_ok, if_true, hnot]
    have hearly : ¬ Terminated h.outs := by
      rw [houts]
      exact List.not_mem_nil
    refine Cut.done ⟨⟨h, _, [], rfl, .containsKey, fun _ => hearly⟩, ?_⟩
    rw [outs_append_call, houts]
    exact List.nil_prefix
  | false =>
    have hfree := outs_append_call h (.containsKey id) false
    refine ⟨hlog _ (hfree.trans houts), fun _ => ?_⟩
    simp only [Proc.ret_bind, Control.cont_ok, Control.run_bind, Control.run_attempt,
      Proc.bind_assoc]
    refine wpAt_sendOk hack ?_ ?_ ?_ ?_
    · rw [ins_append_call, ins_append_call]
      exact hins
    · rw [outs_append_call, hfree]
      exact houts
    · simp [henter]
    · intro h' e hc
      exact ⟨hc.log, fun r => (hc.call _ r).done⟩

/-- What the server does with a request it has received. -/
theorem wpAt_dispatch {buf : Bytes} (hack : encode d.json ServerMsg.ok = some ack)
    (hins : Terminated h.ins) (houts : h.outs = []) :
    Proc.wpAt (ServerLog ack) (fun h _ => ServerDone d n role id ack h)
      ((dispatch d n (some (role.request id))).run buf) h := by
  have hlog : ServerLog ack .call h := ⟨trivial, .inl (by rw [houts]; exact List.nil_prefix)⟩
  have hentered : (⟨.enter role id, ()⟩ : Sigma Call.Reply) ∈
      Hist.calls (h ++ [.call (.enter role id) ()]) := by simp
  have hins' := ins_append_call h (.enter role id) ()
  have houts' := (outs_append_call h (.enter role id) ()).trans houts
  cases role with
  | consumer =>
    refine ⟨hlog, fun r => ?_⟩
    refine wpAt_sendOk hack ?_ houts' hentered fun h' e hc => hc.done
    rw [hins']
    exact hins
  | provider =>
    refine ⟨hlog, fun r => ?_⟩
    refine wpAt_serveProvider hack ?_ houts' hentered
    rw [hins']
    exact hins

end Served

/-- Every run of a server without a secret. -/
theorem wpAt_handleConn {d : Deps} {n : Nat} {role : Role} {id : String} {ack : Bytes}
    (hack : encode d.json ServerMsg.ok = some ack) :
    Proc.wpAt (ServerLog ack) (fun h _ => ServerDone d n role id ack h)
      ((handleConn d n none).run []) [] := by
  refine ⟨⟨trivial, .inl List.nil_prefix⟩, fun r => ?_⟩
  have hnil : ¬ Terminated [] := List.not_mem_nil
  cases r with
  | false =>
    exact Cut.done ⟨⟨[], _, [], rfl, .acceptControl, fun _ => hnil⟩, List.nil_prefix⟩
  | true =>
    simp only [if_true, Proc.ret_bind, Control.cont_ok, Control.run_bind]
    generalize hopen : ([] ++ [.call .acceptControl true] : Hist Call Call.Reply) = h₀
    have hall : ∀ {t i}, Recvs t i → (h₀ ++ t).ins = i ∧ (h₀ ++ t).outs = [] := by
      intro t i ht
      rw [Hist.ins_append, Hist.outs_append, ht.ins, ht.outs, ← hopen]
      exact ⟨rfl, rfl⟩
    rw [Proc.wpAt_bind]
    refine wpAt_recvLoop ?_ ?_ ?_ ?_
    · intro t i ht hzero
      refine ⟨.inl ?_, .inl ?_⟩
      · rw [(hall ht).1]
        exact hzero
      · rw [(hall ht).2]
        exact List.nil_prefix
    · intro t i json rest ht heq hzero
      have hframe : (h₀ ++ t).ins = json ++ 0 :: rest := (hall ht).1.trans heq
      have hterm : Terminated (h₀ ++ t).ins := by
        rw [hframe]
        exact List.mem_append_right _ List.mem_cons_self
      have hquiet : (h₀ ++ t).outs <+: ack ++ [0] := by
        rw [(hall ht).2]
        exact List.nil_prefix
      -- any other first message is not the request, whatever comes of it
      have hother : frameResult ClientMsg d.json json ≠ .ok (some (role.request id)) →
          ∀ h', h₀ ++ t <+: h' → ServerEnd d n role id ack h' := by
        rintro hne h' ⟨t', rfl⟩
        refine .refused json (rest ++ Hist.ins t') ?_ hzero hne
        rw [Hist.ins_append, hframe]
        simp
      have hserve : ∀ (role' : Role) (id' : String),
          frameResult ClientMsg d.json json = .ok (some (role'.request id')) →
          Proc.wpAt (ServerLog ack) (fun h _ => ServerDone d n role id ack h)
            ((dispatch d n (some (role'.request id'))).run rest) (h₀ ++ t) := by
        intro role' id' hres
        have hd := @wpAt_dispatch d n role' id' ack (h₀ ++ t) rest hack hterm (hall ht).2
        by_cases hreq : role'.request id' = role.request id
        · obtain ⟨rfl, rfl⟩ := Role.request_inj hreq
          exact hd
        · refine Proc.wpAt_mono (fun _ _ h => h) (fun h' a hq => ⟨hq.2, hq.1.2⟩)
            (Proc.wpAt_and hd (Proc.wpAt_of_extends (fun _ _ _ => trivial)
              (fun h' _ hpre => hother ?_ h' hpre) _ (List.prefix_refl _)))
          rw [hres]
          simpa using hreq
      have hdone : frameResult ClientMsg d.json json ≠ .ok (some (role.request id)) →
          ServerDone d n role id ack (h₀ ++ t) :=
        fun hne => ⟨hother hne _ (List.prefix_refl _), .inl hquiet⟩
      cases hres : frameResult ClientMsg d.json json with
      | error e => exact hdone (by rw [hres]; simp)
      | ok first =>
        cases first with
        | none => exact hdone (by rw [hres]; simp)
        | some msg =>
          have hmsg : ∀ msg', msg ≠ msg' → frameResult ClientMsg d.json json ≠ .ok (some msg') := by
            intro msg' hne
            rw [hres]
            simpa using hne
          cases msg with
          | register channel => exact hserve .provider channel hres
          | connect channel => exact hserve .consumer channel hres
          | authenticate tag => exact hdone (hmsg _ (by cases role <;> simp [Role.request]))
          | heartbeat => exact hdone (hmsg _ (by cases role <;> simp [Role.request]))
    · intro t i q r ht hzero hq hr
      have hcut : Cut id ack (h₀ ++ t ++ [.recv q]) := by
        refine ⟨⟨h₀ ++ t, _, [], rfl, .recv hq, fun _ => ?_⟩, ?_⟩
        · rw [(hall ht).2]
          exact hnil
        · rw [Hist.outs_append, (hall ht).2]
          exact List.nil_prefix
      cases r with
      | error e => exact hcut.done
      | ok first =>
        cases first with
        | none => exact hcut.done
        | some msg => exact absurd rfl (hr msg)
    · intro t i ht hzero hn
      refine ⟨.unrolled ?_ ?_, .inl ?_⟩
      · rw [(hall ht).1]
        exact hzero
      · rw [(hall ht).1]
        exact hn
      · rw [(hall ht).2]
        exact List.nil_prefix

/-! ## Client and server together -/

/-- A client and the server's handler at the two ends of a control stream. -/
abbrev ControlNet : Type :=
  Net Call Call.Reply (Except BackupError PairedChannel × Bytes)
    Call Call.Reply (Except ControlError Unit × Bytes)

/-- The parameters of their stream and of the objects around them. -/
abbrev ControlLink : Type := Link Call Call.Reply Call Call.Reply

/-- The two tasks of a connection. -/
def connection (d : Deps) (n : Nat) (role : Role) (id : String) (cs ss : Option String) :
    ControlNet :=
  .init ((connectAs d n role id cs).run []) ((handleConn d n (ss.map Authenticator.mk)).run [])

/-- The states a connection can reach. -/
abbrev ControlReach (c : ControlLink) (d : Deps) (n : Nat) (role : Role) (id : String)
    (cs ss : Option String) (s : ControlNet) : Prop :=
  Net.Reach c ((connectAs d n role id cs).run [])
    ((handleConn d n (ss.map Authenticator.mk)).run []) s

/-- A reliable stream with some room, every call answered, no failure to connect, open,
accept or flush, and no provider registered for the channel. -/
structure ControlLink.Honest (c : ControlLink) (id : String) : Prop where
  capRight : 0 < c.capRight
  capLeft : 0 < c.capLeft
  answers : Net.Answers c
  left : ∀ e r, c.leftPolicy e r → ¬ Breaks id (.call e r)
  right : ∀ e r, c.rightPolicy e r → ¬ Breaks id (.call e r)

/-- The client returned `Ok` and the server entered the serve function of its role. -/
def Admitted (role : Role) (id : String) (s : ControlNet) : Prop :=
  (∃ buf, s.left = .ret (.ok role.channel, buf)) ∧
    (⟨.enter role id, ()⟩ : Sigma Call.Reply) ∈ s.rightHist.calls

section Admission

variable {c : ControlLink} {d : Deps} {n : Nat} {role : Role} {id : String} {req ack : Bytes}
variable {s : ControlNet}

/-- Neither side has given up before its part was done. -/
structure Unbroken (id : String) (s : ControlNet) : Prop where
  left : ∀ a ∈ s.leftHist, ¬ Breaks id a
  right : ∀ h' a t, s.rightHist = h' ++ a :: t → Breaks id a →
    a ≠ .call .flush false ∧ Terminated (Hist.outs h')

/-- A sequence that agrees with a frame as far as both go has it as its first frame. -/
theorem eq_of_frames {json json' rest x : Bytes} (hzero : (0 : UInt8) ∉ json)
    (hzero' : (0 : UInt8) ∉ json') (hx : json ++ 0 :: rest <+: x)
    (hy : x <+: json' ++ [0] ∨ json' ++ [0] <+: x) : json = json' := by
  obtain ⟨z, rfl⟩ := hx
  have hfront := takeFrame_extend (takeFrame_append hzero rest) z
  rcases hy with ⟨w, hw⟩ | ⟨w, hw⟩
  · have h₁ := takeFrame_extend hfront w
    rw [hw, takeFrame_append hzero' []] at h₁
    exact (Prod.mk.inj (Option.some.inj h₁)).1.symm
  · have h₁ := takeFrame_extend (takeFrame_append hzero' []) w
    rw [hw, hfront] at h₁
    exact (Prod.mk.inj (Option.some.inj h₁)).1

/-- Bytes without a zero byte that agree with a frame as far as both go are part of
it. -/
theorem length_le_of_frames {json i x : Bytes} (hzero : ¬ Terminated i) (hi : i <+: x)
    (hx : x <+: json ++ [0] ∨ json ++ [0] <+: x) : i.length ≤ json.length := by
  have hpart : i <+: json ++ [0] := by
    rcases hx with hx | hx
    · exact hi.trans hx
    · refine (List.prefix_or_prefix_of_prefix hi hx).resolve_right fun h => hzero ?_
      exact h.subset (List.mem_append_right _ (List.mem_singleton_self _))
  rcases List.prefix_concat_iff.mp hpart with h | h
  · exact absurd (h ▸ List.mem_append_right _ (List.mem_singleton_self _)) hzero
  · exact h.length_le

/-- The texts of the client's request and of the server's answer. -/
structure Texts (d : Deps) (role : Role) (id : String) (req ack : Bytes) : Prop where
  request : encode d.json (role.request id) = some req
  answer : encode d.json ServerMsg.ok = some ack

/-- What the two sides have sent agrees with the request and with the answer, and what
they have received was sent. -/
structure Exchange (req ack : Bytes) (s : ControlNet) : Prop where
  leftOuts : s.leftHist.outs <+: req ++ [0]
  rightOuts : s.rightHist.outs <+: ack ++ [0] ∨ ack ++ [0] <+: s.rightHist.outs
  leftIns : s.leftHist.ins <+: s.rightHist.outs
  rightIns : s.rightHist.ins <+: s.leftHist.outs

theorem exchange (ht : Texts d role id req ack) (hr : ControlReach c d n role id none none s) :
    Exchange req ack s where
  leftOuts := Proc.wpAt_always (P := fun h => h.outs <+: req ++ [0]) (fun _ _ hl => hl.outs)
    (fun _ _ hq => hq.2) (wpAt_connectAs ht.request) hr.history.leftRun
  rightOuts := Proc.wpAt_always
    (P := fun h => h.outs <+: ack ++ [0] ∨ ack ++ [0] <+: h.outs) (fun _ _ hl => hl.outs)
    (fun _ _ hq => hq.2) (@wpAt_handleConn d n role id ack ht.answer) hr.history.rightRun
  leftIns := ⟨_, hr.history.rightSent.symm⟩
  rightIns := ⟨_, hr.history.leftSent.symm⟩

/-- A client that has returned without a break was answered. -/
theorem connected_of_finished (ht : Texts d role id req ack) (hn : ack.length < n)
    (hr : ControlReach c d n role id none none s) (hu : Unbroken id s) (hf : s.left.Finished) :
    (∃ buf, s.left = .ret (.ok role.channel, buf)) ∧ Terminated s.leftHist.ins := by
  obtain ⟨⟨r, buf⟩, hleft⟩ := hf
  have hex := exchange ht hr
  have hend := Proc.wpAt_run (wpAt_connectAs (n := n) ht.request) hr.history.leftRun
  rw [hleft] at hend
  obtain ⟨hend, -⟩ := hend
  generalize hr' : (r, buf).1 = r' at hend
  cases hend with
  | connected hins =>
    obtain rfl : r = .ok role.channel := hr'
    exact ⟨⟨buf, hleft⟩, hins⟩
  | broken h' a heq ha =>
    refine absurd ha (hu.left a ?_)
    rw [heq]
    exact List.mem_append_right _ (List.mem_singleton_self _)
  | refused json rest hins hzero hres =>
    have heq := eq_of_frames hzero (zero_notMem_encode ht.answer) (hins ▸ hex.leftIns)
      hex.rightOuts
    rw [heq, frameResult_encode ht.answer] at hres
    exact absurd rfl hres
  | unrolled hzero hlen =>
    have := length_le_of_frames hzero hex.leftIns hex.rightOuts
    omega

/-- A server that has returned without an early break has served. -/
theorem served_of_finished (ht : Texts d role id req ack) (hn : req.length < n)
    (hr : ControlReach c d n role id none none s) (hu : Unbroken id s) (hf : s.right.Finished) :
    Terminated s.rightHist.ins ∧ ack ++ [0] <+: s.rightHist.outs ∧
      (⟨.enter role id, ()⟩ : Sigma Call.Reply) ∈ s.rightHist.calls := by
  obtain ⟨o, hright⟩ := hf
  have hex := exchange ht hr
  have hend := Proc.wpAt_run (@wpAt_handleConn d n role id ack ht.answer) hr.history.rightRun
  rw [hright] at hend
  obtain ⟨hend, -⟩ := hend
  cases hend with
  | served hins houts henter => exact ⟨hins, houts, henter⟩
  | broken h' a t heq ha hearly =>
    obtain ⟨hne, hterm⟩ := hu.right h' a t heq ha
    exact absurd hterm (hearly hne)
  | refused json rest hins hzero hres =>
    have heq := eq_of_frames hzero (zero_notMem_encode ht.request) (hins ▸ hex.rightIns)
      (.inl hex.leftOuts)
    rw [heq, frameResult_encode ht.request] at hres
    exact absurd rfl hres
  | unrolled hzero hlen =>
    have := length_le_of_frames hzero hex.rightIns (.inl hex.leftOuts)
    omega

/-- Over a reliable stream a side gives up only because the other one has returned. -/
theorem peer_of_breaks {policy : Policy Call Call.Reply} {cap : Nat} {peerDone : Prop}
    {inq inq' outq outq' : Bytes} {a : Act Call Call.Reply}
    (hpolicy : ∀ e r, policy e r → ¬ Breaks id (.call e r))
    (ha : Allowed policy cap peerDone inq inq' outq outq' a) (hb : Breaks id a) :
    peerDone ∧ ((∃ buf, a = .send buf .fault) ∨ (a = .recv (.data []) ∧ inq = [])) := by
  cases a with
  | call e r => exact absurd hb (hpolicy e r ha.1)
  | send buf r =>
    cases r with
    | fault => exact ⟨ha.1, .inl ⟨buf, rfl⟩⟩
    | timeout => exact ha.elim
    | wrote m =>
      cases hb with
      | failing h =>
        cases h with
        | send _ hfail =>
          have hzero : m = 0 := hfail
          have hpos := ha.1
          omega
  | recv q =>
    cases q with
    | timeout => exact ha.elim
    | fault => exact ha.elim
    | data bs =>
      cases bs with
      | nil => exact ⟨ha.1, .inr ⟨rfl, ha.2.1⟩⟩
      | cons b bs =>
        cases hb with
        | failing h => cases h
        | recv h => exact absurd rfl (h b bs)

/-- No step of the client breaks: its peer has not gone before its part was done. -/
theorem Unbroken.left_step (hc : c.Honest id) (ht : Texts d role id req ack)
    (hn : req.length < n) (hr : ControlReach c d n role id none none s) (hu : Unbroken id s)
    {a : Act Call Call.Reply} {p : Proc Call Call.Reply (Except BackupError PairedChannel × Bytes)}
    {i o : Bytes} (hs : s.left.Step a p)
    (ha : Allowed c.leftPolicy c.capRight s.right.Finished s.toLeft i s.toRight o a) :
    ¬ Breaks id a := by
  intro hb
  obtain ⟨hdone, hact⟩ := peer_of_breaks hc.left ha hb
  obtain ⟨hins, houts, -⟩ := served_of_finished ht hn hr hu hdone
  have hlog := Proc.wpAt_run (wpAt_connectAs (n := n) ht.request) hr.history.leftRun
  rcases hact with ⟨buf, rfl⟩ | ⟨rfl, hempty⟩
  · -- the server has the whole request, so the client has nothing left to write
    generalize s.left = left at hs hlog
    cases hs with
    | write _ =>
      rcases hlog.1.leads with h | h
      · exact h (hins.mono (exchange ht hr).rightIns)
      · exact h
  · -- the server's answer is out and nothing is in flight, so the client has it
    have hall := hr.history.rightSent
    rw [hempty, List.append_nil] at hall
    generalize s.left = left at hs hlog
    cases hs with
    | read _ =>
      refine hlog.1.leads.2 ?_
      rw [← hall]
      exact houts.subset (List.mem_append_right _ (List.mem_singleton_self _))

/-- A step of the server breaks only after its answer is out. -/
theorem Unbroken.right_step (hc : c.Honest id) (ht : Texts d role id req ack)
    (hn : ack.length < n) (hr : ControlReach c d n role id none none s) (hu : Unbroken id s)
    {a : Act Call Call.Reply} {i o : Bytes}
    (ha : Allowed c.rightPolicy c.capLeft s.left.Finished s.toRight i s.toLeft o a)
    (hb : Breaks id a) : a ≠ .call .flush false ∧ Terminated s.rightHist.outs := by
  obtain ⟨hdone, hact⟩ := peer_of_breaks hc.right ha hb
  refine ⟨?_, ?_⟩
  · rcases hact with ⟨buf, rfl⟩ | ⟨rfl, -⟩
    · intro h
      cases h
    · intro h
      cases h
  · obtain ⟨-, hins⟩ := connected_of_finished ht hn hr hu hdone
    exact hins.mono (exchange ht hr).leftIns

theorem Unbroken.step (hc : c.Honest id) (ht : Texts d role id req ack)
    (hn : req.length < n ∧ ack.length < n) (hr : ControlReach c d n role id none none s)
    (hu : Unbroken id s) {s' : ControlNet} (hs : Net.Step c s s') : Unbroken id s' := by
  cases hs with
  | @left a p i o hs ha =>
    refine ⟨fun b hb => ?_, hu.right⟩
    rcases List.mem_append.mp hb with hb | hb
    · exact hu.left b hb
    · rw [List.mem_singleton] at hb
      rw [hb]
      exact hu.left_step hc ht hn.1 hr hs ha
  | @right a q i o hs ha =>
    refine ⟨hu.left, fun h' b t heq hb => ?_⟩
    rcases List.eq_nil_or_concat t with rfl | ⟨t', b', rfl⟩
    · obtain ⟨rfl, hlast⟩ := List.append_inj' heq rfl
      cases hlast
      exact hu.right_step hc ht hn.2 hr ha hb
    · refine hu.right h' b t' ?_ hb
      rw [List.concat_eq_append, ← List.cons_append, ← List.append_assoc] at heq
      exact (List.append_inj' heq rfl).1

/-- Without secrets every run admits the client. -/
theorem admitted_without_secret (hc : c.Honest id) (ht : Texts d role id req ack)
    (hn : req.length < n ∧ ack.length < n) :
    Net.Inevitable c (Admitted role id) (connection d n role id none none) := by
  refine Net.inevitable c (fun s => ControlReach c d n role id none none s ∧ Unbroken id s ∧
    s.left.Regular ∧ s.right.Regular) ?_ ?_ ?_ ?_
  · rintro s s' ⟨hr, hu, hl, hr'⟩ hs
    refine ⟨.step hr hs, hu.step hc ht hn hr hs, ?_⟩
    cases hs with
    | left hs _ => exact ⟨hl.step hs, hr'⟩
    | right hs _ => exact ⟨hl, hr'.step hs⟩
  · rintro s ⟨hr, -, hl, hr'⟩
    refine Net.final_or_step c hc.answers hl hr' ?_
    exact Net.not_deadlocked c (fun _ _ hx hxy => hx.mono hxy) (fun _ _ hx _ => hx) hc.capRight
      hc.capLeft (Proc.wpAt_mono (fun _ _ hlog => hlog.leads) (fun _ _ h => h)
        (wpAt_connectAs ht.request))
      (Proc.wpAt_mono (fun _ _ hlog => hlog.follows) (fun _ _ h => h)
        (@wpAt_handleConn d n role id ack ht.answer)) hr.moves
  · rintro s ⟨hr, hu, -, -⟩ ⟨hl, hr'⟩
    exact ⟨(connected_of_finished ht hn.2 hr hu hl).1,
      (served_of_finished ht hn.1 hr hu hr').2.2⟩
  · refine ⟨.init, ⟨fun a ha => by simp [connection, Net.init] at ha, fun h' a t heq => ?_⟩,
      regular_connectAs d n role id none [], regular_handleConn d n none []⟩
    simp [connection, Net.init] at heq

end Admission

/-! ## Authentication -/

/-- What the server was sent begins with a frame and an `Authenticate` whose tag is the
authentication code of the challenge made for this connection. -/
def Answered (d : Deps) (secret : String) (h : Hist Call Call.Reply) : Prop :=
  ∃ json₁ json₂ rest uuid, h.ins = json₁ ++ 0 :: (json₂ ++ 0 :: rest) ∧
    (0 : UInt8) ∉ json₁ ∧ (0 : UInt8) ∉ json₂ ∧
    (⟨.newV4, uuid⟩ : Sigma Call.Reply) ∈ h.calls ∧
    decode ClientMsg d.json json₂ = some (.authenticate ((Authenticator.mk secret).answer d uuid))

/-- Authentication by a shared secret is exact. -/
structure Authenticates (d : Deps) (cs ss : Option String) : Prop where
  /-- with the same secret every run admits the client -/
  admits : cs = ss → ∀ role id, ∃ n₀, ∀ n, n₀ ≤ n → ∀ c : ControlLink, c.Honest id →
    Net.Inevitable c (Admitted role id) (connection d n role id cs ss)
  /-- with another secret none does -/
  refuses : cs ≠ ss → ∀ role id n (c : ControlLink) s, c.Honest id →
    ControlReach c d n role id cs ss s → ¬ Admitted role id s
  /-- whatever a client sends, it is served only after the right answer -/
  guards : ∀ secret, ss = some secret → ∀ n h q,
    ((handleConn d n (some (Authenticator.mk secret))).run []).Run h q →
      ¬ Outside h → Answered d secret h

/-- A reply to each call that nobody gives up on. -/
def Call.goodReply : (e : Call) → e.Reply
  | .flush => true
  | .connect => .ok ()
  | .openControl => .ok ()
  | .acceptControl => true
  | .newV4 => ⟨List.replicate 16 0, rfl⟩
  | .containsKey _ => false
  | .insert _ => ()
  | .remove _ => ()
  | .selectProvider => .tick
  | .selectConsumer => .tick
  | .tryAcquire => true
  | .spawnRelay _ _ => ()
  | .enter _ _ => ()

theorem not_breaks_goodReply (id : String) (e : Call) : ¬ Breaks id (.call e e.goodReply) := by
  intro h
  cases e <;> cases h with | failing h => cases h

/-- The link with the most behaviours is honest. -/
theorem exists_honest (id : String) : ∃ c : ControlLink, c.Honest id := by
  have hanswers : ∀ e : Call, ∃ r : e.Reply, ¬ Breaks id (.call e r) :=
    fun e => ⟨e.goodReply, not_breaks_goodReply id e⟩
  exact ⟨⟨1, 1, fun e r => ¬ Breaks id (.call e r), fun e r => ¬ Breaks id (.call e r)⟩,
    Nat.one_pos, Nat.one_pos, ⟨hanswers, hanswers⟩, fun _ _ h => h, fun _ _ h => h⟩

/-- A client with a secret is not admitted. -/
theorem not_admitted_of_secret {c : ControlLink} {d : Deps} {n : Nat} {role : Role} {id : String}
    {secret : String} {ss : Option String} {s : ControlNet}
    (hr : ControlReach c d n role id (some secret) ss s) : ¬ Admitted role id s := by
  rintro ⟨⟨buf, hleft⟩, -⟩
  have hend := Proc.wp_run (never_connected d n role id secret [] []) hr.history.leftRun
  rw [hleft] at hend
  exact hend _ rfl

/-- Authentication is exact but for a secret that both sides share: then nobody is
admitted. -/
theorem authentication_exact (d : Deps) (cs ss : Option String) :
    Authenticates d cs ss ↔ ¬ ∃ secret, cs = some secret ∧ ss = some secret := by
  constructor
  · rintro hauth ⟨secret, rfl, rfl⟩
    obtain ⟨n, hn⟩ := hauth.admits rfl .provider ""
    obtain ⟨c, hc⟩ := exists_honest ""
    obtain ⟨s, hr, hs⟩ := Net.Inevitable.exists_reach c (hn n (Nat.le_refl n) c hc) .init
    exact not_admitted_of_secret hr hs
  · intro hshared
    refine ⟨?_, ?_, ?_⟩
    · rintro rfl role id
      cases cs with
      | some secret => exact absurd ⟨secret, rfl, rfl⟩ hshared
      | none =>
        obtain ⟨req, hreq⟩ := Role.exists_encode_request d.json role id
        obtain ⟨ack, hack⟩ : ∃ ack, encode d.json ServerMsg.ok = some ack := ⟨_, rfl⟩
        refine ⟨max req.length ack.length + 1, fun n hn c hc => ?_⟩
        exact admitted_without_secret hc ⟨hreq, hack⟩ ⟨by omega, by omega⟩
    · intro hne role id n c s _ hr
      cases cs with
      | some secret => exact not_admitted_of_secret hr
      | none =>
        cases ss with
        | none => exact absurd rfl hne
        | some secret =>
          exact fun had => never_entered d n ⟨secret⟩ hr.history.rightRun role id had.2
    · rintro secret - n h q hr hout
      exact absurd (never_entered d n ⟨secret⟩ hr) hout

/-- Source and server share a secret, and the source is not admitted. -/
theorem shared_secret_refused :
    ¬ Authenticates sampleDeps (some "s3cr3t") (some "s3cr3t") := by
  intro hauth
  obtain ⟨n, hn⟩ := hauth.admits rfl .provider "db"
  obtain ⟨c, hc⟩ := exists_honest "db"
  obtain ⟨s, hr, hs⟩ := Net.Inevitable.exists_reach c (hn n (Nat.le_refl n) c hc) .init
  exact not_admitted_of_secret hr hs

end RustBackup.Transport
