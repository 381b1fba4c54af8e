/-
  Core/Issues.lean --- what a source has sent, by the record of its sink calls.

  Whatever `stream_out` does, and whatever its sink calls return, the complete records
  in the source's output are those of the successful calls, in order.  A call that the
  source has not returned from yet may be ahead of its record by one.  `Issues` says so
  of a whole run, and that the completion frame carries the count of what succeeded.
-/
import RustBackup.Core.Fidelity

set_option autoImplicit false

namespace RustBackup.Core

open RustBackup.Serde RustBackup.Io

/-! ## Calls and events -/

/-- The payload events among the results of `next`. -/
def handed (es : List (Result ChunkEvent)) : List ChunkEvent :=
  es.filterMap fun
    | .ok .done => none
    | .ok event => some event
    | .error _ => none

/-- The payload events of some sink calls. -/
def offered (cs : List SinkCall) : List ChunkEvent :=
  cs.filterMap fun
    | .finish => none
    | c => some c.event

/-- The sink calls of `stream_out` that succeeded. -/
def sunk (l : Calls Call Call.Reply) : List SinkCall :=
  (sinks l).filterMap fun
    | (c, .ok _) => some c
    | (_, .error _) => none

/-- What the sink calls of `stream_out` returned. -/
def results (l : Calls Call Call.Reply) : List (Result Unit) := (sinks l).map Prod.snd

/-- The sink call that comes after calls with some results. -/
def SinkProg.upcoming : SinkProg → List (Result Unit) → Option SinkCall
  | .ret _, _ => none
  | .call c _, [] => some c
  | .call _ k, r :: rs => (k r).upcoming rs

/-- The plan that `stream_out` was entered with. -/
def entered (l : Calls Call Call.Reply) : Option BackupPlan :=
  l.findSome? fun
    | ⟨.mark (.streamOut plan), _⟩ => some plan
    | _ => none

/-- The sink call that `stream_out` is in. -/
def underway (streamOut : BackupPlan → SinkProg) (l : Calls Call Call.Reply) : Option SinkCall :=
  (entered l).bind fun plan => (streamOut plan).upcoming (results l)

/-- The calls that succeeded, and the one that `stream_out` is in. -/
def issued (streamOut : BackupPlan → SinkProg) (l : Calls Call Call.Reply) : List SinkCall :=
  sunk l ++ (underway streamOut l).toList

section Lists

variable {cs cs' : List SinkCall} {l l' : Calls Call Call.Reply}

@[simp] theorem handed_nil : handed [] = [] := rfl

@[simp] theorem handed_append (es es' : List (Result ChunkEvent)) :
    handed (es ++ es') = handed es ++ handed es' := List.filterMap_append

@[simp] theorem handed_event (c : SinkCall) : handed [.ok c.event] = offered [c] := by
  cases c <;> rfl

@[simp] theorem handed_error (e : BackupError) : handed [.error e] = [] := rfl

@[simp] theorem offered_nil : offered [] = [] := rfl

@[simp] theorem offered_append : offered (cs ++ cs') = offered cs ++ offered cs' :=
  List.filterMap_append

@[simp] theorem offered_finish : offered [.finish] = [] := rfl

theorem offered_mono (h : cs <+: cs') : offered cs <+: offered cs' := h.filterMap _

@[simp] theorem sunk_append : sunk (l ++ l') = sunk l ++ sunk l' := by
  unfold sunk
  rw [sinks_append, List.filterMap_append]

@[simp] theorem results_append : results (l ++ l') = results l ++ results l' := by
  unfold results
  rw [sinks_append, List.map_append]

@[simp] theorem entered_append (l l' : Calls Call Call.Reply) :
    entered (l ++ l') = (entered l).or (entered l') := List.findSome?_append

theorem sinks_eq_nil (h : ∀ x ∈ l, ∀ c r, x.1 ≠ .mark (.sink c r)) : sinks l = [] := by
  refine List.filterMap_eq_nil_iff.mpr fun x hx => ?_
  split
  case h_1 c r _ => exact absurd rfl (h _ hx c r)
  case h_2 => rfl

theorem nexts_eq_nil (h : ∀ x ∈ l, ∀ r, x.1 ≠ .mark (.next r)) : nexts l = [] := by
  refine List.filterMap_eq_nil_iff.mpr fun x hx => ?_
  split
  case h_1 r _ => exact absurd rfl (h _ hx r)
  case h_2 => rfl

theorem entered_eq_none (h : ∀ x ∈ l, ∀ plan, x.1 ≠ .mark (.streamOut plan)) :
    entered l = none := by
  refine List.findSome?_eq_none_iff.mpr fun x hx => ?_
  split
  case h_1 plan _ => exact absurd rfl (h _ hx plan)
  case h_2 => rfl

end Lists

/-! ## The source: between two sink calls -/

/-- What was sent after `b` is made of records, and those that are complete are of the
first calls of `limit`. -/
def Within (d : Deps) (b : Bytes) (limit : List SinkCall) (h : Hist Call Call.Reply) : Prop :=
  ∃ cs : List SinkCall, (∀ c ∈ cs, c.Fits d) ∧ h.outs <+: b ++ wire d cs ∧
    ∀ cs', cs' <+: cs → b ++ wire d cs' <+: h.outs → offered cs' <+: offered limit

theorem Within.mono {d : Deps} {b : Bytes} {limit limit' : List SinkCall}
    {h : Hist Call Call.Reply} (hw : Within d b limit h)
    (hlimit : offered limit <+: offered limit') : Within d b limit' h := by
  obtain ⟨cs, hcs, hpre, hall⟩ := hw
  exact ⟨cs, hcs, hpre, fun cs' hcs' houts => (hall cs' hcs' houts).trans hlimit⟩

/-- The complete records are of calls that succeeded or of the call `top` is in. -/
def Records (d : Deps) (b : Bytes) (top : SinkProg) (h : Hist Call Call.Reply) : Prop :=
  Smooth h → Within d b (sunk h.calls ++ (top.upcoming (results h.calls)).toList) h

/-- Between two sink calls: the counters stand at `p'`, and the records sent after `b`
are those of the successful calls, with a piece of another one at most if the peer has
gone away. -/
structure Kept (d : Deps) (b : Bytes) (p : Progress) (h : Hist Call Call.Reply)
    (p' : Progress) : Prop where
  counted : p' = countAll (sunk h.calls) p
  fits : Smooth h → ∀ c ∈ sunk h.calls, c.Fits d
  outs : Smooth h → h.outs = b ++ wire d (sunk h.calls) ∨ Broken h ∧ ∃ c : SinkCall, c.Fits d ∧
    h.outs <+: b ++ wire d (sunk h.calls ++ [c]) ∧ h.outs ≠ b ++ wire d (sunk h.calls ++ [c])

section Kept

variable {d : Deps} {b : Bytes} {p p' : Progress} {h t : Hist Call Call.Reply}
variable {top : SinkProg} {c : SinkCall}

/-- A stretch without sink calls. -/
theorem sunk_of_sinks (ht : sinks t.calls = []) :
    sunk (h ++ t).calls = sunk h.calls ∧ results (h ++ t).calls = results h.calls := by
  have hs : sunk t.calls = [] := by rw [sunk, ht]; rfl
  have hr : results t.calls = [] := by rw [results, ht]; rfl
  rw [Hist.calls_append, sunk_append, results_append, hs, hr, List.append_nil, List.append_nil]
  exact ⟨rfl, rfl⟩

theorem Emits.sinks {o : Bytes} (ht : Emits t o) : sinks t.calls = [] := by
  refine sinks_eq_nil fun x hx c r heq => ?_
  rw [ht.calls x hx] at heq
  cases heq

theorem Sent.sinks {fits : Prop} {x : Bytes} {r : Result Unit} (ht : Sent fits x t r) :
    sinks t.calls = [] := by
  cases ht with
  | done _ ht => exact ht.sinks
  | refused _ => rfl
  | broken _ ht _ ha _ => exact (ht.append ha.emits).sinks

/-- A stretch that sends nothing and makes no sink call. -/
theorem Kept.idle (hk : Kept d b p h p') (houts : t.outs = []) (ht : sinks t.calls = []) :
    Kept d b p (h ++ t) p' := by
  obtain ⟨hs, -⟩ := sunk_of_sinks (h := h) ht
  have ho : (h ++ t).outs = h.outs := by rw [Hist.outs_append, houts, List.append_nil]
  refine ⟨?_, fun hsm => ?_, fun hsm => ?_⟩
  · rw [hs]
    exact hk.counted
  · rw [hs]
    exact hk.fits hsm.left
  · rw [hs, ho]
    exact (hk.outs hsm.left).imp id fun hb => ⟨hb.1.append_left t, hb.2⟩

theorem Kept.within (hk : Kept d b p h p') (hsm : Smooth h) :
    Within d b (sunk h.calls) h := by
  rcases hk.outs hsm with heq | ⟨-, c, hc, hpre, hne⟩
  · exact ⟨sunk h.calls, hk.fits hsm, by rw [heq], fun cs' hcs _ => offered_mono hcs⟩
  · refine ⟨sunk h.calls ++ [c], fits_concat (hk.fits hsm) hc, hpre, fun cs' hcs hall => ?_⟩
    rcases List.prefix_concat_iff.mp hcs with rfl | hcs
    · -- the last record is not complete
      exact absurd (hpre.eq_of_length_le hall.length_le) hne
    · exact offered_mono hcs

theorem Kept.records (hk : Kept d b p h p') (top : SinkProg) : Records d b top h :=
  fun hsm => (hk.within hsm).mono (offered_mono (List.prefix_append _ _))

/-- Inside the next record. -/
theorem Kept.piece {o : Bytes} (hk : Kept d b p h p') (hc : c.Fits d) (ht : Emits t o)
    (ho : o <+: c.bytes d) (hsm : Smooth (h ++ t)) :
    Within d b (sunk (h ++ t).calls ++ [c]) (h ++ t) := by
  rcases hk.outs hsm.left with heq | ⟨hbroken, -⟩
  · rw [(sunk_of_sinks ht.sinks).1]
    refine ⟨sunk h.calls ++ [c], fits_concat (hk.fits hsm.left) hc, ?_,
      fun cs' hcs _ => offered_mono hcs⟩
    rw [Hist.outs_append, heq, ht.outs, wire_concat, ← List.append_assoc]
    exact (List.prefix_append_right_inj _).mpr ho
  · refine ((hk.idle (hbroken.outs_eq_nil hsm) ht.sinks).within hsm).mono ?_
    exact offered_mono (List.prefix_append _ _)

theorem Kept.during {o : Bytes} (hk : Kept d b p h p') (hc : c.Fits d)
    (hup : top.upcoming (results h.calls) = some c) (ht : Emits t o) (ho : o <+: c.bytes d) :
    Records d b top (h ++ t) := by
  intro hsm
  rw [(sunk_of_sinks ht.sinks).2, hup]
  exact hk.piece hc ht ho hsm

/-- Before the record of a call that has returned. -/
theorem Kept.returned {r : Result Unit} (hk : Kept d b p h p')
    (hup : top.upcoming (results h.calls) = some c) (ht : Sent (c.Fits d) (c.bytes d) t r) :
    Records d b top (h ++ t) := by
  cases ht with
  | done hc ht => exact hk.during hc hup ht List.prefix_rfl
  | refused _ =>
    rw [List.append_nil]
    exact hk.records top
  | broken hc ht ho ha _ =>
    have hall := hk.during hc hup (ht.append ha.emits) (by rw [List.append_nil]; exact ho)
    exact hall

/-- After the record of the call. -/
theorem Kept.call {r : Result Unit} (hk : Kept d b p h p')
    (ht : Sent (c.Fits d) (c.bytes d) t r) :
    Kept d b p (h ++ t ++ [.call (.mark (.sink c r)) ()]) (c.after p' r) := by
  obtain ⟨hs, -⟩ := sunk_of_sinks (h := h) ht.sinks
  have hmark : Hist.outs (h ++ t ++ [.call (.mark (.sink c r)) ()]) = h.outs ++ t.outs := by
    rw [Hist.outs_append, Hist.outs_append, Hist.outs_call, List.append_nil]
  cases r with
  | ok u =>
    have hsunk : sunk (Hist.calls (h ++ t ++ [.call (.mark (.sink c (.ok u))) ()])) =
        sunk h.calls ++ [c] := by
      rw [Hist.calls_append, sunk_append, hs]
      rfl
    obtain ⟨hc, ht⟩ := ht.emits_of_ok
    refine ⟨?_, fun hsm => ?_, fun hsm => ?_⟩
    · rw [hsunk, countAll, List.foldl_append, hk.counted]
      rfl
    · rw [hsunk]
      exact fits_concat (hk.fits hsm.left.left) hc
    · rw [hsunk, hmark, ht.outs, wire_concat, ← List.append_assoc]
      rcases hk.outs hsm.left.left with heq | ⟨hbroken, -⟩
      · exact .inl (by rw [heq])
      · -- nothing more was taken, but the record is not empty
        have hnil := hbroken.outs_eq_nil hsm.left
        rw [ht.outs] at hnil
        exact absurd hnil (bytes_ne_nil d c)
  | error e =>
    have hsunk : sunk (Hist.calls (h ++ t ++ [.call (.mark (.sink c (.error e))) ()])) =
        sunk h.calls := by
      rw [Hist.calls_append, sunk_append, hs]
      exact List.append_nil _
    refine ⟨?_, fun hsm => ?_, fun hsm => ?_⟩
    · rw [hsunk]
      exact hk.counted
    · rw [hsunk]
      exact hk.fits hsm.left.left
    · rw [hsunk, hmark]
      rcases hk.outs hsm.left.left with heq | ⟨hbroken, hpiece⟩
      · cases ht with
        | refused _ => exact .inl (by rw [heq]; exact List.append_nil _)
        | @broken t o a _ hc ht ho ha hstrict =>
          have hsm' := hsm.left
          rw [← List.append_assoc] at hsm'
          obtain ⟨hb, buf, q, hsend⟩ := ha.broken hsm'
          have houts : Hist.outs (t ++ [a]) = o := by
            rw [Hist.outs_append, ht.outs, ha.emits.outs, List.append_nil]
          rw [List.append_assoc] at hb
          refine .inr ⟨hb.append_left _, c, hc, ?_, ?_⟩
          · rw [heq, houts, wire_concat, ← List.append_assoc]
            exact (List.prefix_append_right_inj _).mpr ho
          · rw [heq, houts, wire_concat, ← List.append_assoc]
            exact fun h => hstrict buf q hsend (List.append_cancel_left h)
      · rw [hbroken.outs_eq_nil hsm.left, List.append_nil]
        exact .inr ⟨(hbroken.append_left t).append_left _, hpiece⟩

end Kept

/-- Every `stream_out` keeps its records in order. -/
theorem wp_performs {I : Hist Call Call.Reply → Prop} {h t : Hist Call Call.Reply}
    {Q : Hist Call Call.Reply → Result Unit × Progress → Prop} {d : Deps} {b : Bytes}
    {top prog : SinkProg} {p p' : Progress} (hk : Kept d b p (h ++ t) p')
    (hup : ∀ rs, top.upcoming (results (h ++ t).calls ++ rs) = prog.upcoming rs)
    (hI : ∀ t, Records d b top (h ++ t) → I (h ++ t))
    (hQ : ∀ t r p', Kept d b p (h ++ t) p' → Q (h ++ t) (r, p')) :
    Proc.wp I Q ((prog.perform d).run p') (h ++ t) := by
  induction prog generalizing t p' with
  | ret r => exact hQ t r p' hk
  | call c k ih =>
    have hnext : top.upcoming (results (h ++ t).calls) = some c := by
      have := hup []
      rw [List.append_nil] at this
      exact this
    simp only [SinkProg.perform, Metered.run_bind, Metered.run_attempt, Metered.run_monadLift,
      Core.mark, Proc.bind_assoc, Proc.ret_bind, Proc.call_bind, Metered.cont_ok]
    rw [Proc.wp_bind]
    refine wp_sinkCall ?_ ?_
    · intro t' o hc ht' ho
      have hrec := hk.during hc hnext ht' ho
      rw [List.append_assoc] at hrec ⊢
      exact hI _ hrec
    · intro t' r ht'
      have hrec := hk.returned hnext ht'
      have hkept := hk.call ht'
      have hmore : ∀ rs, top.upcoming (results
          (Hist.calls (h ++ t ++ t' ++ [.call (.mark (.sink c r)) ()])) ++ rs) =
          (k r).upcoming rs := by
        intro rs
        have hres : results (Hist.calls (h ++ t ++ t' ++ [.call (.mark (.sink c r)) ()])) =
            results (h ++ t).calls ++ [r] := by
          rw [Hist.calls_append, results_append, (sunk_of_sinks ht'.sinks).2]
          rfl
        rw [hres, List.append_assoc]
        exact hup ([r] ++ rs)
      rw [List.append_assoc] at hrec ⊢
      refine ⟨hI _ hrec, fun _ => ?_⟩
      rw [List.append_assoc h t t', List.append_assoc] at hkept hmore
      rw [List.append_assoc]
      exact ih r hkept hmore

/-! ## The source: a whole run -/

/-- What the history of a source says about what it sent. -/
structure Issues (d : Deps) (streamOut : BackupPlan → SinkProg) (p : Progress)
    (h : Hist Call Call.Reply) : Prop where
  plan : ∀ plan, entered h.calls = some plan → Fits d (ControlFrame.plan plan) ∧
    frameBytes d (ControlFrame.plan plan) <+: h.outs
  records : Smooth h → ∃ s : Script, s.Fits d ∧ h.outs <+: s.bytes d ∧
    (∀ cs, cs <+: s.calls → frameBytes d (ControlFrame.plan s.plan) ++ wire d cs <+: h.outs →
      offered cs <+: offered (issued streamOut h.calls)) ∧
    ∀ n, s.total = some n →
      s.calls = sunk h.calls ++ [.finish] ∧ n = (countAll (sunk h.calls) p).bytes

section Issues

variable {d : Deps} {streamOut : BackupPlan → SinkProg} {p : Progress}
variable {h t : Hist Call Call.Reply} {plan : BackupPlan}

/-- Before `stream_out` is entered. -/
theorem Issues.opening (hfits : Fits d (ControlFrame.plan plan))
    (houts : h.outs <+: frameBytes d (ControlFrame.plan plan)) (hnone : entered h.calls = none) :
    Issues d streamOut p h := by
  refine ⟨fun plan' heq => ?_, fun _ => ?_⟩
  · rw [hnone] at heq
    cases heq
  · refine ⟨⟨plan, [], none⟩, ⟨hfits, fun c hc => by simp at hc⟩, ?_, ?_, fun n hn => by cases hn⟩
    · rw [Script.bytes]
      exact houts.trans (List.prefix_append _ _)
    · intro cs hcs _
      rw [List.prefix_nil.mp hcs]
      exact List.nil_prefix

/-- Nothing has been sent yet. -/
theorem Issues.silent (houts : h.outs = []) (hnone : entered h.calls = none) :
    Issues d streamOut p h := by
  refine .opening (fits_samplePlan d) ?_ hnone
  rw [houts]
  exact List.nil_prefix

/-- `stream_out` has been entered, after the plan was sent. -/
structure Entered (d : Deps) (plan : BackupPlan) (h : Hist Call Call.Reply) : Prop where
  fits : Fits d (ControlFrame.plan plan)
  entered : entered h.calls = some plan
  outs : frameBytes d (ControlFrame.plan plan) <+: h.outs

theorem Entered.append (he : Entered d plan h) (t : Hist Call Call.Reply) :
    Entered d plan (h ++ t) := by
  refine ⟨he.fits, ?_, ?_⟩
  · rw [Hist.calls_append, entered_append, he.entered]
    rfl
  · rw [Hist.outs_append]
    exact he.outs.trans (List.prefix_append _ _)

theorem Entered.announces (he : Entered d plan h) (plan' : BackupPlan)
    (heq : Core.entered h.calls = some plan') : Fits d (ControlFrame.plan plan') ∧
      frameBytes d (ControlFrame.plan plan') <+: h.outs := by
  rw [he.entered] at heq
  cases heq
  exact ⟨he.fits, he.outs⟩

theorem Entered.issued (he : Entered d plan h) : issued streamOut h.calls =
    sunk h.calls ++ ((streamOut plan).upcoming (results h.calls)).toList := by
  rw [Core.issued, underway, he.entered]
  rfl

/-- While `stream_out` runs, and after it as long as nothing else is sent. -/
theorem Entered.issues (he : Entered d plan h)
    (hr : Records d (frameBytes d (ControlFrame.plan plan)) (streamOut plan) h) :
    Issues d streamOut p h := by
  refine ⟨he.announces, fun hsm => ?_⟩
  obtain ⟨cs, hcs, hpre, hall⟩ := hr hsm
  refine ⟨⟨plan, cs, none⟩, ⟨he.fits, hcs⟩, ?_, ?_, fun n hn => by cases hn⟩
  · rw [Script.bytes, Script.closing, List.append_nil]
    exact hpre
  · rw [he.issued]
    exact hall

/-- After `StreamEnd`, with a part of the completion frame. -/
theorem Entered.closing (he : Entered d plan h) {n : UInt64} {o : Bytes}
    (hfits : Smooth h → ∀ c ∈ sunk h.calls, c.Fits d)
    (hn : n = (countAll (sunk h.calls) p).bytes)
    (ho : o <+: frameBytes d (ControlFrame.done n ""))
    (houts : Smooth h → h.outs = frameBytes d (ControlFrame.plan plan) ++
      wire d (sunk h.calls ++ [.finish]) ++ o) : Issues d streamOut p h := by
  refine ⟨he.announces, fun hsm => ?_⟩
  refine ⟨⟨plan, sunk h.calls ++ [.finish], some n⟩,
    ⟨he.fits, fits_concat (hfits hsm) (fits_finish d)⟩, ?_, ?_, ?_⟩
  · rw [houts hsm, script_bytes_some]
    exact (List.prefix_append_right_inj _).mpr ho
  · intro cs hcs _
    have hpre := offered_mono hcs
    rw [offered_append, offered_finish, List.append_nil] at hpre
    rw [he.issued]
    exact hpre.trans (offered_mono (List.prefix_append _ _))
  · intro m hm
    cases hm
    exact ⟨rfl, hn⟩

theorem entered_of_sent {fits : Prop} {x : Bytes} {r : Result Unit} (ht : Sent fits x t r) :
    entered t.calls = none := by
  have hflush : ∀ {t : Hist Call Call.Reply} {o}, Emits t o → entered t.calls = none := by
    intro t o ht
    refine entered_eq_none fun c hc plan heq => ?_
    rw [ht.calls c hc] at heq
    cases heq
  cases ht with
  | done _ ht => exact hflush ht
  | refused _ => rfl
  | broken _ ht _ ha _ => exact hflush (ht.append ha.emits)

end Issues

theorem Received.calls {F : Type} [Frame F] {d : Deps} {t : Hist Call Call.Reply}
    {r : Result (Option F)} (h : Received F d t r) : t.calls = [] := by
  cases h with
  | whole ht _ => exact ht.calls
  | ended ht _ => rw [Hist.calls_append, ht.calls]; rfl
  | cut ht _ _ => rw [Hist.calls_append, ht.calls]; rfl

section Wp

variable {d : Deps} {streamOut : BackupPlan → SinkProg} {p p' : Progress}
variable {h : Hist Call Call.Reply} {plan : BackupPlan} {fp : String}

/-- The closing frames and the audit. -/
theorem wp_closeIssues (he : Entered d plan h)
    (hk : Kept d (frameBytes d (ControlFrame.plan plan)) p h p') :
    Proc.wp (Issues d streamOut p) (fun h _ => Issues d streamOut p h)
      ((closeSource d fp plan).run p') h := by
  have hfinish : finish d = SinkCall.finish.perform d := rfl
  simp only [closeSource, hfinish, Metered.run_bind]
  rw [Proc.wp_bind]
  refine wp_sinkCall ?_ ?_
  · intro t o hf ht ho
    refine (he.append t).issues fun hsm => (hk.piece hf ht ho hsm).mono ?_
    rw [offered_append, offered_finish, List.append_nil]
    exact offered_mono (List.prefix_append _ _)
  intro t₁ r₁ h₁
  have he₁ := he.append t₁
  obtain ⟨hsunk₁, -⟩ := sunk_of_sinks (h := h) h₁.sinks
  cases r₁ with
  | error e =>
    refine he₁.issues ?_
    cases h₁ with
    | refused hf => exact absurd (fits_finish d) hf
    | broken hf ht ho ha _ =>
      intro hsm
      refine (hk.piece hf (ht.append ha.emits) (by rw [List.append_nil]; exact ho) hsm).mono ?_
      rw [offered_append, offered_finish, List.append_nil]
      exact offered_mono (List.prefix_append _ _)
  | ok _ =>
    obtain ⟨hf, ht₁⟩ := h₁.emits_of_ok
    have hfits₁ : Smooth (h ++ t₁) → ∀ c ∈ sunk (h ++ t₁).calls, c.Fits d := by
      rw [hsunk₁]
      exact fun hsm => hk.fits hsm.left
    have houts₁ : Smooth (h ++ t₁) → (h ++ t₁).outs =
        frameBytes d (ControlFrame.plan plan) ++ wire d (sunk (h ++ t₁).calls ++ [.finish]) := by
      intro hsm
      rw [hsunk₁, Hist.outs_append, ht₁.outs, wire_concat, ← List.append_assoc]
      rcases hk.outs hsm.left with heq | ⟨hbroken, -⟩
      · rw [heq]
      · have hnil := hbroken.outs_eq_nil hsm
        rw [ht₁.outs] at hnil
        exact absurd hnil (bytes_ne_nil d _)
    -- from here on a part of the completion frame may have been sent
    have hlater : ∀ t o, sinks (Hist.calls t) = [] → Hist.outs t = o →
        o <+: frameBytes d (ControlFrame.done p'.bytes "") →
        Issues d streamOut p (h ++ t₁ ++ t) := by
      intro t o hsinks ht ho
      obtain ⟨hsunk, -⟩ := sunk_of_sinks (h := h ++ t₁) hsinks
      refine (he₁.append t).closing (n := p'.bytes) ?_ ?_ ho fun hsm => ?_
      · rw [hsunk]
        exact fun hsm => hfits₁ hsm.left
      · rw [hsunk, hsunk₁, ← hk.counted]
      · rw [hsunk, Hist.outs_append, houts₁ hsm.left, ht]
    simp only [Metered.cont_ok, Metered.run_bind, Metered.run_bytes, Proc.ret_bind,
      Metered.run_monadLift, Proc.bind_assoc]
    rw [Proc.wp_bind]
    refine wp_sendFrame (fun t o _ ht ho => hlater t o ht.sinks ht.outs ho) ?_
    intro t₂ r₂ h₂
    cases r₂ with
    | error e =>
      cases h₂ with
      | refused hf => exact absurd (fits_done d _) hf
      | broken hf ht ho ha _ =>
        refine hlater _ _ (ht.append ha.emits).sinks (ht.append ha.emits).outs ?_
        rw [List.append_nil]
        exact ho
    | ok _ =>
      obtain ⟨-, ht₂⟩ := h₂.emits_of_ok
      refine ⟨hlater t₂ _ ht₂.sinks ht₂.outs List.prefix_rfl, fun r => ?_⟩
      have haudit := hlater (t₂ ++ [.call .fingerprint r]) _ ?_ ?_ List.prefix_rfl
      · rw [← List.append_assoc] at haudit
        cases r with
        | error e => exact haudit
        | ok fp' =>
          simp only [Proc.ret_bind, Metered.cont_ok]
          split
          · exact haudit
          · exact haudit
      · rw [Hist.calls_append, sinks_append, ht₂.sinks]
        rfl
      · rw [Hist.outs_append, ht₂.outs]
        exact List.append_nil _

/-- From the accepting decision on. -/
theorem wp_streamIssues (hfits : Fits d (ControlFrame.plan plan))
    (houts : h.outs = frameBytes d (ControlFrame.plan plan)) (hsinks : sinks h.calls = [])
    (hnone : entered h.calls = none) :
    Proc.wp (Issues d streamOut p) (fun h _ => Issues d streamOut p h)
      ((streamSource d streamOut fp plan).run p) h := by
  simp only [streamSource, Core.mark, Metered.run_bind, Metered.run_monadLift, Proc.call_bind,
    Proc.ret_bind, Metered.cont_ok, Metered.run_attempt, Proc.bind_assoc]
  refine ⟨.opening hfits (by rw [houts]) hnone, fun _ => ?_⟩
  have he : Entered d plan (h ++ [.call (.mark (.streamOut plan)) ()]) := by
    refine ⟨hfits, ?_, ?_⟩
    · rw [Hist.calls_append, entered_append, hnone]
      rfl
    · rw [Hist.outs_append, houts]
      exact List.prefix_append _ _
  have hcalls : sinks (Hist.calls (h ++ [.call (.mark (.streamOut plan)) ()])) = [] := by
    rw [Hist.calls_append, sinks_append, hsinks]
    rfl
  have hk : Kept d (frameBytes d (ControlFrame.plan plan)) p
      (h ++ [.call (.mark (.streamOut plan)) ()]) p := by
    have hsunk : sunk (Hist.calls (h ++ [.call (.mark (.streamOut plan)) ()])) = [] := by
      rw [sunk, hcalls]
      rfl
    refine ⟨by rw [hsunk]; rfl, fun _ c hc => ?_, fun _ => .inl ?_⟩
    · rw [hsunk] at hc
      simp at hc
    · rw [hsunk, Hist.outs_append, houts]
      rfl
  rw [Proc.wp_bind]
  rw [← List.append_nil (h ++ [_])] at hk ⊢
  have hup : ∀ rs, (streamOut plan).upcoming
      (results (Hist.calls (h ++ [.call (.mark (.streamOut plan)) ()] ++ [])) ++ rs) =
        (streamOut plan).upcoming rs := by
    intro rs
    rw [List.append_nil, results, hcalls]
    rfl
  refine wp_performs hk hup ?_ ?_
  · intro t hrec
    exact (he.append t).issues hrec
  · intro t r p' hk'
    refine ⟨(he.append t).issues (hk'.records _), fun _ => ?_⟩
    have hreturned := hk'.idle (t := [.call (.mark (.streamOutReturned r)) ()]) rfl rfl
    have he' := (he.append t).append [.call (.mark (.streamOutReturned r)) ()]
    cases r with
    | error e => exact he'.issues (hreturned.records _)
    | ok _ => exact wp_closeIssues he' hreturned

/-- The exchange of plan and decision, and what follows. -/
theorem wp_exchangeIssues :
    Proc.wp (Issues d streamOut p) (fun h _ => Issues d streamOut p h)
      ((do sendPlan d plan; recvAck d; streamSource d streamOut fp plan :
        Metered SourceOutcome).run p) (opened fp plan) := by
  simp only [sendPlan, Metered.run_bind, Metered.run_monadLift, Proc.bind_assoc, Proc.ret_bind]
  rw [Proc.wp_bind]
  have hsent : ∀ t o, Fits d (ControlFrame.plan plan) → Emits t o →
      o <+: frameBytes d (ControlFrame.plan plan) → Issues d streamOut p (opened fp plan ++ t) := by
    intro t o hf ht ho
    refine .opening hf ?_ ?_
    · rw [Hist.outs_append, ht.outs]
      exact ho
    · rw [Hist.calls_append, entered_append, entered_of_sent (.done trivial ht)]
      rfl
  refine wp_sendFrame hsent ?_
  intro t₁ r₁ h₁
  cases r₁ with
  | error e =>
    cases h₁ with
    | refused hf => exact .silent rfl rfl
    | broken hf ht ho ha _ =>
      refine hsent _ _ hf (ht.append ha.emits) ?_
      rw [List.append_nil]
      exact ho
  | ok _ =>
    obtain ⟨hf, ht₁⟩ := h₁.emits_of_ok
    -- receiving adds neither output nor calls
    have hreads : ∀ t : Hist Call Call.Reply, t.outs = [] → t.calls = [] →
        (opened fp plan ++ t₁ ++ t).outs = frameBytes d (ControlFrame.plan plan) ∧
        sinks (opened fp plan ++ t₁ ++ t).calls = [] ∧
        entered (opened fp plan ++ t₁ ++ t).calls = none := by
      intro t houts hcalls
      refine ⟨?_, ?_, ?_⟩
      · rw [Hist.outs_append, Hist.outs_append, houts, ht₁.outs, List.append_nil]
        rfl
      · rw [Hist.calls_append, Hist.calls_append, hcalls, sinks_append, sinks_append, ht₁.sinks]
        rfl
      · rw [Hist.calls_append, Hist.calls_append, hcalls, entered_append, entered_append,
          entered_of_sent h₁]
        rfl
    have hwaiting : ∀ t : Hist Call Call.Reply, t.outs = [] → t.calls = [] →
        Issues d streamOut p (opened fp plan ++ t₁ ++ t) := fun t houts hcalls =>
      .opening hf (by rw [(hreads t houts hcalls).1]) (hreads t houts hcalls).2.2
    simp only [Metered.cont_ok, Metered.run_bind, Metered.run_monadLift, Proc.bind_assoc,
      Proc.ret_bind]
    rw [Proc.wp_bind]
    refine wp_recvAck (fun t i ht => hwaiting t ht.outs ht.calls) ?_ ?_
    · intro t ht _
      obtain ⟨houts, hsinks, hnone⟩ := hreads t ht.outs ht.calls
      exact wp_streamIssues hf houts hsinks hnone
    · intro t r e ht _
      exact hwaiting t ht.outs ht.calls

/-- Every run of the source side, on every channel. -/
theorem wp_runIssues (d : Deps) (streamOut : BackupPlan → SinkProg) (p : Progress) :
    Proc.wp (Issues d streamOut p) (fun h _ => Issues d streamOut p h)
      ((runSource d streamOut).run p) [] := by
  rw [runSource_eq]
  simp only [fingerprint, analyze, acceptStream, Metered.run_bind, Metered.run_monadLift,
    Proc.call_bind, Proc.ret_bind]
  refine ⟨.silent rfl rfl, fun r => ?_⟩
  cases r with
  | error e => exact .silent rfl rfl
  | ok fp =>
    refine ⟨.silent rfl rfl, fun r => ?_⟩
    cases r with
    | error e => exact .silent rfl rfl
    | ok plan =>
      refine ⟨.silent rfl rfl, fun r => ?_⟩
      cases r with
      | error e => exact .silent rfl rfl
      | ok _ => exact wp_exchangeIssues

end Wp

end RustBackup.Core
