/-
  Io/Tasks.lean --- any number of tasks around what they share.

  A task is a family of programs: `prog n` is the program with its loops unrolled for
  `n` turns.  Its traces are the histories of all programs that are unrolled far
  enough, so a task may go on forever and no trace ends because a loop was cut off.

  What tasks do to each other goes through calls.  A protocol is an automaton on
  calls, and a program that conforms to it (`Proc.Conforms`) is described, as far as
  the others are concerned, by the state its calls have led to.
-/
import RustBackup.Io.Hoare
import Mathlib.Data.List.Induction
import Mathlib.Logic.Function.Basic

set_option autoImplicit false

namespace RustBackup.Io

variable {E : Type} {R : E → Type} {α β : Type}

namespace Proc

/-! ## Call protocols -/

section Protocol

variable {M : Type} (next : M → Sigma R → Option M)

/-- The state of a protocol after the calls of a history. -/
def after (m : M) (h : Hist E R) : Option M := h.calls.foldlM next m

theorem after_nil (m : M) : after next m ([] : Hist E R) = some m := rfl

theorem after_append (m : M) (h t : Hist E R) :
    after next m (h ++ t) = (after next m h).bind fun m' => after next m' t := by
  unfold after
  rw [Hist.calls_append, List.foldlM_append]
  rfl

theorem after_concat_call {m m' : M} {h : Hist E R} (hm : after next m h = some m') (e : E)
    (r : R e) : after next m (h ++ [.call e r]) = next m' ⟨e, r⟩ := by
  rw [after_append, hm]
  show (next m' ⟨e, r⟩).bind some = _
  exact Option.bind_fun_some _

/-- An interaction with the stream leaves the state as it is. -/
theorem after_concat {m : M} {h : Hist E R} {a : Act E R} (ha : a.call? = none) :
    after next m (h ++ [a]) = after next m h := by
  have hcalls : Hist.calls [a] = [] := by rw [Hist.calls, List.filterMap_cons_none ha]; rfl
  rw [after_append]
  unfold after
  rw [hcalls]
  exact Option.bind_fun_some _

/-- What a call establishes and every later call keeps. -/
theorem after_of_mem {P : M → Prop} {c : Sigma R}
    (hc : ∀ m m', next m c = some m' → P m')
    (hkeep : ∀ m c' m', P m → next m c' = some m' → P m') {m m' : M} {h : Hist E R}
    (hm : after next m h = some m') (hmem : c ∈ h.calls) : P m' := by
  unfold after at hm
  generalize h.calls = cs at hm hmem
  induction cs using List.reverseRecOn generalizing m' with
  | nil => cases hmem
  | append_singleton cs c' ih =>
    rw [List.foldlM_append] at hm
    obtain ⟨m₁, hm₁, hm'⟩ := Option.bind_eq_some_iff.mp hm
    have hlast : next m₁ c' = some m' := by simpa using hm'
    rcases List.mem_append.mp hmem with hmem | hmem
    · exact hkeep _ _ _ (ih hm₁ hmem) hlast
    · cases List.mem_singleton.mp hmem
      exact hc _ _ hlast

/-- What only one call establishes shows that the call was made. -/
theorem mem_of_after {P : M → Prop} {c : Sigma R} {m m' : M} {h : Hist E R} (hm : ¬ P m)
    (hc : ∀ m c' m', ¬ P m → next m c' = some m' → P m' → c' = c)
    (hm' : after next m h = some m') (hP : P m') : c ∈ h.calls := by
  unfold after at hm'
  generalize h.calls = cs at hm'
  induction cs using List.reverseRecOn generalizing m' with
  | nil =>
    cases hm'
    exact absurd hP hm
  | append_singleton cs c' ih =>
    rw [List.foldlM_append] at hm'
    obtain ⟨m₁, hm₁, hlast⟩ := Option.bind_eq_some_iff.mp hm'
    by_cases hP₁ : P m₁
    · exact List.mem_append_left _ (ih hP₁ hm₁)
    · have heq := hc m₁ c' m' hP₁ (by simpa using hlast) hP
      rw [heq]
      exact List.mem_append_right _ (List.mem_singleton_self _)

/-- What the calls of a history keep. -/
theorem after_keeps {P : M → Prop} {m m' : M} {h : Hist E R} (hm : P m)
    (hkeep : ∀ m c m', P m → c ∈ h.calls → next m c = some m' → P m')
    (hm' : after next m h = some m') : P m' := by
  unfold after at hm'
  generalize h.calls = cs at hm' hkeep
  induction cs using List.reverseRecOn generalizing m' with
  | nil =>
    cases hm'
    exact hm
  | append_singleton cs c ih =>
    rw [List.foldlM_append] at hm'
    obtain ⟨m₁, hm₁, hlast⟩ := Option.bind_eq_some_iff.mp hm'
    have hP := ih hm₁ fun m c' m' hP hmem => hkeep m c' m' hP (List.mem_append_left _ hmem)
    exact hkeep m₁ c m' hP (List.mem_append_right _ (List.mem_singleton_self _))
      (by simpa using hlast)

/-- Every call of the program is one that the protocol has in its state; `I` holds of
the state and of the kind of the next interaction, and `Q` when the program returns. -/
def Conforms (I : Kind → M → Prop) (Q : M → α → Prop) : Proc E R α → M → Prop
  | .ret a, m => Q m a
  | .read _ k, m => I .read m ∧ ∀ r, Conforms I Q (k r) m
  | .write _ k, m => I .write m ∧ ∀ r, Conforms I Q (k r) m
  | .call e k, m => I .call m ∧ ∀ r, ∃ m', next m ⟨e, r⟩ = some m' ∧ Conforms I Q (k r) m'

variable {next} {I : Kind → M → Prop}

theorem Conforms.bind {P : M → α → Prop} {Q : M → β → Prop} {p : Proc E R α}
    {f : α → Proc E R β} {m : M} (hp : p.Conforms next I P m)
    (hf : ∀ m a, P m a → (f a).Conforms next I Q m) : (p.bind f).Conforms next I Q m := by
  induction p generalizing m with
  | ret a => exact hf m a hp
  | read n k ih => exact ⟨hp.1, fun r => ih r (hp.2 r)⟩
  | write bs k ih => exact ⟨hp.1, fun r => ih r (hp.2 r)⟩
  | call e k ih =>
    refine ⟨hp.1, fun r => ?_⟩
    obtain ⟨m', hm', hp'⟩ := hp.2 r
    exact ⟨m', hm', ih r hp'⟩

theorem Conforms.mono {Q Q' : M → α → Prop} (hQ : ∀ m a, Q m a → Q' m a) {p : Proc E R α}
    {m : M} (hp : p.Conforms next I Q m) : p.Conforms next I Q' m := by
  induction p generalizing m with
  | ret a => exact hQ m a hp
  | read n k ih => exact ⟨hp.1, fun r => ih r (hp.2 r)⟩
  | write bs k ih => exact ⟨hp.1, fun r => ih r (hp.2 r)⟩
  | call e k ih =>
    refine ⟨hp.1, fun r => ?_⟩
    obtain ⟨m', hm', hp'⟩ := hp.2 r
    exact ⟨m', hm', ih r hp'⟩

/-- A program that makes no calls stays where it is. -/
theorem conforms_of_avoids {m : M} (hread : I .read m) (hwrite : I .write m) {p : Proc E R α}
    (hp : p.Avoids .call) : p.Conforms next I (fun m' _ => m' = m) m := by
  induction p with
  | ret a => exact rfl
  | read n k ih => exact ⟨hread, fun r => ih r (hp.2 r)⟩
  | write bs k ih => exact ⟨hwrite, fun r => ih r (hp.2 r)⟩
  | call e k _ => exact absurd rfl hp.1

/-- Every call that the program can ever make is one of `P`. -/
def Only (P : E → Prop) : Proc E R α → Prop
  | .ret _ => True
  | .read _ k => ∀ r, Only P (k r)
  | .write _ k => ∀ r, Only P (k r)
  | .call e k => P e ∧ ∀ r, Only P (k r)

theorem Only.bind {P : E → Prop} {p : Proc E R α} {f : α → Proc E R β} (hp : p.Only P)
    (hf : ∀ a, (f a).Only P) : (p.bind f).Only P := by
  induction p with
  | ret a => exact hf a
  | read n k ih => exact fun r => ih r (hp r)
  | write bs k ih => exact fun r => ih r (hp r)
  | call e k ih => exact ⟨hp.1, fun r => ih r (hp.2 r)⟩

theorem Avoids.only {P : E → Prop} {p : Proc E R α} (hp : p.Avoids .call) : p.Only P := by
  induction p with
  | ret a => exact trivial
  | read n k ih => exact fun r => ih r (hp.2 r)
  | write bs k ih => exact fun r => ih r (hp.2 r)
  | call e k _ => exact absurd rfl hp.1

theorem Only.mono {P P' : E → Prop} (hP : ∀ e, P e → P' e) {p : Proc E R α} (hp : p.Only P) :
    p.Only P' := by
  induction p with
  | ret a => exact trivial
  | read n k ih => exact fun r => ih r (hp r)
  | write bs k ih => exact fun r => ih r (hp r)
  | call e k ih => exact ⟨hP e hp.1, fun r => ih r (hp.2 r)⟩

/-- The history `h` goes on from `h₀` with calls of `P`. -/
def Adds (P : E → Prop) (h₀ h : Hist E R) : Prop := ∃ t, h = h₀ ++ t ∧ ∀ c ∈ t.calls, P c.1

theorem Adds.refl {P : E → Prop} (h : Hist E R) : Adds P h h :=
  ⟨[], (List.append_nil h).symm, fun _ hc => absurd hc List.not_mem_nil⟩

theorem Adds.trans {P : E → Prop} {h₀ h₁ h : Hist E R} (ha : Adds P h₀ h₁) (hb : Adds P h₁ h) :
    Adds P h₀ h := by
  obtain ⟨t, rfl, ht⟩ := ha
  obtain ⟨t', rfl, ht'⟩ := hb
  refine ⟨t ++ t', List.append_assoc _ _ _, fun c hmem => ?_⟩
  rw [Hist.calls_append, List.mem_append] at hmem
  exact hmem.elim (ht c) (ht' c)

theorem Adds.concat {P : E → Prop} {h₀ h : Hist E R} (ha : Adds P h₀ h) {a : Act E R}
    (hc : ∀ c, a.call? = some c → P c.1) : Adds P h₀ (h ++ [a]) := by
  refine ha.trans ⟨[a], rfl, fun c hmem => ?_⟩
  obtain ⟨b, hb, hcall⟩ := List.mem_filterMap.mp hmem
  obtain rfl := List.mem_singleton.mp hb
  exact hc c hcall

/-- A program whose calls are all of `P` keeps what such calls keep. -/
theorem Only.wp {P : E → Prop} {J : Hist E R → Prop} {Q : Hist E R → α → Prop}
    {h₀ : Hist E R} (hJ : ∀ h, Adds P h₀ h → J h) (hQ : ∀ h a, Adds P h₀ h → Q h a)
    {p : Proc E R α} (hp : p.Only P) {h : Hist E R} (hh : Adds P h₀ h) : Proc.wp J Q p h := by
  induction p generalizing h with
  | ret a => exact hQ h a hh
  | read n k ih =>
    exact ⟨hJ h hh, fun r _ => ih r (hp r) (hh.concat fun c hc => (by cases hc))⟩
  | write bs k ih =>
    exact ⟨hJ h hh, fun r _ => ih r (hp r) (hh.concat fun c hc => (by cases hc))⟩
  | call e k ih =>
    refine ⟨hJ h hh, fun r => ih r (hp.2 r) (hh.concat fun c hc => ?_)⟩
    cases hc
    exact hp.1

theorem Only.calls {P : E → Prop} {p q : Proc E R α} {t : Hist E R} (hp : p.Only P)
    (hr : p.Run t q) : ∀ c ∈ t.calls, P c.1 := by
  have hadds : Adds P [] t := by
    have hwp : Proc.wp (Adds P []) (fun h _ => Adds P [] h) p [] :=
      hp.wp (fun _ h => h) (fun _ _ h => h) (.refl [])
    exact Proc.wp_always (Q := fun h _ => Adds P [] h) (fun _ _ h => h) hwp hr
  obtain ⟨t', rfl, ht'⟩ := hadds
  exact ht'

/-- A program stays where its calls leave the protocol. -/
theorem Only.conforms {P : E → Prop} {m : M} (hI : ∀ k, I k m)
    (hP : ∀ e r, P e → next m ⟨e, r⟩ = some m) {p : Proc E R α} (hp : p.Only P) :
    p.Conforms next I (fun m' _ => m' = m) m := by
  induction p with
  | ret a => exact rfl
  | read n k ih => exact ⟨hI _, fun r => ih r (hp r)⟩
  | write bs k ih => exact ⟨hI _, fun r => ih r (hp r)⟩
  | call e k ih => exact ⟨hI _, fun r => ⟨m, hP e r hp.1, ih r (hp.2 r)⟩⟩

/-- A conforming program conforms after every run. -/
theorem Conforms.run {Q : M → α → Prop} {p q : Proc E R α} {h : Hist E R} {m : M}
    (hp : p.Conforms next I Q m) (hr : p.Run h q) :
    ∃ m', after next m h = some m' ∧ q.Conforms next I Q m' := by
  induction hr with
  | refl => exact ⟨m, rfl, hp⟩
  | tail _ hs ih =>
    obtain ⟨m', hm', hq⟩ := ih
    cases hs with
    | read _ => exact ⟨m', (after_concat next rfl).trans hm', hq.2 _⟩
    | write _ => exact ⟨m', (after_concat next rfl).trans hm', hq.2 _⟩
    | @call e k r =>
      obtain ⟨m'', hm'', hq'⟩ := hq.2 r
      exact ⟨m'', (after_concat_call next hm' e r).trans hm'', hq'⟩

end Protocol

/-! ## Traces of programs that go on -/

/-- The last step of a run. -/
theorem Run.of_concat {p q : Proc E R α} {h : Hist E R} {a : Act E R}
    (hr : p.Run (h ++ [a]) q) : ∃ q', p.Run h q' ∧ q'.Step a q := by
  generalize ht : h ++ [a] = t at hr
  cases hr with
  | refl => exact absurd ht (by simp)
  | tail hr hs =>
    obtain ⟨rfl, hlast⟩ := List.append_inj' ht rfl
    cases hlast
    exact ⟨_, hr, hs⟩

/-- A history of the task whose unrollings are `prog`. -/
def Trace (prog : Nat → Proc E R α) (h : Hist E R) : Prop :=
  ∃ n₀, ∀ n, n₀ ≤ n → ∃ q, (prog n).Run h q

theorem Trace.of_append {prog : Nat → Proc E R α} {h t : Hist E R} (ht : Trace prog (h ++ t)) :
    Trace prog h := by
  obtain ⟨n₀, hn⟩ := ht
  refine ⟨n₀, fun n hle => ?_⟩
  obtain ⟨q, hr⟩ := hn n hle
  clear hn
  induction t using List.reverseRecOn generalizing q with
  | nil => exact ⟨q, by rwa [List.append_nil] at hr⟩
  | append_singleton t a ih =>
    rw [← List.append_assoc] at hr
    obtain ⟨q', hr', -⟩ := hr.of_concat
    exact ih q' hr'

/-- It is enough to know it of unrollings of at least `k` turns. -/
theorem Trace.of_add {prog : Nat → Proc E R α} {h : Hist E R} (k : Nat)
    (hruns : ∀ n, ∃ q, (prog (n + k)).Run h q) : Trace prog h := by
  refine ⟨k, fun n hle => ?_⟩
  obtain ⟨m, rfl⟩ := Nat.exists_eq_add_of_le' hle
  exact hruns m

/-- A history at the end of which the task has returned. -/
def Ended (prog : Nat → Proc E R α) (h : Hist E R) : Prop :=
  ∃ n₀, ∀ n, n₀ ≤ n → ∃ a, (prog n).Run h (.ret a)

theorem trace_nil (prog : Nat → Proc E R α) : Trace prog [] := ⟨0, fun n _ => ⟨prog n, .refl _⟩⟩

section Protocol

variable {M : Type} {next : M → Sigma R → Option M} {I : Kind → M → Prop} {Q : M → α → Prop} {m : M}
variable {prog : Nat → Proc E R α} {h : Hist E R}

/-- A trace of a conforming task leads to a state of the protocol. -/
theorem Trace.after (hc : ∀ n, (prog n).Conforms next I Q m) (ht : Trace prog h) :
    ∃ m', Proc.after next m h = some m' := by
  obtain ⟨n, hn⟩ := ht
  obtain ⟨q, hr⟩ := hn n (Nat.le_refl n)
  obtain ⟨m', hm', -⟩ := (hc n).run hr
  exact ⟨m', hm'⟩

/-- Where a task has returned, its postcondition holds. -/
theorem Ended.after (hc : ∀ n, (prog n).Conforms next I Q m) (he : Ended prog h) :
    ∃ m' a, Proc.after next m h = some m' ∧ Q m' a := by
  obtain ⟨n, hn⟩ := he
  obtain ⟨a, hr⟩ := hn n (Nat.le_refl n)
  obtain ⟨m', hm', hq⟩ := (hc n).run hr
  exact ⟨m', a, hm', hq⟩

/-- In a state that no interaction starts from, a task has returned. -/
theorem Trace.ended (hc : ∀ n, (prog n).Conforms next I Q m) (ht : Trace prog h) {m' : M}
    (hm : Proc.after next m h = some m') (hI : ∀ k, ¬ I k m') : Ended prog h := by
  obtain ⟨n₀, hn⟩ := ht
  refine ⟨n₀, fun n hle => ?_⟩
  obtain ⟨q, hr⟩ := hn n hle
  obtain ⟨m'', hm'', hq⟩ := (hc n).run hr
  rw [hm] at hm''
  cases hm''
  cases q with
  | ret a => exact ⟨a, hr⟩
  | read n k => exact absurd hq.1 (hI _)
  | write bs k => exact absurd hq.1 (hI _)
  | call e k => exact absurd hq.1 (hI _)

/-- The calls of a trace are those of the protocol. -/
theorem Trace.call (hc : ∀ n, (prog n).Conforms next I Q m) {e : E} {r : R e}
    (ht : Trace prog (h ++ [.call e r])) :
    ∃ m' m'', Proc.after next m h = some m' ∧ I .call m' ∧ next m' ⟨e, r⟩ = some m'' := by
  obtain ⟨n, hn⟩ := ht
  obtain ⟨q, hr⟩ := hn n (Nat.le_refl n)
  obtain ⟨q', hr', hs⟩ := hr.of_concat
  obtain ⟨m', hm', hq⟩ := (hc n).run hr'
  cases hs with
  | call =>
    obtain ⟨m'', hm'', -⟩ := hq.2 r
    exact ⟨m', m'', hm', hq.1, hm''⟩

/-- What a trace does with the stream, it does where the protocol lets it. -/
theorem Trace.stream (hc : ∀ n, (prog n).Conforms next I Q m) {a : Act E R}
    (ht : Trace prog (h ++ [a])) (ha : a.call? = none) :
    ∃ m', Proc.after next m h = some m' ∧ (I .read m' ∨ I .write m') := by
  obtain ⟨n, hn⟩ := ht
  obtain ⟨q, hr⟩ := hn n (Nat.le_refl n)
  obtain ⟨q', hr', hs⟩ := hr.of_concat
  obtain ⟨m', hm', hq⟩ := (hc n).run hr'
  cases hs with
  | read _ => exact ⟨m', hm', .inl hq.1⟩
  | write _ => exact ⟨m', hm', .inr hq.1⟩
  | call => cases ha

end Protocol

end Proc

/-! ## Tasks that share an object -/

/-- What each task has done, and the object they share. -/
structure Tasks (ι E : Type) (R : E → Type) (σ : Type) where
  hist : ι → Hist E R
  shared : σ

section Log

variable {ι σ : Type} [DecidableEq ι]

/-- The state after an interaction of task `i` that left the object as `x`. -/
def Tasks.log (s : Tasks ι E R σ) (i : ι) (a : Act E R) (x : σ) : Tasks ι E R σ where
  hist := Function.update s.hist i (s.hist i ++ [a])
  shared := x

variable (s : Tasks ι E R σ) (i : ι) (a : Act E R) (x : σ)

@[simp] theorem Tasks.shared_log : (s.log i a x).shared = x := rfl

@[simp] theorem Tasks.hist_log_self : (s.log i a x).hist i = s.hist i ++ [a] :=
  Function.update_self _ _ _

theorem Tasks.hist_log_of_ne {j : ι} (hj : j ≠ i) : (s.log i a x).hist j = s.hist j :=
  Function.update_of_ne hj _ _

end Log

/-- What happens in a step: an interaction of a task, or something else that acts on
the object. -/
inductive Event (ι E : Type) (R : E → Type) (Λ : Type) where
  | task (i : ι) (a : Act E R)
  | env (l : Λ)

/-- The tasks, what their interactions and what other events do to the object. -/
structure Host (ι E : Type) (R : E → Type) (α σ Λ : Type) where
  prog : ι → Nat → Proc E R α
  effect : ι → Act E R → σ → σ → Prop
  env : Λ → σ → σ → Prop

namespace Host

variable {ι σ Λ : Type} [DecidableEq ι] (c : Host ι E R α σ Λ)

/-- One step: one task interacts, or something else happens. -/
inductive Step : Event ι E R Λ → Tasks ι E R σ → Tasks ι E R σ → Prop where
  | task {s : Tasks ι E R σ} {i : ι} {a : Act E R} {x : σ}
      (ht : Proc.Trace (c.prog i) (s.hist i ++ [a])) (he : c.effect i a s.shared x) :
      Step (.task i a) s (s.log i a x)
  | env {s : Tasks ι E R σ} {l : Λ} {x : σ} (he : c.env l s.shared x) :
      Step (.env l) s ⟨s.hist, x⟩

/-- The states reached from `x` by steps that all meet `ok`. -/
inductive Reach (ok : Tasks ι E R σ → Event ι E R Λ → Prop) (x : σ) : Tasks ι E R σ → Prop where
  | init : Reach ok x ⟨fun _ => [], x⟩
  | step {s s' : Tasks ι E R σ} {e : Event ι E R Λ} (hr : Reach ok x s) (hok : ok s e)
      (hs : Step c e s s') : Reach ok x s'

variable {c}

theorem Reach.trace {ok : Tasks ι E R σ → Event ι E R Λ → Prop} {x : σ} {s : Tasks ι E R σ}
    (hr : c.Reach ok x s) (i : ι) : Proc.Trace (c.prog i) (s.hist i) := by
  induction hr with
  | init => exact Proc.trace_nil _
  | step _ _ hs ih =>
    cases hs with
    | env _ => exact ih
    | @task s j a x ht _ =>
      by_cases hij : i = j
      · subst hij
        rw [Tasks.hist_log_self]
        exact ht
      · rw [Tasks.hist_log_of_ne _ _ _ _ hij]
        exact ih

/-- A task runs on while the object stays as it is. -/
theorem Reach.stretch {ok : Tasks ι E R σ → Event ι E R Λ → Prop} {x : σ} {s : Tasks ι E R σ}
    (hr : c.Reach ok x s) {i : ι} {t : Hist E R} (ht : Proc.Trace (c.prog i) (s.hist i ++ t))
    (hok : ∀ a ∈ t, ∀ s, ok s (.task i a)) (he : ∀ a ∈ t, c.effect i a s.shared s.shared) :
    ∃ s', c.Reach ok x s' ∧ s'.shared = s.shared ∧ s'.hist i = s.hist i ++ t ∧
      ∀ j, j ≠ i → s'.hist j = s.hist j := by
  induction t using List.reverseRecOn with
  | nil => exact ⟨s, hr, rfl, (List.append_nil _).symm, fun _ _ => rfl⟩
  | append_singleton t a ih =>
    rw [← List.append_assoc] at ht
    obtain ⟨s', hr', hshared, hi, hj⟩ := ih ht.of_append
      (fun b hb => hok b (List.mem_append_left _ hb))
      fun b hb => he b (List.mem_append_left _ hb)
    have ha : a ∈ t ++ [a] := List.mem_append_right _ (List.mem_singleton_self _)
    have hs : Step c (.task i a) s' (s'.log i a s.shared) := by
      refine .task ?_ ?_
      · rw [hi]
        exact ht
      · rw [hshared]
        exact he a ha
    refine ⟨_, .step hr' (hok a ha s') hs, rfl, ?_, fun j hne => ?_⟩
    · rw [Tasks.hist_log_self, hi, List.append_assoc]
    · rw [Tasks.hist_log_of_ne _ _ _ _ hne, hj j hne]

theorem Reach.mono {ok ok' : Tasks ι E R σ → Event ι E R Λ → Prop}
    (hok : ∀ s e, ok s e → ok' s e) {x : σ} {s : Tasks ι E R σ} (hr : c.Reach ok x s) :
    c.Reach ok' x s := by
  induction hr with
  | init => exact .init
  | step _ h hs ih => exact .step ih (hok _ _ h) hs

end Host

end RustBackup.Io
