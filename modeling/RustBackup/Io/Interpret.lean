/-
  Io/Interpret.lean --- tasks whose calls are answered by other tasks.

  An object that is handed to a task may itself be a program over other objects.
  `Proc.interpret h` runs the program `h e` in place of every call `e`.  A run of the
  result is a run of the task in which each finished call was answered by a run of its
  program, and the last one may still be under way.
-/
import RustBackup.Io.Solo
import RustBackup.Io.Tasks

set_option autoImplicit false

namespace RustBackup.Io

variable {E E' : Type} {R : E → Type} {R' : E' → Type} {α : Type}

namespace Proc

/-! ## Answering calls by programs -/

/-- The program with `h e` in place of every call `e`. -/
def interpret (h : (e : E) → Proc E' R' (R e)) : Proc E R α → Proc E' R' α
  | .ret a => .ret a
  | .read n k => .read n fun r => (k r).interpret h
  | .write bs k => .write bs fun r => (k r).interpret h
  | .call e k => (h e).bind fun r => (k r).interpret h

variable (h : (e : E) → Proc E' R' (R e))

theorem Only.interpret {P : E' → Prop} (hh : ∀ e, (h e).Only P) (p : Proc E R α) :
    (p.interpret h).Only P := by
  induction p with
  | ret a => exact trivial
  | read n k ih => exact fun r => ih r
  | write bs k ih => exact fun r => ih r
  | call e k ih => exact (hh e).bind ih

/-- The history `t` is `s` with a run of its program in place of each call. -/
inductive Carries : Hist E R → Hist E' R' → Prop where
  | nil : Carries [] []
  | recv {s : Hist E R} {t : Hist E' R'} {r : ReadRes} (hst : Carries s t) :
      Carries (s ++ [.recv r]) (t ++ [.recv r])
  | send {s : Hist E R} {t : Hist E' R'} {bs : Bytes} {r : WriteRes} (hst : Carries s t) :
      Carries (s ++ [.send bs r]) (t ++ [.send bs r])
  | call {s : Hist E R} {t u : Hist E' R'} {e : E} {r : R e} (hst : Carries s t)
      (hu : (h e).Run u (.ret r)) : Carries (s ++ [.call e r]) (t ++ u)

/-- Where the interpreted program stands when the program itself stands at `p`: in the
middle of a call, of whose program `u` has run, or in front of a read, a write or the
end. -/
inductive Stands : Proc E R α → Hist E' R' → Proc E' R' α → Prop where
  | within {e : E} {k : R e → Proc E R α} {u : Hist E' R'} {q : Proc E' R' (R e)}
      (hu : (h e).Run u q) (hq : ¬ q.Finished) :
      Stands (.call e k) u (q.bind fun r => (k r).interpret h)
  | before {p : Proc E R α} (hp : p.kind ≠ .call) : Stands p [] (p.interpret h)

variable {h}

theorem Carries.append {s s' : Hist E R} {t t' : Hist E' R'} (hst : Carries h s t)
    (hst' : Carries h s' t') : Carries h (s ++ s') (t ++ t') := by
  induction hst' with
  | nil => rwa [List.append_nil, List.append_nil]
  | recv _ ih =>
    rw [← List.append_assoc, ← List.append_assoc]
    exact .recv ih
  | send _ ih =>
    rw [← List.append_assoc, ← List.append_assoc]
    exact .send ih
  | call _ hu ih =>
    rw [← List.append_assoc, ← List.append_assoc]
    exact .call ih hu

/-- Every call was answered by a run of its program. -/
theorem Carries.exists_answer {s : Hist E R} {t : Hist E' R'} (hst : Carries h s t)
    {c : Sigma R} (hc : c ∈ s.calls) : ∃ u, u <:+: t ∧ (h c.1).Run u (.ret c.2) := by
  have hmono : ∀ {t t' : Hist E' R'}, (∃ u, u <:+: t ∧ (h c.1).Run u (.ret c.2)) →
      ∃ u, u <:+: t ++ t' ∧ (h c.1).Run u (.ret c.2) := by
    rintro t t' ⟨u, hu, hrun⟩
    exact ⟨u, hu.trans (List.prefix_append t t').isInfix, hrun⟩
  induction hst with
  | nil => exact absurd hc List.not_mem_nil
  | recv _ ih =>
    rw [Hist.calls_append, Hist.calls_recv, List.append_nil] at hc
    exact hmono (ih hc)
  | send _ ih =>
    rw [Hist.calls_append, Hist.calls_send, List.append_nil] at hc
    exact hmono (ih hc)
  | call _ hu ih =>
    rw [Hist.calls_append, Hist.calls_call, List.mem_append] at hc
    rcases hc with hc | hc
    · exact hmono (ih hc)
    · obtain rfl := List.mem_singleton.mp hc
      exact ⟨_, (List.suffix_append _ _).isInfix, hu⟩

/-- Every call of the interpreted program was made for a call of the program. -/
theorem Carries.exists_call {s : Hist E R} {t : Hist E' R'} (hst : Carries h s t)
    {c : Sigma R'} (hc : c ∈ t.calls) :
    ∃ c' u, c' ∈ s.calls ∧ (h c'.1).Run u (.ret c'.2) ∧ c ∈ u.calls := by
  induction hst with
  | nil => exact absurd hc List.not_mem_nil
  | recv _ ih =>
    rw [Hist.calls_append, Hist.calls_recv, List.append_nil] at hc
    obtain ⟨c', u, hmem, hrun, hcu⟩ := ih hc
    exact ⟨c', u, by rw [Hist.calls_append]; exact List.mem_append_left _ hmem, hrun, hcu⟩
  | send _ ih =>
    rw [Hist.calls_append, Hist.calls_send, List.append_nil] at hc
    obtain ⟨c', u, hmem, hrun, hcu⟩ := ih hc
    exact ⟨c', u, by rw [Hist.calls_append]; exact List.mem_append_left _ hmem, hrun, hcu⟩
  | @call s t u e r _ hu ih =>
    rw [Hist.calls_append, List.mem_append] at hc
    rw [Hist.calls_append]
    rcases hc with hc | hc
    · obtain ⟨c', u, hmem, hrun, hcu⟩ := ih hc
      exact ⟨c', u, List.mem_append_left _ hmem, hrun, hcu⟩
    · exact ⟨⟨e, r⟩, u, List.mem_append_right _ (List.mem_singleton_self _), hu, hc⟩

/-- Answering calls writes nothing. -/
theorem Carries.outs {s : Hist E R} {t : Hist E' R'} (hh : ∀ e, (h e).Avoids .write)
    (hst : Carries h s t) : t.outs = s.outs := by
  induction hst with
  | nil => rfl
  | recv _ ih => rw [Hist.outs_append, Hist.outs_append, ih, Hist.outs_recv, Hist.outs_recv]
  | @send s t bs r _ ih =>
    rw [Hist.outs_append, Hist.outs_append, ih, Hist.outs_singleton, Hist.outs_singleton]
    cases r <;> rfl
  | call _ hu ih => rw [Hist.outs_append, Hist.outs_append, ih, (hh _).outs hu, Hist.outs_call]

/-- Calls that are answered without any interaction are passed over. -/
theorem exists_stands (p : Proc E R α) :
    ∃ s p', p.Run s p' ∧ Carries h s [] ∧ Stands h p' [] (p.interpret h) := by
  induction p with
  | ret a => exact ⟨[], _, .refl _, .nil, .before (by simp [kind])⟩
  | read n k _ => exact ⟨[], _, .refl _, .nil, .before (by simp [kind])⟩
  | write bs k _ => exact ⟨[], _, .refl _, .nil, .before (by simp [kind])⟩
  | call e k ih =>
    by_cases hq : (h e).Finished
    · obtain ⟨r, hr⟩ := hq
      obtain ⟨s, p', hrun, hcarries, hstands⟩ := ih r
      have hdone : (h e).Run [] (.ret r) := hr ▸ .refl _
      have hcall : Carries h [.call e r] [] := Carries.call .nil hdone
      refine ⟨_, p', .head .call hrun, hcall.append hcarries, ?_⟩
      rw [interpret, hr]
      exact hstands
    · exact ⟨[], _, .refl _, .nil, .within (.refl _) hq⟩

/-- Every run of an interpreted program is a run of the program. -/
theorem Run.of_interpret {p : Proc E R α} {t : Hist E' R'} {q : Proc E' R' α}
    (hr : (p.interpret h).Run t q) :
    ∃ s p' t' u, p.Run s p' ∧ Carries h s t' ∧ t = t' ++ u ∧ Stands h p' u q := by
  induction hr with
  | refl =>
    obtain ⟨s, p', hrun, hcarries, hstands⟩ := exists_stands (h := h) p
    exact ⟨s, p', [], [], hrun, hcarries, rfl, hstands⟩
  | @tail q q' t a _ hs ih =>
    obtain ⟨s, p', t', u, hrun, hcarries, rfl, hstands⟩ := ih
    -- the program goes on to `x`, and then to where it stands next
    have hon : ∀ {b : Act E R} {x : Proc E R α}, p'.Step b x →
        Carries h (s ++ [b]) (t' ++ u ++ [a]) → q' = x.interpret h →
        ∃ s p' t'' u', p.Run s p' ∧ Carries h s t'' ∧ t' ++ u ++ [a] = t'' ++ u' ∧
          Stands h p' u' q' := by
      intro b x hstep hcarries' heq
      obtain ⟨s', p'', hrun', hnil, hstands'⟩ := exists_stands (h := h) x
      have happ := hcarries'.append hnil
      rw [List.append_nil] at happ
      exact ⟨_, p'', _, [], (Run.tail hrun hstep).trans hrun', happ, (List.append_nil _).symm,
        heq ▸ hstands'⟩
    cases hstands with
    | @within e k u q₁ hu hq₁ =>
      obtain ⟨q₂, hstep, rfl⟩ := hs.of_bind hq₁
      have hu' := Run.tail hu hstep
      by_cases hq₂ : q₂.Finished
      · obtain ⟨r, rfl⟩ := hq₂
        refine hon (.call (r := r)) ?_ rfl
        rw [List.append_assoc]
        exact .call hcarries hu'
      · exact ⟨s, _, t', _, hrun, hcarries, List.append_assoc _ _ _, .within hu' hq₂⟩
    | before hp =>
      rw [List.append_nil] at hon ⊢
      cases p' with
      | ret a => cases hs
      | read n k =>
        cases hs with
        | read hfits => exact hon (.read hfits) (.recv hcarries) rfl
      | write bs k =>
        cases hs with
        | write hfits => exact hon (.write hfits) (.send hcarries) rfl
      | call e k => exact absurd rfl hp

/-- The run of the program behind a run of the interpreted one: each of its calls was
answered, it writes the same if answering writes nothing, and whatever was called was
called to answer one of its calls or the one that it is about to make. -/
theorem Run.exists_made {p : Proc E R α} {t : Hist E' R'} {q : Proc E' R' α}
    (hr : (p.interpret h).Run t q) :
    ∃ s p', p.Run s p' ∧ (∀ c ∈ s.calls, ∃ u, u <:+: t ∧ (h c.1).Run u (.ret c.2)) ∧
      ((∀ e, (h e).Avoids .write) → t.outs = s.outs) ∧
      ∀ c ∈ t.calls, (∃ c' ∈ s.calls, ∃ u, (h c'.1).Run u (.ret c'.2) ∧ c ∈ u.calls) ∨
        ∃ e k u q', p' = .call e k ∧ (h e).Run u q' ∧ ¬ q'.Finished ∧ c ∈ u.calls := by
  obtain ⟨s, p', t', u, hrun, hcarries, rfl, hstands⟩ := hr.of_interpret
  refine ⟨s, p', hrun, fun c hc => ?_, fun hh => ?_, fun c hc => ?_⟩
  · obtain ⟨u', hpart, hanswer⟩ := hcarries.exists_answer hc
    exact ⟨u', hpart.trans (List.prefix_append _ _).isInfix, hanswer⟩
  · rw [Hist.outs_append, hcarries.outs hh]
    cases hstands with
    | within hu _ => rw [(hh _).outs hu, List.append_nil]
    | before _ => exact List.append_nil _
  · rw [Hist.calls_append, List.mem_append] at hc
    rcases hc with hc | hc
    · obtain ⟨c', u', hmem, hanswer, hcu⟩ := hcarries.exists_call hc
      exact .inl ⟨c', hmem, u', hanswer, hcu⟩
    · cases hstands with
      | within hu hq => exact .inr ⟨_, _, _, _, rfl, hu, hq, hc⟩
      | before _ => exact absurd hc List.not_mem_nil

/-- Where each call of a history has an answer, the history is carried. -/
theorem exists_carries {s : Hist E R}
    (hs : ∀ c ∈ s.calls, ∃ u, (h c.1).Run u (.ret c.2)) : ∃ t, Carries h s t := by
  induction s using List.reverseRecOn with
  | nil => exact ⟨[], .nil⟩
  | append_singleton s a ih =>
    have hmem : ∀ c ∈ Hist.calls s ++ Hist.calls [a], ∃ u, (h c.1).Run u (.ret c.2) := by
      rw [← Hist.calls_append]
      exact hs
    obtain ⟨t, ht⟩ := ih fun c hc => hmem c (List.mem_append_left _ hc)
    cases a with
    | recv r => exact ⟨_, .recv ht⟩
    | send bs r => exact ⟨_, .send ht⟩
    | call e r =>
      obtain ⟨u, hu⟩ := hmem ⟨e, r⟩ (List.mem_append_right _ (List.mem_singleton_self _))
      exact ⟨_, .call ht hu⟩

/-- Where an interpreted program has returned, the program has. -/
theorem Run.of_interpret_ret {p : Proc E R α} {t : Hist E' R'} {a : α}
    (hr : (p.interpret h).Run t (.ret a)) : ∃ s, p.Run s (.ret a) ∧ Carries h s t := by
  obtain ⟨s, p', t', u, hrun, hcarries, rfl, hstands⟩ := hr.of_interpret
  generalize hq : (.ret a : Proc E' R' α) = q at hstands
  cases hstands with
  | @within e k u q₁ hu hq₁ =>
    have hfin : (q₁.bind fun r => (k r).interpret h).Finished := ⟨a, hq.symm⟩
    exact absurd hfin.of_bind hq₁
  | before hp =>
    cases p' with
    | ret b =>
      cases hq
      rw [List.append_nil]
      exact ⟨s, hrun, hcarries⟩
    | read n k => cases hq
    | write bs k => cases hq
    | call e k => exact absurd rfl hp

/-- A run of the program, with a run for each of its calls, is one of the interpreted
program. -/
theorem Run.interpret {p q : Proc E R α} {s : Hist E R} {t : Hist E' R'} (hr : p.Run s q)
    (hcarries : Carries h s t) : (p.interpret h).Run t (q.interpret h) := by
  induction hr generalizing t with
  | refl =>
    generalize hs : ([] : Hist E R) = s at hcarries
    cases hcarries with
    | nil => exact .refl _
    | recv _ => exact absurd hs (by simp)
    | send _ => exact absurd hs (by simp)
    | call _ _ => exact absurd hs (by simp)
  | @tail q q' s a _ hs ih =>
    generalize hsa : s ++ [a] = s' at hcarries
    cases hcarries with
    | nil => exact absurd hsa (by simp)
    | recv hcarries =>
      obtain ⟨rfl, hlast⟩ := List.append_inj' hsa rfl
      cases hlast
      cases hs with
      | read hfits => exact .tail (ih hcarries) (.read hfits)
    | send hcarries =>
      obtain ⟨rfl, hlast⟩ := List.append_inj' hsa rfl
      cases hlast
      cases hs with
      | write hfits => exact .tail (ih hcarries) (.write hfits)
    | call hcarries hu =>
      obtain ⟨rfl, hlast⟩ := List.append_inj' hsa rfl
      cases hlast
      cases hs with
      | call => exact (ih hcarries).trans (hu.bind _)

end Proc

end RustBackup.Io
