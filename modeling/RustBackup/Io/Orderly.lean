/-
  Io/Orderly.lean --- what a reliable stream lets one task see.

  A task at one end of a reliable stream never sees a timeout or a failed read.
  Once it has seen end of stream nothing more arrives, and once a write has
  failed, because the peer is gone, nothing more is taken.  These are facts about
  its own history (`Orderly`), so a program can be verified against them without
  mentioning the other end; `Net.Reach.orderly` provides them for both ends.
-/
import RustBackup.Io.Duplex

set_option autoImplicit false

namespace RustBackup.Io

variable {E : Type} {R : E → Type}

/-- An interaction a reliable stream can have. -/
def Act.Calm : Act E R → Prop
  | .recv (.data _) => True
  | .recv .timeout => False
  | .recv .fault => False
  | .send _ (.wrote n) => 0 < n
  | .send _ .timeout => False
  | .send _ .fault => True
  | .call _ _ => True

/-- A history over a reliable stream. -/
structure Orderly (h : Hist E R) : Prop where
  calm : ∀ a ∈ h, Act.Calm a
  /-- end of stream is final -/
  eof : ∀ t t', h = t ++ .recv (.data []) :: t' → Hist.ins t' = []
  /-- a failed write is final -/
  broken : ∀ t t' bs, h = t ++ .send bs .fault :: t' → Hist.outs t' = []

theorem Orderly.left {h t : Hist E R} (ho : Orderly (h ++ t)) : Orderly h := by
  refine ⟨fun a ha => ho.calm a (List.mem_append_left t ha), ?_, ?_⟩
  · intro t₁ t₂ heq
    have := ho.eof t₁ (t₂ ++ t) (by rw [heq, List.append_assoc, List.cons_append])
    rw [Hist.ins_append, List.append_eq_nil_iff] at this
    exact this.1
  · intro t₁ t₂ bs heq
    have := ho.broken t₁ (t₂ ++ t) bs (by rw [heq, List.append_assoc, List.cons_append])
    rw [Hist.outs_append, List.append_eq_nil_iff] at this
    exact this.1

/-- After end of stream nothing arrives. -/
theorem Orderly.ins_eq_nil {h t : Hist E R} (ho : Orderly (h ++ t))
    (he : Act.recv (.data []) ∈ h) : Hist.ins t = [] := by
  obtain ⟨t₁, t₂, heq⟩ := List.append_of_mem he
  have := ho.eof t₁ (t₂ ++ t) (by rw [heq, List.append_assoc, List.cons_append])
  rw [Hist.ins_append, List.append_eq_nil_iff] at this
  exact this.2

/-- After a failed write nothing is taken. -/
theorem Orderly.outs_eq_nil {h t : Hist E R} {bs : Bytes} (ho : Orderly (h ++ t))
    (he : Act.send bs .fault ∈ h) : Hist.outs t = [] := by
  obtain ⟨t₁, t₂, heq⟩ := List.append_of_mem he
  have := ho.broken t₁ (t₂ ++ t) bs (by rw [heq, List.append_assoc, List.cons_append])
  rw [Hist.outs_append, List.append_eq_nil_iff] at this
  exact this.2

/-! ## One side of a network -/

/-- A history is orderly and the state agrees with the ends it has seen. -/
structure Settled (h : Hist E R) (peerDone : Prop) (inq : Bytes) : Prop where
  orderly : Orderly h
  eof : Act.recv (.data []) ∈ h → peerDone ∧ inq = []
  broken : ∀ bs, Act.send bs .fault ∈ h → peerDone

theorem Settled.nil (peerDone : Prop) : Settled ([] : Hist E R) peerDone [] := by
  refine ⟨⟨fun a ha => by simp at ha, fun t t' h => ?_, fun t t' bs h => ?_⟩,
    fun h => by simp at h, fun bs h => by simp at h⟩
  · simp at h
  · simp at h

/-- An orderly history grows by an interaction that moves nothing it must not
move. -/
theorem Orderly.snoc {h : Hist E R} {a : Act E R} (ho : Orderly h) (ha : a.Calm)
    (hin : Act.recv (.data []) ∈ h → Act.ins a = [])
    (hout : ∀ bs, Act.send bs .fault ∈ h → Act.outs a = []) : Orderly (h ++ [a]) := by
  refine ⟨?_, ?_, ?_⟩
  · intro b hb
    rcases List.mem_append.mp hb with hb | hb
    · exact ho.calm b hb
    · rw [List.mem_singleton] at hb
      rw [hb]
      exact ha
  · intro t t' heq
    rcases List.eq_nil_or_concat t' with rfl | ⟨t'', b, rfl⟩
    · rfl
    · rw [List.concat_eq_append, ← List.cons_append, ← List.append_assoc] at heq
      obtain ⟨h1, h2⟩ := List.append_inj' heq rfl
      obtain rfl : a = b := by simpa using h2
      rw [List.concat_eq_append, Hist.ins_append, ho.eof t t'' h1, Hist.ins_singleton,
        hin (by rw [h1]; simp)]
      rfl
  · intro t t' bs heq
    rcases List.eq_nil_or_concat t' with rfl | ⟨t'', b, rfl⟩
    · rfl
    · rw [List.concat_eq_append, ← List.cons_append, ← List.append_assoc] at heq
      obtain ⟨h1, h2⟩ := List.append_inj' heq rfl
      obtain rfl : a = b := by simpa using h2
      rw [List.concat_eq_append, Hist.outs_append, ho.broken t t'' bs h1, Hist.outs_singleton,
        hout bs (by rw [h1]; simp)]
      rfl

/-- The side that steps stays settled. -/
theorem Settled.step {policy : Policy E R} {cap : Nat} {peerDone : Prop}
    {h : Hist E R} {inq inq' outq outq' : Bytes} {a : Act E R} (hs : Settled h peerDone inq)
    (ha : Allowed policy cap peerDone inq inq' outq outq' a) :
    Settled (h ++ [a]) peerDone inq' := by
  obtain ⟨hbytes, -, -⟩ := Net.allowed_bytes ha
  have heof : Act.recv (.data []) ∈ h ++ [a] → peerDone ∧ inq' = [] := by
    intro hmem
    rcases List.mem_append.mp hmem with hmem | hmem
    · obtain ⟨hd, hnil⟩ := hs.eof hmem
      rw [hnil] at hbytes
      exact ⟨hd, (List.append_eq_nil_iff.mp hbytes.symm).2⟩
    · rw [List.mem_singleton] at hmem
      subst hmem
      exact ⟨ha.1, ha.2.2.1⟩
  have hbroken : ∀ bs, Act.send bs .fault ∈ h ++ [a] → peerDone := by
    intro bs hmem
    rcases List.mem_append.mp hmem with hmem | hmem
    · exact hs.broken bs hmem
    · rw [List.mem_singleton] at hmem
      subst hmem
      exact ha.1
  refine ⟨hs.orderly.snoc ?_ ?_ ?_, heof, hbroken⟩
  · cases a with
    | recv r =>
      cases r with
      | data bs => trivial
      | timeout => exact ha.elim
      | fault => exact ha.elim
    | send bs r =>
      cases r with
      | wrote n => exact ha.1
      | timeout => exact ha.elim
      | fault => trivial
    | call e r => trivial
  · intro hmem
    rw [(hs.eof hmem).2] at hbytes
    exact (List.append_eq_nil_iff.mp hbytes.symm).1
  · intro bs hmem
    have hd := hs.broken bs hmem
    cases a with
    | recv r => rfl
    | send buf r =>
      cases r with
      | wrote n => exact absurd hd ha.2.1
      | timeout => rfl
      | fault => rfl
    | call e r => rfl

/-- The other side stays settled: a side that has seen an end has a peer that
cannot step. -/
theorem Settled.peer_step {h : Hist E R} {peerDone peerDone' : Prop} {inq inq' : Bytes}
    (hs : Settled h peerDone inq) (hnot : ¬ peerDone) : Settled h peerDone' inq' :=
  ⟨hs.orderly, fun hmem => absurd (hs.eof hmem).1 hnot,
    fun bs hmem => absurd (hs.broken bs hmem) hnot⟩

/-! ## Both sides -/

namespace Net

variable {E₁ E₂ : Type} {R₁ : E₁ → Type} {R₂ : E₂ → Type} {α β : Type}

/-- A task that steps has not returned. -/
theorem not_finished_of_step {p q : Proc E R α} {a : Act E R} (hs : p.Step a q) :
    ¬ p.Finished := by
  rintro ⟨x, rfl⟩
  cases hs

/-- Both ends of a network see a reliable stream. -/
theorem Reach.orderly {c : Link E₁ R₁ E₂ R₂} {p : Proc E₁ R₁ α} {q : Proc E₂ R₂ β}
    {s : Net E₁ R₁ α E₂ R₂ β} (hr : Reach c p q s) :
    Orderly s.leftHist ∧ Orderly s.rightHist := by
  suffices h : Settled s.leftHist s.right.Finished s.toLeft ∧
      Settled s.rightHist s.left.Finished s.toRight from ⟨h.1.orderly, h.2.orderly⟩
  induction hr with
  | init => exact ⟨.nil _, .nil _⟩
  | step _ hs ih =>
    cases hs with
    | left hs ha => exact ⟨ih.1.step ha, ih.2.peer_step (not_finished_of_step hs)⟩
    | right hs ha => exact ⟨ih.1.peer_step (not_finished_of_step hs), ih.2.step ha⟩

end Net

end RustBackup.Io
