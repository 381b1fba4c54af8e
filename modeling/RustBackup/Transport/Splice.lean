/-
  Transport/Splice.lean --- a relay joins two substreams and adds nothing.

  A line is a consumer's substream, its relay, and the provider's substream that the
  relay has opened.  In every state the bytes of a line hang together (`Line`): what
  the destination has sent is the marker and what its application wrote; the relay has
  taken one byte of that and handed on some of the rest, behind a marker of its own;
  the source has taken that marker and handed some of the rest to its application.
  Every event leaves all lines but one alone.
-/
import RustBackup.Transport.World

set_option autoImplicit false

namespace RustBackup.Transport

open RustBackup.Serde RustBackup.Io RustBackup.Core

/-! ## The ends -/

/-- How far `open_stream` has come, and what it and the application have sent. -/
inductive Consumer.Opens (d : Deps) (k : Nat) (c : Consumer) : Prop where
  | opening (htask : c.task = (openReady d k).run) (hput : c.up.put = []) (hwrote : c.wrote = [])
  | ready (htask : c.task = .ret (.ok k)) (hput : c.up.put = STREAM_READY :: c.wrote)
  | failed {e : BackupError} (htask : c.task = .ret (.error e)) (hput : c.up.put = [])
      (hwrote : c.wrote = [])

/-- The end of a destination is in order. -/
structure Consumer.Sound (d : Deps) (k : Nat) (c : Consumer) : Prop where
  opens : c.Opens d k
  read : c.down.taken = c.read

/-- How far `accept_stream` has come, and what it and the application have taken. -/
inductive Provider.Accepts (d : Deps) (p : Nat) (e : Provider) : Prop where
  | waiting (htask : e.task = none) (htaken : e.down.taken = []) (hread : e.read = [])
  | accepting (htask : e.task = some (acceptReady d p).run) (htaken : e.down.taken = [])
      (hread : e.read = [])
  | ready (htask : e.task = some (.ret (.ok p))) (htaken : e.down.taken = STREAM_READY :: e.read)
  | failed {err : BackupError} (htask : e.task = some (.ret (.error err))) (hread : e.read = [])

/-- The end of a source is in order. -/
structure Provider.Sound (d : Deps) (p : Nat) (e : Provider) : Prop where
  accepts : e.Accepts d p
  wrote : e.up.put = e.wrote

section Ends

variable {d : Deps} {k p : Nat} {c : Consumer} {e : Provider}

/-- The application has its stream once something was sent. -/
theorem Consumer.Opens.of_put (h : c.Opens d k) (hput : c.up.put ≠ []) :
    c.task = .ret (.ok k) ∧ c.up.put = STREAM_READY :: c.wrote := by
  cases h with
  | opening _ hnil _ => exact absurd hnil hput
  | ready htask hput => exact ⟨htask, hput⟩
  | failed _ hnil _ => exact absurd hnil hput

theorem Consumer.Opens.of_ready (h : c.Opens d k) (hopen : c.task = .ret (.ok k)) :
    c.up.put = STREAM_READY :: c.wrote := by
  cases h with
  | opening htask _ _ =>
    rw [hopen] at htask
    exact absurd ⟨_, htask.symm⟩ (not_finished_openReady d k)
  | ready _ hput => exact hput
  | failed htask _ _ =>
    rw [hopen] at htask
    cases htask

theorem Provider.Accepts.of_ready (h : e.Accepts d p) (hopen : e.task = some (.ret (.ok p))) :
    e.down.taken = STREAM_READY :: e.read := by
  cases h with
  | waiting htask _ _ =>
    rw [hopen] at htask
    cases htask
  | accepting htask _ _ =>
    rw [hopen] at htask
    exact absurd ⟨_, (Option.some.inj htask).symm⟩ (not_finished_acceptReady d p)
  | ready _ htaken => exact htaken
  | failed htask _ =>
    rw [hopen] at htask
    cases htask

theorem Provider.Accepts.of_eq {e' : Provider} (h : e.Accepts d p) (htask : e'.task = e.task)
    (htaken : e'.down.taken = e.down.taken) (hread : e'.read = e.read) : e'.Accepts d p := by
  cases h with
  | waiting h₁ h₂ h₃ => exact .waiting (htask.trans h₁) (htaken.trans h₂) (hread.trans h₃)
  | accepting h₁ h₂ h₃ => exact .accepting (htask.trans h₁) (htaken.trans h₂) (hread.trans h₃)
  | ready h₁ h₂ =>
    refine .ready (htask.trans h₁) ?_
    rw [htaken, h₂, hread]
  | failed h₁ h₂ => exact .failed (htask.trans h₁) (hread.trans h₂)

theorem Consumer.Opens.of_eq {c' : Consumer} (h : c.Opens d k) (htask : c'.task = c.task)
    (hput : c'.up.put = c.up.put) (hwrote : c'.wrote = c.wrote) : c'.Opens d k := by
  cases h with
  | opening h₁ h₂ h₃ => exact .opening (htask.trans h₁) (hput.trans h₂) (hwrote.trans h₃)
  | ready h₁ h₂ =>
    refine .ready (htask.trans h₁) ?_
    rw [hput, h₂, hwrote]
  | failed h₁ h₂ h₃ => exact .failed (htask.trans h₁) (hput.trans h₂) (hwrote.trans h₃)

/-- What the application has read stands behind the marker. -/
theorem Provider.Accepts.read_eq (h : e.Accepts d p) :
    e.read = [] ∨ e.down.taken = STREAM_READY :: e.read := by
  cases h with
  | waiting _ _ hread => exact .inl hread
  | accepting _ _ hread => exact .inl hread
  | ready _ htaken => exact .inr htaken
  | failed _ hread => exact .inl hread

end Ends

/-! ## The relay in between -/

/-- What the relay has taken and given.  `e` is the provider's substream, once it is
open. -/
structure Relay.Carries (r : Relay) (c : Consumer) (e : Option Provider) : Prop where
  /-- it took one byte before it opened the provider's substream -/
  taken : ∃ x, c.up.taken = x ++ r.forth.put ∧ (e ≠ none → x.length = 1)
  given : c.down.put = r.back.taken
  /-- it gave the marker before it began to copy -/
  fed : ∀ e', e = some e' → (e'.down.put = [] ∧ r.forth.taken = []) ∨
    e'.down.put = STREAM_READY :: r.forth.taken
  fetched : ∀ e', e = some e' → e'.up.taken = r.back.put
  idle : e = none → r.forth.put = [] ∧ r.back.put = []

/-- Once the provider's substream is open, the marker is behind the relay. -/
theorem Relay.Carries.marked {r : Relay} {c : Consumer} {e : Provider}
    (h : r.Carries c (some e)) : ∃ b, c.up.taken = b :: r.forth.put := by
  obtain ⟨x, hx, hone⟩ := h.taken
  obtain ⟨b, rfl⟩ := List.length_eq_one_iff.mp (hone (by simp))
  exact ⟨b, hx⟩

theorem Relay.Carries.taken_some {r : Relay} {c : Consumer} {e e' : Provider}
    (h : r.Carries c (some e)) :
    ∃ x, c.up.taken = x ++ r.forth.put ∧ (some e' ≠ none → x.length = 1) := by
  obtain ⟨x, hx, hone⟩ := h.taken
  exact ⟨x, hx, fun _ => hone (by simp)⟩

/-- What a phase of the relay says about the line. -/
def RelayPhase.Fits (r : Relay) (c : Consumer) (e : Option Provider) : RelayPhase → Prop
  | .waiting => r.provider = none ∧ c.up.taken = []
  | .looking => r.provider = none ∧ c.up.taken.length = 1
  | .found _ => r.provider = none ∧ c.up.taken.length = 1
  | .picked _ => r.provider = none ∧ c.up.taken.length = 1
  | .opened p => r.provider = some p ∧ c.up.taken.length = 1 ∧ r.forth.put = [] ∧
      ∀ e', e = some e' → e'.down.put = []
  | .copying p => r.provider = some p ∧ (∃ b, c.up.taken = b :: r.forth.put) ∧
      ∀ e', e = some e' → e'.down.put = STREAM_READY :: r.forth.taken
  | .ended _ => True

/-- The relay is in order. -/
structure Relay.Sound (r : Relay) (c : Consumer) (e : Option Provider) : Prop where
  carries : r.Carries c e
  phase : ∃ ph : RelayPhase, r.task = ph.task r.id ∧ ph.Fits r c e

/-- Line `k` is in order. -/
structure Line (d : Deps) (w : World) (k : Nat) : Prop where
  consumer : ∀ c, w.consumers k = some c → c.Sound d k
  /-- without a relay nothing has moved -/
  idle : ∀ c, w.consumers k = some c → w.relays k = none → c.up.taken = [] ∧ c.down.put = []
  relay : ∀ r, w.relays k = some r → ∃ c, w.consumers k = some c ∧ c.accepted = true ∧
    r.Sound c (r.provider.bind w.providers)
  opened : ∀ r p, w.relays k = some r → r.provider = some p →
    ∃ e, w.providers p = some e ∧ e.relay = k
  provider : ∀ p e, w.providers p = some e → e.relay = k →
    e.Sound d p ∧ ∃ r, w.relays k = some r ∧ r.provider = some p

/-- Every line is in order. -/
def Wired (d : Deps) (w : World) : Prop := ∀ k, Line d w k

/-! ## An event changes one line -/

section Frame

variable {d : Deps} {w w' : World} {k : Nat}

/-- A line is made of its own parts only. -/
theorem Line.congr (hc : w'.consumers k = w.consumers k) (hr : w'.relays k = w.relays k)
    (hp : ∀ p e, e.relay = k → (w'.providers p = some e ↔ w.providers p = some e))
    (h : Line d w k) : Line d w' k := by
  refine ⟨?_, ?_, ?_, ?_, ?_⟩
  · rw [hc]
    exact h.consumer
  · rw [hc, hr]
    exact h.idle
  · rw [hc, hr]
    intro r hrel
    obtain ⟨c, hcons, hacc, hsound⟩ := h.relay r hrel
    refine ⟨c, hcons, hacc, ?_⟩
    cases hprov : r.provider with
    | none =>
      rw [hprov] at hsound
      exact hsound
    | some p =>
      obtain ⟨e, he, hk⟩ := h.opened r p hrel hprov
      rw [hprov, Option.bind_some, he] at hsound
      rw [Option.bind_some, (hp p e hk).mpr he]
      exact hsound
  · rw [hr]
    intro r p hrel hprov
    obtain ⟨e, he, hk⟩ := h.opened r p hrel hprov
    exact ⟨e, (hp p e hk).mpr he, hk⟩
  · rw [hr]
    intro p e he hk
    exact h.provider p e ((hp p e hk).mp he) hk

/-- The two worlds differ in line `k` only. -/
structure Elsewhere (k : Nat) (w w' : World) : Prop where
  consumers : ∀ k', k' ≠ k → w'.consumers k' = w.consumers k'
  relays : ∀ k', k' ≠ k → w'.relays k' = w.relays k'
  providers : ∀ p e, e.relay ≠ k → (w'.providers p = some e ↔ w.providers p = some e)

theorem Wired.of_line (h : Wired d w) (hw : Elsewhere k w w') (hk : Line d w' k) : Wired d w' := by
  intro k'
  by_cases hne : k' = k
  · rw [hne]
    exact hk
  · refine (h k').congr (hw.consumers k' hne) (hw.relays k' hne) fun p e he => ?_
    refine hw.providers p e ?_
    rw [he]
    exact hne

theorem Elsewhere.refl (k : Nat) (w : World) : Elsewhere k w w :=
  ⟨fun _ _ => rfl, fun _ _ => rfl, fun _ _ _ => Iff.rfl⟩

theorem Elsewhere.setConsumer (h : Elsewhere k w w') (c : Consumer) :
    Elsewhere k w (w'.setConsumer k c) :=
  ⟨fun k' hne => (World.consumers_setConsumer_of_ne hne).trans (h.consumers k' hne),
    h.relays, h.providers⟩

theorem Elsewhere.setRelay (h : Elsewhere k w w') (r : Relay) :
    Elsewhere k w (w'.setRelay k r) :=
  ⟨h.consumers, fun k' hne => (World.relays_setRelay_of_ne hne).trans (h.relays k' hne),
    h.providers⟩

theorem Elsewhere.setProvider (h : Elsewhere k w w') {p : Nat} {e : Provider}
    (he : e.relay = k) (hold : ∀ e', w'.providers p = some e' → e'.relay = k) :
    Elsewhere k w (w'.setProvider p e) := by
  refine ⟨h.consumers, h.relays, fun p' e' hne => ?_⟩
  by_cases hp : p' = p
  · subst hp
    rw [← h.providers p' e' hne, World.providers_setProvider, Option.some.injEq]
    constructor
    · rintro rfl
      exact absurd he hne
    · intro hw'
      exact absurd (hold e' hw') hne
  · rw [World.providers_setProvider_of_ne hp]
    exact h.providers p' e' hne

/-- The registry, the pools and the permits belong to no line. -/
theorem Elsewhere.of_eq (hc : w'.consumers = w.consumers) (hr : w'.relays = w.relays)
    (hp : w'.providers = w.providers) (k : Nat) : Elsewhere k w w' := by
  refine ⟨fun k' _ => ?_, fun k' _ => ?_, fun p e _ => ?_⟩
  · rw [hc]
  · rw [hr]
  · rw [hp]

end Frame

section Ends

variable {d : Deps} {w : World} {k p : Nat} {r : Relay} {c c' : Consumer} {e e' : Provider}

/-- The relay sees of the consumer's substream what it took and what it gave. -/
theorem Relay.Sound.congr {o : Option Provider} (h : r.Sound c o)
    (htaken : c'.up.taken = c.up.taken) (hput : c'.down.put = c.down.put) : r.Sound c' o := by
  obtain ⟨hcarries, ph, htask, hfits⟩ := h
  refine ⟨⟨?_, ?_, hcarries.fed, hcarries.fetched, hcarries.idle⟩, ph, htask, ?_⟩
  · rw [htaken]
    exact hcarries.taken
  · rw [hput]
    exact hcarries.given
  · cases ph with
    | ended r => exact trivial
    | _ =>
      simp only [RelayPhase.Fits, htaken] at hfits ⊢
      exact hfits

/-- The relay sees of the provider's substream what it gave and what it took. -/
theorem Relay.Sound.congr_provider (h : r.Sound c (some e)) (hput : e'.down.put = e.down.put)
    (htaken : e'.up.taken = e.up.taken) : r.Sound c (some e') := by
  obtain ⟨hcarries, ph, htask, hfits⟩ := h
  refine ⟨⟨hcarries.taken_some, hcarries.given, ?_, ?_, fun h => by cases h⟩, ph, htask, ?_⟩
  · rintro e₁ ⟨rfl⟩
    rw [hput]
    exact hcarries.fed e rfl
  · rintro e₁ ⟨rfl⟩
    rw [htaken]
    exact hcarries.fetched e rfl
  · cases ph with
    | opened p =>
      refine ⟨hfits.1, hfits.2.1, hfits.2.2.1, ?_⟩
      rintro e₁ ⟨rfl⟩
      rw [hput]
      exact hfits.2.2.2 e rfl
    | copying p =>
      refine ⟨hfits.1, hfits.2.1, ?_⟩
      rintro e₁ ⟨rfl⟩
      rw [hput]
      exact hfits.2.2 e rfl
    | _ => exact hfits

/-- The destination's end moves. -/
theorem Wired.setConsumer (h : Wired d w) (hc : w.consumers k = some c) (hs : c'.Sound d k)
    (hacc : c.accepted = true → c'.accepted = true) (htaken : c'.up.taken = c.up.taken)
    (hput : c'.down.put = c.down.put) : Wired d (w.setConsumer k c') := by
  refine h.of_line ((Elsewhere.refl k w).setConsumer c') ⟨?_, ?_, ?_, (h k).opened, (h k).provider⟩
  · intro c₁ hc₁
    rw [World.consumers_setConsumer] at hc₁
    cases hc₁
    exact hs
  · intro c₁ hc₁ hr
    rw [World.consumers_setConsumer] at hc₁
    cases hc₁
    rw [htaken, hput]
    exact (h k).idle c hc hr
  · intro r hr
    obtain ⟨c₀, hc₀, haccepted, hsound⟩ := (h k).relay r hr
    rw [hc] at hc₀
    cases hc₀
    exact ⟨c', World.consumers_setConsumer _ _ _, hacc haccepted, hsound.congr htaken hput⟩

/-- The source's end moves. -/
theorem Wired.setProvider (h : Wired d w) (hp : w.providers p = some e) (hs : e'.Sound d p)
    (hk : e'.relay = e.relay) (hput : e'.down.put = e.down.put)
    (htaken : e'.up.taken = e.up.taken) : Wired d (w.setProvider p e') := by
  have hline := h e.relay
  refine h.of_line ((Elsewhere.refl e.relay w).setProvider (p := p) hk ?_)
    ⟨hline.consumer, hline.idle, ?_, ?_, ?_⟩
  · intro e₁ he₁
    rw [hp] at he₁
    cases he₁
    rfl
  · intro r hr
    obtain ⟨c, hc, hacc, hsound⟩ := hline.relay r hr
    refine ⟨c, hc, hacc, ?_⟩
    cases hprov : r.provider with
    | none =>
      rw [hprov] at hsound
      exact hsound
    | some p' =>
      rw [hprov, Option.bind_some] at hsound
      rw [Option.bind_some]
      by_cases hne : p' = p
      · subst hne
        rw [hp] at hsound
        rw [World.providers_setProvider]
        exact hsound.congr_provider hput htaken
      · rw [World.providers_setProvider_of_ne hne]
        exact hsound
  · intro r p' hr hprov
    by_cases hne : p' = p
    · subst hne
      exact ⟨e', World.providers_setProvider _ _ _, hk⟩
    · rw [World.providers_setProvider_of_ne hne]
      exact hline.opened r p' hr hprov
  · intro p' e₁ he₁ hk₁
    by_cases hne : p' = p
    · subst hne
      rw [World.providers_setProvider] at he₁
      cases he₁
      exact ⟨hs, (hline.provider p' e hp rfl).2⟩
    · rw [World.providers_setProvider_of_ne hne] at he₁
      exact hline.provider p' e₁ he₁ hk₁

end Ends

/-! ## What relays do -/

section Relays

variable {d : Deps} {w w' : World} {k p : Nat} {r r' : Relay} {c c' : Consumer}
variable {e e' : Provider}

/-- A line with a relay is put together from its parts. -/
theorem Wired.join (h : Wired d w) (hw : Elsewhere k w w') (hc : w'.consumers k = some c)
    (hr : w'.relays k = some r) (hcs : c.Sound d k) (hacc : c.accepted = true)
    (hs : r.Sound c (r.provider.bind w'.providers))
    (hopened : ∀ p, r.provider = some p → ∃ e, w'.providers p = some e ∧ e.relay = k)
    (hprov : ∀ p e, w'.providers p = some e → e.relay = k →
      e.Sound d p ∧ r.provider = some p) : Wired d w' := by
  refine h.of_line hw ⟨?_, ?_, ?_, ?_, ?_⟩
  · intro c₁ hc₁
    rw [hc] at hc₁
    cases hc₁
    exact hcs
  · intro c₁ _ hnone
    rw [hr] at hnone
    cases hnone
  · intro r₁ hr₁
    rw [hr] at hr₁
    cases hr₁
    exact ⟨c, hc, hacc, hs⟩
  · intro r₁ p hr₁
    rw [hr] at hr₁
    cases hr₁
    exact hopened p
  · intro p e he hk
    exact ⟨(hprov p e he hk).1, r, hr, (hprov p e he hk).2⟩

/-- The relay moves, and what it took from the consumer's substream or gave to it. -/
theorem Wired.setRelay (h : Wired d w) (hr : w.relays k = some r) (hw : Elsewhere k w w')
    (hc : w'.consumers k = some c') (hp : w'.providers = w.providers) (hcs : c'.Sound d k)
    (hacc : c'.accepted = true) (hprov : r'.provider = r.provider)
    (hs : r'.Sound c' (r.provider.bind w.providers)) : Wired d (w'.setRelay k r') := by
  refine h.join (hw.setRelay r') hc (World.relays_setRelay _ _ _) hcs hacc ?_ ?_ ?_
  · rw [hprov, World.providers_setRelay, hp]
    exact hs
  · rw [hprov, World.providers_setRelay, hp]
    exact fun p hsome => (h k).opened r p hr hsome
  · rw [hprov, World.providers_setRelay, hp]
    intro p e he hk
    obtain ⟨hsound, r₀, hr₀, hsome⟩ := (h k).provider p e he hk
    rw [hr] at hr₀
    cases hr₀
    exact ⟨hsound, hsome⟩

/-- The relay moves, and what it took from the provider's substream or gave to it. -/
theorem Wired.setRelay_provider (h : Wired d w) (hr : w.relays k = some r)
    (hc : w.consumers k = some c) (hsome : r'.provider = some p)
    (hold : ∀ e, w.providers p = some e → e.relay = k)
    (honly : ∀ p' e, w.providers p' = some e → e.relay = k → p' = p)
    (hes : e'.Sound d p) (hk : e'.relay = k) (hs : r'.Sound c (some e')) :
    Wired d ((w.setProvider p e').setRelay k r') := by
  obtain ⟨c₀, hc₀, hacc, -⟩ := (h k).relay r hr
  rw [hc] at hc₀
  cases hc₀
  refine h.join (((Elsewhere.refl k w).setProvider hk hold).setRelay r') hc
    (World.relays_setRelay _ _ _) ((h k).consumer c hc) hacc ?_ ?_ ?_
  · rw [hsome, Option.bind_some, World.providers_setRelay, World.providers_setProvider]
    exact hs
  · intro p' hp'
    rw [hsome] at hp'
    cases hp'
    exact ⟨e', World.providers_setProvider _ _ _, hk⟩
  · intro p' e₁ he₁ hk₁
    rw [World.providers_setRelay] at he₁
    by_cases hne : p' = p
    · subst hne
      rw [World.providers_setProvider] at he₁
      cases he₁
      exact ⟨hes, hsome⟩
    · rw [World.providers_setProvider_of_ne hne] at he₁
      exact absurd (honly p' e₁ he₁ hk₁) hne

/-- The only provider of a line is that of its relay. -/
theorem Line.provider_unique (h : Line d w k) (hr : w.relays k = some r)
    (hp : w.providers p = some e) (hk : e.relay = k) : r.provider = some p := by
  obtain ⟨-, r₀, hr₀, hsome⟩ := h.provider p e hp hk
  rw [hr] at hr₀
  cases hr₀
  exact hsome

/-- As `setRelay_provider`, for a substream that was there before. -/
theorem Wired.setRelay_copy (h : Wired d w) (hr : w.relays k = some r)
    (hc : w.consumers k = some c) (hprov : r'.provider = some p)
    (hp : w.providers p = some e) (hes : e'.Sound d p) (hk : e'.relay = k)
    (hs : r'.Sound c (some e')) (hold : e.relay = k) :
    Wired d ((w.setProvider p e').setRelay k r') := by
  refine h.setRelay_provider hr hc hprov ?_ ?_ hes hk hs
  · intro e₁ he₁
    rw [hp] at he₁
    cases he₁
    exact hold
  · intro p' e₁ he₁ hk₁
    have h₁ := (h k).provider_unique hr he₁ hk₁
    have h₂ := (h k).provider_unique hr hp hold
    rw [h₁] at h₂
    exact Option.some.inj h₂

/-- The relay moves on and nothing else of its line does. -/
theorem Wired.setRelay_task (h : Wired d w) (hr : w.relays k = some r)
    (hc : w.consumers k = some c) (hw : w'.consumers = w.consumers)
    (hw' : w'.relays = w.relays) (hp : w'.providers = w.providers) (ph : RelayPhase)
    (hfits : ph.Fits r c (r.provider.bind w.providers)) :
    Wired d (w'.setRelay k { r with task := ph.task r.id }) := by
  obtain ⟨c₀, hc₀, hacc, hsound⟩ := (h k).relay r hr
  rw [hc] at hc₀
  cases hc₀
  refine h.setRelay hr (Elsewhere.of_eq hw hw' hp k) (by rw [hw]; exact hc) hp
    ((h k).consumer c hc) hacc rfl ⟨?_, ph, rfl, ?_⟩
  · have hcarries := hsound.carries
    exact ⟨hcarries.taken, hcarries.given, hcarries.fed, hcarries.fetched, hcarries.idle⟩
  · cases ph with
    | _ => exact hfits

/-- The relay takes its marker, or finds that there is none. -/
theorem Wired.setRelay_marker (h : Wired d w) (hr : w.relays k = some r)
    (hc : w.consumers k = some c) (hprov : r.provider = none)
    {up : Pipe} {bs : Bytes} (hpull : c.up.Pull bs up) {ph : RelayPhase}
    (hfits : ph.Fits r { c with up := up } none) :
    Wired d ((w.setConsumer k { c with up := up }).setRelay k { r with task := ph.task r.id }) := by
  obtain ⟨c₀, hc₀, hacc, hsound⟩ := (h k).relay r hr
  rw [hc] at hc₀
  cases hc₀
  rw [hprov] at hsound
  have hcarries := hsound.carries
  have hcs := (h k).consumer c hc
  refine h.setRelay hr ((Elsewhere.refl k w).setConsumer _) (World.consumers_setConsumer _ _ _) rfl
    ⟨hcs.opens.of_eq rfl hpull.put rfl, hcs.read⟩ hacc rfl ?_
  · have hnone : r.provider.bind w.providers = none := by rw [hprov]; rfl
    rw [hnone]
    obtain ⟨hforth, hback⟩ := hcarries.idle rfl
    refine ⟨⟨⟨up.taken, ?_, ?_⟩, hcarries.given, hcarries.fed, hcarries.fetched, hcarries.idle⟩,
      ph, rfl, ?_⟩
    · show up.taken = up.taken ++ r.forth.put
      rw [hforth, List.append_nil]
    · exact fun hne => absurd rfl hne
    · cases ph with
      | _ => exact hfits

theorem Wired.relaying (h : Wired d w) {a : Act RelayCall RelayCall.Reply}
    {t : Proc RelayCall RelayCall.Reply (Except RelayError Unit)} (hr : w.relays k = some r)
    (hs : r.task.Step a t) (he : relayEffect k a w w') :
    Wired d (w'.setRelay k { r with task := t, provider := r.opened a }) := by
  obtain ⟨c, hc, hacc, ⟨hcarries, ph, htask, hfits⟩⟩ := (h k).relay r hr
  have hcs := (h k).consumer c hc
  rw [htask] at hs
  obtain ⟨ph', rfl, hnext⟩ := RelayPhase.next_of_step hs
  cases hnext with
  | marked b =>
    obtain ⟨c₀, up, hc₀, hpull, rfl⟩ := he
    rw [hc] at hc₀
    cases hc₀
    refine h.setRelay_marker hr hc hfits.1 hpull ⟨hfits.1, ?_⟩
    show up.taken.length = 1
    rw [hpull.taken, hfits.2]
    rfl
  | unmarked hq =>
    obtain ⟨c₀, up, hc₀, hpull, rfl⟩ := he
    rw [hc] at hc₀
    cases hc₀
    exact h.setRelay_marker hr hc hfits.1 hpull trivial
  | found pool =>
    obtain ⟨-, rfl⟩ := he
    exact h.setRelay_task hr hc rfl rfl rfl (.found pool) hfits
  | missing =>
    obtain ⟨-, rfl⟩ := he
    exact h.setRelay_task hr hc rfl rfl rfl (.ended _) trivial
  | picked pool opener =>
    obtain ⟨-, rfl⟩ := he
    refine h.setRelay_task hr hc ?_ ?_ ?_ (.picked opener) hfits
    all_goals rfl
  | dead pool =>
    obtain ⟨-, rfl⟩ := he
    refine h.setRelay_task hr hc ?_ ?_ ?_ (.ended _) trivial
    all_goals rfl
  | unavailable opener err =>
    cases he
    exact h.setRelay_task hr hc rfl rfl rfl (.ended _) trivial
  | opened opener p =>
    obtain ⟨hnew, rfl⟩ := he
    have hidle := hcarries.idle (by rw [hfits.1]; rfl)
    refine h.setRelay_provider hr hc rfl ?_ ?_ ⟨.waiting rfl rfl rfl, rfl⟩ rfl ?_
    · intro e he
      rw [hnew] at he
      cases he
    · intro p' e he hk
      have hsome := (h k).provider_unique hr he hk
      rw [hfits.1] at hsome
      cases hsome
    · have htaken : c.up.taken = c.up.taken ++ r.forth.put := by rw [hidle.1, List.append_nil]
      refine ⟨⟨⟨_, htaken, fun _ => hfits.2⟩, hcarries.given, ?_, ?_, fun h => by cases h⟩,
        .opened p, rfl, rfl, hfits.2, hidle.1, ?_⟩
      · rintro e ⟨rfl⟩
        refine .inl ⟨rfl, ?_⟩
        exact List.prefix_nil.mp (hidle.1 ▸ r.forth.fifo)
      · rintro e ⟨rfl⟩
        exact hidle.2.symm
      · rintro e ⟨rfl⟩
        rfl
  | ready p m =>
    obtain ⟨e, hp, hm, rfl⟩ := he
    obtain ⟨hprov, hone, hforth, hdown⟩ := hfits
    obtain ⟨e₀, he₀, hk⟩ := (h k).opened r p hr hprov
    rw [hp] at he₀
    cases he₀
    have hbind : r.provider.bind w.providers = some e := by rw [hprov]; exact hp
    have hmarker : [STREAM_READY].take (m + 1) = [STREAM_READY] := by simp
    have htaken : r.forth.taken = [] := List.prefix_nil.mp (hforth ▸ r.forth.fifo)
    have hes := ((h k).provider p e hp hk).1
    have hput : (e.down.push ([STREAM_READY].take (m + 1))).put =
        STREAM_READY :: r.forth.taken := by
      rw [Pipe.put_push, hdown e hbind, hmarker, htaken]
      rfl
    refine h.setRelay_copy hr hc hprov hp ⟨hes.accepts.of_eq rfl rfl rfl, hes.wrote⟩ hk ?_ hk
    rw [hbind] at hcarries
    refine ⟨⟨hcarries.taken_some, hcarries.given, ?_, ?_, fun h => by cases h⟩, .copying p, rfl,
      hprov, ?_, ?_⟩
    · rintro e₁ ⟨rfl⟩
      exact .inr hput
    · rintro e₁ ⟨rfl⟩
      exact hcarries.fetched e rfl
    · obtain ⟨b, hb⟩ := List.length_eq_one_iff.mp hone
      exact ⟨b, by rw [hb, hforth]⟩
    · rintro e₁ ⟨rfl⟩
      exact hput
  | @unready p q hq =>
    cases q with
    | wrote m =>
      obtain ⟨e, hp, -, rfl⟩ := he
      obtain rfl : m = 0 := by
        cases m with
        | zero => rfl
        | succ m => exact absurd rfl (hq m)
      have hes := ((h e.relay).provider p e hp rfl).1
      have h' : Wired d (w.setProvider p { e with down := e.down.push [] }) :=
        h.setProvider hp ⟨hes.accepts.of_eq rfl rfl rfl, hes.wrote⟩ rfl (List.append_nil _) rfl
      exact h'.setRelay_task hr hc rfl rfl rfl (.ended _) trivial
    | timeout =>
      cases he
      exact h.setRelay_task hr hc rfl rfl rfl (.ended _) trivial
    | fault =>
      cases he
      exact h.setRelay_task hr hc rfl rfl rfl (.ended _) trivial
  | copied p q hres =>
    cases he
    exact h.setRelay_task hr hc rfl rfl rfl (.ended _) trivial

end Relays

/-! ## Every event keeps the lines in order -/

section Events

variable {d : Deps} {w w' : World} {k p : Nat} {r : Relay} {c : Consumer} {e : Provider}

/-- A relay is spawned. -/
theorem Wired.spawns (h : Wired d w) (hc : w.consumers k = some c) (hacc : c.accepted = true)
    (hr : w.relays k = none) (id : String) : Wired d (w.setRelay k (.new id)) := by
  obtain ⟨htaken, hput⟩ := (h k).idle c hc hr
  refine h.join ((Elsewhere.refl k w).setRelay _) hc (World.relays_setRelay _ _ _)
    ((h k).consumer c hc) hacc ?_ ?_ ?_
  · refine ⟨⟨⟨[], htaken, fun hne => absurd rfl hne⟩, hput, ?_, ?_, fun _ => ⟨rfl, rfl⟩⟩,
      .waiting, rfl, rfl, htaken⟩
    · rintro e ⟨⟩
    · rintro e ⟨⟩
  · rintro p ⟨⟩
  · intro p e hp hk
    obtain ⟨-, r, hr', -⟩ := (h k).provider p e hp hk
    rw [hr] at hr'
    cases hr'

/-- What belongs to no line changes. -/
theorem Wired.congr (h : Wired d w) (hc : w'.consumers = w.consumers)
    (hr : w'.relays = w.relays) (hp : w'.providers = w.providers) : Wired d w' := by
  intro k
  refine (h k).congr ?_ ?_ fun p e _ => ?_
  · rw [hc]
  · rw [hr]
  · rw [hp]

/-- A destination gets a substream. -/
theorem Wired.opens (h : Wired d w) (hnew : w.consumers k = none)
    {t : Proc ChannelCall ChannelCall.Reply (Except BackupError Nat)}
    (hs : (openStream d .destination).run.Step (.call .openStream (.ok k)) t) (conn : Nat) :
    Wired d (w.setConsumer k ⟨conn, false, t, .empty, .empty, [], []⟩) := by
  have hnone : w.relays k = none := by
    cases hr : w.relays k with
    | none => rfl
    | some r =>
      obtain ⟨c, hc, -⟩ := (h k).relay r hr
      rw [hnew] at hc
      cases hc
  have htask : t = (openReady d k).run := by
    cases hs with
    | call => rfl
  refine h.of_line ((Elsewhere.refl k w).setConsumer _) ⟨?_, ?_, ?_, (h k).opened, (h k).provider⟩
  · intro c hc
    rw [World.consumers_setConsumer] at hc
    cases hc
    exact ⟨.opening htask rfl rfl, rfl⟩
  · intro c hc _
    rw [World.consumers_setConsumer] at hc
    cases hc
    exact ⟨rfl, rfl⟩
  · intro r hr
    rw [World.relays_setConsumer, hnone] at hr
    cases hr

/-- `open_stream` writes the marker. -/
theorem Wired.opening (h : Wired d w) (hc : w.consumers k = some c)
    {a : Act ChannelCall ChannelCall.Reply}
    {t : Proc ChannelCall ChannelCall.Reply (Except BackupError Nat)} (hs : c.task.Step a t) :
    Wired d (w.setConsumer k { c with task := t, up := c.up.push a.outs }) := by
  have hcs := (h k).consumer c hc
  refine h.setConsumer hc ⟨?_, hcs.read⟩ (fun h => h) rfl rfl
  cases hcs.opens with
  | opening htask hput hwrote =>
    rw [htask] at hs
    rcases step_openReady hs with ⟨rfl, rfl⟩ | ⟨q, err, rfl, hq, rfl⟩
    · refine .ready rfl ?_
      show c.up.put ++ [STREAM_READY] = STREAM_READY :: c.wrote
      rw [hput, hwrote]
      rfl
    · refine .failed rfl ?_ hwrote
      show c.up.put ++ Act.outs (.send [STREAM_READY] q) = []
      rw [hput]
      cases q with
      | wrote m =>
        cases m with
        | zero => rfl
        | succ m => exact absurd rfl (hq m)
      | timeout => rfl
      | fault => rfl
  | ready htask _ =>
    rw [htask] at hs
    cases hs
  | failed htask _ _ =>
    rw [htask] at hs
    cases hs

/-- A source gets a substream. -/
theorem Wired.accepts (h : Wired d w) (hp : w.providers p = some e) (hnew : e.task = none)
    {t : Proc ChannelCall ChannelCall.Reply (Except BackupError Nat)}
    (hs : (acceptStream d .source).run.Step (.call .acceptStream (some p)) t) :
    Wired d (w.setProvider p { e with task := some t }) := by
  have hes := ((h e.relay).provider p e hp rfl).1
  have htask : t = (acceptReady d p).run := by
    cases hs with
    | call => rfl
  refine h.setProvider hp ⟨?_, hes.wrote⟩ rfl rfl rfl
  cases hes.accepts with
  | waiting _ htaken hread => exact .accepting (congrArg some htask) htaken hread
  | accepting htask _ _ => rw [hnew] at htask; cases htask
  | ready htask _ => rw [hnew] at htask; cases htask
  | failed htask _ => rw [hnew] at htask; cases htask

/-- `accept_stream` reads the marker. -/
theorem Wired.accepting (h : Wired d w) (hp : w.providers p = some e)
    {a : Act ChannelCall ChannelCall.Reply}
    {t t' : Proc ChannelCall ChannelCall.Reply (Except BackupError Nat)} {down : Pipe}
    (ht : e.task = some t) (hs : t.Step a t') (hpull : e.down.Pull a.ins down) :
    Wired d (w.setProvider p { e with task := some t', down := down }) := by
  have hes := ((h e.relay).provider p e hp rfl).1
  refine h.setProvider hp ⟨?_, hes.wrote⟩ rfl hpull.put rfl
  cases hes.accepts with
  | waiting htask _ _ => rw [ht] at htask; cases htask
  | accepting htask htaken hread =>
    rw [ht] at htask
    cases htask
    rcases step_acceptReady hs with ⟨rfl, rfl⟩ | ⟨q, err, rfl, rfl⟩
    · refine .ready rfl ?_
      show down.taken = STREAM_READY :: e.read
      rw [hpull.taken, htaken, hread]
      rfl
    · exact .failed rfl hread
  | ready htask _ =>
    rw [ht] at htask
    cases htask
    cases hs
  | failed htask _ =>
    rw [ht] at htask
    cases htask
    cases hs

/-- A relay that copies, and the two substreams it joins. -/
theorem Wired.copying (h : Wired d w) (hr : w.relays k = some r)
    (hcopy : r.task = (relayCopy p).run) :
    ∃ c e b, w.consumers k = some c ∧ c.accepted = true ∧ w.providers p = some e ∧ e.relay = k ∧
      r.provider = some p ∧ r.Carries c (some e) ∧ c.up.taken = b :: r.forth.put ∧
      e.down.put = STREAM_READY :: r.forth.taken := by
  obtain ⟨c, hc, hacc, ⟨hcarries, ph, htask, hfits⟩⟩ := (h k).relay r hr
  rw [hcopy] at htask
  obtain rfl := RelayPhase.eq_copying htask.symm
  obtain ⟨hprov, ⟨b, htaken⟩, hdown⟩ := hfits
  obtain ⟨e, he, hk⟩ := (h k).opened r p hr hprov
  have hbind : r.provider.bind w.providers = some e := by rw [hprov]; exact he
  rw [hbind] at hcarries
  exact ⟨c, e, b, hc, hacc, he, hk, hprov, hcarries, htaken, hdown e hbind⟩

theorem Wired.happens {l : Happening} (h : Wired d w) (hs : Happens d l w w') : Wired d w' := by
  cases hs with
  | opens hnew hs => exact h.opens hnew hs _
  | opening hc hs => exact h.opening hc hs
  | relaying hr hs he => exact h.relaying hr hs he
  | accepts hp hnew _ hs => exact h.accepts hp hnew hs
  | accepting hp ht hs hpull => exact h.accepting hp ht hs hpull
  | @releases w k r hr _ _ =>
    obtain ⟨c, hc, hacc, ⟨hcarries, ph, htask, hfits⟩⟩ := (h k).relay r hr
    refine h.setRelay hr ?_ hc ?_ ((h k).consumer c hc) hacc ?_ ⟨?_, ph, htask, ?_⟩
    · exact ⟨fun _ _ => rfl, fun _ _ => rfl, fun _ _ _ => Iff.rfl⟩
    · rfl
    · rfl
    · exact ⟨hcarries.taken, hcarries.given, hcarries.fed, hcarries.fetched, hcarries.idle⟩
    · cases ph with
      | _ => exact hfits
  | @takeForth w k p r c bs up hr hcopy hc hpull =>
    obtain ⟨c₀, e, b, hc₀, hacc, he, hk, hprov, hcarries, htaken, hdown⟩ := h.copying hr hcopy
    rw [hc] at hc₀
    cases hc₀
    have hcs := (h k).consumer c hc
    have hbind : r.provider.bind w.providers = some e := by rw [hprov]; exact he
    have hup : up.taken = b :: (r.forth.put ++ bs) := by
      rw [hpull.taken, htaken]
      rfl
    refine h.setRelay hr ((Elsewhere.refl k w).setConsumer _) (World.consumers_setConsumer _ _ _)
      rfl ⟨hcs.opens.of_eq rfl hpull.put rfl, hcs.read⟩ hacc rfl ?_
    rw [hbind]
    refine ⟨⟨⟨[b], hup, fun _ => rfl⟩, hcarries.given, hcarries.fed, hcarries.fetched,
      fun h => by cases h⟩, .copying p, hcopy, hprov, ⟨b, hup⟩, ?_⟩
    rintro e₁ ⟨rfl⟩
    exact hdown
  | @giveForth w k p r e bs forth hr hcopy hp hpull =>
    obtain ⟨c, e₀, b, hc, hacc, he₀, hk, hprov, hcarries, htaken, hdown⟩ := h.copying hr hcopy
    rw [hp] at he₀
    cases he₀
    have hes := ((h k).provider p e hp hk).1
    have hput : e.down.put ++ bs = STREAM_READY :: forth.taken := by
      rw [hdown, hpull.taken]
      rfl
    refine h.setRelay_copy hr hc hprov hp ⟨hes.accepts.of_eq rfl rfl rfl, hes.wrote⟩ hk ?_ hk
    refine ⟨⟨?_, hcarries.given, ?_, ?_, fun h => by cases h⟩, .copying p, hcopy, hprov, ?_, ?_⟩
    · show ∃ x, c.up.taken = x ++ forth.put ∧ _
      rw [hpull.put]
      exact hcarries.taken_some
    · rintro e₁ ⟨rfl⟩
      exact .inr hput
    · rintro e₁ ⟨rfl⟩
      exact hcarries.fetched e rfl
    · refine ⟨b, ?_⟩
      show c.up.taken = b :: forth.put
      rw [hpull.put]
      exact htaken
    · rintro e₁ ⟨rfl⟩
      exact hput
  | @takeBack w k p r e bs up hr hcopy hp hpull =>
    obtain ⟨c, e₀, b, hc, hacc, he₀, hk, hprov, hcarries, htaken, hdown⟩ := h.copying hr hcopy
    rw [hp] at he₀
    cases he₀
    have hes := ((h k).provider p e hp hk).1
    refine h.setRelay_copy hr hc hprov hp
      ⟨hes.accepts.of_eq rfl rfl rfl, hpull.put.trans hes.wrote⟩ hk ?_ hk
    refine ⟨⟨hcarries.taken_some, hcarries.given, ?_, ?_, fun h => by cases h⟩, .copying p, hcopy,
      hprov, ⟨b, htaken⟩, ?_⟩
    · rintro e₁ ⟨rfl⟩
      exact .inr hdown
    · rintro e₁ ⟨rfl⟩
      show up.taken = r.back.put ++ bs
      rw [hpull.taken, hcarries.fetched e rfl]
    · rintro e₁ ⟨rfl⟩
      exact hdown
  | @giveBack w k p r c bs back hr hcopy hc hpull =>
    obtain ⟨c₀, e, b, hc₀, hacc, he, hk, hprov, hcarries, htaken, hdown⟩ := h.copying hr hcopy
    rw [hc] at hc₀
    cases hc₀
    have hcs := (h k).consumer c hc
    have hbind : r.provider.bind w.providers = some e := by rw [hprov]; exact he
    refine h.setRelay hr ((Elsewhere.refl k w).setConsumer _) (World.consumers_setConsumer _ _ _)
      rfl ⟨hcs.opens.of_eq rfl rfl rfl, hcs.read⟩ hacc rfl ?_
    rw [hbind]
    refine ⟨⟨hcarries.taken, ?_, hcarries.fed, ?_, fun h => by cases h⟩, .copying p, hcopy, hprov,
      ⟨b, htaken⟩, ?_⟩
    · show c.down.put ++ bs = back.taken
      rw [hpull.taken, hcarries.given]
    · rintro e₁ ⟨rfl⟩
      show e.up.taken = back.put
      rw [hpull.put]
      exact hcarries.fetched e rfl
    · rintro e₁ ⟨rfl⟩
      exact hdown
  | @consumerWrites w k c bs hc hopen =>
    have hcs := (h k).consumer c hc
    refine h.setConsumer hc ⟨.ready hopen ?_, hcs.read⟩ (fun h => h) rfl rfl
    show c.up.put ++ bs = _
    rw [hcs.opens.of_ready hopen]
    rfl
  | @consumerReads w k c bs down hc hopen hpull =>
    have hcs := (h k).consumer c hc
    refine h.setConsumer hc ⟨.ready hopen (hcs.opens.of_ready hopen), ?_⟩ (fun h => h) rfl hpull.put
    show down.taken = c.read ++ bs
    rw [hpull.taken, hcs.read]
  | @providerWrites w p e bs hp hopen =>
    have hes := ((h e.relay).provider p e hp rfl).1
    refine h.setProvider hp ⟨.ready hopen (hes.accepts.of_ready hopen), ?_⟩ rfl rfl rfl
    show e.up.put ++ bs = e.wrote ++ bs
    rw [hes.wrote]
  | @providerReads w p e bs down hp hopen hpull =>
    have hes := ((h e.relay).provider p e hp rfl).1
    refine h.setProvider hp ⟨.ready hopen ?_, hes.wrote⟩ rfl hpull.put rfl
    show down.taken = STREAM_READY :: (e.read ++ bs)
    rw [hpull.taken, hes.accepts.of_ready hopen]
    rfl

end Events

/-! ## From one application to the other -/

section EndToEnd

variable {d : Deps} {w : World} {k p : Nat} {r : Relay} {c : Consumer} {e : Provider}

/-- A relay opens a substream to the provider only after `open_stream` has returned. -/
theorem Line.opened_marked (h : Line d w k) (hr : w.relays k = some r)
    (hprov : r.provider = some p) (hc : w.consumers k = some c) :
    c.task = .ret (.ok k) ∧ c.up.put = STREAM_READY :: c.wrote := by
  obtain ⟨e, he, -⟩ := h.opened r p hr hprov
  obtain ⟨c₀, hc₀, -, ⟨hcarries, -⟩⟩ := h.relay r hr
  rw [hc] at hc₀
  cases hc₀
  rw [hprov, Option.bind_some, he] at hcarries
  obtain ⟨b, htaken⟩ := hcarries.marked
  refine (h.consumer c hc).opens.of_put fun hput => ?_
  have hfifo := c.up.fifo
  rw [hput, htaken] at hfifo
  exact absurd (List.prefix_nil.mp hfifo) (by simp)

/-- What the source's application has read is a prefix of what the destination's has
written. -/
theorem Line.forth (h : Line d w k) (hr : w.relays k = some r) (hprov : r.provider = some p)
    (hc : w.consumers k = some c) (hp : w.providers p = some e) : e.read <+: c.wrote := by
  obtain ⟨e₀, he₀, hk⟩ := h.opened r p hr hprov
  rw [hp] at he₀
  cases he₀
  obtain ⟨c₀, hc₀, -, ⟨hcarries, -⟩⟩ := h.relay r hr
  rw [hc] at hc₀
  cases hc₀
  rw [hprov, Option.bind_some, hp] at hcarries
  -- behind the marker, the source has read part of what the relay has passed on
  have hpassed : e.read <+: r.forth.taken := by
    rcases (h.provider p e hp hk).1.accepts.read_eq with hnil | htaken
    · rw [hnil]
      exact List.nil_prefix
    · have hfifo := e.down.fifo
      rw [htaken] at hfifo
      rcases hcarries.fed e rfl with ⟨hput, -⟩ | hput
      · rw [hput] at hfifo
        exact absurd (List.prefix_nil.mp hfifo) (by simp)
      · rw [hput, List.cons_prefix_cons] at hfifo
        exact hfifo.2
  -- behind the marker, the relay has taken part of what the destination has written
  have hsent : r.forth.put <+: c.wrote := by
    obtain ⟨b, htaken⟩ := hcarries.marked
    have hfifo := c.up.fifo
    rw [(h.opened_marked hr hprov hc).2, htaken, List.cons_prefix_cons] at hfifo
    exact hfifo.2
  exact (hpassed.trans r.forth.fifo).trans hsent

/-- What the destination's application has read is a prefix of what the source's has
written. -/
theorem Line.back (h : Line d w k) (hr : w.relays k = some r) (hprov : r.provider = some p)
    (hc : w.consumers k = some c) (hp : w.providers p = some e) : c.read <+: e.wrote := by
  obtain ⟨e₀, he₀, hk⟩ := h.opened r p hr hprov
  rw [hp] at he₀
  cases he₀
  obtain ⟨c₀, hc₀, -, ⟨hcarries, -⟩⟩ := h.relay r hr
  rw [hc] at hc₀
  cases hc₀
  rw [hprov, Option.bind_some, hp] at hcarries
  rw [← (h.consumer c hc).read, ← (h.provider p e hp hk).1.wrote]
  calc c.down.taken <+: c.down.put := c.down.fifo
    _ = r.back.taken := hcarries.given
    _ <+: r.back.put := r.back.fifo
    _ = e.up.taken := (hcarries.fetched e rfl).symm
    _ <+: e.up.put := e.up.fifo

/-- Without a provider the destination's application reads nothing. -/
theorem Line.silent (h : Line d w k) (hc : w.consumers k = some c)
    (hnone : ∀ r, w.relays k = some r → r.provider = none) : c.read = [] := by
  have hput : c.down.put = [] := by
    cases hr : w.relays k with
    | none => exact (h.idle c hc hr).2
    | some r =>
      obtain ⟨c₀, hc₀, -, ⟨hcarries, -⟩⟩ := h.relay r hr
      rw [hc] at hc₀
      cases hc₀
      rw [hnone r hr] at hcarries
      rw [hcarries.given]
      exact List.prefix_nil.mp ((hcarries.idle rfl).2 ▸ r.back.fifo)
  rw [← (h.consumer c hc).read]
  exact List.prefix_nil.mp (hput ▸ c.down.fifo)

end EndToEnd

end RustBackup.Transport
