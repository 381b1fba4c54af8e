/-
  Transport/Endpoint.lean --- the address of the coordination server.

  Source: crates/rb-transport/src/transport.rs (`Endpoint::parse`).

  The parser takes every text.  Written out with its port, an endpoint is read back as it
  was, whatever path follows; without one, the scheme decides the port, unless the host
  itself ends in a colon and a number.  What the parser makes of any text is such an
  endpoint, unless the text has no host.
-/
import RustBackup.Cli.Args

set_option autoImplicit false

namespace RustBackup.Transport

open RustBackup.Cli

def CONTROL_PORT : UInt16 := 7835

structure Endpoint where
  host : String
  port : UInt16
  tls : Bool
  deriving DecidableEq, Repr

/-! ## Parsing -/

/-- `str::parse::<u16>`: a plus sign is optional, at least one digit is not, and the value
has to fit. -/
def parseU16 (cs : List Char) : Option UInt16 :=
  let digits := match cs with
    | '+' :: digits => digits
    | digits => digits
  (parseDigits digits).bind fun n => if n < 2 ^ 16 then some (UInt16.ofNat n) else none

/-- `rsplit_once(':')`. -/
def rsplitColon (cs : List Char) : Option (List Char × List Char) :=
  match cs.reverse.dropWhile (· ≠ ':') with
  | [] => none
  | _ :: host => some (host.reverse, (cs.reverse.takeWhile (· ≠ ':')).reverse)

/-- Whether the connection is encrypted, the port if none is given, and what follows the
scheme. -/
def splitScheme (to_ : List Char) : Bool × UInt16 × List Char :=
  match to_.dropPrefix? "https://".toList with
  | some rest => (true, 443, rest)
  | none =>
    match to_.dropPrefix? "http://".toList with
    | some rest => (false, 80, rest)
    | none => (false, CONTROL_PORT, to_)

/-- The host and the port of an authority. -/
def splitPort (authority : List Char) (defaultPort : UInt16) : List Char × UInt16 :=
  match rsplitColon authority with
  | some (host, port) =>
      if host = [] then (authority, defaultPort)
      else
        match parseU16 port with
        | some port => (host, port)
        | none => (authority, defaultPort)
  | none => (authority, defaultPort)

/-- What comes before the first slash. -/
def authorityOf (rest : List Char) : List Char := rest.takeWhile (· ≠ '/')

def Endpoint.parse (to_ : String) : Endpoint :=
  let (tls, defaultPort, rest) := splitScheme to_.toList
  let (host, port) := splitPort (authorityOf rest) defaultPort
  ⟨String.ofList host, port, tls⟩

/-! ## Writing -/

/-- How an address may begin. -/
inductive Scheme where
  | https | http | bare
  deriving DecidableEq, Repr

namespace Scheme

def text : Scheme → String
  | .https => "https://"
  | .http => "http://"
  | .bare => ""

def tls : Scheme → Bool
  | .https => true
  | .http => false
  | .bare => false

def defaultPort : Scheme → UInt16
  | .https => 443
  | .http => 80
  | .bare => CONTROL_PORT

end Scheme

/-- A path is empty or begins with a slash. -/
def IsPath (path : String) : Prop := ∀ c ∈ path.toList.head?, c = '/'

/-- A host that ends in a colon and what is read as a port. -/
def EndsInPort (host : List Char) : Prop :=
  ∃ h p, host = h ++ ':' :: p ∧ h ≠ [] ∧ ':' ∉ p ∧ (parseU16 p).isSome = true

/-- The address of a host and a port. -/
def address (s : Scheme) (host : String) (port : UInt16) (path : String) : String :=
  s.text ++ host ++ ":" ++ port.toNat.repr ++ path

/-! ## The parts of an address -/

section Parts

variable {host port rest path : List Char}

theorem rsplitColon_append (hport : ':' ∉ port) :
    rsplitColon (host ++ ':' :: port) = some (host, port) := by
  have hall : ∀ c ∈ port.reverse, decide (c ≠ ':') = true := by
    intro c hc
    rw [decide_eq_true_eq]
    rintro rfl
    exact hport (List.mem_reverse.mp hc)
  have hrev : (host ++ ':' :: port).reverse = port.reverse ++ ':' :: host.reverse := by simp
  unfold rsplitColon
  rw [hrev, List.dropWhile_append_of_pos hall, List.takeWhile_append_of_pos hall]
  simp

theorem rsplitColon_eq_some {cs : List Char} (h : rsplitColon cs = some (host, port)) :
    cs = host ++ ':' :: port ∧ ':' ∉ port := by
  have hsplit := List.takeWhile_append_dropWhile (p := fun c => decide (c ≠ ':')) (l := cs.reverse)
  unfold rsplitColon at h
  split at h
  · cases h
  · rename_i x xs heq
    cases h
    have hx : x = ':' := by
      have hhead := List.head?_dropWhile_not (fun c => decide (c ≠ ':')) cs.reverse
      rw [heq] at hhead
      simpa using hhead
    rw [heq, hx] at hsplit
    constructor
    · have hrev := congrArg List.reverse hsplit
      rw [List.reverse_reverse, List.reverse_append, List.reverse_cons] at hrev
      refine hrev.symm.trans ?_
      rw [List.append_assoc]
      rfl
    · intro hmem
      have := List.mem_takeWhile_imp (List.mem_reverse.mp hmem)
      simp at this

theorem mem_of_rsplitColon {cs : List Char} (h : rsplitColon cs = some (host, port)) {c : Char}
    (hc : c ∈ host) : c ∈ cs := by
  rw [(rsplitColon_eq_some h).1]
  exact List.mem_append_left _ hc

theorem authorityOf_append (hhost : '/' ∉ host) (hpath : ∀ c ∈ path.head?, c = '/') :
    authorityOf (host ++ path) = host := by
  have hall : ∀ c ∈ host, decide (c ≠ '/') = true := by
    intro c hc
    rw [decide_eq_true_eq]
    rintro rfl
    exact hhost hc
  unfold authorityOf
  rw [List.takeWhile_append_of_pos hall]
  cases path with
  | nil => simp
  | cons c path =>
    obtain rfl := hpath c rfl
    simp

theorem slash_notMem_authorityOf (rest : List Char) : '/' ∉ authorityOf rest := by
  intro hmem
  have := List.mem_takeWhile_imp hmem
  simp at this

/-- The digits of a port are read as the port. -/
theorem parseU16_digits (p : UInt16) : parseU16 (Nat.toDigits 10 p.toNat) = some p := by
  have hall : ∀ c ∈ Nat.toDigits 10 p.toNat, c.isDigit = true :=
    fun c hc => Nat.isDigit_of_mem_toDigits (by decide) (by decide) hc
  have hplus : (match Nat.toDigits 10 p.toNat with
      | '+' :: digits => digits
      | digits => digits) = Nat.toDigits 10 p.toNat := by
    split
    · rename_i digits heq
      have hdigit := hall '+' (by rw [heq]; exact List.mem_cons_self)
      cases hdigit
    · rfl
  unfold parseU16 parseDigits
  simp only [hplus]
  rw [if_pos ⟨Nat.toDigits_ne_nil, List.all_eq_true.mpr hall⟩, Nat.ofDigitChars_ten_toDigits]
  simp [p.toNat_lt]

theorem colon_notMem_digits (n : Nat) : ':' ∉ Nat.toDigits 10 n := by
  intro hmem
  have hdigit := Nat.isDigit_of_mem_toDigits (by decide) (by decide) hmem
  cases hdigit

/-- A port that is written is taken. -/
theorem splitPort_append {p dflt : UInt16} (hhost : host ≠ []) (hcolon : ':' ∉ port)
    (hport : parseU16 port = some p) : splitPort (host ++ ':' :: port) dflt = (host, p) := by
  unfold splitPort
  rw [rsplitColon_append hcolon]
  simp only [if_neg hhost, hport]

/-- Without one the default is. -/
theorem splitPort_of_not_endsInPort {dflt : UInt16} (h : ¬ EndsInPort host) :
    splitPort host dflt = (host, dflt) := by
  unfold splitPort
  split
  · rename_i front port hsplit
    obtain ⟨heq, hcolon⟩ := rsplitColon_eq_some hsplit
    split
    · rfl
    · rename_i hne
      split
      · rename_i p hport
        refine absurd ⟨front, port, heq, hne, hcolon, ?_⟩ h
        rw [hport]
        rfl
      · rfl
  · rfl

/-- The host is the authority or a part of it. -/
theorem mem_of_splitPort {authority : List Char} {dflt : UInt16} {c : Char}
    (hc : c ∈ (splitPort authority dflt).1) : c ∈ authority := by
  unfold splitPort at hc
  split at hc
  · rename_i host port hsplit
    split at hc
    · exact hc
    · split at hc
      · exact mem_of_rsplitColon hsplit hc
      · exact hc
  · exact hc

end Parts

/-! ## Schemes -/

section Schemes

variable {rest : List Char}

/-- A text that begins with a scheme has an authority that ends in a colon. -/
theorem dropPrefix?_eq_none {scheme : List Char} (hscheme : '/' ∉ scheme)
    (h : ∀ x, authorityOf rest ≠ x ++ [ ':']) :
    rest.dropPrefix? (scheme ++ [ ':', '/', '/']) = none := by
  rw [Option.eq_none_iff_forall_ne_some]
  intro rest' heq
  obtain ⟨p, rfl, hp⟩ := List.dropPrefix?_eq_some_iff.mp heq
  obtain rfl := eq_of_beq hp
  have hsplit : scheme ++ [ ':', '/', '/'] ++ rest' =
      (scheme ++ [ ':']) ++ '/' :: '/' :: rest' := by simp
  apply h scheme
  rw [hsplit]
  apply authorityOf_append
  · simp [hscheme]
  · simp

theorem splitScheme_text (s : Scheme) (h : ∀ x, authorityOf rest ≠ x ++ [ ':']) :
    splitScheme (s.text.toList ++ rest) = (s.tls, s.defaultPort, rest) := by
  have hhttps : "https://".toList = "https".toList ++ [ ':', '/', '/'] := by decide
  have hhttp : "http://".toList = "http".toList ++ [ ':', '/', '/'] := by decide
  unfold splitScheme
  cases s with
  | https =>
    have hdrop : ("https://".toList ++ rest).dropPrefix? "https://".toList = some rest :=
      List.dropPrefix?_append_of_beq rest (beq_self_eq_true _)
    simp only [Scheme.text, hdrop]
    rfl
  | http =>
    have hnot : ("http://".toList ++ rest).dropPrefix? "https://".toList = none := by
      simp [List.dropPrefix?]
    have hdrop : ("http://".toList ++ rest).dropPrefix? "http://".toList = some rest :=
      List.dropPrefix?_append_of_beq rest (beq_self_eq_true _)
    simp only [Scheme.text, hnot, hdrop]
    rfl
  | bare =>
    have hbare : Scheme.bare.text.toList ++ rest = rest := by simp [Scheme.text]
    rw [hbare, hhttps, hhttp, dropPrefix?_eq_none (by decide) h, dropPrefix?_eq_none (by decide) h]
    rfl

end Schemes

/-! ## Round trips -/

section RoundTrips

variable {host path : String}

theorem parse_eq {to_ : String} {tls : Bool} {dflt : UInt16} {rest : List Char}
    (h : splitScheme to_.toList = (tls, dflt, rest)) :
    Endpoint.parse to_ = ⟨String.ofList (splitPort (authorityOf rest) dflt).1,
      (splitPort (authorityOf rest) dflt).2, tls⟩ := by
  unfold Endpoint.parse
  rw [h]

theorem parse_address (s : Scheme) (p : UInt16) (hhost : host ≠ "") (hslash : '/' ∉ host.toList)
    (hpath : IsPath path) : Endpoint.parse (address s host p path) = ⟨host, p, s.tls⟩ := by
  have hdigits : ∀ c ∈ Nat.toDigits 10 p.toNat, c.isDigit = true :=
    fun c hc => Nat.isDigit_of_mem_toDigits (by decide) (by decide) hc
  have hnoslash : '/' ∉ host.toList ++ ':' :: Nat.toDigits 10 p.toNat := by
    intro hmem
    rcases List.mem_append.mp hmem with hmem | hmem
    · exact hslash hmem
    · rcases List.mem_cons.mp hmem with heq | hmem
      · cases heq
      · cases hdigits _ hmem
  have hauthority : authorityOf (host.toList ++ ':' :: Nat.toDigits 10 p.toNat ++ path.toList) =
      host.toList ++ ':' :: Nat.toDigits 10 p.toNat := authorityOf_append hnoslash hpath
  -- the authority ends in a digit
  have hlast : ∀ x, authorityOf (host.toList ++ ':' :: Nat.toDigits 10 p.toNat ++ path.toList) ≠
      x ++ [ ':'] := by
    intro x heq
    obtain ⟨ds, c, hc⟩ := (List.eq_nil_or_concat (Nat.toDigits 10 p.toNat)).resolve_left
      Nat.toDigits_ne_nil
    rw [List.concat_eq_append] at hc
    have hconcat : (host.toList ++ ':' :: ds) ++ [c] = x ++ [ ':'] := by
      rw [← heq, hauthority, hc]
      simp
    obtain ⟨-, hcolon⟩ := List.append_inj' hconcat rfl
    cases hcolon
    cases hdigits ':' (by rw [hc]; simp)
  have htext : (address s host p path).toList =
      s.text.toList ++ (host.toList ++ ':' :: Nat.toDigits 10 p.toNat ++ path.toList) := by
    simp [address]
  have hne : host.toList ≠ [] := fun h => hhost (String.toList_eq_nil_iff.mp h)
  rw [parse_eq ((congrArg splitScheme htext).trans (splitScheme_text s hlast)), hauthority,
    splitPort_append hne (colon_notMem_digits _) (parseU16_digits p), String.ofList_toList]

theorem parse_text (s : Scheme) (hslash : '/' ∉ host.toList)
    (hlast : host.toList.getLast? ≠ some ':') (hpath : IsPath path) :
    Endpoint.parse (s.text ++ host ++ path) =
      ⟨String.ofList (splitPort host.toList s.defaultPort).1,
        (splitPort host.toList s.defaultPort).2, s.tls⟩ := by
  have hauthority : authorityOf (host.toList ++ path.toList) = host.toList :=
    authorityOf_append hslash hpath
  have hcolon : ∀ x, authorityOf (host.toList ++ path.toList) ≠ x ++ [ ':'] := by
    intro x heq
    rw [hauthority] at heq
    exact hlast (by rw [heq]; simp)
  have htext : (s.text ++ host ++ path).toList =
      s.text.toList ++ (host.toList ++ path.toList) := by simp
  rw [parse_eq ((congrArg splitScheme htext).trans (splitScheme_text s hcolon)), hauthority]

theorem parse_host_iff (s : Scheme) (hslash : '/' ∉ host.toList)
    (hlast : host.toList.getLast? ≠ some ':') (hpath : IsPath path) :
    Endpoint.parse (s.text ++ host ++ path) = ⟨host, s.defaultPort, s.tls⟩ ↔
      ¬ EndsInPort host.toList := by
  rw [parse_text s hslash hlast hpath]
  constructor
  · rintro heq ⟨front, port, hhost, hne, hcolon, hport⟩
    obtain ⟨p, hp⟩ := Option.isSome_iff_exists.mp hport
    rw [hhost, splitPort_append hne hcolon hp] at heq
    have hfront := congrArg String.toList (congrArg Endpoint.host heq)
    rw [hhost, String.toList_ofList] at hfront
    exact absurd hfront (by simp)
  · intro hport
    rw [splitPort_of_not_endsInPort hport, String.ofList_toList]

theorem slash_notMem_parse (to_ : String) : '/' ∉ (Endpoint.parse to_).host.toList := by
  rw [parse_eq rfl, String.toList_ofList]
  exact fun hmem => slash_notMem_authorityOf _ (mem_of_splitPort hmem)

/-- An endpoint that is written out with its port is read back as it was, whatever path
follows.  A host that is written without one gets the port of the scheme, unless it ends
in a colon and a port of its own.  Every text is read as an endpoint that can be written
with its port, unless it has no host. -/
theorem endpoint_round_trip :
    (∀ (s : Scheme) host p path, host ≠ "" → '/' ∉ host.toList → IsPath path →
      Endpoint.parse (address s host p path) = ⟨host, p, s.tls⟩) ∧
    (∀ (s : Scheme) host path, '/' ∉ host.toList → host.toList.getLast? ≠ some ':' →
      IsPath path → (Endpoint.parse (s.text ++ host ++ path) = ⟨host, s.defaultPort, s.tls⟩ ↔
        ¬ EndsInPort host.toList)) ∧
    ∀ to_ (s : Scheme) path, (Endpoint.parse to_).host ≠ "" → s.tls = (Endpoint.parse to_).tls →
      IsPath path →
      Endpoint.parse (address s (Endpoint.parse to_).host (Endpoint.parse to_).port path) =
        Endpoint.parse to_ := by
  refine ⟨fun s host p path hhost hslash hpath => parse_address s p hhost hslash hpath,
    fun s host path hslash hlast hpath => parse_host_iff s hslash hlast hpath,
    fun to_ s path hhost htls hpath => ?_⟩
  rw [parse_address s _ hhost (slash_notMem_parse to_) hpath, htls]

/-- An IPv6 address without brackets loses its last part to the port; in brackets it
does not. -/
example : Endpoint.parse "fe80::1" = ⟨"fe80:", 1, false⟩ ∧
    Endpoint.parse "[fe80::1]" = ⟨"[fe80::1]", CONTROL_PORT, false⟩ := by decide

/-- An address with a port. -/
theorem endpoint_round_trip_server :
    Endpoint.parse (address .https "backup.example" 9000 "/control") =
      ⟨"backup.example", 9000, true⟩ :=
  endpoint_round_trip.1 .https _ 9000 _ (by decide) (by decide) (by simp [IsPath])

end RoundTrips

end RustBackup.Transport
