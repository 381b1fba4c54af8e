/-
  Serde/Text.lean --- compact JSON text.

  An instance of `Text`: the compact form that a serialiser writes and a reader
  of that form, as functions on characters, with UTF-8 below them.  Strings are
  escaped as `serde_json` escapes them, integers are plain decimals, and no white
  space is printed.

  The reader takes the compact form only.  Numbers with a fraction or an exponent
  are outside what `Text` promises: they are printed as `null` and not read.
-/
import RustBackup.Serde.Json
import Mathlib.Data.List.Basic
import Mathlib.Tactic.IntervalCases

set_option autoImplicit false

namespace RustBackup.Serde.Compact

/-! ## Characters of a string -/

def hexDigit (n : Nat) : Char := n.digitChar

/-- A character inside a string literal. -/
def escape (c : Char) : List Char :=
  if c = '"' then [ '\\', '"']
  else if c = '\\' then [ '\\', '\\']
  else if c = '\n' then [ '\\', 'n']
  else if c = '\r' then [ '\\', 'r']
  else if c = '\t' then [ '\\', 't']
  else if c.toNat = 8 then [ '\\', 'b']
  else if c.toNat = 12 then [ '\\', 'f']
  else if c.toNat < 32 then
    [ '\\', 'u', '0', '0', hexDigit (c.toNat / 16), hexDigit (c.toNat % 16)]
  else [c]

/-- The value of a hexadecimal digit. -/
def hexValue (c : Char) : Option Nat :=
  if '0' ≤ c ∧ c ≤ '9' then some (c.toNat - 48)
  else if 'a' ≤ c ∧ c ≤ 'f' then some (c.toNat - 87)
  else if 'A' ≤ c ∧ c ≤ 'F' then some (c.toNat - 55)
  else none

/-- Four hexadecimal digits. -/
def readHex : List Char → Option (Char × List Char)
  | a :: b :: c :: d :: cs => do
      let n := 4096 * (← hexValue a) + 256 * (← hexValue b) + 16 * (← hexValue c) + (← hexValue d)
      if n.isValidChar then return (Char.ofNat n, cs) else none
  | _ => none

/-- What follows a backslash. -/
def readEscape : List Char → Option (Char × List Char)
  | [] => none
  | c :: cs =>
      if c = 'u' then readHex cs
      else if c = '"' ∨ c = '\\' ∨ c = '/' then some (c, cs)
      else if c = 'n' then some ('\n', cs)
      else if c = 'r' then some ('\r', cs)
      else if c = 't' then some ('\t', cs)
      else if c = 'b' then some (Char.ofNat 8, cs)
      else if c = 'f' then some (Char.ofNat 12, cs)
      else none

/-- The rest of a string literal after its opening quote. -/
def readString : Nat → List Char → Option (List Char × List Char)
  | 0, _ => none
  | _ + 1, [] => none
  | fuel + 1, c :: cs =>
      if c = '"' then some ([], cs)
      else if c = '\\' then do
        let (e, cs) ← readEscape cs
        let (s, cs) ← readString fuel cs
        return (e :: s, cs)
      else if c.toNat < 32 then none
      else do
        let (s, cs) ← readString fuel cs
        return (c :: s, cs)

/-! ## Text -/

/-- The text of an integer. -/
def intText (i : Int) : List Char :=
  if i < 0 then '-' :: Nat.toDigits 10 i.natAbs else Nat.toDigits 10 i.natAbs

/-- The text of a string. -/
def strText (s : String) : List Char := '"' :: s.toList.flatMap escape ++ [ '"']

mutual

/-- The compact text of a tree. -/
def text : Json → List Char
  | .null => "null".toList
  | .bool true => "true".toList
  | .bool false => "false".toList
  | .int i => intText i
  | .float _ => "null".toList
  | .str s => strText s
  | .arr xs => '[' :: textElems true xs
  | .obj fs => '{' :: textFields true fs

/-- The elements of an array and its closing bracket. -/
def textElems (first : Bool) : List Json → List Char
  | [] => [ ']']
  | x :: xs => (if first then [] else [ ',']) ++ text x ++ textElems false xs

/-- The members of an object and its closing brace. -/
def textFields (first : Bool) : List (String × Json) → List Char
  | [] => [ '}']
  | (k, v) :: fs =>
      (if first then [] else [ ',']) ++ strText k ++ ':' :: text v ++ textFields false fs

end

/-! ## Reading -/

/-- An unsigned number. -/
def readNat (cs : List Char) : Option (Nat × List Char) :=
  let ds := cs.takeWhile Char.isDigit
  if ds = [] then none else some (Nat.ofDigitChars 10 ds 0, cs.dropWhile Char.isDigit)

/-- A signed number that fits 64 bits. -/
def readInt (c : Char) (cs : List Char) : Option (Json × List Char) := do
  let (i, cs) ←
    if c = '-' then (readNat cs).map fun r => (-(r.1 : Int), r.2)
    else (readNat (c :: cs)).map fun r => ((r.1 : Int), r.2)
  if -2 ^ 63 ≤ i ∧ i < 2 ^ 64 then return (.int i, cs) else none

/-- A fixed word. -/
def readWord (word : List Char) (j : Json) (cs : List Char) : Option (Json × List Char) :=
  if word.isPrefixOf cs then some (j, cs.drop word.length) else none

/-- The separator before an element: none before the first. -/
def readSeparator (first : Bool) (c : Char) (cs : List Char) : Option (List Char) :=
  if first then some (c :: cs) else if c = ',' then some cs else none

mutual

/-- One value, nested at most `depth` deep. -/
def value : Nat → Nat → List Char → Option (Json × List Char)
  | 0, _, _ => none
  | _ + 1, _, [] => none
  | fuel + 1, depth, c :: cs =>
      if c = '"' then do
        let (s, cs) ← readString (cs.length + 1) cs
        return (.str (String.ofList s), cs)
      else if c = '[' then
        if depth = 0 then none
        else do
          let (xs, cs) ← elems fuel (depth - 1) true cs
          return (.arr xs, cs)
      else if c = '{' then
        if depth = 0 then none
        else do
          let (fs, cs) ← members fuel (depth - 1) true cs
          return (.obj fs, cs)
      else if c = 'n' then readWord "ull".toList .null cs
      else if c = 't' then readWord "rue".toList (.bool true) cs
      else if c = 'f' then readWord "alse".toList (.bool false) cs
      else readInt c cs

/-- The rest of an array. -/
def elems : Nat → Nat → Bool → List Char → Option (List Json × List Char)
  | 0, _, _, _ => none
  | _ + 1, _, _, [] => none
  | fuel + 1, depth, first, c :: cs =>
      if c = ']' then some ([], cs)
      else do
        let cs ← readSeparator first c cs
        let (x, cs) ← value fuel depth cs
        let (xs, cs) ← elems fuel depth false cs
        return (x :: xs, cs)

/-- The rest of an object. -/
def members : Nat → Nat → Bool → List Char → Option (List (String × Json) × List Char)
  | 0, _, _, _ => none
  | _ + 1, _, _, [] => none
  | fuel + 1, depth, first, c :: cs =>
      if c = '}' then some ([], cs)
      else do
        let cs ← readSeparator first c cs
        match cs with
        | q :: cs =>
            if q = '"' then do
              let (k, cs) ← readString (cs.length + 1) cs
              match cs with
              | s :: cs =>
                  if s = ':' then do
                    let (v, cs) ← value fuel depth cs
                    let (fs, cs) ← members fuel depth false cs
                    return ((String.ofList k, v) :: fs, cs)
                  else none
              | [] => none
            else none
        | [] => none

end

/-- A whole text is one value and nothing after it. -/
def read (cs : List Char) : Option Json :=
  match value (2 * cs.length) Json.maxDepth cs with
  | some (j, []) => some j
  | _ => none

/-! ## Reading inverts printing -/

theorem readEscape_hex (n : Nat) (h : n < 32) (cs : List Char) :
    readEscape ('u' :: '0' :: '0' :: hexDigit (n / 16) :: hexDigit (n % 16) :: cs) =
      some (Char.ofNat n, cs) := by
  interval_cases n <;> rfl

/-- The three forms of an escaped character. -/
theorem escape_cases (c : Char) :
    (∃ a ∈ "\"\\nrtbf".toList, escape c = [ '\\', a] ∧
      ∀ cs, readEscape (a :: cs) = some (c, cs)) ∨
    (c.toNat < 32 ∧ escape c =
      [ '\\', 'u', '0', '0', hexDigit (c.toNat / 16), hexDigit (c.toNat % 16)]) ∨
    (c ≠ '"' ∧ c ≠ '\\' ∧ ¬ c.toNat < 32 ∧ escape c = [c]) := by
  have hof : ∀ n : Nat, c.toNat = n → c = Char.ofNat n := by
    intro n hn
    rw [← hn, Char.ofNat_toNat]
  by_cases hq : c = '"'
  · subst hq
    exact .inl ⟨'"', by decide, rfl, fun _ => rfl⟩
  by_cases hb : c = '\\'
  · subst hb
    exact .inl ⟨'\\', by decide, rfl, fun _ => rfl⟩
  by_cases hn : c = '\n'
  · subst hn
    exact .inl ⟨'n', by decide, rfl, fun _ => rfl⟩
  by_cases hr : c = '\r'
  · subst hr
    exact .inl ⟨'r', by decide, rfl, fun _ => rfl⟩
  by_cases ht : c = '\t'
  · subst ht
    exact .inl ⟨'t', by decide, rfl, fun _ => rfl⟩
  by_cases h8 : c.toNat = 8
  · rw [hof 8 h8]
    exact .inl ⟨'b', by decide, rfl, fun _ => rfl⟩
  by_cases h12 : c.toNat = 12
  · rw [hof 12 h12]
    exact .inl ⟨'f', by decide, rfl, fun _ => rfl⟩
  have hrest : escape c =
      if c.toNat < 32 then
        [ '\\', 'u', '0', '0', hexDigit (c.toNat / 16), hexDigit (c.toNat % 16)]
      else [c] := by
    unfold escape
    rw [if_neg hq, if_neg hb, if_neg hn, if_neg hr, if_neg ht, if_neg h8, if_neg h12]
  by_cases hlt : c.toNat < 32
  · exact .inr (.inl ⟨hlt, hrest.trans (if_pos hlt)⟩)
  · exact .inr (.inr ⟨hq, hb, hlt, hrest.trans (if_neg hlt)⟩)

/-- After a backslash stands an escape. -/
theorem readString_backslash {c : Char} {es cs : List Char} (h : readEscape es = some (c, cs))
    (fuel : Nat) :
    readString (fuel + 1) ('\\' :: es) = (readString fuel cs).map fun r => (c :: r.1, r.2) := by
  rw [readString, if_neg (by decide), if_pos rfl, h]
  cases hs : readString fuel cs with
  | none => simp [hs]
  | some r => simp [hs]

/-- Most characters stand for themselves. -/
theorem readString_plain {c : Char} (hq : c ≠ '"') (hb : c ≠ '\\') (hlt : ¬ c.toNat < 32)
    (fuel : Nat) (cs : List Char) :
    readString (fuel + 1) (c :: cs) = (readString fuel cs).map fun r => (c :: r.1, r.2) := by
  rw [readString, if_neg hq, if_neg hb, if_neg hlt]
  cases hs : readString fuel cs with
  | none => rfl
  | some r => rfl

/-- One escaped character is read back. -/
theorem readString_escape (fuel : Nat) (c : Char) (cs : List Char) :
    readString (fuel + 1) (escape c ++ cs) =
      (readString fuel cs).map fun r => (c :: r.1, r.2) := by
  rcases escape_cases c with ⟨a, -, h, hread⟩ | ⟨hlt, h⟩ | ⟨hq, hb, hlt, h⟩
  · rw [h]
    exact readString_backslash (hread cs) fuel
  · rw [h]
    have hhex := readEscape_hex c.toNat hlt cs
    rw [Char.ofNat_toNat] at hhex
    exact readString_backslash hhex fuel
  · rw [h]
    exact readString_plain hq hb hlt fuel cs

theorem readString_text (s : List Char) (rest : List Char) (fuel : Nat) (h : s.length < fuel) :
    readString fuel (s.flatMap escape ++ '"' :: rest) = some (s, rest) := by
  induction s generalizing fuel with
  | nil =>
    cases fuel with
    | zero => exact absurd h (Nat.not_lt_zero _)
    | succ fuel => simp [readString]
  | cons c s ih =>
    cases fuel with
    | zero => exact absurd h (Nat.not_lt_zero _)
    | succ fuel =>
      rw [List.flatMap_cons, List.append_assoc, readString_escape, ih fuel (by simpa using h)]
      rfl

theorem length_escape_pos (c : Char) : 0 < (escape c).length := by
  rcases escape_cases c with ⟨a, -, h, -⟩ | ⟨-, h⟩ | ⟨-, -, -, h⟩
  · rw [h]
    exact Nat.succ_pos _
  · rw [h]
    exact Nat.succ_pos _
  · rw [h]
    exact Nat.succ_pos _

theorem length_le_flatMap_escape (s : List Char) : s.length ≤ (s.flatMap escape).length := by
  induction s with
  | nil => simp
  | cons c s ih =>
    have := length_escape_pos c
    simp only [List.flatMap_cons, List.length_append, List.length_cons]
    omega

/-- What may follow a number. -/
def Stops (rest : List Char) : Prop := ∀ c ∈ rest.head?, c.isDigit = false

theorem stops_nil : Stops [] := by simp [Stops]

theorem stops_cons {c : Char} {cs : List Char} (h : c.isDigit = false) : Stops (c :: cs) := by
  simpa [Stops] using h

theorem takeWhile_toDigits (n : Nat) {rest : List Char} (h : Stops rest) :
    (Nat.toDigits 10 n ++ rest).takeWhile Char.isDigit = Nat.toDigits 10 n ∧
      (Nat.toDigits 10 n ++ rest).dropWhile Char.isDigit = rest := by
  have hall : ∀ c ∈ Nat.toDigits 10 n, c.isDigit = true :=
    fun c hc => Nat.isDigit_of_mem_toDigits (by decide) (by decide) hc
  have hstop : rest.takeWhile Char.isDigit = [] ∧ rest.dropWhile Char.isDigit = rest := by
    cases rest with
    | nil => simp
    | cons c cs =>
      have hc : c.isDigit = false := h c (by simp)
      simp [hc]
  rw [List.takeWhile_append_of_pos hall, List.dropWhile_append_of_pos hall, hstop.1, hstop.2]
  simp

theorem readNat_toDigits (n : Nat) {rest : List Char} (h : Stops rest) :
    readNat (Nat.toDigits 10 n ++ rest) = some (n, rest) := by
  obtain ⟨htake, hdrop⟩ := takeWhile_toDigits n h
  simp only [readNat, htake, hdrop, Nat.ofDigitChars_ten_toDigits]
  rw [if_neg Nat.toDigits_ne_nil]

/-- A number starts with its sign or a digit. -/
theorem intText_cons (i : Int) :
    ∃ c cs, intText i = c :: cs ∧ (c = '-' ∨ c.isDigit = true) := by
  unfold intText
  split
  · exact ⟨'-', _, rfl, .inl rfl⟩
  · cases h : Nat.toDigits 10 i.natAbs with
    | nil => exact absurd h Nat.toDigits_ne_nil
    | cons c cs =>
      refine ⟨c, cs, rfl, .inr ?_⟩
      exact Nat.isDigit_of_mem_toDigits (b := 10) (n := i.natAbs) (by decide) (by decide)
        (by rw [h]; simp)

theorem readInt_intText (i : Int) (hi : -2 ^ 63 ≤ i ∧ i < 2 ^ 64) {rest : List Char}
    (h : Stops rest) {c : Char} {cs : List Char} (hc : intText i = c :: cs) :
    readInt c (cs ++ rest) = some (.int i, rest) := by
  have hread := readNat_toDigits i.natAbs h
  unfold intText at hc
  split at hc
  case isTrue hneg =>
    obtain ⟨rfl, rfl⟩ := List.cons.inj hc
    have habs : -(i.natAbs : Int) = i := by omega
    simp only [readInt, if_pos, hread, Option.map_some, habs]
    exact if_pos hi
  case isFalse hneg =>
    have habs : (i.natAbs : Int) = i := by omega
    have hne : c ≠ '-' := by
      rintro rfl
      have := Nat.isDigit_of_mem_toDigits (b := 10) (n := i.natAbs) (c := '-') (by decide)
        (by decide) (by rw [hc]; simp)
      simp at this
    rw [hc, List.cons_append] at hread
    simp only [readInt, if_neg hne, hread, Option.map_some, habs]
    exact if_pos hi

theorem isDigit_ne {c d : Char} (h : c = '-' ∨ c.isDigit = true) (hd : d ≠ '-')
    (hd' : d.isDigit = false) : c ≠ d := by
  rintro rfl
  rcases h with h | h
  · exact hd h
  · rw [hd'] at h
    cases h

/-- No value starts like the end of an array or an object. -/
theorem text_cons (j : Json) : ∃ c cs, text j = c :: cs ∧ c ≠ ']' ∧ c ≠ '}' := by
  cases j with
  | null => exact ⟨'n', _, rfl, by decide, by decide⟩
  | bool b =>
    cases b with
    | false => exact ⟨'f', _, rfl, by decide, by decide⟩
    | true => exact ⟨'t', _, rfl, by decide, by decide⟩
  | int i =>
    obtain ⟨c, cs, h, hc⟩ := intText_cons i
    refine ⟨c, cs, by rw [text, h], ?_, ?_⟩
    · exact isDigit_ne hc (by decide) (by decide)
    · exact isDigit_ne hc (by decide) (by decide)
  | float bits => exact ⟨'n', _, rfl, by decide, by decide⟩
  | str s => exact ⟨'"', _, by rw [text, strText]; rfl, by decide, by decide⟩
  | arr xs => exact ⟨'[', _, by rw [text], by decide, by decide⟩
  | obj fs => exact ⟨'{', _, by rw [text], by decide, by decide⟩

theorem length_text_pos (j : Json) : 0 < (text j).length := by
  obtain ⟨c, cs, h, -⟩ := text_cons j
  rw [h]
  exact Nat.succ_pos _

theorem textElems_cons (first : Bool) (xs : List Json) :
    ∃ c cs, textElems first xs = c :: cs ∧ (first = false → c.isDigit = false) := by
  cases xs with
  | nil => exact ⟨']', [], rfl, fun _ => by decide⟩
  | cons x xs =>
    cases first with
    | false => exact ⟨',', _, by rw [textElems]; rfl, fun _ => by decide⟩
    | true =>
      obtain ⟨c, cs, h, -⟩ := text_cons x
      exact ⟨c, _, by rw [textElems, h]; rfl, fun h => by cases h⟩

theorem stops_textElems (xs : List Json) (rest : List Char) :
    Stops (textElems false xs ++ rest) := by
  obtain ⟨c, cs, h, hc⟩ := textElems_cons false xs
  rw [h]
  exact stops_cons (hc rfl)

theorem stops_textFields (fs : List (String × Json)) (rest : List Char) :
    Stops (textFields false fs ++ rest) := by
  cases fs with
  | nil => exact stops_cons (by decide)
  | cons f fs => exact stops_cons (c := ',') (by decide)

theorem readString_strText (s : String) (rest : List Char) :
    readString ((s.toList.flatMap escape ++ '"' :: rest).length + 1)
      (s.toList.flatMap escape ++ '"' :: rest) = some (s.toList, rest) := by
  refine readString_text _ _ _ ?_
  have := length_le_flatMap_escape s.toList
  rw [List.length_append]
  omega

mutual

/-- The text of a tree is read back, whatever follows it. -/
theorem value_text (j : Json) (hj : j.Exact) (fuel depth : Nat)
    (hfuel : 2 * (text j).length ≤ fuel) (hdepth : j.depth ≤ depth) (rest : List Char)
    (hstop : Stops rest) : value fuel depth (text j ++ rest) = some (j, rest) := by
  obtain ⟨fuel, rfl⟩ : ∃ n, fuel = n + 1 :=
    ⟨fuel - 1, by have := length_text_pos j; omega⟩
  cases j with
  | null => simp [text, value, readWord]
  | bool b => cases b <;> simp [text, value, readWord]
  | int i =>
    obtain ⟨c, cs, h, hc⟩ := intText_cons i
    have hne : ∀ d : Char, d ≠ '-' → d.isDigit = false → c ≠ d :=
      fun d hd hd' => isDigit_ne hc hd hd'
    rw [text, h, List.cons_append, value]
    rw [if_neg (hne _ (by decide) (by decide)), if_neg (hne _ (by decide) (by decide)),
      if_neg (hne _ (by decide) (by decide)), if_neg (hne _ (by decide) (by decide)),
      if_neg (hne _ (by decide) (by decide)), if_neg (hne _ (by decide) (by decide))]
    exact readInt_intText i hj hstop h
  | float bits => exact hj.elim
  | str s =>
    rw [text, strText, List.append_assoc, List.cons_append, value, if_pos rfl]
    rw [List.singleton_append, readString_strText]
    simp [String.ofList_toList]
  | arr xs =>
    rw [text, List.length_cons] at hfuel
    rw [Json.depth] at hdepth
    have ih := elems_text xs hj fuel (depth - 1) true (by omega) (by omega) rest
    rw [text, List.cons_append, value, if_neg (by decide), if_pos rfl, if_neg (by omega), ih]
    rfl
  | obj fs =>
    rw [text, List.length_cons] at hfuel
    rw [Json.depth] at hdepth
    have ih := members_text fs hj fuel (depth - 1) true (by omega) (by omega) rest
    rw [text, List.cons_append, value, if_neg (by decide), if_neg (by decide), if_pos rfl,
      if_neg (by omega), ih]
    rfl

theorem elems_text (xs : List Json) (hx : Json.ExactElems xs) (fuel depth : Nat) (first : Bool)
    (hfuel : 2 * (textElems first xs).length ≤ fuel) (hdepth : Json.depthElems xs ≤ depth)
    (rest : List Char) :
    elems fuel depth first (textElems first xs ++ rest) = some (xs, rest) := by
  obtain ⟨fuel, rfl⟩ : ∃ n, fuel = n + 1 := by
    obtain ⟨c, cs, h, -⟩ := textElems_cons first xs
    rw [h, List.length_cons] at hfuel
    exact ⟨fuel - 1, by omega⟩
  cases xs with
  | nil => simp [textElems, elems]
  | cons x xs =>
    have hpos := length_text_pos x
    rw [textElems] at hfuel
    simp only [List.length_append] at hfuel
    rw [Json.depthElems] at hdepth
    obtain ⟨d, ds, hd, -⟩ := textElems_cons false xs
    have hlen : 0 < (textElems false xs).length := by rw [hd]; exact Nat.succ_pos _
    have ih := value_text x hx.1 fuel depth (by omega) (by omega)
      (textElems false xs ++ rest) (stops_textElems xs rest)
    have ih' := elems_text xs hx.2 fuel depth false (by omega) (by omega) rest
    obtain ⟨c, cs, hc, hne, -⟩ := text_cons x
    cases first with
    | true =>
      rw [hc] at ih
      simp only [textElems, if_pos, List.nil_append, List.append_assoc, hc, List.cons_append,
        elems, if_neg hne, readSeparator] at ih ⊢
      simp [ih, ih']
    | false =>
      simp only [textElems, List.append_assoc, List.cons_append, List.nil_append,
        Bool.false_eq_true, if_false]
      rw [elems, if_neg (by decide)]
      simp [readSeparator, ih, ih']

theorem members_text (fs : List (String × Json)) (hf : Json.ExactFields fs) (fuel depth : Nat)
    (first : Bool) (hfuel : 2 * (textFields first fs).length ≤ fuel)
    (hdepth : Json.depthFields fs ≤ depth) (rest : List Char) :
    members fuel depth first (textFields first fs ++ rest) = some (fs, rest) := by
  obtain ⟨fuel, rfl⟩ : ∃ n, fuel = n + 1 := by
    cases fs with
    | nil => exact ⟨fuel - 1, by simp only [textFields, List.length_cons] at hfuel; omega⟩
    | cons f fs =>
      refine ⟨fuel - 1, ?_⟩
      simp only [textFields, List.length_append, List.length_cons] at hfuel
      omega
  cases fs with
  | nil => simp [textFields, members]
  | cons f fs =>
    obtain ⟨k, v⟩ := f
    have hpos := length_text_pos v
    rw [textFields] at hfuel
    simp only [List.length_append, List.length_cons] at hfuel
    rw [Json.depthFields] at hdepth
    have ih := value_text v hf.1 fuel depth (by omega) (by omega)
      (textFields false fs ++ rest) (stops_textFields fs rest)
    have ih' := members_text fs hf.2 fuel depth false (by omega) (by omega) rest
    have hkey := readString_strText k (':' :: (text v ++ (textFields false fs ++ rest)))
    cases first with
    | true =>
      simp only [textFields, strText, if_true, List.nil_append, List.append_assoc,
        List.cons_append]
      rw [members, if_neg (by decide)]
      simp only [readSeparator, if_true, Option.bind_eq_bind, Option.bind_some, hkey, ih, ih']
      simp [String.ofList_toList]
    | false =>
      simp only [textFields, strText, List.append_assoc, List.cons_append, List.nil_append,
        Bool.false_eq_true, if_false]
      rw [members, if_neg (by decide)]
      simp only [readSeparator, Bool.false_eq_true, if_false, if_true, Option.bind_eq_bind,
        Option.bind_some, hkey, ih, ih']
      simp [String.ofList_toList]

end

theorem read_text (j : Json) (hj : j.Plain) : read (text j) = some j := by
  have h := value_text j hj.1 (2 * (text j).length) Json.maxDepth (Nat.le_refl _) hj.2 [] stops_nil
  rw [List.append_nil] at h
  rw [read, h]

/-! ## Bytes -/

/-- UTF-8. -/
def encode (cs : List Char) : List UInt8 := cs.flatMap String.utf8EncodeChar

def print (j : Json) : List UInt8 := encode (text j)

def parse (bs : List UInt8) : Option Json :=
  match bs.toByteArray.utf8Decode? with
  | some cs => read cs.toList
  | none => none

theorem parse_print (j : Json) (hj : j.Plain) : parse (print j) = some j := by
  have h : (print j).toByteArray.utf8Decode? = some (text j).toArray :=
    List.utf8Decode?_utf8Encode
  rw [parse, h]
  exact read_text j hj

@[simp] theorem encode_nil : encode [] = [] := rfl

@[simp] theorem encode_append (cs cs' : List Char) :
    encode (cs ++ cs') = encode cs ++ encode cs' := by
  simp [encode]

theorem encode_cons (c : Char) (cs : List Char) :
    encode (c :: cs) = String.utf8EncodeChar c ++ encode cs := by
  simp [encode]

theorem hexDigit_spec (n : Nat) (h : n < 16) :
    (hexDigit n).utf8Size = 1 ∧ (hexDigit n).toNat ≠ 0 := by
  interval_cases n <;> exact ⟨by decide, by decide⟩

theorem escaped_spec : ∀ a ∈ "\"\\nrtbf".toList, a.utf8Size = 1 ∧ a.toNat ≠ 0 := by
  have hall : ("\"\\nrtbf".toList.all fun a => a.utf8Size == 1 && a.toNat != 0) = true := by
    decide
  intro a ha
  simpa using List.all_eq_true.mp hall a ha

/-! ### The text is compact -/

theorem length_encode_escape (c : Char) : (encode (escape c)).length ≤ 6 := by
  rcases escape_cases c with ⟨a, ha, h, -⟩ | ⟨hlt, h⟩ | ⟨-, -, -, h⟩
  · have ha := (escaped_spec a ha).1
    have hb : ('\\').utf8Size = 1 := by decide
    rw [h]
    simp [encode, ha, hb]
  · rw [h]
    have h1 := (hexDigit_spec (c.toNat / 16) (by omega)).1
    have h2 := (hexDigit_spec (c.toNat % 16) (by omega)).1
    have hb : ('\\').utf8Size = 1 ∧ ('u').utf8Size = 1 ∧ ('0').utf8Size = 1 := by decide
    simp [encode, h1, h2, hb]
  · rw [h]
    have := c.utf8Size_le_four
    simp [encode]
    omega

theorem length_encode_strText (s : String) :
    (encode (strText s)).length ≤ 6 * s.length + 2 := by
  have h : ∀ cs : List Char, (encode (cs.flatMap escape)).length ≤ 6 * cs.length := by
    intro cs
    induction cs with
    | nil => simp
    | cons c cs ih =>
      have := length_encode_escape c
      simp only [List.flatMap_cons, encode_append, List.length_append, List.length_cons]
      omega
  have := h s.toList
  rw [String.length_toList] at this
  simp only [strText, encode_cons, encode_append, List.length_append, encode_nil,
    String.length_utf8EncodeChar, List.cons_append, List.length_nil]
  have hq : ('"').utf8Size = 1 := by decide
  omega

theorem length_encode_toDigits {n : Nat} {k : Nat} (hk : 0 < k) (h : n < 10 ^ k) :
    (encode (Nat.toDigits 10 n)).length ≤ k := by
  have hlen := (Nat.length_toDigits_le_iff (b := 10) (n := n) (by decide) hk).mpr h
  have hone : ∀ cs : List Char, (∀ c ∈ cs, c.isDigit = true) →
      (encode cs).length = cs.length := by
    intro cs hcs
    induction cs with
    | nil => rfl
    | cons c cs ih =>
      have hc : c.utf8Size = 1 := by
        have := hcs c (by simp)
        simp only [Char.isDigit, ge_iff_le, Bool.and_eq_true, decide_eq_true_eq] at this
        have hle : c.val ≤ 0x7f := UInt32.le_trans this.2 (by decide)
        simp [Char.utf8Size, hle]
      rw [encode_cons, List.length_append, String.length_utf8EncodeChar, hc,
        ih fun d hd => hcs d (List.mem_cons_of_mem c hd), List.length_cons]
      omega
  rw [hone _ fun c hc => Nat.isDigit_of_mem_toDigits (by decide) (by decide) hc]
  exact hlen

theorem length_encode_intText (i : Int) (h : -2 ^ 63 ≤ i ∧ i < 2 ^ 64) :
    (encode (intText i)).length ≤ 20 := by
  unfold intText
  split
  · have := length_encode_toDigits (n := i.natAbs) (k := 19) (by decide) (by omega)
    rw [encode_cons, List.length_append, String.length_utf8EncodeChar]
    have hd : ('-').utf8Size = 1 := by decide
    omega
  · exact length_encode_toDigits (by decide) (by omega)

theorem length_encode_separator (first : Bool) :
    (encode (if first then [] else [ ','])).length ≤ 1 := by
  cases first <;> decide

mutual

theorem length_encode_text (j : Json) (hj : j.Exact) :
    (encode (text j)).length ≤ j.size := by
  cases j with
  | null => decide
  | bool b => cases b <;> decide
  | int i => exact length_encode_intText i hj
  | float bits => exact hj.elim
  | str s => exact length_encode_strText s
  | arr xs =>
    have := length_encode_textElems xs hj true
    have hb : ('[').utf8Size = 1 := by decide
    simp only [text, encode_cons, List.length_append, String.length_utf8EncodeChar, Json.size]
    omega
  | obj fs =>
    have := length_encode_textFields fs hj true
    have hb : ('{').utf8Size = 1 := by decide
    simp only [text, encode_cons, List.length_append, String.length_utf8EncodeChar, Json.size]
    omega

theorem length_encode_textElems (xs : List Json) (hx : Json.ExactElems xs) (first : Bool) :
    (encode (textElems first xs)).length ≤ Json.sizeElems xs + 1 := by
  cases xs with
  | nil => exact (show 1 ≤ 1 from Nat.le_refl 1)
  | cons x xs =>
    have h1 := length_encode_text x hx.1
    have h2 := length_encode_textElems xs hx.2 false
    have h3 := length_encode_separator first
    simp only [textElems, encode_append, List.length_append, Json.sizeElems]
    omega

theorem length_encode_textFields (fs : List (String × Json)) (hf : Json.ExactFields fs)
    (first : Bool) : (encode (textFields first fs)).length ≤ Json.sizeFields fs + 1 := by
  cases fs with
  | nil => exact (show 1 ≤ 1 from Nat.le_refl 1)
  | cons f fs =>
    obtain ⟨k, v⟩ := f
    have h1 := length_encode_text v hf.1
    have h2 := length_encode_textFields fs hf.2 false
    have h3 := length_encode_separator first
    have h4 := length_encode_strText k
    have hc : (':').utf8Size = 1 := by decide
    simp only [textFields, encode_append, encode_cons, List.length_append,
      String.length_utf8EncodeChar, Json.sizeFields]
    omega

end

/-! ### The text has no zero byte -/

/-- A list without the zero character. -/
def NoZero (cs : List Char) : Prop := ∀ c ∈ cs, c.toNat ≠ 0

instance (cs : List Char) : Decidable (NoZero cs) :=
  List.decidableBAll (fun c : Char => c.toNat ≠ 0) cs

theorem noZero_nil : NoZero [] := by decide

theorem NoZero.append {cs cs' : List Char} (h : NoZero cs) (h' : NoZero cs') :
    NoZero (cs ++ cs') := by
  intro c hc
  rcases List.mem_append.mp hc with hc | hc
  · exact h c hc
  · exact h' c hc

theorem NoZero.cons {c : Char} {cs : List Char} (hc : c.toNat ≠ 0) (h : NoZero cs) :
    NoZero (c :: cs) := by
  intro d hd
  rcases List.mem_cons.mp hd with rfl | hd
  · exact hc
  · exact h d hd

theorem noZero_escape (c : Char) : NoZero (escape c) := by
  rcases escape_cases c with ⟨a, ha, h, -⟩ | ⟨hlt, h⟩ | ⟨-, -, hge, h⟩
  · rw [h]
    exact .cons (by decide) (.cons (escaped_spec a ha).2 noZero_nil)
  · rw [h]
    have h1 := (hexDigit_spec (c.toNat / 16) (by omega)).2
    have h2 := (hexDigit_spec (c.toNat % 16) (by omega)).2
    exact .cons (by decide) (.cons (by decide) (.cons (by decide) (.cons (by decide)
      (.cons h1 (.cons h2 noZero_nil)))))
  · rw [h]
    exact .cons (by omega) noZero_nil

theorem noZero_strText (s : String) : NoZero (strText s) := by
  have h : NoZero (s.toList.flatMap escape) := by
    intro c hc
    obtain ⟨d, -, hd⟩ := List.mem_flatMap.mp hc
    exact noZero_escape d c hd
  exact .append (.cons (by decide) h) (by decide)

theorem noZero_toDigits (n : Nat) : NoZero (Nat.toDigits 10 n) := by
  intro c hc h0
  have hd := Nat.isDigit_of_mem_toDigits (by decide) (by decide) hc
  have : c = Char.ofNat 0 := by rw [← h0, Char.ofNat_toNat]
  rw [this] at hd
  exact absurd hd (by decide)

theorem noZero_separator (first : Bool) : NoZero (if first then [] else [ ',']) := by
  cases first <;> decide

mutual

theorem noZero_text (j : Json) : NoZero (text j) := by
  cases j with
  | null => decide
  | bool b => cases b <;> decide
  | int i =>
    rw [text, intText]
    split
    · exact .cons (by decide) (noZero_toDigits _)
    · exact noZero_toDigits _
  | float bits => exact (show NoZero "null".toList by decide)
  | str s => exact noZero_strText s
  | arr xs => exact .cons (by decide) (noZero_textElems xs true)
  | obj fs => exact .cons (by decide) (noZero_textFields fs true)

theorem noZero_textElems (xs : List Json) (first : Bool) : NoZero (textElems first xs) := by
  cases xs with
  | nil => exact .cons (by decide) noZero_nil
  | cons x xs =>
    exact ((noZero_separator first).append (noZero_text x)).append (noZero_textElems xs false)

theorem noZero_textFields (fs : List (String × Json)) (first : Bool) :
    NoZero (textFields first fs) := by
  cases fs with
  | nil => exact .cons (by decide) noZero_nil
  | cons f fs =>
    obtain ⟨k, v⟩ := f
    have hv : NoZero (':' :: text v) := .cons (by decide) (noZero_text v)
    exact (((noZero_separator first).append (noZero_strText k)).append hv).append
      (noZero_textFields fs false)

end

/-- Only the zero character has a zero byte in its encoding. -/
theorem zero_notMem_utf8EncodeChar {c : Char} (h : c.toNat ≠ 0) :
    (0 : UInt8) ∉ String.utf8EncodeChar c := by
  have hne : ∀ n : Nat, 0 < n → n < 256 → ¬ (0 : UInt8) = UInt8.ofNat n := by
    intro n hpos hlt h0
    have := congrArg UInt8.toNat h0
    rw [UInt8.toNat_ofNat', Nat.mod_eq_of_lt hlt] at this
    exact absurd this.symm (Nat.ne_of_gt hpos)
  have hc : c.val.toNat ≠ 0 := h
  unfold String.utf8EncodeChar
  simp only
  split
  · rw [List.mem_singleton]
    exact hne _ (by omega) (by omega)
  split
  · simp only [List.mem_cons, List.not_mem_nil, or_false, not_or]
    exact ⟨hne _ (by omega) (by omega), hne _ (by omega) (by omega)⟩
  split
  · simp only [List.mem_cons, List.not_mem_nil, or_false, not_or]
    exact ⟨hne _ (by omega) (by omega), hne _ (by omega) (by omega),
      hne _ (by omega) (by omega)⟩
  · simp only [List.mem_cons, List.not_mem_nil, or_false, not_or]
    exact ⟨hne _ (by omega) (by omega), hne _ (by omega) (by omega),
      hne _ (by omega) (by omega), hne _ (by omega) (by omega)⟩

theorem zero_notMem_print (j : Json) : (0 : UInt8) ∉ print j := by
  intro h
  obtain ⟨c, hc, h0⟩ := List.mem_flatMap.mp h
  exact zero_notMem_utf8EncodeChar (noZero_text j c hc) h0

end RustBackup.Serde.Compact

namespace RustBackup.Serde

/-- Compact JSON text. -/
def Text.compact : Text where
  print := Compact.print
  parse := Compact.parse
  parse_print := Compact.parse_print
  length_print := Compact.length_encode_text
  zero_notMem_print := Compact.zero_notMem_print

end RustBackup.Serde
