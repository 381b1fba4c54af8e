/-
  Serde/Json.lean --- JSON values and the derived (de)serialisers of `serde`.

  A value that derives `Serialize` is printed as a JSON tree whose shape the
  derive rules fix; a value that derives `Deserialize` is read back from any tree
  the rules accept.  This file has the tree and the rules: structs by field name
  or by position, externally tagged enums, internally tagged enums.

  The text of a tree is not modelled.  `Text` is what a development needs to know
  of a JSON library: a printer, a parser, that parsing inverts printing on trees
  without floating-point numbers and within the parser's nesting limit, that the
  text is compact, and that it has no zero byte.  `Serde/Text.lean` has an instance.
-/
import Mathlib.Algebra.Group.Nat.Defs
import Mathlib.Algebra.Group.Int.Defs
import Mathlib.Data.List.Basic
import Mathlib.Data.Nat.Notation

set_option autoImplicit false

namespace RustBackup.Serde

/-- A JSON value.  A number without fraction and exponent is an `int`; any other
number is a `float`, kept as the bits of the nearest double. -/
inductive Json where
  | null
  | bool (b : Bool)
  | int (i : Int)
  | float (bits : UInt64)
  | str (s : String)
  | arr (xs : List Json)
  | obj (fs : List (String × Json))
  deriving Repr, Inhabited

namespace Json

mutual

/-- How deeply arrays and objects are nested. -/
def depth : Json → Nat
  | .arr xs => depthElems xs + 1
  | .obj fs => depthFields fs + 1
  | _ => 0

def depthElems : List Json → Nat
  | [] => 0
  | x :: xs => max (depth x) (depthElems xs)

def depthFields : List (String × Json) → Nat
  | [] => 0
  | (_, v) :: fs => max (depth v) (depthFields fs)

end

mutual

/-- No floating-point number occurs, and every integer fits the 64-bit types the
library keeps integers in. -/
def Exact : Json → Prop
  | .int i => -2 ^ 63 ≤ i ∧ i < 2 ^ 64
  | .float _ => False
  | .arr xs => ExactElems xs
  | .obj fs => ExactFields fs
  | _ => True

def ExactElems : List Json → Prop
  | [] => True
  | x :: xs => Exact x ∧ ExactElems xs

def ExactFields : List (String × Json) → Prop
  | [] => True
  | (_, v) :: fs => Exact v ∧ ExactFields fs

end

mutual

/-- An upper bound for the length of a tree's compact text: a character of a
string takes at most six bytes, an integer of 64 bits at most twenty. -/
def size : Json → Nat
  | .null => 4
  | .bool _ => 5
  | .int _ => 20
  | .float _ => 24
  | .str s => 6 * s.length + 2
  | .arr xs => sizeElems xs + 2
  | .obj fs => sizeFields fs + 2

def sizeElems : List Json → Nat
  | [] => 0
  | x :: xs => size x + 1 + sizeElems xs

def sizeFields : List (String × Json) → Nat
  | [] => 0
  | (k, v) :: fs => 6 * k.length + 4 + size v + sizeFields fs

end

/-- The nesting the parser accepts. -/
def maxDepth : Nat := 127

/-- Printing and parsing such a tree gives it back. -/
def Plain (j : Json) : Prop := j.Exact ∧ j.depth ≤ maxDepth

/-! ## Reading scalars -/

def asStr : Json → Option String
  | .str s => some s
  | _ => none

def asBool : Json → Option Bool
  | .bool b => some b
  | _ => none

/-- An unsigned integer below `bound`. -/
def asNat (bound : Nat) : Json → Option Nat
  | .int i => if 0 ≤ i ∧ i < bound then some i.toNat else none
  | _ => none

def asU16 (j : Json) : Option UInt16 := (j.asNat (2 ^ 16)).map UInt16.ofNat
def asU32 (j : Json) : Option UInt32 := (j.asNat (2 ^ 32)).map UInt32.ofNat
def asU64 (j : Json) : Option UInt64 := (j.asNat (2 ^ 64)).map UInt64.ofNat

@[simp] theorem asStr_str (s : String) : (Json.str s).asStr = some s := rfl
@[simp] theorem asBool_bool (b : Bool) : (Json.bool b).asBool = some b := rfl

theorem asNat_int {bound n : Nat} (h : n < bound) : (Json.int n).asNat bound = some n := by
  have h0 : (0 : Int) ≤ (n : Int) := Int.natCast_nonneg n
  have h1 : (n : Int) < (bound : Int) := Int.ofNat_lt.mpr h
  simp [asNat, h0, h1]

@[simp] theorem asU16_int (n : UInt16) : (Json.int n.toNat).asU16 = some n := by
  rw [asU16, asNat_int n.toNat_lt]
  simp

@[simp] theorem asU32_int (n : UInt32) : (Json.int n.toNat).asU32 = some n := by
  rw [asU32, asNat_int n.toNat_lt]
  simp

@[simp] theorem asU64_int (n : UInt64) : (Json.int n.toNat).asU64 = some n := by
  rw [asU64, asNat_int n.toNat_lt]
  simp

theorem exact_int_of_lt {n : Nat} (h : n < 2 ^ 64) : (Json.int n).Exact := by
  have h0 : (0 : Int) ≤ (n : Int) := Int.natCast_nonneg n
  have h1 : (n : Int) < 2 ^ 64 := by exact_mod_cast h
  exact ⟨by omega, h1⟩

/-! ## Derived structs -/

/-- The members of an object under one key. -/
def lookup (fs : List (String × Json)) (name : String) : List Json :=
  (fs.filter fun p => p.1 = name).map (·.2)

/-- The value of every named field of a struct: from an object by name, where
other keys are ignored and a repeated field is an error, or from an array by
position, where a missing tail is left to the fields' defaults. -/
def fields (names : List String) : Json → Option (List (Option Json))
  | .obj fs =>
      names.mapM fun name =>
        match lookup fs name with
        | [] => some none
        | [v] => some (some v)
        | _ => none
  | .arr xs =>
      if xs.length ≤ names.length then
        some ((List.range names.length).map fun i => xs[i]?)
      else none
  | _ => none

/-! ## Externally tagged enums -/

/-- The variant name of an externally tagged enum value, and its content: a unit
variant may be written as its bare name. -/
def variant : Json → Option (String × Option Json)
  | .str name => some (name, none)
  | .obj [(name, content)] => some (name, some content)
  | _ => none

/-- A unit variant carries nothing or `null`. -/
def isUnit : Option Json → Bool
  | none => true
  | some .null => true
  | _ => false

/-! ## Internally tagged enums -/

/-- A unit or struct variant of an internally tagged enum: an object with the
variant's name in the tag field. -/
def tagged (tag name : String) (fs : List (String × Json)) : Json :=
  .obj ((tag, .str name) :: fs)

/-- A newtype variant of an internally tagged enum: the tag field is added to the
payload, so a payload that is not an object cannot be serialised. -/
def taggedNewtype (tag name : String) : Json → Option Json
  | .obj fs => some (tagged tag name fs)
  | _ => none

/-- The tag of an internally tagged enum value and what is left of it. -/
def untag (tag : String) : Json → Option (String × Json)
  | .obj fs =>
      match lookup fs tag with
      | [.str name] => some (name, .obj (fs.filter fun p => p.1 ≠ tag))
      | _ => none
  | .arr (.str name :: xs) => some (name, .arr xs)
  | _ => none

end Json

/-! ## Text -/

/-- What is relied on of a JSON library.  `print` is its serialiser to bytes and
`parse` its parser. -/
structure Text where
  print : Json → List UInt8
  parse : List UInt8 → Option Json
  /-- parsing inverts printing -/
  parse_print : ∀ j : Json, j.Plain → parse (print j) = some j
  /-- the text is compact -/
  length_print : ∀ j : Json, j.Exact → (print j).length ≤ j.size
  /-- a zero byte in a string is escaped, and nothing else prints one -/
  zero_notMem_print : ∀ j : Json, (0 : UInt8) ∉ print j

end RustBackup.Serde
