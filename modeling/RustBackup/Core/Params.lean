/-
  Core/Params.lean --- the parameters of a target and what each module reads of them.

  Sources: crates/rb-core/src/module.rs (`TargetParams`) and the parameter structs
  of crates/rb-{postgres,mongodb,filesystem,s3}/src/lib.rs.

  A parameter bag is a JSON value.  An object built in the program is a
  `serde_json::Map`, an ordered map from keys to values, so the deserialised
  structs depend on nothing but what the map has under their field names.
-/
import Mathlib
import RustBackup.Core.Data

set_option autoImplicit false

namespace RustBackup.Core

open RustBackup.Serde

/-! ## Objects -/

/-- A `serde_json::Map`. -/
abbrev Map := Std.ExtTreeMap String Json

/-- `Value::Object`. -/
def Map.object (m : Map) : Json := .obj m.toList

/-- An ordered map has at most one value under a key. -/
theorem Map.lookup_toList (m : Map) (k : String) : Json.lookup m.toList k = m[k]?.toList := by
  have hkeys : (m.toList.map (·.1)).Nodup := by
    rw [List.nodup_iff_pairwise_ne, List.pairwise_map]
    exact m.distinct_keys_toList.imp fun h he => h (Std.compare_eq_iff_eq.mpr he)
  have hfilter : ∀ l : List (String × Json), (l.map (·.1)).Nodup →
      ∀ v, (k, v) ∈ l → Json.lookup l k = [v] := by
    intro l hl v hv
    induction l with
    | nil => exact absurd hv List.not_mem_nil
    | cons p l ih =>
      rw [List.map_cons, List.nodup_cons] at hl
      rcases List.mem_cons.mp hv with rfl | hv
      · have hrest : l.filter (fun p => p.1 = k) = [] := by
          rw [List.filter_eq_nil_iff]
          intro q hq hqk
          exact hl.1 (List.mem_map.mpr ⟨q, hq, by simpa using hqk⟩)
        simp [Json.lookup, hrest]
      · have hne : p.1 ≠ k := fun he => hl.1 (List.mem_map.mpr ⟨(k, v), hv, he.symm⟩)
        have h := ih hl.2 hv
        simpa [Json.lookup, List.filter_cons, hne] using h
  cases hm : m[k]? with
  | none =>
    rw [Option.toList_none, Json.lookup, List.map_eq_nil_iff, List.filter_eq_nil_iff]
    intro p hp hpk
    have hmem : (k, p.2) ∈ m.toList := by
      rw [← show p.1 = k by simpa using hpk]
      exact hp
    rw [Std.ExtTreeMap.mem_toList_iff_getElem?_eq_some, hm] at hmem
    exact absurd hmem (by simp)
  | some v =>
    exact hfilter _ hkeys v (Std.ExtTreeMap.mem_toList_iff_getElem?_eq_some.mpr hm)

/-- The named fields of an object are what its map has under the names. -/
theorem Map.fields_object (m : Map) (names : List String) :
    m.object.fields names = some (names.map fun name => m[name]?) := by
  unfold Map.object
  simp only [Json.fields, Map.lookup_toList]
  induction names with
  | nil => rfl
  | cons name names ih =>
    rw [List.mapM_cons, ih]
    cases h : m[name]? with
    | none => simp [h]
    | some v => simp [h]

/-! ## Field rules -/

section Fields

variable {α : Type} (read : Json → Option α)

/-- A field without a default. -/
def required (j : Option Json) : Option α := j.bind read

/-- A field with `#[serde(default)]`. -/
def orDefault (value : α) : Option Json → Option α
  | none => some value
  | some j => read j

/-- A field of type `Option<T>`: `null` is `None`. -/
def nullable : Json → Option (Option α)
  | .null => some none
  | j => (read j).map some

end Fields

/-! ## The modules' parameters -/

/-- PostgreSQL connection parameters. -/
structure PostgresParams where
  host : String
  port : UInt16
  user : String
  password : Option String
  database : Option String
  sslmode : String
  admin : Bool
  deriving DecidableEq, Repr

namespace PostgresParams

def defaultPgPort : UInt16 := 5432
def defaultSslmode : String := "prefer"

def names : List String :=
  ["host", "port", "user", "password", "database", "sslmode", "admin"]

def deserialize (j : Json) : Option PostgresParams :=
  match j.fields names with
  | some [host, port, user, password, database, sslmode, admin] => do
      return {
        host := ← required Json.asStr host
        port := ← orDefault Json.asU16 defaultPgPort port
        user := ← required Json.asStr user
        password := ← orDefault (nullable Json.asStr) none password
        database := ← orDefault (nullable Json.asStr) none database
        sslmode := ← orDefault Json.asStr defaultSslmode sslmode
        admin := ← orDefault Json.asBool false admin }
  | _ => none

end PostgresParams

/-- MongoDB connection parameters. -/
structure MongoDbParams where
  uri : Option String
  host : Option String
  port : UInt16
  user : Option String
  password : Option String
  database : Option String
  authDb : Option String
  deriving DecidableEq, Repr

namespace MongoDbParams

def defaultMongoPort : UInt16 := 27017

def names : List String :=
  ["uri", "host", "port", "user", "password", "database", "auth_db"]

def deserialize (j : Json) : Option MongoDbParams :=
  match j.fields names with
  | some [uri, host, port, user, password, database, authDb] => do
      return {
        uri := ← orDefault (nullable Json.asStr) none uri
        host := ← orDefault (nullable Json.asStr) none host
        port := ← orDefault Json.asU16 defaultMongoPort port
        user := ← orDefault (nullable Json.asStr) none user
        password := ← orDefault (nullable Json.asStr) none password
        database := ← orDefault (nullable Json.asStr) none database
        authDb := ← orDefault (nullable Json.asStr) none authDb }
  | _ => none

end MongoDbParams

/-- Filesystem backup parameters. -/
structure FilesystemParams where
  root : String
  followSymlinks : Bool
  preserveOwnership : Bool
  preserveXattr : Bool
  deriving DecidableEq, Repr

namespace FilesystemParams

def defaultPreserveOwnership : Bool := true

def names : List String := ["root", "follow_symlinks", "preserve_ownership", "preserve_xattr"]

def deserialize (j : Json) : Option FilesystemParams :=
  match j.fields names with
  | some [root, followSymlinks, preserveOwnership, preserveXattr] => do
      return {
        root := ← required Json.asStr root
        followSymlinks := ← orDefault Json.asBool false followSymlinks
        preserveOwnership := ← orDefault Json.asBool defaultPreserveOwnership preserveOwnership
        preserveXattr := ← orDefault Json.asBool false preserveXattr }
  | _ => none

end FilesystemParams

/-- S3-compatible storage backup parameters. -/
structure S3Params where
  endpoint : Option String
  region : Option String
  bucket : String
  prefix_ : Option String
  accessKey : Option String
  secretKey : Option String
  pathStyle : Bool
  deriving DecidableEq, Repr

namespace S3Params

def names : List String :=
  ["endpoint", "region", "bucket", "prefix", "access_key", "secret_key", "path_style"]

def deserialize (j : Json) : Option S3Params :=
  match j.fields names with
  | some [endpoint, region, bucket, prefix_, accessKey, secretKey, pathStyle] => do
      return {
        endpoint := ← orDefault (nullable Json.asStr) none endpoint
        region := ← orDefault (nullable Json.asStr) none region
        bucket := ← required Json.asStr bucket
        prefix_ := ← orDefault (nullable Json.asStr) none prefix_
        accessKey := ← orDefault (nullable Json.asStr) none accessKey
        secretKey := ← orDefault (nullable Json.asStr) none secretKey
        pathStyle := ← orDefault Json.asBool false pathStyle }
  | _ => none

end S3Params

/-- The registered modules. -/
inductive Module where
  | postgres | mongodb | filesystem | s3
  deriving DecidableEq, Repr

namespace Module

/-- The type a module reads its parameters into. -/
def Params : Module → Type
  | .postgres => PostgresParams
  | .mongodb => MongoDbParams
  | .filesystem => FilesystemParams
  | .s3 => S3Params

def names : Module → List String
  | .postgres => PostgresParams.names
  | .mongodb => MongoDbParams.names
  | .filesystem => FilesystemParams.names
  | .s3 => S3Params.names

def fromValue : (m : Module) → Json → Option m.Params
  | .postgres => PostgresParams.deserialize
  | .mongodb => MongoDbParams.deserialize
  | .filesystem => FilesystemParams.deserialize
  | .s3 => S3Params.deserialize

end Module

/-! ## The bag -/

/-- Opaque per-target parameter bag. -/
structure TargetParams where
  value : Json

/-- `TargetParams::deserialize` at a module's type.  `why` is the text of the
JSON library's error. -/
def TargetParams.deserialize (why : Json → String) (m : Module) (p : TargetParams) :
    Except BackupError m.Params :=
  match m.fromValue p.value with
  | some params => .ok params
  | none => .error (.config ("invalid module params: " ++ why p.value))

/-- The bag of an object built in the program. -/
def Map.params (m : Map) : TargetParams := ⟨m.object⟩

theorem TargetParams.toOption_deserialize (why : Json → String) (m : Module) (p : TargetParams) :
    (p.deserialize why m).toOption = m.fromValue p.value := by
  unfold TargetParams.deserialize
  cases h : m.fromValue p.value with
  | none => rfl
  | some params => rfl

/-! ## What a module's parameters depend on -/

section Objects

variable {m : Module} {o o' : Map}

/-- A module reads nothing of an object but its own fields. -/
theorem Module.fromValue_of_fields {j j' : Json} (h : j.fields m.names = j'.fields m.names) :
    m.fromValue j = m.fromValue j' := by
  cases m with
  | postgres =>
    change PostgresParams.deserialize j = PostgresParams.deserialize j'
    unfold PostgresParams.deserialize
    rw [show j.fields PostgresParams.names = j'.fields PostgresParams.names from h]
  | mongodb =>
    change MongoDbParams.deserialize j = MongoDbParams.deserialize j'
    unfold MongoDbParams.deserialize
    rw [show j.fields MongoDbParams.names = j'.fields MongoDbParams.names from h]
  | filesystem =>
    change FilesystemParams.deserialize j = FilesystemParams.deserialize j'
    unfold FilesystemParams.deserialize
    rw [show j.fields FilesystemParams.names = j'.fields FilesystemParams.names from h]
  | s3 =>
    change S3Params.deserialize j = S3Params.deserialize j'
    unfold S3Params.deserialize
    rw [show j.fields S3Params.names = j'.fields S3Params.names from h]

/-- Unknown keys are ignored. -/
theorem Module.fromValue_congr (h : ∀ name ∈ m.names, o[name]? = o'[name]?) :
    m.fromValue o.object = m.fromValue o'.object := by
  apply Module.fromValue_of_fields
  rw [Map.fields_object, Map.fields_object, List.map_congr_left h]

end Objects

end RustBackup.Core
