/-
  Core/Data.lean --- the data the session works on: phase-tagged errors, the
  progress counters, the backup plan and the destination's preflight.

  Sources: crates/rb-core/src/{error,progress,plan}.rs.

  Left out: `BackupPlan::render`, `human_bytes` and `Progress::line`, which only
  format text for the operator, and the counters only they read.

  A plan's `payload` and an item's `meta` keep their members as they stand in the text.
  `serde_json::Value` keeps the members of an object sorted by key, and of several with
  one key the last.  The two differ only on the text of a foreign peer: every `Value` of
  a program is sorted and without repetition, and is printed so.
-/
import RustBackup.Serde.Json
import RustBackup.Io.Proc

set_option autoImplicit false

namespace RustBackup.Core

open RustBackup.Serde

export RustBackup.Io (Bytes)

/-! ## Errors -/

/-- Execution phase a failure occurred in. -/
inductive Phase where
  | connect | analyze | validate | transfer | apply | verify | teardown
  deriving DecidableEq, Repr

/-- The derived `Debug` text. -/
def Phase.debug : Phase → String
  | .connect => "Connect"
  | .analyze => "Analyze"
  | .validate => "Validate"
  | .transfer => "Transfer"
  | .apply => "Apply"
  | .verify => "Verify"
  | .teardown => "Teardown"

/-- The lower-level cause an error wraps. -/
inductive Cause where
  /-- a `std::io::Error` -/
  | io
  /-- a `serde_json::Error` -/
  | json
  deriving DecidableEq, Repr

/-- The crate-wide error type. -/
inductive BackupError where
  /-- a failure attributed to a specific execution phase -/
  | phase (phase : Phase) (message : String) (source : Option Cause)
  /-- the source-immutability invariant was violated -/
  | sourceMutated (message : String)
  /-- the destination refused the plan -/
  | planRejected (reason : String)
  /-- a preflight check failed -/
  | preflight (reason : String)
  /-- integrity verification failed -/
  | integrity (message : String)
  /-- configuration error -/
  | config (message : String)
  /-- any other wrapped error -/
  | other (message : String)
  deriving DecidableEq, Repr

namespace BackupError

/-- `BackupError::phase`. -/
def inPhase (p : Phase) (message : String) : BackupError := .phase p message none

/-- `BackupError::phase_src`. -/
def phaseSrc (p : Phase) (message : String) (cause : Cause) : BackupError :=
  .phase p message (some cause)

/-- The `Display` text. -/
def display : BackupError → String
  | .phase p message _ => "[" ++ p.debug ++ "] " ++ message
  | .sourceMutated message => "SOURCE-IMMUTABILITY VIOLATION: " ++ message
  | .planRejected reason => "plan rejected: " ++ reason
  | .preflight reason => "preflight failed: " ++ reason
  | .integrity message => "integrity check failed: " ++ message
  | .config message => "configuration error: " ++ message
  | .other message => message

end BackupError

/-- The crate-wide result alias. -/
abbrev Result (α : Type) : Type := Except BackupError α

/-! ## Progress -/

/-- The counters of a progress handle.  They are atomic and wrap. -/
structure Progress where
  bytesDone : UInt64
  itemsDone : UInt64
  deriving DecidableEq, Repr

namespace Progress

/-- `Progress::default()`: a fresh handle. -/
def fresh : Progress := ⟨0, 0⟩

/-- `add_bytes`. -/
def addBytes (p : Progress) (n : UInt64) : Progress := { p with bytesDone := p.bytesDone + n }

/-- `item_done`. -/
def itemDone (p : Progress) : Progress := { p with itemsDone := p.itemsDone + 1 }

/-- `bytes`. -/
def bytes (p : Progress) : UInt64 := p.bytesDone

@[simp] theorem bytes_addBytes (p : Progress) (n : UInt64) :
    (p.addBytes n).bytes = p.bytes + n := rfl

@[simp] theorem bytes_itemDone (p : Progress) : p.itemDone.bytes = p.bytes := rfl

@[simp] theorem bytes_fresh : fresh.bytes = 0 := rfl

end Progress

/-! ## The plan -/

/-- Wire/format version of the plan structure. -/
def PLAN_FORMAT_VERSION : UInt16 := 1

/-- Backup operation mode. -/
inductive BackupMode where
  | copy1to1
  deriving DecidableEq, Repr

/-- One ordered unit of work in the plan. -/
structure PlanItem where
  id : UInt32
  ordinal : UInt32
  kind : String
  name : String
  estimatedBytes : UInt64
  meta_ : Json
  deriving Repr

/-- Integrity expectations for the streamed payload. -/
structure IntegritySpec where
  algorithm : String
  perItem : Bool
  deriving DecidableEq, Repr

/-- `IntegritySpec::default()`. -/
def IntegritySpec.default : IntegritySpec := ⟨"blake3", true⟩

/-- The complete backup plan. -/
structure BackupPlan where
  formatVersion : UInt16
  module : String
  mode : BackupMode
  createdAt : String
  sourceSummary : String
  items : List PlanItem
  estimatedBytes : UInt64
  integrity : IntegritySpec
  payload : Json
  deriving Repr

/-! ### The plan as JSON

`BackupMode` is renamed to snake case, and `PlanItem::meta` has a default. -/

def BackupMode.serialize : BackupMode → Json
  | .copy1to1 => .str "copy1to1"

def BackupMode.deserialize (j : Json) : Option BackupMode :=
  match j.variant with
  | some (name, content) =>
      if name = "copy1to1" ∧ Json.isUnit content then some .copy1to1 else none
  | none => none

def IntegritySpec.serialize (s : IntegritySpec) : Json :=
  .obj [("algorithm", .str s.algorithm), ("per_item", .bool s.perItem)]

def IntegritySpec.deserialize (j : Json) : Option IntegritySpec :=
  match j.fields ["algorithm", "per_item"] with
  | some [some algorithm, some perItem] => do
      return { algorithm := ← algorithm.asStr, perItem := ← perItem.asBool }
  | _ => none

def PlanItem.serialize (i : PlanItem) : Json :=
  .obj [("id", .int i.id.toNat), ("ordinal", .int i.ordinal.toNat), ("kind", .str i.kind),
    ("name", .str i.name), ("estimated_bytes", .int i.estimatedBytes.toNat),
    ("meta", i.meta_)]

def PlanItem.deserialize (j : Json) : Option PlanItem :=
  match j.fields ["id", "ordinal", "kind", "name", "estimated_bytes", "meta"] with
  | some [some id, some ordinal, some kind, some name, some estimatedBytes, meta_] => do
      return {
        id := ← id.asU32, ordinal := ← ordinal.asU32, kind := ← kind.asStr,
        name := ← name.asStr, estimatedBytes := ← estimatedBytes.asU64,
        meta_ := meta_.getD .null }
  | _ => none

/-- A list of plan items. -/
def PlanItem.deserializeAll : Json → Option (List PlanItem)
  | .arr xs => xs.mapM PlanItem.deserialize
  | _ => none

def BackupPlan.serialize (p : BackupPlan) : Json :=
  .obj [("format_version", .int p.formatVersion.toNat), ("module", .str p.module),
    ("mode", p.mode.serialize), ("created_at", .str p.createdAt),
    ("source_summary", .str p.sourceSummary), ("items", .arr (p.items.map PlanItem.serialize)),
    ("estimated_bytes", .int p.estimatedBytes.toNat), ("integrity", p.integrity.serialize),
    ("payload", p.payload)]

def BackupPlan.deserialize (j : Json) : Option BackupPlan :=
  match j.fields ["format_version", "module", "mode", "created_at", "source_summary", "items",
      "estimated_bytes", "integrity", "payload"] with
  | some [some formatVersion, some module, some mode, some createdAt, some sourceSummary,
      some items, some estimatedBytes, some integrity, some payload] => do
      return {
        formatVersion := ← formatVersion.asU16, module := ← module.asStr,
        mode := ← BackupMode.deserialize mode, createdAt := ← createdAt.asStr,
        sourceSummary := ← sourceSummary.asStr, items := ← PlanItem.deserializeAll items,
        estimatedBytes := ← estimatedBytes.asU64,
        integrity := ← IntegritySpec.deserialize integrity, payload := payload }
  | _ => none

@[simp] theorem BackupMode.deserialize_serialize (m : BackupMode) :
    BackupMode.deserialize m.serialize = some m := by
  cases m
  rfl

@[simp] theorem IntegritySpec.deserialize_serialize (s : IntegritySpec) :
    IntegritySpec.deserialize s.serialize = some s := by
  simp [IntegritySpec.deserialize, IntegritySpec.serialize, Json.fields, Json.lookup]

@[simp] theorem PlanItem.deserialize_serialize (i : PlanItem) :
    PlanItem.deserialize i.serialize = some i := by
  simp [PlanItem.deserialize, PlanItem.serialize, Json.fields, Json.lookup]

@[simp] theorem PlanItem.deserializeAll_serialize (is : List PlanItem) :
    PlanItem.deserializeAll (.arr (is.map PlanItem.serialize)) = some is := by
  rw [PlanItem.deserializeAll]
  induction is with
  | nil => rfl
  | cons i is ih => simp [List.mapM_cons, ih]

/-- A plan survives its own JSON. -/
@[simp] theorem BackupPlan.deserialize_serialize (p : BackupPlan) :
    BackupPlan.deserialize p.serialize = some p := by
  simp [BackupPlan.deserialize, BackupPlan.serialize, Json.fields, Json.lookup]

/-! ## Preflight -/

/-- One preflight check result on the destination side. -/
structure PreflightCheck where
  name : String
  passed : Bool
  detail : String
  deriving DecidableEq, Repr

/-- Aggregate destination preflight result. -/
structure Preflight where
  ok : Bool
  checks : List PreflightCheck
  availableBytes : Option UInt64
  deriving DecidableEq, Repr

namespace Preflight

/-- A passing preflight with no recorded checks. -/
def pass : Preflight := ⟨true, [], none⟩

/-- Add a check and fold its result into `ok`. -/
def check (p : Preflight) (name : String) (passed : Bool) (detail : String) : Preflight :=
  { p with ok := p.ok && passed, checks := p.checks ++ [⟨name, passed, detail⟩] }

/-- A preflight built from `pass` by a chain of `check` calls. -/
def ofChecks (cs : List PreflightCheck) : Preflight :=
  cs.foldl (fun p c => p.check c.name c.passed c.detail) pass

/-- A chain records its checks and is ok when all of them passed. -/
theorem foldl_check (cs : List PreflightCheck) (p : Preflight) :
    (cs.foldl (fun p c => p.check c.name c.passed c.detail) p).ok =
      (p.ok && cs.all (·.passed)) := by
  induction cs generalizing p with
  | nil => simp
  | cons c cs ih => rw [List.foldl_cons, ih, check, List.all_cons, Bool.and_assoc]

theorem ofChecks_ok (cs : List PreflightCheck) :
    (ofChecks cs).ok = cs.all (·.passed) := by
  rw [ofChecks, foldl_check]
  rfl

end Preflight

end RustBackup.Core
