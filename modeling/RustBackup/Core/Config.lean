/-
  Core/Config.lean --- the targets of a session and the modules they name.

  Sources: crates/rb-core/src/{config,module}.rs.

  A module is what its two sides do with a plan once they are opened with the target's
  parameters; the registry finds it by its name.

  Left out: `ServerConfig`, which no target reads, the derived deserialisers, which read
  YAML, and the module's version text.
-/
import RustBackup.Core.Channel
import RustBackup.Core.Params
import Std.Data.ExtTreeMap

set_option autoImplicit false

namespace RustBackup.Core

open RustBackup.Serde

/-- Which side of a target this process runs. -/
inductive Role where
  | source | destination
  deriving DecidableEq, Repr

/-- The derived `Debug` text. -/
def Role.debug : Role → String
  | .source => "Source"
  | .destination => "Destination"

/-- Transport settings shared by all modules. -/
structure TransportConfig where
  /-- coordination server -/
  to_ : String
  /-- the id on which source and destination meet -/
  channel : String
  secret : Option String
  carriers : UInt32
  udp : Bool
  insecure : Bool
  deriving DecidableEq, Repr

/-- One target to back up or restore. -/
structure TargetSpec where
  module : String
  role : Role
  transport : TransportConfig
  params : Json
  autoAccept : Bool

/-- Top-level session config. -/
structure SessionConfig where
  targets : List TargetSpec

/-- A backend: its name, and what a source and a destination opened with some parameters
do with a plan. -/
structure BackupModule where
  name : String
  streamOut : TargetParams → BackupPlan → SinkProg
  streamIn : TargetParams → BackupPlan → StreamInProg

/-- The available modules.  Each is found under its own name. -/
structure ModuleRegistry where
  modules : Std.ExtTreeMap String BackupModule compare
  named : ∀ (name : String) (m : BackupModule), modules[name]? = some m → m.name = name

namespace ModuleRegistry

def new : ModuleRegistry where
  modules := ∅
  named name m h := by
    rw [Std.ExtTreeMap.getElem?_empty] at h
    cases h

/-- A module that is registered takes the place of one of the same name. -/
def register (reg : ModuleRegistry) (m : BackupModule) : ModuleRegistry where
  modules := reg.modules.insert m.name m
  named name m' h := by
    rw [Std.ExtTreeMap.getElem?_insert] at h
    split at h
    · rename_i heq
      cases h
      exact Std.LawfulEqCmp.eq_of_compare heq
    · exact reg.named name m' h

def get (reg : ModuleRegistry) (name : String) : Option BackupModule := reg.modules[name]?

theorem get_register (reg : ModuleRegistry) (m : BackupModule) (name : String) :
    (reg.register m).get name = if compare m.name name = .eq then some m else reg.get name :=
  Std.ExtTreeMap.getElem?_insert

end ModuleRegistry

end RustBackup.Core
