/-
  Cli/Program.lean --- what the binary does with its targets.

  Source: crates/rust-backup/src/main.rs (`run_session`, `run_target`, `execute`,
  `prompt_yes`).

  A target is served in three steps: its module is opened, the channel is connected, and
  the session runs over the channel.  The session's accept policy is a closure of the
  binary, so the calls of the session are answered by programs of the binary: `accept` by
  the flag or the operator's answer, every other call by the objects that were opened.
  The bytes that are read and written are those of the channel of the target at hand.

  Left out: the text of the plan that is shown with the question, and the log.
-/
import RustBackup.Core.Config
import RustBackup.Core.Consent
import RustBackup.Io.Interpret
import RustBackup.Io.Sequence
import RustBackup.Cli.Args

set_option autoImplicit false

namespace RustBackup.Cli

open RustBackup.Serde RustBackup.Io RustBackup.Core

/-! ## The operator's answer -/

/-- `char::is_whitespace`: the Unicode property `White_Space`. -/
def isWhitespace (c : Char) : Bool :=
  (0x09 ≤ c.toNat && c.toNat ≤ 0x0D) || c.toNat == 0x20 || c.toNat == 0x85 || c.toNat == 0xA0 ||
    c.toNat == 0x1680 || (0x2000 ≤ c.toNat && c.toNat ≤ 0x200A) || c.toNat == 0x2028 ||
    c.toNat == 0x2029 || c.toNat == 0x202F || c.toNat == 0x205F || c.toNat == 0x3000

/-- `str::trim`. -/
def trim (cs : List Char) : List Char :=
  ((cs.dropWhile isWhitespace).reverse.dropWhile isWhitespace).reverse

/-- The line that was read says yes. -/
def saysYes (line : String) : Bool :=
  let word := String.ofList ((trim line.toList).map Char.toLower)
  word == "y" || word == "yes"

/-! ## What the binary asks for -/

/-- What is set up before a session. -/
inductive Setup where
  /-- `BackupModule::open_source` -/
  | openSource (module : String) (params : TargetParams)
  /-- `BackupModule::open_destination` -/
  | openDestination (module : String) (params : TargetParams)
  /-- `rb_transport::connect_source` -/
  | connectSource (transport : TransportConfig)
  /-- `rb_transport::connect_destination` -/
  | connectDestination (transport : TransportConfig)

/-- A call out of the binary. -/
inductive Call where
  /-- `SessionConfig::from_path` -/
  | fromPath (path : String)
  | setup (s : Setup)
  /-- the plan is printed, and the question whether to restore -/
  | ask (plan : BackupPlan)
  /-- `read_line` on the standard input; the reply is `none` when it fails -/
  | readLine
  /-- what the session asks the opened module and the channel for -/
  | session (c : Core.Call)

/-- The type of the reply to a call. -/
@[reducible] def Call.Reply : Call → Type
  | .fromPath _ => Result SessionConfig
  | .setup _ => Result Unit
  | .ask _ => Unit
  | .readLine => Option String
  | .session c => c.Reply

/-- An `anyhow::Error`: its own text under the contexts, the last one first. -/
structure Anyhow where
  context : List String
  message : String
  deriving DecidableEq, Repr

/-- `anyhow!("{e}")`. -/
def Anyhow.ofError (e : BackupError) : Anyhow := ⟨[], e.display⟩

/-- A fallible task of the binary. -/
abbrev Program (α : Type) : Type := Task Call Call.Reply Anyhow α

/-- `with_context`. -/
def withContext (text : String) (x : Program Unit) : Program Unit :=
  ⟨x.run.bind fun r => .ret (r.mapError fun e => { e with context := text :: e.context })⟩

/-- `.await.map_err(|e| anyhow!("{e}"))?` on a set-up. -/
def perform (s : Setup) : Program Unit :=
  ⟨.call (.setup s) fun r => .ret (Except.mapError .ofError r)⟩

/-! ## One target -/

/-- `prompt_yes`. -/
def promptYes (plan : BackupPlan) : Proc Call Call.Reply Bool :=
  .call (.ask plan) fun _ => .call .readLine fun
    | some line => .ret (saysYes line)
    | none => .ret false

/-- The objects of the session answer its calls. -/
def forward (c : Core.Call) : Proc Call Call.Reply c.Reply := .call (.session c) .ret

/-- The accept policy answers `accept`. -/
def answerCall (autoAccept : Bool) : (c : Core.Call) → Proc Call Call.Reply c.Reply
  | .accept plan => if autoAccept then .ret true else promptYes plan
  | c => forward c

/-- A session with a fresh progress handle whose calls are answered by `h`. -/
def drive {α : Type} (h : (c : Core.Call) → Proc Call Call.Reply c.Reply) (x : Metered α) :
    Program Unit :=
  ⟨((x.run .fresh).interpret h).bind fun o =>
    .ret ((o.1.map fun _ => ()).mapError .ofError)⟩

/-- Connect the transport for a role and drive the session. -/
def execute (d : Deps) (m : BackupModule) (role : Role) (transport : TransportConfig)
    (params : TargetParams) (autoAccept : Bool) : Program Unit :=
  match role with
  | .source => do
      perform (.openSource m.name params)
      perform (.connectSource transport)
      drive forward (runSource d (m.streamOut params))
  | .destination => do
      perform (.openDestination m.name params)
      perform (.connectDestination transport)
      drive (answerCall autoAccept) (runDestination d (m.streamIn params))

/-- `reg.get(module).ok_or_else(..)?`. -/
def found (reg : ModuleRegistry) (module : String) : Program BackupModule :=
  match reg.get module with
  | some m => pure m
  | none => Task.fail ⟨[], s!"unknown module '{module}'"⟩

/-! ## All targets of a session -/

/-- One turn of the loop over the targets. -/
def runSpec (d : Deps) (reg : ModuleRegistry) (i : Nat) (t : TargetSpec) : Program Unit := do
  let m ← found reg t.module
  withContext s!"target {i} ({t.module}/{t.role.debug})"
    (execute d m t.role t.transport ⟨t.params⟩ t.autoAccept)

/-- Run a multi-target session. -/
def runSession (d : Deps) (reg : ModuleRegistry) (path : String) : Program Unit := do
  let cfg ← (⟨.call (.fromPath path) fun r => .ret (Except.mapError .ofError r)⟩ :
    Program SessionConfig)
  Task.forEach (runSpec d reg) 0 cfg.targets

/-- The arguments of a subcommand for one target. -/
structure TargetCommand where
  role : Role
  to_ : String
  channel : String
  secret : Option String
  carriers : UInt32
  noUdp : Bool
  insecure : Bool
  yes : Bool
  args : TargetArgs

/-- `TargetArgs::transport`. -/
def TargetCommand.transport (a : TargetCommand) : TransportConfig where
  to_ := a.to_
  channel := a.channel
  secret := a.secret
  carriers := a.carriers
  udp := !a.noUdp
  insecure := a.insecure

/-- Run one target from command-line arguments. -/
def runTarget (d : Deps) (reg : ModuleRegistry) (module : String) (a : TargetCommand) :
    Program Unit := do
  let m ← found reg module
  match a.args.params with
  | .ok params => execute d m a.role a.transport params a.yes
  | .error message => Task.fail ⟨[], message⟩

end RustBackup.Cli
