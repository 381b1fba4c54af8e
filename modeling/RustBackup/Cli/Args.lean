/-
  Cli/Args.lean --- module parameters from the command line.

  Source: crates/rust-backup/src/main.rs (`TargetArgs::params`, `parse_scalar`).

  The typed flags are folded into an object first, then every `-P key=value` in
  the order given, each replacing what the object has under its key.  A typed flag
  puts its text there as it is; `-P` guesses a type from the text.

  Left out: the transport flags and the role, which `params` does not read.
-/
import RustBackup.Core.Params

set_option autoImplicit false

namespace RustBackup.Cli

open RustBackup.Serde RustBackup.Core

/-! ## Guessing a type -/

/-- The value of a text of ASCII digits. -/
def parseDigits (cs : List Char) : Option Nat :=
  if cs ≠ [] ∧ cs.all Char.isDigit then some (Nat.ofDigitChars 10 cs 0) else none

/-- `str::parse::<i64>`: a sign is optional, at least one digit is not, and the value
has to fit. -/
def parseI64 (v : String) : Option Int :=
  match v.toList with
  | '-' :: cs => (parseDigits cs).bind fun n => if n ≤ 2 ^ 63 then some (-(n : Int)) else none
  | '+' :: cs => (parseDigits cs).bind fun n => if n < 2 ^ 63 then some (n : Int) else none
  | cs => (parseDigits cs).bind fun n => if n < 2 ^ 63 then some (n : Int) else none

def parseScalar (v : String) : Json :=
  if v = "true" then .bool true
  else if v = "false" then .bool false
  else
    match parseI64 v with
    | some n => .int n
    | none => .str v

/-- `str::split_once`. -/
def splitOnce (c : Char) (s : String) : Option (String × String) :=
  match s.toList.dropWhile (· ≠ c) with
  | [] => none
  | _ :: v => some (String.ofList (s.toList.takeWhile (· ≠ c)), String.ofList v)

/-! ## The arguments -/

/-- The module parameters among the arguments of a target. -/
structure TargetArgs where
  host : Option String := none
  port : Option UInt16 := none
  user : Option String := none
  password : Option String := none
  database : Option String := none
  sslmode : Option String := none
  uri : Option String := none
  authDb : Option String := none
  root : Option String := none
  bucket : Option String := none
  endpoint : Option String := none
  region : Option String := none
  prefix_ : Option String := none
  accessKey : Option String := none
  secretKey : Option String := none
  admin : Bool := false
  pathStyle : Bool := false
  followSymlinks : Bool := false
  noPreserveOwnership : Bool := false
  preserveXattr : Bool := false
  /-- the `-P` escapes in order -/
  param : List String := []

/-- A flag that is folded only when it is set. -/
def put (k : String) (v : Option Json) (m : Map) : Map :=
  match v with
  | some v => m.insert k v
  | none => m

def putStr (k : String) (v : Option String) (m : Map) : Map := put k (v.map .str) m

/-- A switch folds the value that flips its default. -/
def putSwitch (k : String) (on value : Bool) (m : Map) : Map :=
  put k (if on then some (.bool value) else none) m

/-- One `-P` escape. -/
def putParam (m : Map) (kv : String) : Except String Map :=
  match splitOnce '=' kv with
  | some (k, v) => .ok (m.insert k (parseScalar v))
  | none => .error ("-P expects key=value, got '" ++ kv ++ "'")

def putParams (m : Map) (kvs : List String) : Except String Map := kvs.foldlM putParam m

namespace TargetArgs

/-- What the typed flags put into the object. -/
def flags (a : TargetArgs) : Map :=
  (∅ : Map)
    |> putStr "host" a.host
    |> putStr "user" a.user
    |> putStr "password" a.password
    |> putStr "database" a.database
    |> putStr "sslmode" a.sslmode
    |> putStr "uri" a.uri
    |> putStr "auth_db" a.authDb
    |> putStr "root" a.root
    |> putStr "bucket" a.bucket
    |> putStr "endpoint" a.endpoint
    |> putStr "region" a.region
    |> putStr "prefix" a.prefix_
    |> putStr "access_key" a.accessKey
    |> putStr "secret_key" a.secretKey
    |> put "port" (a.port.map fun p => .int p.toNat)
    |> putSwitch "admin" a.admin true
    |> putSwitch "path_style" a.pathStyle true
    |> putSwitch "follow_symlinks" a.followSymlinks true
    |> putSwitch "preserve_ownership" a.noPreserveOwnership false
    |> putSwitch "preserve_xattr" a.preserveXattr true

/-- `TargetArgs::params`. -/
def params (a : TargetArgs) : Except String TargetParams := do
  let m ← putParams a.flags a.param
  return m.params

end TargetArgs

/-! ## Two ways to pass a value -/

/-- The typed flags that take a text. -/
inductive StrFlag where
  | host | user | password | database | sslmode | uri | authDb | root | bucket | endpoint
  | region | prefix_ | accessKey | secretKey
  deriving DecidableEq, Repr

namespace StrFlag

/-- The key a flag is folded under. -/
def key : StrFlag → String
  | .host => "host"
  | .user => "user"
  | .password => "password"
  | .database => "database"
  | .sslmode => "sslmode"
  | .uri => "uri"
  | .authDb => "auth_db"
  | .root => "root"
  | .bucket => "bucket"
  | .endpoint => "endpoint"
  | .region => "region"
  | .prefix_ => "prefix"
  | .accessKey => "access_key"
  | .secretKey => "secret_key"

/-- The arguments with one flag set or left out. -/
def set (a : TargetArgs) (v : Option String) : StrFlag → TargetArgs
  | .host => { a with host := v }
  | .user => { a with user := v }
  | .password => { a with password := v }
  | .database => { a with database := v }
  | .sslmode => { a with sslmode := v }
  | .uri => { a with uri := v }
  | .authDb => { a with authDb := v }
  | .root => { a with root := v }
  | .bucket => { a with bucket := v }
  | .endpoint => { a with endpoint := v }
  | .region => { a with region := v }
  | .prefix_ => { a with prefix_ := v }
  | .accessKey => { a with accessKey := v }
  | .secretKey => { a with secretKey := v }

/-- The `-P` escape for the same key. -/
def escape (f : StrFlag) (v : String) : String := f.key ++ "=" ++ v

end StrFlag

/-- The key a `-P` escape sets. -/
def escapeKey (kv : String) : Option String := (splitOnce '=' kv).map (·.1)

/-- The arguments with a value passed by its typed flag.  The escapes are given in two
parts: those before and those after the place an escape for the value would have. -/
def byFlag (a : TargetArgs) (f : StrFlag) (v : String) (before after : List String) : TargetArgs :=
  { f.set a (some v) with param := before ++ after }

/-- The same arguments with the value passed by `-P`. -/
def byEscape (a : TargetArgs) (f : StrFlag) (v : String) (before after : List String) :
    TargetArgs :=
  { f.set a none with param := before ++ f.escape v :: after }

/-- What a module makes of the arguments. -/
def accepted (why : Json → String) (m : Module) (a : TargetArgs) : Option m.Params :=
  match a.params with
  | .ok p => (p.deserialize why m).toOption
  | .error _ => none

/-- A text that is neither a Boolean nor a 64-bit integer. -/
def PlainText (v : String) : Prop := v ≠ "true" ∧ v ≠ "false" ∧ parseI64 v = none

instance (v : String) : Decidable (PlainText v) := inferInstanceAs (Decidable (_ ∧ _ ∧ _))

/-! ## What the object holds -/

section Object

variable {m : Map} {k k' : String} {x y : Json}

theorem insert_comm (h : k ≠ k') : (m.insert k x).insert k' y = (m.insert k' y).insert k x := by
  apply Std.ExtTreeMap.ext_getElem?
  intro q
  simp only [Std.ExtTreeMap.getElem?_insert, Std.compare_eq_iff_eq]
  by_cases hk : k = q
  · subst hk
    simp [h.symm]
  · simp [hk]

theorem put_insert (v : Option Json) (h : k ≠ k') :
    put k' v (m.insert k x) = (put k' v m).insert k x := by
  cases v with
  | none => rfl
  | some v => exact insert_comm h

theorem putStr_insert (v : Option String) (h : k ≠ k') :
    putStr k' v (m.insert k x) = (putStr k' v m).insert k x := put_insert _ h

theorem putSwitch_insert (on value : Bool) (h : k ≠ k') :
    putSwitch k' on value (m.insert k x) = (putSwitch k' on value m).insert k x := put_insert _ h

@[simp] theorem putStr_none : putStr k none m = m := rfl

@[simp] theorem putStr_some (s : String) : putStr k (some s) m = m.insert k (.str s) := rfl

/-- A typed flag's text goes into the object under the flag's key, as it is. -/
theorem flags_set_some (a : TargetArgs) (f : StrFlag) (v : String) :
    (f.set a (some v)).flags = ((f.set a none).flags).insert f.key (.str v) := by
  cases f <;>
    simp (disch := decide) only [StrFlag.set, StrFlag.key, TargetArgs.flags, putStr_some,
      putStr_none, putStr_insert, putSwitch_insert, put_insert]

end Object

/-! ## The escapes -/

section Escapes

variable {m m' : Map} {k : String} {x : Json} {kv : String} {kvs : List String}

theorem splitOnce_append {c : Char} {k v : String} (h : c ∉ k.toList) :
    splitOnce c (k ++ String.singleton c ++ v) = some (k, v) := by
  have hall : ∀ b ∈ k.toList, decide (b ≠ c) = true := by
    intro b hb
    rw [decide_eq_true_eq]
    rintro rfl
    exact h hb
  have hlist : (k ++ String.singleton c ++ v).toList = k.toList ++ c :: v.toList := by simp
  unfold splitOnce
  rw [hlist, List.dropWhile_append_of_pos hall, List.takeWhile_append_of_pos hall]
  simp

/-- An escape is split at the key's end. -/
theorem splitOnce_escape (f : StrFlag) (v : String) :
    splitOnce '=' (f.escape v) = some (f.key, v) := by
  apply splitOnce_append
  cases f <;> decide

theorem putParam_escape (m : Map) (f : StrFlag) (v : String) :
    putParam m (f.escape v) = .ok (m.insert f.key (parseScalar v)) := by
  unfold putParam
  rw [splitOnce_escape]

/-- An escape for another key leaves a value where it is. -/
theorem putParam_insert (h : escapeKey kv ≠ some k) :
    putParam (m.insert k x) kv = (putParam m kv).map (·.insert k x) := by
  unfold putParam
  unfold escapeKey at h
  cases hs : splitOnce '=' kv with
  | none => rfl
  | some p =>
    have hne : k ≠ p.1 := by
      rintro rfl
      exact h (by rw [hs]; rfl)
    exact congrArg Except.ok (insert_comm hne)

theorem putParams_cons : putParams m (kv :: kvs) = (putParam m kv).bind (putParams · kvs) := rfl

/-- So do any number of them. -/
theorem putParams_insert (h : ∀ kv ∈ kvs, escapeKey kv ≠ some k) :
    putParams (m.insert k x) kvs = (putParams m kvs).map (·.insert k x) := by
  induction kvs generalizing m with
  | nil => rfl
  | cons kv kvs ih =>
    rw [putParams_cons, putParams_cons, putParam_insert (h kv List.mem_cons_self)]
    cases putParam m kv with
    | error e => rfl
    | ok m' => exact ih fun kv' hkv' => h kv' (List.mem_cons_of_mem _ hkv')

theorem putParams_append (kvs kvs' : List String) :
    putParams m (kvs ++ kvs') = (putParams m kvs).bind (putParams · kvs') := by
  induction kvs generalizing m with
  | nil => rfl
  | cons kv kvs ih =>
    rw [List.cons_append, putParams_cons, putParams_cons]
    cases putParam m kv with
    | error e => rfl
    | ok m' => exact ih

/-- Two objects that differ under one key only. -/
def AgreeOff (k : String) (m m' : Map) : Prop := ∀ q, q ≠ k → m[q]? = m'[q]?

theorem AgreeOff.insert (h : AgreeOff k m m') (q : String) (y : Json) :
    AgreeOff k (m.insert q y) (m'.insert q y) := by
  intro r hr
  rw [Std.ExtTreeMap.getElem?_insert, Std.ExtTreeMap.getElem?_insert, h r hr]

theorem agreeOff_insert (m : Map) (k : String) (x y : Json) :
    AgreeOff k (m.insert k x) (m.insert k y) := by
  intro q hq
  have hne : ¬ compare k q = .eq := fun he => hq (Std.compare_eq_iff_eq.mp he).symm
  rw [Std.ExtTreeMap.getElem?_insert, Std.ExtTreeMap.getElem?_insert, if_neg hne, if_neg hne]

/-- The outcomes of putting the same escapes into two such objects. -/
inductive AgreeResult (k : String) : Except String Map → Except String Map → Prop where
  | ok {m m' : Map} (h : AgreeOff k m m') : AgreeResult k (.ok m) (.ok m')
  | error (e : String) : AgreeResult k (.error e) (.error e)

theorem AgreeOff.putParams (h : AgreeOff k m m') (kvs : List String) :
    AgreeResult k (putParams m kvs) (putParams m' kvs) := by
  induction kvs generalizing m m' with
  | nil => exact .ok h
  | cons kv kvs ih =>
    rw [putParams_cons, putParams_cons]
    unfold putParam
    cases splitOnce '=' kv with
    | none => exact .error _
    | some p => exact ih (h.insert p.1 _)

end Escapes

/-! ## The two ways compared -/

section Compare

variable {why : Json → String} {a : TargetArgs} {f : StrFlag} {v : String} {m : Module}
variable {before after : List String}

theorem parseScalar_of_plain (h : PlainText v) : parseScalar v = .str v := by
  obtain ⟨ht, hf, hi⟩ := h
  unfold parseScalar
  rw [if_neg ht, if_neg hf, hi]

/-- The guess for any other text is no text. -/
theorem parseScalar_of_not_plain (h : ¬ PlainText v) :
    (∃ b, parseScalar v = .bool b) ∨ ∃ i, parseScalar v = .int i := by
  unfold parseScalar
  split
  · exact .inl ⟨true, rfl⟩
  · split
    · exact .inl ⟨false, rfl⟩
    · next ht hf =>
      cases hi : parseI64 v with
      | some i => exact .inr ⟨i, rfl⟩
      | none => exact absurd ⟨ht, hf, hi⟩ h

/-- The object built from the escapes around a value. -/
def around (a : TargetArgs) (f : StrFlag) (x : Json) (before after : List String) :
    Except String Map :=
  (putParams (f.set a none).flags before).bind fun m => putParams (m.insert f.key x) after

theorem params_byFlag (h : ∀ kv ∈ before, escapeKey kv ≠ some f.key) :
    (byFlag a f v before after).params =
      (around a f (.str v) before after).map Map.params := by
  have hflags : (byFlag a f v before after).flags =
      (f.set a none).flags.insert f.key (.str v) := flags_set_some a f v
  have hput : putParams (byFlag a f v before after).flags (before ++ after) =
      around a f (.str v) before after := by
    rw [putParams_append, hflags, putParams_insert h, around]
    cases putParams (f.set a none).flags before with
    | error e => rfl
    | ok m => rfl
  exact congrArg (Except.map Map.params) hput

theorem params_byEscape :
    (byEscape a f v before after).params =
      (around a f (parseScalar v) before after).map Map.params := by
  have hput : putParams (f.set a none).flags (before ++ f.escape v :: after) =
      around a f (parseScalar v) before after := by
    rw [putParams_append, around]
    cases putParams (f.set a none).flags before with
    | error e => rfl
    | ok m =>
      change putParams m (f.escape v :: after) = _
      rw [putParams_cons, putParam_escape]
      rfl
  exact congrArg (Except.map Map.params) hput

/-- A plain text comes to the same object either way. -/
theorem params_byEscape_of_plain (hv : PlainText v)
    (h : ∀ kv ∈ before, escapeKey kv ≠ some f.key) :
    (byEscape a f v before after).params = (byFlag a f v before after).params := by
  rw [params_byEscape, params_byFlag h, parseScalar_of_plain hv]

theorem accepted_of_params {o : Map} (h : a.params = .ok o.params) :
    accepted why m a = m.fromValue o.object := by
  unfold accepted
  rw [h]
  exact TargetParams.toOption_deserialize why m o.params

theorem accepted_of_error {e : String} (h : a.params = .error e) : accepted why m a = none := by
  unfold accepted
  rw [h]

/-- A module without the parameter makes the same of both. -/
theorem accepted_byEscape_of_absent (hm : f.key ∉ m.names)
    (h : ∀ kv ∈ before, escapeKey kv ≠ some f.key) :
    accepted why m (byEscape a f v before after) =
      accepted why m (byFlag a f v before after) := by
  have hflag : (byFlag a f v before after).params =
      (around a f (.str v) before after).map Map.params := params_byFlag h
  have hescape : (byEscape a f v before after).params =
      (around a f (parseScalar v) before after).map Map.params := params_byEscape
  unfold around at hflag hescape
  cases hb : putParams (f.set a none).flags before with
  | error e =>
    rw [hb] at hflag hescape
    rw [accepted_of_error hflag, accepted_of_error hescape]
  | ok o =>
    rw [hb] at hflag hescape
    change _ = (putParams (o.insert f.key (.str v)) after).map _ at hflag
    change _ = (putParams (o.insert f.key (parseScalar v)) after).map _ at hescape
    have hagree := (agreeOff_insert o f.key (.str v) (parseScalar v)).putParams after
    generalize putParams (o.insert f.key (.str v)) after = r at hflag hagree
    generalize putParams (o.insert f.key (parseScalar v)) after = r' at hescape hagree
    cases hagree with
    | error e => rw [accepted_of_error hflag, accepted_of_error hescape]
    | ok hoff =>
      rw [accepted_of_params hflag, accepted_of_params hescape]
      apply Module.fromValue_congr
      intro name hname
      exact (hoff name fun he => hm (he ▸ hname)).symm

section Fields

attribute [local simp] Module.fromValue PostgresParams.deserialize PostgresParams.names
  MongoDbParams.deserialize MongoDbParams.names FilesystemParams.deserialize
  FilesystemParams.names S3Params.deserialize S3Params.names Map.fields_object required orDefault

/-- Every module rejects an object in which one of its textual parameters is a Boolean
or a number. -/
theorem fromValue_eq_none {o : Map} {x : Json} (hm : f.key ∈ m.names) (ho : o[f.key]? = some x)
    (hx : (∃ b, x = .bool b) ∨ ∃ i, x = .int i) : m.fromValue o.object = none := by
  have hstr : x.asStr = none := by
    obtain ⟨b, rfl⟩ | ⟨i, rfl⟩ := hx <;> rfl
  have hopt : nullable Json.asStr x = none := by
    obtain ⟨b, rfl⟩ | ⟨i, rfl⟩ := hx <;> rfl
  cases m <;> cases f <;>
    first
    | exact absurd hm (by decide)
    | simp only [StrFlag.key] at ho
      simp [ho, hstr, hopt]
      rfl

/-- Arguments that give every module what it requires. -/
def enough : TargetArgs :=
  { host := some "db", user := some "app", root := some "/srv", bucket := some "data" }

/-- A module that has the parameter of a flag. -/
def reader : StrFlag → Core.Module
  | .host | .user | .password | .database | .sslmode => .postgres
  | .uri | .authDb => .mongodb
  | .root => .filesystem
  | _ => .s3

theorem key_mem_names_reader (f : StrFlag) : f.key ∈ (reader f).names := by
  cases f <;> decide

/-- A typed flag takes any text. -/
theorem accepted_enough (f : StrFlag) (v : String) :
    accepted why (reader f) (byFlag enough f v [] []) ≠ none := by
  have hp : (byFlag enough f v [] []).params = .ok (byFlag enough f v [] []).flags.params := rfl
  rw [accepted_of_params hp]
  cases f <;>
    · simp [reader, byFlag, StrFlag.set, enough, TargetArgs.flags, putStr, put, putSwitch,
        Std.ExtTreeMap.getElem?_insert, nullable]
      exact Option.some_ne_none _

end Fields

/-- Any other text passed by `-P` is rejected by every module that has the parameter. -/
theorem accepted_byEscape_of_not_plain (hv : ¬ PlainText v) (hm : f.key ∈ m.names)
    (h : ∀ kv ∈ after, escapeKey kv ≠ some f.key) :
    accepted why m (byEscape a f v before after) = none := by
  have hparams : (byEscape a f v before after).params =
      (around a f (parseScalar v) before after).map Map.params := params_byEscape
  unfold around at hparams
  cases hb : putParams (f.set a none).flags before with
  | error e =>
    rw [hb] at hparams
    exact accepted_of_error hparams
  | ok o =>
    rw [hb] at hparams
    change _ = (putParams (o.insert f.key (parseScalar v)) after).map _ at hparams
    rw [putParams_insert h] at hparams
    cases ha : putParams o after with
    | error e =>
      rw [ha] at hparams
      exact accepted_of_error hparams
    | ok o' =>
      rw [ha] at hparams
      rw [accepted_of_params (o := o'.insert f.key (parseScalar v)) hparams]
      apply fromValue_eq_none hm _ (parseScalar_of_not_plain hv)
      rw [Std.ExtTreeMap.getElem?_insert_self]

/-- A value passed by `-P` means what it means passed by its typed flag exactly if it is
neither a Boolean nor a 64-bit integer.  If it is one, the modules that have the parameter
reject it unless a later escape replaces it, and for the others it makes no difference. -/
theorem escape_means_flag_iff (f : StrFlag) (v : String) :
    (PlainText v ↔ ∀ why a before after, (∀ kv ∈ before, escapeKey kv ≠ some f.key) →
      ∀ m, accepted why m (byEscape a f v before after) =
        accepted why m (byFlag a f v before after)) ∧
    (¬ PlainText v → ∀ why a before after, (∀ kv ∈ after, escapeKey kv ≠ some f.key) →
      ∀ m : Core.Module, f.key ∈ m.names →
        accepted why m (byEscape a f v before after) = none) ∧
    (∀ why a before after, (∀ kv ∈ before, escapeKey kv ≠ some f.key) →
      ∀ m : Core.Module, f.key ∉ m.names →
        accepted why m (byEscape a f v before after) =
          accepted why m (byFlag a f v before after)) := by
  have hreject : ∀ hv : ¬ PlainText v, ∀ why a before after,
      (∀ kv ∈ after, escapeKey kv ≠ some f.key) → ∀ m : Core.Module, f.key ∈ m.names →
        accepted why m (byEscape a f v before after) = none :=
    fun hv why a before after h m hm => accepted_byEscape_of_not_plain hv hm h
  refine ⟨⟨?_, ?_⟩, hreject, fun why a before after h m hm => accepted_byEscape_of_absent hm h⟩
  · intro hv why a before after h m
    unfold accepted
    rw [params_byEscape_of_plain hv h]
  · intro h
    by_contra hv
    have hnone := hreject hv (fun _ => "") enough [] [] (by simp) (reader f)
      (key_mem_names_reader f)
    rw [h _ _ _ _ (by simp) _] at hnone
    exact accepted_enough f v hnone

/-- A password of digits is taken from its flag and rejected from `-P`. -/
theorem not_escape_means_flag : ¬ ∀ (f : StrFlag) (v : String) (a : TargetArgs)
    (before after : List String), (∀ kv ∈ before, escapeKey kv ≠ some f.key) →
    ∀ (why : Json → String) (m : Core.Module),
      accepted why m (byEscape a f v before after) =
        accepted why m (byFlag a f v before after) := by
  intro h
  have hdigits := h .password "12345" enough [] [] (by simp) (fun _ => "") .postgres
  rw [accepted_byEscape_of_not_plain (by decide) (by decide) (by simp)] at hdigits
  exact accepted_enough .password "12345" hdigits.symm

end Compare

end RustBackup.Cli
