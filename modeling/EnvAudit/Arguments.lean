import EnvAudit.Path

/-!
# Arguments

The arguments of the program: a command, its flags, lists of values behind an option, and a path. Everything behind
a bare double dash is taken as it is.
-/
namespace EnvAudit

/-- What to audit and how to tell about it. -/
structure Request where
  path : Path := .ofString "."
  /-- Write a document, whatever the settings say. -/
  json : Bool := false
  /-- Findings are a failure. -/
  strict : Bool := false
  ignore : List String := []
  exclude : List String := []
  deriving DecidableEq, Repr

inductive Invocation where
  | diagnose (request : Request)
  | version
  | help
  /-- Arguments that mean nothing. -/
  | misuse
  deriving DecidableEq, Repr

namespace Arguments

/-- An option with a list of values. -/
inductive ListOption where
  | ignore
  | exclude
  deriving DecidableEq, Repr

/-- Why arguments are read no further. -/
inductive Stop where
  | version
  | help
  | misuse
  deriving DecidableEq, Repr

def Stop.invocation : Stop → Invocation
  | version => .version
  | help => .help
  | misuse => .misuse

/-- How the program takes an argument by its form. -/
inductive Form where
  /-- Two dashes alone. -/
  | escape
  /-- A name behind two dashes, and the value behind an equals sign. -/
  | long (name : Bytes) (value : Option Bytes)
  /-- Letters behind one dash. -/
  | short (letters : Bytes)
  | plain
  deriving DecidableEq, Repr

private def dash : UInt8 := 45

private def equalsSign : UInt8 := 61

def Form.of (argument : Bytes) : Form :=
  match argument with
  | first :: second :: rest =>
    if first ≠ dash then plain
    else if second ≠ dash then short (second :: rest)
    else if rest.isEmpty then escape
    else
      match rest.dropWhile (· ≠ equalsSign) with
      | _ :: value => long (rest.takeWhile (· ≠ equalsSign)) (some value)
      | [] => long rest none
  | _ => plain

private def named (name : Bytes) (text : String) : Bool := name = Text.Utf8.encode text

/-! ## Behind the command -/

/-- What has been read. -/
structure Progress where
  request : Request := {}
  path : Option Path := none
  logJson : Bool := false
  /-- The option that takes the next values, and whether it has one. -/
  taking : Option (ListOption × Bool) := none
  /-- Everything is taken as it is. -/
  escaped : Bool := false

namespace Progress

/-- An option that takes no more values has at least one. -/
def close (progress : Progress) : Except Stop Progress :=
  match progress.taking with
  | some (_, false) => .error .misuse
  | _ => .ok { progress with taking := none }

/-- Adds a value to an option; values are text. -/
def add (progress : Progress) (option : ListOption) (value : Bytes) : Except Stop Progress :=
  match Text.Utf8.decode? value with
  | none => .error .misuse
  | some value =>
    let request := progress.request
    match option with
    | .ignore => .ok { progress with request := { request with ignore := request.ignore ++ [value] } }
    | .exclude => .ok { progress with request := { request with exclude := request.exclude ++ [value] } }

/-- Takes the path, of which there is one; it is not empty. -/
def takePath (progress : Progress) (value : Bytes) : Except Stop Progress :=
  if progress.path.isSome || value.isEmpty then .error .misuse else .ok { progress with path := some ⟨value⟩ }

/-- Begins an option with a list of values; one value may be attached to it. -/
def startList (progress : Progress) (option : ListOption) (value : Option Bytes) : Except Stop Progress :=
  match value with
  | some value => progress.add option value
  | none => .ok { progress with taking := some (option, false) }

/-- A flag is given once and has no value. -/
def flag (given : Bool) (value : Option Bytes) (set : Progress) : Except Stop Progress :=
  if given || value.isSome then .error .misuse else .ok set

def long (progress : Progress) (name : Bytes) (value : Option Bytes) : Except Stop Progress :=
  let request := progress.request
  if named name "ignore" then progress.startList .ignore value
  else if named name "exclude" then progress.startList .exclude value
  else if named name "json" then flag request.json value { progress with request := { request with json := true } }
  else if named name "strict" then flag request.strict value { progress with request := { request with strict := true } }
  else if named name "log-json" then flag progress.logJson value { progress with logJson := true }
  else if named name "help" && value.isNone then .error .help
  else .error .misuse

private def helpLetter : UInt8 := 104

private def versionLetter : UInt8 := 86

/-- The next argument behind the command. -/
def step (progress : Progress) (argument : Bytes) : Except Stop Progress :=
  if progress.escaped then progress.close.bind fun progress => progress.takePath argument
  else
    match Form.of argument with
    | .escape => .ok { progress with escaped := true }
    | .long name value => progress.close.bind fun progress => progress.long name value
    | .short letters =>
      progress.close.bind fun _ => .error (if letters.head? = some helpLetter then .help else .misuse)
    | .plain =>
      match progress.taking with
      | some (option, _) =>
        ({ progress with taking := some (option, true) }).add option argument
      | none => progress.takePath argument

/-- The request, when all arguments have been read. -/
def finish (progress : Progress) : Except Stop Request :=
  progress.close.map fun progress => { progress.request with path := progress.path.getD ({} : Request).path }

end Progress

/-! ## In front of the command -/

private def diagnose (arguments : List Bytes) : Except Stop Request :=
  (arguments.foldlM Progress.step {}).bind Progress.finish

private def invocationFrom (logJson : Bool) : List Bytes → Invocation
  | [] => .misuse
  | argument :: rest =>
    match Form.of argument with
    | .escape => .misuse
    | .long name value =>
      if value.isSome then .misuse
      else if named name "version" then .version
      else if named name "help" then .help
      else if named name "log-json" && !logJson then invocationFrom true rest
      else .misuse
    | .short letters =>
      if letters.head? = some Progress.versionLetter then .version
      else if letters.head? = some Progress.helpLetter then .help
      else .misuse
    | .plain =>
      if named argument "diagnose" then
        match diagnose rest with
        | .ok request => .diagnose request
        | .error stop => stop.invocation
      else if named argument "help" then
        match rest with
        | [] => .help
        | topic :: _ => if named topic "diagnose" || named topic "help" then .help else .misuse
      else .misuse

/-- What the arguments of the program ask for. -/
def invocation (arguments : List Bytes) : Invocation := invocationFrom false arguments

end Arguments

end EnvAudit
