import EnvAudit.Arguments
import EnvAudit.Audit
import EnvAudit.Settings

/-!
# The command

Runs the program on a file tree: what it writes, and the status that it exits with.
-/
namespace EnvAudit

/-- What a run of the program leaves. -/
structure Outcome where
  status : Nat
  output : String := ""
  errors : String := ""
  deriving DecidableEq, Repr

namespace Command

def programName : String := "envdoctor"

def versionLine : String := "envdoctor-cli 0.1.0\n"

def usage : String :=
  "\n".intercalate
    ["Audit .env files against environment variables used in code",
      "",
      "Usage: " ++ programName ++ " [--log-json] diagnose [PATH] [--json] [--strict] [--ignore KEY...] [--exclude NAME...]",
      ""]

/-- What the program reads files with: sources into trees, and settings into a table. -/
structure Readers where
  source : Script.TreeReader
  document : Toml.DocumentReader

/-- The settings of a project, read by `read`; settings that cannot be read are none, with a warning. -/
def settingsBy (read : Toml.DocumentReader) (tree : FileTree) (root : Path) : Settings × String :=
  match Settings.loadBy read tree root with
  | .ok (some settings) => (settings, "")
  | .ok none => ({}, "")
  | .error fault => ({}, s!"WARNING: ignoring {Settings.fileName}: {fault.message}\n")

/-- The settings of a project; settings that cannot be read are none, with a warning. -/
def settingsOf (tree : FileTree) (root : Path) : Settings × String := settingsBy Toml.parse tree root

/-- The format of the output; the flag comes before the settings. -/
def formatOf (request : Request) (settings : Settings) : Format :=
  if request.json then .json else settings.format?.getD .plain

def render (format : Format) (report : Report) : String :=
  match format with
  | .plain => report.plain
  | .json => report.machineReadable

private def indented (text : String) : String := "    " ++ "\n    ".intercalate (text.splitOn "\n")

/-- What is told when the root of a project cannot be walked. -/
def failureText (root : Path) (fault : Fault) : String :=
  s!"Error: Failed to scan {root.display}\n\nCaused by:\n{indented fault.message}\n"

/-- Audits a project with its settings, and with what is asked for behind them. -/
def diagnose (readers : Readers) (tree : FileTree) (request : Request) : Outcome :=
  let (settings, warning) := settingsBy readers.document tree request.path
  match Audit.runBy readers.source tree request.path (settings.excludedNames ++ request.exclude)
    (settings.ignorePatterns ++ request.ignore) with
  | .error fault => { status := 1, errors := warning ++ failureText request.path fault }
  | .ok report =>
    { status := if request.strict && !report.isClean then 1 else 0
      output := render (formatOf request settings) report
      errors := warning }

/-- Runs the program with readers of its files. -/
def runBy (readers : Readers) (tree : FileTree) (invocation : Invocation) : Outcome :=
  match invocation with
  | .diagnose request => diagnose readers tree request
  | .version => { status := 0, output := versionLine }
  | .help => { status := 0, output := usage }
  | .misuse => { status := 2, errors := usage }

/-- Runs the program. -/
def run (tree : FileTree) (invocation : Invocation) : Outcome :=
  runBy { source := Script.Dialect.parse, document := Toml.parse } tree invocation

end Command

end EnvAudit
