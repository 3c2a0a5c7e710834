import EnvAudit.Declaration
import EnvAudit.ProjectFiles
import EnvAudit.Report
import EnvAudit.Script.Dialect
import EnvAudit.Usage

/-!
# Audits

Compares the keys that the sources of a project use with those that its declaration files declare. Only a root
that cannot be walked stops an audit; a file that cannot be read or is no program is left out and recorded.
-/
namespace EnvAudit

/-- The text of a declaration file; bytes that are no UTF-8 are replaced. -/
def Declaration.read (tree : FileTree) (path : Path) : Except Fault String :=
  match tree.readFile path with
  | .ok content => .ok (Text.Utf8.lossy content)
  | .error error => .error (.declaration path s!"cannot read file: {error.message}")

/-- The keys that the text of a source file uses, its trees read by `read`. -/
def Usage.ofSourceBy (read : Script.TreeReader) (path : Path) (source : String) : Except Fault KeyList :=
  (Script.parseBy read path source).map Usage.keys

/-- The keys that the text of a source file uses. -/
def Usage.ofSource (path : Path) (source : String) : Except Fault KeyList :=
  Usage.ofSourceBy Script.Dialect.parse path source

/-- The keys that a source file uses, its trees read by `read`; bytes that are no UTF-8 are replaced. -/
def Usage.ofFileBy (read : Script.TreeReader) (tree : FileTree) (path : Path) : Except Fault KeyList :=
  match tree.readFile path with
  | .ok content => Usage.ofSourceBy read path (Text.Utf8.lossy content)
  | .error error => .error (.io path error.message)

namespace Audit

/-- What files contribute, and what was skipped. -/
structure Harvest where
  keys : KeyList
  skipped : List Skip

/-- The keys so far and those of one more file. -/
def take (keys : KeyList) : Except Fault KeyList → KeyList
  | .ok found => keys.extend found.keys
  | .error _ => keys

/-- The record of a file without keys. -/
def record? (kind : SkipKind) (path : Path) : Except Fault KeyList → Option Skip
  | .ok _ => none
  | .error fault => some (.ofFault path kind fault)

/-- Takes the keys of files in their order, and records the files without any. -/
def harvest (kind : SkipKind) (keysOf : Path → Except Fault KeyList) (paths : List Path) : Harvest :=
  let outcomes := paths.map fun path => (path, keysOf path)
  { keys := outcomes.foldl (fun keys outcome => take keys outcome.2) .empty
    skipped := outcomes.filterMap fun outcome => record? kind outcome.1 outcome.2 }

def ofFilesBy (read : Script.TreeReader) (tree : FileTree) (root : Path) (files : ProjectFiles)
    (ignore : List String) : Report :=
  let declared := harvest .declaration (fun path => (Declaration.read tree path).map Declaration.keys) files.declarations
  let used := harvest .parse (Usage.ofFileBy read tree) files.sources
  let findings := (Findings.between used.keys declared.keys).without ignore
  { root
    declarationFiles := files.declarations
    sourceFiles := files.sources.length
    usedKeys := used.keys.keys
    declaredKeys := declared.keys.keys
    missing := findings.missing
    unused := findings.unused
    skipped := files.skipped ++ declared.skipped ++ used.skipped }

/-- The report on the project below a root, the trees of its sources read by `read`. -/
def runBy (read : Script.TreeReader) (tree : FileTree) (root : Path) (exclude ignore : List String) :
    Except Fault Report :=
  (ProjectFiles.gather tree root exclude).map fun files => ofFilesBy read tree root files ignore

/-- The report on the project below a root. -/
def run (tree : FileTree) (root : Path) (exclude ignore : List String) : Except Fault Report :=
  runBy Script.Dialect.parse tree root exclude ignore

end Audit

end EnvAudit
