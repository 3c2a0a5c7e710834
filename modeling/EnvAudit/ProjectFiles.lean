import EnvAudit.Walk
import EnvAudit.Fault

/-!
# Project files

The source files and the declaration files of a project, told by their names, and what could not be visited.
-/
namespace EnvAudit

namespace Path

/-- Names that are passed over anywhere below the root. -/
def excludedNames : List String :=
  ["node_modules", ".git", "dist", "build", "package.json", "package-lock.json"]

def sourceExtensions : List String := ["js", "jsx", "ts", "tsx", "mjs", "cjs", "mts", "cts"]

def declarationStart : String := ".env"

def isSource (path : Path) : Bool := path.hasExtension sourceExtensions

def isDeclaration (path : Path) : Bool :=
  match path.fileName? with
  | some name => Text.Utf8.isValid name && (Text.Utf8.encode declarationStart).isPrefixOf name
  | none => false

end Path

structure ProjectFiles where
  /-- In the order of the walk, as the others are. -/
  sources : List Path
  declarations : List Path
  skipped : List Skip
  deriving DecidableEq, Repr

namespace Visit

def file? : Visit → Option Path
  | file path => some path
  | failed .. => none

def skip? : Visit → Option Skip
  | file _ => none
  | failed path message => some { path, kind := .traversal, message }

end Visit

namespace ProjectFiles

def isExcluded (extra : List String) (name : Name) : Bool :=
  (Path.excludedNames ++ extra).any fun excluded => Text.Utf8.encode excluded = name

def ofVisits (visits : List Visit) : ProjectFiles :=
  let files := visits.filterMap Visit.file?
  { sources := files.filter Path.isSource
    declarations := files.filter Path.isDeclaration
    skipped := visits.filterMap Visit.skip? }

/-- The files below a root, apart from what is excluded. -/
def gather (tree : FileTree) (root : Path) (exclude : List String) : Except Fault ProjectFiles :=
  match Walk.visits tree (isExcluded exclude) root with
  | .error message => .error (.traversal root message)
  | .ok visits => .ok (ofVisits visits)

end ProjectFiles

end EnvAudit
