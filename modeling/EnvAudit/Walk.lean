import EnvAudit.FileTree

/-!
# Walks

Visits everything below a directory, entries by their names and each directory at its place. Links are followed;
one that leads to a directory the walk is in is a loop. Excluded entries are passed over, a directory with all
that is in it.
-/
namespace EnvAudit

/-- What a walk meets. -/
inductive Visit where
  | file (path : Path)
  /-- An entry that cannot be visited, and why. -/
  | failed (path : Path) (message : String)
  deriving DecidableEq, Repr

namespace Walk

/-- A directory on the way to another one. -/
structure Ancestor where
  path : Path
  place : Place

/-- What an entry leads to. -/
inductive Target where
  | file
  | directory (place : Place)
  | failed (path : Path) (message : String)

def failureMessage (path : Path) (error : SystemError) : String :=
  s!"IO error for operation on {path.display}: {error.message}"

def loopMessage (path ancestor : Path) : String :=
  s!"File system loop found: {path.display} points to an ancestor {ancestor.display}"

/-- Where a link leads. A directory that cannot be listed is reported under the root of the walk, for it fails
when it is compared with the directories the walk is in. -/
def linkTarget (tree : FileTree) (root : Path) (ancestors : List Ancestor) (path : Path) : Target :=
  match tree.resolve path with
  | .error error => .failed path (failureMessage path error)
  | .ok place =>
    match tree.root.at? place with
    | some (.directory _ false) => .failed root SystemError.denied.message
    | some (.directory _ true) =>
      match ancestors.find? fun ancestor => ancestor.place = place with
      | some ancestor => .failed path (loopMessage path ancestor.path)
      | none => .directory place
    | _ => .file

def target (tree : FileTree) (root : Path) (ancestors : List Ancestor) (path : Path) (name : Name) (node : Node) :
    Target :=
  match node with
  | .file .. => .file
  | .directory .. => .directory (((ancestors.head?.map Ancestor.place).getD []) ++ [name])
  | .link _ => linkTarget tree root ancestors path

/-- Visits what is below a directory, `ancestors` being that directory and those on the way to it, the innermost
first. -/
def visitBelow (tree : FileTree) (excluded : Name → Bool) (root : Path) :
    Nat → List Ancestor → Path → List Visit
  | 0, _, _ => []
  | fuel + 1, ancestors, path =>
    match tree.list path with
    | .error error => [.failed path (failureMessage path error)]
    | .ok entries =>
      entries.flatMap fun (name, node) =>
        let inner := path.child name
        match target tree root ancestors inner name node with
        | .failed failing message => [.failed failing message]
        | .file => if excluded name then [] else [.file inner]
        | .directory place =>
          if excluded name then [] else visitBelow tree excluded root fuel (⟨inner, place⟩ :: ancestors) inner

/-- A branch of a walk enters a link at most once for every directory, and between two links it only goes
down. -/
def mostBranch (tree : FileTree) : Nat := (tree.root.directoryCount + 1) * (tree.root.depth + 1) + 1

/-- Visits what is below a root, or tells why it cannot be walked. -/
def visits (tree : FileTree) (excluded : Name → Bool) (root : Path) : Except String (List Visit) :=
  match tree.resolve root with
  | .error error => .error s!"cannot access root: {error.message}"
  | .ok place =>
    match tree.root.at? place with
    | some (.directory _ readable) =>
      if readable then .ok (visitBelow tree excluded root (mostBranch tree) [⟨root, place⟩] root)
      else if tree.isLink root then .error SystemError.denied.message
      else .error (failureMessage root .denied)
    | _ => .error "root is not a directory"

end Walk

end EnvAudit
