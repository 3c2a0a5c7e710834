import EnvAudit.Path

/-!
# File trees

A tree of files, directories and symbolic links, and what a program sees of it through paths: the place that a
path leads to, the content of a file and the entries of a directory.
-/
namespace EnvAudit

inductive Node where
  | file (content : ByteArray) (readable : Bool)
  | directory (entries : List (Name × Node)) (readable : Bool)
  | link (target : Path)
  deriving Inhabited

/-- Why a file or directory cannot be used. -/
inductive SystemError where
  | notFound
  | denied
  | notDirectory
  | isDirectory
  | tooManyLinks
  deriving DecidableEq, Repr

def SystemError.message : SystemError → String
  | notFound => "No such file or directory (os error 2)"
  | denied => "Permission denied (os error 13)"
  | notDirectory => "Not a directory (os error 20)"
  | isDirectory => "Is a directory (os error 21)"
  | tooManyLinks => "Too many levels of symbolic links (os error 40)"

/-- Whether a directory can hold a name: it names something, and has no slash. -/
def Name.isEntry (name : Name) : Bool := Path.Part.ofBytes name = .name name && !name.contains Path.slash

/-- The names that lead from the root to a file or directory, without links. -/
abbrev Place := List Name

namespace Node

def inner? (name : Name) : Node → Option Node
  | directory entries _ => entries.lookup name
  | _ => none

/-- The node at a place. -/
def at? : Node → Place → Option Node
  | node, [] => some node
  | node, name :: rest => (node.inner? name).bind fun next => next.at? rest

def isDirectory : Node → Bool
  | directory .. => true
  | _ => false

/-- Of entries of one name in a row the first. -/
def firstOfEach : List (Name × Node) → List (Name × Node)
  | first :: second :: rest =>
    if first.1 = second.1 then firstOfEach (first :: rest) else first :: firstOfEach (second :: rest)
  | short => short
termination_by entries => entries.length

/-- The entries of a directory by their names, each name once. -/
def listing (entries : List (Name × Node)) : List (Name × Node) :=
  firstOfEach (entries.mergeSort fun left right => decide (left.1 ≤ right.1))

mutual

/-- Whether all names in a tree are names that directories can hold. -/
def isWellNamed : Node → Bool
  | directory entries _ => areWellNamed entries
  | _ => true

def areWellNamed : List (Name × Node) → Bool
  | [] => true
  | (name, node) :: rest => Name.isEntry name && isWellNamed node && areWellNamed rest

end

mutual

/-- How many directories there are. -/
def directoryCount : Node → Nat
  | directory entries _ => 1 + directoryCountOf entries
  | _ => 0

def directoryCountOf : List (Name × Node) → Nat
  | [] => 0
  | (_, node) :: rest => directoryCount node + directoryCountOf rest

end

mutual

/-- How many directories lie inside each other at most. -/
def depth : Node → Nat
  | directory entries _ => 1 + depthOf entries
  | _ => 0

def depthOf : List (Name × Node) → Nat
  | [] => 0
  | (_, node) :: rest => max (depth node) (depthOf rest)

end

end Node

/-- A tree with the directory in which paths begin. -/
structure FileTree where
  root : Node
  here : Place := []
  wellNamed : root.isWellNamed = true := by decide

namespace FileTree

/-- The most links on the way to one place. -/
def mostLinks : Nat := 40

private def startOf (path : Path) (place : Place) : Place := if path.isAbsolute then [] else place

/-- The place that the parts of a path lead to from another place. A link at the end is followed on demand. -/
def follow (root : Node) (links : Nat) (place : Place) (parts : List Path.Part) (last : Bool) :
    Except SystemError Place :=
  match parts with
  | [] => .ok place
  | part :: rest =>
    match root.at? place with
    | some (.directory entries readable) =>
      -- Behind a slash there need only be a directory; all other parts are looked up in it.
      match part, readable with
      | .nothing, _ => follow root links place rest last
      | _, false => .error .denied
      | .here, true => follow root links place rest last
      | .up, true => follow root links place.dropLast rest last
      | .name name, true =>
        match entries.lookup name with
        | none => .error .notFound
        | some (.link target) =>
          if rest = [] && !last then .ok (place ++ [name])
          else
            match links with
            | 0 => .error .tooManyLinks
            | links + 1 => follow root links (startOf target place) (target.parts ++ rest) last
        | some _ => follow root links (place ++ [name]) rest last
    | some (.file ..) => .error .notDirectory
    | _ => .error .notFound
termination_by (links, parts.length)

private def find (tree : FileTree) (path : Path) (last : Bool) : Except SystemError Place :=
  if path.bytes = [] then .error .notFound
  else follow tree.root mostLinks (startOf path tree.here) path.parts last

/-- The place that a path leads to, links followed. -/
def resolve (tree : FileTree) (path : Path) : Except SystemError Place := tree.find path true

/-- The place of the entry that a path names, which may be a link. -/
def resolveEntry (tree : FileTree) (path : Path) : Except SystemError Place := tree.find path false

def node? (tree : FileTree) (path : Path) : Except SystemError Node := do
  let place ← tree.resolve path
  match tree.root.at? place with
  | some node => return node
  | none => throw .notFound

/-- Whether a path itself names a link. -/
def isLink (tree : FileTree) (path : Path) : Bool :=
  match tree.resolveEntry path with
  | .error _ => false
  | .ok place =>
    match tree.root.at? place with
    | some (.link _) => true
    | _ => false

def readFile (tree : FileTree) (path : Path) : Except SystemError Bytes := do
  match ← tree.node? path with
  | .file content readable => if readable then return content.data.toList else throw .denied
  | .directory _ readable => if readable then throw .isDirectory else throw .denied
  | .link _ => throw .notFound

/-- The entries of a directory by their names. -/
def list (tree : FileTree) (path : Path) : Except SystemError (List (Name × Node)) := do
  match ← tree.node? path with
  | .directory entries readable => if readable then return Node.listing entries else throw .denied
  | _ => throw .notDirectory

end FileTree

end EnvAudit
