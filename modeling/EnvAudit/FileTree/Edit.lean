import EnvAudit.FileTree

/-!
# Changes of a file tree

Writing files, making directories and links, and changing what may be read. A change that is not possible leaves
the tree as it is.
-/
namespace EnvAudit

namespace Node

def putEntry (name : Name) (node : Node) : List (Name × Node) → List (Name × Node)
  | [] => [(name, node)]
  | entry :: rest => if entry.1 = name then (name, node) :: rest else entry :: putEntry name node rest

/-- Changes the node at a place; the change sees nothing where there is none, and may take the node away. -/
def change (edit : Option Node → Option Node) : Option Node → Place → Option Node
  | node, [] => edit node
  | some (directory entries readable), name :: rest =>
    match change edit (entries.lookup name) rest with
    | some node => some (directory (putEntry name node entries) readable)
    | none => some (directory (entries.filter fun entry => entry.1 ≠ name) readable)
  | node, _ :: _ => node

end Node

namespace FileTree

def edit (tree : FileTree) (place : Place) (edit : Option Node → Option Node) : FileTree :=
  match Node.change edit (some tree.root) place with
  | some root => if wellNamed : root.isWellNamed = true then { tree with root, wellNamed } else tree
  | none => tree

private def origin (tree : FileTree) (path : Path) : Place := if path.isAbsolute then [] else tree.here

/-- Makes the directories on a way, from a place; returns where the way leads. -/
private def makeWay (tree : FileTree) (place : Place) : List Path.Part → FileTree × Place
  | [] => (tree, place)
  | part :: rest =>
    match follow tree.root mostLinks place [part] true with
    | .ok next => makeWay tree next rest
    | .error _ =>
      match part with
      | .name name =>
        let next := place ++ [name]
        makeWay (tree.edit next fun _ => some (.directory [] true)) next rest
      | _ => makeWay tree place rest

/-- Makes a directory and those above it. -/
def makeDirectories (tree : FileTree) (path : Path) : FileTree :=
  (makeWay tree (tree.origin path) path.parts).1

/-- The directory above an entry, made if need be, and the name of the entry. -/
private def makeParent (tree : FileTree) (path : Path) : FileTree × Place × Option Name :=
  let parts := path.parts.filter fun part => !part.stays
  let (tree, place) := makeWay tree (tree.origin path) parts.dropLast
  match parts.getLast? with
  | some (.name name) => (tree, place, some name)
  | _ => (tree, place, none)

/-- Writes a file, links to it followed, and makes the directories above it. -/
def write (tree : FileTree) (path : Path) (content : ByteArray) : FileTree :=
  match tree.makeParent path with
  | (tree, place, some name) =>
    let target := match follow tree.root mostLinks place [.name name] true with
      | .ok target => target
      | .error _ => place ++ [name]
    tree.edit target fun known =>
      match known with
      | some (.file _ readable) => some (.file content readable)
      | some other => some other
      | none => some (.file content true)
  | (tree, _, none) => tree

/-- Makes a link, and the directories above it. -/
def link (tree : FileTree) (path target : Path) : FileTree :=
  match tree.makeParent path with
  | (tree, place, some name) => tree.edit (place ++ [name]) fun known => known.or (some (.link target))
  | (tree, _, none) => tree

/-- Allows or forbids to read a file or a directory, links to it followed. -/
def setReadable (tree : FileTree) (path : Path) (readable : Bool) : FileTree :=
  match tree.resolve path with
  | .ok place =>
    tree.edit place fun known =>
      match known with
      | some (.file content _) => some (.file content readable)
      | some (.directory entries _) => some (.directory entries readable)
      | other => other
  | .error _ => tree

/-- Removes a file, a link, or a directory with all that is in it. -/
def remove (tree : FileTree) (path : Path) : FileTree :=
  match tree.resolveEntry path with
  | .ok place => tree.edit place fun _ => none
  | .error _ => tree

end FileTree

end EnvAudit
