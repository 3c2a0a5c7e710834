import EnvAudit.Script.Direct.Phrase

/-!
# Reading plain texts

A plain text is read straight into its tree: its tokens first, then its phrases, then the places of its nodes.
-/
namespace EnvAudit.Script.Direct

/-! ## Places -/

/-- A place in a text: the bytes before it, and the characters from there on. -/
structure Place where
  offset : Nat
  rest : List Char

namespace Place

/-- The place behind blanks and the ends of lines. -/
def skip (offset : Nat) : List Char → Place
  | [] => ⟨offset, []⟩
  | c :: rest =>
    if isBlank c || c = '\n' || c = '\r' then skip (offset + c.utf8Size) rest else ⟨offset, c :: rest⟩

/-- Where a token stands: behind what may stand before it, unless it begins with that itself. -/
def before (place : Place) (text : List Char) : Place :=
  if text.isPrefixOf place.rest then place else skip place.offset place.rest

def behind (place : Place) (text : List Char) : Place where
  offset := text.foldl (fun offset c => offset + c.utf8Size) place.offset
  rest := place.rest.drop text.length

end Place

mutual

/-- Gives the nodes of a tree their places, from the place where it is to be found on. -/
def locate (place : Place) : Tree → Tree × Place
  | .node head [] =>
    let text := head.text.toList
    let place := place.before text
    (.node { head with start := place.offset, stop := (place.behind text).offset } [], place.behind text)
  | .node head (child :: rest) =>
    let (children, behind) := locateAll [] place (child :: rest)
    let start := (children.head?.map fun first => first.head.start).getD place.offset
    let stop := (children.getLast?.map fun last => last.head.stop).getD behind.offset
    (.node { head with start, stop } children, behind)

def locateAll (read : List Tree) (place : Place) : List Tree → List Tree × Place
  | [] => (read.reverse, place)
  | child :: rest =>
    let (child, behind) := locate place child
    locateAll (child :: read) behind rest

end

/-! ## Texts -/

/-- The tree of a plain text; other texts have none here. -/
def read? (text : String) : Option Tree :=
  ((tokens? text.toList).bind statements?).map fun statements =>
    let (children, _) := locateAll [] ⟨0, text.toList⟩ statements
    let stop := text.utf8ByteSize
    let start := (children.head?.map fun first => first.head.start).getD stop
    .node { kind := "program", start, stop } children

end EnvAudit.Script.Direct
