import EnvAudit.Script.Direct.Token

/-!
# Phrases of plain texts

The trees of the expressions, imports and statements of a plain text. An expression is read token by token: what is
being read stands in the innermost bracket that is open, and no token leaves a choice.
-/
namespace EnvAudit.Script.Direct

open EnvAudit.Script.Tree (word leaf branch)
open EnvAudit.Script.Program

/-! ## Expressions -/

/-- What a bracket makes of the expressions in it. -/
inductive Opening where
  | group
  | array
  | call (function : Tree)
  | index (object : Tree)

/-- A bracket that is not closed yet. -/
structure Level where
  opening : Opening
  /-- The items in it that are complete, the last one first. -/
  items : List Tree
  /-- The operands of a sum before the bracket. -/
  front : Option Tree

/-- What was read of an operand. -/
inductive Hand where
  | nothing
  | operand (tree : Tree)
  /-- An object and a mark behind it, which a name is to follow. -/
  | access (object mark : Tree)
  | importWord
  /-- The word `import` and a dot. -/
  | importDot

/-- An expression that is being read: the brackets that are open, the innermost one first, the operands of a sum that
were read in it, and what was read of the next one. -/
structure Reading where
  levels : List Level
  front : Option Tree
  hand : Hand

/-- The operand that a bracket makes with the last item in it, if there is any. -/
def Level.close? (level : Level) (bracket : Bracket) (last : Option Tree) : Option Tree :=
  match level.opening, bracket, level.items, last with
  | .group, .round, [], some inner => some (groupTree inner)
  | .index object, .square, [], some index => some (subscriptTree object index)
  | .array, .square, items, some last => some (arrayTree (items.reverse ++ [last]))
  | .array, .square, [], none => some (arrayTree [])
  | .call function, .round, items, some last => some (callTree function (items.reverse ++ [last]))
  | .call function, .round, [], none => some (callTree function [])
  | _, _, _, _ => none

/-- Whether commas may stand between the expressions in a bracket. -/
def Opening.isList : Opening → Bool
  | group | index _ => false
  | array | call _ => true

namespace Reading

def takes (reading : Reading) (tree : Tree) : Reading := { reading with hand := .operand tree }

/-- Goes on in a bracket. -/
def opens (reading : Reading) (opening : Opening) : Reading where
  levels := { opening, items := [], front := reading.front } :: reading.levels
  front := none
  hand := .nothing

/-- Goes on behind a bracket. -/
def closes? (reading : Reading) (bracket : Bracket) (last : Option Tree) : Option Reading :=
  match reading.levels with
  | [] => none
  | level :: levels =>
    (level.close? bracket last).map fun tree => { levels, front := level.front, hand := .operand tree }

/-- Goes on behind a comma. -/
def separates? (reading : Reading) (last : Tree) : Option Reading :=
  match reading.levels with
  | [] => none
  | level :: levels =>
    if level.opening.isList then
      some { levels := { level with items := last :: level.items } :: levels, front := none, hand := .nothing }
    else none

/-- Reads one token. -/
def step (reading : Reading) (token : Token) : Option Reading :=
  match reading.hand, token with
  | .nothing, .word name =>
    if name = "import".toList then some { reading with hand := .importWord }
    else if isFree name then some (reading.takes (leaf "identifier" name))
    else none
  | .nothing, .literal tree => some (reading.takes tree)
  | .nothing, .mark (.opening .round) => some (reading.opens .group)
  | .nothing, .mark (.opening .square) => some (reading.opens .array)
  | .nothing, .mark (.closing bracket) => if reading.front.isNone then reading.closes? bracket none else none
  | .operand tree, .mark .dot => some { reading with hand := .access tree (word ".") }
  | .operand tree, .mark .chain => some { reading with hand := .access tree optionalMark }
  | .operand tree, .mark (.opening .round) => some (reading.opens (.call tree))
  | .operand tree, .mark (.opening .square) => some (reading.opens (.index tree))
  | .operand tree, .mark .plus => some { reading with front := some (sumOnto reading.front tree), hand := .nothing }
  | .operand tree, .mark .comma => reading.separates? (sumOnto reading.front tree)
  | .operand tree, .mark (.closing bracket) => reading.closes? bracket (some (sumOnto reading.front tree))
  | .access object mark, .word name => some (reading.takes (memberTree object mark name))
  | .importWord, .mark .dot => some { reading with hand := .importDot }
  | .importDot, .word name => if name = "meta".toList then some (reading.takes importMetaTree) else none
  | _, _ => none

/-- The expression that was read, if it is complete. -/
def expression? (reading : Reading) : Option Tree :=
  match reading.levels, reading.hand with
  | [], .operand tree => some (sumOnto reading.front tree)
  | _, _ => none

end Reading

/-- The tree of an expression. -/
def expression? (tokens : List Token) : Option Tree :=
  (tokens.foldlM Reading.step { levels := [], front := none, hand := .nothing }).bind Reading.expression?

/-! ## Imports -/

/-- The names in the braces of an import behind those that were read, and the tokens behind the braces. -/
def specifiersOnto (read : List Tree) : List Token → Option (List Tree × List Token)
  | .word name :: .mark .comma :: rest =>
    if isFree name then specifiersOnto (specifierTree name none :: read) rest else none
  | .word name :: .word between :: .word renamed :: .mark .comma :: rest =>
    if isFree name && between = "as".toList && isFree renamed then
      specifiersOnto (specifierTree name (some renamed) :: read) rest
    else none
  | .word name :: .mark (.closing .curly) :: rest =>
    if isFree name then some ((specifierTree name none :: read).reverse, rest) else none
  | .word name :: .word between :: .word renamed :: .mark (.closing .curly) :: rest =>
    if isFree name && between = "as".toList && isFree renamed then
      some ((specifierTree name (some renamed) :: read).reverse, rest)
    else none
  | _ => none

/-- The names in the braces of an import, of which there may be none. -/
def specifiers? : List Token → Option (List Tree × List Token)
  | .mark (.closing .curly) :: rest => some ([], rest)
  | tokens => specifiersOnto [] tokens

/-- The tree of an import of some names, its semicolon included. -/
def import? : List Token → Option Tree
  | .word begins :: .mark (.opening .curly) :: inside =>
    match specifiers? inside with
    | some (specifiers, [.word between, .literal source]) =>
      if begins = "import".toList && between = "from".toList && source.kind = "string" then
        some (importTree specifiers source)
      else none
    | _ => none
  | _ => none

/-! ## Statements -/

/-- The tree of a statement, by the tokens before its semicolon. -/
def statement? (tokens : List Token) : Option Tree := ((expression? tokens).map statementTree).or (import? tokens)

/-- The statements and comments of a text behind those that were read; the tokens of the next statement are collected,
the last one first. A statement ends in a semicolon, or is an expression that the text ends with, and has nothing else
between its tokens. -/
def statementsOnto (read : List Tree) (collected : List Token) : List Token → Option (List Tree)
  | [] =>
    if collected.isEmpty then some read.reverse
    else (expression? collected.reverse).map fun last => (lastStatementTree last :: read).reverse
  | .comment text :: rest =>
    if collected.isEmpty then statementsOnto (leaf "comment" text :: read) [] rest else none
  | .mark .lineBreak :: rest => if collected.isEmpty then statementsOnto read [] rest else none
  | .mark .semicolon :: rest =>
    match statement? collected.reverse with
    | some tree => statementsOnto (tree :: read) [] rest
    | none => none
  | token :: rest => statementsOnto read (token :: collected) rest

/-- The statements and comments of a text. -/
def statements? (tokens : List Token) : Option (List Tree) := statementsOnto [] [] tokens

end EnvAudit.Script.Direct
