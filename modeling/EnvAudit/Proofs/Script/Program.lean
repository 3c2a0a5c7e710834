import EnvAudit.Script.Nodes

/-!
# Programs

Programs of a small part of the language as they are written: accesses to the environment nested in expressions to any
depth, imports and comments. Each has its text, the tree that the grammar of the language gives it, and the keys that it
names.
-/
namespace EnvAudit.Script

/-! ## Trees by their parts -/

namespace Tree

section

variable (text kind field : String) (chars : List Char) (fields : List String) (children : List Tree) (tree : Tree)

@[simp] theorem fields_word : (word text fields).head.fields = fields := rfl

@[simp] theorem lends_word : (word text fields).head.lends = [] := rfl

@[simp] theorem fields_leaf : (leaf kind chars fields).head.fields = fields := rfl

@[simp] theorem lends_leaf : (leaf kind chars fields).head.lends = [] := rfl

@[simp] theorem fields_branch : (branch kind children fields).head.fields = fields := rfl

@[simp] theorem lends_branch : (branch kind children fields).head.lends = [] := rfl

@[simp] theorem fields_optionalMark : Program.optionalMark.head.fields = ["optional_chain"] := rfl

@[simp] theorem lends_optionalMark : Program.optionalMark.head.lends = [] := rfl

@[simp] theorem fields_asField : (tree.asField field).head.fields = [field] := by
  cases tree
  rfl

@[simp] theorem lends_asField : (tree.asField field).head.lends = [] := by
  cases tree
  rfl

theorem field_branch : (branch kind children fields).field? field = fieldAmong field children := rfl

end

section

variable {field : String} {child : Tree} {rest : List Tree}

theorem fieldAmong_found (found : field ∈ child.head.fields) : fieldAmong field (child :: rest) = some child := by
  rw [fieldAmong, if_pos (List.contains_iff_mem.mpr found)]

theorem fieldAmong_passed (unlike : field ∉ child.head.fields) (unlent : field ∉ child.head.lends) :
    fieldAmong field (child :: rest) = fieldAmong field rest := by
  simp [fieldAmong, unlike, unlent]

end

end Tree

namespace Program

open EnvAudit.Script.Tree (word leaf branch)

/-! ## Tokens -/

def isNameStart (c : Char) : Bool := c.isUpper || c = '_'

def isName : List Char → Bool
  | [] => false
  | c :: rest => isNameStart c && rest.all fun d => isNameStart d || d.isDigit

/-- A name in capital letters. -/
abbrev Identifier := { chars : List Char // isName chars = true }

def isLineBreak (c : Char) : Bool := c = '\n' || c = '\r' || c = '\u2028' || c = '\u2029'

def isLiteralChar (c : Char) : Bool :=
  !isLineBreak c && c ≠ '\'' && c ≠ '"' && c ≠ '\x60' && c ≠ '\\' && c ≠ '\x00'

/-- A text that needs no escape between quotes of any kind. -/
abbrev Literal := { chars : List Char // chars ≠ [] ∧ chars.all isLiteralChar = true }

inductive Quote where
  | single
  | double
  deriving DecidableEq, Repr

def Quote.char : Quote → Char
  | single => '\''
  | double => '"'

/-- A literal between quotes. -/
structure Quoted where
  quote : Quote
  literal : Literal

namespace Quoted

def text (quoted : Quoted) : List Char := quoted.quote.char :: (quoted.literal.val ++ [quoted.quote.char])

def tree (quoted : Quoted) : Tree :=
  let mark := word (String.singleton quoted.quote.char)
  branch "string" [mark, leaf "string_fragment" quoted.literal.val, mark]

end Quoted

/-! ## Templates -/

/-- Whether a text can stand in a template as it is. -/
def isTemplateRun : List Char → Bool
  | [] => true
  | '$' :: '\x7b' :: _ => false
  | c :: rest => c ≠ '\x60' && c ≠ '\\' && c ≠ '\x00' && isTemplateRun rest

abbrev TemplateRun := { chars : List Char // isTemplateRun chars = true }

def isHexDigit (c : Char) : Bool := c.isDigit || ('a' ≤ c && c ≤ 'f') || ('A' ≤ c && c ≤ 'F')

def isOctalDigit (c : Char) : Bool := '0' ≤ c && c ≤ '7'

/-- Hexadecimal digits in braces. -/
def isBraced : List Char → Bool
  | [] => false
  | c :: rest =>
    c = '\x7b' && rest.length > 1 && rest.dropLast.all isHexDigit && rest.getLast? = some '\x7d'

/-- What may stand behind the mark of an escape. -/
def isEscape : List Char → Bool
  | [] => false
  | [c] => c ≠ '\x00' && c ≠ 'x' && c ≠ 'u'
  | c :: next :: rest =>
    if c = 'x' then rest.length = 1 && (next :: rest).all isHexDigit
    else if c = 'u' then (rest.length = 3 && (next :: rest).all isHexDigit) || isBraced (next :: rest)
    else if c = '\r' || c = '?' then rest.isEmpty && (next = '\n' || next = '\u2028' || next = '\u2029')
    else rest.length ≤ 1 && (c :: next :: rest).all isOctalDigit

/-- An escape and the text behind it, none of which the escape could take in. -/
structure EscapedRun where
  escape : { chars : List Char // isEscape chars = true }
  run : TemplateRun
  apart : (run.val.head?.all fun c => !isEscape (escape.val ++ [c])) = true

/-- A template without substitutions: a text, and texts behind escapes. -/
structure Template where
  first : TemplateRun
  escaped : List EscapedRun

namespace Template

def text (template : Template) : List Char :=
  '\x60' :: (template.first.val ++ template.escaped.flatMap (fun item => '\\' :: (item.escape.val ++ item.run.val)) ++
    ['\x60'])

def runTrees (run : TemplateRun) : List Tree := if run.val = [] then [] else [leaf "string_fragment" run.val]

def tree (template : Template) : Tree :=
  branch "template_string" (word "\x60" :: (runTrees template.first ++
    template.escaped.flatMap (fun item => leaf "escape_sequence" ('\\' :: item.escape.val) :: runTrees item.run) ++
    [word "\x60"]))

end Template

/-! ## Accesses -/

/-- The environment that an access begins with. -/
inductive Root where
  | process
  | importMeta
  deriving DecidableEq, Repr

namespace Root

def text : Root → List Char
  | process => "process.env".toList
  | importMeta => "import.meta.env".toList

def base : Root → Tree
  | process => leaf "identifier" "process".toList
  | importMeta => importMetaTree

def tree (root : Root) : Tree := memberTree root.base (word ".") "env".toList

end Root

/-- A step of an access behind its first one. -/
inductive Accessor where
  | name (name : Identifier)
  | literal (quoted : Quoted)

namespace Accessor

def text : Accessor → List Char
  | name named => '.' :: named.val
  | literal quoted => '[' :: (quoted.text ++ [']'])

/-- The tree of the step taken from an object. -/
def treeOf (object : Tree) : Accessor → Tree
  | name named => memberTree object (word ".") named.val
  | literal quoted => subscriptTree object quoted.tree

def key : Accessor → List Char
  | name named => named.val
  | literal quoted => quoted.literal.val

end Accessor

/-- The first step of an access, which names the key. -/
inductive FirstAccessor where
  | plain (accessor : Accessor)
  | optional (name : Identifier)

namespace FirstAccessor

def text : FirstAccessor → List Char
  | plain accessor => accessor.text
  | optional name => '?' :: '.' :: name.val

def treeOf (object : Tree) : FirstAccessor → Tree
  | plain accessor => accessor.treeOf object
  | optional name => memberTree object optionalMark name.val

def key : FirstAccessor → List Char
  | plain accessor => accessor.key
  | optional name => name.val

end FirstAccessor

/-- An access to a key of an environment, and to what is below it. -/
structure Access where
  root : Root
  first : FirstAccessor
  further : List Accessor

namespace Access

def text (access : Access) : List Char :=
  access.root.text ++ access.first.text ++ access.further.flatMap Accessor.text

def tree (access : Access) : Tree := access.further.foldl Accessor.treeOf (access.first.treeOf access.root.tree)

end Access

/-! ## Expressions -/

inductive Expression where
  | access (access : Access)
  | name (name : Identifier)
  | literal (quoted : Quoted)
  | template (template : Template)
  /-- An access by a name that stands for the key. -/
  | computed (name : Identifier)
  | group (inner : Expression)
  | array (items : List Expression)
  | call (callee : Identifier) (arguments : List Expression)
  | sum (left right : Expression)

/-- Texts with commas between them. -/
def commaText (texts : List (List Char)) : List Char := List.intercalate [',', ' '] texts

namespace Expression

mutual

def text : Expression → List Char
  | access taken => taken.text
  | name named => named.val
  | literal quoted => quoted.text
  | template filled => filled.text
  | computed named => Root.process.text ++ '[' :: (named.val ++ [']'])
  | group inner => '(' :: (inner.text ++ [')'])
  | array items => '[' :: (commaText (textsOf items) ++ [']'])
  | call callee arguments => callee.val ++ '(' :: (commaText (textsOf arguments) ++ [')'])
  | sum left right => left.text ++ ' ' :: '+' :: ' ' :: right.text

def textsOf : List Expression → List (List Char)
  | [] => []
  | expression :: rest => expression.text :: textsOf rest

end

mutual

/-- The tree of an expression behind the operands of a sum before it. -/
def treeOnto (front : Option Tree) : Expression → Tree
  | access taken => sumOnto front taken.tree
  | name named => sumOnto front (leaf "identifier" named.val)
  | literal quoted => sumOnto front quoted.tree
  | template filled => sumOnto front filled.tree
  | computed named => sumOnto front (subscriptTree Root.process.tree (leaf "identifier" named.val))
  | group inner => sumOnto front (groupTree (inner.treeOnto none))
  | array items => sumOnto front (arrayTree (treesOf items))
  | call callee arguments => sumOnto front (callTree (leaf "identifier" callee.val) (treesOf arguments))
  | sum left right => right.treeOnto (some (left.treeOnto front))

def treesOf : List Expression → List Tree
  | [] => []
  | expression :: rest => expression.treeOnto none :: treesOf rest

end

def tree (expression : Expression) : Tree := expression.treeOnto none

mutual

/-- The first keys of the accesses in an expression, in the order of the text. -/
def keys : Expression → List (List Char)
  | access taken => [taken.first.key]
  | name _ | literal _ | template _ | computed _ => []
  | group inner => inner.keys
  | array items => keysOf items
  | call _ arguments => keysOf arguments
  | sum left right => left.keys ++ right.keys

def keysOf : List Expression → List (List Char)
  | [] => []
  | expression :: rest => expression.keys ++ keysOf rest

end

end Expression

/-! ## Statements -/

/-- A name that is imported, under another one if there is one. -/
structure Specifier where
  name : Identifier
  renamed : Option Identifier

namespace Specifier

def text (specifier : Specifier) : List Char :=
  match specifier.renamed with
  | none => specifier.name.val
  | some renamed => specifier.name.val ++ ' ' :: ("as".toList ++ ' ' :: renamed.val)

def tree (specifier : Specifier) : Tree := specifierTree specifier.name.val (specifier.renamed.map Subtype.val)

end Specifier

/-- An import of some names from a module. -/
structure Import where
  specifiers : List Specifier
  source : Quoted

namespace Import

def text (statement : Import) : List Char :=
  "import".toList ++ ' ' :: '\x7b' :: ' ' :: (commaText (statement.specifiers.map Specifier.text) ++
    ' ' :: '\x7d' :: ' ' :: ("from".toList ++ ' ' :: statement.source.text))

def tree (statement : Import) : Tree := importTree (statement.specifiers.map Specifier.tree) statement.source.tree

/-- The modules whose exports are keys. -/
def isKnown (statement : Import) : Bool :=
  "$env/".toList.isPrefixOf statement.source.literal.val || "astro:env/".toList.isPrefixOf statement.source.literal.val

def keys (statement : Import) : List (List Char) :=
  if statement.isKnown then statement.specifiers.map fun specifier => specifier.name.val else []

end Import

/-- A text of a comment up to the end of its line. -/
abbrev LineText := { chars : List Char // chars.all (fun c => !isLineBreak c && c ≠ '\x00') = true }

/-- Whether a text holds no end of a comment. -/
def isBlockText : List Char → Bool
  | [] => true
  | '*' :: '/' :: _ => false
  | c :: rest => c ≠ '\x00' && isBlockText rest

abbrev BlockText := { chars : List Char // isBlockText chars = true }

/-- A statement or a comment. A comment in marks may end its line. -/
inductive Piece where
  | expression (expression : Expression)
  | imports (statement : Import)
  | line (text : LineText)
  | block (text : BlockText) (last : Bool)

namespace Piece

def lineComment (text : LineText) : List Char := '/' :: '/' :: text.val

def blockComment (text : BlockText) : List Char := '/' :: '*' :: (text.val ++ ['*', '/'])

def text : Piece → List Char
  | expression whole => whole.text ++ [';', '\n']
  | imports statement => statement.text ++ [';', '\n']
  | line text => lineComment text ++ ['\n']
  | block text last => blockComment text ++ if last then ['\n'] else []

def tree : Piece → Tree
  | expression whole => statementTree whole.tree
  | imports statement => statement.tree
  | line text => leaf "comment" (lineComment text)
  | block text _ => leaf "comment" (blockComment text)

def keys : Piece → List (List Char)
  | expression whole => whole.keys
  | imports statement => statement.keys
  | line _ | block .. => []

end Piece

end Program

/-- Statements and comments one after another. -/
abbrev Program := List Program.Piece

namespace Program

def text (program : Program) : String := String.ofList (program.flatMap Piece.text)

def tree (program : Program) : Tree := .branch "program" (program.map Piece.tree)

/-- The keys that a program names, in the order of its text. -/
def keys (program : Program) : List String := (program.flatMap Piece.keys).map String.ofList

end Program

end EnvAudit.Script
