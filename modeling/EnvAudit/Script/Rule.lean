import EnvAudit.Script.Pattern

/-!
# Grammar rules

A grammar is a list of named rules. A rule is built from tokens and from the names of other rules, and it
carries what decides between its readings: levels, sides and weights.
-/
namespace EnvAudit.Script

/-- What a token looks like. -/
structure TokenShape where
  pattern : Pattern
  /-- The token must follow the previous one without anything between them. -/
  immediate : Bool := false
  /-- A token of higher precedence is preferred to a longer one. -/
  precedence : Int := 0
  /-- The name under which a token that no rule is named for appears, or nothing. -/
  label : String := ""
  deriving BEq, Repr, Inhabited

/-- How tightly a rule binds. -/
inductive Level where
  | unset
  | number (value : Int)
  | named (name : String)
  deriving BEq, DecidableEq, Repr, Inhabited, Hashable

/-- To which side a chain of equally tight rules leans. -/
inductive Side where
  | left
  | right
  deriving BEq, DecidableEq, Repr, Inhabited, Hashable

/-- The name that a part has in the tree. -/
structure Alias where
  name : String
  named : Bool
  deriving BEq, DecidableEq, Repr, Inhabited, Hashable

inductive Rule where
  | blank
  /-- A literal token. -/
  | lit (text : String)
  | token (shape : TokenShape)
  /-- Another rule, or a token that the layout decides. -/
  | ref (name : String)
  | seq (parts : List Rule)
  | alt (choices : List Rule)
  | many1 (body : Rule)
  | leveled (level : Level) (side : Option Side) (body : Rule)
  /-- Of two readings of one text the one of greater weight is kept. -/
  | weighted (weight : Int) (body : Rule)
  | field (name : String) (body : Rule)
  | aliased (shownAs : Alias) (body : Rule)
  deriving BEq, Repr, Inhabited

namespace Rule

instance : Coe String Rule := ⟨.ref⟩

def opt (body : Rule) : Rule := .alt [body, .blank]

def many (body : Rule) : Rule := opt (.many1 body)

def words (texts : List String) : Rule := .alt (texts.map .lit)

def sepBy1 (separator body : Rule) : Rule := .seq [body, many (.seq [separator, body])]

def commaSep1 (body : Rule) : Rule := sepBy1 (.lit ",") body

def commaSep (body : Rule) : Rule := opt (commaSep1 body)

def level (name : String) (body : Rule) : Rule := .leveled (.named name) none body

def leftLevel (name : String) (body : Rule) : Rule := .leveled (.named name) (some .left) body

def rightLevel (name : String) (body : Rule) : Rule := .leveled (.named name) (some .right) body

def numbered (value : Int) (side : Option Side) (body : Rule) : Rule := .leveled (.number value) side body

def left (body : Rule) : Rule := numbered 0 (some .left) body

def right (body : Rule) : Rule := numbered 0 (some .right) body

/-- Shows a part as a named node. -/
def shown (name : String) (body : Rule) : Rule := .aliased ⟨name, true⟩ body

/-- Shows a part as a token. -/
def shownWord (text : String) (body : Rule) : Rule := .aliased ⟨text, false⟩ body

/-- The pattern of a token. -/
def pattern : Rule → Pattern
  | .token shape => shape.pattern
  | _ => .empty

mutual

/-- The literal tokens in a rule. -/
def literals : Rule → List String
  | .lit text => [text]
  | .seq parts => literalsOf parts
  | .alt choices => literalsOf choices
  | .many1 body => body.literals
  | .leveled _ _ body => body.literals
  | .weighted _ body => body.literals
  | .field _ body => body.literals
  | .aliased _ body => body.literals
  | .blank | .token _ | .ref _ => []

def literalsOf : List Rule → List String
  | [] => []
  | rule :: rest => rule.literals ++ literalsOf rest

end

end Rule

/-- Named rules in their order. -/
abbrev Rules := List (String × Rule)

namespace Rules

def find (rules : Rules) (name : String) : Rule := (rules.lookup name).getD .blank

/-- Puts every rule of `changes` at the place of the rule of its name, or at the end. -/
def revise (rules changes : Rules) : Rules :=
  rules.map (fun (name, rule) => (name, (changes.lookup name).getD rule)) ++
    changes.filter fun (name, _) => (rules.lookup name).isNone

end Rules

/-- Tokens that depend on line breaks and on what the reader expects, not on a pattern alone. -/
inductive Layout where
  | semicolon
  | templateText
  | ternaryMark
  | markupComment
  | markupText
  | signatureSemicolon
  /-- Never read; it tells that everything is expected. -/
  | lost
  deriving BEq, DecidableEq, Repr, Inhabited, Hashable

/-- An entry of an order of levels: a level, or every part of the rule of a name. -/
inductive LevelEntry where
  | level (name : String)
  | rule (name : String)
  deriving BEq, Repr, Inhabited

structure Grammar where
  rules : Rules
  /-- Rules that stand for their choices and are no nodes of their own. -/
  supertypes : List String
  /-- Rules that are replaced by their bodies. -/
  inlined : List String
  /-- Orders of levels, tightest first. -/
  orders : List (List LevelEntry)
  layout : List (String × Layout)
  /-- Tokens that may stand anywhere. -/
  extras : List String
  /-- Tokens that are not looked for while the reader is lost. -/
  unsought : List String
  /-- Whether the types of the typed language change where lines end. -/
  typeAware : Bool
  deriving Inhabited

end EnvAudit.Script
