import EnvAudit.Script.Automaton
import EnvAudit.Script.Source
import EnvAudit.Script.Tree

/-!
# Subtrees under construction

Tokens and phrases as a reader of one language builds them, with what decides between two readings of one
text: the cost of their flaws, their weight, and how much they show.
-/
namespace EnvAudit.Script

/-- What a part of the text was read as. -/
inductive Reading where
  | symbol (symbol : Symbol)
  /-- Text that fits nowhere. -/
  | flaw
  /-- Tokens that were skipped, before the flaw they belong to is complete. -/
  | skipped
  deriving BEq, DecidableEq, Repr, Inhabited

/-- What a subtree is, apart from its parts. Positions count characters. -/
structure Subtree.Head where
  reading : Reading
  /-- The end of what stands before, the start behind the white space, and the end. -/
  before : Nat
  start : Nat
  stop : Nat
  /-- It may stand anywhere. -/
  extra : Bool := false
  visible : Bool := false
  missing : Bool := false
  /-- A keyword that may be read as a name. -/
  keyword : Bool := false
  production : Option Nat := none
  cost : Nat := 0
  weight : Int := 0
  /-- The nodes that it shows below itself, and those that it shows as children. -/
  shown : Nat := 0
  shownParts : Nat := 0
  deriving Inhabited

inductive Subtree where
  | node (head : Subtree.Head) (parts : List Subtree)
  deriving Inhabited

/-- The costs of flaws. -/
structure Costs where
  perFlaw : Nat := 500
  perMissing : Nat := 110
  perSkippedTree : Nat := 100
  perLine : Nat := 30
  perByte : Nat := 1

def costs : Costs := {}

namespace Language

def isVisible (language : Language) : Symbol → Bool
  | .token id => (language.terminals[id]?.map Terminal.visible).getD false
  | .phrase id => (language.phrases[id]?.map Phrase.visible).getD false

def isNamed (language : Language) : Symbol → Bool
  | .token id => (language.terminals[id]?.map Terminal.named).getD false
  | .phrase id => (language.phrases[id]?.map Phrase.named).getD false

def nameOf (language : Language) : Symbol → String
  | .token id => (language.terminals[id]?.map Terminal.name).getD ""
  | .phrase id => (language.phrases[id]?.map Phrase.name).getD ""

def stepsOf (language : Language) (production : Option Nat) : List Step :=
  ((production.bind fun id => language.productions[id]?).map Production.steps).getD []

end Language

/-- The cost of a stretch of text inside a flaw. -/
def Source.costBetween (source : Source) (start stop : Nat) : Nat :=
  costs.perByte * (source.offset stop - source.offset start) +
    costs.perLine * (source.line stop - source.line start)

namespace Subtree

def head : Subtree → Head
  | node head _ => head

def parts : Subtree → List Subtree
  | node _ parts => parts

def mapHead (change : Head → Head) : Subtree → Subtree
  | node head parts => node (change head) parts

def isExtra (tree : Subtree) : Bool := tree.head.extra

def isFlaw (tree : Subtree) : Bool := tree.head.reading == .flaw

/-- The token that a leaf is. -/
def token? (tree : Subtree) : Option Nat :=
  match tree.head.reading with
  | .symbol (.token id) => some id
  | _ => none

/-- How much a subtree counts as progress. -/
def count (tree : Subtree) : Nat :=
  tree.head.shown + (if tree.head.visible then 1 else 0) + if tree.head.reading == .skipped then 1 else 0

def leaf (language : Language) (token before start stop : Nat) : Subtree :=
  node { reading := .symbol (.token token), before, start, stop
         extra := token == Language.endToken
         visible := language.isVisible (.token token) } []

def missingLeaf (language : Language) (token place : Nat) : Subtree :=
  node { reading := .symbol (.token token), before := place, start := place, stop := place
         visible := language.isVisible (.token token), missing := true
         cost := costs.perMissing + costs.perFlaw } []

/-- A stretch without any token. -/
def unreadable (before start stop : Nat) : Subtree :=
  node { reading := .flaw, before, start, stop, visible := true } []

/-- What the parts of a subtree add up to. -/
private structure Sum where
  cost : Nat := 0
  weight : Int := 0
  shown : Nat := 0
  shownParts : Nat := 0

private def Sum.add (sum : Sum) (inFlaw renamed : Bool) (part : Subtree) : Sum :=
  let head := part.head
  let isEmptyFlaw := head.reading == .flaw && part.parts.isEmpty
  let own := if head.reading == .skipped then 0 else head.cost
  let lost :=
    if inFlaw && !head.extra && !isEmptyFlaw then
      (if head.visible then costs.perSkippedTree
      else if part.parts.isEmpty then 0 else costs.perSkippedTree * head.shownParts)
    else 0
  let isShown := renamed || head.visible
  { cost := sum.cost + own + lost
    weight := sum.weight + head.weight
    shown := sum.shown + head.shown + if isShown then 1 else 0
    shownParts :=
      sum.shownParts + (if isShown then 1 else if part.parts.isEmpty then 0 else head.shownParts) }

private def sumOf (inFlaw : Bool) : Sum → List Step → List Subtree → Sum
  | sum, _, [] => sum
  | sum, steps, part :: rest =>
    if part.isExtra then sumOf inFlaw (sum.add inFlaw false part) steps rest
    else
      let renamed := (steps.head?.bind Step.shownAs).isSome
      sumOf inFlaw (sum.add inFlaw renamed part) steps.tail rest

/-- A subtree of some parts; without any it stands at `place`. -/
def ofParts (language : Language) (source : Source) (reading : Reading) (parts : List Subtree)
    (production : Option Nat) (place : Nat) (extra : Bool) : Subtree :=
  let inFlaw := reading == .flaw || reading == .skipped
  let sum := sumOf inFlaw {} (language.stepsOf production) parts
  let first := parts.head?.map head
  let start := (first.map Head.start).getD place
  let stop := (parts.getLast?.map fun part => part.head.stop).getD place
  let cost := if inFlaw then sum.cost + costs.perFlaw + source.costBetween start stop else sum.cost
  node { reading, before := (first.map Head.before).getD place, start, stop, extra
         visible := (match reading with
           | .symbol symbol => language.isVisible symbol
           | .flaw => true
           | .skipped => false)
         production, cost, weight := sum.weight, shown := sum.shown, shownParts := sum.shownParts } parts

/-- The parts without the extra ones at their end, and those. -/
def splitExtras (parts : List Subtree) : List Subtree × List Subtree :=
  let reversed := parts.reverse
  ((reversed.dropWhile isExtra).reverse, (reversed.takeWhile isExtra).reverse)

/-- Two subtrees that a reader need not tell apart when they stand at one place. -/
def isLike (left right : Subtree) : Bool :=
  left.head.reading == right.head.reading &&
    ((left.head.cost > 0 && right.head.cost > 0) ||
      (left.head.start - left.head.before == right.head.start - right.head.before &&
        left.head.stop - left.head.start == right.head.stop - right.head.start &&
        left.parts.length == right.parts.length && left.head.extra == right.head.extra))

private def rank (language : Language) : Reading → Nat
  | .symbol (.token id) => id
  | .symbol (.phrase id) => language.terminals.size + id
  | .skipped => language.terminals.size + language.phrases.size
  | .flaw => language.terminals.size + language.phrases.size + 1

mutual

/-- The order of subtrees by what they were read as, then by the number of their parts, then part by part. -/
def order (language : Language) : Subtree → Subtree → Ordering
  | node left lefts, right =>
    ((compare (rank language left.reading) (rank language right.head.reading)).then
      (compare lefts.length right.parts.length)).then (orderAll language lefts right.parts)

def orderAll (language : Language) : List Subtree → List Subtree → Ordering
  | left :: lefts, right :: rights => (order language left right).then (orderAll language lefts rights)
  | _, _ => .eq

end

/-- Whether the second reading of a text is to be kept instead of the first. -/
def isWorse (language : Language) (left right : Subtree) : Bool :=
  if right.head.cost ≠ left.head.cost then right.head.cost < left.head.cost
  else if right.head.weight ≠ left.head.weight then right.head.weight > left.head.weight
  else left.head.cost > 0 || order language left right == .gt

/-! ## The tree that is shown -/

/-- The nodes shown so far, last first; the bytes read; and the fields that the next node is to have. -/
private structure Shown where
  nodes : List Tree
  place : Nat
  fields : List String

private def kindOf (language : Language) : Reading → String
  | .symbol symbol => language.nameOf symbol
  | .flaw => Tree.flawKind
  | .skipped => ""

private def isNamed (language : Language) : Reading → Bool
  | .symbol symbol => language.isNamed symbol
  | _ => true

private def lends (language : Language) : Reading → List String
  | .symbol (.phrase id) =>
    match language.phrases[id]? with
    | some phrase => if phrase.hidden then phrase.fields else []
    | none => []
  | _ => []

mutual

/-- Shows a subtree, under the name of `step` if it gives one; hidden subtrees show their parts. -/
private def shownBy (language : Language) (source : Source) (step : Option Step) (shown : Shown) :
    Subtree → Shown
  | node head parts =>
    let shownAs := step.bind Step.shownAs
    let fields := shown.fields ++ (step.bind Step.field).toList
    let start := shown.place + (source.offset head.start - source.offset head.before)
    let steps := language.stepsOf head.production
    if shownAs.isSome || head.visible then
      let inner :=
        shownByAll language source steps { nodes := [], place := shown.place, fields := [] } parts
      let stop := if parts.isEmpty then start + (source.offset head.stop - source.offset head.start) else inner.place
      let children := inner.nodes.reverse
      let tree := Tree.ofParts {
          kind := (shownAs.map Alias.name).getD (kindOf language head.reading)
          named := (shownAs.map Alias.named).getD (isNamed language head.reading)
          missing := head.missing, start, stop
          text := if parts.isEmpty then source.slice head.start head.stop else ""
          fields, lends := lends language head.reading } children
      { nodes := tree :: shown.nodes, place := stop, fields := [] }
    else if parts.isEmpty then
      { shown with place := start + (source.offset head.stop - source.offset head.start) }
    else
      let inner := shownByAll language source steps { shown with fields } parts
      if inner.fields.isEmpty then inner else { inner with fields := shown.fields }

private def shownByAll (language : Language) (source : Source) (steps : List Step) (shown : Shown) :
    List Subtree → Shown
  | [] => shown
  | part :: rest =>
    if part.isExtra then
      let next := shownBy language source none { shown with fields := [] } part
      shownByAll language source steps { next with fields := shown.fields } rest
    else
      shownByAll language source steps.tail (shownBy language source steps.head? shown part) rest

end

/-- The tree of a subtree that is shown itself. -/
def toTree (language : Language) (source : Source) (tree : Subtree) : Tree :=
  match (shownBy language source none { nodes := [], place := 0, fields := [] } tree).nodes with
  | found :: _ => found
  | [] => Tree.ofParts { kind := Tree.flawKind } []

end Subtree

end EnvAudit.Script
