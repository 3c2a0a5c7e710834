import EnvAudit.Script.Rule
import Std.Data.HashMap
import Std.Data.HashSet

/-!
# Languages

A grammar made ready for reading: its tokens in one order, its rules as sequences of steps, and what each
rule may start with.
-/
namespace EnvAudit.Script

open Std (HashMap HashSet)

/-- A token or a phrase by its number. -/
inductive Symbol where
  | token (id : Nat)
  | phrase (id : Nat)
  deriving BEq, DecidableEq, Repr, Inhabited, Hashable

structure Terminal where
  name : String
  /-- Shown in the tree. -/
  visible : Bool
  /-- Shown as a named node. -/
  named : Bool
  pattern : Pattern := .empty
  immediate : Bool := false
  precedence : Int := 0
  /-- Of two tokens over the same text the one of greater preference is read. -/
  preference : Nat := 0
  keyword : Bool := false
  layout : Option Layout := none
  deriving Repr, Inhabited

structure Phrase where
  name : String
  visible : Bool
  named : Bool
  /-- Made for a repetition. -/
  helper : Bool := false
  /-- The rule's own name is hidden, whatever name its uses give it. -/
  hidden : Bool := false
  /-- The fields that the parts of the phrase have inside it. -/
  fields : List String := []
  deriving Repr, Inhabited

/-- One part of a production. -/
structure Step where
  symbol : Symbol
  level : Level := .unset
  side : Option Side := none
  shownAs : Option Alias := none
  field : Option String := none
  deriving BEq, Repr, Inhabited, Hashable

structure Production where
  phrase : Nat
  weight : Int := 0
  steps : List Step
  deriving BEq, Repr, Inhabited, Hashable

/-- A production with a mark before one of its parts. Productions that agree on what matters from the mark
on share their items. -/
structure Item where
  phrase : Nat
  dot : Nat
  weight : Int
  production : Nat
  next : Option Symbol
  /-- What follows the next part. -/
  follow : Option Symbol
  /-- The item with the mark behind the next part. -/
  after : Nat
  level : Level
  side : Option Side
  /-- The place among the complete items. -/
  rank : Nat := 0
  deriving Inhabited

/-- A phrase may start with another one. -/
structure Corner where
  phrase : Nat
  /-- The tokens that may follow the other phrase inside this one. -/
  after : Nat
  /-- The other phrase may end this one. -/
  ends : Bool
  deriving Inhabited

structure Language where
  terminals : Array Terminal
  phrases : Array Phrase
  productions : Array Production
  items : Array Item
  /-- The item before the whole program. -/
  start : Nat
  /-- The item of an empty program. -/
  emptyProgram : Option Nat
  /-- The tokens a phrase may start with, as bits. -/
  first : Array Nat
  /-- The tokens some production of the phrase starts with, as bits. -/
  openers : Array Nat
  /-- By phrase: itself and all that it may start with, at any depth. -/
  corners : Array (Array Corner)
  /-- By first token: the phrases that may start with it and the items behind it. -/
  byToken : Array (Array (Nat × Nat))
  byPhrase : Array (Array (Nat × Nat))
  orders : List (List (Level ⊕ Nat))
  extras : Nat
  /-- The tokens that are looked for while the reader is lost. -/
  sought : Nat
  keywords : HashMap String Nat
  /-- By layout: the token that stands for it, and the tokens that tell the layout what is expected. -/
  layout : HashMap Layout Nat
  /-- Whether the types of the typed language change where lines end. -/
  typeAware : Bool
  /-- The tokens `||`, the escape in a string and the body of a pattern: what they tell is in `Scanner`. -/
  orMark : Nat
  escapeMark : Nat
  patternMark : Nat

namespace Language

/-- The end of the text. -/
def endToken : Nat := 0

/-- The token for names. -/
def nameToken : Nat := 1

/-! ## Repetitions -/

private structure Lifting where
  known : List (Rule × String) := []
  added : Array (String × Rule) := #[]

mutual

/-- Replaces repetitions by references to rules of their own. -/
private def lift (owner : String) : Rule → StateM Lifting Rule
  | .seq parts => return .seq (← liftAll owner parts)
  | .alt choices => return .alt (← liftAll owner choices)
  | .leveled level side body => return .leveled level side (← lift owner body)
  | .weighted weight body => return .weighted weight (← lift owner body)
  | .field name body => return .field name (← lift owner body)
  | .aliased shownAs body => return .aliased shownAs (← lift owner body)
  | .many1 body => do
    let inner ← lift owner body
    let state ← get
    match state.known.lookup inner with
    | some name => return .ref name
    | none =>
      let name := s!"{owner}_repeat{state.added.size}"
      set ({ known := (inner, name) :: state.known,
             added := state.added.push (name, .alt [.seq [.ref name, .ref name], inner]) } : Lifting)
      return .ref name
  | rule => return rule

private def liftAll (owner : String) : List Rule → StateM Lifting (List Rule)
  | [] => return []
  | rule :: rest => return (← lift owner rule) :: (← liftAll owner rest)

end

/-! ## Tokens -/

mutual

/-- The tokens that a rule is built from, in order. -/
private def tokensOf : Rule → List (String ⊕ TokenShape)
  | .lit text => [.inl text]
  | .token shape => [.inr shape]
  | .seq parts => tokensOfAll parts
  | .alt choices => tokensOfAll choices
  | .many1 body => tokensOf body
  | .leveled _ _ body => tokensOf body
  | .weighted _ body => tokensOf body
  | .field _ body => tokensOf body
  | .aliased _ body => tokensOf body
  | .blank => []
  | .ref _ => []

private def tokensOfAll : List Rule → List (String ⊕ TokenShape)
  | [] => []
  | rule :: rest => tokensOf rule ++ tokensOfAll rest

end

private def isKeyword (text : String) : Bool := text.toList.all Char.isAlpha

private def literalTerminal (name text : String) (named : Bool) : Terminal :=
  { name, visible := true, named, pattern := .word text, preference := 2, keyword := isKeyword text }

private def patternTerminal (name : String) (visible named : Bool) (shape : TokenShape) : Terminal :=
  { name, visible, named, pattern := shape.pattern, immediate := shape.immediate,
    precedence := shape.precedence,
    preference := (if shape.label.isEmpty then 0 else 2) + if shape.immediate then 1 else 0 }

/-- The tokens of a grammar while they are collected. -/
private structure Tokens where
  terminals : Array Terminal := #[]
  words : HashMap String Nat := {}
  shapes : List (TokenShape × Nat) := []
  rules : HashMap String Nat := {}

private def Tokens.addWord (tokens : Tokens) (text : String) : Tokens :=
  if tokens.words.contains text then tokens
  else
    { tokens with
      terminals := tokens.terminals.push (literalTerminal text text false)
      words := tokens.words.insert text tokens.terminals.size }

private def Tokens.addShape (tokens : Tokens) (shape : TokenShape) : Tokens :=
  if (tokens.shapes.lookup shape).isSome then tokens
  else
    { tokens with
      terminals := tokens.terminals.push (patternTerminal shape.label (!shape.label.isEmpty) false shape)
      shapes := (shape, tokens.terminals.size) :: tokens.shapes }

private def Tokens.addNamed (tokens : Tokens) (name : String) (terminal : Terminal) : Tokens :=
  { tokens with
    terminals := tokens.terminals.push terminal
    rules := tokens.rules.insert name tokens.terminals.size }

private def Tokens.ofRule (uses : HashMap String Nat) (tokens : Tokens) (entry : String × Rule) : Tokens :=
  let (name, rule) := entry
  let named := !name.startsWith "_"
  match rule with
  | .token shape => tokens.addNamed name (patternTerminal name named named shape)
  | .lit text =>
    if uses.getD text 0 = 1 then tokens.addNamed name { literalTerminal name text named with visible := named }
    else tokens.addWord text
  | rule =>
    (tokensOf rule).foldl (fun tokens token =>
      match token with
      | .inl text => tokens.addWord text
      | .inr shape => tokens.addShape shape) tokens

/-! ## Productions -/

private structure Draft where
  weight : Int := 0
  steps : List Step := []

private def heavier (outer inner : Int) : Int := if inner.natAbs > outer.natAbs then inner else outer

private structure Surroundings where
  level : Level := .unset
  side : Option Side := none
  shownAs : Option Alias := none
  field : Option String := none

mutual

/-- The readings of a rule, each a sequence of steps. -/
private def drafts (symbolOf : Rule → Symbol) (around : Surroundings) : Rule → List Draft
  | .blank => [{}]
  | .seq parts => draftsOfSeq symbolOf around parts
  | .alt choices => draftsOfAlt symbolOf around choices
  | .many1 body => drafts symbolOf around body
  | .leveled level side body => drafts symbolOf { around with level, side := side.or around.side } body
  | .weighted weight body =>
    (drafts symbolOf around body).map fun draft => { draft with weight := heavier weight draft.weight }
  | .field name body => drafts symbolOf { around with field := some name } body
  | .aliased shownAs body => drafts symbolOf { around with shownAs := some shownAs } body
  | atom =>
    [{ steps := [{ symbol := symbolOf atom, level := around.level, side := around.side,
                   shownAs := around.shownAs, field := around.field }] }]

private def draftsOfSeq (symbolOf : Rule → Symbol) (around : Surroundings) : List Rule → List Draft
  | [] => [{}]
  | rule :: rest =>
    let tails := draftsOfSeq symbolOf around rest
    (drafts symbolOf around rule).flatMap fun head =>
      tails.map fun tail => { weight := heavier head.weight tail.weight, steps := head.steps ++ tail.steps }

private def draftsOfAlt (symbolOf : Rule → Symbol) (around : Surroundings) : List Rule → List Draft
  | [] => []
  | rule :: rest => drafts symbolOf around rule ++ draftsOfAlt symbolOf around rest

end

/-- Puts the body `inserted` in place of `step`. -/
private def Step.replaceBy (step : Step) (inserted : List Step) : List Step :=
  let renamed := inserted.map fun part =>
    { part with shownAs := step.shownAs.or part.shownAs, field := step.field.or part.field }
  match renamed.getLast? with
  | none => []
  | some last =>
    renamed.dropLast ++
      [{ last with
         level := if last.level == .unset then step.level else last.level
         side := last.side.or step.side }]

/-- Replaces inlined phrases by their bodies, leftmost first. -/
private def inlineSteps (bodies : Array (Option (List Draft))) : Nat → Draft → List Draft
  | 0, draft => [draft]
  | fuel + 1, draft =>
    let isPlain (step : Step) : Bool :=
      match step.symbol with
      | .token _ => true
      | .phrase id => (bodies[id]?.getD none).isNone
    let before := draft.steps.takeWhile isPlain
    match draft.steps.dropWhile isPlain with
    | [] => [draft]
    | step :: rest =>
      let body := match step.symbol with
        | .phrase id => (bodies[id]?.getD none).getD []
        | .token _ => []
      body.flatMap fun inner =>
        inlineSteps bodies fuel
          { weight := heavier draft.weight inner.weight
            steps := before ++ Step.replaceBy step inner.steps ++ rest }

private def distinct {α : Type} [BEq α] [Hashable α] (values : List α) : List α :=
  (values.foldl (fun (state : HashSet α × List α) value =>
    if state.1.contains value then state else (state.1.insert value, value :: state.2)) ({}, [])).2.reverse

/-! ## Names under which symbols always appear -/

private structure Uses where
  plain : Bool := false
  aliases : List (Alias × Nat) := []

private def Uses.add (uses : Uses) : Option Alias → Uses
  | none => { uses with plain := true }
  | some shownAs =>
    match uses.aliases.lookup shownAs with
    | some count =>
      { uses with aliases := uses.aliases.map fun (known, n) => if known == shownAs then (known, count + 1) else (known, n) }
    | none => { uses with aliases := uses.aliases ++ [(shownAs, 1)] }

/-- The most frequent alias of a symbol that never appears under its own name. -/
private def Uses.constant (uses : Uses) : Option Alias :=
  if uses.plain then none
  else
    (uses.aliases.foldl (fun (best : Option (Alias × Nat)) entry =>
      match best with
      | some (_, count) => if entry.2 > count then some entry else best
      | none => some entry) none).map Prod.fst

/-! ## Items -/

private structure ItemKey where
  phrase : Nat
  dot : Nat
  weight : Int
  size : Nat
  level : Level
  side : Option Side
  /-- What was read, as far as it matters. -/
  head : Nat
  /-- What is still to be read. -/
  tail : Nat
  deriving BEq, Hashable

private structure ItemBuilder where
  items : Array Item := #[]
  known : HashMap ItemKey Nat := {}
  tails : HashMap (Step × Nat) Nat := {}
  heads : HashMap (Nat × Option Alias × Option String × Option Symbol) Nat := {}

private def ItemBuilder.tail (builder : ItemBuilder) (step : Step) (rest : Nat) : ItemBuilder × Nat :=
  match builder.tails[(step, rest)]? with
  | some id => (builder, id)
  | none =>
    let id := builder.tails.size + 1
    ({ builder with tails := builder.tails.insert (step, rest) id }, id)

private def ItemBuilder.head (builder : ItemBuilder) (key : Nat × Option Alias × Option String × Option Symbol) :
    ItemBuilder × Nat :=
  match builder.heads[key]? with
  | some id => (builder, id)
  | none =>
    let id := builder.heads.size + 1
    ({ builder with heads := builder.heads.insert key id }, id)

/-- Adds the items of a production and returns the first of them. `lends` tells for a symbol whether the
fields of its parts become fields of the production. -/
private def ItemBuilder.addProduction (lends : Symbol → Bool) (builder : ItemBuilder) (id : Nat)
    (production : Production) : ItemBuilder × Nat := Id.run do
  let steps := production.steps.toArray
  let size := steps.size
  let mut builder := builder
  -- the identities of the rests, from the end
  let mut tails : Array Nat := Array.replicate (size + 1) 0
  for offset in [0:size] do
    let at_ := size - 1 - offset
    let (next, tail) := builder.tail steps[at_]! tails[at_ + 1]!
    builder := next
    tails := tails.set! at_ tail
  -- the identities of the parts before the mark
  let mut heads : Array Nat := #[0]
  let mut plain := 0
  let mut full := 0
  let mut lent := false
  for step in steps do
    let (next, plainHead) := builder.head (plain, step.shownAs, step.field, none)
    builder := next
    plain := plainHead
    let (next, fullHead) := builder.head (full, step.shownAs, step.field, some step.symbol)
    builder := next
    full := fullHead
    if lends step.symbol then lent := true
    heads := heads.push (if lent then full else plain)
  -- from the end, so that the item behind each part is known
  let mut after := 0
  for offset in [0:size + 1] do
    let dot := size - offset
    let previous : Option Step := if dot = 0 then none else steps[dot - 1]?
    let level := (previous.map Step.level).getD .unset
    let side := previous.bind Step.side
    let key : ItemKey := {
      phrase := production.phrase, dot, weight := production.weight, size, level, side
      head := heads[dot]!, tail := tails[dot]! }
    match builder.known[key]? with
    | some known => after := known
    | none =>
      let item : Item := {
        phrase := production.phrase, dot, weight := production.weight, production := id
        next := steps[dot]?.map Step.symbol
        follow := steps[dot + 1]?.map Step.symbol
        after, level, side }
      after := builder.items.size
      builder := { builder with
        items := builder.items.push item
        known := builder.known.insert key after }
  return (builder, after)

/-! ## What phrases start with -/

/-- Repeats a pass over the table until nothing changes, at most as often as there are bits. -/
private def saturate (pass : Array Nat → Array Nat) : Nat → Array Nat → Array Nat
  | 0, table => table
  | fuel + 1, table =>
    let next := pass table
    if next == table then table else saturate pass fuel next

def bit (token : Nat) : Nat := 1 <<< token

private def orAt (table : Array Nat) (index bits : Nat) : Array Nat := table.modify index (· ||| bits)

private def firstSets (count : Nat) (pairs : List (Nat × Symbol)) : Array Nat :=
  saturate (fun table => pairs.foldl (fun table (phrase, symbol) =>
    match symbol with
    | .token id => orAt table phrase (bit id)
    | .phrase id => orAt table phrase (table[id]?.getD 0)) table) (count + 1) (Array.replicate count 0)

private def addCorner (corners : Array Corner) (corner : Corner) : Array Corner :=
  match corners.findIdx? (·.phrase == corner.phrase) with
  | some index =>
    corners.modify index fun known =>
      { known with after := known.after ||| corner.after, ends := known.ends || corner.ends }
  | none => corners.push corner

/-- All phrases that `phrase` may start with, at any depth, from what each starts with directly. -/
private def cornersFrom (direct : Array (Array Corner)) (phrase : Nat) : Array Corner := Id.run do
  let count := direct.size
  let mut known : Array (Option (Nat × Bool)) := Array.replicate count none
  known := known.set! phrase (some (0, true))
  let mut waiting := [phrase]
  for _ in [0:count * 64] do
    match waiting with
    | [] => break
    | current :: rest =>
      waiting := rest
      let (after, ends) := (known[current]!).getD (0, false)
      for corner in direct[current]! do
        let bits := if corner.ends then corner.after ||| after else corner.after
        let last := corner.ends && ends
        match known[corner.phrase]! with
        | none =>
          known := known.set! corner.phrase (some (bits, last))
          waiting := corner.phrase :: waiting
        | some (oldBits, oldLast) =>
          if bits ||| oldBits ≠ oldBits || (last && !oldLast) then
            known := known.set! corner.phrase (some (bits ||| oldBits, last || oldLast))
            waiting := corner.phrase :: waiting
  let mut found : Array Corner := #[]
  for id in [0:count] do
    if let some (after, ends) := known[id]! then
      found := found.push { phrase := id, after, ends }
  return found

/-! ## The order of complete items -/

private def orderLevels : Level → Level → Ordering
  | .unset, .unset => .eq
  | .unset, _ => .lt
  | _, .unset => .gt
  | .number left, .number right => compare left right
  | .number _, .named _ => .lt
  | .named _, .number _ => .gt
  | .named left, .named right => compare left right

private def sideRank : Option Side → Nat
  | none => 0
  | some .left => 1
  | some .right => 2

private def aliasText (shownAs : Option Alias) : String :=
  match shownAs with
  | none => ""
  | some shownAs => shownAs.name ++ if shownAs.named then "1" else "0"

private def compareSteps : List Step → List Step → Ordering
  | left :: lefts, right :: rights =>
    ((compare (aliasText left.shownAs) (aliasText right.shownAs)).then
      (compare (left.field.getD "") (right.field.getD ""))).then (compareSteps lefts rights)
  | _, _ => .eq

/-- Complete items by length, phrase, weight, level and side, then by how their parts are shown. -/
private def compareComplete (productions : Array Production) (left right : Item) : Ordering :=
  ((((((compare left.dot right.dot).then (compare left.phrase right.phrase)).then
    (compare left.weight right.weight)).then (orderLevels left.level right.level)).then
    (compare (sideRank left.side) (sideRank right.side))).then
    (match productions[left.production]?, productions[right.production]? with
      | some first, some second => compareSteps first.steps second.steps
      | _, _ => .eq)).then (compare left.production right.production)

private def rankItems (productions : Array Production) (items : Array Item) : Array Item :=
  let complete := (List.range items.size).filter fun id => (items[id]!).next.isNone
  let sorted := complete.mergeSort fun left right =>
    (compareComplete productions items[left]! items[right]!).isLE
  (sorted.foldl (fun (state : Array Item × Nat) id =>
    (state.1.modify id fun item => { item with rank := state.2 }, state.2 + 1)) (items, 0)).1

/-! ## All together -/

/-- The names of the tokens that the layout is told about. -/
private def markNames : String × String × String := ("||", "escape_sequence", "regex_pattern")

def ofGrammar (grammar : Grammar) : Language := Id.run do
  let uses := grammar.rules.foldl (fun (uses : HashMap String Nat) (_, rule) =>
    (tokensOf rule).foldl (fun uses token =>
      match token with
      | .inl text => uses.insert text (uses.getD text 0 + 1)
      | .inr _ => uses) uses) {}
  -- tokens, the name token first, then the layout
  let collected := grammar.rules.foldl (Tokens.ofRule uses) {}
  let nameIndex := collected.rules.getD "identifier" 0
  let place (index : Nat) : Nat :=
    if index = nameIndex then nameToken else if index < nameIndex then index + 2 else index + 1
  let endTerminal : Terminal := { name := "end", visible := false, named := true }
  let mut terminals : Array Terminal := #[endTerminal]
  if h : nameIndex < collected.terminals.size then terminals := terminals.push collected.terminals[nameIndex]
  for index in [0:collected.terminals.size] do
    if index ≠ nameIndex then terminals := terminals.push collected.terminals[index]!
  let mut layout : HashMap Layout Nat := {}
  let mut layoutNames : HashMap String Nat := {}
  for (name, kind) in grammar.layout do
    let named := !name.startsWith "_"
    layout := layout.insert kind terminals.size
    layoutNames := layoutNames.insert name terminals.size
    terminals := terminals.push { name, visible := named, named, layout := some kind }
  -- phrases
  let phraseRules := grammar.rules.filter fun (name, _) => !collected.rules.contains name
  let (lifted, lifting) := (phraseRules.mapM fun (name, rule) => do return (name, ← lift name rule)).run {}
  let allRules := lifted ++ lifting.added.toList
  let phraseIds : HashMap String Nat :=
    (allRules.foldl (fun (state : HashMap String Nat × Nat) (name, _) =>
      (state.1.insert name state.2, state.2 + 1)) ({}, 0)).1
  let symbolOf (rule : Rule) : Symbol :=
    match rule with
    | .lit text => .token (place (collected.words.getD text 0))
    | .token shape => .token (place ((collected.shapes.lookup shape).getD 0))
    | .ref name =>
      match phraseIds[name]? with
      | some id => .phrase id
      | none =>
        match collected.rules[name]? with
        | some index => .token (place index)
        | none => .token (layoutNames.getD name 0)
    | _ => .token endToken
  let bodies := (allRules.map fun (_, rule) => drafts symbolOf {} rule).toArray
  -- constant aliases
  let mut useOf : HashMap Symbol Uses := {}
  let inlinedIds := grammar.inlined.filterMap (phraseIds[·]?)
  for body in bodies do
    for draft in body do
      for step in draft.steps do
        let inlined := match step.symbol with
          | .phrase id => inlinedIds.contains id
          | .token _ => false
        unless inlined do
          useOf := useOf.insert step.symbol ((useOf.getD step.symbol {}).add step.shownAs)
  let constantAlias (symbol : Symbol) : Option Alias := (useOf.getD symbol {}).constant
  let extraIds := grammar.extras.map fun name =>
    match symbolOf (.ref name) with
    | .token id => id
    | .phrase _ => endToken
  for id in [1:terminals.size] do
    unless extraIds.contains id do
      if let some shownAs := constantAlias (.token id) then
        terminals := terminals.modify id fun terminal =>
          { terminal with name := shownAs.name, visible := true, named := shownAs.named }
  let mut phrases : Array Phrase := #[]
  for (name, _) in allRules do
    let id := phrases.size
    let helper := id ≥ lifted.length
    let hidden := helper || name.startsWith "_" || grammar.supertypes.contains name
    phrases := phrases.push <|
      match constantAlias (.phrase id) with
      | some shownAs => { name := shownAs.name, visible := true, named := shownAs.named, helper, hidden }
      | none => { name, visible := !hidden, named := !hidden, helper, hidden }
  -- inlining
  let inlineBodies := (List.range bodies.size).map fun id =>
    if inlinedIds.contains id then bodies[id]? else none
  let inlineTable := inlineBodies.toArray
  let mut productions : Array Production := #[]
  for id in [0:bodies.size] do
    unless inlinedIds.contains id do
      let readings := (bodies[id]!).flatMap (inlineSteps inlineTable 64)
      for production in distinct (readings.map fun draft =>
          ({ phrase := id, weight := draft.weight, steps := draft.steps } : Production)) do
        productions := productions.push production
  -- fields of hidden phrases
  let fieldPass (table : Array (List String)) : Array (List String) :=
    productions.foldl (fun table production =>
      production.steps.foldl (fun table step =>
        let own := step.field.toList
        let lent := match step.symbol, step.shownAs with
          | .phrase id, none =>
            if (phrases[id]!).hidden && !(phrases[id]!).visible then table[id]! else []
          | _, _ => []
        table.modify production.phrase fun known =>
          (own ++ lent).foldl (fun known field => if known.contains field then known else known ++ [field]) known)
        table) table
  let mut fieldTable : Array (List String) := Array.replicate phrases.size []
  for _ in [0:8] do
    fieldTable := fieldPass fieldTable
  for id in [0:phrases.size] do
    phrases := phrases.modify id fun phrase => { phrase with fields := fieldTable[id]! }
  -- items; the last phrase number stands for the text as a whole
  let whole := phrases.size
  let lends (symbol : Symbol) : Bool :=
    match symbol with
    | .phrase id => (phrases[id]!).hidden && !(phrases[id]!).fields.isEmpty
    | .token _ => false
  let mut builder : ItemBuilder := {}
  let mut starts : Array Nat := #[]
  for id in [0:productions.size] do
    let (next, start) := builder.addProduction lends id productions[id]!
    builder := next
    starts := starts.push start
  let (next, start) := builder.addProduction lends productions.size
    { phrase := whole, steps := [{ symbol := .phrase 0 }] }
  builder := next
  -- starts of phrases
  let pairs := distinct (productions.toList.filterMap fun production =>
    production.steps.head?.map fun step => (production.phrase, step.symbol))
  let first := firstSets phrases.size pairs
  let firstOf (symbol : Symbol) : Nat :=
    match symbol with
    | .token id => bit id
    | .phrase id => first[id]!
  let mut corners : Array (Array Corner) := Array.replicate phrases.size #[]
  let mut openers : Array Nat := Array.replicate phrases.size 0
  let mut byToken : Array (Array (Nat × Nat)) := Array.replicate terminals.size #[]
  let mut byPhrase : Array (Array (Nat × Nat)) := Array.replicate phrases.size #[]
  let mut emptyProgram : Option Nat := none
  let mut linked : HashSet (Nat × Nat × Symbol) := {}
  for id in [0:productions.size] do
    let production := productions[id]!
    match production.steps with
    | [] => emptyProgram := some starts[id]!
    | step :: rest =>
      let item := (builder.items[starts[id]!]!).after
      let isNew := !linked.contains (production.phrase, item, step.symbol)
      linked := linked.insert (production.phrase, item, step.symbol)
      match step.symbol with
      | .token token =>
        openers := orAt openers production.phrase (bit token)
        if isNew then byToken := byToken.modify token (·.push (production.phrase, item))
      | .phrase phrase =>
        if isNew then byPhrase := byPhrase.modify phrase (·.push (production.phrase, item))
        corners := corners.modify production.phrase fun known =>
          addCorner known
            (match rest with
            | [] => { phrase, after := 0, ends := true }
            | follow :: _ => { phrase, after := firstOf follow.symbol, ends := false })
  let orders := grammar.orders.map fun order => order.filterMap fun entry =>
    match entry with
    | .level name => some (.inl (.named name))
    | .rule name => (phraseIds[name]?).map .inr
  let unsought := fun (terminal : Terminal) (name : String) => terminal.name == name
  let isUnsought (id : Nat) : Bool :=
    grammar.unsought.any fun name =>
      (match collected.rules[name]? with
        | some index => place index == id
        | none => unsought terminals[id]! name)
  let sought := (List.range terminals.size).foldl (fun bits id =>
    if isUnsought id then bits else bits ||| bit id) 0
  let keywords := (List.range terminals.size).foldl (fun (known : HashMap String Nat) id =>
    match terminals[id]! with
    | { pattern := .text chars, keyword := true, .. } => known.insert (String.ofList chars) id
    | _ => known) {}
  let mark (name : String) : Nat :=
    match collected.rules[name]? with
    | some index => place index
    | none => place (collected.words.getD name 0)
  return {
    terminals, phrases, productions, items := rankItems productions builder.items, start, emptyProgram, first
    openers, corners := (Array.range phrases.size).map (cornersFrom corners)
    byToken, byPhrase, orders
    extras := extraIds.foldl (fun bits id => bits ||| bit id) 0
    sought, keywords, layout, typeAware := grammar.typeAware
    orMark := mark markNames.1, escapeMark := mark markNames.2.1, patternMark := mark markNames.2.2 }

end Language

end EnvAudit.Script
