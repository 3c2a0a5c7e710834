import EnvAudit.Script.Language

/-!
# The automaton of a language

The places that a reader of the language can be in, found while it reads. A place knows which items were
begun, so it tells for every token what to do: read on, take a finished phrase, or both where the language
leaves the choice open.
-/
namespace EnvAudit.Script

open Std (HashMap)

/-- What a reader may do with the next token. -/
inductive Action where
  /-- Read the token; `repeats` marks a token that only continues a repetition whose part is complete too. -/
  | shift (place : Nat) (repeats : Bool)
  /-- Read a token that may stand anywhere. -/
  | extra
  /-- Take the last `count` parts as a phrase. -/
  | reduce (phrase count : Nat) (weight : Int) (production : Nat)
  | accept
  /-- Skip the token. -/
  | recover
  deriving BEq, Repr, Inhabited

/-- A place between two tokens. -/
structure Place where
  /-- The items with something read, in their order, and the tokens that may follow each. -/
  kernel : List (Nat × Nat)
  /-- By phrase: the tokens that may follow it when it starts here, none when it cannot. -/
  ahead : Array Nat
  /-- The tokens with an action. -/
  expected : Nat
  deriving Inhabited

structure Automaton where
  language : Language
  places : Array Place
  known : HashMap (List (Nat × Nat)) Nat
  actionTable : HashMap (Nat × Nat) (List Action)
  placeTable : HashMap (Nat × Nat) Nat

namespace Language

/-- The tokens a symbol may start with. -/
def firstOf (language : Language) : Symbol → Nat
  | .token id => bit id
  | .phrase id => language.first[id]?.getD 0

private def aheadOf (language : Language) (kernel : List (Nat × Nat)) : Array Nat :=
  kernel.foldl (fun ahead (id, follow) =>
    let item := language.items[id]!
    match item.next with
    | some (.phrase phrase) =>
      let after := match item.follow with
        | some symbol => language.firstOf symbol
        | none => follow
      (language.corners[phrase]!).foldl (fun ahead corner =>
        let bits := if corner.ends then corner.after ||| after else corner.after
        ahead.modify corner.phrase (· ||| bits)) ahead
    | _ => ahead) (Array.replicate language.phrases.size 0)

private def placeOf (language : Language) (kernel : List (Nat × Nat)) : Place :=
  let ahead := language.aheadOf kernel
  let opened := (List.range ahead.size).foldl (fun bits phrase =>
    if ahead[phrase]! = 0 then bits else bits ||| language.openers[phrase]!) language.extras
  let emptied := if language.emptyProgram.isSome then ahead[0]?.getD 0 else 0
  let expected := kernel.foldl (fun bits (id, follow) =>
    match (language.items[id]!).next with
    | some (.token token) => bits ||| bit token
    | some (.phrase _) => bits
    | none => bits ||| follow) (opened ||| emptied)
  { kernel, ahead, expected }

private def mergeKernel : List (Nat × Nat) → List (Nat × Nat)
  | (first, firstFollow) :: (second, secondFollow) :: rest =>
    if first = second then mergeKernel ((first, firstFollow ||| secondFollow) :: rest)
    else (first, firstFollow) :: mergeKernel ((second, secondFollow) :: rest)
  | short => short
termination_by kernel => kernel.length

/-- The items behind a symbol. -/
private def kernelAfter (language : Language) (place : Place) (symbol : Symbol) : List (Nat × Nat) :=
  let begun := place.kernel.filterMap fun (id, follow) =>
    let item := language.items[id]!
    if item.next == some symbol then some (item.after, follow) else none
  let entries := match symbol with
    | .token id => language.byToken[id]?.getD #[]
    | .phrase id => language.byPhrase[id]?.getD #[]
  -- Phrases that may start at the place bring in the items behind their first part.
  let opened := entries.foldl (fun items (phrase, item) =>
    match place.ahead[phrase]?.getD 0 with
    | 0 => items
    | follow => (item, follow) :: items) begun
  mergeKernel (opened.mergeSort fun left right => left.1 ≤ right.1)

/-! ## Which of two readings binds tighter -/

private def isAt (level : Level) (phrases : List Nat) : Level ⊕ Nat → Bool
  | .inl entry => entry == level
  | .inr phrase => phrases.contains phrase

/-- Compares by one order: the side that is met first binds tighter, if the other one is met too. -/
private def compareBy (left right : Level × List Nat) : Bool → Bool → List (Level ⊕ Nat) → Ordering
  | _, _, [] => .eq
  | leftSeen, rightSeen, entry :: rest =>
    if isAt left.1 left.2 entry then
      if rightSeen then .lt else compareBy left right true rightSeen rest
    else if isAt right.1 right.2 entry then
      if leftSeen then .gt else compareBy left right leftSeen true rest
    else compareBy left right leftSeen rightSeen rest

private def compareByOrders (left right : Level × List Nat) (orders : List (List (Level ⊕ Nat))) : Ordering :=
  orders.foldl (fun found order =>
    match found with
    | .eq => compareBy left right false false order
    | found => found) .eq

private def compareLevels (language : Language) (left right : Level × List Nat) : Ordering :=
  let byOrders := compareByOrders left right language.orders
  match left.1, right.1 with
  | .number first, .number second => if first ≠ 0 || second ≠ 0 then compare first second else byOrders
  | .number first, .unset => if first ≠ 0 then compare first 0 else byOrders
  | .unset, .number second => if second ≠ 0 then compare 0 second else byOrders
  | _, _ => byOrders

/-! ## Actions -/

/-- The finished phrases that are still considered, and how they bind. -/
private structure Finished where
  actions : List Action := []
  level : Level := .unset
  phrases : List Nat := []
  left : Bool := false
  right : Bool := false
  neither : Bool := false
  conflict : Bool := false

private def Finished.add (finished : Finished) (item : Item) (action : Action) : Finished :=
  { finished with
    actions := finished.actions ++ [action]
    level := item.level
    phrases :=
      if finished.phrases.contains item.phrase then finished.phrases else finished.phrases ++ [item.phrase]
    left := finished.left || item.side == some .left
    right := finished.right || item.side == some .right
    neither := finished.neither || item.side.isNone }

private def Finished.offer (language : Language) (finished : Finished) (item : Item) : Finished :=
  let action : Action :=
    if item.phrase = language.phrases.size then .accept
    else .reduce item.phrase item.dot item.weight item.production
  if finished.actions.isEmpty then finished.add item action
  else
    match language.compareLevels (item.level, [item.phrase]) (finished.level, finished.phrases) with
    | .gt => ({} : Finished).add item action
    | .eq => { finished.add item action with conflict := true }
    | .lt => finished

/-- Decides between reading the token and taking a finished phrase by their levels, then by their sides;
both stay where neither decides. -/
private def settle (language : Language) (finished : Finished) (begun : List Item) (involved : List Nat)
    (target : Nat) : List Action :=
  let both (repeats : Bool) := finished.actions ++ [.shift target repeats]
  let repeating := match involved with
    | [] => false
    | phrase :: rest => (language.phrases[phrase]?.map Phrase.helper).getD false && rest.all (· = phrase)
  if repeating then both true
  else
    let orderings := begun.map fun item =>
      language.compareLevels (item.level, [item.phrase]) (finished.level, finished.phrases)
    let tighter := orderings.contains .gt
    let looser := orderings.contains .lt
    -- Only where the levels agree do the sides decide.
    if tighter && !looser then [.shift target false]
    else if looser && !tighter then finished.actions
    else if !tighter && !looser && finished.left && !finished.neither && !finished.right then finished.actions
    else if !tighter && !looser && !finished.left && !finished.neither && finished.right then
      [.shift target false]
    else both false

/-- The finished items that a token may follow, in their order. -/
private def completeAt (language : Language) (place : Place) (token : Nat) : List Item :=
  let complete := place.kernel.filterMap fun (id, follow) =>
    let item := language.items[id]!
    if item.next.isNone && follow.testBit token then some item else none
  let sorted := complete.mergeSort fun left right => left.rank ≤ right.rank
  match language.emptyProgram with
  | some id => if (place.ahead[0]?.getD 0).testBit token then language.items[id]! :: sorted else sorted
  | none => sorted

private def actionsWith (language : Language) (place : Place) (token : Nat) (target : Option Nat) : List Action :=
  let complete := language.completeAt place token
  let finished := complete.foldl (Finished.offer language) {}
  let decided := match target with
    | none => finished.actions
    | some target =>
      if finished.actions.isEmpty then [.shift target false]
      else
        let begun := place.kernel.filterMap fun (id, _) =>
          let item := language.items[id]!
          match item.next with
          | some symbol => if item.dot > 0 && (language.firstOf symbol).testBit token then some item else none
          | none => none
        let involved := ((begun ++ complete).map Item.phrase).filter (· < language.phrases.size)
        language.settle finished begun involved target
  if decided.isEmpty && language.extras.testBit token then [.extra] else decided

end Language

namespace Automaton

/-- The place of a reader that has lost its way: every token that it looks for is skipped. -/
def lostPlace : Nat := 0

/-- The place before a program. -/
def startPlace : Nat := 1

def ofLanguage (language : Language) : Automaton :=
  let start := [(language.start, Language.bit Language.endToken)]
  { language
    places := #[{ kernel := [], ahead := #[], expected := language.sought }, language.placeOf start]
    known := ({} : HashMap (List (Nat × Nat)) Nat).insert start startPlace
    actionTable := {}
    placeTable := {} }

instance : Inhabited Automaton := ⟨{
  language := {
    terminals := #[], phrases := #[], productions := #[], items := #[], start := 0, emptyProgram := none
    first := #[], openers := #[], corners := #[], byToken := #[], byPhrase := #[], orders := [], extras := 0
    sought := 0, keywords := {}, layout := {}, typeAware := false, orMark := 0, escapeMark := 0
    patternMark := 0 }
  places := #[], known := {}, actionTable := {}, placeTable := {} }⟩

/-- The tokens with an action at a place. -/
def expected (automaton : Automaton) (place : Nat) : Nat := (automaton.places[place]?.map Place.expected).getD 0

def expects (automaton : Automaton) (place token : Nat) : Bool := (automaton.expected place).testBit token

private def tableKey (language : Language) : Symbol → Nat
  | .token id => id
  | .phrase id => language.terminals.size + id

/-- The place that items of a place reach over a symbol, if some do. -/
private def reach (automaton : Automaton) (place : Nat) (symbol : Symbol) : Option Nat × Automaton :=
  let key := (place, tableKey automaton.language symbol)
  match automaton.placeTable[key]? with
  | some target => (if target = lostPlace then none else some target, automaton)
  | none =>
    match automaton.language.kernelAfter (automaton.places[place]?.getD default) symbol with
    -- No items lead to the lost place, so its number can stand for none.
    | [] => (none, { automaton with placeTable := automaton.placeTable.insert key lostPlace })
    | kernel =>
      match automaton.known[kernel]? with
      | some target => (some target, { automaton with placeTable := automaton.placeTable.insert key target })
      | none =>
        let target := automaton.places.size
        (some target, { automaton with
          places := automaton.places.push (automaton.language.placeOf kernel)
          known := automaton.known.insert kernel target
          placeTable := automaton.placeTable.insert key target })

/-- What to do with a token at a place. -/
def actions (automaton : Automaton) (place token : Nat) : List Action × Automaton :=
  if !automaton.expects place token then ([], automaton)
  else if place = lostPlace then ([.recover], automaton)
  else
    match automaton.actionTable[(place, token)]? with
    | some actions => (actions, automaton)
    | none =>
      let (target, automaton) := automaton.reach place (.token token)
      let actions :=
        automaton.language.actionsWith (automaton.places[place]?.getD default) token target
      (actions, { automaton with actionTable := automaton.actionTable.insert (place, token) actions })

/-- The place behind a phrase. -/
def afterPhrase (automaton : Automaton) (place phrase : Nat) : Nat × Automaton :=
  let (target, automaton) := automaton.reach place (.phrase phrase)
  (target.getD lostPlace, automaton)

/-- The place behind a token, the lost place if the token is not read here. -/
def afterToken (automaton : Automaton) (place token : Nat) : Nat × Automaton :=
  let (actions, automaton) := automaton.actions place token
  match actions.getLast? with
  | some (.shift target _) => (target, automaton)
  | some .extra => (place, automaton)
  | _ => (lostPlace, automaton)

/-- Whether a phrase that `next` may follow ends with `token`, read at a place. -/
def mayComplete (automaton : Automaton) (place token next : Nat) : Bool :=
  let language := automaton.language
  (language.kernelAfter (automaton.places[place]?.getD default) (.token token)).any fun (id, follow) =>
    (language.items[id]!).next.isNone && follow.testBit next

/-- What may be done at a place whatever token comes: whether some token is read, and the phrases to take. -/
def prospects (automaton : Automaton) (place : Nat) : Bool × List Action :=
  if place = lostPlace then (true, [])
  else
    let language := automaton.language
    let here := automaton.places[place]?.getD default
    (List.range language.terminals.size).foldl (fun found token =>
      if token = Language.endToken || !here.expected.testBit token then found
      else
        -- Whether the token is read is all that matters here, so any place stands for the one behind it.
        let target := match language.kernelAfter here (.token token) with
          | [] => none
          | _ => some startPlace
        gather found (language.actionsWith here token target)) (false, [])
where
  gather (found : Bool × List Action) (actions : List Action) : Bool × List Action :=
    actions.foldl (fun (reads, phrases) action => addProspect reads phrases action) found
  addProspect (reads : Bool) (phrases : List Action) : Action → Bool × List Action
    | .shift _ repeats => (reads || !repeats, phrases)
    | .recover => (true, phrases)
    | .reduce phrase count weight production =>
      if count = 0 || phrases.any (isSame phrase count) then (reads, phrases)
      else (reads, phrases ++ [.reduce phrase count weight production])
    | _ => (reads, phrases)
  isSame (phrase count : Nat) : Action → Bool
    | .reduce known size _ _ => known == phrase && size == count
    | _ => false

/-- What may be done at a place when `token` comes. -/
def prospectsOf (automaton : Automaton) (place token : Nat) : (Bool × List Action) × Automaton :=
  let (actions, automaton) := automaton.actions place token
  (prospects.gather (false, []) actions, automaton)

end Automaton

end EnvAudit.Script
