import EnvAudit.Script.Recovery
import EnvAudit.Script.Scanner
import EnvAudit.Script.LineLayout

/-!
# Reading a text

Reads a whole text of one language into a tree. Where the language leaves a choice, all readings are followed
until one is left or the better one is known; where the text does not fit, the tree has a flaw.
-/
namespace EnvAudit.Script

namespace Stack

/-! ## The next token -/

private def wishOf (language : Language) (expected : Nat) : LineLayout.Wish where
  layout kind := ((language.layout[kind]?).map expected.testBit).getD false
  operator := expected.testBit language.orMark
  escape := expected.testBit language.escapeMark
  pattern := expected.testBit language.patternMark
  typeAware := language.typeAware

/-- A token that the layout decides; one without text is only taken where it leads on. -/
private def layoutToken (id place expected position : Nat) (lost : Bool) : Parse (Option (Nat × Nat × Nat)) := do
  let language ← language
  match LineLayout.scan (← source) (wishOf language expected) position with
  | none => return none
  | some mark =>
    let token := (language.layout[mark.kind]?).getD Language.endToken
    if mark.stop ≤ position then
      if lost || !(← hasAdvanced id) || (← afterToken place token) = place then return none
    return some (token, mark.start, mark.stop)

/-- A name that is a keyword is read as one where the keyword is expected. -/
private def named (language : Language) (source : Source) (expected token before start stop : Nat) : Subtree :=
  let longest := 40
  let keyword :=
    if token = Language.nameToken && stop - start ≤ longest then language.keywords[source.slice start stop]?
    else none
  match keyword with
  | some word =>
    if expected.testBit word then
      (Subtree.leaf language word before start stop).mapHead fun head => { head with keyword := true }
    else Subtree.leaf language token before start stop
  | none => Subtree.leaf language token before start stop

/-- The next token on a branch. Where none of the expected tokens is found, any token is taken, and text that is
none is passed over. -/
private def nextToken (id : Nat) : Parse Subtree := do
  let language ← language
  let source ← source
  let top ← topOf id
  let place := top.place
  let before := top.position
  let here := (← get).automaton.expected place
  let mut expected := here
  let mut lost := place == Automaton.lostPlace
  let mut skipped : Option (Nat × Nat) := none
  let mut position := before
  for _ in [0:source.size + 3] do
    match ← layoutToken id place expected position lost with
    | some (token, start, stop) =>
      if skipped.isNone then return Subtree.leaf language token before start stop
      break
    | none =>
      match Scanner.scan language source expected position with
      | .found token start stop =>
        if skipped.isNone then return named language source here token before start stop
        break
      | .lost start stop =>
        -- At first any token of the language is accepted at the same position, and only then text is passed over.
        if !lost then
          lost := true
          expected := (← get).automaton.expected Automaton.lostPlace
          position := before
        else
          let (first, reached) := skipped.getD (start, start)
          if stop = reached && stop ≥ source.size then
            skipped := some (first, reached)
            break
          position := if stop = reached then stop + 1 else stop
          skipped := some (first, position)
  let (start, stop) := skipped.getD (before, before)
  return Subtree.unreadable before start stop

/-! ## Reading on -/

private def actionsFor (place : Nat) (token : Subtree) : Parse (List Action) := do
  match token.token? with
  | some name => actions place name
  | none => return if place = Automaton.lostPlace then [.recover] else []

/-- What came of the actions for a token: the token was dealt with, or phrases were taken and led to a branch. -/
private inductive Progress where
  | done
  | taken (branch : Option Nat)
  | nothing

private def act (id place : Nat) (token : Subtree) (list : List Action) : Parse Progress := do
  let mut taken := false
  let mut last : Option Nat := none
  for action in list do
    match action with
    | .shift target repeats =>
      unless repeats do
        push id (some (token.mapHead fun head => { head with extra := false })) target
        return .done
    | .extra =>
      push id (some (token.mapHead fun head => { head with extra := true })) place
      return .done
    | .reduce phrase count weight production =>
      let made ← reduce id phrase count weight production
      taken := true
      last := made.or last
    | .accept =>
      accept id token
      return .done
    | .recover =>
      recover id token
      return .done
  return if taken then .taken last else .nothing

/-- Reads the next token of a branch, after the phrases that end before it. -/
private def advance (id : Nat) : Parse Unit := do
  let mut token ← nextToken id
  let mut place := (← topOf id).place
  let mut list ← actionsFor place token
  for _ in [0:64 * ((← source).size + 64)] do
    match ← act id place token list with
    | .done => return
    | .taken (some branch) =>
      replaceBranch branch id
      place := (← topOf id).place
      list ← actionsFor place token
    | .taken none =>
      halt id
      return
    | .nothing =>
      -- A keyword with nothing to do here may still be a plain name.
      let fallback ← if token.head.keyword && token.token? ≠ some Language.nameToken then
          actions place Language.nameToken
        else pure []
      if fallback.isEmpty then
        let branch ← branchAt id
        setBranch id { branch with status := .paused token, flawCount := (← jointAt branch.joint).count }
        return
      let shown := (← language).isVisible (.token Language.nameToken)
      token := token.mapHead fun head => { head with
        reading := .symbol (.token Language.nameToken)
        visible := shown }
      list := fallback

private def isRunning (id : Nat) : Parse Bool := do
  return match ((← get).branches[id]?).map Branch.status with
    | some .active => true
    | _ => false

/-- Reads on every branch until it is ahead of those before it. Returns the position reached. -/
private def advanceAll (reached : Nat) : Parse Nat := do
  let fuel := 64 * ((← source).size + 64)
  let mut reached := reached
  let mut id := 0
  for _ in [0:fuel] do
    if id ≥ (← branchCount) then break
    if ← isRunning id then
      advance id
      let position ← if id < (← branchCount) then pure (← topOf id).position else pure 0
      -- A branch is left once it is ahead, or level with one before it.
      if position > reached || (id > 0 && position = reached) then
        reached := position
        id := id + 1
    else id := id + 1
  return reached

/-- Reads the whole text. -/
private def run : Parse Unit := do
  let fuel := 64 * ((← source).size + 64)
  let mut reached := 0
  for _ in [0:fuel] do
    reached ← advanceAll reached
    let before ← branchCount
    let least ← condense
    if let some tree := (← get).finished then
      match least with
      | some cost => if tree.head.cost < cost then break
      | none => break
    if before = 0 || (← branchCount) = 0 then break

end Stack

/-- The tree of a text. A text that cannot be read at all is one flaw. -/
def Language.parse (language : Language) (text : String) : Tree :=
  let source := Source.ofString text
  let reader : Reader := {
    source, automaton := Automaton.ofLanguage language
    joints := #[{ place := Automaton.startPlace, links := [], position := 0, cost := 0, weight := 0, count := 0 }]
    branches := #[{ joint := 0 }], finished := none, accepted := 0 }
  let (_, final) := Stack.run.run reader
  match final.finished with
  | some tree => tree.toTree language source
  | none => Tree.ofParts { kind := Tree.flawKind, stop := text.utf8ByteSize } []

end EnvAudit.Script
