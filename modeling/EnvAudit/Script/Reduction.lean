import EnvAudit.Script.Stack

/-!
# Taking finished phrases

A branch whose last parts make a phrase is led back over them and forward over the phrase. Branches that meet
again become one.
-/
namespace EnvAudit.Script.Stack

/-- The branches that one phrase leads to, each with the readings of its parts. -/
private def byBranch (slices : List Slice) : List (List Slice) :=
  slices.splitBy fun left right => left.branch == right.branch

/-- Takes the last `count` trees of a branch as a phrase. Returns the first branch that came of it. -/
def reduce (id phrase count : Nat) (weight : Int) (production : Nat) : Parse (Option Nat) := do
  let initial ← branchCount
  let slices ← pop id count
  let language ← language
  let source ← source
  let mut removed := 0
  for group in byBranch slices do
    if let slice :: others := group then
      -- Branches that were removed meanwhile have moved those behind them.
      let branch := slice.branch - removed
      if branch > mostBranches + mostExtraBranches then
        removeBranch branch
        removed := removed + 1
      else
        let base ← topOf branch
        let read (trees : List Subtree) : Subtree × List Subtree :=
          let (parts, extras) := Subtree.splitExtras trees
          (Subtree.ofParts language source (.symbol (.phrase phrase)) parts (some production)
            base.position false, extras)
        -- Of several readings of the same text the best one is kept.
        let (tree, extras) := others.foldl (fun best other =>
          let next := read other.trees
          if Subtree.isWorse language best.1 next.1 then next else best) (read slice.trees)
        let target ← afterPhrase base.place phrase
        push branch (some (tree.mapHead fun head => { head with weight := head.weight + weight })) target
        pushAll branch extras target
        for known in [0:branch] do
          if known ≠ id then
            if ← merge known branch then
              removed := removed + 1
              break
  return if (← branchCount) > initial then some initial else none

private def mostRounds : Nat := 256

/-- Takes all phrases that `token` may follow, or any token if none is given, until a token can be read.
Tells whether one can. -/
def reduceAll (start : Nat) (token : Option Nat) : Parse Bool := do
  let initial ← branchCount
  let mut able := false
  let mut current := start
  for round in [0:mostRounds] do
    let total ← branchCount
    if current ≥ total then break
    let mut merged := false
    for known in [initial:current] do
      if ← merge known current then
        merged := true
        break
    -- The branch that took its place has the same number.
    if merged then continue
    let (reads, phrases) ← prospects (← topOf current).place token
    let mut made : Option Nat := none
    for action in phrases do
      if let .reduce phrase count weight production := action then
        made ← reduce current phrase count weight production
    if reads then able := true
    else
      match made with
      | some branch =>
        if round < mostBranches then
          replaceBranch branch current
          continue
        else if token.isSome then removeBranch current
      | none => if token.isSome then removeBranch current
    current := if current = start then total else current + 1
  return able

/-- The whole text as one tree: its last phrase takes in what stands around it. -/
private def wholeOf (language : Language) (source : Source) (trees : List Subtree) : Option Subtree :=
  let reversed := trees.reverse
  let behind := (reversed.takeWhile Subtree.isExtra).reverse
  match reversed.dropWhile Subtree.isExtra with
  | [] => none
  | tree :: before =>
    some (Subtree.ofParts language source tree.head.reading (before.reverse ++ tree.parts ++ behind)
      tree.head.production 0 false)

private def better (language : Language) : Option Subtree → Option Subtree → Option Subtree
  | some known, some found => some (if Subtree.isWorse language known found then found else known)
  | known, found => known.or found

/-- Ends a branch with the end of the text. -/
def accept (id : Nat) (token : Subtree) : Parse Unit := do
  push id (some token) Automaton.startPlace
  let slices ← popAll id
  for slice in slices do
    modify fun reader => { reader with
      accepted := reader.accepted + 1
      finished :=
        better reader.automaton.language reader.finished
          (wholeOf reader.automaton.language reader.source slice.trees) }
  if let slice :: _ := slices then removeBranch slice.branch
  halt id

end EnvAudit.Script.Stack
