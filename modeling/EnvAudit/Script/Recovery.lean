import EnvAudit.Script.Reduction

/-!
# Flaws

What a reader does where no token is expected: it tries to put one in, to end the flaw at an earlier place,
and to skip the token. Of the branches that come of it the cheapest are kept.
-/
namespace EnvAudit.Script.Stack

/-! ## Comparing branches -/

private structure Standing where
  cost : Nat
  count : Nat
  weight : Int
  lost : Bool

private inductive Preference where
  | takeLeft
  | preferLeft
  | neither
  | preferRight
  | takeRight
  deriving DecidableEq

/-- A branch is given up when another one is so much cheaper, for what it has read since. -/
private def mostDifference : Nat := 16 * costs.perSkippedTree

private def compareStandings (left right : Standing) : Preference :=
  if !left.lost && right.lost then (if left.cost < right.cost then .takeLeft else .preferLeft)
  else if left.lost && !right.lost then (if right.cost < left.cost then .takeRight else .preferRight)
  else if left.cost < right.cost then
    (if (right.cost - left.cost) * (1 + left.count) > mostDifference then .takeLeft else .preferLeft)
  else if right.cost < left.cost then
    (if (left.cost - right.cost) * (1 + right.count) > mostDifference then .takeRight else .preferRight)
  else if left.weight > right.weight then .preferLeft
  else if right.weight > left.weight then .preferRight
  else .neither

private def isPaused (branch : Branch) : Bool :=
  match branch.status with
  | .paused _ => true
  | _ => false

private def isHalted (branch : Branch) : Bool :=
  match branch.status with
  | .halted => true
  | _ => false

private def stillRuns (branch : Branch) : Bool :=
  match branch.status with
  | .active => true
  | _ => false

private def standingOf (id : Nat) : Parse Standing := do
  let branch ← branchAt id
  let paused := isPaused branch
  let top ← jointAt branch.joint
  return {
    cost := (← costOf id) + if paused then costs.perSkippedTree else 0
    count := ← countSinceFlaw id
    weight := top.weight
    lost := paused || top.place == Automaton.lostPlace }

/-- Whether another branch is better than this one would be at a cost. -/
private def isBeaten (id cost : Nat) : Parse Bool := do
  if let some tree := (← get).finished then
    if tree.head.cost ≤ cost then return true
  let top ← topOf id
  let own : Standing := { cost, lost := false, weight := top.weight, count := ← countSinceFlaw id }
  for other in [0:(← branchCount)] do
    let branch ← branchAt other
    if other ≠ id && stillRuns branch && (← jointAt branch.joint).position ≥ top.position then
      match compareStandings own (← standingOf other) with
      | .takeRight => return true
      | .preferRight => if ← canMerge other id then return true
      | _ => pure ()
  return false

/-! ## Ending and extending flaws -/

/-- Leads a branch back over `depth` trees, which become a flaw, if it is then at `goal`. -/
private def endFlawAt (id depth goal : Nat) : Parse Bool := do
  let slices ← pop id depth
  let mut previous : Option Nat := none
  for slice in slices do
    if previous ≠ some slice.branch then
      if (← topOf slice.branch).place ≠ goal then halt slice.branch
      else
        let flaw ← popFlaw slice.branch
        let earlier := (flaw.head?.map Subtree.parts).getD []
        let (parts, extras) := Subtree.splitExtras (earlier ++ slice.trees)
        unless parts.isEmpty do
          push slice.branch
            (some (Subtree.ofParts (← language) (← source) .flaw parts none 0 true)) goal
        pushAll slice.branch extras goal
        previous := some slice.branch
  return previous.isSome

/-- Ends the flaw at the nearest earlier place where the token is expected. -/
private def endFlaw (id : Nat) (token : Nat) : Parse Bool := do
  let total ← branchCount
  let top ← topOf id
  let count ← countSinceFlaw id
  let cost ← costOf id
  for mark in (← branchAt id).landmarks do
    if mark.place ≠ Automaton.lostPlace && mark.position ≠ top.position then
      let depth := if count > 0 then mark.depth + 1 else mark.depth
      let mut taken := false
      for other in [0:total] do
        let joint ← topOf other
        if joint.place == mark.place && joint.position == top.position then taken := true
      -- Where another branch stands already, ending the flaw gives nothing new.
      unless taken do
        if ← isBeaten id (cost + (← source).costBetween mark.position top.position) then return false
        if (← get).automaton.expects mark.place token then
          if ← endFlawAt id depth mark.place then return true
  return false

private def removeIdle (first : Nat) : Parse Unit := do
  let mut index := first
  for _ in [first:(← branchCount)] do
    if stillRuns (← branchAt index) then index := index + 1 else removeBranch index

/-- Adds a token to the flaw at the end of a branch. -/
private def skip (id : Nat) (token : Subtree) : Parse Unit := do
  let language ← language
  let source ← source
  let isExtra ← match token.token? with
    | some name => do
      match (← actions Automaton.startPlace name).getLast? with
      | some .extra => pure true
      | _ => pure false
    | none => pure false
  let token := if isExtra then token.mapHead fun head => { head with extra := true } else token
  let gather (parts : List Subtree) : Subtree :=
    Subtree.ofParts language source .skipped parts none 0 false
  let skipped := gather [token]
  if (← countSinceFlaw id) > 0 then
    match ← pop id 1 with
    | [] => push id (some skipped) Automaton.lostPlace
    | slice :: _ =>
      -- The tokens skipped so far and this one become one part, on the first of the ways back.
      for _ in [slice.branch + 1:(← branchCount)] do removeBranch (slice.branch + 1)
      replaceBranch slice.branch id
      push id (some (gather (slice.trees ++ [skipped]))) Automaton.lostPlace
  else push id (some skipped) Automaton.lostPlace

/-- Goes on from a flaw with the next token. -/
def recover (id : Nat) (token : Subtree) : Parse Unit := do
  let total ← branchCount
  let cost ← costOf id
  let position := (← topOf id).position
  let ended ← match token.token? with
    | some name => endFlaw id name
    | none => pure false
  removeIdle total
  -- The end of the text cannot be skipped, so what was read so far becomes the whole.
  if token.token? == some Language.endToken then
    push id (some (Subtree.unreadable position position position)) Automaton.startPlace
    accept id token
  else if ended && (← branchCount) > mostBranches then halt id
  else
    let more := costs.perSkippedTree + (← source).costBetween token.head.before token.head.stop
    if ← isBeaten id (cost + more) then halt id else skip id token

/-- Tries all tokens before the one that is not expected; the first one behind which the reader can go on is put
in. -/
private def insertMissing (id : Nat) (next : Nat) : Parse Bool := do
  let place := (← topOf id).place
  let position := (← topOf id).position
  let language ← language
  for token in [1:language.terminals.size] do
    if (← get).automaton.expects place token && (← get).automaton.mayComplete place token next then
      let target ← afterToken place token
      if target ≠ Automaton.lostPlace && target ≠ place then
        if let .reduce .. :: _ := ← actions target next then
          let copy ← copyBranch id
          push copy (some (Subtree.missingLeaf language token position)) target
          if ← reduceAll copy (if next = Language.endToken then none else some next) then return true
  return false

/-- Begins a flaw before a token that is not expected. -/
def beginFlaw (id : Nat) (token : Subtree) : Parse Unit := do
  let first ← branchCount
  let _ ← reduceAll id none
  let total ← branchCount
  let mut inserted := false
  for branch in id :: (List.range (total - first)).map (· + first) do
    if !inserted then
      if let some next := token.token? then inserted ← insertMissing branch next
    push branch none Automaton.lostPlace
  -- All of these branches are lost now, and those that are alike become one.
  for _ in [first:total] do
    let _ ← merge id first
  noteLandmarks id
  recover id token

/-! ## Choosing branches -/

private def swapBranches (left right : Nat) : Parse Unit := do
  let first ← branchAt left
  let second ← branchAt right
  setBranch left second
  setBranch right first

/-- Compares a branch with those before it. Returns where the next one is. -/
private def compete (id : Nat) (own : Standing) : Parse Nat := do
  let mut index := id
  let mut other := 0
  for _ in [0:id] do
    if other < index then
      match compareStandings (← standingOf other) own with
      | .takeLeft =>
        removeBranch index
        return index
      | .takeRight =>
        removeBranch other
        index := index - 1
      | preference =>
        if ← merge other index then return index
        if preference = .preferRight then swapBranches index other
        other := other + 1
  return index + 1

private def mostSteps : Nat := 4096

private def dropWorse : Parse (Option Nat) := do
  let mut least : Option Nat := none
  let mut index := 0
  for _ in [0:mostSteps] do
    if index ≥ (← branchCount) then break
    if isHalted (← branchAt index) then removeBranch index
    else
      let own ← standingOf index
      unless own.lost do
        least := some (match least with
          | some cost => min cost own.cost
          | none => own.cost)
      index ← compete index own
  return least

/-- Keeps the best branches; the best one that is paused goes on if no other does. Returns the least cost of a
branch. -/
def condense : Parse (Option Nat) := do
  let mut least ← dropWorse
  modify fun reader => { reader with branches := reader.branches.take mostBranches }
  let mut running := false
  let mut index := 0
  for _ in [0:(← branchCount)] do
    let branch ← branchAt index
    match branch.status with
    | .paused token =>
      if !running && (← get).accepted < mostBranches then
        least := some (← costOf index)
        setBranch index { branch with status := .active }
        beginFlaw index token
        running := true
        index := index + 1
      else removeBranch index
    | _ =>
      running := true
      index := index + 1
  return least

end EnvAudit.Script.Stack
