import EnvAudit.Script.Subtree

/-!
# Branching stacks

A reader that cannot decide yet keeps several stacks, which share what they have in common. A stack is a
branch; it ends in a joint, and a joint has a link for every way that leads back from it.
-/
namespace EnvAudit.Script

structure Link where
  joint : Nat
  /-- What was read between the two joints; none where a flaw begins. -/
  tree : Option Subtree
  deriving Inhabited

structure Joint where
  place : Nat
  links : List Link
  /-- The characters read. -/
  position : Nat
  cost : Nat
  weight : Int
  /-- How much was read, in nodes. -/
  count : Nat
  deriving Inhabited

/-- A place behind which a flaw may end. -/
structure Landmark where
  position : Nat
  depth : Nat
  place : Nat

inductive Status where
  | active
  /-- No token is expected; the reader waits whether another branch goes on. -/
  | paused (token : Subtree)
  | halted

structure Branch where
  joint : Nat
  /-- The nodes read when the last flaw began. -/
  flawCount : Nat := 0
  status : Status := .active
  landmarks : List Landmark := []

instance : Inhabited Branch := ⟨{ joint := 0 }⟩

/-- A way back from the end of a branch: what was read on it, and the branch that ends where it leads. -/
structure Slice where
  trees : List Subtree
  branch : Nat
  deriving Inhabited

structure Reader where
  source : Source
  automaton : Automaton
  joints : Array Joint
  branches : Array Branch
  /-- The best reading of the whole text so far. -/
  finished : Option Subtree
  /-- How many readings of the whole text were found. -/
  accepted : Nat
  deriving Inhabited

abbrev Parse := StateM Reader

namespace Stack

/-- The most branches that are kept, and those that a step may add for a while. -/
def mostBranches : Nat := 6

def mostExtraBranches : Nat := 4

private def mostLinks : Nat := 8

private def mostWalkers : Nat := 64

private def mostDepth : Nat := 16

def jointAt (id : Nat) : Parse Joint := return (← get).joints[id]?.getD default

def setJoint (id : Nat) (joint : Joint) : Parse Unit :=
  modify fun reader => { reader with joints := reader.joints.setIfInBounds id joint }

def addJoint (joint : Joint) : Parse Nat :=
  modifyGet fun reader => (reader.joints.size, { reader with joints := reader.joints.push joint })

def branchCount : Parse Nat := return (← get).branches.size

def branchAt (id : Nat) : Parse Branch := return (← get).branches[id]?.getD default

def setBranch (id : Nat) (branch : Branch) : Parse Unit :=
  modify fun reader => { reader with branches := reader.branches.setIfInBounds id branch }

def addBranch (branch : Branch) : Parse Nat :=
  modifyGet fun reader => (reader.branches.size, { reader with branches := reader.branches.push branch })

def removeBranch (id : Nat) : Parse Unit :=
  modify fun reader => { reader with branches := reader.branches.eraseIdxIfInBounds id }

def halt (id : Nat) : Parse Unit := do setBranch id { ← branchAt id with status := .halted }

/-- The joint at the end of a branch. -/
def topOf (id : Nat) : Parse Joint := do jointAt (← branchAt id).joint

def language : Parse Language := return (← get).automaton.language

def source : Parse Source := return (← get).source

def actions (place token : Nat) : Parse (List Action) :=
  modifyGet fun reader =>
    -- The automaton grows while it is asked; it is taken out of the reader so that its tables are not copied.
    let automaton := reader.automaton
    let reader := { reader with automaton := default }
    let (actions, automaton) := automaton.actions place token
    (actions, { reader with automaton })

def afterPhrase (place phrase : Nat) : Parse Nat :=
  modifyGet fun reader =>
    let automaton := reader.automaton
    let reader := { reader with automaton := default }
    let (target, automaton) := automaton.afterPhrase place phrase
    (target, { reader with automaton })

def afterToken (place token : Nat) : Parse Nat :=
  modifyGet fun reader =>
    let automaton := reader.automaton
    let reader := { reader with automaton := default }
    let (target, automaton) := automaton.afterToken place token
    (target, { reader with automaton })

/-- What may be done at a place when `token` comes, or whatever comes. -/
def prospects (place : Nat) (token : Option Nat) : Parse (Bool × List Action) :=
  match token with
  | none => return (← get).automaton.prospects place
  | some token =>
    modifyGet fun reader =>
      let automaton := reader.automaton
      let reader := { reader with automaton := default }
      let (found, automaton) := automaton.prospectsOf place token
      (found, { reader with automaton })

/-- Puts a tree on a branch; without a tree a flaw begins. -/
def push (id : Nat) (tree : Option Subtree) (place : Nat) : Parse Unit := do
  let branch ← branchAt id
  let below ← jointAt branch.joint
  let links := [{ joint := branch.joint, tree }]
  match tree with
  | none =>
    let joint ← addJoint { below with place, links }
    setBranch id { branch with joint, flawCount := below.count }
  | some tree =>
    let joint ← addJoint {
      place, links
      position := tree.head.stop
      cost := below.cost + tree.head.cost
      weight := below.weight + tree.head.weight
      count := below.count + tree.count }
    setBranch id { branch with joint }

def pushAll (id : Nat) (trees : List Subtree) (place : Nat) : Parse Unit := do
  for tree in trees do push id (some tree) place

private def isFlawStart (joint : Joint) : Bool :=
  joint.place == Automaton.lostPlace &&
    match joint.links with
    | link :: _ => link.tree.isNone
    | [] => false

/-- The cost of the flaws on a branch. -/
def costOf (id : Nat) : Parse Nat := do
  let top ← topOf id
  let open_ := match (← branchAt id).status with
    | .paused _ => true
    | _ => isFlawStart top
  return top.cost + if open_ then costs.perFlaw else 0

/-- The nodes read since the last flaw began. -/
def countSinceFlaw (id : Nat) : Parse Nat := do
  let branch ← branchAt id
  let top ← jointAt branch.joint
  if top.count < branch.flawCount then setBranch id { branch with flawCount := top.count }
  return top.count - branch.flawCount

/-- Whether anything was read since the last flaw. -/
def hasAdvanced (id : Nat) : Parse Bool := do
  let branch ← branchAt id
  let joints := (← get).joints
  let mut joint := joints[branch.joint]?.getD default
  if joint.cost = 0 then return true
  -- Only the first way back counts; each round goes over one of its links.
  for _ in [0:joints.size] do
    match joint.links with
    | { joint := below, tree := some tree } :: _ =>
      if tree.head.stop > tree.head.before then return true
      else if joint.count > branch.flawCount && tree.head.cost = 0 then
        joint := joints[below]?.getD default
      else return false
    | _ => return false
  return false

/-! ## Joining branches -/

private def isLike : Option Subtree → Option Subtree → Bool
  | some left, some right => left.isLike right
  | none, none => true
  | _, _ => false

private def weightOf (tree : Option Subtree) : Int := (tree.map fun tree => tree.head.weight).getD 0

private def meet (left right : Joint) : Bool :=
  left.place == right.place && left.position == right.position && left.cost == right.cost

/-- Adds a way back to a joint; ways over like trees become one. -/
def addLink : Nat → Nat → Link → Parse Unit
  | 0, _, _ => return
  | fuel + 1, id, link => do
    if link.joint = id then return
    let joint ← jointAt id
    let target ← jointAt link.joint
    let weight := target.weight + weightOf link.tree
    let mut index := 0
    for known in joint.links do
      if isLike known.tree link.tree then
        if known.joint = link.joint then
          if weightOf link.tree > weightOf known.tree then
            setJoint id { joint with links := joint.links.set index link, weight }
          return
        -- The same tree leads back to two joints that are alike, so the ways behind them are joined instead.
        if meet (← jointAt known.joint) target then
          for further in target.links do addLink fuel known.joint further
          let joint ← jointAt id
          if weight > joint.weight then setJoint id { joint with weight }
          return
      index := index + 1
    if joint.links.length < mostLinks then
      let count := target.count + (link.tree.map Subtree.count).getD 0
      setJoint id { joint with
        links := joint.links ++ [link]
        count := max joint.count count
        weight := max joint.weight weight }

private def isActive (branch : Branch) : Bool :=
  match branch.status with
  | .active => true
  | _ => false

/-- Two branches may become one when they wait at one place for the same flaws. -/
def canMerge (left right : Nat) : Parse Bool := do
  let first ← branchAt left
  let second ← branchAt right
  return isActive first && isActive second && meet (← jointAt first.joint) (← jointAt second.joint)

/-- Joins the second branch to the first one, if they can be one. -/
def merge (left right : Nat) : Parse Bool := do
  if !(← canMerge left right) then return false
  let first ← branchAt left
  let second ← topOf right
  let fuel := (← get).joints.size + 1
  for link in second.links do addLink fuel first.joint link
  let top ← jointAt first.joint
  if top.place = Automaton.lostPlace then setBranch left { first with flawCount := top.count }
  removeBranch right
  return true

/-- Puts one branch in the place of another. -/
def replaceBranch (source target : Nat) : Parse Unit := do
  if source = target then return
  let branch ← branchAt source
  let old ← branchAt target
  let landmarks := if branch.landmarks.isEmpty then old.landmarks else branch.landmarks
  setBranch target { branch with landmarks }
  removeBranch source

def copyBranch (id : Nat) : Parse Nat := do addBranch { ← branchAt id with landmarks := [] }

/-! ## Ways back -/

/-- A walk back from the end of a branch. -/
structure Walker where
  joint : Nat
  trees : List Subtree
  /-- The trees on the way, extra ones apart. -/
  depth : Nat

private def Walker.along (walker : Walker) (link : Link) : Walker :=
  match link.tree with
  | none => { walker with joint := link.joint, depth := walker.depth + 1 }
  | some tree =>
    { joint := link.joint, trees := tree :: walker.trees
      depth := if tree.isExtra then walker.depth else walker.depth + 1 }

private def addSlice (slices : Array Slice) (origin : Nat) (walker : Walker) : Parse (Array Slice) := do
  let branches := (← get).branches
  let ends (slice : Slice) : Bool := (branches[slice.branch]?.map Branch.joint) == some walker.joint
  -- Ways that end at one joint stand together, the latest one last.
  match slices.toList.reverse.findIdx? ends with
  | some fromEnd =>
    let index := slices.size - 1 - fromEnd
    let branch := (slices[index]?.getD default).branch
    return (slices.toList.insertIdx (index + 1) { trees := walker.trees, branch }).toArray
  | none =>
    let branch ← addBranch { joint := walker.joint, flawCount := (← branchAt origin).flawCount }
    return slices.push { trees := walker.trees, branch }

/-- What to do at a joint on a way back. -/
structure Verdict where
  take : Bool := false
  stop : Bool := false

/-- Follows all ways back from the end of a branch, all of them one link at a time. -/
def walk {Memory : Type} (id : Nat) (start : Memory) (decide : Memory → Joint → Walker → Memory × Verdict) :
    Parse (List Slice × Memory) := do
  let mut slices : Array Slice := #[]
  let mut memory := start
  let mut walkers : List Walker := [{ joint := (← branchAt id).joint, trees := [], depth := 0 }]
  let most := (← get).joints.size + 1
  for _ in [0:most] do
    if walkers.isEmpty then break
    let mut kept : Array Walker := #[]
    let mut added : Array Walker := #[]
    let mut alive := walkers.length
    for walker in walkers do
      let joint ← jointAt walker.joint
      let (next, verdict) := decide memory joint walker
      memory := next
      if verdict.take then slices ← addSlice slices id walker
      match joint.links with
      | link :: others =>
        if verdict.stop then alive := alive - 1
        else
          -- The walker goes on over the first link, and copies of it over the others.
          for other in others do
            if alive + added.size < mostWalkers then added := added.push (walker.along other)
          kept := kept.push (walker.along link)
      | [] => alive := alive - 1
    walkers := kept.toList ++ added.toList
  return (slices.toList, memory)

/-- The ways over the last `count` trees. -/
def pop (id count : Nat) : Parse (List Slice) := do
  let (slices, _) ← walk id () fun _ _ walker =>
    ((), { take := walker.depth == count, stop := walker.depth == count })
  return slices

/-- The ways back to the beginning. -/
def popAll (id : Nat) : Parse (List Slice) := do
  let (slices, _) ← walk id () fun _ joint _ => ((), { take := joint.links.isEmpty })
  return slices

/-- Takes a flaw off the end of a branch. -/
def popFlaw (id : Nat) : Parse (List Subtree) := do
  let top ← topOf id
  if top.links.any fun link => (link.tree.map Subtree.isFlaw).getD false then
    let (slices, _) ← walk id false fun found _ walker =>
      match walker.trees with
      | [] => (found, {})
      | tree :: _ => if !found && tree.isFlaw then (true, { take := true, stop := true }) else (found, { stop := true })
    match slices with
    | [] => return []
    | slice :: _ =>
      replaceBranch slice.branch id
      return slice.trees
  else return []

private def isKnown (landmarks : List Landmark) (depth place : Nat) : Bool :=
  (landmarks.takeWhile fun mark => mark.depth ≥ depth).any fun mark => mark.depth == depth && mark.place == place

/-- Notes the places on the last stretch of a branch. -/
def noteLandmarks (id : Nat) : Parse Unit := do
  let (_, landmarks) ← walk id ([] : List Landmark) fun landmarks joint walker =>
    if walker.depth > mostDepth then (landmarks, { stop := true })
    else if isKnown landmarks walker.depth joint.place then (landmarks, {})
    else ({ position := joint.position, depth := walker.depth, place := joint.place } :: landmarks, {})
  setBranch id { ← branchAt id with landmarks := landmarks.reverse }

end Stack

end EnvAudit.Script
