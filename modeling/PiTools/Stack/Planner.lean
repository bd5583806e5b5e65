import Mathlib.Data.Int.Order.Basic
import PiTools.Library.Entries
import PiTools.Library.Outcome
import PiTools.Library.Routes
import PiTools.Library.Search

/-
This file defines how pull requests are divided into components and how one
linear stack is planned.
-/

namespace PiTools.Stack

open Library

structure StackPullRequest where
  number : Int
  headBranch : String
  baseBranch : String
  explicitParent : Option Int
  deriving DecidableEq, Repr

structure BaseUpdate where
  pullRequest : Int
  fromBranch : String
  toBranch : String
  deriving DecidableEq, Repr

structure StackPlan where
  mergeOrder : List Int
  requiredBaseUpdates : List BaseUpdate
  deriving DecidableEq, Repr

inductive StackError
  | emptyStack
  | duplicatePullRequest (number : Int)
  | missingParent (pullRequest parent : Int)
  | ambiguousParents (pullRequest : Int) (candidates : List Int)
  | conflictingParent (pullRequest explicitParent inferredParent : Int)
  | cycleDetected (cycle : List Int)
  | ambiguousOrder (pullRequests : List Int)
  deriving DecidableEq, Repr

/-- The pull requests by their numbers. -/
def byNumber (pullRequests : List StackPullRequest) : Entries Int StackPullRequest :=
  Entries.collect (pullRequests.map fun pullRequest => (pullRequest.number, pullRequest))

/-- The numbers of the pull requests with a head branch, in the order of the list. -/
def byHead (pullRequests : List StackPullRequest) (branch : String) : List Int :=
  (pullRequests.filter fun pullRequest => pullRequest.headBranch = branch).map
    StackPullRequest.number

/-! ### Partition -/

/-- The parent that the partition connects with a pull request. -/
def partitionParent (pullRequests : List StackPullRequest) (pullRequest : StackPullRequest) :
    Option Int :=
  let parents := byHead pullRequests pullRequest.baseBranch
  let inferred := if parents.length = 1 then parents.head? else none
  (pullRequest.explicitParent.or inferred).filter fun parent =>
    ((byNumber pullRequests).lookup parent).isSome

/-- The keys of a set are the entries of an ordered map without values. -/
abbrev NumberSet := Entries Int Unit

def NumberSet.numbers (set : NumberSet) : List Int := set.map Prod.fst

/-- Both ends of a connection learn of each other. -/
def connect (adjacency : Entries Int NumberSet) (first second : Int) : Entries Int NumberSet :=
  adjacency.insert first (((adjacency.lookup first).getD []).insert second ())

def connectParent (pullRequests : List StackPullRequest) (adjacency : Entries Int NumberSet)
    (pullRequest : StackPullRequest) : Entries Int NumberSet :=
  match partitionParent pullRequests pullRequest with
  | some parent => connect (connect adjacency pullRequest.number parent) parent pullRequest.number
  | none => adjacency

def adjacencyOf (pullRequests : List StackPullRequest) : Entries Int NumberSet :=
  pullRequests.foldl (connectParent pullRequests)
    ((byNumber pullRequests).map fun entry => (entry.1, []))

def neighborsOf (adjacency : Entries Int NumberSet) (number : Int) : List Int :=
  ((adjacency.lookup number).getD [] : NumberSet).numbers

/-- The components, unless a search exceeds the number of pull requests. -/
def partition (pullRequests : List StackPullRequest) : Option (List (List StackPullRequest)) :=
  let numbered := byNumber pullRequests
  let neighbors := neighborsOf (adjacencyOf pullRequests)
  (searchComponents neighbors numbered.length (numbered.map Prod.fst) []).map fun components =>
    components.map fun component =>
      (component.insertionSort (· ≤ ·)).filterMap fun number => numbered.lookup number

/-! ### Plan -/

/-- The first number that occurs again. -/
def firstDuplicate : List Int → List StackPullRequest → Option Int
  | _, [] => none
  | seen, pullRequest :: rest =>
      if pullRequest.number ∈ seen then some pullRequest.number
      else firstDuplicate (pullRequest.number :: seen) rest

/-- The rules for the parent of one pull request among the others. -/
def chooseParent (pullRequests : List StackPullRequest) (pullRequest : StackPullRequest) :
    Except StackError (Option Int × Option BaseUpdate) := do
  let inferred := byHead pullRequests pullRequest.baseBranch
  ensure (inferred.length ≤ 1) (.ambiguousParents pullRequest.number inferred)
  match pullRequest.explicitParent with
  | some parent => do
      let parentPullRequest ← okOr ((byNumber pullRequests).lookup parent)
        (.missingParent pullRequest.number parent)
      match inferred.head? with
      | some inferredParent =>
          ensure (inferredParent = parent)
            (.conflictingParent pullRequest.number parent inferredParent)
      | none => pure ()
      let update := if pullRequest.baseBranch ≠ parentPullRequest.headBranch then
          some ⟨pullRequest.number, pullRequest.baseBranch, parentPullRequest.headBranch⟩
        else none
      pure (some parent, update)
  | none => pure (inferred.head?, none)

/-- A pull request with its parent and the correction of its base. -/
structure Placement where
  number : Int
  parent : Option Int
  update : Option BaseUpdate
  deriving DecidableEq, Repr

def placePullRequests (pullRequests : List StackPullRequest) :
    Except StackError (List Placement) :=
  (byNumber pullRequests).mapM fun entry => do
    let (parent, update) ← chooseParent pullRequests entry.2
    pure ⟨entry.1, parent, update⟩

def parentsOf (placements : List Placement) : Entries Int (Option Int) :=
  placements.map fun placement => (placement.number, placement.parent)

/-- The parent that a climb continues with. -/
def parentNumber (parents : Entries Int (Option Int)) (number : Int) : Option Int :=
  (parents.lookup number).join

def rejectCycles (parents : Entries Int (Option Int)) : List Int → Bounded StackError Unit
  | [] => pure ()
  | start :: rest => do
      match ← within (climb (parentNumber parents) (parents.length + 1) [] start) with
      | .error cycle => settled (.error (.cycleDetected (cycle.insertionSort (· ≤ ·))))
      | .ok () => rejectCycles parents rest

def rootsOf (parents : Entries Int (Option Int)) : List Int :=
  parents.filterMap fun entry => if entry.2.isNone then some entry.1 else none

def childrenOf (parents : Entries Int (Option Int)) : Entries Int (List Int) :=
  parents.foldl (fun children entry =>
    match entry.2 with
    | some parent => children.insert parent ((children.lookup parent).getD [] ++ [entry.1])
    | none => children) []

def firstChild (children : Entries Int (List Int)) (number : Int) : Option Int :=
  (children.lookup number).bind List.head?

def rejectDuplicates (pullRequests : List StackPullRequest) : Except StackError Unit :=
  match firstDuplicate [] pullRequests with
  | some number => .error (.duplicatePullRequest number)
  | none => .ok ()

def singleRoot : List Int → Except StackError Int
  | [root] => .ok root
  | roots => .error (.ambiguousOrder roots)

def rejectSiblings (children : Entries Int (List Int)) : Except StackError Unit :=
  match (children.map Prod.snd).find? fun siblings => 1 < siblings.length with
  | some siblings => .error (.ambiguousOrder siblings)
  | none => .ok ()

/-- The order of the stack, with the placements that it comes from. -/
def walkStack (pullRequests : List StackPullRequest) :
    Bounded StackError (List Placement × List Int) := do
  settled (ensure (pullRequests ≠ []) .emptyStack)
  settled (rejectDuplicates pullRequests)
  let placements ← settled (placePullRequests pullRequests)
  let parents := parentsOf placements
  rejectCycles parents (parents.map Prod.fst)
  let root ← settled (singleRoot (rootsOf parents))
  let children := childrenOf parents
  settled (rejectSiblings children)
  let mergeOrder ← within (walk (firstChild children) pullRequests.length root)
  pure (placements, mergeOrder)

def plan (pullRequests : List StackPullRequest) : Bounded StackError StackPlan := do
  let (placements, mergeOrder) ← walkStack pullRequests
  let omitted := ((byNumber pullRequests).map Prod.fst).filter fun number => number ∉ mergeOrder
  settled (ensure (mergeOrder.length = pullRequests.length) (.ambiguousOrder omitted))
  pure ⟨mergeOrder, placements.filterMap Placement.update⟩

def bottom : StackPullRequest := ⟨10, "stack/bottom", "main", none⟩

def middle : StackPullRequest := ⟨20, "stack/middle", "stack/bottom", none⟩

def top : StackPullRequest := ⟨30, "stack/top", "stack/middle", some 20⟩

example : (plan [top, bottom, middle]).run = some (.ok ⟨[10, 20, 30], []⟩) := by decide

example : partition [top, ⟨40, "feature/unrelated", "main", none⟩, bottom] =
    some [[bottom], [top], [⟨40, "feature/unrelated", "main", none⟩]] := by decide

end PiTools.Stack
