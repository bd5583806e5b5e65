import PiTools.Stack.Planner

/-
This file shows that the plan of a stack exists exactly when the parents form
one chain, and that it lists this chain.
-/

namespace PiTools.Stack

open Library

/-! ### Chains -/

/-- The declared parent, or else the pull request whose head branch is the base. -/
def ParentOf (pullRequests : List StackPullRequest) (child : StackPullRequest) (parent : Int) :
    Prop :=
  child.explicitParent = some parent ∨
    (child.explicitParent = none ∧
      ∃ other ∈ pullRequests, other.headBranch = child.baseBranch ∧ other.number = parent)

/-- One number is a child of the other one. -/
def Edge (pullRequests : List StackPullRequest) (child parent : Int) : Prop :=
  ∃ pullRequest ∈ pullRequests, pullRequest.number = child ∧
    ParentOf pullRequests pullRequest parent

/-- The base of the pull request matches at most one head. -/
def Unambiguous (pullRequests : List StackPullRequest) (pullRequest : StackPullRequest) : Prop :=
  ∀ first ∈ pullRequests, ∀ second ∈ pullRequests, first.headBranch = pullRequest.baseBranch →
    second.headBranch = pullRequest.baseBranch → first = second

/-- A declared parent is present and is the only one that the base can mean. -/
def Declared (pullRequests : List StackPullRequest) (pullRequest : StackPullRequest) : Prop :=
  ∀ parent, pullRequest.explicitParent = some parent →
    (∃ other ∈ pullRequests, other.number = parent) ∧
      ∀ other ∈ pullRequests, other.headBranch = pullRequest.baseBranch → other.number = parent

/-- A root has no parent. -/
def Root (pullRequests : List StackPullRequest) (number : Int) : Prop :=
  (∃ pullRequest ∈ pullRequests, pullRequest.number = number) ∧
    ∀ parent, ¬ Edge pullRequests number parent

structure OneChain (pullRequests : List StackPullRequest) : Prop where
  acyclic : ∀ number, ¬ Relation.TransGen (Edge pullRequests) number number
  root : ∃! number, Root pullRequests number
  noSharedParent : ∀ first second parent, Edge pullRequests first parent →
    Edge pullRequests second parent → first = second

structure Plannable (pullRequests : List StackPullRequest) : Prop where
  unambiguous : ∀ pullRequest ∈ pullRequests, Unambiguous pullRequests pullRequest
  declared : ∀ pullRequest ∈ pullRequests, Declared pullRequests pullRequest
  chain : OneChain pullRequests

/-- No two pull requests share a number. -/
def DistinctNumbers (pullRequests : List StackPullRequest) : Prop :=
  (pullRequests.map StackPullRequest.number).Nodup

/-! ### Lookups -/

variable {pullRequests : List StackPullRequest} {pullRequest : StackPullRequest}

theorem byNumber_ordered (pullRequests : List StackPullRequest) :
    Entries.Ordered (byNumber pullRequests) :=
  Entries.collect_ordered _

theorem lookup_byNumber (distinct : DistinctNumbers pullRequests) {number : Int} :
    (byNumber pullRequests).lookup number = some pullRequest ↔
      pullRequest ∈ pullRequests ∧ pullRequest.number = number := by
  have keys : ((pullRequests.map fun pullRequest => (pullRequest.number, pullRequest)).map
      Prod.fst).Nodup := by
    rwa [List.map_map]
  rw [byNumber, Entries.lookup_collect_of_nodup keys, List.mem_map]
  constructor
  · rintro ⟨other, member, same⟩
    cases same
    exact ⟨member, rfl⟩
  · rintro ⟨member, rfl⟩
    exact ⟨pullRequest, member, rfl⟩

theorem mem_byNumber (distinct : DistinctNumbers pullRequests) {number : Int} :
    (number, pullRequest) ∈ byNumber pullRequests ↔
      pullRequest ∈ pullRequests ∧ pullRequest.number = number := by
  rw [(byNumber_ordered pullRequests).mem_iff, lookup_byNumber distinct]

theorem DistinctNumbers.eq (distinct : DistinctNumbers pullRequests) {first second : StackPullRequest}
    (inFirst : first ∈ pullRequests) (inSecond : second ∈ pullRequests)
    (same : first.number = second.number) : first = second :=
  List.inj_on_of_nodup_map distinct inFirst inSecond same

theorem mem_byHead {branch : String} {number : Int} :
    number ∈ byHead pullRequests branch ↔
      ∃ other ∈ pullRequests, other.headBranch = branch ∧ other.number = number := by
  simp [byHead, and_assoc]

/-- Distinct items are at most one exactly when any two of them are equal. -/
theorem length_le_one_iff {Item : Type} {items : List Item} (distinct : items.Nodup) :
    items.length ≤ 1 ↔ ∀ first ∈ items, ∀ second ∈ items, first = second := by
  match items with
  | [] => simp
  | [_] => simp
  | first :: second :: rest =>
      have different : first ≠ second := by
        rintro rfl
        simp at distinct
      constructor
      · intro short
        simp at short
      · intro same
        exact absurd (same first (by simp) second (by simp)) different

/-- At most one number is found exactly when the base is unambiguous. -/
theorem byHead_short (distinct : DistinctNumbers pullRequests) :
    (byHead pullRequests pullRequest.baseBranch).length ≤ 1 ↔
      Unambiguous pullRequests pullRequest := by
  rw [byHead, List.length_map, length_le_one_iff ((List.Nodup.of_map _ distinct).filter _)]
  simp only [List.mem_filter, decide_eq_true_eq]
  constructor
  · intro same first inFirst second inSecond sameFirst sameSecond
    exact same first ⟨inFirst, sameFirst⟩ second ⟨inSecond, sameSecond⟩
  · rintro unambiguous first ⟨inFirst, sameFirst⟩ second ⟨inSecond, sameSecond⟩
    exact unambiguous first inFirst second inSecond sameFirst sameSecond

/-! ### The parent of one pull request -/

def parentOf (pullRequests : List StackPullRequest) (pullRequest : StackPullRequest) : Option Int :=
  pullRequest.explicitParent.or (byHead pullRequests pullRequest.baseBranch).head?

/-- The correction of a base that is not the head of the declared parent. -/
def baseUpdate (pullRequests : List StackPullRequest) (pullRequest : StackPullRequest) :
    Option BaseUpdate :=
  (pullRequest.explicitParent.bind fun parent => (byNumber pullRequests).lookup parent).bind
    fun other =>
      if pullRequest.baseBranch ≠ other.headBranch then
        some ⟨pullRequest.number, pullRequest.baseBranch, other.headBranch⟩
      else none

/-- The only number that is found is the first one. -/
theorem mem_byHead_of_short {branch : String} (short : (byHead pullRequests branch).length ≤ 1)
    {number : Int} :
    (byHead pullRequests branch).head? = some number ↔ number ∈ byHead pullRequests branch := by
  match found : byHead pullRequests branch with
  | [] => simp
  | [_] => simp [eq_comm]
  | _ :: _ :: _ => simp [found] at short

/-- Every parent that the base can mean is the declared one. -/
def Fits (pullRequests : List StackPullRequest) (pullRequest : StackPullRequest) (parent : Int) :
    Prop :=
  ∀ other ∈ pullRequests, other.headBranch = pullRequest.baseBranch → other.number = parent

theorem fits_iff (short : (byHead pullRequests pullRequest.baseBranch).length ≤ 1) {parent : Int} :
    (∀ number, (byHead pullRequests pullRequest.baseBranch).head? = some number →
      number = parent) ↔ Fits pullRequests pullRequest parent := by
  simp only [mem_byHead_of_short short, mem_byHead]
  constructor
  · intro same other member matches_
    exact same other.number ⟨other, member, matches_, rfl⟩
  · rintro fits number ⟨other, member, matches_, rfl⟩
    exact fits other member matches_

/-- The rules accept exactly the unambiguous bases with fitting declarations. -/
theorem chooseParent_eq_ok (distinct : DistinctNumbers pullRequests)
    {answer : Option Int × Option BaseUpdate} :
    chooseParent pullRequests pullRequest = .ok answer ↔
      (Unambiguous pullRequests pullRequest ∧ Declared pullRequests pullRequest) ∧
        answer = (parentOf pullRequests pullRequest, baseUpdate pullRequests pullRequest) := by
  unfold chooseParent parentOf baseUpdate
  rw [← byHead_short distinct, bind_eq_ok]
  simp only [ensure_eq_ok, exists_and_left]
  rw [and_assoc]
  refine and_congr_right fun short => ?_
  cases declared : pullRequest.explicitParent with
  | none =>
      have vacuous : Declared pullRequests pullRequest := by simp [Declared, declared]
      simp only [pure_eq_ok, exists_const, Option.none_or, Option.bind_none]
      exact ⟨fun same => ⟨vacuous, same.symm⟩, fun given => given.2.symm⟩
  | some parent =>
      have present : Declared pullRequests pullRequest ↔
          (∃ other, (byNumber pullRequests).lookup parent = some other) ∧
            Fits pullRequests pullRequest parent := by
        simp [Declared, Fits, declared, lookup_byNumber distinct]
      rw [present, ← fits_iff short]
      cases found : (byNumber pullRequests).lookup parent with
      | none => simp [found]
      | some other =>
          cases inferred : (byHead pullRequests pullRequest.baseBranch).head? with
          | none =>
              simp only [bind_eq_ok, okOr_eq_ok, pure_eq_ok, Option.some.injEq, exists_eq_left',
                exists_const, true_and, Option.some_or, Option.bind_some, found, reduceCtorEq,
                false_implies, implies_true, exists_eq', eq_comm (b := answer)]
          | some number =>
              simp only [bind_eq_ok, okOr_eq_ok, ensure_eq_ok, pure_eq_ok, Option.some.injEq,
                exists_eq_left', exists_const, Option.some_or, Option.bind_some, found,
                forall_eq', exists_eq', true_and, eq_comm (b := answer)]

/-- The chosen parent is the parent of the specification. -/
theorem parentOf_eq_some (distinct : DistinctNumbers pullRequests)
    (unambiguous : Unambiguous pullRequests pullRequest) {parent : Int} :
    parentOf pullRequests pullRequest = some parent ↔ ParentOf pullRequests pullRequest parent := by
  unfold parentOf ParentOf
  cases declared : pullRequest.explicitParent with
  | some other => simp
  | none =>
      rw [Option.none_or, mem_byHead_of_short ((byHead_short distinct).mpr unambiguous), mem_byHead]
      simp

/-! ### Placements -/

def place (pullRequests : List StackPullRequest) (entry : Int × StackPullRequest) : Placement :=
  ⟨entry.1, parentOf pullRequests entry.2, baseUpdate pullRequests entry.2⟩

/-- Every pull request can be placed among the others. -/
def Placeable (pullRequests : List StackPullRequest) : Prop :=
  ∀ pullRequest ∈ pullRequests, Unambiguous pullRequests pullRequest ∧
    Declared pullRequests pullRequest

theorem placePullRequests_eq (pullRequests : List StackPullRequest) :
    placePullRequests pullRequests = (byNumber pullRequests).mapM fun entry =>
      (chooseParent pullRequests entry.2).map fun chosen => ⟨entry.1, chosen.1, chosen.2⟩ := by
  unfold placePullRequests
  rfl

theorem placePullRequests_eq_ok (distinct : DistinctNumbers pullRequests)
    {placements : List Placement} :
    placePullRequests pullRequests = .ok placements ↔
      Placeable pullRequests ∧ placements = (byNumber pullRequests).map (place pullRequests) := by
  rw [placePullRequests_eq, mapM_eq_ok]
  have placed (entry : Int × StackPullRequest) (placement : Placement) :
      ((chooseParent pullRequests entry.2).map fun chosen =>
          (⟨entry.1, chosen.1, chosen.2⟩ : Placement)) = .ok placement ↔
        (Unambiguous pullRequests entry.2 ∧ Declared pullRequests entry.2) ∧
          placement = place pullRequests entry := by
    rw [map_eq_ok]
    simp only [chooseParent_eq_ok distinct]
    constructor
    · rintro ⟨_, ⟨accepted, rfl⟩, rfl⟩
      exact ⟨accepted, rfl⟩
    · rintro ⟨accepted, rfl⟩
      exact ⟨_, ⟨accepted, rfl⟩, rfl⟩
  simp only [placed, List.forall₂_and_left]
  refine and_congr ⟨fun accepted pullRequest member => ?_, fun placeable entry member => ?_⟩ ?_
  · exact accepted _ ((mem_byNumber distinct).mpr ⟨member, rfl⟩)
  · exact placeable _ ((mem_byNumber distinct).mp member).1
  · rw [eq_comm (a := placements), ← List.forall₂_eq_eq_eq, List.forall₂_map_left_iff]
    simp only [eq_comm]

/-- The parents of the placed pull requests. -/
def parentEntries (pullRequests : List StackPullRequest) : Entries Int (Option Int) :=
  (byNumber pullRequests).map fun entry => (entry.1, parentOf pullRequests entry.2)

theorem parentsOf_place (pullRequests : List StackPullRequest) :
    parentsOf ((byNumber pullRequests).map (place pullRequests)) = parentEntries pullRequests := by
  rw [parentsOf, List.map_map]
  rfl

theorem parentEntries_ordered (pullRequests : List StackPullRequest) :
    Entries.Ordered (parentEntries pullRequests) :=
  List.pairwise_map.mpr (byNumber_ordered pullRequests)

theorem mem_parentEntries (distinct : DistinctNumbers pullRequests) {number : Int}
    {parent : Option Int} : (number, parent) ∈ parentEntries pullRequests ↔
      ∃ pullRequest ∈ pullRequests, pullRequest.number = number ∧
        parentOf pullRequests pullRequest = parent := by
  rw [parentEntries, List.mem_map]
  constructor
  · rintro ⟨⟨_, pullRequest⟩, member, same⟩
    obtain ⟨inside, rfl⟩ := (mem_byNumber distinct).mp member
    cases same
    exact ⟨pullRequest, inside, rfl, rfl⟩
  · rintro ⟨pullRequest, member, rfl, rfl⟩
    exact ⟨_, (mem_byNumber distinct).mpr ⟨member, rfl⟩, rfl⟩

/-- The keys are the numbers of the pull requests. -/
theorem mem_keys (distinct : DistinctNumbers pullRequests) {number : Int} :
    number ∈ (parentEntries pullRequests).map Prod.fst ↔
      ∃ pullRequest ∈ pullRequests, pullRequest.number = number := by
  rw [List.mem_map]
  constructor
  · rintro ⟨⟨number, parent⟩, member, rfl⟩
    obtain ⟨pullRequest, inside, same, _⟩ := (mem_parentEntries distinct).mp member
    exact ⟨pullRequest, inside, same⟩
  · rintro ⟨pullRequest, member, same⟩
    exact ⟨(number, _), (mem_parentEntries distinct).mpr ⟨pullRequest, member, same, rfl⟩, rfl⟩

/-- A climb continues along the edges. -/
theorem parentNumber_eq_some (distinct : DistinctNumbers pullRequests)
    (placeable : Placeable pullRequests) {number parent : Int} :
    parentNumber (parentEntries pullRequests) number = some parent ↔
      Edge pullRequests number parent := by
  unfold parentNumber Edge
  rw [Option.join_eq_some_iff, ← (parentEntries_ordered pullRequests).mem_iff,
    mem_parentEntries distinct]
  constructor
  · rintro ⟨pullRequest, member, same, parent⟩
    exact ⟨pullRequest, member, same,
      (parentOf_eq_some distinct (placeable pullRequest member).1).mp parent⟩
  · rintro ⟨pullRequest, member, same, parent⟩
    exact ⟨pullRequest, member, same,
      (parentOf_eq_some distinct (placeable pullRequest member).1).mpr parent⟩

/-- A pull request without a parent is found with none. -/
theorem mem_parentEntries_none (distinct : DistinctNumbers pullRequests)
    (placeable : Placeable pullRequests) {number : Int} :
    (number, none) ∈ parentEntries pullRequests ↔ Root pullRequests number := by
  unfold Root
  simp only [← parentNumber_eq_some distinct placeable]
  constructor
  · intro member
    obtain ⟨pullRequest, inside, same, _⟩ := (mem_parentEntries distinct).mp member
    refine ⟨⟨pullRequest, inside, same⟩, fun parent found => ?_⟩
    rw [parentNumber, (parentEntries_ordered pullRequests).mem_iff.mp member] at found
    cases found
  · rintro ⟨⟨pullRequest, inside, same⟩, noParent⟩
    refine (mem_parentEntries distinct).mpr ⟨pullRequest, inside, same, ?_⟩
    cases found : parentOf pullRequests pullRequest with
    | none => rfl
    | some parent =>
        have member := (mem_parentEntries distinct).mpr ⟨pullRequest, inside, same, found⟩
        refine absurd ?_ (noParent parent)
        rw [parentNumber, (parentEntries_ordered pullRequests).mem_iff.mp member]
        rfl

/-- No number occurs again exactly when the numbers are distinct. -/
theorem firstDuplicate_eq_none {seen : List Int} :
    firstDuplicate seen pullRequests = none ↔
      DistinctNumbers pullRequests ∧ ∀ other ∈ pullRequests, other.number ∉ seen := by
  induction pullRequests generalizing seen with
  | nil => simp [firstDuplicate, DistinctNumbers]
  | cons first rest ih =>
      simp only [firstDuplicate]
      split
      · rename_i again
        simp [again]
      · rename_i fresh
        rw [ih]
        simp only [DistinctNumbers, List.map_cons, List.nodup_cons, List.mem_map, List.mem_cons,
          not_or, forall_eq_or_imp]
        constructor
        · rintro ⟨distinct, apart⟩
          refine ⟨⟨?_, distinct⟩, fresh, fun other member => (apart other member).2⟩
          rintro ⟨other, member, same⟩
          exact (apart other member).1 same
        · rintro ⟨⟨alone, distinct⟩, _, apart⟩
          exact ⟨distinct, fun other member =>
            ⟨fun same => alone ⟨other, member, same⟩, apart other member⟩⟩

theorem rejectDuplicates_eq_ok {nothing : Unit} :
    rejectDuplicates pullRequests = .ok nothing ↔ DistinctNumbers pullRequests := by
  have none_iff : firstDuplicate [] pullRequests = none ↔ _ := firstDuplicate_eq_none
  unfold rejectDuplicates
  cases found : firstDuplicate [] pullRequests with
  | none => simpa [found] using none_iff
  | some number => simpa [found] using none_iff

/-! ### Cycles -/

section Cycles

variable {parents : Entries Int (Option Int)}

/-- Only keys have parents. -/
theorem parentNumber_key {number parent : Int} (found : parentNumber parents number = some parent) :
    number ∈ parents.map Prod.fst := by
  rw [parentNumber, Option.join_eq_some_iff] at found
  exact List.mem_map_of_mem (Entries.mem_of_lookup found)

theorem climb_parents (parents : Entries Int (Option Int)) (start : Int) :
    climb (parentNumber parents) (parents.length + 1) [] start ≠ none := by
  apply climb_ends (fun _ _ => parentNumber_key) List.nodup_nil (List.nil_subset _)
  rw [List.length_map]
  exact Nat.lt_succ_self _

/-- The rejection of cycles ends. -/
theorem rejectCycles_ends (starts : List Int) : (rejectCycles parents starts).run ≠ none := by
  induction starts with
  | nil => simp [rejectCycles, pure, ExceptT.pure]
  | cons start rest ih =>
      rw [rejectCycles]
      refine Bounded.bind_ne_none ?_ fun outcome _ => ?_
      · simpa using climb_parents parents start
      · cases outcome with
        | error => simp
        | ok => exact ih

/-- No cycle is found exactly when there is none. -/
theorem rejectCycles_eq_ok {nothing : Unit} :
    (rejectCycles parents (parents.map Prod.fst)).run = some (.ok nothing) ↔
      ∀ number, ¬ Relation.TransGen (Follows (parentNumber parents)) number number := by
  constructor
  · intro accepted
    have routes : ∀ starts : List Int, (rejectCycles parents starts).run = some (.ok nothing) →
        ∀ start ∈ starts, ∃ route, Leads (parentNumber parents) start route := by
      intro starts accepted
      induction starts with
      | nil => simp
      | cons first rest ih =>
          rw [rejectCycles, Bounded.bind_eq_ok] at accepted
          obtain ⟨outcome, climbed, later⟩ := accepted
          cases outcome with
          | error => simp at later
          | ok =>
              intro start member
              rcases List.mem_cons.mp member with rfl | inRest
              · exact climb_ok (by simpa using climbed)
              · exact ih later start inRest
    intro number cycle
    obtain ⟨other, follows⟩ : ∃ other, parentNumber parents number = some other := by
      cases cycle using Relation.TransGen.head_induction_on with
      | single follows => exact ⟨_, follows⟩
      | head follows => exact ⟨_, follows⟩
    obtain ⟨route, leads⟩ := routes _ accepted number (parentNumber_key follows)
    exact leads.acyclic cycle
  · intro acyclic
    have accepted : ∀ starts, (rejectCycles parents starts).run = some (.ok nothing) := by
      intro starts
      induction starts with
      | nil => rfl
      | cons start rest ih =>
          rw [rejectCycles, Bounded.bind_eq_ok]
          cases climbed : climb (parentNumber parents) (parents.length + 1) [] start with
          | none => exact absurd climbed (climb_parents parents start)
          | some outcome =>
              cases outcome with
              | ok => exact ⟨.ok (), by simp, ih⟩
              | error cycle =>
                  obtain ⟨number, found⟩ := climb_error (by simp) climbed
                  exact absurd found (acyclic number)
    exact accepted _

end Cycles

/-! ### Children -/

section Children

variable {parents : Entries Int (Option Int)}

def childrenIn (parents : Entries Int (Option Int)) (parent : Int) : List Int :=
  parents.filterMap fun entry => if entry.2 = some parent then some entry.1 else none

theorem childrenOf_append_singleton (parents : Entries Int (Option Int)) (entry : Int × Option Int) :
    childrenOf (parents ++ [entry]) = match entry.2 with
      | some parent => (childrenOf parents).insert parent
          (((childrenOf parents).lookup parent).getD [] ++ [entry.1])
      | none => childrenOf parents := by
  rw [childrenOf, List.foldl_append]
  rfl

theorem childrenOf_ordered (parents : Entries Int (Option Int)) :
    Entries.Ordered (childrenOf parents) := by
  induction parents using List.reverseRecOn with
  | nil => exact List.Pairwise.nil
  | append_singleton parents entry ih =>
      rw [childrenOf_append_singleton]
      split
      · exact ih.insert _ _
      · exact ih

theorem lookup_childrenOf (parents : Entries Int (Option Int)) (parent : Int) :
    ((childrenOf parents).lookup parent).getD [] = childrenIn parents parent := by
  induction parents using List.reverseRecOn with
  | nil => rfl
  | append_singleton parents entry ih =>
      rw [childrenOf_append_singleton, childrenIn, List.filterMap_append, ← childrenIn, ← ih]
      split
      · rename_i other declared
        rw [Entries.lookup_insert]
        split
        · rename_i same
          simp [declared, same]
        · rename_i different
          simp [declared, Ne.symm different]
      · rename_i undeclared
        simp [undeclared]

theorem firstChild_childrenOf (parents : Entries Int (Option Int)) (parent : Int) :
    firstChild (childrenOf parents) parent = (childrenIn parents parent).head? := by
  rw [← lookup_childrenOf, firstChild]
  cases (childrenOf parents).lookup parent <;> rfl

/-- No siblings are found exactly when every list of children is short. -/
theorem rejectSiblings_childrenOf {nothing : Unit} :
    rejectSiblings (childrenOf parents) = .ok nothing ↔
      ∀ parent, (childrenIn parents parent).length ≤ 1 := by
  have none_iff : rejectSiblings (childrenOf parents) = .ok nothing ↔
      (((childrenOf parents).map Prod.snd).find? fun siblings => 1 < siblings.length) = none := by
    unfold rejectSiblings
    split <;> simp [*]
  rw [none_iff]
  simp only [List.find?_eq_none, decide_eq_true_eq, Nat.not_lt, List.mem_map]
  constructor
  · intro short parent
    rw [← lookup_childrenOf]
    cases found : (childrenOf parents).lookup parent with
    | none => simp
    | some siblings => exact short siblings ⟨_, Entries.mem_of_lookup found, rfl⟩
  · rintro short siblings ⟨⟨parent, siblings⟩, member, rfl⟩
    have found := (childrenOf_ordered parents).mem_iff.mp member
    simpa [← lookup_childrenOf, found] using short parent

theorem mem_childrenIn {child parent : Int} :
    child ∈ childrenIn parents parent ↔ (child, some parent) ∈ parents := by
  rw [childrenIn, List.mem_filterMap]
  constructor
  · rintro ⟨⟨number, declared⟩, member, found⟩
    split at found
    · rename_i same
      cases found
      exact same ▸ member
    · cases found
  · intro member
    exact ⟨_, member, by simp⟩

theorem childrenIn_nodup (ordered : Entries.Ordered parents) (parent : Int) :
    (childrenIn parents parent).Nodup := by
  refine (List.Nodup.of_map _ ordered.keys_nodup).filterMap ?_
  rintro ⟨first, _⟩ ⟨second, _⟩ child inFirst inSecond
  simp only [Option.mem_def, Option.ite_none_right_eq_some, Option.some.injEq] at inFirst inSecond
  rw [inFirst.1, inSecond.1, inFirst.2, inSecond.2]

end Children

/-! ### The walk -/

theorem mem_rootsOf {parents : Entries Int (Option Int)} {number : Int} :
    number ∈ rootsOf parents ↔ (number, none) ∈ parents := by
  rw [rootsOf, List.mem_filterMap]
  constructor
  · rintro ⟨⟨other, parent⟩, member, found⟩
    split at found
    · rename_i isRoot
      cases found
      rw [Option.isNone_iff_eq_none] at isRoot
      exact isRoot ▸ member
    · cases found
  · intro member
    exact ⟨_, member, rfl⟩

theorem rootsOf_nodup {parents : Entries Int (Option Int)} (ordered : Entries.Ordered parents) :
    (rootsOf parents).Nodup := by
  refine (List.Nodup.of_map _ ordered.keys_nodup).filterMap ?_
  rintro ⟨first, _⟩ ⟨second, _⟩ number inFirst inSecond
  simp only [Option.isNone_iff_eq_none, Option.mem_def, Option.ite_none_right_eq_some,
    Option.some.injEq] at inFirst inSecond
  rw [inFirst.1, inSecond.1, inFirst.2, inSecond.2]

theorem singleRoot_eq_ok {roots : List Int} {root : Int} :
    singleRoot roots = .ok root ↔ roots = [root] := by
  unfold singleRoot
  split <;> simp_all

/-- A root is found exactly when it is the only one. -/
theorem singleRoot_rootsOf (distinct : DistinctNumbers pullRequests)
    (placeable : Placeable pullRequests) {root : Int} :
    singleRoot (rootsOf (parentEntries pullRequests)) = .ok root ↔
      Root pullRequests root ∧ ∀ other, Root pullRequests other → other = root := by
  have member : ∀ number, number ∈ rootsOf (parentEntries pullRequests) ↔ Root pullRequests number :=
    fun number => mem_rootsOf.trans (mem_parentEntries_none distinct placeable)
  rw [singleRoot_eq_ok]
  simp only [← member]
  constructor
  · intro same
    simp [same]
  · rintro ⟨inside, only⟩
    have nodup := rootsOf_nodup (parentEntries_ordered pullRequests)
    match found : rootsOf (parentEntries pullRequests) with
    | [] => simp [found] at inside
    | [other] =>
        rw [found, List.mem_singleton] at inside
        rw [inside]
    | first :: second :: rest =>
        have one := only first (by simp [found])
        have two := only second (by simp [found])
        rw [found, one, two] at nodup
        simp at nodup

/-- The children of a parent are the numbers with an edge to it. -/
theorem mem_childrenIn_edge (distinct : DistinctNumbers pullRequests)
    (placeable : Placeable pullRequests) {child parent : Int} :
    child ∈ childrenIn (parentEntries pullRequests) parent ↔ Edge pullRequests child parent := by
  rw [mem_childrenIn, (parentEntries_ordered pullRequests).mem_iff,
    ← parentNumber_eq_some distinct placeable, parentNumber, Option.join_eq_some_iff]

/-- No siblings are found exactly when no parent is shared. -/
theorem rejectSiblings_eq_ok (distinct : DistinctNumbers pullRequests)
    (placeable : Placeable pullRequests) {nothing : Unit} :
    rejectSiblings (childrenOf (parentEntries pullRequests)) = .ok nothing ↔
      ∀ first second parent, Edge pullRequests first parent → Edge pullRequests second parent →
        first = second := by
  rw [rejectSiblings_childrenOf]
  simp only [length_le_one_iff (childrenIn_nodup (parentEntries_ordered pullRequests) _),
    mem_childrenIn_edge distinct placeable]
  constructor
  · intro same first second parent inFirst inSecond
    exact same parent first inFirst second inSecond
  · intro same parent first inFirst second inSecond
    exact same first second parent inFirst inSecond

/-- The walk continues with the child of a number. -/
theorem firstChild_eq_some (distinct : DistinctNumbers pullRequests)
    (placeable : Placeable pullRequests)
    (noSharedParent : ∀ first second parent, Edge pullRequests first parent →
      Edge pullRequests second parent → first = second) {child parent : Int} :
    firstChild (childrenOf (parentEntries pullRequests)) parent = some child ↔
      Edge pullRequests child parent := by
  rw [firstChild_childrenOf, ← mem_childrenIn_edge distinct placeable]
  constructor
  · exact List.mem_of_mem_head?
  · intro inside
    match found : childrenIn (parentEntries pullRequests) parent with
    | [] => simp [found] at inside
    | first :: rest =>
        have isFirst : first ∈ childrenIn (parentEntries pullRequests) parent := by simp [found]
        have edge := (mem_childrenIn_edge distinct placeable).mp isFirst
        rw [List.head?_cons,
          noSharedParent first child parent edge ((mem_childrenIn_edge distinct placeable).mp inside)]

/-- The climb continues along the edges. -/
theorem follows_parentNumber (distinct : DistinctNumbers pullRequests)
    (placeable : Placeable pullRequests) :
    Follows (parentNumber (parentEntries pullRequests)) = Edge pullRequests := by
  funext child parent
  exact propext (parentNumber_eq_some distinct placeable)

/-- The walk needs placed pull requests without cycles, with one root and without siblings. -/
theorem walkStack_eq_ok (distinct : DistinctNumbers pullRequests) (nonempty : pullRequests ≠ [])
    {placements : List Placement} {order : List Int} :
    (walkStack pullRequests).run = some (.ok (placements, order)) ↔
      (Placeable pullRequests ∧ OneChain pullRequests) ∧
        placements = (byNumber pullRequests).map (place pullRequests) ∧
        ∃ root, Root pullRequests root ∧
          walk (firstChild (childrenOf (parentEntries pullRequests))) pullRequests.length root =
            some order := by
  simp only [walkStack, Bounded.bind_eq_ok, settled_run, Option.some.injEq, ensure_eq_ok,
    rejectDuplicates_eq_ok, placePullRequests_eq_ok distinct, within_eq_ok, Bounded.pure_eq_ok]
  constructor
  · rintro ⟨_, _, _, _, placed, ⟨placeable, rfl⟩, _, acyclic, root, isRoot, _, siblings, _, walked,
      same⟩
    cases same
    rw [parentsOf_place] at acyclic isRoot siblings walked
    rw [rejectCycles_eq_ok, follows_parentNumber distinct placeable] at acyclic
    rw [singleRoot_rootsOf distinct placeable] at isRoot
    rw [rejectSiblings_eq_ok distinct placeable] at siblings
    exact ⟨⟨placeable, acyclic, ⟨root, isRoot.1, isRoot.2⟩, siblings⟩, rfl, root, isRoot.1, walked⟩
  · rintro ⟨⟨placeable, chain⟩, rfl, root, isRoot, walked⟩
    refine ⟨(), nonempty, (), distinct, _, ⟨placeable, rfl⟩, (), ?_, root, ?_, (), ?_, _, ?_, rfl⟩
    · rw [parentsOf_place, rejectCycles_eq_ok, follows_parentNumber distinct placeable]
      exact chain.acyclic
    · rw [parentsOf_place, singleRoot_rootsOf distinct placeable]
      exact ⟨isRoot, fun other otherRoot => chain.root.unique otherRoot isRoot⟩
    · rw [parentsOf_place, rejectSiblings_eq_ok distinct placeable]
      exact chain.noSharedParent
    · rw [parentsOf_place]
      exact walked

/-- The number belongs to one of the pull requests. -/
def Present (pullRequests : List StackPullRequest) (number : Int) : Prop :=
  ∃ pullRequest ∈ pullRequests, pullRequest.number = number

theorem Edge.parent_present (placeable : Placeable pullRequests) {child parent : Int}
    (edge : Edge pullRequests child parent) : Present pullRequests parent := by
  obtain ⟨pullRequest, member, _, declared | ⟨_, other, inside, _, same⟩⟩ := edge
  · exact ((placeable pullRequest member).2 parent declared).1
  · exact ⟨other, inside, same⟩

theorem present_iff {number : Int} :
    Present pullRequests number ↔ number ∈ pullRequests.map StackPullRequest.number := by
  simp [Present]

/-- In one chain the walk from the root lists every number once. -/
theorem walk_chain (distinct : DistinctNumbers pullRequests) (placeable : Placeable pullRequests)
    (chain : OneChain pullRequests) {root : Int} (isRoot : Root pullRequests root) :
    ∃ order, walk (firstChild (childrenOf (parentEntries pullRequests))) pullRequests.length root =
        some order ∧
      order.Perm (pullRequests.map StackPullRequest.number) ∧ order.head? = some root ∧
        order.IsChain fun number next => Edge pullRequests next number := by
  have child : ∀ {number parent : Int},
      firstChild (childrenOf (parentEntries pullRequests)) parent = some number ↔
        Edge pullRequests number parent := firstChild_eq_some distinct placeable chain.noSharedParent
  have follows : Follows (firstChild (childrenOf (parentEntries pullRequests))) =
      fun parent number => Edge pullRequests number parent := by
    funext parent number
    exact propext child
  -- A cycle of children is a cycle of parents the other way round.
  have acyclic : ∀ number, ¬ Relation.TransGen
      (Follows (firstChild (childrenOf (parentEntries pullRequests)))) number number := by
    intro number cycle
    rw [follows] at cycle
    exact chain.acyclic number (Relation.transGen_swap.mp cycle)
  obtain ⟨order, leads⟩ := leads_of_acyclic
    (fun _ _ found => present_iff.mp ((child.mp found).parent_present placeable)) acyclic root
  have inside : ∀ number ∈ order, Present pullRequests number := by
    refine leads.all isRoot.1 fun number next _ found => ?_
    obtain ⟨pullRequest, member, same, _⟩ := child.mp found
    exact ⟨pullRequest, member, same⟩
  have covers : ∀ number, Present pullRequests number → number ∈ order := by
    intro number present
    have climbs : ∀ number, ¬ Relation.TransGen
        (Follows (parentNumber (parentEntries pullRequests))) number number := by
      rw [follows_parentNumber distinct placeable]
      exact chain.acyclic
    obtain ⟨rest, returns⟩ := leads_of_acyclic (fun _ _ => parentNumber_key) climbs number
    have allPresent : ∀ node ∈ rest, Present pullRequests node :=
      returns.all present fun node other _ found =>
        ((parentNumber_eq_some distinct placeable).mp found).parent_present placeable
    refine leads.covers returns (fun node _ other found => ?_) fun node member ends => ?_
    · exact child.mpr ((parentNumber_eq_some distinct placeable).mp found)
    · refine chain.root.unique ⟨allPresent node member, fun parent edge => ?_⟩ isRoot
      rw [← parentNumber_eq_some distinct placeable, ends] at edge
      cases edge
  have perm : order.Perm (pullRequests.map StackPullRequest.number) := by
    rw [List.perm_ext_iff_of_nodup leads.nodup distinct]
    intro number
    rw [← present_iff]
    exact ⟨inside number, covers number⟩
  refine ⟨order, walk_eq_some.mpr ⟨leads, ?_⟩, perm, ?_, ?_⟩
  · rw [perm.length_eq, List.length_map]
  · cases leads <;> rfl
  · rw [← follows]
    exact leads.isChain

/-! ### The plan -/

/-- A chain is planned from its root to its tip. -/
structure PlannedChain (pullRequests : List StackPullRequest) (result : StackPlan) : Prop where
  permutation : result.mergeOrder.Perm (pullRequests.map StackPullRequest.number)
  root : ∃ root, result.mergeOrder.head? = some root ∧ Root pullRequests root
  steps : result.mergeOrder.IsChain fun number next => Edge pullRequests next number
  updates : ∀ update, update ∈ result.requiredBaseUpdates ↔
    ∃ pullRequest ∈ pullRequests, ∃ parent ∈ pullRequests,
      pullRequest.explicitParent = some parent.number ∧
        pullRequest.baseBranch ≠ parent.headBranch ∧
        update = ⟨pullRequest.number, pullRequest.baseBranch, parent.headBranch⟩
  updatedOnce : (result.requiredBaseUpdates.map BaseUpdate.pullRequest).Nodup

/-- The plan of a stack is sound and complete, and its loops end. -/
structure StackPlanning (pullRequests : List StackPullRequest) : Prop where
  accepted : (∃ result, (plan pullRequests).run = some (.ok result)) ↔ Plannable pullRequests
  planned : ∀ result, (plan pullRequests).run = some (.ok result) →
    PlannedChain pullRequests result
  orderless : ∀ others result, others.Perm pullRequests →
    (plan pullRequests).run = some (.ok result) → (plan others).run = some (.ok result)
  ends : (plan pullRequests).run ≠ none
  complete : ∀ placements order,
    (walkStack pullRequests).run = some (.ok (placements, order)) →
      order.length = pullRequests.length

theorem plan_eq_ok (distinct : DistinctNumbers pullRequests) (nonempty : pullRequests ≠ [])
    {result : StackPlan} :
    (plan pullRequests).run = some (.ok result) ↔
      (Placeable pullRequests ∧ OneChain pullRequests) ∧
        ∃ root, Root pullRequests root ∧
          walk (firstChild (childrenOf (parentEntries pullRequests))) pullRequests.length root =
            some result.mergeOrder ∧
          result.requiredBaseUpdates =
            ((byNumber pullRequests).map (place pullRequests)).filterMap Placement.update := by
  simp only [plan, Bounded.bind_eq_ok, settled_run, Option.some.injEq, ensure_eq_ok,
    Bounded.pure_eq_ok]
  constructor
  · rintro ⟨⟨placements, order⟩, walked, _, _, rfl⟩
    obtain ⟨given, rfl, root, isRoot, walked⟩ := (walkStack_eq_ok distinct nonempty).mp walked
    exact ⟨given, root, isRoot, walked, rfl⟩
  · rintro ⟨given, root, isRoot, walked, updates⟩
    refine ⟨⟨_, result.mergeOrder⟩,
      (walkStack_eq_ok distinct nonempty).mpr ⟨given, rfl, root, isRoot, walked⟩, (), ?_, ?_⟩
    · obtain ⟨order, found, perm, _⟩ := walk_chain distinct given.1 given.2 isRoot
      rw [walked] at found
      cases found
      simpa using perm.length_eq
    · rw [← updates]

theorem walkStack_ends (pullRequests : List StackPullRequest) :
    (walkStack pullRequests).run ≠ none := by
  unfold walkStack
  refine Bounded.bind_ne_none (by simp) fun _ _ => ?_
  refine Bounded.bind_ne_none (by simp) fun _ unrepeated => ?_
  have distinct : DistinctNumbers pullRequests := by
    rwa [settled_run, Option.some.injEq, rejectDuplicates_eq_ok] at unrepeated
  refine Bounded.bind_ne_none (by simp) fun placements placed => ?_
  rw [settled_run, Option.some.injEq, placePullRequests_eq_ok distinct] at placed
  obtain ⟨placeable, rfl⟩ := placed
  rw [parentsOf_place]
  refine Bounded.bind_ne_none (rejectCycles_ends _) fun _ acyclic => ?_
  refine Bounded.bind_ne_none (by simp) fun root isRoot => ?_
  refine Bounded.bind_ne_none (by simp) fun _ siblings => ?_
  refine Bounded.bind_ne_none ?_ fun _ _ => by simp [pure, ExceptT.pure]
  rw [rejectCycles_eq_ok, follows_parentNumber distinct placeable] at acyclic
  rw [settled_run, Option.some.injEq, singleRoot_rootsOf distinct placeable] at isRoot
  rw [settled_run, Option.some.injEq, rejectSiblings_eq_ok distinct placeable] at siblings
  have chain : OneChain pullRequests := ⟨acyclic, ⟨root, isRoot.1, isRoot.2⟩, siblings⟩
  obtain ⟨order, walked, _⟩ := walk_chain distinct placeable chain isRoot.1
  simp [walked]

theorem plan_ends (pullRequests : List StackPullRequest) : (plan pullRequests).run ≠ none := by
  refine Bounded.bind_ne_none (walkStack_ends pullRequests) fun _ _ => ?_
  exact Bounded.bind_ne_none (by simp) fun _ _ => by simp [pure, ExceptT.pure]

/-- A planned stack has pull requests, and no two of them share a number. -/
theorem plan_admits {result : StackPlan} (planned : (plan pullRequests).run = some (.ok result)) :
    pullRequests ≠ [] ∧ DistinctNumbers pullRequests := by
  simp only [plan, walkStack, Bounded.bind_eq_ok, settled_run, Option.some.injEq, ensure_eq_ok,
    rejectDuplicates_eq_ok] at planned
  obtain ⟨_, ⟨_, nonempty, _, distinct, _⟩, _⟩ := planned
  exact ⟨nonempty, distinct⟩

/-- The order of a planned stack names each pull request once. -/
theorem plan_order {result : StackPlan} (planned : (plan pullRequests).run = some (.ok result)) :
    result.mergeOrder.Perm (pullRequests.map StackPullRequest.number) := by
  obtain ⟨nonempty, distinct⟩ := plan_admits planned
  obtain ⟨⟨placeable, chain⟩, root, isRoot, walked, _⟩ := (plan_eq_ok distinct nonempty).mp planned
  obtain ⟨order, found, perm, _⟩ := walk_chain distinct placeable chain isRoot
  rw [walked] at found
  cases found
  exact perm

/-- The base of a pull request is corrected to the head of its declared parent. -/
theorem baseUpdate_eq_some (distinct : DistinctNumbers pullRequests) {update : BaseUpdate} :
    baseUpdate pullRequests pullRequest = some update ↔
      ∃ parent ∈ pullRequests, pullRequest.explicitParent = some parent.number ∧
        pullRequest.baseBranch ≠ parent.headBranch ∧
        update = ⟨pullRequest.number, pullRequest.baseBranch, parent.headBranch⟩ := by
  unfold baseUpdate
  simp only [Option.bind_eq_some_iff, lookup_byNumber distinct, Option.ite_none_right_eq_some,
    Option.some.injEq]
  constructor
  · rintro ⟨parent, ⟨number, declared, member, rfl⟩, different, rfl⟩
    exact ⟨parent, member, declared, different, rfl⟩
  · rintro ⟨parent, member, declared, different, rfl⟩
    exact ⟨parent, ⟨_, declared, member, rfl⟩, different, rfl⟩

theorem mem_updates (distinct : DistinctNumbers pullRequests) {update : BaseUpdate} :
    update ∈ ((byNumber pullRequests).map (place pullRequests)).filterMap Placement.update ↔
      ∃ pullRequest ∈ pullRequests, baseUpdate pullRequests pullRequest = some update := by
  simp only [List.filterMap_map, List.mem_filterMap, Function.comp_def, place]
  constructor
  · rintro ⟨⟨_, pullRequest⟩, member, found⟩
    exact ⟨pullRequest, ((mem_byNumber distinct).mp member).1, found⟩
  · rintro ⟨pullRequest, member, found⟩
    exact ⟨_, (mem_byNumber distinct).mpr ⟨member, rfl⟩, found⟩

theorem updates_nodup (distinct : DistinctNumbers pullRequests) :
    ((((byNumber pullRequests).map (place pullRequests)).filterMap Placement.update).map
      BaseUpdate.pullRequest).Nodup := by
  rw [List.filterMap_map]
  refine List.pairwise_map.mpr (List.pairwise_filterMap.mpr ?_)
  refine (byNumber_ordered pullRequests).imp_of_mem ?_
  rintro ⟨_, one⟩ ⟨_, two⟩ inFirst inSecond less first found second found'
  obtain ⟨_, rfl⟩ := (mem_byNumber distinct).mp inFirst
  obtain ⟨_, rfl⟩ := (mem_byNumber distinct).mp inSecond
  obtain ⟨_, _, _, _, rfl⟩ := (baseUpdate_eq_some distinct).mp found
  obtain ⟨_, _, _, _, rfl⟩ := (baseUpdate_eq_some distinct).mp found'
  exact less.ne

/-! ### The order of the list -/

section Orderless

variable {others : List StackPullRequest}

theorem ParentOf.congr (same : ∀ other, other ∈ others ↔ other ∈ pullRequests) :
    ParentOf others = ParentOf pullRequests := by
  funext child parent
  simp [ParentOf, same]

theorem Edge.congr (same : ∀ other, other ∈ others ↔ other ∈ pullRequests) :
    Edge others = Edge pullRequests := by
  funext child parent
  simp [Edge, same, ParentOf.congr same]

theorem Root.congr (same : ∀ other, other ∈ others ↔ other ∈ pullRequests) :
    Root others = Root pullRequests := by
  funext number
  simp [Root, same, Edge.congr same]

theorem OneChain.congr (same : ∀ other, other ∈ others ↔ other ∈ pullRequests)
    (chain : OneChain pullRequests) : OneChain others := by
  have edges := Edge.congr same
  have roots := Root.congr same
  exact ⟨edges ▸ chain.acyclic, roots ▸ chain.root, edges ▸ chain.noSharedParent⟩

theorem Placeable.congr (same : ∀ other, other ∈ others ↔ other ∈ pullRequests)
    (placeable : Placeable pullRequests) : Placeable others := by
  intro pullRequest member
  obtain ⟨unambiguous, declared⟩ := placeable pullRequest ((same _).mp member)
  constructor
  · intro first inFirst second inSecond
    exact unambiguous first ((same _).mp inFirst) second ((same _).mp inSecond)
  · intro parent explicit
    obtain ⟨⟨other, inside, number⟩, fits⟩ := declared parent explicit
    exact ⟨⟨other, (same _).mpr inside, number⟩, fun other inside => fits other ((same _).mp inside)⟩

theorem byNumber_congr (distinct : DistinctNumbers pullRequests) (others_ : DistinctNumbers others)
    (same : ∀ other, other ∈ others ↔ other ∈ pullRequests) :
    byNumber others = byNumber pullRequests := by
  refine (byNumber_ordered others).ext (byNumber_ordered pullRequests) fun key => ?_
  apply Option.ext
  intro pullRequest
  rw [lookup_byNumber others_, lookup_byNumber distinct, same]

theorem place_congr (distinct : DistinctNumbers pullRequests) (others_ : DistinctNumbers others)
    (same : ∀ other, other ∈ others ↔ other ∈ pullRequests) (placeable : Placeable pullRequests) :
    (byNumber others).map (place others) = (byNumber pullRequests).map (place pullRequests) := by
  rw [byNumber_congr distinct others_ same]
  refine List.map_congr_left fun entry member => ?_
  have inside := ((mem_byNumber distinct).mp member).1
  have parents : parentOf others entry.2 = parentOf pullRequests entry.2 := by
    apply Option.ext
    intro parent
    rw [parentOf_eq_some others_ (placeable.congr same _ ((same _).mpr inside)).1,
      parentOf_eq_some distinct (placeable _ inside).1, ParentOf.congr same]
  have updates : baseUpdate others entry.2 = baseUpdate pullRequests entry.2 := by
    rw [baseUpdate, baseUpdate, byNumber_congr distinct others_ same]
  rw [place, place, parents, updates]

end Orderless

/-- A stack is planned exactly when its parents form one chain, and the plan lists this chain. -/
theorem stack_planning {pullRequests : List StackPullRequest} (nonempty : pullRequests ≠ [])
    (distinct : DistinctNumbers pullRequests) : StackPlanning pullRequests where
  accepted := by
    constructor
    · rintro ⟨result, planned⟩
      obtain ⟨⟨placeable, chain⟩, _⟩ := (plan_eq_ok distinct nonempty).mp planned
      exact ⟨fun _ member => (placeable _ member).1, fun _ member => (placeable _ member).2, chain⟩
    · rintro ⟨unambiguous, declared, chain⟩
      have placeable : Placeable pullRequests :=
        fun _ member => ⟨unambiguous _ member, declared _ member⟩
      obtain ⟨root, isRoot, _⟩ := chain.root
      obtain ⟨order, walked, _⟩ := walk_chain distinct placeable chain isRoot
      exact ⟨⟨order, _⟩, (plan_eq_ok distinct nonempty).mpr
        ⟨⟨placeable, chain⟩, root, isRoot, walked, rfl⟩⟩
  planned result planned := by
    obtain ⟨⟨placeable, chain⟩, root, isRoot, walked, updates⟩ :=
      (plan_eq_ok distinct nonempty).mp planned
    obtain ⟨order, found, perm, first, steps⟩ := walk_chain distinct placeable chain isRoot
    rw [walked] at found
    cases found
    refine ⟨perm, ⟨root, first, isRoot⟩, steps, fun update => ?_, ?_⟩
    · rw [updates, mem_updates distinct]
      simp only [baseUpdate_eq_some distinct]
    · rw [updates]
      exact updates_nodup distinct
  orderless others result perm planned := by
    have same : ∀ other, other ∈ others ↔ other ∈ pullRequests := fun _ => perm.mem_iff
    have others_ : DistinctNumbers others := (perm.map _).nodup_iff.mpr distinct
    have nonempty' : others ≠ [] := by
      rintro rfl
      exact nonempty (List.nil_perm.mp perm)
    obtain ⟨⟨placeable, chain⟩, root, isRoot, walked, updates⟩ :=
      (plan_eq_ok distinct nonempty).mp planned
    have placements := place_congr distinct others_ same placeable
    have parents : parentEntries others = parentEntries pullRequests := by
      rw [← parentsOf_place, placements, parentsOf_place]
    refine (plan_eq_ok others_ nonempty').mpr
      ⟨⟨placeable.congr same, chain.congr same⟩, root, Root.congr same ▸ isRoot, ?_, ?_⟩
    · rw [parents, perm.length_eq, walked]
    · rw [placements, updates]
  ends := plan_ends pullRequests
  complete placements order walked := by
    obtain ⟨⟨placeable, chain⟩, _, root, isRoot, walked⟩ :=
      (walkStack_eq_ok distinct nonempty).mp walked
    obtain ⟨other, found, perm, _⟩ := walk_chain distinct placeable chain isRoot
    rw [walked] at found
    cases found
    simpa using perm.length_eq

theorem stack_planning_top : StackPlanning [top, bottom, middle] :=
  stack_planning (by simp) (by unfold DistinctNumbers; decide)

end PiTools.Stack
