import Mathlib.Data.List.Flatten
import PiTools.Stack.Partition

/-
This file shows that the partition divides pull requests into the connected
components of the graph of their parents.
-/

namespace PiTools.Stack

open Library

variable {pullRequests others : List StackPullRequest}

/-! ### The graph -/

/-- A pull request declares its parent, or it declares none and the parent is the only pull request
with its base as head branch. -/
structure ParentIn (pullRequests : List StackPullRequest) (child parent : StackPullRequest) : Prop where
  inChild : child ∈ pullRequests
  inParent : parent ∈ pullRequests
  chosen : child.explicitParent = some parent.number ∨
    (child.explicitParent = none ∧ parent.headBranch = child.baseBranch ∧
      ∀ other ∈ pullRequests, other.headBranch = child.baseBranch → other = parent)

/-- An edge has no direction. -/
def Joined (pullRequests : List StackPullRequest) (first second : StackPullRequest) : Prop :=
  ParentIn pullRequests first second ∨ ParentIn pullRequests second first

/-- Pull requests are connected when edges lead from one to the other. -/
def ConnectedIn (pullRequests : List StackPullRequest) :
    StackPullRequest → StackPullRequest → Prop :=
  Relation.ReflTransGen (Joined pullRequests)

/-- No number of a component is smaller. -/
def Smallest (component : List StackPullRequest) (number : Int) : Prop :=
  (∃ member ∈ component, member.number = number) ∧ ∀ member ∈ component, number ≤ member.number

/-- The components are the connected components of the graph, in the order of their numbers. -/
structure ConnectedComponents (pullRequests : List StackPullRequest)
    (components : List (List StackPullRequest)) : Prop where
  nonempty : ∀ component ∈ components, component ≠ []
  perm : components.flatten.Perm pullRequests
  sorted : ∀ component ∈ components,
    component.Pairwise fun first second => first.number < second.number
  ordered : components.Pairwise fun first second => ∀ small large,
    Smallest first small → Smallest second large → small < large
  connected : ∀ first ∈ pullRequests, ∀ second ∈ pullRequests,
    (∃ component ∈ components, first ∈ component ∧ second ∈ component) ↔
      ConnectedIn pullRequests first second

theorem ParentIn.congr (same : ∀ other, other ∈ others ↔ other ∈ pullRequests)
    {child parent : StackPullRequest} :
    ParentIn others child parent ↔ ParentIn pullRequests child parent := by
  constructor
  · rintro ⟨inside, present, chosen⟩
    simp only [same] at inside present chosen
    exact ⟨inside, present, chosen⟩
  · rintro ⟨inside, present, chosen⟩
    simp only [← same] at inside present chosen
    exact ⟨inside, present, chosen⟩

/-! ### Neighbors -/

theorem byHead_nodup (distinct : DistinctNumbers pullRequests) (branch : String) :
    (byHead pullRequests branch).Nodup :=
  distinct.sublist (List.filter_sublist.map _)

/-- A number is the only one with a head branch when its pull request is the only one. -/
theorem single_byHead (distinct : DistinctNumbers pullRequests) {branch : String} {number : Int} :
    (if (byHead pullRequests branch).length = 1 then (byHead pullRequests branch).head? else none) =
        some number ↔
      ∃ parent ∈ pullRequests, parent.number = number ∧ parent.headBranch = branch ∧
        ∀ other ∈ pullRequests, other.headBranch = branch → other = parent := by
  constructor
  · intro found
    split at found
    · rename_i single
      obtain ⟨only, heads⟩ := List.length_eq_one_iff.mp single
      rw [heads] at found
      cases found
      obtain ⟨parent, member, head, number_⟩ := mem_byHead.mp (heads ▸ List.mem_singleton_self number)
      refine ⟨parent, member, number_, head, fun other present same => ?_⟩
      have among : other.number ∈ byHead pullRequests branch := mem_byHead.mpr ⟨other, present, same, rfl⟩
      rw [heads, List.mem_singleton, ← number_] at among
      exact distinct.eq present member among
    · cases found
  · rintro ⟨parent, member, rfl, head, unique⟩
    have heads : byHead pullRequests branch = [parent.number] := by
      rw [← List.perm_singleton, List.perm_ext_iff_of_nodup (byHead_nodup distinct branch)
        (List.nodup_singleton _)]
      intro number
      rw [mem_byHead, List.mem_singleton]
      constructor
      · rintro ⟨other, present, same, rfl⟩
        rw [unique other present same]
      · rintro rfl
        exact ⟨parent, member, head, rfl⟩
    rw [heads]
    rfl

/-- The partition finds the parent that the graph has. -/
theorem partitionParent_eq_some (distinct : DistinctNumbers pullRequests)
    {child : StackPullRequest} (member : child ∈ pullRequests) {number : Int} :
    partitionParent pullRequests child = some number ↔
      ∃ parent, parent.number = number ∧ ParentIn pullRequests child parent := by
  have present : ((byNumber pullRequests).lookup number).isSome = true ↔
      ∃ parent ∈ pullRequests, parent.number = number := by
    rw [Option.isSome_iff_exists]
    exact exists_congr fun parent => lookup_byNumber distinct
  unfold partitionParent
  rw [Option.filter_eq_some_iff, present, Option.or_eq_some_iff, single_byHead distinct]
  constructor
  · rintro ⟨declared | ⟨undeclared, parent, inside, rfl, head, unique⟩, some_⟩
    · obtain ⟨parent, inside, rfl⟩ := some_
      exact ⟨parent, rfl, member, inside, .inl declared⟩
    · exact ⟨parent, rfl, member, inside, .inr ⟨undeclared, head, unique⟩⟩
  · rintro ⟨parent, rfl, _, inside, declared | ⟨undeclared, head, unique⟩⟩
    · exact ⟨.inl declared, parent, inside, rfl⟩
    · exact ⟨.inr ⟨undeclared, parent, inside, rfl, head, unique⟩, parent, inside, rfl⟩

theorem connected_iff (distinct : DistinctNumbers pullRequests) {child parent : Int} :
    Connected pullRequests child parent ↔
      ∃ first second, first.number = child ∧ second.number = parent ∧
        ParentIn pullRequests first second := by
  constructor
  · rintro ⟨first, member, rfl, found⟩
    obtain ⟨second, number, edge⟩ := (partitionParent_eq_some distinct member).mp found
    exact ⟨first, second, rfl, number, edge⟩
  · rintro ⟨first, second, rfl, rfl, edge⟩
    exact ⟨first, edge.inChild, rfl, (partitionParent_eq_some distinct edge.inChild).mpr
      ⟨second, rfl, edge⟩⟩

/-- The numbers of joined pull requests are linked. -/
theorem linked_iff (distinct : DistinctNumbers pullRequests) {first second : Int} :
    Linked pullRequests first second ↔
      ∃ left right, left.number = first ∧ right.number = second ∧ Joined pullRequests left right := by
  simp only [Linked, connected_iff distinct, Joined]
  constructor
  · rintro (⟨left, right, rfl, rfl, edge⟩ | ⟨left, right, rfl, rfl, edge⟩)
    · exact ⟨left, right, rfl, rfl, .inl edge⟩
    · exact ⟨right, left, rfl, rfl, .inr edge⟩
  · rintro ⟨left, right, rfl, rfl, edge | edge⟩
    · exact .inl ⟨left, right, rfl, rfl, edge⟩
    · exact .inr ⟨right, left, rfl, rfl, edge⟩

theorem Joined.present {first second : StackPullRequest} (joined : Joined pullRequests first second) :
    first ∈ pullRequests ∧ second ∈ pullRequests := by
  rcases joined with edge | edge
  · exact ⟨edge.inChild, edge.inParent⟩
  · exact ⟨edge.inParent, edge.inChild⟩

/-- A search reaches the numbers of connected pull requests. -/
theorem reaches_iff (distinct : DistinctNumbers pullRequests) {first second : StackPullRequest}
    (inFirst : first ∈ pullRequests) (inSecond : second ∈ pullRequests) :
    Reaches (neighborsOf (adjacencyOf pullRequests)) first.number second.number ↔
      ConnectedIn pullRequests first second := by
  constructor
  · intro reached
    have lifted : ∀ number, Reaches (neighborsOf (adjacencyOf pullRequests)) first.number number →
        ∃ last ∈ pullRequests, last.number = number ∧ ConnectedIn pullRequests first last := by
      intro number reached
      induction reached with
      | refl => exact ⟨first, inFirst, rfl, .refl⟩
      | tail _ step ih =>
          obtain ⟨last, member, rfl, connected⟩ := ih
          obtain ⟨left, right, same, rfl, joined⟩ :=
            (linked_iff distinct).mp (mem_neighborsOf_adjacencyOf.mp step)
          rw [distinct.eq joined.present.1 member same] at joined
          exact ⟨right, joined.present.2, rfl, connected.tail joined⟩
    obtain ⟨last, member, same, connected⟩ := lifted _ reached
    rwa [distinct.eq member inSecond same] at connected
  · intro connected
    refine Relation.ReflTransGen.lift StackPullRequest.number (fun left right joined => ?_) _ _ connected
    exact mem_neighborsOf_adjacencyOf.mpr ((linked_iff distinct).mpr ⟨left, right, rfl, rfl, joined⟩)

/-! ### The order of the list -/

/-- The neighbors of every number increase. -/
def SortedNeighbors (adjacency : Entries Int NumberSet) : Prop :=
  ∀ number, (neighborsOf adjacency number).Pairwise (· < ·)

theorem SortedNeighbors.connect {adjacency : Entries Int NumberSet} (sorted : SortedNeighbors adjacency)
    (first second : Int) : SortedNeighbors (connect adjacency first second) := by
  intro number
  unfold neighborsOf Stack.connect
  rw [Entries.lookup_insert]
  split
  · have old : Entries.Ordered ((adjacency.lookup first).getD []) :=
      List.pairwise_map.mp (sorted first)
    exact List.pairwise_map.mpr (old.insert second ())
  · exact sorted number

theorem adjacencyOf_sorted (pullRequests : List StackPullRequest) :
    SortedNeighbors (adjacencyOf pullRequests) := by
  have kept : ∀ (rest : List StackPullRequest) (adjacency : Entries Int NumberSet),
      SortedNeighbors adjacency →
        SortedNeighbors (rest.foldl (connectParent pullRequests) adjacency) := by
    intro rest
    induction rest with
    | nil => exact fun _ sorted => sorted
    | cons pullRequest rest ih =>
        intro adjacency sorted
        rw [List.foldl_cons]
        apply ih
        unfold connectParent
        split
        · exact (sorted.connect _ _).connect _ _
        · exact sorted
  apply kept
  intro number
  rw [neighborsOf_unconnected]
  exact .nil

/-- Increasing lists with the same members are equal. -/
theorem increasing_ext {first second : List Int} (inFirst : first.Pairwise (· < ·))
    (inSecond : second.Pairwise (· < ·)) (same : ∀ number, number ∈ first ↔ number ∈ second) :
    first = second := by
  apply List.Perm.eq_of_pairwise (fun left right _ _ less greater => ?_) inFirst inSecond
  · exact (List.perm_ext_iff_of_nodup (inFirst.imp fun less => less.ne)
      (inSecond.imp fun less => less.ne)).mpr same
  · exact absurd less greater.asymm

/-- The partition sees the pull requests and not their order. -/
theorem partition_congr (distinct : DistinctNumbers pullRequests) (others_ : DistinctNumbers others)
    (same : ∀ other, other ∈ others ↔ other ∈ pullRequests) :
    partition others = partition pullRequests := by
  have neighbors : neighborsOf (adjacencyOf others) = neighborsOf (adjacencyOf pullRequests) := by
    funext number
    apply increasing_ext (adjacencyOf_sorted others number) (adjacencyOf_sorted pullRequests number)
    intro neighbor
    rw [mem_neighborsOf_adjacencyOf, mem_neighborsOf_adjacencyOf, linked_iff others_,
      linked_iff distinct]
    simp only [Joined, ParentIn.congr same]
  unfold partition
  rw [byNumber_congr distinct others_ same, neighbors]

/-! ### The components -/

theorem members_sorted (distinct : DistinctNumbers pullRequests) {numbers : List Int}
    (nodup : numbers.Nodup) :
    (members pullRequests numbers).Pairwise fun first second => first.number < second.number := by
  have sorted := List.pairwise_insertionSort (· ≤ ·) numbers
  have apart := (List.perm_insertionSort (· ≤ ·) numbers).nodup_iff.mpr nodup
  refine List.pairwise_filterMap.mpr ((sorted.and apart).imp fun less first found second found' => ?_)
  rw [((lookup_byNumber distinct).mp found).2, ((lookup_byNumber distinct).mp found').2]
  exact lt_of_le_of_ne less.1 less.2

/-- The components of a list of pull requests are its connected components. -/
theorem division_components (distinct : DistinctNumbers pullRequests) {found : List (List Int)}
    (searched : searchComponents (neighborsOf (adjacencyOf pullRequests))
      (byNumber pullRequests).length ((byNumber pullRequests).map Prod.fst) [] = some found) :
    ConnectedComponents pullRequests (found.map (members pullRequests)) := by
  have symmetric : ∀ number, ∀ neighbor ∈ neighborsOf (adjacencyOf pullRequests) number,
      number ∈ neighborsOf (adjacencyOf pullRequests) neighbor :=
    fun number neighbor adjacent => mem_neighborsOf_adjacencyOf.mpr
      (mem_neighborsOf_adjacencyOf.mp adjacent).symm
  have spec := searchComponents_spec symmetric (by simp [Closed]) searched
  have increasing : ((byNumber pullRequests).map Prod.fst).Pairwise (· < ·) :=
    List.pairwise_map.mpr (byNumber_ordered pullRequests)
  obtain ⟨division, inside⟩ := searchComponents_division (neighborsOf_present distinct)
    (List.Subset.refl _) (fun number member => .inr member) increasing searched
  have known : ∀ numbers ∈ found, ∀ number ∈ numbers, ∃ member ∈ pullRequests, member.number = number :=
    fun numbers among number member => (mem_numbers distinct).mp (inside numbers among member)
  constructor
  · rw [List.forall_mem_map]
    intro numbers among empty
    obtain ⟨root, member, _⟩ := division.joined numbers among
    obtain ⟨pullRequest, present, rfl⟩ := known numbers among root member
    have found := (mem_members distinct).mpr ⟨present, member⟩
    rw [empty] at found
    cases found
  · have unique : (found.map (members pullRequests)).flatten.Nodup := by
      rw [List.nodup_flatten]
      constructor
      · rw [List.forall_mem_map]
        intro numbers among
        exact (members_sorted distinct (spec.nodup numbers among)).imp fun less same =>
          less.ne (congrArg StackPullRequest.number same)
      · refine List.pairwise_map.mpr (division.apart.imp fun apart pullRequest here there => ?_)
        exact apart ((mem_members distinct).mp here).2 ((mem_members distinct).mp there).2
    rw [List.perm_ext_iff_of_nodup unique (List.Nodup.of_map _ distinct)]
    intro pullRequest
    rw [List.mem_flatten]
    constructor
    · rintro ⟨component, among, member⟩
      obtain ⟨numbers, _, rfl⟩ := List.mem_map.mp among
      exact ((mem_members distinct).mp member).1
    · intro present
      have start := (mem_numbers distinct).mpr ⟨pullRequest, present, rfl⟩
      rcases spec.covers _ start with visited | ⟨numbers, among, member⟩
      · cases visited
      · exact ⟨_, List.mem_map_of_mem among, (mem_members distinct).mpr ⟨present, member⟩⟩
  · rw [List.forall_mem_map]
    exact fun numbers among => members_sorted distinct (spec.nodup numbers among)
  · refine List.pairwise_map.mpr (List.Pairwise.imp_of_mem (fun inFirst inSecond less => ?_)
      division.ordered)
    intro small large isSmall isLarge
    obtain ⟨root, member, before⟩ := less
    obtain ⟨pullRequest, present, rfl⟩ := known _ inFirst root member
    obtain ⟨last, inLast, rfl⟩ := isLarge.1
    have below := isSmall.2 _ ((mem_members distinct).mpr ⟨present, member⟩)
    exact below.trans_lt (before _ ((mem_members distinct).mp inLast).2)
  · intro first inFirst second inSecond
    rw [← reaches_iff distinct inFirst inSecond]
    constructor
    · rintro ⟨component, among, one, two⟩
      obtain ⟨numbers, inFound, rfl⟩ := List.mem_map.mp among
      obtain ⟨root, _, reaches⟩ := division.joined numbers inFound
      have toFirst := reaches _ ((mem_members distinct).mp one).2
      have toSecond := reaches _ ((mem_members distinct).mp two).2
      exact (toFirst.symm symmetric).trans toSecond
    · intro reaches
      have start := (mem_numbers distinct).mpr ⟨first, inFirst, rfl⟩
      rcases spec.covers _ start with visited | ⟨numbers, among, member⟩
      · cases visited
      · refine ⟨_, List.mem_map_of_mem among, (mem_members distinct).mpr ⟨inFirst, member⟩,
          (mem_members distinct).mpr ⟨inSecond, ?_⟩⟩
        exact (spec.closed numbers among).reaches member reaches

/-- The searches end with the connected components, for every order of the pull requests. -/
theorem partition_connected_components (distinct : DistinctNumbers pullRequests) :
    ∃ components, ConnectedComponents pullRequests components ∧
      ∀ others : List StackPullRequest, others.Perm pullRequests →
        partition others = some components := by
  have ends : searchComponents (neighborsOf (adjacencyOf pullRequests))
      (byNumber pullRequests).length ((byNumber pullRequests).map Prod.fst) [] ≠ none :=
    searchComponents_ends (neighborsOf_present distinct) (List.Subset.refl _) (by simp) []
  obtain ⟨found, searched⟩ := Option.ne_none_iff_exists'.mp ends
  refine ⟨_, division_components distinct searched, fun others perm => ?_⟩
  have others_ : DistinctNumbers others := (perm.map StackPullRequest.number).nodup_iff.mpr distinct
  rw [partition_congr distinct others_ fun _ => perm.mem_iff, partition, searched]
  rfl

theorem partition_connected_components_top :
    ∃ components, ConnectedComponents [top, bottom, middle] components ∧
      ∀ others : List StackPullRequest, others.Perm [top, bottom, middle] →
        partition others = some components :=
  partition_connected_components (by unfold DistinctNumbers; decide)

end PiTools.Stack
