import PiTools.Stack.Chain

/-
This file compares the parents in the plan of a component with the parents that
the same rules choose among all pull requests.
-/

namespace PiTools.Stack

open Library

variable {pullRequests component : List StackPullRequest}

/-! ### Connections -/

/-- The partition sees one number as the parent of the other one. -/
def Connected (pullRequests : List StackPullRequest) (child parent : Int) : Prop :=
  ∃ pullRequest ∈ pullRequests, pullRequest.number = child ∧
    partitionParent pullRequests pullRequest = some parent

/-- A connection joins both of its ends. -/
def Linked (pullRequests : List StackPullRequest) (first second : Int) : Prop :=
  Connected pullRequests first second ∨ Connected pullRequests second first

theorem Linked.symm {first second : Int} (linked : Linked pullRequests first second) :
    Linked pullRequests second first :=
  Or.symm linked

theorem mem_neighborsOf_connect {adjacency : Entries Int NumberSet} {first second number : Int}
    {neighbor : Int} :
    neighbor ∈ neighborsOf (connect adjacency first second) number ↔
      (number = first ∧ neighbor = second) ∨ neighbor ∈ neighborsOf adjacency number := by
  unfold neighborsOf connect
  rw [Entries.lookup_insert]
  split
  · rename_i same
    simp [same, NumberSet.numbers, Entries.mem_keys_insert]
  · rename_i different
    simp [different]

theorem mem_neighborsOf_foldl {rest : List StackPullRequest} {adjacency : Entries Int NumberSet}
    {number neighbor : Int} :
    neighbor ∈ neighborsOf (rest.foldl (connectParent pullRequests) adjacency) number ↔
      neighbor ∈ neighborsOf adjacency number ∨
        ∃ pullRequest ∈ rest, ∃ parent, partitionParent pullRequests pullRequest = some parent ∧
          ((number = pullRequest.number ∧ neighbor = parent) ∨
            (number = parent ∧ neighbor = pullRequest.number)) := by
  induction rest generalizing adjacency with
  | nil => simp
  | cons pullRequest rest ih =>
      rw [List.foldl_cons, ih, List.exists_mem_cons_iff, connectParent, ← or_assoc]
      refine or_congr_left ?_
      cases found : partitionParent pullRequests pullRequest with
      | none => simp
      | some parent =>
          simp only [mem_neighborsOf_connect, Option.some.injEq, exists_eq_left']
          tauto

theorem neighborsOf_unconnected (numbers : Entries Int StackPullRequest) (number : Int) :
    neighborsOf (numbers.map fun entry => (entry.1, [])) number = [] := by
  unfold neighborsOf
  induction numbers with
  | nil => rfl
  | cons first rest ih =>
      simp only [List.map_cons, Entries.lookup]
      split
      · rfl
      · exact ih

/-- The neighbors of a number are the numbers that are linked with it. -/
theorem mem_neighborsOf_adjacencyOf {number neighbor : Int} :
    neighbor ∈ neighborsOf (adjacencyOf pullRequests) number ↔
      Linked pullRequests number neighbor := by
  rw [adjacencyOf, mem_neighborsOf_foldl, neighborsOf_unconnected]
  simp only [List.not_mem_nil, false_or, Linked, Connected]
  constructor
  · rintro ⟨pullRequest, member, parent, found, ⟨rfl, rfl⟩ | ⟨rfl, rfl⟩⟩
    · exact .inl ⟨pullRequest, member, rfl, found⟩
    · exact .inr ⟨pullRequest, member, rfl, found⟩
  · rintro (⟨pullRequest, member, rfl, found⟩ | ⟨pullRequest, member, rfl, found⟩)
    · exact ⟨pullRequest, member, neighbor, found, .inl ⟨rfl, rfl⟩⟩
    · exact ⟨pullRequest, member, number, found, .inr ⟨rfl, rfl⟩⟩

theorem mem_numbers (distinct : DistinctNumbers pullRequests) {number : Int} :
    number ∈ (byNumber pullRequests).map Prod.fst ↔
      ∃ pullRequest ∈ pullRequests, pullRequest.number = number := by
  rw [List.mem_map]
  constructor
  · rintro ⟨⟨_, pullRequest⟩, member, rfl⟩
    exact ⟨pullRequest, (mem_byNumber distinct).mp member⟩
  · rintro ⟨pullRequest, member, same⟩
    exact ⟨(number, pullRequest), (mem_byNumber distinct).mpr ⟨member, same⟩, rfl⟩

/-- Both ends of a connection are numbers of pull requests. -/
theorem Connected.present (distinct : DistinctNumbers pullRequests) {child parent : Int}
    (connected : Connected pullRequests child parent) :
    child ∈ (byNumber pullRequests).map Prod.fst ∧
      parent ∈ (byNumber pullRequests).map Prod.fst := by
  obtain ⟨pullRequest, member, same, found⟩ := connected
  refine ⟨(mem_numbers distinct).mpr ⟨pullRequest, member, same⟩, ?_⟩
  obtain ⟨other, lookup⟩ := Option.isSome_iff_exists.mp (Option.filter_eq_some_iff.mp found).2
  exact (mem_numbers distinct).mpr ⟨other, (lookup_byNumber distinct).mp lookup⟩

theorem neighborsOf_present (distinct : DistinctNumbers pullRequests) (number : Int) :
    ∀ neighbor ∈ neighborsOf (adjacencyOf pullRequests) number,
      neighbor ∈ (byNumber pullRequests).map Prod.fst := by
  intro neighbor adjacent
  rcases mem_neighborsOf_adjacencyOf.mp adjacent with forward | backward
  · exact (forward.present distinct).2
  · exact (backward.present distinct).1

/-! ### Components -/

/-- A component contains whole connections of the pull requests. -/
structure Component (pullRequests component : List StackPullRequest) : Prop where
  distinct : DistinctNumbers component
  subset : component ⊆ pullRequests
  closed : ∀ member ∈ component, ∀ other ∈ pullRequests,
    Linked pullRequests member.number other.number → other ∈ component

/-- The pull requests with some numbers, in the order of the numbers. -/
def members (pullRequests : List StackPullRequest) (numbers : List Int) : List StackPullRequest :=
  (numbers.insertionSort (· ≤ ·)).filterMap fun number => (byNumber pullRequests).lookup number

theorem mem_members (distinct : DistinctNumbers pullRequests) {numbers : List Int}
    {pullRequest : StackPullRequest} :
    pullRequest ∈ members pullRequests numbers ↔
      pullRequest ∈ pullRequests ∧ pullRequest.number ∈ numbers := by
  simp only [members, List.mem_filterMap, List.mem_insertionSort, lookup_byNumber distinct]
  constructor
  · rintro ⟨_, inside, member, rfl⟩
    exact ⟨member, inside⟩
  · rintro ⟨member, inside⟩
    exact ⟨_, inside, member, rfl⟩

/-- The searches end with components that contain every pull request. -/
theorem partition_components (distinct : DistinctNumbers pullRequests) :
    ∃ components, partition pullRequests = some components ∧
      (∀ component ∈ components, Component pullRequests component) ∧
        ∀ pullRequest ∈ pullRequests, ∃ component ∈ components, pullRequest ∈ component := by
  let neighbors := neighborsOf (adjacencyOf pullRequests)
  have ends : searchComponents neighbors (byNumber pullRequests).length
      ((byNumber pullRequests).map Prod.fst) [] ≠ none :=
    searchComponents_ends (neighborsOf_present distinct) (List.Subset.refl _) (by simp) []
  obtain ⟨found, searched⟩ := Option.ne_none_iff_exists'.mp ends
  have symmetric : ∀ number, ∀ neighbor ∈ neighbors number, number ∈ neighbors neighbor :=
    fun number neighbor adjacent => mem_neighborsOf_adjacencyOf.mpr
      (mem_neighborsOf_adjacencyOf.mp adjacent).symm
  have spec := searchComponents_spec symmetric (by simp [Closed]) searched
  refine ⟨found.map (members pullRequests), by rw [partition, searched]; rfl, ?_, ?_⟩
  · rw [List.forall_mem_map]
    intro numbers among
    constructor
    · have sorted := (List.perm_insertionSort (· ≤ ·) numbers).nodup_iff.mpr (spec.nodup _ among)
      refine List.pairwise_map.mpr (List.pairwise_filterMap.mpr ?_)
      refine sorted.imp fun different first found second found' => ?_
      rwa [((lookup_byNumber distinct).mp found).2, ((lookup_byNumber distinct).mp found').2]
    · exact fun pullRequest member => ((mem_members distinct).mp member).1
    · intro member inside other present linked
      have adjacent := mem_neighborsOf_adjacencyOf.mpr linked
      have closed := spec.closed numbers among _ ((mem_members distinct).mp inside).2
      exact (mem_members distinct).mpr ⟨present, closed _ adjacent⟩
  · intro pullRequest present
    have start := (mem_numbers distinct).mpr ⟨pullRequest, present, rfl⟩
    rcases spec.covers _ start with visited | ⟨numbers, among, inside⟩
    · cases visited
    · exact ⟨_, List.mem_map_of_mem among, (mem_members distinct).mpr ⟨present, inside⟩⟩

/-! ### Parents -/

/-- The rules over all pull requests choose the parent that the component has. -/
def KeepsParent (pullRequests component : List StackPullRequest) (member : StackPullRequest) :
    Prop :=
  ∃ parent update update', chooseParent component member = .ok (parent, update) ∧
    chooseParent pullRequests member = .ok (parent, update')

/-- The base of a member is not the head of a pull request outside. -/
def NoOutsideHead (pullRequests component : List StackPullRequest) : Prop :=
  ∀ member ∈ component, ∀ other ∈ pullRequests, other.headBranch = member.baseBranch →
    other ∈ component

theorem keepsParent_iff (distinct : DistinctNumbers pullRequests)
    (part : Component pullRequests component) (placeable : Placeable component)
    {member : StackPullRequest} (inside : member ∈ component) :
    KeepsParent pullRequests component member ↔
      (Unambiguous pullRequests member ∧ Declared pullRequests member) ∧
        parentOf component member = parentOf pullRequests member := by
  simp only [KeepsParent, chooseParent_eq_ok distinct, chooseParent_eq_ok part.distinct,
    Prod.mk.injEq]
  constructor
  · rintro ⟨_, _, _, ⟨_, rfl, rfl⟩, accepted, same, rfl⟩
    exact ⟨accepted, same⟩
  · rintro ⟨accepted, same⟩
    exact ⟨_, _, _, ⟨placeable member inside, rfl, rfl⟩, accepted, same, rfl⟩

/-- A parent that is kept lies in the component, and so does every head of the base. -/
theorem KeepsParent.head_inside (distinct : DistinctNumbers pullRequests)
    (part : Component pullRequests component) (placeable : Placeable component)
    {member other : StackPullRequest} (inside : member ∈ component)
    (keeps : KeepsParent pullRequests component member) (present : other ∈ pullRequests)
    (head : other.headBranch = member.baseBranch) : other ∈ component := by
  obtain ⟨⟨unambiguous, declared⟩, same⟩ := (keepsParent_iff distinct part placeable inside).mp keeps
  obtain ⟨parent, among, number⟩ : ∃ parent ∈ component, parent.number = other.number := by
    cases explicit : member.explicitParent with
    | some parent =>
        rw [(declared parent explicit).2 other present head]
        exact ((placeable member inside).2 parent explicit).1
    | none =>
        have chosen : ParentOf pullRequests member other.number :=
          .inr ⟨explicit, other, present, head, rfl⟩
        rw [← parentOf_eq_some distinct unambiguous, ← same,
          parentOf_eq_some part.distinct (placeable member inside).1] at chosen
        rcases chosen with declared' | ⟨_, parent, among, _, number⟩
        · rw [explicit] at declared'
          cases declared'
        · exact ⟨parent, among, number⟩
  rwa [← distinct.eq (part.subset among) present number]

/-- Without outside heads the rules see the same candidates. -/
theorem NoOutsideHead.keepsParent (distinct : DistinctNumbers pullRequests)
    (part : Component pullRequests component) (placeable : Placeable component)
    (heads : NoOutsideHead pullRequests component) {member : StackPullRequest}
    (inside : member ∈ component) : KeepsParent pullRequests component member := by
  obtain ⟨unambiguous, declared⟩ := placeable member inside
  have known := heads member inside
  have unambiguous' : Unambiguous pullRequests member := fun first inFirst second inSecond one two =>
    unambiguous first (known first inFirst one) second (known second inSecond two) one two
  refine (keepsParent_iff distinct part placeable inside).mpr ⟨⟨unambiguous', ?_⟩, ?_⟩
  · intro parent explicit
    obtain ⟨⟨other, among, number⟩, fits⟩ := declared parent explicit
    exact ⟨⟨other, part.subset among, number⟩,
      fun other present head => fits other (known other present head) head⟩
  · apply Option.ext
    intro parent
    rw [parentOf_eq_some part.distinct unambiguous, parentOf_eq_some distinct unambiguous']
    refine or_congr_right (and_congr_right fun _ => ⟨?_, ?_⟩)
    · rintro ⟨other, among, head, number⟩
      exact ⟨other, part.subset among, head, number⟩
    · rintro ⟨other, present, head, number⟩
      exact ⟨other, known other present head, head, number⟩

theorem plan_placeable (distinct : DistinctNumbers component) {result : StackPlan}
    (planned : (plan component).run = some (.ok result)) : Placeable component := by
  have nonempty : component ≠ [] := by
    rintro rfl
    cases planned
  exact ((plan_eq_ok distinct nonempty).mp planned).1.1

/-- An outside head stays unseen behind a declared parent or beside another such head. -/
theorem outside_head (distinct : DistinctNumbers pullRequests)
    (part : Component pullRequests component) {member other : StackPullRequest}
    (inside : member ∈ component) (present : other ∈ pullRequests)
    (head : other.headBranch = member.baseBranch) (outside : other ∉ component) :
    (∃ parent, member.explicitParent = some parent) ∨ ¬ Unambiguous pullRequests member := by
  by_contra neither
  obtain ⟨undeclared, unambiguous⟩ := not_or.mp neither
  have explicit : member.explicitParent = none := by
    simpa [Option.eq_none_iff_forall_ne_some] using undeclared
  have short := (byHead_short distinct).mpr (not_not.mp unambiguous)
  have found : other.number ∈ byHead pullRequests member.baseBranch :=
    mem_byHead.mpr ⟨other, present, head, rfl⟩
  have single : (byHead pullRequests member.baseBranch).length = 1 :=
    le_antisymm short (List.length_pos_of_mem found)
  have parent : partitionParent pullRequests member = some other.number := by
    have lookup := (lookup_byNumber distinct).mpr ⟨present, rfl⟩
    rw [partitionParent, explicit, Option.none_or, if_pos single,
      (mem_byHead_of_short short).mpr found, Option.filter_some, lookup]
    rfl
  exact outside (part.closed member inside other present
    (.inl ⟨member, part.subset inside, rfl, parent⟩))

/-- A component that is planned has the parents of the whole set exactly when no pull request
outside has the base branch of a member as its head branch. -/
theorem component_parents (distinct : DistinctNumbers pullRequests) :
    ∃ components, partition pullRequests = some components ∧
      ∀ component ∈ components, ∀ result, (plan component).run = some (.ok result) →
        ((∀ member ∈ component, KeepsParent pullRequests component member) ↔
          NoOutsideHead pullRequests component) := by
  obtain ⟨components, partitioned, parts, _⟩ := partition_components distinct
  refine ⟨components, partitioned, fun component among result planned => ?_⟩
  have part := parts component among
  have placeable := plan_placeable part.distinct planned
  constructor
  · intro keeps member inside other present head
    exact (keeps member inside).head_inside distinct part placeable inside present head
  · intro heads member inside
    exact heads.keepsParent distinct part placeable inside

/-- A pull request with a declared parent and the head of another one as its base. -/
def diverted : List StackPullRequest :=
  [⟨1, "stack/bottom", "main", none⟩, ⟨2, "stack/top", "stack/other", some 1⟩,
    ⟨3, "stack/other", "main", none⟩]

theorem component_parents_diverted :
    ∃ components, partition diverted = some components ∧
      ∀ component ∈ components, ∀ result, (plan component).run = some (.ok result) →
        ((∀ member ∈ component, KeepsParent diverted component member) ↔
          NoOutsideHead diverted component) :=
  component_parents (by unfold DistinctNumbers; decide)

theorem conflicting_parent_hidden :
    ¬ ∀ pullRequests, DistinctNumbers pullRequests → ∀ components,
      partition pullRequests = some components → ∀ component ∈ components, ∀ result,
        (plan component).run = some (.ok result) → 1 < result.mergeOrder.length →
          ∀ member ∈ component, KeepsParent pullRequests component member := by
  intro claimed
  have partitioned : partition diverted = some [[⟨1, "stack/bottom", "main", none⟩,
      ⟨2, "stack/top", "stack/other", some 1⟩], [⟨3, "stack/other", "main", none⟩]] := by decide
  have planned : (plan [⟨1, "stack/bottom", "main", none⟩,
      ⟨2, "stack/top", "stack/other", some 1⟩]).run =
        some (.ok ⟨[1, 2], [⟨2, "stack/other", "stack/bottom"⟩]⟩) := by decide
  have rejected : chooseParent diverted ⟨2, "stack/top", "stack/other", some 1⟩ =
      .error (.conflictingParent 2 1 3) := by decide
  obtain ⟨_, _, _, _, accepted⟩ := claimed diverted (by unfold DistinctNumbers; decide) _
    partitioned _ List.mem_cons_self _ planned (by decide) ⟨2, "stack/top", "stack/other", some 1⟩
    (by simp)
  rw [rejected] at accepted
  cases accepted

end PiTools.Stack
