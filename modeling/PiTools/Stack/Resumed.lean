import PiTools.Stack.Chain

/-
This file shows when a stack is planned again after some of its base updates.
-/

namespace PiTools.Stack

open Library

/-- The base that the updates give to a pull request. -/
def rebased (done : List BaseUpdate) (pullRequest : StackPullRequest) : StackPullRequest :=
  { pullRequest with
    baseBranch := ((done.find? fun update => update.pullRequest = pullRequest.number).map
      BaseUpdate.toBranch).getD pullRequest.baseBranch }

/-- The pull requests after some base updates. -/
def setBases (done : List BaseUpdate) (pullRequests : List StackPullRequest) :
    List StackPullRequest :=
  pullRequests.map (rebased done)

/-- At most one pull request has the head branch. -/
def SoleHead (pullRequests : List StackPullRequest) (branch : String) : Prop :=
  ∀ first ∈ pullRequests, ∀ second ∈ pullRequests, first.headBranch = branch →
    second.headBranch = branch → first = second

variable {pullRequests : List StackPullRequest} {pullRequest : StackPullRequest}
  {done : List BaseUpdate}

/-! ### Kept fields -/

theorem byHead_setBases (branch : String) :
    byHead (setBases done pullRequests) branch = byHead pullRequests branch := by
  unfold byHead setBases
  rw [List.filter_map, List.map_map]
  rfl

theorem byNumber_setBases :
    byNumber (setBases done pullRequests) =
      (byNumber pullRequests).map fun entry => (entry.1, rebased done entry.2) := by
  unfold byNumber
  rw [← Entries.collect_map, setBases, List.map_map, List.map_map]
  rfl

theorem distinct_setBases (distinct : DistinctNumbers pullRequests) :
    DistinctNumbers (setBases done pullRequests) := by
  unfold DistinctNumbers setBases
  rw [List.map_map]
  exact distinct

theorem mem_setBases {changed : StackPullRequest} :
    changed ∈ setBases done pullRequests ↔ ∃ member ∈ pullRequests, rebased done member = changed :=
  List.mem_map

/-! ### Updates of the plan -/

/-- The updates are corrections that the pull requests need. -/
def Required (pullRequests : List StackPullRequest) (done : List BaseUpdate) : Prop :=
  ∀ update ∈ done, ∃ member ∈ pullRequests, baseUpdate pullRequests member = some update

/-- A pull request is updated to the head of its declared parent, or it stays as it is. -/
theorem rebased_cases (distinct : DistinctNumbers pullRequests)
    (required : Required pullRequests done) (member : pullRequest ∈ pullRequests) :
    (∃ update ∈ done, baseUpdate pullRequests pullRequest = some update ∧
      (rebased done pullRequest).baseBranch = update.toBranch) ∨
      ((∀ update ∈ done, baseUpdate pullRequests pullRequest ≠ some update) ∧
        rebased done pullRequest = pullRequest) := by
  cases found : done.find? fun update => update.pullRequest = pullRequest.number with
  | some update =>
      have inside := List.mem_of_find?_eq_some found
      have number : update.pullRequest = pullRequest.number := by
        simpa using List.find?_some found
      obtain ⟨other, present, correction⟩ := required update inside
      have same : other = pullRequest := by
        apply distinct.eq present member
        obtain ⟨_, _, _, _, rfl⟩ := (baseUpdate_eq_some distinct).mp correction
        exact number
      subst same
      refine .inl ⟨update, inside, correction, ?_⟩
      rw [rebased, found]
      rfl
  | none =>
      refine .inr ⟨fun update inside correction => ?_, ?_⟩
      · obtain ⟨_, _, _, _, rfl⟩ := (baseUpdate_eq_some distinct).mp correction
        have missed := List.find?_eq_none.mp found _ inside
        simp at missed
      · rw [rebased, found]
        rfl

/-- The parents stay, since only a pull request with a declared parent is updated. -/
theorem parentOf_setBases (distinct : DistinctNumbers pullRequests)
    (required : Required pullRequests done) (member : pullRequest ∈ pullRequests) :
    parentOf (setBases done pullRequests) (rebased done pullRequest) =
      parentOf pullRequests pullRequest := by
  unfold parentOf
  rw [byHead_setBases]
  rcases rebased_cases distinct required member with ⟨update, _, correction, _⟩ | ⟨_, same⟩
  · obtain ⟨parent, _, declared, _⟩ := (baseUpdate_eq_some distinct).mp correction
    show pullRequest.explicitParent.or _ = _
    rw [declared, Option.some_or, Option.some_or]
  · rw [same]

/-- An update that was made is no longer required, and every other one still is. -/
theorem baseUpdate_setBases (distinct : DistinctNumbers pullRequests)
    (required : Required pullRequests done) (member : pullRequest ∈ pullRequests) :
    baseUpdate (setBases done pullRequests) (rebased done pullRequest) =
      (baseUpdate pullRequests pullRequest).filter fun update => update ∉ done := by
  have known : baseUpdate (setBases done pullRequests) (rebased done pullRequest) =
      (pullRequest.explicitParent.bind fun parent => (byNumber pullRequests).lookup parent).bind
        fun other => if (rebased done pullRequest).baseBranch ≠ other.headBranch then
          some ⟨pullRequest.number, (rebased done pullRequest).baseBranch, other.headBranch⟩
        else none := by
    unfold baseUpdate
    rw [byNumber_setBases]
    show (pullRequest.explicitParent.bind _).bind _ = _
    cases pullRequest.explicitParent with
    | none => rfl
    | some parent =>
        rw [Option.bind_some, Option.bind_some, Entries.lookup_map, Option.bind_map]
        rfl
  rw [known]
  rcases rebased_cases distinct required member with ⟨update, inside, correction, base⟩ | ⟨other, same⟩
  · rw [correction, Option.filter_some, if_neg (by simpa using inside), base]
    obtain ⟨parent, present, declared, _, rfl⟩ := (baseUpdate_eq_some distinct).mp correction
    rw [declared, Option.bind_some, (lookup_byNumber distinct).mpr ⟨present, rfl⟩, Option.bind_some,
      if_neg (by simp)]
  · rw [same]
    show baseUpdate pullRequests pullRequest = _
    cases correction : baseUpdate pullRequests pullRequest with
    | none => rfl
    | some update =>
        rw [Option.filter_some, if_pos]
        simpa using fun inside : update ∈ done => other update inside correction

/-! ### The plan after some updates -/

theorem parentEntries_setBases (distinct : DistinctNumbers pullRequests)
    (required : Required pullRequests done) :
    parentEntries (setBases done pullRequests) = parentEntries pullRequests := by
  unfold parentEntries
  rw [byNumber_setBases, List.map_map]
  apply List.map_congr_left
  intro entry inside
  obtain ⟨member, _⟩ := (mem_byNumber distinct).mp inside
  show (entry.1, parentOf (setBases done pullRequests) (rebased done entry.2)) = _
  rw [parentOf_setBases distinct required member]

theorem updates_setBases (distinct : DistinctNumbers pullRequests)
    (required : Required pullRequests done) :
    ((byNumber (setBases done pullRequests)).map (place (setBases done pullRequests))).filterMap
        Placement.update =
      (((byNumber pullRequests).map (place pullRequests)).filterMap Placement.update).filter
        fun update => update ∉ done := by
  rw [byNumber_setBases, List.map_map, List.filterMap_map, List.filterMap_map, List.filter_filterMap]
  apply List.filterMap_congr
  intro entry inside
  obtain ⟨member, _⟩ := (mem_byNumber distinct).mp inside
  exact baseUpdate_setBases distinct required member

/-- The updates change no parent. -/
theorem edge_setBases (distinct : DistinctNumbers pullRequests)
    (required : Required pullRequests done) :
    Edge (setBases done pullRequests) = Edge pullRequests := by
  have heads : ∀ branch number,
      (∃ other ∈ setBases done pullRequests, other.headBranch = branch ∧ other.number = number) ↔
        ∃ other ∈ pullRequests, other.headBranch = branch ∧ other.number = number := by
    intro branch number
    rw [← mem_byHead, byHead_setBases, mem_byHead]
  funext child parent
  apply propext
  unfold Edge ParentOf
  simp only [heads]
  simp only [mem_setBases]
  constructor
  · rintro ⟨_, ⟨member, inside, rfl⟩, number, chosen⟩
    refine ⟨member, inside, number, chosen.imp_right fun ⟨undeclared, found⟩ => ?_⟩
    rcases rebased_cases distinct required inside with ⟨_, _, correction, _⟩ | ⟨_, same⟩
    · obtain ⟨_, _, declared, _⟩ := (baseUpdate_eq_some distinct).mp correction
      exact absurd (declared.symm.trans undeclared) (by simp)
    · rw [same] at undeclared found
      exact ⟨undeclared, found⟩
  · rintro ⟨member, inside, number, chosen⟩
    refine ⟨_, ⟨member, inside, rfl⟩, number, chosen.imp_right fun ⟨undeclared, found⟩ => ?_⟩
    rcases rebased_cases distinct required inside with ⟨_, _, correction, _⟩ | ⟨_, same⟩
    · obtain ⟨_, _, declared, _⟩ := (baseUpdate_eq_some distinct).mp correction
      exact absurd (declared.symm.trans undeclared) (by simp)
    · rw [same]
      exact ⟨undeclared, found⟩

theorem root_setBases (distinct : DistinctNumbers pullRequests)
    (required : Required pullRequests done) :
    Root (setBases done pullRequests) = Root pullRequests := by
  funext number
  apply propext
  unfold Root
  rw [edge_setBases distinct required]
  apply and_congr_left'
  simp only [mem_setBases]
  constructor
  · rintro ⟨_, ⟨member, inside, rfl⟩, same⟩
    exact ⟨member, inside, same⟩
  · rintro ⟨member, inside, same⟩
    exact ⟨_, ⟨member, inside, rfl⟩, same⟩

theorem oneChain_setBases (distinct : DistinctNumbers pullRequests)
    (required : Required pullRequests done) (chain : OneChain pullRequests) :
    OneChain (setBases done pullRequests) := by
  have edges := edge_setBases distinct required
  have roots := root_setBases distinct required
  exact ⟨edges ▸ chain.acyclic, roots ▸ chain.root, edges ▸ chain.noSharedParent⟩

theorem soleHead_setBases (distinct : DistinctNumbers pullRequests) (branch : String) :
    SoleHead (setBases done pullRequests) branch ↔ SoleHead pullRequests branch := by
  have short : ∀ {items : List StackPullRequest}, DistinctNumbers items →
      ((byHead items branch).length ≤ 1 ↔ SoleHead items branch) := fun items_ =>
    @byHead_short _ ⟨0, "", branch, none⟩ items_
  rw [← short (distinct_setBases distinct), byHead_setBases, short distinct]

/-- The rules accept the updated pull requests when no other one has the head of an update. -/
theorem placeable_setBases (distinct : DistinctNumbers pullRequests)
    (required : Required pullRequests done) (placeable : Placeable pullRequests) :
    Placeable (setBases done pullRequests) ↔ ∀ update ∈ done, SoleHead pullRequests update.toBranch := by
  constructor
  · intro again update inside
    obtain ⟨member, present, correction⟩ := required update inside
    have unambiguous : SoleHead (setBases done pullRequests) (rebased done member).baseBranch :=
      (again _ (mem_setBases.mpr ⟨member, present, rfl⟩)).1
    rw [soleHead_setBases distinct] at unambiguous
    rcases rebased_cases distinct required present with ⟨other, _, same, base⟩ | ⟨notDone, _⟩
    · rw [correction] at same
      rwa [base, ← Option.some.inj same] at unambiguous
    · exact absurd correction (notDone update inside)
  · intro sole changed inside
    obtain ⟨member, present, rfl⟩ := mem_setBases.mp inside
    obtain ⟨unambiguous, declared⟩ := placeable member present
    have declared' : ∀ parent, member.explicitParent = some parent →
        ∃ other ∈ setBases done pullRequests, other.number = parent := by
      intro parent explicit
      obtain ⟨other, among, number⟩ := (declared parent explicit).1
      exact ⟨_, mem_setBases.mpr ⟨other, among, rfl⟩, number⟩
    rcases rebased_cases distinct required present with ⟨update, among, correction, base⟩ | ⟨_, same⟩
    · have single : SoleHead pullRequests (rebased done member).baseBranch := base ▸ sole update among
      refine ⟨(soleHead_setBases distinct _).mpr single, fun parent explicit =>
        ⟨declared' parent explicit, fun other inOthers head => ?_⟩⟩
      obtain ⟨candidate, known, rfl⟩ := mem_setBases.mp inOthers
      obtain ⟨own, ownInside, ownDeclared, _, rfl⟩ := (baseUpdate_eq_some distinct).mp correction
      have only : candidate = own := single candidate known own ownInside head base.symm
      have number : some own.number = some parent := ownDeclared.symm.trans explicit
      rw [only]
      exact Option.some.inj number
    · rw [same]
      refine ⟨(soleHead_setBases distinct _).mpr unambiguous, fun parent explicit =>
        ⟨declared' parent explicit, fun other inOthers head => ?_⟩⟩
      obtain ⟨candidate, known, rfl⟩ := mem_setBases.mp inOthers
      exact (declared parent explicit).2 candidate known head

/-- After some of its updates a stack has the same plan with the other updates exactly when only
the parent has the head branch of each update that was made. -/
theorem plan_resumed_iff {result : StackPlan} (planned : (plan pullRequests).run = some (.ok result))
    (made : done ⊆ result.requiredBaseUpdates) :
    (plan (setBases done pullRequests)).run = some (.ok ⟨result.mergeOrder,
        result.requiredBaseUpdates.filter fun update => update ∉ done⟩) ↔
      ∀ update ∈ done, SoleHead pullRequests update.toBranch := by
  obtain ⟨nonempty, distinct⟩ := plan_admits planned
  obtain ⟨⟨placeable, chain⟩, root, isRoot, walked, updates⟩ :=
    (plan_eq_ok distinct nonempty).mp planned
  have required : Required pullRequests done := by
    intro update inside
    have among := made inside
    rwa [updates, mem_updates distinct] at among
  have nonempty' : setBases done pullRequests ≠ [] := by
    unfold setBases
    rwa [ne_eq, List.map_eq_nil_iff]
  rw [plan_eq_ok (distinct_setBases distinct) nonempty', placeable_setBases distinct required placeable]
  constructor
  · exact fun given => given.1.1
  · intro sole
    refine ⟨⟨sole, oneChain_setBases distinct required chain⟩, root, root_setBases distinct required ▸ isRoot,
      ?_, ?_⟩
    · rw [parentEntries_setBases distinct required, setBases, List.length_map, walked]
    · rw [updates_setBases distinct required, updates]

/-- The second pull request of the stack has to move to the head of the first one. -/
def shifted : List StackPullRequest :=
  [⟨10, "stack/bottom", "main", none⟩, ⟨20, "stack/top", "main", some 10⟩]

theorem plan_resumed_shifted :
    (plan (setBases [⟨20, "main", "stack/bottom"⟩] shifted)).run = some (.ok ⟨[10, 20],
        [⟨20, "main", "stack/bottom"⟩].filter fun update => update ∉
          [(⟨20, "main", "stack/bottom"⟩ : BaseUpdate)]⟩) ↔
      ∀ update ∈ [(⟨20, "main", "stack/bottom"⟩ : BaseUpdate)], SoleHead shifted update.toBranch :=
  @plan_resumed_iff shifted [⟨20, "main", "stack/bottom"⟩] ⟨[10, 20], [⟨20, "main", "stack/bottom"⟩]⟩
    (by decide) (List.Subset.refl _)

/-- A branch that heads two pull requests of a stack is a base that cannot be planned again. -/
theorem plan_not_resumed :
    ¬ ∀ (pullRequests : List StackPullRequest) (result : StackPlan) (done : List BaseUpdate),
      (plan pullRequests).run = some (.ok result) → done ⊆ result.requiredBaseUpdates →
        (plan (setBases done pullRequests)).run = some (.ok ⟨result.mergeOrder,
          result.requiredBaseUpdates.filter fun update => update ∉ done⟩) := by
  intro claim
  have planned : (plan [⟨10, "stack/bottom", "main", none⟩, ⟨20, "stack/middle", "main", some 10⟩,
      ⟨30, "stack/bottom", "stack/middle", none⟩]).run =
        some (.ok ⟨[10, 20, 30], [⟨20, "main", "stack/bottom"⟩]⟩) := by decide
  have again := claim _ _ _ planned (List.Subset.refl _)
  revert again
  decide

end PiTools.Stack
