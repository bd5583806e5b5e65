import PiTools.Worker.FeedbackRepairs

/-
This file compares the item that a work plan displays with the feedback on which
the repair works.
-/

namespace PiTools

open Library

/-- The first planned feedback that is not skipped, with its index. -/
def pickedFeedback (plan : Json) : Option (Json × Nat) :=
  ((plan.get "feedback").bind Json.asArray).bind fun items =>
    items.zipIdx.find? fun item => !planItemIsSkipped plan (feedbackItemId item.2)

theorem unskippedFeedback_eq (plan : Json) :
    unskippedFeedback plan = (pickedFeedback plan).map Prod.fst := by
  rw [unskippedFeedback, pickedFeedback, Option.map_bind]
  rfl

def planHasRemainingFeedback (plan : Json) : Bool :=
  ((plan.get "feedback").bind Json.asArray).any fun items =>
    items.zipIdx.any fun item => !planItemIsSkipped plan (feedbackItemId item.2)

/-- The plan after a skip of the item. -/
def planWithSkip (plan : Json) (item : String) : Except Json.SetError Json :=
  plan.setKey "skipped_items"
    (((plan.get "skipped_items").getD (.array [])).concat (.array [.string item]))

theorem Job.skippedPlan_eq {job : Job} {item : String} (current : job.currentItem = some item) :
    job.skippedPlan = planWithSkip job.plan item := by
  rw [Job.skippedPlan, current, planWithSkip]

/-! ### The two items -/

/-- The plan shows the item on which the repair works. -/
structure DisplaysActed (job : LeasedJob) (firstStatus : ItemStatus) : Prop where
  acted : ∃ items, planItemsForJob job firstStatus = .ok items ∧
    (∀ index, currentItemId items = some (feedbackItemId index) ↔
      (pickedFeedback job.plan).map Prod.snd = some index) ∧
    (currentItemId items = none ↔ pickedFeedback job.plan = none)
  remaining : planHasRemainingFeedback job.plan = true ↔
    ∃ index, (pickedFeedback job.plan).map Prod.snd = some index

/-- The displayed item is skipped. -/
inductive LeasedJob.SkipStep (job : LeasedJob) : String → LeasedJob → Prop
  | skip {item : String} {plan : Json} (shown : job.workItem = some item)
      (set : planWithSkip job.plan item = .ok plan) : job.SkipStep item { job with plan }

/-- The indices of the planned feedback that is not skipped. -/
def unskippedIndices (plan : Json) : List Nat :=
  (List.range (((plan.get "feedback").bind Json.asArray).getD []).length).filter fun index =>
    !planItemIsSkipped plan (feedbackItemId index)

/-- Skips go through the unskipped items in their order, and nothing is shown after the last one. -/
structure SkipsWalk (job : LeasedJob) : Prop where
  through : ∃ finish, Run LeasedJob.SkipStep job ((unskippedIndices job.plan).map feedbackItemId) finish
  ordered : ∀ shown finish, Run LeasedJob.SkipStep job shown finish →
    shown <+: (unskippedIndices job.plan).map feedbackItemId
  ends : ∀ shown finish, Run LeasedJob.SkipStep job shown finish →
    (finish.workItem = none ↔ pickedFeedback finish.plan = none)

/-- The skipped items of the plan are a list. -/
def SkipListed (plan : Json) : Prop :=
  plan.get "skipped_items" = none ∨ ∃ items, plan.get "skipped_items" = some (.array items)

/-- A feedback repair with planned feedback and a list of skipped items. -/
structure PlansFeedback (job : LeasedJob) : Prop where
  kind : job.kind = .feedbackRepair
  planned : ∃ feedback, (job.plan.get "feedback").bind Json.asArray = some feedback ∧ feedback ≠ []
  listed : SkipListed job.plan

/-! ### Item ids -/

theorem feedbackItemId_injective : Function.Injective feedbackItemId := by
  intro first second same
  have digits : Nat.toDigits 10 first = Nat.toDigits 10 second := by
    apply String.ofList_injective
    exact (String.append_right_inj "feedback-").mp same
  calc first = Nat.ofDigitChars 10 (Nat.toDigits 10 first) 0 := Nat.ofDigitChars_ten_toDigits.symm
    _ = Nat.ofDigitChars 10 (Nat.toDigits 10 second) 0 := by rw [digits]
    _ = second := Nat.ofDigitChars_ten_toDigits

/-- The ids of the displayed items are valid. -/
theorem feedbackItemId_valid {index : Nat} (displayed : index < 100) :
    validateIdentifier "item id" (feedbackItemId index) = .ok () := by
  have all : ∀ index < 100, validateIdentifier "item id" (feedbackItemId index) = .ok () := by
    decide +kernel
  exact all index displayed

theorem feedbackSummary_valid :
    validateSafeText "item summary" "Process automated feedback" = .ok () := by decide +kernel

/-! ### The displayed item -/

section Plans

variable {plan : Json} {firstStatus : ItemStatus} {items : List PlanItem}

/-- The loop makes all of its items, and the current one is the first that is not skipped. -/
theorem feedbackItems_current (first : firstStatus = .inProgress ∨ firstStatus = .pending)
    (indices : List Nat) (displayed : ∀ index ∈ indices, index < 100) (started : Bool) :
    ∃ items, feedbackItems plan firstStatus indices started = .ok items ∧
      items.length = indices.length ∧ currentItemId items =
        (indices.find? fun index => !planItemIsSkipped plan (feedbackItemId index)).map
          feedbackItemId := by
  induction indices generalizing started with
  | nil => exact ⟨[], rfl, rfl, rfl⟩
  | cons index rest ih =>
      obtain ⟨here, later⟩ := List.forall_mem_cons.mp displayed
      obtain ⟨items, made, length, current⟩ :=
        ih later (started || !planItemIsSkipped plan (feedbackItemId index))
      let status : ItemStatus := if planItemIsSkipped plan (feedbackItemId index) then .skipped
        else if started then .pending else firstStatus
      let item : PlanItem := ⟨feedbackItemId index, "Process automated feedback", status,
        feedbackItemId_valid here, feedbackSummary_valid⟩
      refine ⟨item :: items, ?_, by rw [List.length_cons, List.length_cons, length], ?_⟩
      · simp only [feedbackItems, bind_eq_ok, pure_eq_ok]
        exact ⟨item, PlanItem.new_of_valid status _ _, items, made, rfl⟩
      · by_cases skipped : planItemIsSkipped plan (feedbackItemId index) = true
        · have closed : status = .skipped := if_pos skipped
          rw [List.find?_cons_of_neg (by simp [skipped]), ← current]
          apply congrArg (Option.map PlanItem.id)
          exact List.find?_cons_of_neg (by simp [item, closed])
        · have isOpen : status = .inProgress ∨ status = .pending := by
            simp only [status, if_neg skipped]
            split
            · exact .inr rfl
            · exact first
          rw [List.find?_cons_of_pos (by simp [skipped])]
          show currentItemId (item :: items) = (some item).map PlanItem.id
          apply congrArg (Option.map PlanItem.id)
          exact List.find?_cons_of_pos (by simpa [item] using isOpen)

/-- The indices below the display limit. -/
theorem range_filter_lt (count limit : Nat) :
    (List.range count).filter (fun index => index < limit) = List.range (min count limit) := by
  induction count with
  | zero => simp
  | succ count ih =>
      rw [List.range_succ, List.filter_append, ih]
      by_cases below : count < limit
      · rw [Nat.min_eq_left (by omega), Nat.min_eq_left (by omega), List.range_succ]
        simp [below]
      · rw [Nat.min_eq_right (by omega), Nat.min_eq_right (by omega)]
        simp [below]

theorem unskippedIndices_sorted (plan : Json) : (unskippedIndices plan).Pairwise (· < ·) :=
  List.pairwise_lt_range.filter _

/-- The repair picks the first unskipped index. -/
theorem picked_index (plan : Json) :
    (pickedFeedback plan).map Prod.snd = (unskippedIndices plan).head? := by
  rw [unskippedIndices, pickedFeedback, List.head?_filter]
  cases (plan.get "feedback").bind Json.asArray with
  | none => rfl
  | some items =>
      show (items.zipIdx.find? ((fun index => !planItemIsSkipped plan (feedbackItemId index)) ∘
        Prod.snd)).map Prod.snd = _
      rw [← List.find?_map, List.zipIdx_map_snd, ← List.range_eq_range']
      rfl

theorem picked_none (plan : Json) : pickedFeedback plan = none ↔ unskippedIndices plan = [] := by
  rw [← List.head?_eq_none_iff, ← picked_index, Option.map_eq_none_iff]

theorem planHasRemainingFeedback_eq (plan : Json) :
    planHasRemainingFeedback plan = (pickedFeedback plan).isSome := by
  rw [planHasRemainingFeedback, pickedFeedback]
  cases (plan.get "feedback").bind Json.asArray with
  | none => rfl
  | some items => exact List.isSome_find?.symm

/-- In a sorted list the first small element is the first element. -/
theorem find?_lt_sorted {indices : List Nat} (sorted : indices.Pairwise (· < ·)) (limit : Nat) :
    indices.find? (fun index => index < limit) = indices.head?.filter fun index => index < limit := by
  cases indices with
  | nil => rfl
  | cons index rest =>
      by_cases below : index < limit
      · simp [Option.filter, below]
      · have later := (List.pairwise_cons.mp sorted).1
        have none : rest.find? (fun index => index < limit) = none := by
          rw [List.find?_eq_none]
          intro other member
          have := later other member
          simp only [decide_eq_true_eq]
          omega
        simp [Option.filter, below, none]

end Plans

section Jobs

variable {job : LeasedJob} {firstStatus : ItemStatus}

/-- The displayed item is the first unskipped one, unless it stands behind the display limit. -/
theorem displayed_item (plans : PlansFeedback job)
    (first : firstStatus = .inProgress ∨ firstStatus = .pending) :
    ∃ items, planItemsForJob job firstStatus = .ok items ∧ currentItemId items =
      ((unskippedIndices job.plan).head?.filter fun index => index < 100).map feedbackItemId := by
  obtain ⟨kind, ⟨feedback, planned, some'⟩, -⟩ := plans
  have displayed : ∀ index ∈ List.range (min feedback.length 100), index < 100 := by
    intro index member
    have := List.mem_range.mp member
    omega
  obtain ⟨items, made, length, current⟩ :=
    @feedbackItems_current job.plan _ first _ displayed false
  have nonempty : items ≠ [] := by
    rw [← List.length_pos_iff, length, List.length_range]
    have := List.length_pos_iff.mpr some'
    omega
  refine ⟨items, ?_, ?_⟩
  · simp only [planItemsForJob, bind_eq_ok]
    refine ⟨items, ?_, by rw [if_pos nonempty]; rfl⟩
    rw [plannedFeedback, if_pos kind, planned]
    exact made
  · rw [current, ← range_filter_lt, ← find?_lt_sorted (unskippedIndices_sorted job.plan),
      unskippedIndices, planned, List.find?_filter, List.find?_filter]
    congr 2
    funext index
    exact decide_eq_decide.mpr and_comm

/-- The display shows the first unskipped item exactly below its limit. -/
theorem displaysActed_iff (plans : PlansFeedback job)
    (first : firstStatus = .inProgress ∨ firstStatus = .pending) :
    DisplaysActed job firstStatus ↔ ∀ index ∈ (unskippedIndices job.plan).head?, index < 100 := by
  obtain ⟨items, made, current⟩ := displayed_item plans first
  constructor
  · rintro ⟨⟨items', made', same, -⟩, -⟩ index head
    rw [made, Except.ok.injEq] at made'
    subst made'
    have shown := (same index).mpr ((picked_index job.plan).trans head)
    rw [current] at shown
    obtain ⟨index', kept, sameId⟩ := Option.map_eq_some_iff.mp shown
    rw [feedbackItemId_injective sameId, head] at kept
    exact of_decide_eq_true (Option.filter_eq_some_iff.mp kept).2
  · intro below
    have unlimited : (unskippedIndices job.plan).head?.filter (fun index => decide (index < 100)) =
        (unskippedIndices job.plan).head? := by
      cases head : (unskippedIndices job.plan).head? with
      | none => rfl
      | some index => simp [Option.filter, below index head]
    rw [unlimited, ← picked_index] at current
    refine ⟨⟨items, made, fun index => ?_, ?_⟩, ?_⟩
    · rw [current]
      constructor
      · intro shown
        obtain ⟨index', picked, sameId⟩ := Option.map_eq_some_iff.mp shown
        rw [picked, feedbackItemId_injective sameId]
      · intro picked
        rw [picked]
        rfl
    · rw [current, Option.map_eq_none_iff, Option.map_eq_none_iff]
    · rw [planHasRemainingFeedback_eq, Option.isSome_iff_exists]
      constructor
      · rintro ⟨picked, found⟩
        exact ⟨picked.2, by rw [found]; rfl⟩
      · rintro ⟨index, found⟩
        obtain ⟨picked, found, _⟩ := Option.map_eq_some_iff.mp found
        exact ⟨picked, found⟩

end Jobs

/-! ### Repeated skips -/

section Walks

variable {plan plan' : Json} {item : String} {job finish : LeasedJob} {shown : List String}

/-- A skip adds its item and nothing else. -/
theorem planWithSkip_spec (listed : SkipListed plan) (set : planWithSkip plan item = .ok plan') :
    SkipListed plan' ∧ plan'.get "feedback" = plan.get "feedback" ∧ ∀ other,
      planItemIsSkipped plan' other = (planItemIsSkipped plan other || item = other) := by
  have skipped := Json.get_setKey "skipped_items" set
  rw [if_pos rfl] at skipped
  have concat (items : List Json) : (Json.array items).concat (.array [.string item]) =
      .array (items ++ [.string item]) := rfl
  refine ⟨?_, by rw [Json.get_setKey "feedback" set, if_neg (by decide)], fun other => ?_⟩
  · rcases listed with none | ⟨items, found⟩
    · exact .inr ⟨_, by rw [skipped, none]; rfl⟩
    · exact .inr ⟨_, by rw [skipped, found]; rfl⟩
  · rw [planItemIsSkipped, planItemIsSkipped, skipped]
    rcases listed with none | ⟨items, found⟩
    · rw [none]
      simp [concat, Json.asArray, Json.asStr]
    · rw [found]
      simp [concat, Json.asArray, Json.asStr]

theorem unskippedIndices_skip {index : Nat} (listed : SkipListed plan)
    (set : planWithSkip plan (feedbackItemId index) = .ok plan') :
    unskippedIndices plan' = (unskippedIndices plan).filter fun other => other ≠ index := by
  obtain ⟨-, feedback, skips⟩ := planWithSkip_spec listed set
  rw [unskippedIndices, unskippedIndices, feedback, List.filter_filter]
  congr 1
  funext other
  rw [skips, Bool.not_or, Bool.and_comm]
  congr 1
  rw [← decide_not]
  exact decide_eq_decide.mpr (not_congr ⟨fun same => (feedbackItemId_injective same).symm,
    fun same => by rw [same]⟩)

theorem workItem_eq (plans : PlansFeedback job) : job.workItem =
    ((unskippedIndices job.plan).head?.filter fun index => index < 100).map feedbackItemId := by
  obtain ⟨items, made, current⟩ := displayed_item plans (.inl rfl)
  rw [LeasedJob.workItem_of_items made, current]

/-- A skip takes the first unskipped item away. -/
theorem LeasedJob.SkipStep.spec (plans : PlansFeedback job) (step : job.SkipStep item finish) :
    PlansFeedback finish ∧ ∃ index < 100, item = feedbackItemId index ∧
      unskippedIndices job.plan = index :: unskippedIndices finish.plan := by
  cases step with
  | @skip plan' shown set =>
      rw [workItem_eq plans, Option.map_eq_some_iff] at shown
      obtain ⟨index, kept, rfl⟩ := shown
      obtain ⟨head, below⟩ := Option.filter_eq_some_iff.mp kept
      obtain ⟨listed, feedback, -⟩ := planWithSkip_spec plans.listed set
      refine ⟨⟨plans.kind, ?_, listed⟩, index, of_decide_eq_true below, rfl, ?_⟩
      · show ∃ items, (plan'.get "feedback").bind Json.asArray = some items ∧ items ≠ []
        rw [feedback]
        exact plans.planned
      · obtain ⟨rest, whole⟩ := List.head?_eq_some_iff.mp head
        show _ = index :: unskippedIndices plan'
        have later := unskippedIndices_sorted job.plan
        rw [unskippedIndices_skip plans.listed set, whole]
        rw [whole] at later
        have others : rest.filter (fun other => other ≠ index) = rest :=
          List.filter_eq_self.mpr fun other member =>
            decide_eq_true ((List.pairwise_cons.mp later).1 other member).ne'
        rw [List.filter_cons_of_neg (by simp), others]

/-- What skips have shown and what is left make up the unskipped items. -/
theorem skips_split (plans : PlansFeedback job) (run : Run LeasedJob.SkipStep job shown finish) :
    PlansFeedback finish ∧ ∃ indices : List Nat, (∀ index ∈ indices, index < 100) ∧
      shown = indices.map feedbackItemId ∧
      unskippedIndices job.plan = indices ++ unskippedIndices finish.plan := by
  induction run with
  | refl => exact ⟨plans, [], by simp, rfl, rfl⟩
  | snoc _ last ih =>
      obtain ⟨plans', indices, below, rfl, split⟩ := ih
      obtain ⟨plans'', index, below', rfl, next⟩ := last.spec plans'
      refine ⟨plans'', indices ++ [index], ?_, by simp, ?_⟩
      · intro other member
        rcases List.mem_append.mp member with earlier | last
        · exact below other earlier
        · rwa [List.mem_singleton.mp last]
      · rw [split, next, List.append_assoc, List.singleton_append]

/-- While all unskipped items are displayed the skips can go on to the end. -/
theorem skips_through (plans : PlansFeedback job)
    (below : ∀ index ∈ unskippedIndices job.plan, index < 100) :
    ∃ finish, Run LeasedJob.SkipStep job ((unskippedIndices job.plan).map feedbackItemId) finish := by
  generalize left : unskippedIndices job.plan = indices at below
  induction indices generalizing job with
  | nil => exact ⟨job, .refl⟩
  | cons index rest ih =>
      obtain ⟨here, later⟩ := List.forall_mem_cons.mp below
      have shown : job.workItem = some (feedbackItemId index) := by
        rw [workItem_eq plans, left]
        simp [Option.filter, here]
      -- A value with planned feedback is an object.
      obtain ⟨plan, set⟩ : ∃ plan, planWithSkip job.plan (feedbackItemId index) = .ok plan := by
        obtain ⟨feedback, planned, -⟩ := plans.planned
        cases value : job.plan with
        | object fields => exact ⟨_, rfl⟩
        | _ =>
            rw [value] at planned
            cases planned
      have step : job.SkipStep (feedbackItemId index) { job with plan } := .skip shown set
      obtain ⟨plans', index', -, -, split⟩ := step.spec plans
      rw [left, List.cons.injEq] at split
      obtain ⟨finish, run⟩ := ih plans' split.2.symm later
      exact ⟨finish, .cons step run⟩

theorem skipsWalk_iff (plans : PlansFeedback job) :
    SkipsWalk job ↔ ∀ index ∈ unskippedIndices job.plan, index < 100 := by
  constructor
  · rintro ⟨⟨finish, run⟩, -, -⟩ index member
    obtain ⟨-, indices, below, same, -⟩ := skips_split plans run
    rw [List.map_injective_iff.mpr feedbackItemId_injective same] at member
    exact below index member
  · intro below
    refine ⟨skips_through plans below, fun shown finish run => ?_, fun shown finish run => ?_⟩
    · obtain ⟨-, indices, -, rfl, split⟩ := skips_split plans run
      rw [split, List.map_append]
      exact List.prefix_append _ _
    · obtain ⟨plans', indices, -, rfl, split⟩ := skips_split plans run
      rw [workItem_eq plans', Option.map_eq_none_iff, picked_none]
      cases left : unskippedIndices finish.plan with
      | nil => simp
      | cons index rest =>
          have here : index < 100 := below index (by rw [split, left]; simp)
          simp [Option.filter, here]

/-- The displayed item is the one acted on exactly when the first unskipped item stands below the
display limit, and the skips reach all items exactly when all unskipped items do. -/
theorem displayed_item_acted (plans : PlansFeedback job) {firstStatus : ItemStatus}
    (first : firstStatus = .inProgress ∨ firstStatus = .pending) :
    (DisplaysActed job firstStatus ↔
        ∀ index ∈ (unskippedIndices job.plan).head?, index < 100) ∧
      (DisplaysActed job firstStatus ∧ SkipsWalk job ↔
        ∀ index ∈ unskippedIndices job.plan, index < 100) := by
  refine ⟨displaysActed_iff plans first, ?_⟩
  rw [displaysActed_iff plans first, skipsWalk_iff plans]
  constructor
  · exact And.right
  · intro below
    exact ⟨fun index head => below index (List.mem_of_mem_head? head), below⟩

end Walks

/-! ### A long plan -/

/-- The plan has 101 pieces of feedback, and the first of them are skipped. -/
def longPlan (skipped : Nat) : Json :=
  sortedObject [("feedback", .array (List.replicate 101 .null)),
    ("skipped_items", .array ((List.range skipped).map fun index => .string (feedbackItemId index)))]

def longJob (skipped : Nat) : LeasedJob := ⟨5, 1, 7, .feedbackRepair, longPlan skipped, 0, 10, 1, 5⟩

theorem longPlan_feedback (skipped : Nat) :
    (longPlan skipped).get "feedback" = some (.array (List.replicate 101 .null)) := by
  rw [longPlan, get_sortedObject]
  rfl

theorem longPlan_skips (skipped : Nat) : (longPlan skipped).get "skipped_items" =
    some (.array ((List.range skipped).map fun index => .string (feedbackItemId index))) := by
  rw [longPlan, get_sortedObject]
  rfl

theorem longJob_plans (skipped : Nat) : PlansFeedback (longJob skipped) :=
  ⟨rfl, ⟨_, congrArg (Option.bind · Json.asArray) (longPlan_feedback skipped), nofun⟩,
    .inr ⟨_, longPlan_skips skipped⟩⟩

theorem longPlan_left (skipped : Nat) :
    unskippedIndices (longPlan skipped) = (List.range 101).filter fun index => skipped ≤ index := by
  rw [unskippedIndices, longPlan_feedback]
  apply List.filter_congr
  intro index _
  rw [planItemIsSkipped, longPlan_skips, Bool.eq_iff_iff, Bool.not_eq_true', Bool.eq_false_iff]
  have named : ((List.range skipped).map fun index => Json.string (feedbackItemId index)).any
      (fun item => item.asStr = some (feedbackItemId index)) = true ↔ index < skipped := by
    simp only [List.any_map, List.any_eq_true, Function.comp_apply, Json.asStr, decide_eq_true_eq,
      Option.some.injEq, List.mem_range]
    constructor
    · rintro ⟨other, below, same⟩
      exact feedbackItemId_injective same ▸ below
    · exact fun below => ⟨index, below, rfl⟩
  rw [decide_eq_true_eq, ← Nat.not_lt]
  exact not_congr named

theorem displayed_item_acted_all_skipped :
    DisplaysActed (longJob 101) .inProgress ∧ SkipsWalk (longJob 101) := by
  refine ((displayed_item_acted (longJob_plans 101) (.inl rfl)).2).mpr ?_
  show ∀ index ∈ unskippedIndices (longPlan 101), index < 100
  rw [longPlan_left]
  decide

/-- A hundred skips leave an item that is acted on and never shown. -/
theorem late_item_hidden : ¬ DisplaysActed (longJob 100) .inProgress := by
  rintro ⟨⟨items, planned, acts, -⟩, -⟩
  have none : (longJob 100).workItem = none := by
    rw [workItem_eq (longJob_plans 100)]
    show ((unskippedIndices (longPlan 100)).head?.filter _).map _ = none
    rw [longPlan_left]
    decide
  rw [LeasedJob.workItem_of_items planned] at none
  have shown := (acts 100).mpr ((picked_index (longPlan 100)).trans (by rw [longPlan_left]; decide))
  rw [none] at shown
  cases shown

end PiTools
