import Mathlib.Data.Finset.Insert
import PiTools.Control.Delivery
import PiTools.Library.FirstMatch
import PiTools.Library.Runs
import PiTools.Worker.WorkPlan

/-
This file defines the state of a run with its items and the controls that move it.
-/

namespace PiTools

open Library

/-! ### Requests -/

structure ControlRequest where
  requestId : String
  actorLogin : String
  action : ControlAction
  validId : validateIdentifier "control request id" requestId = .ok ()
  validActor : validateIdentifier "actor login" actorLogin = .ok ()
  deriving DecidableEq, Repr

def ControlRequest.new (requestId actorLogin : String) (action : ControlAction) :
    Except ContractError ControlRequest :=
  match validId : validateIdentifier "control request id" requestId with
  | .error reason => .error reason
  | .ok () =>
      match validActor : validateIdentifier "actor login" actorLogin with
      | .error reason => .error reason
      | .ok () => .ok ⟨requestId, actorLogin, action, validId, validActor⟩

/-! ### States -/

inductive RunStatus
  | waitingApproval
  | running
  | completed
  | cancelled
  deriving DecidableEq, Repr

structure RunState where
  status : RunStatus
  items : List PlanItem
  appliedRequestIds : Finset String
  deriving DecidableEq

def PlanItem.withStatus (item : PlanItem) (status : ItemStatus) : PlanItem := { item with status }

/-- The first item of a status gets another one. -/
def moveFirst (source target : ItemStatus) (items : List PlanItem) : Option (List PlanItem) :=
  changeFirst (fun item => item.status = source) (fun item => item.withStatus target) items

/-- The first pending item starts. -/
def RunState.new (items : List PlanItem) : Except ContractError RunState := do
  validateItems items
  match moveFirst .pending .inProgress items with
  | some items => pure ⟨.running, items, ∅⟩
  | none =>
      if items.any fun item => item.status = .inProgress then pure ⟨.running, items, ∅⟩
      else pure ⟨.completed, items, ∅⟩

def RunState.waitingApproval (items : List PlanItem) : Except ContractError RunState := do
  validateItems items
  pure ⟨.waitingApproval, items, ∅⟩

/-! ### Controls -/

def RunState.approvePlan (state : RunState) : Except ControlError RunState :=
  if state.status ≠ .waitingApproval then .error .approvalNotApplicable
  else do
    let items ← okOr (moveFirst .pending .inProgress state.items) .runNotActive
    pure { state with items, status := .running }

/-- Without approval the next item stays pending. -/
def RunState.skipCurrentItem (state : RunState) : Except ControlError RunState :=
  if state.status ≠ .waitingApproval ∧ state.status ≠ .running then .error .runNotActive
  else do
    let expectedStatus : ItemStatus :=
      if state.status = .waitingApproval then .pending else .inProgress
    let items ← okOr (moveFirst expectedStatus .skipped state.items) .noCurrentItem
    match moveFirst .pending .inProgress items with
    | some started =>
        pure { state with items := if state.status = .waitingApproval then items else started }
    | none => pure { state with items, status := .completed }

def PlanItem.cancel (item : PlanItem) : PlanItem :=
  if item.status = .pending ∨ item.status = .inProgress then item.withStatus .cancelled else item

def RunState.cancelRun (state : RunState) : Except ControlError RunState :=
  if state.status ≠ .waitingApproval ∧ state.status ≠ .running then .error .runNotActive
  else .ok { state with items := state.items.map PlanItem.cancel, status := .cancelled }

def RunState.perform (state : RunState) : ControlAction → Except ControlError RunState
  | .approvePlan => state.approvePlan
  | .skipCurrentItem => state.skipCurrentItem
  | .cancelRun => state.cancelRun

def RunState.applyControl (state : RunState) (request : ControlRequest) (prAuthor : String)
    (maintainers : List String) : Except ControlError RunState := do
  ensure (isAuthorized request.actorLogin prAuthor maintainers) .unauthorized
  ensure (request.requestId ∉ state.appliedRequestIds) .duplicateAction
  let updated ← state.perform request.action
  pure { updated with appliedRequestIds := insert request.requestId updated.appliedRequestIds }

/-! ### Runs -/

/-- A request with what is known of its pull request when it arrives. -/
structure ControlCall where
  request : ControlRequest
  prAuthor : String
  maintainers : List String

/-- A request is applied, or it is rejected and its caller keeps the state. -/
inductive RunState.Step (state : RunState) : ControlCall × Bool → RunState → Prop
  | applied {next : RunState} (call : ControlCall)
      (accepted : state.applyControl call.request call.prAuthor call.maintainers = .ok next) :
      state.Step (call, true) next
  | rejected (call : ControlCall) (error : ControlError)
      (refused : state.applyControl call.request call.prAuthor call.maintainers = .error error) :
      state.Step (call, false) state

/-- The status says which items are still open. -/
structure RunState.Orderly (state : RunState) : Prop where
  single : state.items.countP (fun item => item.status = .inProgress) ≤ 1
  running : state.status = .running ↔ ∃ item ∈ state.items, item.status = .inProgress
  waiting : state.status = .waitingApproval → ∀ item ∈ state.items, item.status ≠ .inProgress
  ended : state.status = .completed ∨ state.status = .cancelled →
    ∀ item ∈ state.items, item.status ≠ .pending ∧ item.status ≠ .inProgress

def ItemStatus.isFinal : ItemStatus → Bool
  | .completed | .failed | .skipped | .cancelled => true
  | .pending | .inProgress => false

/-- The items keep their ids and their order, and final items keep their status. -/
def ItemsKept (items items' : List PlanItem) : Prop :=
  List.Forall₂ (fun item item' => item'.id = item.id ∧ (item.status.isFinal = true → item' = item))
    items items'

/-- What holds of every sequence of requests from the state. -/
structure RunState.Sequenced (start : RunState) : Prop where
  orderly : ∀ calls state, Run RunState.Step start calls state → state.Orderly
  kept : ∀ past future middle finish, Run RunState.Step start past middle →
    Run RunState.Step middle future finish → ItemsKept middle.items finish.items
  once : ∀ calls state requestId, Run RunState.Step start calls state →
    calls.countP (fun call => call.2 && call.1.request.requestId = requestId) ≤ 1
  rejected : ∀ past state call next, Run RunState.Step start past state →
    state.Step (call, false) next → next = state

/-! ### Statuses of the items -/

def statusCount (status : ItemStatus) (items : List PlanItem) : Nat :=
  items.countP fun item => item.status = status

section Items

variable {source target status : ItemStatus} {items items' : List PlanItem}

theorem statusCount_eq_zero :
    statusCount status items = 0 ↔ ∀ item ∈ items, item.status ≠ status := by
  simp [statusCount, List.countP_eq_zero]

theorem statusCount_pos :
    0 < statusCount status items ↔ ∃ item ∈ items, item.status = status := by
  simp [statusCount, List.countP_pos_iff]

theorem moveFirst_none : moveFirst source target items = none ↔ statusCount source items = 0 := by
  rw [moveFirst, changeFirst_none, statusCount_eq_zero]
  simp

theorem moveFirst_count (status : ItemStatus) (moved : moveFirst source target items = some items') :
    statusCount status items' + (if source = status then 1 else 0) =
      statusCount status items + (if target = status then 1 else 0) := by
  refine changeFirst_count moved (fun item found => ?_) fun item => ?_
  · rw [of_decide_eq_true found]
    simp
  · by_cases same : target = status <;> simp [PlanItem.withStatus, same]

theorem ItemsKept.refl (items : List PlanItem) : ItemsKept items items :=
  List.forall₂_same.mpr fun _ _ => ⟨rfl, fun _ => rfl⟩

theorem ItemsKept.trans {items'' : List PlanItem} (first : ItemsKept items items')
    (second : ItemsKept items' items'') : ItemsKept items items'' := by
  induction first generalizing items'' with
  | nil => exact second
  | cons row _ ih =>
      cases second with | cons row' others =>
      refine .cons ⟨row'.1.trans row.1, fun final => ?_⟩ (ih others)
      have same := row.2 final
      rw [row'.2 (same ▸ final), same]

/-- A move from an open status keeps the final items. -/
theorem moveFirst_kept (isOpen : source.isFinal = false)
    (moved : moveFirst source target items = some items') : ItemsKept items items' := by
  refine (changeFirst_rows moved).imp fun item item' row => ?_
  rcases row with rfl | ⟨found, rfl⟩
  · exact ⟨rfl, fun _ => rfl⟩
  · refine ⟨rfl, fun done => ?_⟩
    rw [of_decide_eq_true found, isOpen] at done
    cases done

theorem cancel_kept (items : List PlanItem) : ItemsKept items (items.map PlanItem.cancel) := by
  refine List.forall₂_map_right_iff.mpr (List.forall₂_same.mpr fun item _ => ?_)
  unfold PlanItem.cancel
  split
  · rename_i isOpen
    refine ⟨rfl, fun done => ?_⟩
    rcases isOpen with same | same <;> rw [same] at done <;> cases done
  · exact ⟨rfl, fun _ => rfl⟩

theorem cancel_count (isOpen : status = .pending ∨ status = .inProgress) :
    statusCount status (items.map PlanItem.cancel) = 0 := by
  rw [statusCount_eq_zero]
  intro item member
  obtain ⟨item, _, rfl⟩ := List.mem_map.mp member
  unfold PlanItem.cancel
  split
  · rcases isOpen with rfl | rfl <;> nofun
  · rename_i closed
    rintro rfl
    exact closed isOpen

end Items

/-! ### Controls and the invariant -/

section Controls

variable {state next : RunState} {call : ControlCall} {accepted : Bool}

/-- The counts that belong to each status of a run. -/
theorem RunState.orderly_iff : state.Orderly ↔
    match state.status with
    | .waitingApproval => statusCount .inProgress state.items = 0
    | .running => statusCount .inProgress state.items = 1
    | .completed | .cancelled =>
        statusCount .pending state.items = 0 ∧ statusCount .inProgress state.items = 0 := by
  have none : statusCount .inProgress state.items = 0 ↔
      ∀ item ∈ state.items, item.status ≠ .inProgress := statusCount_eq_zero
  have idle : statusCount .pending state.items = 0 ↔
      ∀ item ∈ state.items, item.status ≠ .pending := statusCount_eq_zero
  have some' : 0 < statusCount .inProgress state.items ↔
      ∃ item ∈ state.items, item.status = .inProgress := statusCount_pos
  constructor
  · rintro ⟨single, running, waiting, ended⟩
    change statusCount .inProgress state.items ≤ 1 at single
    cases status : state.status with
    | waitingApproval => exact none.mpr (waiting status)
    | running =>
        have := some'.mpr (running.mp status)
        show statusCount .inProgress state.items = 1
        omega
    | completed =>
        have closed := ended (.inl status)
        exact ⟨idle.mpr fun item member => (closed item member).1,
          none.mpr fun item member => (closed item member).2⟩
    | cancelled =>
        have closed := ended (.inr status)
        exact ⟨idle.mpr fun item member => (closed item member).1,
          none.mpr fun item member => (closed item member).2⟩
  · intro counts
    have single : statusCount .inProgress state.items ≤ 1 := by
      cases status : state.status <;> simp only [status] at counts <;> omega
    refine ⟨single, ?_, ?_, ?_⟩
    · rw [← some']
      cases status : state.status <;> simp only [status] at counts <;> simp <;> omega
    · intro status
      rw [status] at counts
      exact none.mp counts
    · intro status
      have closed : statusCount .pending state.items = 0 ∧
          statusCount .inProgress state.items = 0 := by
        rcases status with status | status <;> rwa [status] at counts
      exact fun item member => ⟨idle.mp closed.1 item member, none.mp closed.2 item member⟩

/-- What a control does to an orderly state. -/
structure RunState.Advances (state next : RunState) : Prop where
  orderly : state.Orderly → next.Orderly
  kept : ItemsKept state.items next.items
  ids : next.appliedRequestIds = state.appliedRequestIds

theorem RunState.approvePlan_advances (approved : state.approvePlan = .ok next) :
    state.Advances next := by
  unfold RunState.approvePlan at approved
  split at approved
  · cases approved
  · rename_i waiting
    simp only [bind_eq_ok, okOr_eq_ok, pure_eq_ok] at approved
    obtain ⟨items, moved, rfl⟩ := approved
    refine ⟨fun orderly => ?_, moveFirst_kept rfl moved, rfl⟩
    rw [RunState.orderly_iff, not_not.mp waiting] at orderly
    rw [RunState.orderly_iff]
    have count := moveFirst_count .inProgress moved
    simp only [reduceCtorEq, if_true, if_false] at count orderly
    show statusCount .inProgress items = 1
    omega

theorem RunState.skipCurrentItem_advances (skipped : state.skipCurrentItem = .ok next) :
    state.Advances next := by
  unfold RunState.skipCurrentItem at skipped
  split at skipped
  · cases skipped
  · rename_i active
    simp only [bind_eq_ok, okOr_eq_ok] at skipped
    obtain ⟨items, moved, rest⟩ := skipped
    have isOpen : ItemStatus.isFinal
        (if state.status = .waitingApproval then .pending else .inProgress) = false := by
      split <;> rfl
    have kept := moveFirst_kept isOpen moved
    have inProgress := moveFirst_count .inProgress moved
    split at rest
    · rename_i started promoted
      rw [pure_eq_ok] at rest
      subst rest
      have promotedCount := moveFirst_count .inProgress promoted
      by_cases waiting : state.status = .waitingApproval
      · refine ⟨fun orderly => ?_, by simpa [waiting] using kept, rfl⟩
        rw [RunState.orderly_iff] at orderly ⊢
        simp only [waiting, if_true, reduceCtorEq, if_false] at orderly inProgress ⊢
        omega
      · have running : state.status = .running := by tauto
        refine ⟨fun orderly => ?_, ?_, rfl⟩
        · rw [RunState.orderly_iff] at orderly ⊢
          simp only [running, if_true, reduceCtorEq, if_false] at orderly inProgress promotedCount ⊢
          omega
        · simpa [waiting] using kept.trans (moveFirst_kept rfl promoted)
    · rename_i finished
      rw [pure_eq_ok] at rest
      subst rest
      refine ⟨fun orderly => ?_, kept, rfl⟩
      rw [moveFirst_none] at finished
      rw [RunState.orderly_iff] at orderly ⊢
      refine ⟨finished, ?_⟩
      by_cases waiting : state.status = .waitingApproval
      · simp only [waiting, if_true, reduceCtorEq, if_false] at orderly inProgress ⊢
        omega
      · have running : state.status = .running := by tauto
        simp only [running, if_true, reduceCtorEq, if_false] at orderly inProgress ⊢
        omega

theorem RunState.cancelRun_advances (cancelled : state.cancelRun = .ok next) :
    state.Advances next := by
  unfold RunState.cancelRun at cancelled
  split at cancelled
  · cases cancelled
  · cases cancelled
    refine ⟨fun _ => ?_, cancel_kept state.items, rfl⟩
    exact RunState.orderly_iff.mpr ⟨cancel_count (.inl rfl), cancel_count (.inr rfl)⟩

theorem RunState.perform_advances {action : ControlAction} (performed : state.perform action = .ok next) :
    state.Advances next := by
  cases action with
  | approvePlan => exact RunState.approvePlan_advances performed
  | skipCurrentItem => exact RunState.skipCurrentItem_advances performed
  | cancelRun => exact RunState.cancelRun_advances performed

/-- An applied request was not applied before, and its id is kept. -/
theorem RunState.applyControl_spec {request : ControlRequest} {prAuthor : String} {maintainers : List String}
    (applied : state.applyControl request prAuthor maintainers = .ok next) :
    (state.Orderly → next.Orderly) ∧ ItemsKept state.items next.items ∧
      request.requestId ∉ state.appliedRequestIds ∧
      next.appliedRequestIds = insert request.requestId state.appliedRequestIds := by
  simp only [RunState.applyControl, bind_eq_ok, ensure_eq_ok, pure_eq_ok] at applied
  obtain ⟨_, _, _, new, updated, performed, rfl⟩ := applied
  have advances := RunState.perform_advances performed
  refine ⟨fun orderly => ?_, advances.kept, new, ?_⟩
  · obtain ⟨single, running, waiting, ended⟩ := advances.orderly orderly
    exact ⟨single, running, waiting, ended⟩
  · show insert request.requestId updated.appliedRequestIds = _
    rw [advances.ids]

theorem RunState.Step.orderly (step : state.Step (call, accepted) next) (orderly : state.Orderly) :
    next.Orderly := by
  cases step with
  | applied _ applied => exact (RunState.applyControl_spec applied).1 orderly
  | rejected => exact orderly

theorem RunState.Step.kept (step : state.Step (call, accepted) next) :
    ItemsKept state.items next.items := by
  cases step with
  | applied _ applied => exact (RunState.applyControl_spec applied).2.1
  | rejected => exact .refl _

/-- The ids of the state are the ids that were applied. -/
theorem requestId_applied_once {start finish : RunState} {calls : List (ControlCall × Bool)}
    (run : Run RunState.Step start calls finish) (requestId : String) :
    calls.countP (fun call => call.2 && call.1.request.requestId = requestId) ≤
      if requestId ∈ finish.appliedRequestIds then 1 else 0 := by
  induction run with
  | refl => simp
  | @snoc _ middle _ _ _ last ih =>
      rw [List.countP_append, List.countP_singleton]
      cases last with
      | applied call applied =>
          obtain ⟨-, -, new, ids⟩ := RunState.applyControl_spec applied
          by_cases same : call.request.requestId = requestId
          · rw [same] at new ids
            rw [if_neg new] at ih
            simp only [same, ids, Finset.mem_insert_self, if_true, Bool.true_and, decide_true]
            omega
          · have member : requestId ∈ insert call.request.requestId middle.appliedRequestIds ↔
                requestId ∈ middle.appliedRequestIds :=
              Finset.mem_insert.trans (or_iff_right (Ne.symm same))
            simpa [ids, member, same] using ih
      | rejected => simpa using ih

/-- The whole of a sequence rests on its first state. -/
theorem RunState.sequenced_iff : state.Sequenced ↔ state.Orderly := by
  constructor
  · intro sequenced
    exact sequenced.orderly [] state .refl
  · intro orderly
    refine ⟨fun _ _ run => ?_, fun _ _ middle _ _ run => ?_, fun _ finish requestId run => ?_, ?_⟩
    · exact run.invariant RunState.Orderly orderly fun _ _ _ orderly step => step.orderly orderly
    · exact run.invariant (fun state => ItemsKept middle.items state.items) (.refl _)
        fun _ _ _ kept step => kept.trans step.kept
    · have once := requestId_applied_once run requestId
      split at once <;> omega
    · intro _ _ _ _ _ step
      cases step
      rfl

end Controls

/-! ### Constructors -/

section Constructors

variable {items : List PlanItem} {state : RunState}

/-- At most one item is in progress, and none beside a pending one. -/
def SingleStart (items : List PlanItem) : Prop :=
  statusCount .inProgress items ≤ 1 ∧
    (0 < statusCount .pending items → statusCount .inProgress items = 0)

instance (items : List PlanItem) : Decidable (SingleStart items) := inferInstanceAs (Decidable (_ ∧ _))

theorem RunState.new_orderly (built : RunState.new items = .ok state) :
    state.Orderly ↔ SingleStart items := by
  simp only [RunState.new, bind_eq_ok] at built
  obtain ⟨-, -, rest⟩ := built
  rw [RunState.orderly_iff, SingleStart]
  cases moved : moveFirst .pending .inProgress items with
  | some started =>
      rw [moved] at rest
      cases rest
      have pending := moveFirst_count .pending moved
      have inProgress := moveFirst_count .inProgress moved
      simp only [reduceCtorEq, if_true, if_false] at pending inProgress ⊢
      omega
  | none =>
      rw [moved] at rest
      have idle := moveFirst_none.mp moved
      by_cases busy : 0 < statusCount .inProgress items
      · rw [if_pos (by simpa using statusCount_pos.mp busy)] at rest
        cases rest
        show statusCount .inProgress items = 1 ↔ _
        omega
      · rw [if_neg (by simpa using fun found => busy (statusCount_pos.mpr found))] at rest
        cases rest
        show statusCount .pending items = 0 ∧ statusCount .inProgress items = 0 ↔ _
        omega

theorem RunState.waitingApproval_orderly (built : RunState.waitingApproval items = .ok state) :
    state.Orderly ↔ statusCount .inProgress items = 0 := by
  simp only [RunState.waitingApproval, bind_eq_ok, pure_eq_ok] at built
  obtain ⟨-, -, rfl⟩ := built
  exact RunState.orderly_iff

/-- Every sequence of requests keeps its promises exactly when the run starts with one item at most
in progress and none beside pending items, and without one while it waits for approval. -/
theorem run_sequenced (items : List PlanItem) (state : RunState) :
    (RunState.new items = .ok state → (state.Sequenced ↔ SingleStart items)) ∧
      (RunState.waitingApproval items = .ok state →
        (state.Sequenced ↔ ∀ item ∈ items, item.status ≠ .inProgress)) := by
  constructor
  · intro built
    rw [RunState.sequenced_iff, RunState.new_orderly built]
  · intro built
    rw [RunState.sequenced_iff, RunState.waitingApproval_orderly built, statusCount_eq_zero]

end Constructors

/-! ### Two items of a run -/

theorem firstRunItem_valid : validateIdentifier "item id" "one" = .ok () := by decide +kernel

theorem secondRunItem_valid : validateIdentifier "item id" "two" = .ok () := by decide +kernel

theorem runSummary_valid : validateSafeText "item summary" "Work" = .ok () := by decide +kernel

/-- The first item is pending, and the second one has the given status. -/
def mixedItems (status : ItemStatus) : List PlanItem :=
  [⟨"one", "Work", .pending, firstRunItem_valid, runSummary_valid⟩,
    ⟨"two", "Work", status, secondRunItem_valid, runSummary_valid⟩]

theorem run_sequenced_pending :
    (⟨.waitingApproval, mixedItems .pending, ∅⟩ : RunState).Sequenced ∧
      (∃ state, RunState.new (mixedItems .pending) = .ok state ∧ state.Sequenced) := by
  refine ⟨((run_sequenced (mixedItems .pending) _).2 rfl).mpr (by decide), _, rfl, ?_⟩
  exact ((run_sequenced (mixedItems .pending) _).1 rfl).mpr (by decide)

/-- A pending item starts beside the one that is in progress, and a plan waits with an item in
progress. -/
theorem mixed_starts_unsequenced :
    (∃ state, RunState.new (mixedItems .inProgress) = .ok state ∧ ¬ state.Sequenced) ∧
      ∃ state, RunState.waitingApproval (mixedItems .inProgress) = .ok state ∧ ¬ state.Sequenced := by
  constructor
  · refine ⟨⟨.running, (mixedItems .inProgress).map fun item => item.withStatus .inProgress, ∅⟩, rfl,
      fun sequenced => ?_⟩
    exact absurd (sequenced.orderly [] _ .refl).single (by decide)
  · refine ⟨_, rfl, fun sequenced => ?_⟩
    exact (sequenced.orderly [] _ .refl).waiting rfl _ (.tail _ (.head _)) rfl

end PiTools
