import PiTools.Library.Outcome
import PiTools.Worker.WaitingApproval

/-
This file defines the work plan that a worker displays: its items, the comment
that shows them and the item on which the worker works.
-/

namespace PiTools

open Library

/-! ### Contracts -/

inductive ContractError
  | invalid (field reason : String)
  | markdownTooLarge
  deriving DecidableEq, Repr

def ContractError.text : ContractError → String
  | .invalid field reason => "invalid " ++ field ++ ": " ++ reason
  | .markdownTooLarge => "rendered GitHub Markdown exceeds 60000 bytes"

def maxItems : Nat := 100

def maxItemIdBytes : Nat := 64

def maxTextBytes : Nat := 1000

def identifierChar (c : Char) : Bool := c.isAlphanum || c = '-' || c = '_' || c = '.'

def validateIdentifier (field value : String) : Except ContractError Unit :=
  ensure (value ≠ "" ∧ byteLength value.toList ≤ maxItemIdBytes ∧ value.toList.all identifierChar)
    (.invalid field "must be 1-64 ASCII letters, digits, '.', '_' or '-'")

def secretIndicators : List String :=
  ["github_pat_", "ghp_", "sk-proj-", "-----begin private key", "authorization: bearer",
    "x-access-token:"]

def validateSafeText (field value : String) : Except ContractError Unit := do
  ensure (blank value.toList = false ∧ byteLength value.toList ≤ maxTextBytes ∧
      '\r' ∉ value.toList ∧ '\x00' ∉ value.toList)
    (.invalid field "must be non-empty, single-line-safe text of at most 1000 bytes")
  ensure (∀ indicator ∈ secretIndicators,
      containsText indicator.toList (asciiLowercase value.toList) = false)
    (.invalid field "contains secret-like material")

def validateApprovalHash (value : String) : Except ContractError Unit :=
  match stripPrefix "sha256:".toList value.toList with
  | none => .error (.invalid "approval hash" "must use the sha256:<64 hex characters> format")
  | some digits =>
      ensure (byteLength digits = 64 ∧ digits.all fun c =>
          c.isDigit || ('a' ≤ c && c ≤ 'f') || ('A' ≤ c && c ≤ 'F'))
        (.invalid "approval hash" "must use the sha256:<64 hex characters> format")

/-! ### Items -/

inductive ItemStatus
  | pending
  | inProgress
  | completed
  | failed
  | skipped
  | cancelled
  deriving DecidableEq, Repr

structure PlanItem where
  id : String
  summary : String
  status : ItemStatus
  validId : validateIdentifier "item id" id = .ok ()
  validSummary : validateSafeText "item summary" summary = .ok ()
  deriving DecidableEq, Repr

def PlanItem.new (id summary : String) (status : ItemStatus) : Except ContractError PlanItem :=
  match validId : validateIdentifier "item id" id with
  | .error reason => .error reason
  | .ok () =>
      match validSummary : validateSafeText "item summary" summary with
      | .error reason => .error reason
      | .ok () => .ok ⟨id, summary, status, validId, validSummary⟩

theorem PlanItem.new_ok {id summary : String} {status : ItemStatus} {item : PlanItem}
    (built : PlanItem.new id summary status = .ok item) : item.id = id ∧ item.status = status := by
  unfold PlanItem.new at built
  split at built
  · cases built
  · split at built
    · cases built
    · cases built
      exact ⟨rfl, rfl⟩

theorem PlanItem.new_of_valid {id summary : String} (status : ItemStatus)
    (validId : validateIdentifier "item id" id = .ok ())
    (validSummary : validateSafeText "item summary" summary = .ok ()) :
    PlanItem.new id summary status = .ok ⟨id, summary, status, validId, validSummary⟩ := by
  unfold PlanItem.new
  split
  · rename_i invalid
    rw [validId] at invalid
    cases invalid
  · split
    · rename_i invalid
      rw [validSummary] at invalid
      cases invalid
    · rfl

def JobKind.databaseValue : JobKind → String
  | .reconcile => "reconcile"
  | .feedbackRepair => "feedback_repair"
  | .ciRepair => "ci_repair"
  | .stackRebase => "stack_rebase"

def jobKindSummary : JobKind → String
  | .reconcile => "Refresh GitHub state and evaluate merge readiness"
  | .feedbackRepair => "Validate and apply an approved automation suggestion"
  | .ciRepair => "Diagnose a GitHub Actions failure and prepare a repair plan"
  | .stackRebase => "Plan a safe pull request stack rebase"

def planItemIsSkipped (plan : Json) (itemId : String) : Bool :=
  (((plan.get "skipped_items").bind Json.asArray).getD []).any fun item =>
    item.asStr = some itemId

def feedbackItemId (index : Nat) : String := "feedback-" ++ toString index

/-- The loop over the feedback. Only the first item that is left gets the first status. -/
def feedbackItems (plan : Json) (firstStatus : ItemStatus) :
    List Nat → Bool → Except ContractError (List PlanItem)
  | [], _ => .ok []
  | index :: rest, started => do
      let skipped := planItemIsSkipped plan (feedbackItemId index)
      let item ← PlanItem.new (feedbackItemId index) "Process automated feedback"
        (if skipped then .skipped else if started then .pending else firstStatus)
      let items ← feedbackItems plan firstStatus rest (started || !skipped)
      pure (item :: items)

/-- A feedback repair has an item for each piece of feedback, up to the first hundred. -/
def plannedFeedback (kind : JobKind) (plan : Json) (firstStatus : ItemStatus) :
    Except ContractError (List PlanItem) :=
  if kind = .feedbackRepair then
    feedbackItems plan firstStatus
      (List.range (min (((plan.get "feedback").bind Json.asArray).getD []).length 100)) false
  else .ok []

def planItemsForJob (job : LeasedJob) (firstStatus : ItemStatus) :
    Except ContractError (List PlanItem) := do
  let items ← plannedFeedback job.kind job.plan firstStatus
  if items ≠ [] then
    pure items
  else
    let item ← PlanItem.new job.kind.databaseValue (jobKindSummary job.kind) firstStatus
    pure [item]

def currentItemId (items : List PlanItem) : Option String :=
  (items.find? fun item => item.status = .inProgress || item.status = .pending).map PlanItem.id

/-- The item on which the holder of the lease works. -/
def LeasedJob.workItem (job : LeasedJob) : Option String :=
  match planItemsForJob job .inProgress with
  | .error _ => none
  | .ok items => currentItemId items

theorem LeasedJob.workItem_of_items {job : LeasedJob} {items : List PlanItem}
    (planned : planItemsForJob job .inProgress = .ok items) : job.workItem = currentItemId items := by
  rw [LeasedJob.workItem, planned]

/-! ### Plans with the same items -/

/-- Two plans agree on the fields from which their items come. -/
structure SameItems (plan plan' : Json) : Prop where
  feedback : plan'.get "feedback" = plan.get "feedback"
  skipped : plan'.get "skipped_items" = plan.get "skipped_items"

theorem SameItems.refl (plan : Json) : SameItems plan plan := ⟨rfl, rfl⟩

theorem SameItems.trans {plan plan' plan'' : Json} (first : SameItems plan plan')
    (second : SameItems plan' plan'') : SameItems plan plan'' :=
  ⟨second.feedback.trans first.feedback, second.skipped.trans first.skipped⟩

section Plans

variable {plan plan' : Json} {firstStatus : ItemStatus}

theorem SameItems.planItemIsSkipped (same : SameItems plan plan') (itemId : String) :
    planItemIsSkipped plan' itemId = planItemIsSkipped plan itemId := by
  rw [PiTools.planItemIsSkipped, PiTools.planItemIsSkipped, same.skipped]

theorem SameItems.feedbackItems (same : SameItems plan plan') (indices : List Nat) (started : Bool) :
    feedbackItems plan' firstStatus indices started =
      feedbackItems plan firstStatus indices started := by
  induction indices generalizing started with
  | nil => rfl
  | cons index rest ih =>
      simp only [PiTools.feedbackItems, same.planItemIsSkipped, ih]

/-- Leases of one kind with the same items have the same work item. -/
theorem LeasedJob.workItem_congr {job job' : LeasedJob} (kind : job'.kind = job.kind)
    (same : SameItems job.plan job'.plan) : job'.workItem = job.workItem := by
  have planned : plannedFeedback job'.kind job'.plan .inProgress =
      plannedFeedback job.kind job.plan .inProgress := by
    rw [plannedFeedback, plannedFeedback, kind, same.feedback, same.feedbackItems]
  rw [LeasedJob.workItem, LeasedJob.workItem, planItemsForJob, planItemsForJob, planned, kind]

/-- The loop gives the status of a skipped item to the skipped items only. -/
theorem feedbackItems_unskipped {indices : List Nat} {started : Bool} {items : List PlanItem}
    (planned : feedbackItems plan firstStatus indices started = .ok items) :
    ∀ item ∈ items, item.status ≠ .skipped → planItemIsSkipped plan item.id = false := by
  induction indices generalizing started items with
  | nil =>
      cases planned
      simp
  | cons index rest ih =>
      simp only [feedbackItems, bind_eq_ok, pure_eq_ok] at planned
      obtain ⟨item, built, later, others, rfl⟩ := planned
      obtain ⟨sameId, sameStatus⟩ := PlanItem.new_ok built
      intro other member unskipped
      rcases List.mem_cons.mp member with rfl | member
      · rw [sameId]
        by_contra skipped
        rw [Bool.not_eq_false] at skipped
        rw [sameStatus, skipped] at unskipped
        exact unskipped rfl
      · exact ih others other member unskipped

/-- The work item of a lease is not skipped, unless it is the kind of the job itself. -/
theorem LeasedJob.workItem_unskipped {job : LeasedJob} {item : String}
    (works : job.workItem = some item)
    (whole : item = job.kind.databaseValue → planItemIsSkipped job.plan item = false) :
    planItemIsSkipped job.plan item = false := by
  unfold LeasedJob.workItem at works
  split at works
  · cases works
  · rename_i items planned
    obtain ⟨chosen, found, rfl⟩ := Option.map_eq_some_iff.mp works
    have inside := List.mem_of_find?_eq_some found
    simp only [planItemsForJob, bind_eq_ok] at planned
    obtain ⟨feedback, looped, rest⟩ := planned
    split at rest
    · cases rest
      simp only [plannedFeedback] at looped
      split at looped
      · refine feedbackItems_unskipped looped chosen inside fun skipped => ?_
        have active := List.find?_some found
        rw [skipped] at active
        cases active
      · cases looped
        cases inside
    · simp only [bind_eq_ok, pure_eq_ok] at rest
      obtain ⟨only, built, rfl⟩ := rest
      rw [List.mem_singleton] at inside
      exact whole (inside ▸ (PlanItem.new_ok built).1)

end Plans

/-- The skipped items of a plan. -/
def skippedItems (plan : Json) : List Json := ((plan.get "skipped_items").getD (.array [])).items

/-- A skip appends the current item. -/
theorem skippedItems_skippedPlan {job : Job} {plan : Json} {item : String}
    (current : job.currentItem = some item) (set : job.skippedPlan = .ok plan) :
    skippedItems plan = skippedItems job.plan ++ [.string item] := by
  rw [skippedItems, Json.get_setKey "skipped_items" set, if_pos rfl, current]
  cases known : (job.plan.get "skipped_items").getD (.array []) <;>
    simp [skippedItems, known, Json.concat, Json.items]

/-! ### Comments -/

/-- The parts of a parsed URL that the check reads. -/
structure Url where
  scheme : String
  host : Option String
  username : String
  text : String
  deriving DecidableEq, Repr

structure WorkPlanComment where
  checkRunUrl : Url
  items : List PlanItem
  approvalHash : Option String
  deriving DecidableEq, Repr

def validateItems (items : List PlanItem) : Except ContractError Unit := do
  ensure (items.length ≤ maxItems) (.invalid "plan items" "cannot contain more than 100 entries")
  ensure (items.map PlanItem.id).Nodup (.invalid "plan items" "item ids must be unique")

-- The parameter is the URL parser.
def validateHttpsUrl (parseUrl : String → Option Url) (value : String) : Except ContractError Url :=
  match parseUrl value with
  | none => .error (.invalid "Check Run URL" "must be an absolute HTTPS URL")
  | some url =>
      if url.scheme ≠ "https" ∨ url.host = none ∨ url.username ≠ "" then
        .error (.invalid "Check Run URL" "must be an absolute HTTPS URL without user information")
      else .ok url

def WorkPlanComment.new (parseUrl : String → Option Url) (checkRunUrl : String)
    (items : List PlanItem) : Except ContractError WorkPlanComment := do
  validateItems items
  let checkRunUrl ← validateHttpsUrl parseUrl checkRunUrl
  pure ⟨checkRunUrl, items, none⟩

def WorkPlanComment.withApprovalHash (comment : WorkPlanComment) (approvalHash : String) :
    Except ContractError WorkPlanComment := do
  validateApprovalHash approvalHash
  pure { comment with approvalHash := some approvalHash }

end PiTools
