import PiTools.Queue.Operations

/-
This file defines the fingerprint that binds an approval to a proposal and its
details, and the check that a plan carries such an approval.
-/

namespace PiTools

open Library

/-- The fields of a plan that the queue controls. -/
def controlFields : List String :=
  ["approved", "approved_hash", "approval_details", "skipped_items"]

def withoutApprovalControlFields : Json → Json
  | .object fields => .object (controlFields.foldl (fun left field => removeField field left) fields)
  | plan => plan

def withoutPlanHash : Json → Json
  | .object fields => .object (removeField "plan_hash" fields)
  | details => details

/-- The value whose serialization is hashed. -/
def approvalPayload (plan details : Json) : Json :=
  .object [("details", withoutPlanHash details), ("plan", withoutApprovalControlFields plan)]

section Digest

-- The parameter is the hexadecimal SHA-256 digest of a serialization.
variable (sha256Hex : List Char → String)

def approvalFingerprint (plan details : Json) : String :=
  "sha256:" ++ sha256Hex (approvalPayload plan details).text

/-- Details that are not an object become the only field of one. -/
def detailFields : Json → Fields
  | .object fields => fields
  | details => [("details", details)]

def bindApprovalDetails (plan details : Json) : Json :=
  .object (insertField "plan_hash"
    (.string (approvalFingerprint sha256Hex plan (.object (detailFields details))))
    (detailFields details))

/-- The plan is approved, and its approval is for this proposal and these details. -/
def planIsApproved (plan : Json) : Bool :=
  ((plan.get "approved").bind Json.asBool).getD false &&
    match (plan.get "approved_hash").bind Json.asStr, plan.get "approval_details" with
    | some approvedHash, some details =>
        ((details.get "plan_hash").bind Json.asStr).any fun detailsHash =>
          approvedHash = detailsHash && approvedHash = approvalFingerprint sha256Hex plan details
    | _, _ => false

end Digest

variable {sha256Hex : List Char → String}

theorem bind_asStr {value : Option Json} {text : String} :
    value.bind Json.asStr = some text ↔ value = some (.string text) := by
  constructor
  · intro known
    obtain ⟨inner, rfl, string⟩ := Option.bind_eq_some_iff.mp known
    cases inner <;> simp_all [Json.asStr]
  · rintro rfl
    rfl

theorem bind_asBool {value : Option Json} :
    (value.bind Json.asBool).getD false = true ↔ value = some (.bool true) := by
  cases value with
  | none => simp
  | some inner => cases inner <;> simp [Json.asBool]

/-- An approval names its bit, one hash in both places and the fingerprint. -/
theorem planIsApproved_iff {plan : Json} :
    planIsApproved sha256Hex plan = true ↔
      plan.get "approved" = some (.bool true) ∧ ∃ details,
        plan.get "approval_details" = some details ∧
        plan.get "approved_hash" =
          some (.string (approvalFingerprint sha256Hex plan details)) ∧
        details.get "plan_hash" =
          some (.string (approvalFingerprint sha256Hex plan details)) := by
  rw [planIsApproved, Bool.and_eq_true, bind_asBool]
  refine and_congr_right fun _ => ?_
  constructor
  · intro checked
    split at checked
    · rename_i approvedHash details known shown
      obtain ⟨detailsHash, found, equal⟩ := (Option.any_eq_true ..).mp checked
      simp only [Bool.and_eq_true, decide_eq_true_eq] at equal
      obtain ⟨rfl, rfl⟩ := equal
      exact ⟨details, shown, bind_asStr.mp known, bind_asStr.mp found⟩
    · cases checked
  · rintro ⟨details, shown, known, found⟩
    rw [shown, known]
    simp [Json.asStr, found]

/-- The proposal keeps every field outside the control fields. -/
theorem get_withoutApprovalControlFields {plan : Json} {key : String}
    (other : key ∉ controlFields) : (withoutApprovalControlFields plan).get key = plan.get key := by
  simp only [controlFields, List.mem_cons, List.not_mem_nil, or_false, not_or] at other
  obtain ⟨approved, hash, details, skipped⟩ := other
  cases plan with
  | object fields =>
      simp [withoutApprovalControlFields, controlFields, Ne.symm approved, Ne.symm hash,
        Ne.symm details, Ne.symm skipped]
  | _ => rfl

theorem get_withoutPlanHash {details : Json} {key : String} (other : key ≠ "plan_hash") :
    (withoutPlanHash details).get key = details.get key := by
  cases details with
  | object fields => simp [withoutPlanHash, other.symm]
  | _ => rfl

/-- Equal fingerprints come from equal proposals and equal details. -/
theorem approvalFingerprint_injective
    (injective : Function.Injective fun payload : Json => sha256Hex payload.text)
    {plan plan' details details' : Json}
    (same : approvalFingerprint sha256Hex plan details =
      approvalFingerprint sha256Hex plan' details') :
    withoutApprovalControlFields plan = withoutApprovalControlFields plan' ∧
      withoutPlanHash details = withoutPlanHash details' := by
  have digest : sha256Hex (approvalPayload plan details).text =
      sha256Hex (approvalPayload plan' details').text := by
    simpa [approvalFingerprint, ← String.toList_inj] using same
  have payload := injective digest
  simp only [approvalPayload, Json.object.injEq, List.cons.injEq, Prod.mk.injEq, true_and,
    and_true] at payload
  exact ⟨payload.2, payload.1⟩

/-- The approved hash fits no other proposal and no other details. -/
theorem planIsApproved_changed
    (injective : Function.Injective fun payload : Json => sha256Hex payload.text)
    {plan plan' : Json} (approved : planIsApproved sha256Hex plan = true)
    (kept : plan'.get "approved_hash" = plan.get "approved_hash")
    (changed : (∃ key, key ∉ controlFields ∧ plan'.get key ≠ plan.get key) ∨
      ∃ key, ((plan'.get "approval_details").bind fun details => details.get key) ≠
        ((plan.get "approval_details").bind fun details => details.get key)) :
    planIsApproved sha256Hex plan' = false := by
  by_contra still
  obtain ⟨_, details, shown, hash, stored⟩ := planIsApproved_iff.mp approved
  obtain ⟨_, details', shown', hash', stored'⟩ :=
    planIsApproved_iff.mp (Bool.not_eq_false _ ▸ still)
  have fingerprint : approvalFingerprint sha256Hex plan' details' =
      approvalFingerprint sha256Hex plan details := by
    rw [kept, hash] at hash'
    simpa using hash'.symm
  obtain ⟨proposal, rest⟩ := approvalFingerprint_injective injective fingerprint
  rcases changed with ⟨key, other, different⟩ | ⟨key, different⟩
  · apply different
    rw [← get_withoutApprovalControlFields other, proposal, get_withoutApprovalControlFields other]
  · apply different
    rw [shown, shown', Option.bind_some, Option.bind_some]
    by_cases isHash : key = "plan_hash"
    · rw [isHash, stored, stored', fingerprint]
    · rw [← get_withoutPlanHash isHash, rest, get_withoutPlanHash isHash]

/-- The skipped items are no part of the proposal. -/
theorem withoutApprovalControlFields_skipped (fields : Fields) (items : Json) :
    withoutApprovalControlFields (.object (insertField "skipped_items" items fields)) =
      withoutApprovalControlFields (.object fields) := by
  simp only [withoutApprovalControlFields, controlFields, List.foldl_cons, List.foldl_nil,
    removeField_comm "skipped_items", removeField_insertField_self]

theorem planIsApproved_skipped (fields : Fields) (items : Json) :
    planIsApproved sha256Hex (.object (insertField "skipped_items" items fields)) =
      planIsApproved sha256Hex (.object fields) := by
  rw [Bool.eq_iff_iff, planIsApproved_iff, planIsApproved_iff]
  simp [approvalFingerprint, approvalPayload, withoutApprovalControlFields_skipped]

/-- A skip keeps the answer of the check. -/
theorem planIsApproved_skippedPlan {job : Job} {plan : Json} (set : job.skippedPlan = .ok plan) :
    planIsApproved sha256Hex plan = planIsApproved sha256Hex job.plan := by
  obtain ⟨fields, same, rfl⟩ := Json.setKey_ok set
  rw [same]
  exact planIsApproved_skipped fields _

/-- The bound details carry the fingerprint of the proposal with themselves. -/
theorem bindApprovalDetails_planHash (plan details : Json) :
    (bindApprovalDetails sha256Hex plan details).get "plan_hash" =
      some (.string (approvalFingerprint sha256Hex plan
        (bindApprovalDetails sha256Hex plan details))) := by
  simp [bindApprovalDetails, approvalFingerprint, approvalPayload, withoutPlanHash,
    removeField_insertField_self]

end PiTools
