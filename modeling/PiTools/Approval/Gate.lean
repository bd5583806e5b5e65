import PiTools.Approval.Fingerprint
import PiTools.Queue.Effects

/-
This file follows the approved hash of a job through every run. A plan passes
the check only when an approval copied the fingerprint that it still has.
-/

namespace PiTools

open Library

/-- A plan enters the queue without the fields that the queue controls. -/
def ControlFree (plan : Json) : Prop := ∀ key ∈ controlFields, plan.get key = none

/-- The details merge bound approval details and no other control field. -/
structure BoundOnly (sha256Hex : List Char → String) (details : Json) : Prop where
  isObject : details.isObject = true
  bound : ∃ plan raw, details.get "approval_details" = some (bindApprovalDetails sha256Hex plan raw)
  approved : details.get "approved" = none
  approvedHash : details.get "approved_hash" = none
  skippedItems : details.get "skipped_items" = none

/-- The calls on a job enqueue a free plan and merge only bound details. -/
structure CleanCalls (sha256Hex : List Char → String) (jobId : Uuid) (events : List Event) :
    Prop where
  enqueued : ∀ spec, (.enqueue spec jobId, .job jobId) ∈ events → ControlFree spec.plan
  waited : ∀ workerId leaseToken details,
    (.markWaitingApproval jobId workerId leaseToken details, .changed true) ∈ events →
      BoundOnly sha256Hex details

theorem CleanCalls.before {sha256Hex : List Char → String} {jobId : Uuid} {events : List Event}
    {event : Event} (clean : CleanCalls sha256Hex jobId (events ++ [event])) :
    CleanCalls sha256Hex jobId events where
  enqueued spec member := clean.enqueued spec (List.mem_append_left _ member)
  waited workerId leaseToken details member :=
    clean.waited workerId leaseToken details (List.mem_append_left _ member)

/-- Some approval of the job succeeded while the stored plan hash was the given value. -/
def ApprovedWith (start : Database) (events : List Event) (jobId : Uuid) (hash : Json) : Prop :=
  ∃ past future before, events = past ++ (.approvePlan jobId, .changed true) :: future ∧
    Run Database.Step start past before ∧
      ∃ job ∈ before.jobs, job.id = jobId ∧ storedPlanHash job.plan = some hash

theorem ApprovedWith.snoc {start : Database} {events : List Event} {jobId : Uuid} {hash : Json}
    (earlier : ApprovedWith start events jobId hash) (event : Event) :
    ApprovedWith start (events ++ [event]) jobId hash := by
  obtain ⟨past, future, before, rfl, run, row⟩ := earlier
  exact ⟨past, future ++ [event], before, by simp, run, row⟩

/-- An approval writes the stored plan hash. -/
theorem approvedPlan_hash {plan plan' hash : Json} (shown : approvable plan = true)
    (set : approvedPlan plan = .ok plan') (after : plan'.get "approved_hash" = some hash) :
    storedPlanHash plan = some hash := by
  simp only [approvedPlan] at set
  split at set
  · cases set
  · rename_i approved _
    rw [Json.get_setKey "approved_hash" set, if_pos rfl, Option.some.injEq] at after
    simp only [approvable, Bool.and_eq_true, Option.isSome_iff_exists] at shown
    obtain ⟨_, text, string⟩ := shown
    obtain ⟨inner, known, _⟩ := Option.bind_eq_some_iff.mp string
    rw [known] at after ⊢
    exact congrArg some after

/-- An approved hash is an old one, comes with a wait or is the stored hash of an approval. -/
theorem Move.approvedHash {now : Timestamp} {rowEvent : RowEvent} {job job' : Job} {hash : Json}
    (move : Move now job rowEvent job') (after : job'.plan.get "approved_hash" = some hash) :
    job.plan.get "approved_hash" = some hash ∨
      (∃ workerId leaseToken details, rowEvent = .waiting workerId leaseToken details ∧
        details.get "approved_hash" = some hash) ∨
      (rowEvent = .approved ∧ storedPlanHash job.plan = some hash) := by
  cases move with
  | untouched | cancelled | exhausted | leased | renewed | succeeded | failed | linked =>
      exact .inl after
  | skipped plan started uncancelled item set =>
      rw [show (job.skip plan).plan = plan from rfl, Json.get_setKey "approved_hash" set] at after
      exact .inl (by simpa using after)
  | waiting workerId leaseToken details held =>
      rcases Json.get_concat_of_get after with new | ⟨_, old⟩
      · exact .inr (.inl ⟨workerId, leaseToken, details, rfl, new⟩)
      · exact .inl old
  | approved plan parked uncancelled shown set =>
      exact .inr (.inr ⟨rfl, approvedPlan_hash shown set after⟩)

section Runs

variable {sha256Hex : List Char → String} {start db : Database} {events : List Event}
  {jobId : Uuid}

/-- Every approved hash in the plan of the job was copied by an approval. -/
theorem run_approvedHash (empty : start.jobs = []) (run : Run Database.Step start events db)
    (clean : CleanCalls sha256Hex jobId events) :
    ∀ job ∈ db.jobs, job.id = jobId → ∀ hash, job.plan.get "approved_hash" = some hash →
      ApprovedWith start events jobId hash := by
  have held := run_rows (fun past job => CleanCalls sha256Hex jobId past →
    job.id = jobId → ∀ hash, job.plan.get "approved_hash" = some hash →
      ApprovedWith start past jobId hash) empty run ?_ ?_
  · exact fun job member => held job member clean
  · rintro past before spec proposedId _ _ clean rfl hash after
    have free := clean.enqueued spec (by simp [newJob]) "approved_hash" (by simp [controlFields])
    rw [show (newJob before spec proposedId).plan = spec.plan from rfl, free] at after
    cases after
  · rintro past before event rowEvent job job' earlier inside held move explained clean rfl hash after
    have sameId := move.identity.1
    rcases move.approvedHash after with
      same | ⟨workerId, leaseToken, details, rfl, brought⟩ | ⟨rfl, stored⟩
    · exact (held clean.before sameId.symm hash same).snoc event
    · rw [RowEvent.Explains] at explained
      subst explained
      have bound := clean.waited workerId leaseToken details (by simp [sameId])
      rw [bound.approvedHash] at brought
      cases brought
    · rw [RowEvent.Explains] at explained
      subst explained
      exact ⟨past, [], before, by rw [sameId], earlier, job, inside, sameId.symm, stored⟩

/-- A skip of the job neither creates nor destroys its approval. -/
theorem skip_keeps_approval {after : Database} (constrained : Constrained db.jobs)
    (step : db.Step (.skipCurrentItem jobId, .changed true) after) {job job' : Job}
    (member : job ∈ db.jobs) (same : job.id = jobId) (member' : job' ∈ after.jobs)
    (same' : job'.id = jobId) :
    planIsApproved sha256Hex job'.plan = planIsApproved sha256Hex job.plan := by
  obtain ⟨old, inside, oldId, new, inside', move⟩ := changed_moves constrained rfl step
  have sameOld := row_unique Job.id constrained.ids member inside (same.trans oldId.symm)
  have sameNew := row_unique Job.id (step_effect constrained step).2.ids member' inside'
    (same'.trans (oldId.symm.trans move.identity.1.symm))
  subst sameOld sameNew
  cases move with
  | skipped plan started uncancelled item set => exact planIsApproved_skippedPlan set

/-- The gate that approvals form for one job over the given calls. -/
structure ApprovalGate (sha256Hex : List Char → String) (start : Database) (events : List Event)
    (db : Database) (jobId : Uuid) : Prop where
  approved : ∀ job ∈ db.jobs, job.id = jobId → planIsApproved sha256Hex job.plan = true →
    ∃ details, job.plan.get "approval_details" = some details ∧
      ApprovedWith start events jobId (.string (approvalFingerprint sha256Hex job.plan details))
  changed : ∀ plan plan', planIsApproved sha256Hex plan = true →
    plan'.get "approved_hash" = plan.get "approved_hash" →
      ((∃ key, key ∉ controlFields ∧ plan'.get key ≠ plan.get key) ∨
        ∃ key, ((plan'.get "approval_details").bind fun details => details.get key) ≠
          ((plan.get "approval_details").bind fun details => details.get key)) →
        planIsApproved sha256Hex plan' = false
  skipped : ∀ after, db.Step (.skipCurrentItem jobId, .changed true) after →
    ∀ job ∈ db.jobs, job.id = jobId → ∀ job' ∈ after.jobs, job'.id = jobId →
      planIsApproved sha256Hex job'.plan = planIsApproved sha256Hex job.plan

/-- The gate holds over every run of a job that starts without control fields. -/
theorem approval_gate (injective : Function.Injective fun payload : Json => sha256Hex payload.text)
    (empty : start.jobs = []) (run : Run Database.Step start events db)
    (clean : CleanCalls sha256Hex jobId events) :
    ApprovalGate sha256Hex start events db jobId where
  approved job member same approved := by
    obtain ⟨_, details, shown, hash, _⟩ := planIsApproved_iff.mp approved
    exact ⟨details, shown, run_approvedHash empty run clean job member same _ hash⟩
  changed plan plan' approved kept changed := planIsApproved_changed injective approved kept changed
  skipped after step job member same job' member' same' :=
    skip_keeps_approval (run_constrained empty run) step member same member' same'

end Runs

def reviewPlan : Json := .object [("source", .string "reconcile")]

def reviewDetails : Json := .object [("summary", .string "review")]

/-- The digest agrees with SHA-256 on the payload of the review. -/
def reviewDigest (text : List Char) : String :=
  if text = (approvalPayload reviewPlan reviewDetails).text then
    "36ac686949a07382960ee2f050f4c5e8984e47ea930b3f29e77f844c54141c91"
  else "x" ++ String.ofList text

theorem reviewDigest_injective : Function.Injective fun payload : Json => reviewDigest payload.text := by
  intro first second same
  apply Json.text_injective
  simp only [reviewDigest] at same
  split at same <;> split at same
  · simp_all
  · simp [← String.toList_inj] at same
  · simp [← String.toList_inj] at same
  · simpa [← String.toList_inj] using same

/-- A worker shows the details of a plan, and a reviewer approves them. -/
def review : List Op :=
  [.upsertRepository 1 1, .enqueue ⟨1, 7, .ciRepair, reviewPlan⟩ 5, .leaseNext "worker" 10,
    .markWaitingApproval 5 "worker" 10
      (.object [("approval_details", bindApprovalDetails reviewDigest reviewPlan reviewDetails)]),
    .approvePlan 5]

theorem review_clean : CleanCalls reviewDigest 5 (replay review (.empty 0)).1 := by
  constructor
  · intro spec member
    have called := replay_ops review (.empty 0) ▸ List.mem_map_of_mem (f := Prod.fst) member
    simp only [review, List.mem_cons, reduceCtorEq, Op.enqueue.injEq, List.not_mem_nil, or_false,
      false_or, and_true] at called
    subst called
    intro key control
    simp only [controlFields, List.mem_cons, List.not_mem_nil, or_false] at control
    rcases control with rfl | rfl | rfl | rfl <;> rfl
  · intro workerId leaseToken details member
    have called := replay_ops review (.empty 0) ▸ List.mem_map_of_mem (f := Prod.fst) member
    simp only [review, List.mem_cons, reduceCtorEq, Op.markWaitingApproval.injEq,
      List.not_mem_nil, or_false, false_or, true_and] at called
    obtain ⟨_, _, rfl⟩ := called
    exact ⟨rfl, ⟨_, _, rfl⟩, rfl, rfl, rfl⟩

theorem approval_gate_review :
    ApprovalGate reviewDigest (.empty 0) (replay review (.empty 0)).1 (replay review (.empty 0)).2 5 :=
  approval_gate reviewDigest_injective rfl (replay_run _ _) review_clean

example : (replay review (.empty 0)).2.jobs.map (fun job =>
    planIsApproved reviewDigest job.plan) = [true] := by decide

end PiTools
