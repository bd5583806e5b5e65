import PiTools.Queue.Effects

/-
This file shows which job an enqueue returns and when this job carries the head
of the new plan.
-/

namespace PiTools

open Library

variable {db after : Database} {spec : JobSpec} {headSha : String}

/-- The plan of the job names the head. -/
def CarriesHead (headSha : String) (job : Job) : Prop := job.plan.getText "head_sha" = some headSha

/-- Only repairs and rebases look for a job that already handled their head. -/
def JobKind.handlesHead (kind : JobKind) : Bool := kind = .ciRepair || kind = .stackRebase

theorem JobKind.handlesHead_iff {kind : JobKind} :
    kind.handlesHead = true ↔ kind = .ciRepair ∨ kind = .stackRebase := by
  simp [JobKind.handlesHead]

/-- A succeeded job of the same identity carries the head. -/
def Handled (db : Database) (spec : JobSpec) (headSha : String) : Prop :=
  ∃ job ∈ db.jobs, job.deduplicationKey = spec.deduplicationKey ∧ job.state = .succeeded ∧
    CarriesHead headSha job

/-- No active job of the same identity carries another head. -/
def ActiveHeadsAgree (db : Database) (spec : JobSpec) (headSha : String) : Prop :=
  ∀ job ∈ db.jobs, job.active = true → job.deduplicationKey = spec.deduplicationKey →
    CarriesHead headSha job

theorem terminalJob_eq_some {job : Job} (kind : spec.kind.handlesHead = true)
    (head : spec.terminalHeadSha = some headSha) (found : terminalJob db spec = some job) :
    job ∈ db.jobs ∧ job.deduplicationKey = spec.deduplicationKey ∧ job.state = .succeeded ∧
      CarriesHead headSha job := by
  rw [terminalJob, if_pos (JobKind.handlesHead_iff.mp kind), head] at found
  have selected := List.mem_filter.mp (selectFirst_mem found)
  simpa [CarriesHead, and_assoc] using selected

theorem terminalJob_eq_none (kind : spec.kind.handlesHead = true)
    (head : spec.terminalHeadSha = some headSha) :
    terminalJob db spec = none ↔ ¬ Handled db spec headSha := by
  rw [terminalJob, if_pos (JobKind.handlesHead_iff.mp kind), head, selectFirst_eq_none,
    List.filter_eq_nil_iff]
  simp [Handled, CarriesHead]

/-- The plan of a new job carries the head of its specification. -/
theorem newJob_carriesHead (head : spec.terminalHeadSha = some headSha) (proposedId : Uuid) :
    CarriesHead headSha (newJob db spec proposedId) := by
  obtain ⟨value, found, text⟩ := Option.bind_eq_some_iff.mp head
  cases value with
  | string inner =>
      cases text
      exact Json.getText_of_string found
  | _ => cases text

/-- An enqueue returns a job that handled the head, or else the active job, or else a new job. -/
inductive Returned (db after : Database) (spec : JobSpec) (proposedId jobId : Uuid) : Prop
  | handled (job : Job) (found : terminalJob db spec = some job) (same : job.id = jobId)
      (kept : after = db)
  | absorbed (job : Job) (unhandled : terminalJob db spec = none) (member : job ∈ db.jobs)
      (active : job.active = true) (identity : job.deduplicationKey = spec.deduplicationKey)
      (same : job.id = jobId) (kept : after = db)
  | inserted (unhandled : terminalJob db spec = none)
      (vacant : ∀ job ∈ db.jobs, job.active = true → job.deduplicationKey ≠ spec.deduplicationKey)
      (same : proposedId = jobId)
      (stored : after = { db with jobs := db.jobs ++ [newJob db spec proposedId] })
      (constrained : Constrained after.jobs)

/-- The insertion returns the active job of the identity or adds a new job. -/
theorem insertJob_ok {proposedId jobId : Uuid}
    (inserted : insertJob db spec proposedId = .ok (after, jobId)) :
    (∃ job ∈ db.jobs, job.active = true ∧ job.deduplicationKey = spec.deduplicationKey ∧
        job.id = jobId ∧ after = db) ∨
      (∀ job ∈ db.jobs, job.active = true → job.deduplicationKey ≠ spec.deduplicationKey) ∧
        proposedId = jobId ∧ after = { db with jobs := db.jobs ++ [newJob db spec proposedId] } ∧
        Constrained after.jobs := by
  unfold insertJob at inserted
  split at inserted
  · rename_i job found
    cases inserted
    have conditions := List.find?_some found
    simp only [Bool.and_eq_true, decide_eq_true_eq] at conditions
    exact .inl ⟨job, List.mem_of_find?_eq_some found, conditions.1, conditions.2, rfl, rfl⟩
  · rename_i vacant
    split at inserted
    · cases inserted
    · split at inserted
      · cases inserted
      · rename_i stored accepted
        cases inserted
        obtain ⟨rfl, constrained⟩ := storeJobs_ok.mp accepted
        refine .inr ⟨fun job member active same => ?_, rfl, rfl, constrained⟩
        have missed := List.find?_eq_none.mp vacant job member
        simp [active, same] at missed

theorem enqueue_returned {proposedId jobId : Uuid}
    (enqueued : enqueue db spec proposedId = .ok (after, jobId)) :
    Returned db after spec proposedId jobId := by
  unfold enqueue at enqueued
  cases found : terminalJob db spec with
  | some job =>
      rw [found] at enqueued
      cases enqueued
      exact .handled job found rfl rfl
  | none =>
      rw [found] at enqueued
      rcases insertJob_ok enqueued with
        ⟨job, member, active, identity, same, kept⟩ | ⟨vacant, same, stored, constrained⟩
      · exact .absorbed job found member active identity same kept
      · exact .inserted found vacant same stored constrained

/-- Two active jobs of one identity are the same job. -/
theorem Constrained.active_unique {jobs : List Job} (constrained : Constrained jobs)
    {first second : Job} (inFirst : first ∈ jobs) (inSecond : second ∈ jobs)
    (active : first.active = true) (active' : second.active = true)
    (same : first.deduplicationKey = second.deduplicationKey) : first = second :=
  row_unique Job.deduplicationKey constrained.identities
    (List.mem_filter.mpr ⟨inFirst, active⟩) (List.mem_filter.mpr ⟨inSecond, active'⟩) same

/-- A CI repair of the given head. -/
def repairOf (headSha : String) : JobSpec :=
  ⟨1, 7, .ciRepair, .object [("head_sha", .string headSha)]⟩

def pushed : List Op := [.upsertRepository 1 1, .enqueue (repairOf "old") 4]

end PiTools
