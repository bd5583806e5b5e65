import PiTools.Queue.Invariant

/-
This file compares the two paths that put a job back into the queue. Only the
skip gives back the attempt that the last lease took.
-/

namespace PiTools

open Library

/-- The job is below its limit and no call fails it before a worker leases it again. -/
def Runnable (db : Database) (jobId : Uuid) : Prop :=
  ∀ job ∈ db.jobs, job.id = jobId → job.state = .queued ∧ job.attempt < job.maxAttempts ∧
    ∀ events later, Run Database.Step db events later → grantCount events jobId = 0 →
      ∀ job' ∈ later.jobs, job'.id = jobId → job'.state ≠ .failed

/-- A row that waits for its next lease below the limit, or that a user cancelled. -/
def Job.Unspent (job : Job) : Prop :=
  (job.state = .queued ∧ job.attempt < job.maxAttempts) ∨ job.state = .cancelled

/-- Only a lease takes an unspent row out of the queue. -/
theorem Move.unspent {event : Event} {now : Timestamp} {rowEvent : RowEvent} {job job' : Job}
    (move : Move now job rowEvent job') (explained : rowEvent.Explains event now job)
    (ungranted : event.grants job.id = false) (unspent : job.Unspent) : job'.Unspent := by
  have idle : job.state ≠ .running ∧ job.state ≠ .waitingApproval := by
    rcases unspent with ⟨state, _⟩ | state <;> simp [state]
  cases move with
  | untouched | linked => exact unspent
  | cancelled => exact .inr rfl
  | skipped plan started => exact absurd started (by simp [idle])
  | approved plan parked => exact absurd parked idle.2
  | exhausted pending spent =>
      rcases unspent with ⟨_, below⟩ | state
      · omega
      · rcases pending with other | other <;> simp [state] at other
  | leased workerId leaseToken =>
      subst explained
      simp [Event.grants, Job.leased] at ungranted
  | waiting _ _ _ held | renewed _ _ held | succeeded _ _ _ held | failed _ _ _ held =>
      exact absurd (Job.leaseHeld_running held).1 idle.1

section Runs

variable {start db after : Database} {past events : List Event}

/-- An unspent job stays unspent until its next lease. -/
theorem run_unspent (empty : start.jobs = []) (before : Run Database.Step start past db)
    (run : Run Database.Step db events after) (jobId : Uuid)
    (unspent : ∀ job ∈ db.jobs, job.id = jobId → job.Unspent)
    (present : ∃ job ∈ db.jobs, job.id = jobId) (ungranted : grantCount events jobId = 0) :
    ∀ job ∈ after.jobs, job.id = jobId → job.Unspent := by
  have kept : grantCount events jobId = 0 → (∃ job ∈ after.jobs, job.id = jobId) ∧
      ∀ job ∈ after.jobs, job.id = jobId → job.Unspent := by
    refine run.history (fun later state => grantCount later jobId = 0 →
      (∃ job ∈ state.jobs, job.id = jobId) ∧ ∀ job ∈ state.jobs, job.id = jobId → job.Unspent)
      (fun _ => ⟨present, unspent⟩) ?_
    intro later state event next earlier held step none
    rw [grantCount_snoc, Nat.add_eq_zero_iff] at none
    have quiet : event.grants jobId = false := by
      by_contra grants
      simp [show event.grants jobId = true by simpa using grants] at none
    obtain ⟨⟨old, oldMember, oldId⟩, rows⟩ := held none.1
    obtain ⟨effect, constrained⟩ :=
      step_effect (run_constrained empty (before.append earlier)) step
    refine ⟨?_, fun job' member same => ?_⟩
    · obtain ⟨job', member', _, move, _⟩ := effect.successor oldMember
      exact ⟨job', member', move.identity.1.trans oldId⟩
    · rcases effect.row constrained member with
        ⟨spec, proposedId, _, rfl, fresh⟩ | ⟨job, inside, rowEvent, move, explained⟩
      · exact absurd (oldId.trans same.symm) (fresh old oldMember)
      · have sameId := move.identity.1.symm.trans same
        subst sameId
        exact move.unspent explained quiet (rows job inside rfl)
  exact (kept ungranted).2

/-- A queued job below its limit is runnable. -/
theorem runnable_of_below (empty : start.jobs = []) (run : Run Database.Step start past db)
    (job : Job) (member : job ∈ db.jobs) (queued : job.state = .queued)
    (below : job.attempt < job.maxAttempts) : Runnable db job.id := by
  intro other inside same
  have equal := row_unique Job.id (run_constrained empty run).ids inside member same
  subst equal
  refine ⟨queued, below, fun events later after ungranted job' member' same' failed => ?_⟩
  have unspent := run_unspent empty run after other.id
    (fun row inside' same => by
      rw [row_unique Job.id (run_constrained empty run).ids inside' inside same]
      exact .inl ⟨queued, below⟩)
    ⟨other, inside, rfl⟩ ungranted job' member' same'
  rcases unspent with ⟨state, _⟩ | state <;> simp [state] at failed

/-- A skip always leaves a runnable job, and an approval does so below the limit. -/
theorem requeue_runnable_iff (empty : start.jobs = []) (run : Run Database.Step start past db)
    {op : Op} {jobId : Uuid} (requeues : op = .approvePlan jobId ∨ op = .skipCurrentItem jobId)
    (step : db.Step (op, .changed true) after) :
    Runnable after jobId ↔ op = .skipCurrentItem jobId ∨
      ∀ job ∈ db.jobs, job.id = jobId → job.attempt < job.maxAttempts := by
  have constrained := run_constrained empty run
  have target : op.target = some jobId := by
    rcases requeues with rfl | rfl <;> rfl
  obtain ⟨job, member, rfl, job', member', move⟩ := changed_moves constrained target step
  have next : Run Database.Step start (past ++ [(op, .changed true)]) after := run.snoc step
  have valid := run_valid empty run job member
  rcases requeues with rfl | rfl
  · cases move with
    | approved plan parked uncancelled shown set =>
        constructor
        · intro runnable
          refine .inr fun other inside same => ?_
          rw [row_unique Job.id constrained.ids inside member same]
          exact (runnable _ member' rfl).2.1
        · rintro (other | below)
          · cases other
          · exact runnable_of_below empty next (job.approve plan) member' rfl
              (below job member rfl)
  · cases move with
    | skipped plan started uncancelled item set =>
        refine ⟨fun _ => .inl rfl, fun _ =>
          runnable_of_below empty next (job.skip plan) member' rfl ?_⟩
        have atLeastOne := valid.started started
        have upper := valid.upper
        show max (job.attempt - 1) 0 < job.maxAttempts
        omega

end Runs

/-- Four leases expire, and the fifth one ends in a wait for approval. -/
def lastAttempt : List Op :=
  [.upsertRepository 1 1, .enqueue ⟨1, 7, .ciRepair, .object []⟩ 5,
    .leaseNext "worker" 10, .advance leaseInterval, .leaseNext "worker" 11, .advance leaseInterval,
    .leaseNext "worker" 12, .advance leaseInterval, .leaseNext "worker" 13, .advance leaseInterval,
    .leaseNext "worker" 14,
    .markWaitingApproval 5 "worker" 14
      (.object [("approval_details", .object [("plan_hash", .string "sha256:00")])])]

theorem requeue_runnable_lastAttempt :
    Runnable (perform (.approvePlan 5) (replay lastAttempt (.empty 0)).2).1 5 ↔
      Op.approvePlan 5 = .skipCurrentItem 5 ∨
        ∀ job ∈ (replay lastAttempt (.empty 0)).2.jobs, job.id = 5 →
          job.attempt < job.maxAttempts :=
  requeue_runnable_iff rfl (replay_run _ _) (.inl rfl) rfl

/-- The approval succeeds on the last attempt, and the next sweep fails the job. -/
theorem approval_exhausted :
    ¬ ∀ (start db after : Database) (past : List Event) (op : Op) (jobId : Uuid),
      start.jobs = [] → Run Database.Step start past db →
        op = .approvePlan jobId ∨ op = .skipCurrentItem jobId →
          db.Step (op, .changed true) after → Runnable after jobId := by
  intro claim
  have runnable := claim (.empty 0) _ _ _ (.approvePlan 5) 5 rfl (replay_run lastAttempt _)
    (.inl rfl) rfl
  have below : ∀ job ∈ (perform (.approvePlan 5) (replay lastAttempt (.empty 0)).2).1.jobs,
      job.id = 5 → job.attempt < job.maxAttempts := fun job member same =>
    (runnable job member same).2.1
  revert below
  decide

end PiTools
