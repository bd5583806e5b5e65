import PiTools.Queue.Deduplication

/-
This file splits an enqueue into its two statements, which run beside all other
calls, and shows when one job at most handles a head.
-/

namespace PiTools

open Library

/-! ### The system -/

/-- An enqueue between its search for a terminal job and its insertion. -/
structure PendingEnqueue where
  spec : JobSpec
  proposedId : Uuid

structure QueueSystem where
  db : Database
  pending : List PendingEnqueue

inductive QueueAction
  | select (enqueue : PendingEnqueue)
  | insert (enqueue : PendingEnqueue)
  | abandon (enqueue : PendingEnqueue)
  | call (event : Event)

/-- Every step is one statement of an enqueue or one other call. -/
inductive QueueSystem.Step (system : QueueSystem) : QueueAction → QueueSystem → Prop
  | handled {enqueue : PendingEnqueue} {job : Job}
      (found : terminalJob system.db enqueue.spec = some job) : Step system (.select enqueue) system
  | selected {enqueue : PendingEnqueue} (missed : terminalJob system.db enqueue.spec = none) :
      Step system (.select enqueue) { system with pending := system.pending ++ [enqueue] }
  | inserted {enqueue : PendingEnqueue} {after : Database} {pending : List PendingEnqueue}
      {jobId : Uuid}
      (inserted : insertJob system.db enqueue.spec enqueue.proposedId = .ok (after, jobId))
      (next : Replaces system.pending enqueue [] pending) :
      Step system (.insert enqueue) ⟨after, pending⟩
  | refused {enqueue : PendingEnqueue} {pending : List PendingEnqueue} {reason : DatabaseError}
      (refused : insertJob system.db enqueue.spec enqueue.proposedId = .error reason)
      (next : Replaces system.pending enqueue [] pending) :
      Step system (.insert enqueue) { system with pending }
  | abandoned {enqueue : PendingEnqueue} {pending : List PendingEnqueue}
      (next : Replaces system.pending enqueue [] pending) :
      Step system (.abandon enqueue) { system with pending }
  | called {event : Event} {after : Database}
      (other : ∀ spec proposedId, event.1 ≠ .enqueue spec proposedId)
      (called : system.db.Step event after) : Step system (.call event) { system with db := after }

/-- The succeeded jobs of the identity that carry the head. -/
def succeededWith (db : Database) (key : JobDeduplicationKey) (headSha : String) : Nat :=
  db.jobs.countP fun job => job.deduplicationKey = key && job.state = .succeeded &&
    job.plan.getText "head_sha" = some headSha

/-- A job of the identity succeeded with the head. -/
def Settled (db : Database) (key : JobDeduplicationKey) (headSha : String) : Prop :=
  ∃ job ∈ db.jobs, job.deduplicationKey = key ∧ job.state = .succeeded ∧ CarriesHead headSha job

/-- No job of the identity is active. -/
def Vacant (db : Database) (key : JobDeduplicationKey) : Prop :=
  ∀ job ∈ db.jobs, job.active = true → job.deduplicationKey ≠ key

/-- A job that comes to carry a head finds it unsettled. -/
def FindsUnsettled (system : QueueSystem) : QueueAction → Prop
  | .insert enqueue => enqueue.spec.kind.handlesHead = true →
      Vacant system.db enqueue.spec.deduplicationKey → ∀ headSha,
        enqueue.spec.plan.getText "head_sha" = some headSha →
          ¬ Settled system.db enqueue.spec.deduplicationKey headSha
  -- The details of an approval are merged into the plan, which has the head.
  | .call (.markWaitingApproval jobId _ _ details, _) => ∀ job ∈ system.db.jobs, job.id = jobId →
      job.kind.handlesHead = true → ∀ headSha, details.getText "head_sha" = some headSha →
        ¬ Settled system.db job.deduplicationKey headSha
  | _ => True

/-- A step that brings back no settled head. -/
def UnsettledStep (system : QueueSystem) (action : QueueAction) (next : QueueSystem) : Prop :=
  system.Step action next ∧ FindsUnsettled system action

/-! ### Heads of a row -/

section Rows

variable {job job' : Job} {headSha : String} {now : Timestamp} {event : Event} {rowEvent : RowEvent}

/-- The job handled the head or may still handle it. -/
def Job.claims (job : Job) (headSha : String) : Prop :=
  (job.active = true ∨ job.state = .succeeded) ∧ CarriesHead headSha job

theorem approvedPlan_head {plan approved : Json} (set : approvedPlan plan = .ok approved) :
    approved.getText "head_sha" = plan.getText "head_sha" := by
  unfold approvedPlan at set
  split at set
  · cases set
  · rename_i first
    rw [Json.getText_setKey set (by decide), Json.getText_setKey first (by decide)]

theorem Job.active_of_running (running : job.state = .running) : job.active = true := by
  simp [Job.active, running, JobState.active]

/-- A row claims a head that it claimed before, or takes it from the details of its approval. -/
theorem Moved.claims (moved : Moved event now job job') (claims : job'.claims headSha) :
    job.claims headSha ∨ job.active = true ∧ ∃ workerId leaseToken details,
      event = (.markWaitingApproval job.id workerId leaseToken details, .changed true) ∧
        details.getText "head_sha" = some headSha := by
  obtain ⟨rowEvent, move, explained⟩ := moved
  obtain ⟨live, carries⟩ := claims
  cases move with
  | untouched => exact .inl ⟨live, carries⟩
  | cancelled => simp [Job.cancel, Job.active, JobState.active] at live
  | exhausted => simp [Job.exhaust, Job.active, JobState.active] at live
  | failed => simp [Job.complete, Job.active, JobState.active] at live
  | skipped plan started uncancelled item set =>
      refine .inl ⟨.inl ?_, ?_⟩
      · rcases started with running | parked
        · exact Job.active_of_running running
        · simp [Job.active, parked, JobState.active]
      · exact (Json.getText_setKey set (by decide)).symm.trans carries
  | waiting workerId leaseToken details held =>
      have active := Job.active_of_running (Job.leaseHeld_iff.mp held).1
      rcases Json.getText_concat carries with fromDetails | fromPlan
      · exact .inr ⟨active, workerId, leaseToken, details, explained, fromDetails⟩
      · exact .inl ⟨.inl active, fromPlan⟩
  | approved plan parked uncancelled shown set =>
      refine .inl ⟨.inl (by simp [Job.active, parked, JobState.active]), ?_⟩
      exact (approvedPlan_head set).symm.trans carries
  | leased workerId leaseToken leaseable =>
      refine .inl ⟨.inl ?_, carries⟩
      simp only [Job.leaseable, Bool.and_eq_true, Bool.or_eq_true, decide_eq_true_eq] at leaseable
      rcases leaseable.2 with queued | ⟨running, _⟩
      · simp [Job.active, queued, JobState.active]
      · exact Job.active_of_running running
  | renewed workerId leaseToken held =>
      exact .inl ⟨.inl (Job.active_of_running (Job.leaseHeld_iff.mp held).1), carries⟩
  | succeeded workerId leaseToken result held =>
      exact .inl ⟨.inl (Job.active_of_running (Job.leaseHeld_iff.mp held).1), carries⟩
  | linked => exact .inl ⟨live, carries⟩

end Rows

/-! ### Heads of the table -/

section Tables

variable {db after : Database} {event : Event} {spec : JobSpec} {headSha : String}

/-- Two jobs of one identity never claim the same head. -/
def HeadsApart (jobs : List Job) : Prop :=
  ∀ first ∈ jobs, ∀ second ∈ jobs, first.deduplicationKey = second.deduplicationKey →
    first.kind.handlesHead = true → ∀ headSha, first.claims headSha → second.claims headSha →
      first.id = second.id

/-- A job that is alone in claiming the heads of a new row keeps the heads apart. -/
theorem HeadsApart.append (apart : HeadsApart db.jobs) {proposedId : Uuid}
    (vacant : Vacant db spec.deduplicationKey)
    (unsettled : spec.kind.handlesHead = true → ∀ headSha,
      spec.plan.getText "head_sha" = some headSha → ¬ Settled db spec.deduplicationKey headSha) :
    HeadsApart (db.jobs ++ [newJob db spec proposedId]) := by
  have alone (job : Job) (member : job ∈ db.jobs)
      (same : job.deduplicationKey = spec.deduplicationKey) (handles : spec.kind.handlesHead = true)
      (headSha : String) (claims : job.claims headSha) :
      ¬ (newJob db spec proposedId).claims headSha := by
    intro new
    rcases claims.1 with active | succeeded
    · exact vacant job member active same
    · exact unsettled handles headSha new.2 ⟨job, member, same, succeeded, claims.2⟩
  intro first inFirst second inSecond same handles headSha one two
  simp only [List.mem_append, List.mem_singleton] at inFirst inSecond
  rcases inFirst with oldFirst | rfl
  · rcases inSecond with oldSecond | rfl
    · exact apart first oldFirst second oldSecond same handles headSha one two
    · have kind : first.kind = spec.kind := congrArg JobDeduplicationKey.kind same
      exact absurd two (alone first oldFirst same (kind ▸ handles) headSha one)
  · rcases inSecond with oldSecond | rfl
    · exact absurd one (alone second oldSecond same.symm handles headSha two)
    · rfl

/-- A call that merges only unsettled heads keeps the heads apart. -/
theorem HeadsApart.moved (apart : HeadsApart db.jobs) (constrained : Constrained db.jobs)
    (rows : List.Forall₂ (Moved event db.now) db.jobs after.jobs)
    (finds : FindsUnsettled ⟨db, []⟩ (.call event)) : HeadsApart after.jobs := by
  -- A row that takes the head from its details meets no other row that claims the head.
  have taken {job other : Job} {workerId : String} {leaseToken : Uuid} {details : Json}
      {headSha : String} (member : job ∈ db.jobs) (inside : other ∈ db.jobs)
      (same : job.deduplicationKey = other.deduplicationKey) (handles : job.kind.handlesHead = true)
      (active : job.active = true)
      (waits : event = (.markWaitingApproval job.id workerId leaseToken details, .changed true))
      (head : details.getText "head_sha" = some headSha) (claims : other.claims headSha) :
      job.id = other.id := by
    subst waits
    rcases claims.1 with active' | succeeded
    · rw [constrained.active_unique member inside active active' same]
    · exact absurd ⟨other, inside, same.symm, succeeded, claims.2⟩
        (finds job member rfl handles headSha head)
  intro first' inFirst second' inSecond same handles headSha one two
  obtain ⟨first, member, moved⟩ := forall₂_old rows inFirst
  obtain ⟨second, inside, moved'⟩ := forall₂_old rows inSecond
  obtain ⟨firstId, firstKey⟩ := moved.identity
  obtain ⟨secondId, secondKey⟩ := moved'.identity
  have sameKey : first.deduplicationKey = second.deduplicationKey := by
    rw [← firstKey, ← secondKey, same]
  have kind : first'.kind = first.kind := congrArg JobDeduplicationKey.kind firstKey
  have kinds : first.kind = second.kind := congrArg JobDeduplicationKey.kind sameKey
  have handlesFirst : first.kind.handlesHead = true := kind ▸ handles
  rw [firstId, secondId]
  rcases moved.claims one with oldOne | ⟨active, workerId, leaseToken, details, waits, head⟩
  · rcases moved'.claims two with oldTwo | ⟨active', workerId, leaseToken, details, waits, head⟩
    · exact apart first member second inside sameKey handlesFirst headSha oldOne oldTwo
    · exact (taken inside member sameKey.symm (kinds ▸ handlesFirst) active' waits head oldOne).symm
  · rcases moved'.claims two with oldTwo | ⟨active', _, _, _, waits', _⟩
    · exact taken member inside sameKey handlesFirst active waits head oldTwo
    · rw [waits] at waits'
      simp only [Prod.mk.injEq, Op.markWaitingApproval.injEq] at waits'
      exact waits'.1.1

/-- Jobs that stay apart give one success for each head. -/
theorem HeadsApart.succeededWith (apart : HeadsApart db.jobs) (constrained : Constrained db.jobs)
    {key : JobDeduplicationKey} (handles : key.kind.handlesHead = true) (headSha : String) :
    succeededWith db key headSha ≤ 1 := by
  unfold PiTools.succeededWith
  apply Nat.le_of_not_lt
  intro several
  obtain ⟨chosen, member, holds⟩ := List.countP_pos_iff.mp (Nat.lt_trans Nat.zero_lt_one several)
  have alone := countP_le_one Job.id (fun job => job.id = chosen.id) chosen.id constrained.ids (by simp)
  have fewer := List.countP_mono_left (l := db.jobs) (p := fun job =>
    job.deduplicationKey = key && job.state = .succeeded &&
      job.plan.getText "head_sha" = some headSha) (q := fun job => job.id = chosen.id) ?_
  · omega
  · intro job inside other
    simp only [Bool.and_eq_true, decide_eq_true_eq] at holds other ⊢
    have same : job.deduplicationKey = chosen.deduplicationKey := other.1.1.trans holds.1.1.symm
    have kind : job.kind = key.kind := congrArg JobDeduplicationKey.kind other.1.1
    exact apart job inside chosen member same (kind ▸ handles) headSha
      ⟨.inr other.1.2, other.2⟩ ⟨.inr holds.1.2, holds.2⟩

end Tables

/-! ### Runs -/

section Runs

variable {start system next finish : QueueSystem} {actions : List QueueAction}
  {action : QueueAction}

/-- The invariant of a system in which every head is handled once. -/
structure QueueSystem.Apart (system : QueueSystem) : Prop where
  constrained : Constrained system.db.jobs
  heads : HeadsApart system.db.jobs

theorem QueueSystem.Apart.step (apart : system.Apart) (step : system.Step action next)
    (finds : FindsUnsettled system action) : next.Apart := by
  cases step with
  | handled => exact apart
  | selected => exact ⟨apart.constrained, apart.heads⟩
  | refused => exact ⟨apart.constrained, apart.heads⟩
  | abandoned => exact ⟨apart.constrained, apart.heads⟩
  | inserted inserted =>
      rcases insertJob_ok inserted with ⟨_, _, _, _, _, rfl⟩ | ⟨vacant, _, rfl, constrained⟩
      · exact ⟨apart.constrained, apart.heads⟩
      · exact ⟨constrained, apart.heads.append vacant fun handles => finds handles vacant⟩
  | @called event after other called =>
      obtain ⟨effect, constrained⟩ := step_effect apart.constrained called
      cases effect with
      | inserted spec proposedId enqueued => exact absurd (congrArg Prod.fst enqueued) (other _ _)
      | moved rows => exact ⟨constrained, apart.heads.moved apart.constrained rows finds⟩

/-- One job at most succeeds with a head when every new row finds its head unsettled. -/
theorem succeeded_once (empty : start.db.jobs = [])
    (run : Run UnsettledStep start actions finish) (key : JobDeduplicationKey)
    (handles : key.kind.handlesHead = true) (headSha : String) :
    succeededWith finish.db key headSha ≤ 1 := by
  have apart : finish.Apart := by
    apply run.invariant QueueSystem.Apart
    · exact ⟨empty ▸ constrained_nil, by simp [HeadsApart, empty]⟩
    · intro system action next apart step
      exact apart.step step.1 step.2
  exact apart.heads.succeededWith apart.constrained handles headSha

end Runs

/-! ### Two enqueues of one head -/

def rivalEnqueue (proposedId : Uuid) : PendingEnqueue := ⟨repairOf "head", proposedId⟩

/-- The job of one enqueue succeeds after the search of the other one. -/
def rivalDatabase : Database :=
  (replay [.upsertRepository 1 1, .enqueue (repairOf "head") 5, .leaseNext "worker" 10,
    .markSucceeded 5 "worker" 10 .null] (.empty 0)).2

def rivalActions : List QueueAction :=
  [.call (.upsertRepository 1 1, .done), .select (rivalEnqueue 4), .select (rivalEnqueue 5),
    .insert (rivalEnqueue 5),
    .call (.leaseNext "worker" 10, .leased (some
      ⟨5, 1, 7, .ciRepair, (repairOf "head").plan, leaseInterval, 10, 1, 5⟩)),
    .call (.markSucceeded 5 "worker" 10 .null, .changed true)]

def secondActions : List QueueAction :=
  [.insert (rivalEnqueue 4),
    .call (.leaseNext "worker" 11, .leased (some
      ⟨4, 1, 7, .ciRepair, (repairOf "head").plan, leaseInterval, 11, 1, 5⟩)),
    .call (.markSucceeded 4 "worker" 11 .null, .changed true)]

def rivalInserted : Database :=
  { rivalDatabase with
    jobs := rivalDatabase.jobs ++ [newJob rivalDatabase (repairOf "head") 4] }

def secondDatabase : Database :=
  (replay [.leaseNext "worker" 11, .markSucceeded 4 "worker" 11 .null] rivalInserted).2

theorem rival_run :
    Run UnsettledStep ⟨.empty 0, []⟩ rivalActions ⟨rivalDatabase, [rivalEnqueue 4]⟩ := by
  refine Run.cons ⟨.called (by simp) rfl, trivial⟩ ?_
  refine Run.cons ⟨.selected rfl, trivial⟩ ?_
  refine Run.cons ⟨.selected rfl, trivial⟩ ?_
  refine Run.cons ⟨.inserted rfl ⟨[rivalEnqueue 4], [], rfl, rfl⟩, ?_⟩ ?_
  · rintro _ _ _ _ ⟨job, member, _⟩
    cases member
  refine Run.cons ⟨.called (by simp) rfl, trivial⟩ ?_
  exact Run.single ⟨.called (by simp) rfl, trivial⟩

theorem second_run :
    Run QueueSystem.Step ⟨rivalDatabase, [rivalEnqueue 4]⟩ secondActions ⟨secondDatabase, []⟩ := by
  refine Run.cons (.inserted rfl ⟨[], [], rfl, rfl⟩) ?_
  refine Run.cons (.called (by simp) rfl) ?_
  exact Run.single (.called (by simp) rfl)

theorem succeeded_once_rival : succeededWith rivalDatabase ⟨1, 7, .ciRepair⟩ "head" ≤ 1 :=
  succeeded_once (show (QueueSystem.mk (.empty 0) []).db.jobs = [] from rfl) rival_run _ rfl _

/-- The insertion that follows the success of the rival repairs the same head again. -/
theorem head_repaired_twice :
    ¬ ∀ (start finish : QueueSystem) (actions : List QueueAction) (key : JobDeduplicationKey)
      (headSha : String), start.db.jobs = [] → Run QueueSystem.Step start actions finish →
      key.kind.handlesHead = true → succeededWith finish.db key headSha ≤ 1 := by
  intro claimed
  have run := (rival_run.mono fun _ _ _ step => step.1).append second_run
  have once : succeededWith secondDatabase ⟨1, 7, .ciRepair⟩ "head" ≤ 1 :=
    claimed _ _ _ _ _ rfl run rfl
  have twice : succeededWith secondDatabase ⟨1, 7, .ciRepair⟩ "head" = 2 := by decide
  omega

end PiTools
