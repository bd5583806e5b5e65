import PiTools.Queue.Effects

/-
This file proves the invariant of the `jobs` table over every run of the queue.
-/

namespace PiTools

open Library

/-- The invariant of one row. -/
structure Job.Valid (job : Job) : Prop where
  held : job.state = .running →
    job.leaseOwner.isSome ∧ job.leaseUntil.isSome ∧ job.leaseToken.isSome
  released : job.state ≠ .running →
    job.leaseOwner = none ∧ job.leaseUntil = none ∧ job.leaseToken = none
  lower : 0 ≤ job.attempt
  upper : job.attempt ≤ job.maxAttempts
  positive : 0 < job.maxAttempts
  cancelled : job.cancelRequested = true ↔ job.state = .cancelled
  started : job.state = .running ∨ job.state = .waitingApproval → 1 ≤ job.attempt

/-- A new job adds its own identity to the active ones. -/
theorem activeIdentities_newJob (jobs : List Job) (db : Database) (spec : JobSpec) (id : Uuid) :
    activeIdentities (jobs ++ [newJob db spec id]) =
      activeIdentities jobs ++ [spec.deduplicationKey] := by
  rw [activeIdentities, List.filter_append, List.map_append]
  rfl

theorem newJob_valid (db : Database) (spec : JobSpec) (id : Uuid) : (newJob db spec id).Valid := by
  constructor <;> simp [newJob]

theorem Job.leaseHeld_running {job : Job} {workerId : String} {leaseToken : Uuid} {now : Timestamp}
    (live : job.leaseHeld workerId leaseToken now = true) :
    job.state = .running ∧ job.cancelRequested = false :=
  ⟨(Job.leaseHeld_iff.mp live).1, (Job.leaseHeld_iff.mp live).2.1⟩

/-- Only a queued or a running job below its limit takes a lease. -/
theorem Job.leaseable_iff {job : Job} {now : Timestamp} :
    job.leaseable now = true ↔ job.cancelRequested = false ∧ job.attempt < job.maxAttempts ∧
      (job.state = .queued ∨ (job.state = .running ∧ job.leaseExpired now = true)) := by
  simp [Job.leaseable, and_assoc]

theorem Job.Valid.uncancelled {job : Job} (valid : job.Valid) (other : job.state ≠ .cancelled) :
    job.cancelRequested = false := by
  by_contra requested
  exact other (valid.cancelled.mp (by simpa using requested))

/-- Every move keeps the invariant of its row. -/
theorem Move.valid {now : Timestamp} {rowEvent : RowEvent} {job job' : Job}
    (move : Move now job rowEvent job') (valid : job.Valid) : job'.Valid := by
  have lower := valid.lower
  have upper := valid.upper
  have positive := valid.positive
  cases move with
  | untouched => exact valid
  | cancelled active =>
      constructor <;> simp [Job.cancel, Job.releaseLease, lower, upper, positive]
  | skipped plan started uncancelled item set =>
      have atLeastOne := valid.started started
      constructor <;> simp [Job.skip, Job.releaseLease, positive, uncancelled]
      omega
  | waiting workerId leaseToken details held =>
      obtain ⟨running, uncancelled⟩ := Job.leaseHeld_running held
      have atLeastOne := valid.started (.inl running)
      constructor <;> simp [Job.wait, Job.releaseLease, lower, upper, positive, uncancelled, atLeastOne]
  | approved plan parked uncancelled shown set =>
      have released := valid.released (by simp [parked])
      constructor <;> simp [Job.approve, lower, upper, positive, uncancelled, released]
  | exhausted pending spent idle =>
      have uncancelled : job.cancelRequested = false :=
        valid.uncancelled (by rcases pending with state | state <;> simp [state])
      constructor <;> simp [Job.exhaust, Job.releaseLease, lower, upper, positive, uncancelled]
  | leased workerId leaseToken leaseable =>
      obtain ⟨uncancelled, below, _⟩ := Job.leaseable_iff.mp leaseable
      constructor <;> simp [Job.lease, uncancelled, positive] <;> omega
  | renewed workerId leaseToken held =>
      obtain ⟨running, uncancelled⟩ := Job.leaseHeld_running held
      have leased := valid.held running
      have atLeastOne := valid.started (.inl running)
      constructor <;>
        simp [Job.renew, running, uncancelled, leased, lower, upper, positive, atLeastOne]
  | succeeded workerId leaseToken result held | failed workerId leaseToken result held =>
      have uncancelled := (Job.leaseHeld_running held).2
      constructor <;> simp [Job.complete, Job.releaseLease, lower, upper, positive, uncancelled]
  | linked checkRunId checkRunUrl currentItem =>
      exact ⟨valid.held, valid.released, lower, upper, positive, valid.cancelled, valid.started⟩

/-- No move makes an inactive job active again. -/
theorem Move.active {now : Timestamp} {rowEvent : RowEvent} {job job' : Job}
    (move : Move now job rowEvent job') (after : job'.active = true) : job.active = true := by
  cases move with
  | untouched | linked => exact after
  | cancelled active => exact active
  | skipped plan started => rcases started with state | state <;> simp [Job.active, state, JobState.active]
  | approved plan parked => simp [Job.active, parked, JobState.active]
  | exhausted pending => rcases pending with state | state <;> simp [Job.active, state, JobState.active]
  | leased workerId leaseToken leaseable =>
      rcases (Job.leaseable_iff.mp leaseable).2.2 with state | ⟨state, _⟩ <;>
        simp [Job.active, state, JobState.active]
  | waiting workerId leaseToken details held | renewed workerId leaseToken held
  | succeeded workerId leaseToken result held | failed workerId leaseToken result held =>
      simp [Job.active, (Job.leaseHeld_running held).1, JobState.active]

/-! ### Accounting -/

/-- The call granted a lease of the job. -/
def Event.grants (jobId : Uuid) : Event → Bool
  | (_, .leased (some lease)) => lease.id = jobId
  | _ => false

/-- The call skipped the current item of the job. -/
def Event.skips (jobId : Uuid) : Event → Bool
  | (.skipCurrentItem target, .changed true) => target = jobId
  | _ => false

def grantCount (events : List Event) (jobId : Uuid) : Nat := events.countP (Event.grants jobId)

def skipCount (events : List Event) (jobId : Uuid) : Nat := events.countP (Event.skips jobId)

theorem grantCount_snoc (events : List Event) (event : Event) (jobId : Uuid) :
    grantCount (events ++ [event]) jobId =
      grantCount events jobId + if event.grants jobId then 1 else 0 := by
  simp [grantCount, List.countP_append, List.countP_singleton]

theorem skipCount_snoc (events : List Event) (event : Event) (jobId : Uuid) :
    skipCount (events ++ [event]) jobId =
      skipCount events jobId + if event.skips jobId then 1 else 0 := by
  simp [skipCount, List.countP_append, List.countP_singleton]

theorem Event.touches_of_grants {event : Event} {jobId : Uuid}
    (grants : event.grants jobId = true) : Event.Touches event jobId := by
  obtain ⟨op, reply⟩ := event
  simp only [Event.grants] at grants
  split at grants
  · rename_i same
    cases same
    exact .inr ⟨_, rfl, by simpa using grants⟩
  · cases grants

theorem Event.touches_of_skips {event : Event} {jobId : Uuid}
    (skips : event.skips jobId = true) : Event.Touches event jobId := by
  simp only [Event.skips] at skips
  split at skips
  · exact .inl ⟨by simpa [Op.target] using skips, rfl⟩
  · cases skips

/-- The attempts of a row follow the leases and the skips that its call reports. -/
theorem Move.accounts {event : Event} {now : Timestamp} {rowEvent : RowEvent} {job job' : Job}
    (move : Move now job rowEvent job') (explained : rowEvent.Explains event now job)
    (valid : job.Valid) :
    job'.attempt + ((if event.skips job.id then 1 else 0 : Nat) : Int) =
      job.attempt + ((if event.grants job.id then 1 else 0 : Nat) : Int) := by
  have quiet : ¬ Event.Touches event job.id →
      event.grants job.id = false ∧ event.skips job.id = false := by
    intro untouched
    constructor <;> by_contra other
    · exact untouched (Event.touches_of_grants (by simpa using other))
    · exact untouched (Event.touches_of_skips (by simpa using other))
  cases move with
  | untouched => simp [quiet explained]
  | exhausted => simp [quiet explained.1, Job.exhaust, Job.releaseLease]
  | skipped plan started =>
      have atLeastOne := valid.started started
      subst explained
      simp only [Event.skips, Event.grants, Job.skip, decide_true, if_true]
      simp
      omega
  | leased =>
      subst explained
      simp [Event.skips, Event.grants, Job.leased, Job.lease]
  | cancelled =>
      rcases explained with rfl | ⟨_, rfl⟩ | ⟨_, rfl⟩ <;>
        simp [Event.skips, Event.grants, Job.cancel, Job.releaseLease]
  | linked =>
      obtain ⟨_, _, _, rfl⟩ := explained
      simp [Event.skips, Event.grants, Job.linkCheckRun]
  | waiting | approved | renewed | succeeded | failed =>
      subst explained
      simp [Event.skips, Event.grants, Job.wait, Job.approve, Job.renew, Job.complete, Job.releaseLease]

section Runs

variable {start db : Database} {events : List Event}

theorem run_valid (empty : start.jobs = []) (run : Run Database.Step start events db) :
    ∀ job ∈ db.jobs, job.Valid :=
  run_rows (fun _ job => job.Valid) empty run
    (fun _ before spec proposedId _ _ => newJob_valid before spec proposedId)
    fun _ _ _ _ _ _ _ _ valid move _ => move.valid valid

/-- A call that touches a job leaves a row of that job for the rest of the run. -/
theorem run_present (empty : start.jobs = []) (run : Run Database.Step start events db)
    {event : Event} {jobId : Uuid} (member : event ∈ events) (touched : Event.Touches event jobId) :
    ∃ job ∈ db.jobs, job.id = jobId := by
  refine run.history (fun past state => ∀ event ∈ past, Event.Touches event jobId →
    ∃ job ∈ state.jobs, job.id = jobId) (by simp) ?_ event member touched
  intro past before last after earlier held step event member touched
  obtain ⟨effect, _⟩ := step_effect (run_constrained empty earlier) step
  have old : ∃ job ∈ before.jobs, job.id = jobId := by
    rcases List.mem_append.mp member with inPast | isLast
    · exact held event inPast touched
    · rw [List.mem_singleton] at isLast
      subst isLast
      cases effect with
      | inserted spec proposedId enqueued => simp [enqueued, Event.Touches] at touched
      | moved rows present => exact present jobId touched
  obtain ⟨job, inside, rfl⟩ := old
  obtain ⟨job', inside', rowEvent, move, _⟩ := effect.successor inside
  exact ⟨job', inside', move.identity.1⟩

/-- A job that was never in the table was never leased or skipped. -/
theorem run_uncounted (empty : start.jobs = []) (run : Run Database.Step start events db)
    {jobId : Uuid} (absent : ∀ job ∈ db.jobs, job.id ≠ jobId) :
    grantCount events jobId = 0 ∧ skipCount events jobId = 0 := by
  have untouched : ∀ event ∈ events, ¬ Event.Touches event jobId := by
    intro event member touched
    obtain ⟨job, inside, same⟩ := run_present empty run member touched
    exact absent job inside same
  constructor
  · refine List.countP_eq_zero.mpr fun event member grants => ?_
    exact untouched event member (Event.touches_of_grants grants)
  · refine List.countP_eq_zero.mpr fun event member skips => ?_
    exact untouched event member (Event.touches_of_skips skips)

/-- The leases of a job are its attempts and its skips. -/
theorem run_accounts (empty : start.jobs = []) (run : Run Database.Step start events db) :
    ∀ job ∈ db.jobs, (grantCount events job.id : Int) = job.attempt + skipCount events job.id := by
  refine run_rows (fun past job =>
    (grantCount past job.id : Int) = job.attempt + skipCount past job.id) empty run ?_ ?_
  · intro past before spec proposedId earlier fresh
    obtain ⟨noGrant, noSkip⟩ := run_uncounted empty earlier fresh
    simp [grantCount_snoc, skipCount_snoc, noGrant, noSkip, newJob, Event.grants, Event.skips]
  · intro past before event rowEvent job job' earlier inside held move explained
    have balance := move.accounts explained (run_valid empty earlier job inside)
    rw [move.identity.1, grantCount_snoc, skipCount_snoc]
    push_cast at balance ⊢
    omega

end Runs

/-! ### Refusals -/

/-- The refusals that the invariant does not rule out. -/
def DatabaseError.admissible (reason : DatabaseError) : Prop :=
  reason ≠ .attemptBoundsCheck ∧ reason ≠ .activeLogicalIdentity

theorem storeJobs_error {jobs : List Job} {reason : DatabaseError}
    (bounds : ∀ job ∈ jobs, job.Valid) (identities : (activeIdentities jobs).Nodup)
    (refused : storeJobs jobs = .error reason) : reason.admissible := by
  have accepted : jobs.all Job.attemptBounds = true := by
    rw [List.all_eq_true]
    intro job member
    obtain ⟨_, _, lower, upper, positive, _, _⟩ := bounds job member
    simp [Job.attemptBounds, lower, upper, positive]
  simp only [storeJobs, accepted, identities, not_true_eq_false, if_false] at refused
  split at refused
  · cases refused
    simp [DatabaseError.admissible]
  · split at refused
    · cases refused
      simp [DatabaseError.admissible]
    · cases refused

/-- A table whose rows are valid and whose constraints hold. -/
structure Database.Sound (db : Database) : Prop where
  rows : ∀ job ∈ db.jobs, job.Valid
  constrained : Constrained db.jobs

/-- A statement that only moves rows never meets the two constraints. -/
theorem Update.execute_error {update : Update} {db : Database} {reason : DatabaseError}
    (now : Timestamp) (sound : db.Sound)
    (moves : ∀ job ∈ db.jobs, ∀ job', update.guard job = true → update.change job = .ok job' →
      ∃ rowEvent, Move now job rowEvent job')
    (errors : ∀ job reason, update.change job = .error reason → ∃ set, reason = .jsonbSet set)
    (failed : update.execute db = .error reason) : reason.admissible := by
  simp only [Update.execute] at failed
  split at failed
  · rename_i other updated
    cases failed
    obtain ⟨job, _, _, refused⟩ := updateRows_error updated
    obtain ⟨set, rfl⟩ := errors job _ refused
    simp [DatabaseError.admissible]
  · rename_i jobs count updated
    have rows : List.Forall₂ (fun job job' => job ∈ db.jobs ∧ ∃ rowEvent, Move now job rowEvent job')
        db.jobs jobs := by
      refine (forall₂_members (updateRows_spec updated).1).imp fun job job' paired => ?_
      obtain ⟨inside, row⟩ := paired
      rcases row with ⟨met, equal⟩ | ⟨_, rfl⟩
      · exact ⟨inside, moves job inside job' met equal⟩
      · exact ⟨inside, .untouched, .untouched⟩
    have valid : ∀ job' ∈ jobs, job'.Valid := by
      intro job' member
      obtain ⟨job, _, inside, _, move⟩ := forall₂_old rows member
      exact move.valid (sound.rows job inside)
    have identities : (activeIdentities jobs).Nodup :=
      forall₂_selected_nodup Job.deduplicationKey Job.active rows
        (fun _ _ paired => paired.2.elim fun _ move => move.identity.2.1)
        (fun _ _ paired => paired.2.elim fun _ move => move.active)
        sound.constrained.identities
    split at failed
    · rename_i other stored
      cases failed
      exact storeJobs_error valid identities stored
    · cases failed

theorem exhaustAttempts_moves {now : Timestamp} {job job' : Job}
    (met : (exhaustAttempts now).guard job = true)
    (equal : (exhaustAttempts now).change job = .ok job') : Move now job .exhausted job' := by
  simp only [exhaustAttempts, Bool.and_eq_true, Bool.or_eq_true, decide_eq_true_eq,
    Except.ok.injEq] at met equal
  subst equal
  exact .exhausted met.1.1.2 met.1.2 met.2

theorem leaseNext_error {db : Database} {workerId : String} {leaseToken : Uuid}
    {reason : DatabaseError} (sound : db.Sound)
    (failed : leaseNext db workerId leaseToken = .error reason) : reason.admissible := by
  simp only [leaseNext] at failed
  split at failed
  · rename_i other sweep
    cases failed
    exact Update.execute_error db.now sound
      (fun _ _ _ met equal => ⟨_, exhaustAttempts_moves met equal⟩)
      (fun _ _ refused => by simp [exhaustAttempts] at refused) sweep
  · rename_i swept count sweep
    obtain ⟨rows, _, constrained, _⟩ := Update.execute_ok sweep
    split at failed
    · cases failed
    · rename_i chosen selected
      split at failed
      · rename_i other taken
        cases failed
        have chosenMember := List.mem_filter.mp (selectFirst_mem selected)
        have valid : ∀ job' ∈ swept.jobs, job'.Valid := by
          intro job' member
          obtain ⟨job, inside, row⟩ := forall₂_old rows member
          rcases row with ⟨met, equal⟩ | ⟨_, rfl⟩
          · exact (exhaustAttempts_moves met equal).valid (sound.rows job inside)
          · exact sound.rows job' inside
        refine Update.execute_error db.now ⟨valid, constrained⟩ ?_
          (fun _ _ refused => by simp [takeLease] at refused) taken
        intro job inside job' met equal
        simp only [takeLease, decide_eq_true_eq, Except.ok.injEq] at met equal
        have same := row_unique Job.id constrained.ids inside chosenMember.1 met
        subst same equal
        exact ⟨_, .leased workerId leaseToken chosenMember.2⟩
      · cases failed

theorem enqueue_error {db : Database} {spec : JobSpec} {proposedId : Uuid}
    {reason : DatabaseError} (sound : db.Sound)
    (failed : enqueue db spec proposedId = .error reason) : reason.admissible := by
  simp only [enqueue, insertJob] at failed
  split at failed
  · cases failed
  · split at failed
    · cases failed
    · rename_i vacant
      split at failed
      · cases failed
        simp [DatabaseError.admissible]
      · split at failed
        · rename_i other stored
          cases failed
          refine storeJobs_error (fun job member => ?_) ?_ stored
          · rcases List.mem_append.mp member with old | new
            · exact sound.rows job old
            · rw [List.mem_singleton.mp new]
              exact newJob_valid db spec proposedId
          · have apart : spec.deduplicationKey ∉ activeIdentities db.jobs := by
              intro member
              simp only [activeIdentities, List.mem_map, List.mem_filter] at member
              obtain ⟨job, ⟨inside, active⟩, same⟩ := member
              have missed := List.find?_eq_none.mp vacant job inside
              simp [active, same] at missed
            rw [activeIdentities_newJob, List.nodup_append]
            refine ⟨sound.constrained.identities, List.nodup_singleton _, ?_⟩
            rintro key old other new rfl
            exact apart (List.mem_singleton.mp new ▸ old)
        · cases failed

/-- No call on a sound table meets the bounds check or the active index. -/
theorem perform_admissible {op : Op} {db after : Database} {reason : DatabaseError}
    (sound : db.Sound) (performed : perform op db = (after, .failed reason)) :
    reason.admissible := by
  have changed : ∀ {update : Update}, update.Explained (op, .changed true) db.now →
      settle db (update.changed db) .changed = (after, .failed reason) → reason.admissible := by
    intro update explained settled
    refine Update.execute_error db.now sound (fun job inside job' met equal => ?_)
      explained.errors (Update.execute_of_changed_failed settled)
    obtain ⟨rowEvent, move, _⟩ := explained.rows job job' met equal
    exact ⟨rowEvent, move⟩
  have executed : ∀ {update : Update}, update.Explained (op, .done) db.now →
      settle db (update.execute db) (fun _ => .done) = (after, .failed reason) →
        reason.admissible := by
    intro update explained settled
    refine Update.execute_error db.now sound (fun job inside job' met equal => ?_)
      explained.errors (settle_failed (by simp) settled)
    obtain ⟨rowEvent, move, _⟩ := explained.rows job job' met equal
    exact ⟨rowEvent, move⟩
  cases op with
  | enqueue => exact enqueue_error sound (settle_failed (by simp) performed)
  | leaseNext => exact leaseNext_error sound (settle_failed (by simp) performed)
  | requestCancel => exact changed (requestCancel_explained ..) performed
  | skipCurrentItem => exact changed (skipCurrentItem_explained ..) performed
  | markWaitingApproval => exact changed (markWaitingApproval_explained ..) performed
  | approvePlan => exact changed (approvePlan_explained ..) performed
  | renewLease => exact changed (renewLease_explained ..) performed
  | markSucceeded => exact changed (markSucceeded_explained ..) performed
  | markFailed => exact changed (markFailed_explained ..) performed
  | linkJobCheckRun => exact executed (linkJobCheckRun_explained ..) performed
  | cancelInstallationJobs => exact executed (cancelInstallationJobs_explained ..) performed
  | cancelRepositoryJobs => exact executed (cancelRepositoryJobs_explained ..) performed
  | assertLease jobId workerId leaseToken =>
      have asserted := settle_failed (by simp) performed
      simp only [assertLease] at asserted
      split at asserted
      · cases asserted
      · split at asserted
        · cases asserted
          simp [DatabaseError.admissible]
        · cases asserted
  | upsertRepository | advance => simp [perform] at performed

/-- At most one job of each identity is active, and the other constraints hold too. -/
theorem run_sound {start db : Database} {events : List Event} (empty : start.jobs = [])
    (run : Run Database.Step start events db) : db.Sound :=
  ⟨run_valid empty run, run_constrained empty run⟩

/-- The invariant of the `jobs` table after the given calls. -/
structure JobsInvariant (events : List Event) (db : Database) : Prop where
  identities : ∀ key,
    (db.jobs.filter fun job => job.active && job.deduplicationKey = key).length ≤ 1
  held : ∀ job ∈ db.jobs, job.state = .running →
    job.leaseOwner.isSome ∧ job.leaseUntil.isSome ∧ job.leaseToken.isSome
  released : ∀ job ∈ db.jobs, job.state ≠ .running →
    job.leaseOwner = none ∧ job.leaseUntil = none ∧ job.leaseToken = none
  attempts : ∀ job ∈ db.jobs, 0 ≤ job.attempt ∧ job.attempt ≤ job.maxAttempts
  cancelled : ∀ job ∈ db.jobs, job.cancelRequested = true ↔ job.state = .cancelled
  leases : ∀ job ∈ db.jobs,
    (grantCount events job.id : Int) = job.attempt + skipCount events job.id
  leaseLimit : ∀ job ∈ db.jobs,
    (grantCount events job.id : Int) ≤ job.maxAttempts + skipCount events job.id
  accepted : ∀ op after reason, perform op db = (after, .failed reason) →
    reason ≠ .attemptBoundsCheck ∧ reason ≠ .activeLogicalIdentity

/-- The invariant holds after every run from an empty table. -/
theorem jobs_invariant {start db : Database} {events : List Event} (empty : start.jobs = [])
    (run : Run Database.Step start events db) : JobsInvariant events db := by
  have sound := run_sound empty run
  have accounts := run_accounts empty run
  constructor
  · intro key
    have once := List.nodup_iff_count_le_one.mp sound.constrained.identities key
    simpa [activeIdentities, List.count_eq_countP, List.countP_map, List.countP_filter,
      ← List.countP_eq_length_filter, Function.comp_def, Bool.and_comm, Bool.beq_eq_decide_eq]
      using once
  · exact fun job member => (sound.rows job member).held
  · exact fun job member => (sound.rows job member).released
  · exact fun job member => ⟨(sound.rows job member).lower, (sound.rows job member).upper⟩
  · exact fun job member => (sound.rows job member).cancelled
  · exact accounts
  · intro job member
    have upper := (sound.rows job member).upper
    have balance := accounts job member
    omega
  · exact fun op after reason performed => perform_admissible sound performed

/-- A worker starts an item, the user skips it and a second worker runs the job again. -/
def skipAndRerun : List Op :=
  [.upsertRepository 1 1, .enqueue ⟨1, 7, .feedbackRepair, .object []⟩ 5, .leaseNext "first" 10,
    .linkJobCheckRun 5 20 "https://checks" (some "item"), .skipCurrentItem 5,
    .leaseNext "second" 11]

theorem jobs_invariant_skipAndRerun :
    JobsInvariant (replay skipAndRerun (.empty 0)).1 (replay skipAndRerun (.empty 0)).2 :=
  jobs_invariant rfl (replay_run _ _)

end PiTools
