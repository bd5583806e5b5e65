import PiTools.Worker.Notifications
import PiTools.Worker.SkippedItems

/-
This file shows that a job is notified once when no lease of the job is granted
inside the window of an earlier attempt.
-/

namespace PiTools

open Library

/-! ### The condition on leases -/

/-- The stages between a lease check and the end of the work that it admits. -/
def AttemptStage.exposed (stopped : Bool) : AttemptStage → Bool
  | .starting _ | .missing _ | .finishing _ => !stopped
  | .opened .. | .commented .. | .linked _ => true
  | .summarized .. | .recorded _ | .closing (some _) => true
  | _ => false

/-- A running attempt may still create, and a stopped one has left what nobody else can see. -/
def JobAttempt.Exposed (attempt : JobAttempt) : Prop := attempt.stage.exposed attempt.stopped = true

/-- No attempt of the job is exposed when the job is leased again. -/
def LeasesClosed (system : NotifySystem) : NotifyAction → Prop
  | .call (_, .leased (some lease)) =>
      ∀ attempt ∈ system.attempts, attempt.lease.id = lease.id → ¬ attempt.Exposed
  | _ => True

def ClosedStep (parseUrl : String → Option Url) (system : NotifySystem) (action : NotifyAction)
    (next : NotifySystem) : Prop :=
  system.Step parseUrl action next ∧ LeasesClosed system action

/-! ### The queue -/

/-- The row of the job names a check run. -/
def Job.hasCheckRun (job : Job) : Bool := job.checkRunId.isSome && job.checkRunUrl.isSome

section Queue

variable {db after : Database} {comments : Uuid → Option Int} {attempt : JobAttempt} {event : Event}

theorem JobAttempt.accepted (constrained : Constrained db.jobs)
    (step : db.Step (attempt.assertOp, .changed true) after) : db.Holds attempt.lease :=
  holds_of_asserts constrained step

/-- A call starts an attempt exactly when it grants a lease, and the attempt has that lease. -/
theorem Event.attempts_cases (constrained : Constrained db.jobs) (step : db.Step event after) :
    (event.attempts = [] ∧ ∀ lease, event.2 ≠ .leased (some lease)) ∨
      ∃ op lease workerId, event = (op, .leased (some lease)) ∧
        event.attempts = [⟨workerId, lease, .leased, false⟩] := by
  obtain ⟨op, reply⟩ := event
  by_cases granted : ∃ lease, reply = .leased (some lease)
  · obtain ⟨lease, rfl⟩ := granted
    obtain ⟨_, _, workerId, leaseToken, rfl, _⟩ := leased_moves constrained step
    exact .inr ⟨_, lease, workerId, rfl, rfl⟩
  · refine .inl ⟨?_, fun lease same => granted ⟨lease, same⟩⟩
    unfold Event.attempts
    split
    · rename_i same
      cases same
      exact absurd ⟨_, rfl⟩ granted
    · rfl

/-- The tokens of the attempts differ from every token that the call grants. -/
theorem Event.fresh_token (constrained : Constrained db.jobs) (step : db.Step event after)
    (fresh : ∀ started ∈ event.attempts, attempt.lease.leaseToken ≠ started.lease.leaseToken)
    (granted : LeasedJob) (same : event.2 = .leased (some granted)) :
    attempt.lease.leaseToken ≠ granted.leaseToken := by
  rcases Event.attempts_cases constrained step with ⟨_, never⟩ | ⟨op, lease, workerId, rfl, starts⟩
  · exact absurd same (never granted)
  · cases same
    exact fresh _ (by rw [starts]; exact .head _)

theorem Move.hasCheckRun {now : Timestamp} {rowEvent : RowEvent} {job job' : Job}
    (move : Move now job rowEvent job') (has : job.hasCheckRun = true) : job'.hasCheckRun = true := by
  cases move with
  | linked => rfl
  | _ => exact has

/-- A job has a work handle when both of its rows name theirs. -/
theorem existingWorkHandle_isSome {job : Job} (ids : (db.jobs.map Job.id).Nodup)
    (member : job ∈ db.jobs) : (existingWorkHandle db comments job.id).isSome =
      (job.hasCheckRun && (comments job.id).isSome) := by
  have found : db.jobs.find? (fun other => other.id = job.id) = some job := by
    cases search : db.jobs.find? fun other => other.id = job.id with
    | none => simpa using List.find?_eq_none.mp search job member
    | some other =>
        rw [row_unique Job.id ids (List.mem_of_find?_eq_some search) member
          (by simpa using List.find?_some search)]
  simp only [existingWorkHandle, found, Job.hasCheckRun, Option.bind_eq_bind, Option.bind_some]
  cases job.checkRunId <;> cases job.checkRunUrl <;> cases comments job.id <;> rfl

theorem existingWorkHandle_row {jobId : Uuid}
    (handled : (existingWorkHandle db comments jobId).isSome = true) :
    ∃ job ∈ db.jobs, job.id = jobId := by
  cases search : db.jobs.find? fun job => job.id = jobId with
  | none => simp [existingWorkHandle, search] at handled
  | some job => exact ⟨job, List.mem_of_find?_eq_some search, by simpa using List.find?_some search⟩

/-- A link leaves a check run in the row of its job. -/
theorem link_hasCheckRun {jobId : Uuid} {checkRunId : Int} {checkRunUrl : String}
    {currentItem : Option String}
    (step : db.Step (.linkJobCheckRun jobId checkRunId checkRunUrl currentItem, .done) after)
    {job : Job} (member : job ∈ db.jobs) (same : job.id = jobId) :
    ∃ job' ∈ after.jobs, job'.id = jobId ∧ job'.hasCheckRun = true := by
  obtain ⟨job', member', linked⟩ := forall₂_new (link_rows step) member
  rcases linked with ⟨_, rfl⟩ | ⟨other, _⟩
  · exact ⟨_, member', same, rfl⟩
  · exact absurd same other

end Queue

/-! ### The invariant -/

/-- The notifications that a stage still creates. -/
def AttemptStage.mayCreate : AttemptStage → Notification → Bool
  | .missing _, .workPlanCheckRun | .missing _, .workPlanComment => true
  | .opened .., .workPlanComment => true
  | .finishing _, .finalSummary => true
  | _, _ => false

/-- The check run exists on GitHub and the database does not know both of its rows. -/
def AttemptStage.unrecorded : AttemptStage → Bool
  | .opened .. | .commented .. | .linked _ => true
  | _ => false

def AttemptStage.summed : AttemptStage → Bool
  | .summarized .. | .recorded _ | .closing (some _) => true
  | _ => false

def NotifySystem.Handled (system : NotifySystem) (jobId : Uuid) : Prop :=
  (existingWorkHandle system.db system.comments jobId).isSome = true

/-- A running attempt finds nothing on GitHub of what it still creates. -/
def JobAttempt.Owes (github : List (Uuid × Notification)) (attempt : JobAttempt) : Prop :=
  attempt.stopped = false → ∀ notification, attempt.stage.mayCreate notification = true →
    (attempt.lease.id, notification) ∉ github

/-- The row of the job exists, and a link has reached it. -/
def JobAttempt.Rooted (db : Database) (attempt : JobAttempt) : Prop :=
  ∃ job ∈ db.jobs, job.id = attempt.lease.id ∧
    ∀ handle, attempt.stage = .linked handle → job.hasCheckRun = true

structure NotifySystem.Sound (system : NotifySystem) : Prop where
  constrained : Constrained system.db.jobs
  turns : TakeTurns (fun attempt => attempt.lease.id) JobAttempt.Exposed
    (fun attempt => system.db.Holds attempt.lease) system.attempts
  rooted : ∀ attempt ∈ system.attempts, attempt.Rooted system.db
  owes : ∀ attempt ∈ system.attempts, attempt.Owes system.github
  once : system.github.Nodup
  recorded : ∀ jobId notification, (jobId, notification) ∈ system.github →
    notification ≠ .finalSummary → system.Handled jobId ∨
      ∃ attempt ∈ system.attempts, attempt.lease.id = jobId ∧ attempt.stage.unrecorded = true
  summarized : ∀ jobId, (jobId, .finalSummary) ∈ system.github →
    ∃ attempt ∈ system.attempts, attempt.lease.id = jobId ∧ attempt.stage.summed = true

section Stages

variable {attempt : JobAttempt} {stage : AttemptStage} {github : List (Uuid × Notification)}

theorem JobAttempt.exposed_of_unrecorded (unrecorded : attempt.stage.unrecorded = true) :
    attempt.Exposed := by
  unfold JobAttempt.Exposed
  cases same : attempt.stage <;> simp_all [AttemptStage.unrecorded, AttemptStage.exposed]

theorem JobAttempt.exposed_of_summed (summed : attempt.stage.summed = true) : attempt.Exposed := by
  unfold JobAttempt.Exposed
  cases same : attempt.stage with
  | closing handle => cases handle <;> simp_all [AttemptStage.summed, AttemptStage.exposed]
  | _ => simp_all [AttemptStage.summed, AttemptStage.exposed]

theorem JobAttempt.exposed_of_mayCreate {notification : Notification}
    (running : attempt.stopped = false) (may : attempt.stage.mayCreate notification = true) :
    attempt.Exposed := by
  unfold JobAttempt.Exposed
  cases same : attempt.stage <;> simp_all [AttemptStage.mayCreate, AttemptStage.exposed]

/-- A closed attempt owes nothing. -/
theorem JobAttempt.owes_of_closed (closed : ¬ attempt.Exposed) : attempt.Owes github :=
  fun running _ may => absurd (attempt.exposed_of_mayCreate running may) closed

end Stages

section Steps

variable {parseUrl : String → Option Url} {system next : NotifySystem} {action : NotifyAction}
  {old new : JobAttempt}

/-- What no step takes away. -/
structure NotifySystem.Grows (system next : NotifySystem) : Prop where
  constrained : Constrained next.db.jobs
  accepts : ∀ attempt ∈ system.attempts, next.db.Holds attempt.lease →
    system.db.Holds attempt.lease
  rows : ∀ job ∈ system.db.jobs, ∃ job' ∈ next.db.jobs, job'.id = job.id ∧
    (job.hasCheckRun = true → job'.hasCheckRun = true)
  comments : ∀ jobId, (system.comments jobId).isSome = true → (next.comments jobId).isSome = true

theorem NotifySystem.Grows.handled (grows : system.Grows next)
    (constrained : Constrained system.db.jobs) {jobId : Uuid} (handled : system.Handled jobId) :
    next.Handled jobId := by
  obtain ⟨job, member, rfl⟩ := existingWorkHandle_row handled
  obtain ⟨job', member', same, keeps⟩ := grows.rows job member
  rw [NotifySystem.Handled, existingWorkHandle_isSome constrained.ids member,
    Bool.and_eq_true] at handled
  rw [NotifySystem.Handled, ← same, existingWorkHandle_isSome grows.constrained.ids member',
    Bool.and_eq_true, same]
  exact ⟨keeps handled.1, grows.comments job.id handled.2⟩

theorem NotifySystem.Grows.rooted (grows : system.Grows next) {attempt : JobAttempt}
    (rooted : attempt.Rooted system.db) : attempt.Rooted next.db := by
  obtain ⟨job, member, same, links⟩ := rooted
  obtain ⟨job', member', same', keeps⟩ := grows.rows job member
  exact ⟨job', member', same'.trans same, fun handle stage => keeps (links handle stage)⟩

/-- A call of the queue and a longer list of comments take nothing away. -/
theorem NotifySystem.Grows.of_call {event : Event} (constrained : Constrained system.db.jobs)
    (called : system.db.Step event next.db)
    (fresh : ∀ started ∈ event.attempts, ∀ attempt ∈ system.attempts,
      attempt.lease.leaseToken ≠ started.lease.leaseToken)
    (comments : next.comments = system.comments) : system.Grows next := by
  obtain ⟨effect, kept⟩ := step_effect constrained called
  constructor
  · exact kept
  · intro attempt inside
    exact holds_before constrained called fun granted same => Event.fresh_token constrained called
      (fun started member => fresh started member attempt inside) granted same
  · intro job member
    obtain ⟨job', member', rowEvent, move, _⟩ := effect.successor member
    exact ⟨job', member', move.identity.1, move.hasCheckRun⟩
  · intro jobId known
    rwa [comments]

theorem NotifySystem.Grows.of_same (constrained : Constrained system.db.jobs)
    (same : next.db = system.db)
    (comments : ∀ jobId, (system.comments jobId).isSome = true → (next.comments jobId).isSome = true) :
    system.Grows next := by
  constructor
  · rwa [same]
  · intro attempt _
    rw [same]
    exact id
  · intro job member
    exact ⟨job, same ▸ member, rfl, id⟩
  · exact comments

/-- What an attempt has to keep when it moves on and creates at most one notification. -/
structure NotifySystem.Moves (system next : NotifySystem) (old new : JobAttempt)
    (created : Option Notification) : Prop where
  replaced : Replaces system.attempts old [new] next.attempts
  lease : new.lease = old.lease
  github : next.github = system.github ++ created.toList.map fun notification =>
    (old.lease.id, notification)
  opens : new.Exposed → old.Exposed ∨ system.db.Holds old.lease
  busy : ∀ notification ∈ created, old.Exposed ∧ (old.lease.id, notification) ∉ system.github
  rooted : ∀ handle, new.stage = .linked handle →
    ∃ job ∈ next.db.jobs, job.id = old.lease.id ∧ job.hasCheckRun = true
  owes : new.Owes next.github
  recorded : (old.stage.unrecorded = true ∨ ∃ notification ∈ created, notification ≠ .finalSummary) →
    new.stage.unrecorded = true ∨ next.Handled old.lease.id
  summarized : (old.stage.summed = true ∨ .finalSummary ∈ created) → new.stage.summed = true

theorem NotifySystem.Sound.moved {created : Option Notification} (sound : system.Sound)
    (grows : system.Grows next) (moves : system.Moves next old new created) : next.Sound := by
  have sameId : new.lease.id = old.lease.id := congrArg LeasedJob.id moves.lease
  have stays : ∀ attempt ∈ system.attempts, attempt ≠ old → attempt ∈ next.attempts := by
    obtain ⟨front, back, split, split'⟩ := moves.replaced
    intro attempt inside apart
    rw [split, List.mem_append, List.mem_cons] at inside
    rw [split', List.append_assoc, List.mem_append, List.singleton_append, List.mem_cons]
    rcases inside with first | same | last
    · exact .inl first
    · exact absurd same apart
    · exact .inr (.inr last)
  have moved : new ∈ next.attempts := by
    obtain ⟨front, back, _, split'⟩ := moves.replaced
    simp [split']
  have created_mem : ∀ jobId notification, (jobId, notification) ∈ next.github →
      (jobId, notification) ∈ system.github ∨ (jobId = old.lease.id ∧ notification ∈ created) := by
    intro jobId notification member
    rw [moves.github, List.mem_append] at member
    rcases member with before | now
    · exact .inl before
    · obtain ⟨other, inside, same⟩ := List.mem_map.mp now
      cases same
      exact .inr ⟨rfl, by simpa using inside⟩
  constructor
  case constrained => exact grows.constrained
  case turns =>
    have accepted := sound.turns.replace moves.replaced sameId moves.opens fun accepts => by
      rwa [moves.lease] at accepts
    refine accepted.mono fun attempt inside accepts => ?_
    rcases moves.replaced.mem inside with before | single
    · exact grows.accepts attempt before accepts
    · rw [List.mem_singleton] at single
      rw [single, moves.lease] at accepts ⊢
      exact grows.accepts old moves.replaced.old accepts
  case rooted =>
    intro attempt inside
    rcases moves.replaced.mem inside with before | single
    · exact grows.rooted (sound.rooted attempt before)
    · rw [List.mem_singleton] at single
      subst single
      by_cases linked : ∃ handle, attempt.stage = .linked handle
      · obtain ⟨handle, stage⟩ := linked
        obtain ⟨job, member, same, has⟩ := moves.rooted handle stage
        exact ⟨job, member, same.trans sameId.symm, fun _ _ => has⟩
      · obtain ⟨job, member, same, _⟩ := grows.rooted (sound.rooted old moves.replaced.old)
        exact ⟨job, member, same.trans sameId.symm, fun handle stage => absurd ⟨handle, stage⟩ linked⟩
  case owes =>
    intro attempt inside
    -- A creation is only seen by attempts at the same job, and beside it they are closed.
    cases created with
    | none =>
        rcases moves.replaced.mem inside with before | single
        · rw [moves.github]
          simpa using sound.owes attempt before
        · exact List.mem_singleton.mp single ▸ moves.owes
    | some notification =>
        have busy := (moves.busy notification rfl).1
        rcases sound.turns.alone moves.replaced (.inl busy) inside with rfl | ⟨before, closed⟩
        · exact moves.owes
        · by_cases mine : attempt.lease.id = old.lease.id
          · exact JobAttempt.owes_of_closed (closed mine).1
          · intro running other may member
            rcases created_mem _ _ member with already | ⟨same, _⟩
            · exact sound.owes attempt before running other may already
            · exact mine same
  case once =>
    rw [moves.github]
    cases created with
    | none => simpa using sound.once
    | some notification =>
        have absent := (moves.busy notification rfl).2
        refine List.nodup_append.mpr ⟨sound.once, List.nodup_singleton _, ?_⟩
        intro before member now single same
        rw [same, List.mem_singleton.mp single] at member
        exact absent member
  case recorded =>
    intro jobId notification member plain
    rcases created_mem _ _ member with already | ⟨rfl, now⟩
    · rcases sound.recorded jobId notification already plain with handled | ⟨attempt, inside, same, open_⟩
      · exact .inl (grows.handled sound.constrained handled)
      · by_cases apart : attempt = old
        · subst apart
          rcases moves.recorded (.inl open_) with still | handled
          · exact .inr ⟨new, moved, sameId.trans same, still⟩
          · exact .inl (same ▸ handled)
        · exact .inr ⟨attempt, stays attempt inside apart, same, open_⟩
    · rcases moves.recorded (.inr ⟨notification, now, plain⟩) with still | handled
      · exact .inr ⟨new, moved, sameId, still⟩
      · exact .inl handled
  case summarized =>
    intro jobId member
    rcases created_mem _ _ member with already | ⟨rfl, now⟩
    · obtain ⟨attempt, inside, same, summed⟩ := sound.summarized jobId already
      by_cases apart : attempt = old
      · subst apart
        exact ⟨new, moved, sameId.trans same, moves.summarized (.inl summed)⟩
      · exact ⟨attempt, stays attempt inside apart, same, summed⟩
    · exact ⟨new, moved, sameId, moves.summarized (.inr now)⟩

/-- A call of the queue starts at most one attempt, which follows closed ones. -/
theorem NotifySystem.Sound.started (sound : system.Sound) (started : Option JobAttempt)
    (grows : system.Grows next) (attempts : next.attempts = system.attempts ++ started.toList)
    (github : next.github = system.github)
    (leased : ∀ new ∈ started, new.stage = .leased ∧ (∃ job ∈ next.db.jobs, job.id = new.lease.id) ∧
      ∀ attempt ∈ system.attempts, attempt.lease.id = new.lease.id →
        ¬ attempt.Exposed ∧ ¬ next.db.Holds attempt.lease) : next.Sound := by
  have old : ∀ attempt ∈ system.attempts, attempt ∈ next.attempts := by
    intro attempt inside
    rw [attempts]
    exact List.mem_append_left _ inside
  have cases : ∀ attempt ∈ next.attempts, attempt ∈ system.attempts ∨ attempt ∈ started := by
    intro attempt inside
    rw [attempts, List.mem_append] at inside
    exact inside.imp id fun single => by simpa using single
  constructor
  case constrained => exact grows.constrained
  case turns =>
    have shrunk := sound.turns.mono grows.accepts
    rw [attempts]
    cases started with
    | none => simpa using shrunk
    | some new => exact shrunk.snoc (leased new rfl).2.2
  case rooted =>
    intro attempt inside
    rcases cases attempt inside with before | new
    · exact grows.rooted (sound.rooted attempt before)
    · obtain ⟨stage, ⟨job, member, same⟩, _⟩ := leased attempt new
      exact ⟨job, member, same, fun handle linked => by rw [stage] at linked; cases linked⟩
  case owes =>
    intro attempt inside
    rw [github]
    rcases cases attempt inside with before | new
    · exact sound.owes attempt before
    · intro _ notification may
      rw [(leased attempt new).1] at may
      cases may
  case once => rw [github]; exact sound.once
  case recorded =>
    intro jobId notification member plain
    rw [github] at member
    rcases sound.recorded jobId notification member plain with handled | ⟨attempt, inside, rest⟩
    · exact .inl (grows.handled sound.constrained handled)
    · exact .inr ⟨attempt, old attempt inside, rest⟩
  case summarized =>
    intro jobId member
    rw [github] at member
    obtain ⟨attempt, inside, rest⟩ := sound.summarized jobId member
    exact ⟨attempt, old attempt inside, rest⟩

/-- No final comment exists for a job when an attempt passes its last lease check. -/
theorem NotifySystem.Sound.unsummarized {attempts replacement : List JobAttempt} (sound : system.Sound)
    (next : Replaces system.attempts old replacement attempts) (accepted : system.db.Holds old.lease)
    (unsummed : old.stage.summed = false) : (old.lease.id, .finalSummary) ∉ system.github := by
  intro member
  obtain ⟨attempt, inside, same, summed⟩ := sound.summarized old.lease.id member
  have apart : attempt ≠ old := by
    rintro rfl
    rw [unsummed] at summed
    cases summed
  exact (sound.turns.closed next (.inr accepted) inside same apart).1 (attempt.exposed_of_summed summed)

/-- No work plan exists for a job when an attempt that starts finds no handle. -/
theorem NotifySystem.Sound.unplanned {attempts replacement : List JobAttempt} (sound : system.Sound)
    (next : Replaces system.attempts old replacement attempts) (exposed : old.Exposed)
    (plain : old.stage.unrecorded = false)
    (missing : existingWorkHandle system.db system.comments old.lease.id = none)
    {notification : Notification} (kind : notification ≠ .finalSummary) :
    (old.lease.id, notification) ∉ system.github := by
  intro member
  rcases sound.recorded old.lease.id notification member kind with handled | ⟨attempt, inside, same, open_⟩
  · rw [NotifySystem.Handled, missing] at handled
    cases handled
  · have apart : attempt ≠ old := by
      rintro rfl
      rw [plain] at open_
      cases open_
    exact (sound.turns.closed next (.inl exposed) inside same apart).1
      (attempt.exposed_of_unrecorded open_)

/-- A link reaches the row of its job. -/
theorem NotifySystem.Sound.linked {after : Database} {items : List PlanItem} {handle : WorkHandle}
    (sound : system.Sound) (inside : old ∈ system.attempts)
    (called : system.db.Step (old.linkOp items handle, .done) after) :
    ∃ job ∈ after.jobs, job.id = old.lease.id ∧ job.hasCheckRun = true := by
  obtain ⟨job, member, same, _⟩ := sound.rooted old inside
  exact link_hasCheckRun called member same

/-- A stage whose row is linked has a work handle once its comment is stored. -/
theorem NotifySystem.Sound.handled {handle : WorkHandle} (sound : system.Sound)
    (inside : old ∈ system.attempts) (stage : old.stage = .linked handle)
    (same : next.db = system.db) (stored : (next.comments old.lease.id).isSome = true) :
    next.Handled old.lease.id := by
  obtain ⟨job, member, sameId, links⟩ := sound.rooted old inside
  rw [NotifySystem.Handled, same, ← sameId,
    existingWorkHandle_isSome sound.constrained.ids member, sameId, links handle stage, stored]
  rfl

/-- A lease check opens only the attempt whose lease it found. -/
theorem NotifySystem.Sound.checked {after : Database} {attempts : List JobAttempt}
    {stage : AttemptStage} (sound : system.Sound) (passes : old.Passes stage)
    (called : system.db.Step (old.assertOp, .changed true) after)
    (replaced : Replaces system.attempts old [old.at stage] attempts) :
    system.Moves { system with db := after, attempts } old (old.at stage) none := by
  have accepted := old.accepted sound.constrained called
  refine ⟨replaced, rfl, (List.append_nil _).symm, fun _ => .inr accepted, nofun, ?_, ?_, ?_, ?_⟩
  · intro handle linked
    cases passes <;> cases linked
  · intro running notification may
    cases passes with
    | finish handle working =>
        have unsummed : old.stage.summed = false := by rw [working]; rfl
        have absent := sound.unsummarized replaced accepted unsummed
        cases notification with
        | finalSummary => exact absent
        | workPlanCheckRun | workPlanComment => cases may
    | reconcile | start | wait | close => cases may
  · rintro (unrecorded | ⟨_, none, _⟩)
    · cases passes <;> simp_all [AttemptStage.unrecorded]
    · cases none
  · rintro (summed | none)
    · cases passes <;> simp_all [AttemptStage.summed]
    · cases none

theorem NotifySystem.Sound.looked {attempts : List JobAttempt} {items : List PlanItem}
    (sound : system.Sound) (running : old.stopped = false) (stage : old.stage = .starting items)
    (replaced : Replaces system.attempts old [old.at (lookedStage items
      (existingWorkHandle system.db system.comments old.lease.id))] attempts) :
    system.Moves { system with attempts } old (old.at (lookedStage items
      (existingWorkHandle system.db system.comments old.lease.id))) none := by
  have exposed : old.Exposed := by
    rw [JobAttempt.Exposed, stage, running]
    rfl
  refine ⟨replaced, rfl, (List.append_nil _).symm, fun _ => .inl exposed, nofun, ?_, ?_, ?_, ?_⟩
  · intro handle linked
    cases found : existingWorkHandle system.db system.comments old.lease.id <;>
      simp [found, lookedStage, JobAttempt.at] at linked
  · intro _ notification may
    cases found : existingWorkHandle system.db system.comments old.lease.id with
    | some handle =>
        rw [found] at may
        cases may
    | none =>
        have plain : old.stage.unrecorded = false := by rw [stage]; rfl
        have absent : ∀ {notification : Notification}, notification ≠ .finalSummary →
            (old.lease.id, notification) ∉ system.github :=
          sound.unplanned replaced exposed plain found
        rw [found] at may
        cases notification with
        | workPlanCheckRun | workPlanComment => exact absent (by decide)
        | finalSummary => cases may
  · rintro (unrecorded | ⟨_, none, _⟩)
    · rw [stage] at unrecorded
      cases unrecorded
    · cases none
  · rintro (summed | none)
    · rw [stage] at summed
      cases summed
    · cases none

theorem NotifySystem.Sound.created {attempts : List JobAttempt} {notification : Notification}
    {stage : AttemptStage} (sound : system.Sound) (running : old.stopped = false)
    (creates : old.Creates parseUrl notification stage)
    (replaced : Replaces system.attempts old [old.at stage] attempts) :
    system.Moves { system with
        attempts, github := system.github ++ [(old.lease.id, notification)] }
      old (old.at stage) (some notification) := by
  have may : old.stage.mayCreate notification = true := by
    cases creates with
    | checkRun _ _ _ same | comment _ _ _ _ _ same | summary _ _ same =>
        rw [same]
        rfl
  have absent (other : Notification) (may : old.stage.mayCreate other = true) :
      (old.lease.id, other) ∉ system.github := sound.owes old replaced.old running other may
  refine ⟨replaced, rfl, rfl, fun _ => .inl (old.exposed_of_mayCreate running may), ?_, ?_, ?_, ?_, ?_⟩
  · rintro _ ⟨⟩
    exact ⟨old.exposed_of_mayCreate running may, absent notification may⟩
  · intro handle linked
    cases creates <;> cases linked
  · intro _ other may'
    cases creates with
    | checkRun items checkRunId checkRunUrl same =>
        cases other with
        | workPlanComment =>
            have before := absent .workPlanComment (by rw [same]; rfl)
            simpa [JobAttempt.at] using before
        | workPlanCheckRun | finalSummary => cases may'
    | comment | summary => cases may'
  · intro opened
    cases creates with
    | checkRun | comment => exact .inl rfl
    | summary handle commentId same =>
        rcases opened with unrecorded | ⟨_, ⟨⟩, plain⟩
        · rw [same] at unrecorded
          cases unrecorded
        · exact absurd rfl plain
  · intro opened
    cases creates with
    | checkRun _ _ _ same | comment _ _ _ _ _ same =>
        rcases opened with summed | ⟨⟨⟩⟩
        rw [same] at summed
        cases summed
    | summary => rfl

/-- An attempt that stops keeps its stage and creates no more. -/
theorem NotifySystem.Moves.stopped {db : Database} {attempts : List JobAttempt}
    (replaced : Replaces system.attempts old [old.stop] attempts)
    (rooted : ∀ handle, old.stage = .linked handle →
      ∃ job ∈ db.jobs, job.id = old.lease.id ∧ job.hasCheckRun = true) :
    system.Moves { system with db, attempts } old old.stop none := by
  have opens : old.stop.Exposed → old.Exposed := by
    simp only [JobAttempt.Exposed, JobAttempt.stop]
    cases old.stage with
    | starting | missing | finishing => intro exposed; cases exposed
    | closing handle => cases handle <;> exact id
    | _ => exact id
  refine ⟨replaced, rfl, (List.append_nil _).symm, fun exposed => .inl (opens exposed), nofun, rooted,
    nofun, ?_, ?_⟩
  · rintro (unrecorded | ⟨_, none, _⟩)
    · exact .inl unrecorded
    · cases none
  · rintro (summed | none)
    · exact summed
    · cases none

/-- The row of a linked attempt keeps its check run. -/
theorem NotifySystem.Sound.keepsRow {handle : WorkHandle} (sound : system.Sound)
    (grows : system.Grows next) (inside : old ∈ system.attempts) (stage : old.stage = .linked handle) :
    ∃ job ∈ next.db.jobs, job.id = old.lease.id ∧ job.hasCheckRun = true := by
  obtain ⟨job, member, same, links⟩ := grows.rooted (sound.rooted old inside)
  exact ⟨job, member, same, links handle stage⟩

theorem NotifySystem.Sound.linking {after : Database} {attempts : List JobAttempt}
    {items : List PlanItem} {handle : WorkHandle} {stage : AttemptStage} (sound : system.Sound)
    (links : old.stage.Links items handle stage)
    (called : system.db.Step (old.linkOp items handle, .done) after)
    (replaced : Replaces system.attempts old [old.at stage] attempts) :
    system.Moves { system with db := after, attempts } old (old.at stage) none := by
  have linked := sound.linked replaced.old called
  refine ⟨replaced, rfl, (List.append_nil _).symm, ?_, nofun, fun _ _ => linked, ?_, ?_, ?_⟩
  · intro exposed
    left
    rw [JobAttempt.Exposed] at exposed ⊢
    generalize old.stage = before at links
    cases links with
    | new => rfl
    | existing => cases exposed
  · intro _ notification may
    generalize old.stage = before at links
    cases links <;> cases may
  · intro opened
    generalize before_ : old.stage = before at links opened
    cases links with
    | new => exact .inl rfl
    | existing =>
        rcases opened with unrecorded | ⟨_, none, _⟩
        · cases unrecorded
        · cases none
  · intro opened
    generalize old.stage = before at links opened
    rcases opened with summed | none
    · cases links <;> cases summed
    · cases none

/-- A request that only updates leaves the attempt as open as it was. -/
theorem NotifySystem.Moves.updated {attempts : List JobAttempt} {stage : AttemptStage}
    (updates : old.stage.Updates stage)
    (replaced : Replaces system.attempts old [old.at stage] attempts) :
    system.Moves { system with attempts } old (old.at stage) none := by
  refine ⟨replaced, rfl, (List.append_nil _).symm, ?_, nofun, ?_, ?_, ?_, ?_⟩
  · intro exposed
    left
    rw [JobAttempt.Exposed] at exposed ⊢
    generalize old.stage = before at updates
    cases updates with
    | checkRun => rfl
    | progress | approval => cases exposed
  · intro handle linked
    generalize old.stage = before at updates
    cases updates <;> cases linked
  · intro _ notification may
    generalize old.stage = before at updates
    cases updates <;> cases may
  · intro opened
    generalize old.stage = before at updates opened
    rcases opened with unrecorded | ⟨_, none, _⟩
    · cases updates <;> cases unrecorded
    · cases none
  · intro opened
    generalize old.stage = before at updates opened
    rcases opened with summed | none
    · cases updates with
      | checkRun => rfl
      | progress | approval => cases summed
    · cases none

theorem NotifySystem.Sound.saved {attempts : List JobAttempt} {handle : WorkHandle}
    {stage : AttemptStage} (sound : system.Sound) (saves : old.stage.Saves handle stage)
    (replaced : Replaces system.attempts old [old.at stage] attempts) :
    system.Moves { system with
        comments := Function.update system.comments old.lease.id (some handle.commentId), attempts }
      old (old.at stage) none := by
  refine ⟨replaced, rfl, (List.append_nil _).symm, ?_, nofun, ?_, ?_, ?_, ?_⟩
  · intro exposed
    rw [JobAttempt.Exposed] at exposed
    generalize old.stage = before at saves
    cases saves <;> cases exposed
  · intro handle linked
    generalize old.stage = before at saves
    cases saves <;> cases linked
  · intro _ notification may
    generalize old.stage = before at saves
    cases saves <;> cases may
  · intro opened
    generalize before_ : old.stage = before at saves opened
    rcases opened with unrecorded | ⟨_, none, _⟩
    · cases saves with
      | new => exact .inr (sound.handled replaced.old before_ rfl (by simp))
      | existing | approval => cases unrecorded
    · cases none
  · intro opened
    generalize old.stage = before at saves opened
    rcases opened with summed | none
    · cases saves <;> cases summed
    · cases none

theorem NotifySystem.Moves.inserted {attempts : List JobAttempt} {handle : WorkHandle} {commentId : Int}
    (stage : old.stage = .summarized handle commentId)
    (replaced : Replaces system.attempts old [old.at (.recorded handle)] attempts) :
    system.Moves { system with
        finals := insertFinalComment system.finals old.lease.id commentId, attempts }
      old (old.at (.recorded handle)) none := by
  refine ⟨replaced, rfl, (List.append_nil _).symm, ?_, nofun, nofun, ?_, ?_, fun _ => rfl⟩
  · intro _
    left
    rw [JobAttempt.Exposed, stage]
    rfl
  · intro _ notification may
    cases may
  · rintro (unrecorded | ⟨_, none, _⟩)
    · rw [stage] at unrecorded
      cases unrecorded
    · cases none

/-- Every step with closed leases keeps the system sound. -/
theorem NotifySystem.Sound.step (sound : system.Sound) (step : ClosedStep parseUrl system action next) :
    next.Sound := by
  obtain ⟨step, closed⟩ := step
  have calls {event : Event} {after : Database} (called : system.db.Step event after)
      (plain : event.attempts = []) (attempts : List JobAttempt) :
      system.Grows { system with db := after, attempts } :=
    .of_call sound.constrained called (by simp [plain]) rfl
  have still (after : NotifySystem) (same : after.db = system.db)
      (comments : after.comments = system.comments) : system.Grows after :=
    .of_same sound.constrained same fun jobId known => by rwa [comments]
  cases step with
  | @call after event outside called fresh =>
      have grows : system.Grows { system with
          db := after, attempts := system.attempts ++ event.attempts } :=
        .of_call sound.constrained called fresh rfl
      rcases Event.attempts_cases sound.constrained called with
        ⟨empty, _⟩ | ⟨op, lease, workerId, rfl, starts⟩
      · exact sound.started none grows (by rw [empty]; rfl) rfl fun _ member => by cases member
      · refine sound.started (some ⟨workerId, lease, .leased, false⟩) grows (by rw [starts]; rfl) rfl ?_
        rintro new ⟨⟩
        obtain ⟨_, _, _, _, _, rfl, _, inside⟩ := leased_moves sound.constrained called
        refine ⟨rfl, ⟨_, inside, rfl⟩, fun attempt inside same => ⟨?_, fun holds => ?_⟩⟩
        · exact closed attempt inside same
        · rw [Database.Holds, same] at holds
          refine fresh _ ?_ attempt inside (leased_token sound.constrained called holds)
          rw [starts]
          exact .head _
  | renew attempt inside running called =>
      exact sound.started none (calls called rfl system.attempts) (List.append_nil _).symm rfl
        fun _ member => by cases member
  | check attempt stage running passes called replaced =>
      exact sound.moved (calls called rfl _) (sound.checked passes called replaced)
  | look attempt items running stage replaced =>
      exact sound.moved (still _ rfl rfl) (sound.looked running stage replaced)
  | create attempt notification stage running creates replaced =>
      exact sound.moved (still _ rfl rfl) (sound.created running creates replaced)
  | link attempt items handle stage running links called replaced =>
      exact sound.moved (calls called rfl _) (sound.linking links called replaced)
  | update attempt stage running updates replaced =>
      exact sound.moved (still _ rfl rfl) (.updated updates replaced)
  | saveComment attempt handle stage running saves replaced =>
      refine sound.moved (.of_same sound.constrained rfl fun jobId known => ?_)
        (sound.saved saves replaced)
      by_cases mine : jobId = attempt.lease.id
      · simp [mine]
      · simpa [mine] using known
  | insertFinal attempt handle commentId running stage replaced =>
      exact sound.moved (still _ rfl rfl) (.inserted stage replaced)
  | complete attempt event running may called replaced =>
      have plain : event.attempts = [] := by
        obtain ⟨op, reply⟩ := event
        cases may <;> rfl
      have grows := calls called plain (system.attempts)
      exact sound.moved (calls called plain _) (.stopped replaced fun handle stage =>
        sound.keepsRow grows replaced.old stage)
  | stop attempt replaced =>
      exact sound.moved (still _ rfl rfl) (.stopped replaced fun handle stage =>
        sound.keepsRow (still system rfl rfl) replaced.old stage)

end Steps

section Runs

variable {parseUrl : String → Option Url} {start finish : NotifySystem} {actions : List NotifyAction}

/-- With closed leases every job creates each of its notifications at most once. -/
theorem notified_once (initial : start.Initial)
    (run : Run (ClosedStep parseUrl) start actions finish) (jobId : Uuid)
    (notification : Notification) : finish.github.count (jobId, notification) ≤ 1 := by
  have initially : start.Sound := by
    refine ⟨initial.jobs ▸ constrained_nil, ?_, ?_, ?_, ?_, ?_, ?_⟩
    · rw [initial.attempts]
      exact .nil
    · simp [initial.attempts]
    · simp [initial.attempts]
    · rw [initial.github]
      exact .nil
    · simp [initial.github]
    · simp [initial.github]
  have sound : finish.Sound :=
    run.invariant NotifySystem.Sound initially fun _ _ _ sound step => sound.step step
  exact List.nodup_iff_count_le_one.mp sound.once _

/-- A worker whose job has no handle yet creates its check run. -/
theorem opened_run {db : Database} {comments finals : Uuid → Option Int}
    {front back : List JobAttempt} {github : List (Uuid × Notification)} {attempt : JobAttempt}
    {items : List PlanItem} (kind : attempt.lease.kind ≠ .reconcile)
    (stage : attempt.stage = .leased) (running : attempt.stopped = false)
    (planned : planItemsForJob attempt.lease .inProgress = .ok items)
    (asserted : db.Step (attempt.assertOp, .changed true) db)
    (unknown : existingWorkHandle db comments attempt.lease.id = none) (checkRunId : Int)
    (checkRunUrl : Option String) :
    Run (ClosedStep parseUrl) ⟨db, comments, finals, front ++ attempt :: back, github⟩
      [.check attempt, .look (attempt.at (.starting items)),
        .create (attempt.at (.missing items)) .workPlanCheckRun]
      ⟨db, comments, finals, front ++ attempt.at (.opened items checkRunId checkRunUrl) :: back,
        github ++ [(attempt.lease.id, .workPlanCheckRun)]⟩ := by
  have replaced (old new : JobAttempt) :
      Replaces (front ++ old :: back) old [new] (front ++ new :: back) := ⟨front, back, rfl, by simp⟩
  refine Run.cons ⟨.check attempt _ running (.start items kind stage planned) asserted
    (replaced _ _), trivial⟩ ?_
  refine Run.cons ⟨.look _ items running rfl (replaced _ _), trivial⟩ ?_
  rw [show existingWorkHandle _ _ (attempt.at (.starting items)).lease.id = none from unknown]
  exact .single ⟨.create _ _ _ running (.checkRun items checkRunId checkRunUrl rfl)
    (replaced _ _), trivial⟩

end Runs

/-! ### A job that is leased twice -/

def firstAttempt : JobAttempt := ⟨"first", staleLease 10 0 1, .leased, false⟩

def secondAttempt : JobAttempt := ⟨"second", staleLease 11 leaseInterval 2, .leased, false⟩

def notifyStart : NotifySystem := ⟨.empty 0, fun _ => none, fun _ => none, [], []⟩

def firstCalls : List NotifyAction :=
  [.call (.upsertRepository 1 1, .done),
    .call (.enqueue ⟨1, 7, .feedbackRepair, twoFeedback⟩ 5, .job 5),
    .call (.leaseNext "first" 10, .leased (some firstAttempt.lease))]

def secondCalls : List NotifyAction :=
  [.call (.advance leaseInterval, .done),
    .call (.leaseNext "second" 11, .leased (some secondAttempt.lease))]

def openActions (attempt : JobAttempt) : List NotifyAction :=
  [.check attempt, .look (attempt.at (.starting twoItems)),
    .create (attempt.at (.missing twoItems)) .workPlanCheckRun]

theorem firstCalls_run : Run (ClosedStep gitHubUrl) notifyStart firstCalls
    ⟨staleDb 3, fun _ => none, fun _ => none, [firstAttempt], []⟩ := by
  have alone (event : Event) : ∀ started ∈ event.attempts, ∀ attempt ∈ ([] : List JobAttempt),
      attempt.lease.leaseToken ≠ started.lease.leaseToken := fun _ _ _ inside => by cases inside
  refine Run.cons ⟨.call _ trivial rfl (alone _), trivial⟩ ?_
  refine Run.cons ⟨.call _ (.feedback [.null, .null] "sha256:policy") rfl (alone _), trivial⟩ ?_
  exact .single ⟨.call _ trivial rfl (alone _), fun _ inside => by cases inside⟩

theorem firstAttempt_opens (front : List JobAttempt) (github : List (Uuid × Notification)) :
    Run (ClosedStep gitHubUrl)
      ⟨staleDb 3, fun _ => none, fun _ => none, front ++ firstAttempt :: [], github⟩
      (openActions firstAttempt)
      ⟨staleDb 3, fun _ => none, fun _ => none,
        front ++ firstAttempt.at (.opened twoItems 100 (some "url")) :: [],
        github ++ [(5, .workPlanCheckRun)]⟩ := by
  have planned : planItemsForJob firstAttempt.lease .inProgress = .ok twoItems := by decide +kernel
  have asserted : (staleDb 3).Step (firstAttempt.assertOp, .changed true) (staleDb 3) := rfl
  exact opened_run (by decide) rfl rfl planned asserted rfl 100 (some "url")

theorem secondAttempt_opens (front : List JobAttempt) (github : List (Uuid × Notification)) :
    Run (ClosedStep gitHubUrl)
      ⟨staleDb 5, fun _ => none, fun _ => none, front ++ secondAttempt :: [], github⟩
      (openActions secondAttempt)
      ⟨staleDb 5, fun _ => none, fun _ => none,
        front ++ secondAttempt.at (.opened twoItems 101 (some "url")) :: [],
        github ++ [(5, .workPlanCheckRun)]⟩ := by
  have planned : planItemsForJob secondAttempt.lease .inProgress = .ok twoItems := by decide +kernel
  have asserted : (staleDb 5).Step (secondAttempt.assertOp, .changed true) (staleDb 5) := rfl
  exact opened_run (by decide) rfl rfl planned asserted rfl 101 (some "url")

/-- The first worker stops before it creates anything, and the second one does all of the work. -/
def stoppedFirst : JobAttempt := (firstAttempt.at (.starting twoItems)).stop

def secondHandle : WorkHandle := ⟨101, "url", 201⟩

def wholeActions : List NotifyAction :=
  firstCalls ++ [.check firstAttempt, .stop (firstAttempt.at (.starting twoItems))] ++ secondCalls ++
  openActions secondAttempt ++
  [.create (secondAttempt.at (.opened twoItems 101 (some "url"))) .workPlanComment,
    .link (secondAttempt.at (.commented twoItems secondHandle)),
    .saveComment (secondAttempt.at (.linked secondHandle)),
    .check (secondAttempt.at (.working (some secondHandle))),
    .create (secondAttempt.at (.finishing secondHandle)) .finalSummary,
    .insertFinal (secondAttempt.at (.summarized secondHandle 301)),
    .update (secondAttempt.at (.recorded secondHandle)),
    .complete (secondAttempt.at (.closing (some secondHandle)))
      (.markSucceeded 5 "second" 11 .null, .changed true)]

def wholeSystem : NotifySystem where
  db := (perform (.markSucceeded 5 "second" 11 .null) (staleDb 6)).1
  comments := Function.update (fun _ => none) 5 (some 201)
  finals := insertFinalComment (fun _ => none) 5 301
  attempts := [stoppedFirst, (secondAttempt.at (.closing (some secondHandle))).stop]
  github := [(5, .workPlanCheckRun), (5, .workPlanComment), (5, .finalSummary)]

theorem whole_run : Run (ClosedStep gitHubUrl) notifyStart wholeActions wholeSystem := by
  have replaced (old new : JobAttempt) : Replaces [stoppedFirst, old] old [new] [stoppedFirst, new] :=
    ⟨[stoppedFirst], [], rfl, rfl⟩
  have stopped : Run (ClosedStep gitHubUrl) ⟨staleDb 3, fun _ => none, fun _ => none, [firstAttempt], []⟩
      [.check firstAttempt, .stop (firstAttempt.at (.starting twoItems))]
      ⟨staleDb 3, fun _ => none, fun _ => none, [stoppedFirst], []⟩ := by
    refine Run.cons ⟨.check _ _ rfl (.start twoItems (by decide) rfl (by decide +kernel)) rfl
      ⟨[], [], rfl, rfl⟩, trivial⟩ ?_
    exact .single ⟨.stop _ ⟨[], [], rfl, rfl⟩, trivial⟩
  have leased : Run (ClosedStep gitHubUrl) ⟨staleDb 3, fun _ => none, fun _ => none, [stoppedFirst], []⟩
      secondCalls ⟨staleDb 5, fun _ => none, fun _ => none, [stoppedFirst, secondAttempt], []⟩ := by
    refine Run.cons ⟨.call _ trivial rfl (fun _ member => by cases member), trivial⟩ ?_
    refine .single ⟨.call _ trivial rfl ?_, ?_⟩
    · intro started member attempt inside
      rw [List.mem_singleton.mp member, List.mem_singleton.mp inside]
      decide
    · intro attempt inside _ exposed
      rw [List.mem_singleton.mp inside] at exposed
      cases exposed
  have finished : Run (ClosedStep gitHubUrl)
      ⟨staleDb 5, fun _ => none, fun _ => none,
        [stoppedFirst, secondAttempt.at (.opened twoItems 101 (some "url"))],
        [(5, .workPlanCheckRun)]⟩
      (wholeActions.drop 10) wholeSystem := by
    refine Run.cons ⟨.create _ _ _ rfl (.comment twoItems 101 201 "url" twoComment rfl
      (by decide +kernel)) (replaced _ _), trivial⟩ ?_
    refine Run.cons ⟨.link _ twoItems secondHandle _ rfl (.new _ _) rfl (replaced _ _), trivial⟩ ?_
    refine Run.cons ⟨.saveComment _ secondHandle _ rfl (.new _) (replaced _ _), trivial⟩ ?_
    refine Run.cons ⟨.check _ _ rfl (.finish secondHandle rfl) rfl (replaced _ _), trivial⟩ ?_
    refine Run.cons ⟨.create _ _ _ rfl (.summary secondHandle 301 rfl) (replaced _ _), trivial⟩ ?_
    refine Run.cons ⟨.insertFinal _ secondHandle 301 rfl rfl (replaced _ _), trivial⟩ ?_
    refine Run.cons ⟨.update _ _ rfl (.checkRun _) (replaced _ _), trivial⟩ ?_
    exact .single ⟨.complete _ _ rfl (.succeeded .null _ rfl) rfl (replaced _ _), trivial⟩
  exact (((firstCalls_run.append stopped).append leased).append
    (secondAttempt_opens [stoppedFirst] [])).append finished

theorem notified_once_whole : wholeSystem.github.count (5, .finalSummary) ≤ 1 :=
  notified_once ⟨rfl, rfl, rfl⟩ whole_run 5 .finalSummary

/-- The first worker stops after it created its check run, and the second one creates another. -/
def repeatedActions : List NotifyAction :=
  firstCalls ++ openActions firstAttempt ++
  [.stop (firstAttempt.at (.opened twoItems 100 (some "url")))] ++ secondCalls ++
  openActions secondAttempt

theorem check_run_created_twice : ∃ finish,
    Run (NotifySystem.Step gitHubUrl) notifyStart repeatedActions finish ∧
      ¬ finish.github.count (5, .workPlanCheckRun) ≤ 1 := by
  let stopped : JobAttempt := (firstAttempt.at (.opened twoItems 100 (some "url"))).stop
  have opened : Run (NotifySystem.Step gitHubUrl) notifyStart (firstCalls ++ openActions firstAttempt)
      ⟨staleDb 3, fun _ => none, fun _ => none,
        [] ++ firstAttempt.at (.opened twoItems 100 (some "url")) :: [],
        [] ++ [(5, .workPlanCheckRun)]⟩ :=
    (firstCalls_run.append (firstAttempt_opens [] [])).mono fun _ _ _ step => step.1
  have leased : Run (NotifySystem.Step gitHubUrl)
      ⟨staleDb 3, fun _ => none, fun _ => none,
        [firstAttempt.at (.opened twoItems 100 (some "url"))], [(5, .workPlanCheckRun)]⟩
      (.stop (firstAttempt.at (.opened twoItems 100 (some "url"))) :: secondCalls)
      ⟨staleDb 5, fun _ => none, fun _ => none, [stopped, secondAttempt],
        [(5, .workPlanCheckRun)]⟩ := by
    refine Run.cons (.stop _ ⟨[], [], rfl, rfl⟩) ?_
    refine Run.cons (.call _ trivial rfl (fun _ member => by cases member)) ?_
    refine .single (.call _ trivial rfl ?_)
    intro started member attempt inside
    rw [List.mem_singleton.mp member, List.mem_singleton.mp inside]
    decide
  have again := (secondAttempt_opens [stopped] [(5, .workPlanCheckRun)]).mono
    fun _ _ _ step => step.1
  have whole := (opened.append leased).append again
  exact ⟨_, by simpa [repeatedActions] using whole, by decide⟩

end PiTools
