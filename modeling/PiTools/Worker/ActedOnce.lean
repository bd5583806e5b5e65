import PiTools.Queue.SucceededOnce
import PiTools.Worker.FeedbackRepairs

/-
This file shows that marked feedback is left alone when no lease of a repair is
granted for marked feedback or inside the window of an earlier attempt.
-/

namespace PiTools

open Library
open Reconcile (FeedbackRecord)

/-! ### The condition on leases -/

/-- A lease check has passed, and the act that it admits is still to come. -/
def RepairStage.open : RepairStage → Bool
  | .pushing | .replying _ | .settling _ => true
  | _ => false

def RepairAttempt.Exposed (attempt : RepairAttempt) : Prop :=
  attempt.stopped = false ∧ attempt.stage.open = true

/-- A repair is leased for unmarked feedback, and no attempt at its pull request is exposed. -/
def LeasesUnmarked (system : RepairSystem) : RepairAction → Prop
  | .call (_, .leased (some lease)) => lease.kind = .feedbackRepair →
      (∀ record, lease.feedback = some record →
        feedbackResolutionEligible record.id system.tables = false) ∧
      ∀ attempt ∈ system.attempts, attempt.lease.key = lease.key → ¬ attempt.Exposed
  | _ => True

def UnmarkedStep (home : String → PullRequestKey) (system : RepairSystem) (action : RepairAction)
    (next : RepairSystem) : Prop :=
  system.Step home action next ∧ LeasesUnmarked system action

/-- The feedback that the action applies to the branch or replies to. -/
def RepairAction.actsOn : RepairAction → Option String
  | .push attempt | .reply attempt => attempt.feedbackId
  | _ => none

def RepairAction.marks : RepairAction → Bool
  | .mark .. => true
  | _ => false

/-- A mark of the feedback has reached its row. -/
def Recorded (past : List RepairAction) (feedbackId : String) : Prop :=
  ∃ attempt, .mark attempt true ∈ past ∧ attempt.feedbackId = some feedbackId

/-- What the next step may not do to feedback whose mark is recorded. -/
structure LeavesMarked (past : List RepairAction) (system : RepairSystem) (action : RepairAction)
    (next : RepairSystem) : Prop where
  silent : ∀ feedbackId, Recorded past feedbackId → action.actsOn ≠ some feedbackId
  kept : ∀ feedbackId item item', Recorded past feedbackId →
    system.tables.feedbackItem feedbackId = some item →
      next.tables.feedbackItem feedbackId = some item' → item'.repairState = item.repairState

/-! ### Rows of the feedback -/

section Rows

variable {tables : Tables} {call : FeedbackCall} {feedbackId : String}

/-- Without a mark of its own an item keeps its state. -/
theorem ItemStep.sameState {before after : Option FeedbackItem}
    (step : ItemStep call feedbackId before after) (unmarked : call.marked ≠ some feedbackId) :
    (after.map fun item => item.resolutionEligible || item.repairState = .rejected).getD false =
      (before.map fun item => item.resolutionEligible || item.repairState = .rejected).getD false ∧
    ∀ item item', before = some item → after = some item' →
      item'.repairState = item.repairState := by
  cases step with
  | still =>
      refine ⟨rfl, fun item item' first second => ?_⟩
      rw [first, Option.some.injEq] at second
      rw [second]
  | inserted record item carried mine said state unapplied ineligible =>
      refine ⟨?_, fun _ _ none => by cases none⟩
      simp [state, ineligible]
  | updated record item =>
      refine ⟨rfl, ?_⟩
      rintro _ _ ⟨⟩ ⟨⟩
      rfl
  | resolved _ now marks | rejected _ marks =>
      subst marks
      exact absurd rfl unmarked

theorem eligible_of_unmarked (unmarked : call.marked ≠ some feedbackId) :
    feedbackResolutionEligible feedbackId (call.perform tables) =
      feedbackResolutionEligible feedbackId tables :=
  ((call.perform_item tables feedbackId).sameState unmarked).1

/-- A mark that reaches the row of its item makes it eligible. -/
theorem eligible_of_mark (disposition : Disposition) (now : Timestamp)
    (present : (tables.feedbackItem feedbackId).isSome = true) :
    feedbackResolutionEligible feedbackId
      ((markFeedback disposition feedbackId now).perform tables) = true := by
  obtain ⟨item, found⟩ := Option.isSome_iff_exists.mp present
  cases disposition with
  | applied =>
      have changed : (markFeedbackResolved feedbackId now tables).feedbackItem feedbackId =
          some (item.resolve now) := by
        rw [markFeedbackResolved, updateFeedback_item (FeedbackItem.resolve now) fun _ => rfl,
          if_pos rfl, found]
        rfl
      simp [markFeedback, FeedbackCall.perform, feedbackResolutionEligible, changed,
        FeedbackItem.resolve]
  | rejected =>
      have changed : (markFeedbackRejected feedbackId tables).feedbackItem feedbackId =
          some item.reject := by
        rw [markFeedbackRejected, updateFeedback_item FeedbackItem.reject fun _ => rfl, if_pos rfl,
          found]
        rfl
      simp [markFeedback, FeedbackCall.perform, feedbackResolutionEligible, changed,
        FeedbackItem.reject]

theorem markFeedback_marked (disposition : Disposition) (now : Timestamp) :
    (markFeedback disposition feedbackId now).marked = some feedbackId := by
  cases disposition <;> rfl

end Rows

/-! ### Planned feedback -/

/-- The planned feedback belongs to the pull request. -/
def Homed (home : String → PullRequestKey) (key : PullRequestKey) (plan : Json) : Prop :=
  ∀ item ∈ ((plan.get "feedback").bind Json.asArray).getD [], ∀ id,
    item.get "id" = some (.string id) → home id = key

section Plans

variable {home : String → PullRequestKey} {key : PullRequestKey} {plan plan' : Json}

theorem Homed.congr (homed : Homed home key plan)
    (same : plan'.get "feedback" = plan.get "feedback") : Homed home key plan' := by
  rwa [Homed, same]

theorem Homed.of_absent (absent : plan.get "feedback" = none) : Homed home key plan := by
  rw [Homed, absent]
  intro item inside
  cases inside

theorem feedbackFromValue_id {value : Json} {record : FeedbackRecord}
    (read : feedbackFromValue value = some record) :
    value.get "id" = some (.string record.id) := by
  simp only [feedbackFromValue, Option.bind_eq_bind, Option.bind_eq_some_iff, Option.pure_def,
    Option.some.injEq] at read
  obtain ⟨id, ⟨found, got, text⟩, _, _, _, _, _, _, _, _, _, _, _, _, _, _, _, _, rfl⟩ := read
  rw [got]
  cases found <;> simp_all [Json.asStr]

/-- The feedback of a lease belongs to the pull request of its plan. -/
theorem Homed.feedback {lease : LeasedJob} {record : FeedbackRecord}
    (homed : Homed home key lease.plan) (works : lease.feedback = some record) :
    home record.id = key := by
  obtain ⟨value, found, read⟩ := Option.bind_eq_some_iff.mp works
  obtain ⟨items, listed, chosen⟩ := Option.bind_eq_some_iff.mp found
  obtain ⟨⟨item, index⟩, searched, rfl⟩ := Option.map_eq_some_iff.mp chosen
  have inside : item ∈ items :=
    List.fst_mem_of_mem_zipIdx (List.mem_of_find?_eq_some searched)
  exact homed item (by simpa [listed] using inside) record.id (feedbackFromValue_id read)

theorem feedbackValue_id (record : FeedbackRecord) :
    (feedbackValue record).get "id" = some (.string record.id) := by
  rw [feedbackValue, get_sortedObject]
  cases record.path <;> cases record.startLine <;> cases record.line <;> rfl

theorem feedbackPlan_homed {policyRevision : String} {records : List FeedbackRecord}
    (own : ∀ record ∈ records, home record.id = key) :
    Homed home key (feedbackPlan policyRevision records) := by
  have planned : (feedbackPlan policyRevision records).get "feedback" =
      some (.array (records.map feedbackValue)) := by
    rw [feedbackPlan, get_sortedObject]
    rfl
  rw [Homed, planned]
  intro item inside id named
  obtain ⟨record, member, rfl⟩ := List.mem_map.mp inside
  rw [feedbackValue_id, Option.some.injEq, Json.string.injEq] at named
  exact named ▸ own record member

end Plans

/-! ### The invariant -/

/-- The row of the job exists, and the plan of the lease has feedback of its pull request only. -/
structure RepairAttempt.Rooted (home : String → PullRequestKey) (db : Database)
    (attempt : RepairAttempt) : Prop where
  row : ∃ job ∈ db.jobs, job.id = attempt.lease.id ∧ job.deduplicationKey =
    ⟨attempt.lease.repositoryId, attempt.lease.pullRequestNumber, .feedbackRepair⟩
  homed : Homed home attempt.lease.key attempt.lease.plan

/-- An attempt that may still act works on unmarked feedback. -/
def RepairAttempt.Unmarked (system : RepairSystem) (attempt : RepairAttempt) : Prop :=
  attempt.Exposed ∨ system.db.Holds attempt.lease → attempt.stage ≠ .marked →
    ∀ feedbackId, attempt.feedbackId = some feedbackId →
      feedbackResolutionEligible feedbackId system.tables = false

structure RepairSystem.Sound (home : String → PullRequestKey) (past : List RepairAction)
    (system : RepairSystem) : Prop where
  constrained : Constrained system.db.jobs
  plans : ∀ job ∈ system.db.jobs, Homed home (job.repositoryId, job.pullRequestNumber) job.plan
  reads : ∀ reconciliation ∈ system.reconciliations,
    ∀ record ∈ reconciliation.unread ++ reconciliation.overlaid ++ reconciliation.saved,
      home record.id = reconciliation.key
  rooted : ∀ attempt ∈ system.attempts, attempt.Rooted home system.db
  turns : TakeTurns (fun attempt => attempt.lease.key) RepairAttempt.Exposed
    (fun attempt => system.db.Holds attempt.lease) system.attempts
  unmarked : ∀ attempt ∈ system.attempts, attempt.Unmarked system
  recorded : ∀ feedbackId, Recorded past feedbackId →
    feedbackResolutionEligible feedbackId system.tables = true

section Calls

variable {home : String → PullRequestKey} {db after : Database} {event : Event}

/-- Only new jobs and new leases bring feedback into a plan. -/
theorem Move.sameFeedback {now : Timestamp} {rowEvent : RowEvent} {job job' : Job}
    (move : Move now job rowEvent job')
    (waits : ∀ workerId leaseToken details, rowEvent = .waiting workerId leaseToken details →
      KeepsItems details) : job'.plan.get "feedback" = job.plan.get "feedback" := by
  by_cases skip : rowEvent = .skipped
  · subst skip
    cases move with
    | skipped plan started uncancelled item set =>
        show plan.get "feedback" = _
        rw [Json.get_setKey _ set, if_neg (by decide)]
  · exact (move.sameItems skip waits).feedback

/-- A call that plans feedback of its pull request keeps the plans. -/
theorem plans_homed (constrained : Constrained db.jobs) (step : db.Step event after)
    (plans : ∀ job ∈ db.jobs, Homed home (job.repositoryId, job.pullRequestNumber) job.plan)
    (enqueued : ∀ spec proposedId, event.1 = .enqueue spec proposedId →
      Homed home (spec.repositoryId, spec.pullRequestNumber) spec.plan)
    (waits : ∀ jobId workerId leaseToken details,
      event.1 = .markWaitingApproval jobId workerId leaseToken details → KeepsItems details) :
    ∀ job ∈ after.jobs, Homed home (job.repositoryId, job.pullRequestNumber) job.plan := by
  obtain ⟨effect, kept⟩ := step_effect constrained step
  intro job' member
  rcases effect.row kept member with
    ⟨spec, proposedId, rfl, rfl, _⟩ | ⟨job, inside, rowEvent, move, explained⟩
  · exact enqueued spec proposedId rfl
  · have sameKey := move.identity.2.1
    simp only [Job.deduplicationKey, JobDeduplicationKey.mk.injEq] at sameKey
    rw [sameKey.1, sameKey.2.1]
    refine (plans job inside).congr (move.sameFeedback ?_)
    rintro workerId leaseToken details rfl
    exact waits job.id workerId leaseToken details (congrArg Prod.fst explained)

/-- A row keeps its identity. -/
theorem RepairAttempt.Rooted.step {attempt : RepairAttempt} (rooted : attempt.Rooted home db)
    (constrained : Constrained db.jobs) (step : db.Step event after) : attempt.Rooted home after := by
  obtain ⟨⟨job, inside, sameId, sameKey⟩, homed⟩ := rooted
  obtain ⟨job', inside', moved⟩ := (step_effect constrained step).1.successor inside
  exact ⟨⟨job', inside', moved.identity.1.trans sameId, moved.identity.2.trans sameKey⟩, homed⟩

/-- A granted lease of a repair starts one attempt, and every other call starts none. -/
theorem Event.repairs_cases (constrained : Constrained db.jobs) (step : db.Step event after) :
    event.repairs = [] ∨ ∃ op workerId lease, event = (op, .leased (some lease)) ∧
      lease.kind = .feedbackRepair ∧ event.repairs = [⟨workerId, lease, .leased, false⟩] := by
  obtain ⟨op, reply⟩ := event
  by_cases granted : ∃ lease, reply = .leased (some lease)
  · obtain ⟨lease, rfl⟩ := granted
    obtain ⟨_, _, workerId, leaseToken, rfl, _⟩ := leased_moves constrained step
    by_cases kind : lease.kind = .feedbackRepair
    · exact .inr ⟨_, workerId, lease, rfl, kind, if_pos kind⟩
    · exact .inl (if_neg kind)
  · left
    unfold Event.repairs
    split
    · rename_i same
      cases same
      exact absurd ⟨_, rfl⟩ granted
    · rfl

/-- The lease of a repair is rooted in the row from which it was taken. -/
theorem leased_rooted {op : Op} {workerId : String} {lease : LeasedJob}
    (constrained : Constrained db.jobs) (step : db.Step (op, .leased (some lease)) after)
    (kind : lease.kind = .feedbackRepair)
    (plans : ∀ job ∈ db.jobs, Homed home (job.repositoryId, job.pullRequestNumber) job.plan) :
    (⟨workerId, lease, .leased, false⟩ : RepairAttempt).Rooted home after := by
  obtain ⟨job, inside, _, _, _, rfl, _, inside'⟩ := leased_moves constrained step
  refine ⟨⟨_, inside', rfl, ?_⟩, plans job inside⟩
  rw [show JobKind.feedbackRepair = job.kind from kind.symm]
  rfl

/-- No earlier lease of a repair of the pull request is accepted after the grant. -/
theorem leased_supersedes {op : Op} {lease : LeasedJob} {attempt : RepairAttempt}
    (constrained : Constrained db.jobs) (step : db.Step (op, .leased (some lease)) after)
    (kind : lease.kind = .feedbackRepair) (rooted : attempt.Rooted home after)
    (same : attempt.lease.key = lease.key)
    (fresh : attempt.lease.leaseToken ≠ lease.leaseToken) : ¬ after.Holds attempt.lease := by
  intro holds
  have kept := (step_effect constrained step).2
  obtain ⟨job, inside, sameId, running⟩ := holds.running
  obtain ⟨row, member, rowId, rowKey⟩ := rooted.row
  have equal := row_unique Job.id kept.ids member inside (rowId.trans sameId.symm)
  subst equal
  obtain ⟨origin, _, workerId, leaseToken, _, rfl, _, leased⟩ := leased_moves constrained step
  -- Two running rows of one identity are one row.
  have keys : row.deduplicationKey =
      (origin.lease workerId leaseToken db.now).deduplicationKey := by
    rw [rowKey]
    rw [LeasedJob.key, LeasedJob.key, Prod.mk.injEq] at same
    rw [same.1, same.2, show JobKind.feedbackRepair = origin.kind from kind.symm]
    rfl
  have active : row.active = true := Job.active_of_running running
  have one := kept.active_unique inside leased active (Job.active_of_running rfl) keys
  have idSame : attempt.lease.id = origin.id := by
    rw [← rowId, one]
    rfl
  rw [Database.Holds, idSame] at holds
  exact fresh (leased_token constrained step holds)

end Calls

section Steps

variable {home : String → PullRequestKey} {past : List RepairAction} {system next : RepairSystem}
  {action : RepairAction} {old new : RepairAttempt}

/-- Only a mark adds to the record. -/
theorem Recorded.earlier {feedbackId : String} (recorded : Recorded (past ++ [action]) feedbackId)
    (other : action.marks = false) : Recorded past feedbackId := by
  obtain ⟨attempt, member, named⟩ := recorded
  rcases List.mem_append.mp member with earlier | last
  · exact ⟨attempt, earlier, named⟩
  · rw [← List.mem_singleton.mp last] at other
    cases other

/-- An action that records nothing keeps the system sound. -/
theorem RepairSystem.Sound.acted (sound : system.Sound home past)
    (other : action.marks = false) : system.Sound home (past ++ [action]) :=
  { sound with recorded := fun feedbackId recorded => sound.recorded feedbackId (recorded.earlier other) }

/-- A call that grants no lease to an earlier attempt keeps the system sound. -/
theorem RepairSystem.Sound.called {event : Event} {after : Database} (sound : system.Sound home past)
    (called : system.db.Step event after)
    (enqueued : ∀ spec proposedId, event.1 = .enqueue spec proposedId →
      Homed home (spec.repositoryId, spec.pullRequestNumber) spec.plan)
    (waits : ∀ jobId workerId leaseToken details,
      event.1 = .markWaitingApproval jobId workerId leaseToken details → KeepsItems details)
    (fresh : ∀ lease, event.2 = .leased (some lease) → ∀ attempt ∈ system.attempts,
      attempt.lease.leaseToken ≠ lease.leaseToken) :
    ({ system with db := after } : RepairSystem).Sound home past := by
  have held (attempt) (inside : attempt ∈ system.attempts) (holds : after.Holds attempt.lease) :
      system.db.Holds attempt.lease :=
    holds_before sound.constrained called (fun lease same => fresh lease same attempt inside) holds
  constructor
  case constrained => exact (step_effect sound.constrained called).2
  case plans => exact plans_homed sound.constrained called sound.plans enqueued waits
  case reads => exact sound.reads
  case rooted => exact fun attempt inside => (sound.rooted attempt inside).step sound.constrained called
  case turns => exact sound.turns.mono held
  case unmarked =>
      intro attempt inside active
      exact sound.unmarked attempt inside (active.imp_right (held attempt inside))
  case recorded => exact sound.recorded

/-- An attempt moves on when it opens only under its lease. -/
theorem RepairSystem.Sound.moved {attempts : List RepairAttempt} (sound : system.Sound home past)
    (replaced : Replaces system.attempts old [new] attempts) (same : new.lease = old.lease)
    (opens : new.Exposed → old.Exposed ∨ system.db.Holds old.lease)
    (working : new.stage ≠ .marked → old.stage ≠ .marked) :
    ({ system with attempts } : RepairSystem).Sound home past := by
  have origin (attempt) (inside : attempt ∈ attempts) : attempt ∈ system.attempts ∨ attempt = new := by
    simpa using replaced.mem inside
  refine { sound with rooted := ?_, turns := ?_, unmarked := ?_ }
  · intro attempt inside
    rcases origin attempt inside with earlier | rfl
    · exact sound.rooted attempt earlier
    · obtain ⟨row, homed⟩ := sound.rooted old replaced.old
      exact ⟨same ▸ row, same ▸ homed⟩
  · refine sound.turns.replace replaced (congrArg LeasedJob.key same) opens ?_
    rw [same]
    exact id
  · intro attempt inside
    rcases origin attempt inside with earlier | rfl
    · exact sound.unmarked attempt earlier
    · intro active working' feedbackId named
      have active' : old.Exposed ∨ system.db.Holds old.lease := by
        rw [same] at active
        exact active.elim opens .inr
      rw [RepairAttempt.feedbackId, same] at named
      exact sound.unmarked old replaced.old active' (working working') feedbackId named

/-- Feedback that is written without a mark keeps the system sound. -/
theorem RepairSystem.Sound.written (sound : system.Sound home past) (call : FeedbackCall)
    (unmarked : call.marked = none) :
    ({ system with tables := call.perform system.tables } : RepairSystem).Sound home past := by
  have same (feedbackId : String) :
      feedbackResolutionEligible feedbackId (call.perform system.tables) =
        feedbackResolutionEligible feedbackId system.tables :=
    eligible_of_unmarked (by rw [unmarked]; nofun)
  refine { sound with unmarked := ?_, recorded := ?_ }
  · intro attempt inside active working feedbackId named
    rw [same]
    exact sound.unmarked attempt inside active working feedbackId named
  · intro feedbackId recorded
    rw [same]
    exact sound.recorded feedbackId recorded

/-- Reconciliations change when their records belong to their pull request. -/
theorem RepairSystem.Sound.reading {reconciliations : List FeedbackReconciliation}
    (sound : system.Sound home past)
    (own : ∀ reconciliation ∈ reconciliations, reconciliation ∈ system.reconciliations ∨
      ∀ record ∈ reconciliation.unread ++ reconciliation.overlaid ++ reconciliation.saved,
        home record.id = reconciliation.key) :
    ({ system with reconciliations } : RepairSystem).Sound home past := by
  refine { sound with reads := ?_ }
  intro reconciliation inside
  exact (own reconciliation inside).elim (sound.reads reconciliation) id

/-- The attempt of a new lease follows the earlier ones of its pull request. -/
theorem RepairSystem.Sound.leased (sound : system.Sound home past)
    (rooted : new.Rooted home system.db)
    (follows : ∀ attempt ∈ system.attempts, attempt.lease.key = new.lease.key →
      ¬ attempt.Exposed ∧ ¬ system.db.Holds attempt.lease)
    (unmarked : ∀ feedbackId, new.feedbackId = some feedbackId →
      feedbackResolutionEligible feedbackId system.tables = false) :
    ({ system with attempts := system.attempts ++ [new] } : RepairSystem).Sound home past := by
  refine { sound with rooted := ?_, turns := sound.turns.snoc follows, unmarked := ?_ }
  · intro attempt inside
    rcases List.mem_append.mp inside with earlier | last
    · exact sound.rooted attempt earlier
    · rw [List.mem_singleton.mp last]
      exact rooted
  · intro attempt inside
    rcases List.mem_append.mp inside with earlier | last
    · exact sound.unmarked attempt earlier
    · rw [List.mem_singleton.mp last]
      exact fun _ _ => unmarked

/-- A mark leaves the attempts at other feedback alone, and those at its own feedback are over. -/
theorem RepairSystem.Sound.marking {attempts : List RepairAttempt} {disposition : Disposition}
    {feedbackId : String} {recorded : Bool} (sound : system.Sound home past)
    (running : old.stopped = false) (stage : old.stage = .settling disposition)
    (named : old.feedbackId = some feedbackId)
    (present : recorded = true → (system.tables.feedbackItem feedbackId).isSome = true)
    (replaced : Replaces system.attempts old [old.at .marked] attempts) :
    ({ system with
        tables := (markFeedback disposition feedbackId system.db.now).perform system.tables
        attempts } : RepairSystem).Sound home (past ++ [.mark old recorded]) := by
  have exposed : old.Exposed := ⟨running, by rw [stage]; rfl⟩
  have others {other : String} (apart : other ≠ feedbackId) :
      feedbackResolutionEligible other
          ((markFeedback disposition feedbackId system.db.now).perform system.tables) =
        feedbackResolutionEligible other system.tables := by
    refine eligible_of_unmarked ?_
    rw [markFeedback_marked]
    exact fun same => apart (Option.some.inj same).symm
  have moved := sound.moved replaced rfl (fun _ => .inl exposed) fun working => absurd rfl working
  refine { moved with unmarked := ?_, recorded := ?_ }
  · intro attempt inside active working other works
    rcases sound.turns.alone replaced (.inl exposed) inside with rfl | ⟨earlier, closed⟩
    · exact absurd rfl working
    -- A comment belongs to one pull request, and there the marking attempt is alone.
    · have apart : other ≠ feedbackId := by
        rintro rfl
        obtain ⟨record, read, rfl⟩ := Option.map_eq_some_iff.mp works
        obtain ⟨record', read', same⟩ := Option.map_eq_some_iff.mp named
        have itsKey := (sound.rooted attempt earlier).homed.feedback read
        have ownKey := (sound.rooted old replaced.old).homed.feedback read'
        rw [same] at ownKey
        exact active.elim (closed (itsKey.symm.trans ownKey)).1 (closed (itsKey.symm.trans ownKey)).2
      rw [others apart]
      exact sound.unmarked attempt earlier active working other works
  · intro other marks
    by_cases same : other = feedbackId
    · subst same
      obtain ⟨attempt, member, works⟩ := marks
      rcases List.mem_append.mp member with earlier | last
      · by_cases there : (system.tables.feedbackItem other).isSome = true
        · exact eligible_of_mark disposition _ there
        · have known := sound.recorded other ⟨attempt, earlier, works⟩
          rw [feedbackResolutionEligible, Option.not_isSome_iff_eq_none.mp there] at known
          cases known
      · have reached : recorded = true := by
          injection List.mem_singleton.mp last with _ same
          exact same.symm
        exact eligible_of_mark disposition _ (present reached)
    · rw [others same]
      refine sound.recorded other ?_
      obtain ⟨attempt, member, works⟩ := marks
      rcases List.mem_append.mp member with earlier | last
      · exact ⟨attempt, earlier, works⟩
      · injection List.mem_singleton.mp last with equal _
        rw [equal, named, Option.some.injEq] at works
        exact absurd works.symm same

/-- A marked attempt passes no lease check. -/
theorem RepairStage.Passes.working {stage stage' : RepairStage} (passes : stage.Passes stage') :
    stage ≠ .marked := by
  cases passes <;> nofun

/-- Every step with unmarked leases keeps the system sound. -/
theorem RepairSystem.Sound.step (sound : system.Sound home past)
    (step : UnmarkedStep home system action next) : next.Sound home (past ++ [action]) := by
  obtain ⟨step, unmarkedLeases⟩ := step
  cases step with
  | @call after event keeps called fresh =>
      refine RepairSystem.Sound.acted ?_ rfl
      have called' := sound.called called
        (fun spec proposedId same => .of_absent (by rw [same] at keeps; exact keeps))
        (fun jobId workerId leaseToken details same => by rw [same] at keeps; exact keeps) fresh
      rcases Event.repairs_cases sound.constrained called with
        none | ⟨op, workerId, lease, rfl, kind, starts⟩
      · rw [none, List.append_nil]
        exact called'
      · rw [starts]
        obtain ⟨unmarked, alone⟩ := unmarkedLeases kind
        refine called'.leased (leased_rooted sound.constrained called kind sound.plans) ?_ ?_
        · intro attempt inside same
          exact ⟨alone attempt inside same, leased_supersedes sound.constrained called kind
            (called'.rooted attempt inside) same (fresh lease rfl attempt inside)⟩
        · intro feedbackId named
          obtain ⟨record, read, rfl⟩ := Option.map_eq_some_iff.mp named
          exact unmarked record read
  | write call unmarked => exact (sound.written call unmarked).acted rfl
  | read reconciliation overlaid saved own =>
      refine (sound.reading fun other inside => ?_).acted rfl
      rcases List.mem_append.mp inside with earlier | last
      · exact .inl earlier
      · right
        rw [List.mem_singleton.mp last, overlaid, saved, List.append_nil, List.append_nil]
        exact own
  | overlay reconciliation record unread first replaced =>
      refine (sound.reading fun other inside => ?_).acted rfl
      refine (replaced.mem inside).imp_right fun last => ?_
      have reads := sound.reads reconciliation replaced.old
      rw [List.mem_singleton.mp last]
      have sameId : (overlayFeedback system.tables record).id = record.id := by
        unfold overlayFeedback
        split <;> rfl
      intro other member
      simp only [List.mem_append, List.mem_cons, List.not_mem_nil, or_false, first] at member reads
      rcases member with (inUnread | inOverlaid | rfl) | inSaved
      · exact reads other (.inl (.inl (.inr inUnread)))
      · exact reads other (.inl (.inr inOverlaid))
      · rw [sameId]
        exact reads record (.inl (.inl (.inl rfl)))
      · exact reads other (.inr inSaved)
  | save reconciliation record overlaid read first stored replaced =>
      have performed : (FeedbackCall.upsertFeedback reconciliation.key.1 reconciliation.key.2
          record).perform system.tables = _ := congrArg (orUnchanged system.tables) stored
      have written := sound.written (.upsertFeedback reconciliation.key.1 reconciliation.key.2
        record) rfl
      rw [performed] at written
      refine (written.reading fun other inside => ?_).acted rfl
      refine (replaced.mem inside).imp_right fun last => ?_
      have reads := sound.reads reconciliation replaced.old
      rw [List.mem_singleton.mp last]
      intro other member
      simp only [List.mem_append, List.mem_cons, List.not_mem_nil, or_false, first] at member reads
      rcases member with (inUnread | inOverlaid) | inSaved | rfl
      · exact reads other (.inl (.inl inUnread))
      · exact reads other (.inl (.inr (.inr inOverlaid)))
      · exact reads other (.inr inSaved)
      · exact reads other (.inl (.inr (.inl rfl)))
  | enqueue reconciliation policy policyRevision proposedId read overlaid some' called replaced =>
      have own := sound.reads reconciliation replaced.old
      have called' := sound.called called
        (fun spec _ same => by
          injection same with same
          rw [← same]
          refine feedbackPlan_homed fun record member => own record ?_
          exact List.mem_append_right _ (List.mem_filter.mp member).1)
        (by nofun) (by
          rintro lease rfl
          obtain ⟨_, _, _, _, wrong, _⟩ := leased_moves sound.constrained called
          cases wrong)
      refine (called'.reading fun other inside => .inl ?_).acted rfl
      exact (replaced.mem inside).resolve_right (by nofun)
  | check attempt stage running readable passes called replaced =>
      have holds := holds_of_asserts sound.constrained called
      have moved := sound.moved replaced rfl (fun _ => .inr holds) fun _ => passes.working
      exact (moved.called called (by nofun) (by nofun) (by nofun)).acted rfl
  | push attempt running stage replaced =>
      refine (sound.moved replaced rfl (fun _ => .inl ⟨running, by rw [stage]; rfl⟩) ?_).acted rfl
      rw [stage]
      nofun
  | decline attempt running stage replaced =>
      refine (sound.moved replaced rfl (fun opened => ?_) ?_).acted rfl
      · cases opened.2
      · rw [stage]
        nofun
  | reply attempt disposition running stage replaced =>
      refine (sound.moved replaced rfl (fun _ => .inl ⟨running, by rw [stage]; rfl⟩) ?_).acted rfl
      rw [stage]
      nofun
  | mark attempt disposition feedbackId running stage named replaced =>
      exact sound.marking running stage named id replaced
  | stop attempt replaced =>
      refine (sound.moved replaced rfl (fun opened => ?_) id).acted rfl
      cases opened.1

/-- An attempt that stands behind a lease check works on feedback without a record. -/
theorem RepairSystem.Sound.fresh {feedbackId : String} (sound : system.Sound home past)
    (inside : old ∈ system.attempts) (exposed : old.Exposed)
    (named : old.feedbackId = some feedbackId) : ¬ Recorded past feedbackId := by
  intro recorded
  have working : old.stage ≠ .marked := by
    intro same
    have isOpen := exposed.2
    rw [same] at isOpen
    cases isOpen
  have unmarked := sound.unmarked old inside (.inl exposed) working feedbackId named
  rw [sound.recorded feedbackId recorded] at unmarked
  cases unmarked

theorem RepairSystem.Sound.silent (sound : system.Sound home past)
    (step : system.Step home action next) {feedbackId : String} (recorded : Recorded past feedbackId) :
    action.actsOn ≠ some feedbackId := by
  intro acts
  cases step with
  | push attempt running stage replaced =>
      exact sound.fresh replaced.old ⟨running, by rw [stage]; rfl⟩ acts recorded
  | reply attempt disposition running stage replaced =>
      exact sound.fresh replaced.old ⟨running, by rw [stage]; rfl⟩ acts recorded
  | _ => cases acts

theorem RepairSystem.Sound.kept (sound : system.Sound home past)
    (step : system.Step home action next) {feedbackId : String} {item item' : FeedbackItem}
    (recorded : Recorded past feedbackId) (before : system.tables.feedbackItem feedbackId = some item)
    (after : next.tables.feedbackItem feedbackId = some item') :
    item'.repairState = item.repairState := by
  have performed (call : FeedbackCall) (same : next.tables = call.perform system.tables)
      (unmarked : call.marked ≠ some feedbackId) : item'.repairState = item.repairState := by
    have step := call.perform_item system.tables feedbackId
    rw [← same] at step
    exact (step.sameState unmarked).2 item item' before after
  have untouched (same : next.tables = system.tables) : item'.repairState = item.repairState := by
    rw [same, before, Option.some.injEq] at after
    rw [after]
  cases step with
  | write call unmarked => exact performed call rfl (by rw [unmarked]; nofun)
  | save reconciliation record overlaid read first stored replaced =>
      exact performed (.upsertFeedback reconciliation.key.1 reconciliation.key.2 record)
        (congrArg (orUnchanged system.tables) stored).symm (by nofun)
  | mark attempt disposition marks running stage named replaced =>
      refine performed (markFeedback disposition marks system.db.now) rfl ?_
      rw [markFeedback_marked, ← named]
      intro mine
      exact sound.fresh replaced.old ⟨running, by rw [stage]; rfl⟩ mine recorded
  | _ => exact untouched rfl

end Steps

/-! ### A repair that is leased twice -/

def botPolicy : Reconcile.Policy := ⟨["bot"], [], false, false⟩

def repairPlan : Json := feedbackPlan "sha256:policy" [suggestionRecord false]

def repairCalls : List Op :=
  [.upsertRepository 1 1, .enqueue ⟨1, 7, .feedbackRepair, repairPlan⟩ 5, .leaseNext "first" 10,
    .advance leaseInterval, .leaseNext "second" 11]

/-- The queue after some of the calls. -/
def repairDb (count : Nat) : Database := (replay (repairCalls.take count) (.empty 0)).2

def repairLease (leaseToken : Uuid) (granted : Timestamp) (attempt : Int) : LeasedJob :=
  ⟨5, 1, 7, .feedbackRepair, repairPlan, granted + leaseInterval, leaseToken, attempt, 5⟩

def firstRepair : RepairAttempt := ⟨"first", repairLease 10 0 1, .leased, false⟩

def secondRepair : RepairAttempt := ⟨"second", repairLease 11 leaseInterval 2, .leased, false⟩

def onlyPullRequest (_ : String) : PullRequestKey := (1, 7)

def repairStart : RepairSystem := ⟨.empty 0, oneRepositoryTables, [], []⟩

def repairReading (unread overlaid saved : List FeedbackRecord) : FeedbackReconciliation :=
  ⟨(1, 7), unread, overlaid, saved⟩

def planningActions : List RepairAction :=
  [.call (.upsertRepository 1 1, .done), .read (repairReading [suggestionRecord false] [] []),
    .overlay (repairReading [suggestionRecord false] [] []),
    .save (repairReading [] [suggestionRecord false] []),
    .enqueue (repairReading [] [] [suggestionRecord false])
      (.enqueue ⟨1, 7, .feedbackRepair, repairPlan⟩ 5, .job 5),
    .call (.leaseNext "first" 10, .leased (some firstRepair.lease))]

def savedTables : Tables :=
  performFeedback [.upsertFeedback 1 7 (suggestionRecord false)] oneRepositoryTables

def resolvedTables : Tables := (markFeedback .applied "review_comment:5" 0).perform savedTables

theorem repairStart_plans : Run (UnmarkedStep onlyPullRequest) repairStart planningActions
    ⟨repairDb 3, savedTables, [], [firstRepair]⟩ := by
  have alone (lease : LeasedJob) : ∀ attempt ∈ ([] : List RepairAttempt),
      attempt.lease.leaseToken ≠ lease.leaseToken := fun _ inside => by cases inside
  refine Run.cons ⟨.call _ trivial rfl (fun lease _ => alone lease), trivial⟩ ?_
  refine Run.cons ⟨.read _ rfl rfl fun _ _ => rfl, trivial⟩ ?_
  refine Run.cons ⟨.overlay _ (suggestionRecord false) [] rfl ⟨[], [], rfl, rfl⟩, trivial⟩ ?_
  refine Run.cons ⟨.save _ (suggestionRecord false) [] rfl rfl rfl ⟨[], [], rfl, rfl⟩, trivial⟩ ?_
  refine Run.cons ⟨.enqueue _ botPolicy "sha256:policy" 5 rfl rfl (by decide) rfl
    ⟨[], [], rfl, rfl⟩, trivial⟩ ?_
  refine .single ⟨.call _ trivial rfl (fun lease _ => alone lease), fun _ => ⟨?_, ?_⟩⟩
  · rintro record read
    cases read
    rfl
  · exact fun _ inside => by cases inside

/-- The first worker applies the suggestion, replies and marks. -/
def applyActions : List RepairAction :=
  [.check firstRepair, .check (firstRepair.at .picked), .push (firstRepair.at .pushing),
    .check (firstRepair.at (.decided .applied)), .reply (firstRepair.at (.replying .applied)),
    .check (firstRepair.at (.replied .applied)),
    .mark (firstRepair.at (.settling .applied)) true]

theorem firstRepair_applies : Run (UnmarkedStep onlyPullRequest)
    ⟨repairDb 3, savedTables, [], [firstRepair]⟩ applyActions
    ⟨repairDb 3, resolvedTables, [], [firstRepair.at .marked]⟩ := by
  have replaced (old new : RepairAttempt) : Replaces [old] old [new] [new] := ⟨[], [], rfl, rfl⟩
  have readable : firstRepair.feedbackId = some "review_comment:5" := rfl
  have known : firstRepair.feedbackId ≠ none := by rw [readable]; nofun
  refine Run.cons ⟨.check _ _ rfl known .pick rfl (replaced _ _), trivial⟩ ?_
  refine Run.cons ⟨.check _ _ rfl known .push rfl (replaced _ _), trivial⟩ ?_
  refine Run.cons ⟨.push _ rfl rfl (replaced _ _), trivial⟩ ?_
  refine Run.cons ⟨.check _ _ rfl known (.reply .applied) rfl (replaced _ _), trivial⟩ ?_
  refine Run.cons ⟨.reply _ .applied rfl rfl (replaced _ _), trivial⟩ ?_
  refine Run.cons ⟨.check _ _ rfl known (.settle .applied) rfl (replaced _ _), trivial⟩ ?_
  exact .single ⟨.mark _ .applied "review_comment:5" rfl rfl readable (replaced _ _), trivial⟩

/-- The first worker stops before its job succeeds, and the second one takes the same feedback. -/
def repeatActions : List RepairAction :=
  [.stop (firstRepair.at .marked), .call (.advance leaseInterval, .done),
    .call (.leaseNext "second" 11, .leased (some secondRepair.lease)), .check secondRepair,
    .decline (secondRepair.at .picked), .check (secondRepair.at (.decided .rejected))]

end PiTools
