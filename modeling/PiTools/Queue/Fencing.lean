import PiTools.Library.Fence
import PiTools.Queue.Invariant

/-
This file maps the queue to a fenced resource for each job. The lease token of
a running job with a future deadline is the token that the resource accepts.
-/

namespace PiTools

open Library

/-- The token under which the row still accepts calls. -/
def Job.liveToken (now : Timestamp) (job : Job) : Option Uuid :=
  if job.state = .running ∧ job.cancelRequested = false ∧ job.leaseExpired now = false then
    job.leaseToken
  else none

def Database.live (db : Database) : Fence.Live Uuid Uuid := fun jobId =>
  (db.jobs.find? fun job => job.id = jobId).bind (Job.liveToken db.now)

/-- The act on the fence that a call reports. -/
def Event.act : Event → Fence.Act Uuid Uuid
  | (_, .leased (some lease)) => .grant lease.id lease.leaseToken
  | (.assertLease jobId _ token, .changed true) => .accept jobId token
  | (.renewLease jobId _ token, .changed true) => .accept jobId token
  | (.markWaitingApproval jobId _ token _, .changed true) => .finish jobId token
  | (.markSucceeded jobId _ token _, .changed true) => .finish jobId token
  | (.markFailed jobId _ token _, .changed true) => .finish jobId token
  | _ => .other

/-- A live lease presents the live token. -/
theorem Job.liveToken_of_leaseHeld {job : Job} {workerId : String} {leaseToken : Uuid}
    {now : Timestamp} (held : job.leaseHeld workerId leaseToken now = true) :
    job.liveToken now = some leaseToken := by
  obtain ⟨running, uncancelled, _, token, deadline, until_, future⟩ := Job.leaseHeld_iff.mp held
  simp [Job.liveToken, Job.leaseExpired, running, uncancelled, token, until_, future]

theorem Job.liveToken_of_not_running {job : Job} {now : Timestamp} (idle : job.state ≠ .running) :
    job.liveToken now = none := by
  simp [Job.liveToken, idle]

/-- An expired lease stays expired. -/
theorem Job.leaseExpired_mono {job : Job} {now now' : Timestamp} (later : now ≤ now')
    (expired : job.leaseExpired now = true) : job.leaseExpired now' = true := by
  cases until_ : job.leaseUntil with
  | none => simp [Job.leaseExpired, until_]
  | some deadline =>
      simp only [Job.leaseExpired, until_, Option.all_some, decide_eq_true_eq] at expired ⊢
      exact expired.trans later

/-- A row loses its live token with time and never gains one. -/
theorem Job.liveToken_mono (job : Job) {now now' : Timestamp} (later : now ≤ now') :
    job.liveToken now' = job.liveToken now ∨ job.liveToken now' = none := by
  by_cases live : job.state = .running ∧ job.cancelRequested = false ∧ job.leaseExpired now' = false
  · have before : job.leaseExpired now = false := by
      by_contra expired
      have after := Job.leaseExpired_mono later (by simpa using expired)
      rw [live.2.2] at after
      cases after
    simp [Job.liveToken, live, before]
  · exact .inr (if_neg live)

/-- A move keeps the live token, drops it or grants a new one. -/
theorem Move.liveToken {now now' : Timestamp} {rowEvent : RowEvent} {job job' : Job}
    (move : Move now job rowEvent job') (later : now ≤ now') :
    job'.liveToken now' = job.liveToken now ∨ job'.liveToken now' = none ∨
      ∃ workerId leaseToken, rowEvent = .leased workerId leaseToken ∧
        job'.liveToken now' = some leaseToken := by
  cases move with
  | untouched => exact (Job.liveToken_mono _ later).imp id .inl
  | cancelled | skipped | waiting | exhausted | succeeded | failed =>
      exact .inr (.inl (Job.liveToken_of_not_running (by simp [Job.cancel, Job.skip, Job.wait,
        Job.exhaust, Job.complete])))
  | approved =>
      exact .inr (.inl (Job.liveToken_of_not_running (by simp [Job.approve])))
  | leased workerId leaseToken leaseable =>
      by_cases expired : (job.lease workerId leaseToken now).leaseExpired now' = true
      · exact .inr (.inl (by simp [Job.liveToken, expired]))
      · refine .inr (.inr ⟨workerId, leaseToken, rfl, ?_⟩)
        have uncancelled : (job.lease workerId leaseToken now).cancelRequested = false :=
          (Job.leaseable_iff.mp leaseable).1
        rw [Job.liveToken, if_pos ⟨rfl, uncancelled, by simpa using expired⟩]
        rfl
  | renewed workerId leaseToken held =>
      rw [Job.liveToken_of_leaseHeld held]
      obtain ⟨_, _, _, token, _⟩ := Job.leaseHeld_iff.mp held
      by_cases live : (job.renew now).state = .running ∧ (job.renew now).cancelRequested = false ∧
          (job.renew now).leaseExpired now' = false
      · exact .inl (by rw [Job.liveToken, if_pos live]; exact token)
      · exact .inr (.inl (if_neg live))
  | linked checkRunId checkRunUrl currentItem =>
      exact (Job.liveToken_mono job later).imp id .inl

section Live

variable {db after : Database}

theorem Database.live_of_mem (ids : (db.jobs.map Job.id).Nodup) {job : Job}
    (member : job ∈ db.jobs) : db.live job.id = job.liveToken db.now := by
  cases found : db.jobs.find? fun other => other.id = job.id with
  | none => simpa using List.find?_eq_none.mp found job member
  | some other =>
      have same := row_unique Job.id ids (List.mem_of_find?_eq_some found) member
        (by simpa using List.find?_some found)
      rw [Database.live, found, same]
      rfl

theorem Database.live_absent {jobId : Uuid} (absent : ∀ job ∈ db.jobs, job.id ≠ jobId) :
    db.live jobId = none := by
  have missing : (db.jobs.find? fun job => job.id = jobId) = none :=
    List.find?_eq_none.mpr fun job member => by simpa using absent job member
  simp [Database.live, missing]

/-- A live token stands in the row of its job. -/
theorem Database.live_some {jobId token : Uuid} (held : db.live jobId = some token) :
    ∃ job ∈ db.jobs, job.id = jobId ∧ job.liveToken db.now = some token := by
  cases found : db.jobs.find? fun job => job.id = jobId with
  | none => simp [Database.live, found] at held
  | some job =>
      rw [Database.live, found] at held
      exact ⟨job, List.mem_of_find?_eq_some found, by simpa using List.find?_some found, held⟩

/-- A call keeps a live token, drops it or reports the lease that grants a new one. -/
theorem step_live {event : Event} (constrained : Constrained db.jobs) (step : db.Step event after)
    (jobId : Uuid) :
    after.live jobId = db.live jobId ∨ after.live jobId = none ∨
      ∃ lease, event.2 = .leased (some lease) ∧ lease.id = jobId ∧
        after.live jobId = some lease.leaseToken := by
  obtain ⟨effect, kept⟩ := step_effect constrained step
  by_cases present : ∃ job' ∈ after.jobs, job'.id = jobId
  · obtain ⟨job', member, rfl⟩ := present
    rw [Database.live_of_mem kept.ids member]
    rcases effect.row kept member with ⟨spec, proposedId, _, rfl, _⟩ | ⟨job, inside, rowEvent, move, explained⟩
    · exact .inr (.inl (Job.liveToken_of_not_running (by simp [newJob])))
    · have sameId := move.identity.1
      rw [sameId, Database.live_of_mem constrained.ids inside]
      rcases move.liveToken (perform_now step) with same | gone | ⟨workerId, leaseToken, rfl, granted⟩
      · exact .inl same
      · exact .inr (.inl gone)
      · refine .inr (.inr ⟨job.leased leaseToken db.now, ?_, rfl, granted⟩)
        rw [show event = _ from explained]
  · exact .inr (.inl (Database.live_absent fun job member same => present ⟨job, member, same⟩))

/-- A completion presents the live token of its job and leaves the job without one. -/
theorem completes_live {op : Op} {jobId : Uuid} {workerId : String} {token : Uuid}
    (constrained : Constrained db.jobs) (step : db.Step (op, .changed true) after)
    (completes : (∃ details, op = .markWaitingApproval jobId workerId token details) ∨
      (∃ result, op = .markSucceeded jobId workerId token result) ∨
        ∃ result, op = .markFailed jobId workerId token result) :
    db.live jobId = some token ∧ after.live jobId = none := by
  have kept := (step_effect constrained step).2
  have target : op.target = some jobId := by
    rcases completes with ⟨_, rfl⟩ | ⟨_, rfl⟩ | ⟨_, rfl⟩ <;> rfl
  obtain ⟨job, member, rfl, job', member', move⟩ := changed_moves constrained target step
  rw [Database.live_of_mem constrained.ids member, ← move.identity.1,
    Database.live_of_mem kept.ids member']
  rcases completes with ⟨_, rfl⟩ | ⟨_, rfl⟩ | ⟨_, rfl⟩
  · cases move with
    | waiting _ _ _ held =>
        exact ⟨Job.liveToken_of_leaseHeld held, Job.liveToken_of_not_running (by simp [Job.wait])⟩
  · cases move with
    | succeeded _ _ _ held =>
        exact ⟨Job.liveToken_of_leaseHeld held,
          Job.liveToken_of_not_running (by simp [Job.complete])⟩
  · cases move with
    | failed _ _ _ held =>
        exact ⟨Job.liveToken_of_leaseHeld held,
          Job.liveToken_of_not_running (by simp [Job.complete])⟩

/-- A renewal presents the live token of its job. -/
theorem renews_live {jobId : Uuid} {workerId : String} {token : Uuid}
    (constrained : Constrained db.jobs)
    (step : db.Step (.renewLease jobId workerId token, .changed true) after) :
    db.live jobId = some token := by
  obtain ⟨job, member, rfl, job', member', move⟩ := changed_moves constrained rfl step
  rw [Database.live_of_mem constrained.ids member]
  cases move with
  | renewed _ _ held => exact Job.liveToken_of_leaseHeld held

/-- An assertion that passes found a live lease in the row of the job. -/
theorem asserts_held {jobId : Uuid} {workerId : String} {token : Uuid}
    (constrained : Constrained db.jobs)
    (step : db.Step (.assertLease jobId workerId token, .changed true) after) :
    ∃ job ∈ db.jobs, job.id = jobId ∧ job.leaseHeld workerId token db.now = true := by
  have passed : assertLease db jobId workerId token = .ok true := by
    cases asserted : assertLease db jobId workerId token with
    | error reason => simp [Database.Step, perform, asserted, Except.map, settle] at step
    | ok held =>
        simp only [Database.Step, perform, asserted, Except.map, settle, Prod.mk.injEq,
          Reply.changed.injEq] at step
        rw [step.2]
  exact (assertLease_true constrained.ids).mp passed

/-- The queue still accepts the lease. -/
def Database.Holds (db : Database) (lease : LeasedJob) : Prop :=
  db.live lease.id = some lease.leaseToken

theorem holds_of_asserts {lease : LeasedJob} {workerId : String} (constrained : Constrained db.jobs)
    (step : db.Step (.assertLease lease.id workerId lease.leaseToken, .changed true) after) :
    db.Holds lease := by
  obtain ⟨job, member, same, held⟩ := asserts_held constrained step
  rw [Database.Holds, ← same, Database.live_of_mem constrained.ids member,
    Job.liveToken_of_leaseHeld held]

/-- A lease that the queue accepts runs the job in its row. -/
theorem Database.Holds.running {lease : LeasedJob} (holds : db.Holds lease) :
    ∃ job ∈ db.jobs, job.id = lease.id ∧ job.state = .running := by
  obtain ⟨job, member, same, live⟩ := Database.live_some holds
  rw [Job.liveToken] at live
  split at live
  · rename_i running
    exact ⟨job, member, same, running.1⟩
  · cases live

/-- A job that was just leased accepts at most the new token. -/
theorem leased_token {op : Op} {lease : LeasedJob} {token : Uuid} (constrained : Constrained db.jobs)
    (step : db.Step (op, .leased (some lease)) after) (live : after.live lease.id = some token) :
    token = lease.leaseToken := by
  have kept := (step_effect constrained step).2
  obtain ⟨job, _, workerId, leaseToken, _, rfl, _, inside⟩ := leased_moves constrained step
  have row : after.live (job.lease workerId leaseToken db.now).id = some token := live
  rw [Database.live_of_mem kept.ids inside, Job.liveToken] at row
  split at row
  · exact (Option.some.inj row).symm
  · cases row

/-- A call accepts a lease that was accepted before, unless it grants its token. -/
theorem holds_before {event : Event} {lease : LeasedJob} (constrained : Constrained db.jobs)
    (step : db.Step event after)
    (fresh : ∀ granted, event.2 = .leased (some granted) → lease.leaseToken ≠ granted.leaseToken)
    (holds : after.Holds lease) : db.Holds lease := by
  rcases step_live constrained step lease.id with same | gone | ⟨other, granted, _, live⟩
  · rwa [Database.Holds, ← same]
  · rw [Database.Holds, gone] at holds
    cases holds
  · rw [Database.Holds, live] at holds
    exact absurd (Option.some.inj holds).symm (fresh other granted)

/-- Every call is an act on the fence. -/
theorem step_fence {event : Event} (constrained : Constrained db.jobs)
    (step : db.Step event after) : Fence.Step db.live event.act after.live := by
  have shrinks : (∀ lease, event.2 ≠ .leased (some lease)) → Fence.Shrinks db.live after.live := by
    intro noGrant key
    rcases step_live constrained step key with same | gone | ⟨lease, granted, _⟩
    · exact .inl same
    · exact .inr gone
    · exact absurd granted (noGrant lease)
  obtain ⟨op, reply⟩ := event
  simp only [Event.act]
  split
  · rename_i lease same
    cases same
    refine .grant lease.id lease.leaseToken fun other => ?_
    rcases step_live constrained step other with same | gone | ⟨lease', granted, rfl, live⟩
    · exact .inl same
    · exact .inr (.inl gone)
    · cases granted
      exact .inr (.inr ⟨rfl, live⟩)
  · rename_i jobId workerId token same
    cases same
    obtain ⟨job, member, rfl, held⟩ := asserts_held constrained step
    refine .accept job.id token ?_ (shrinks (by simp))
    rw [Database.live_of_mem constrained.ids member, Job.liveToken_of_leaseHeld held]
  · rename_i same
    cases same
    exact .accept _ _ (renews_live constrained step) (shrinks (by simp))
  · rename_i same
    cases same
    obtain ⟨held, released⟩ := completes_live constrained step (.inl ⟨_, rfl⟩)
    exact .finish _ _ held released (shrinks (by simp))
  · rename_i same
    cases same
    obtain ⟨held, released⟩ := completes_live constrained step (.inr (.inl ⟨_, rfl⟩))
    exact .finish _ _ held released (shrinks (by simp))
  · rename_i same
    cases same
    obtain ⟨held, released⟩ := completes_live constrained step (.inr (.inr ⟨_, rfl⟩))
    exact .finish _ _ held released (shrinks (by simp))
  · rename_i noGrant _ _ _ _ _
    exact .other (shrinks fun lease granted => noGrant op lease (by simp_all))

end Live

/-! ### Runs -/

def Event.grantedToken : Event → Option Uuid
  | (_, .leased (some lease)) => some lease.leaseToken
  | _ => none

/-- The call completed its job under the token. -/
def Event.completes (token : Uuid) : Event → Bool
  | (.markWaitingApproval _ _ presented _, .changed true) => presented = token
  | (.markSucceeded _ _ presented _, .changed true) => presented = token
  | (.markFailed _ _ presented _, .changed true) => presented = token
  | _ => false

/-- The call passed under the token. -/
def Event.accepts (token : Uuid) : Event → Bool
  | (.assertLease _ _ presented, .changed true) => presented = token
  | (.renewLease _ _ presented, .changed true) => presented = token
  | event => event.completes token

theorem Event.act_granted (event : Event) : event.act.granted = event.grantedToken := by
  rcases event with ⟨op, _ | _ | (_ | _) | (_ | _) | _⟩ <;> cases op <;> rfl

theorem Event.act_finishes (token : Uuid) (event : Event) :
    event.act.finishes token = event.completes token := by
  rcases event with ⟨op, _ | _ | (_ | _) | (_ | _) | _⟩ <;> cases op <;> rfl

/-- A call that passes under a token uses the token on the fence. -/
theorem Event.act_used {token : Uuid} {event : Event} (accepted : event.accepts token = true) :
    event.act.used = some token := by
  rcases event with ⟨op, _ | _ | (_ | _) | (_ | _) | _⟩ <;> cases op <;>
    simp_all [Event.accepts, Event.completes, Event.act, Fence.Act.used]

theorem filterMap_act_granted (events : List Event) :
    (events.map Event.act).filterMap Fence.Act.granted = events.filterMap Event.grantedToken := by
  rw [List.filterMap_map]
  exact List.filterMap_congr fun event _ => event.act_granted

theorem countP_act_finishes (token : Uuid) (events : List Event) :
    (events.map Event.act).countP (Fence.Act.finishes token) =
      events.countP (Event.completes token) := by
  rw [List.countP_map]
  exact List.countP_congr fun event _ => by simp [Event.act_finishes]

section Runs

variable {start db : Database} {events : List Event}

/-- The fence of every job follows the queue from any reachable state. -/
theorem run_fence_from {middle : Database} {past : List Event} (empty : start.jobs = [])
    (before : Run Database.Step start past middle) (run : Run Database.Step middle events db) :
    Run Fence.Step middle.live (events.map Event.act) db.live :=
  run.map Database.live Event.act fun _ _ _ _ earlier step =>
    step_fence (run_constrained empty (before.append earlier)) step

theorem run_fence (empty : start.jobs = []) (run : Run Database.Step start events db) :
    Run Fence.Step (fun _ => none) (events.map Event.act) db.live := by
  have unleased : start.live = fun _ => none :=
    funext fun jobId => Database.live_absent (by simp [empty])
  rw [← unleased]
  exact run_fence_from empty .refl run

/-- Two callers that both pass the assertion of a job present the same lease. -/
theorem assertLease_unique (constrained : Constrained db.jobs) {jobId : Uuid}
    {workerId workerId' : String} {leaseToken leaseToken' : Uuid}
    (first : assertLease db jobId workerId leaseToken = .ok true)
    (second : assertLease db jobId workerId' leaseToken' = .ok true) :
    workerId = workerId' ∧ leaseToken = leaseToken' := by
  obtain ⟨job, member, rfl, held⟩ := (assertLease_true constrained.ids).mp first
  obtain ⟨job', member', same, held'⟩ := (assertLease_true constrained.ids).mp second
  have equal := row_unique Job.id constrained.ids member' member same
  subst equal
  obtain ⟨_, _, owner, token, _⟩ := Job.leaseHeld_iff.mp held
  obtain ⟨_, _, owner', token', _⟩ := Job.leaseHeld_iff.mp held'
  exact ⟨Option.some.inj (owner.symm.trans owner'), Option.some.inj (token.symm.trans token')⟩

/-- A lease whose deadline is the current instant no longer passes. -/
theorem assertLease_deadline (constrained : Constrained db.jobs) {job : Job}
    (member : job ∈ db.jobs) (deadline : job.leaseUntil = some db.now) (workerId : String)
    (leaseToken : Uuid) : assertLease db job.id workerId leaseToken ≠ .ok true := by
  intro passed
  obtain ⟨other, inside, same, held⟩ := (assertLease_true constrained.ids).mp passed
  have equal := row_unique Job.id constrained.ids inside member same
  subst equal
  obtain ⟨_, _, _, _, until_, known, future⟩ := Job.leaseHeld_iff.mp held
  rw [deadline] at known
  cases known
  exact absurd future (lt_irrefl _)

/-- The job no longer runs under the token. -/
def Lapsed (db : Database) (jobId leaseToken : Uuid) : Prop :=
  ∀ job ∈ db.jobs, job.id = jobId →
    job.state ≠ .running ∨ job.leaseToken ≠ some leaseToken ∨ job.leaseExpired db.now = true

/-- A lapsed token is dead on the fence of every job. -/
theorem dead_of_lapsed (empty : start.jobs = []) (run : Run Database.Step start events db)
    (fresh : (events.filterMap Event.grantedToken).Nodup) {lease : LeasedJob} {op : Op}
    (granted : (op, .leased (some lease)) ∈ events)
    (lapsed : Lapsed db lease.id lease.leaseToken) : Fence.Dead db.live lease.leaseToken := by
  intro key held
  have fence := run_fence empty run
  have toJob : Fence.Act.grant lease.id lease.leaseToken ∈ events.map Event.act :=
    List.mem_map.mpr ⟨_, granted, rfl⟩
  have same := Fence.grant_unique (by rwa [filterMap_act_granted]) (Fence.live_granted fence held) toJob
  subst same
  obtain ⟨job, member, same, live⟩ := Database.live_some held
  simp only [Job.liveToken] at live
  split at live
  · rename_i running
    rcases lapsed job member same with idle | other | expired
    · exact idle running.1
    · exact other live
    · rw [running.2.2] at expired
      cases expired
  · cases live

/-- A terminal row keeps its state, result and plan. -/
theorem Move.terminal {now : Timestamp} {rowEvent : RowEvent} {job job' : Job}
    (move : Move now job rowEvent job') (terminal : job.active = false) :
    job'.state = job.state ∧ job'.result = job.result ∧ job'.plan = job.plan := by
  have idle : ∀ state, state.active = true → job.state ≠ state := by
    rintro state active rfl
    rw [Job.active, active] at terminal
    cases terminal
  cases move with
  | untouched | linked => exact ⟨rfl, rfl, rfl⟩
  | cancelled active =>
      rw [terminal] at active
      cases active
  | skipped plan started =>
      rcases started with state | state <;> exact absurd state (idle _ rfl)
  | approved plan parked => exact absurd parked (idle _ rfl)
  | exhausted pending =>
      rcases pending with state | state <;> exact absurd state (idle _ rfl)
  | leased _ _ leaseable =>
      rcases (Job.leaseable_iff.mp leaseable).2.2 with state | ⟨state, _⟩ <;>
        exact absurd state (idle _ rfl)
  | waiting _ _ _ held | renewed _ _ held | succeeded _ _ _ held | failed _ _ _ held =>
      exact absurd (Job.leaseHeld_running held).1 (idle _ rfl)

/-- A terminal job keeps its row for the rest of the run. -/
theorem run_terminal {middle : Database} {past : List Event} (empty : start.jobs = [])
    (before : Run Database.Step start past middle) (run : Run Database.Step middle events db)
    {job : Job} (member : job ∈ middle.jobs) (terminal : job.active = false) :
    ∃ job' ∈ db.jobs, job'.id = job.id ∧ job'.state = job.state ∧ job'.result = job.result ∧
      job'.plan = job.plan := by
  refine run.history (fun _ state => ∃ job' ∈ state.jobs, job'.id = job.id ∧
    job'.state = job.state ∧ job'.result = job.result ∧ job'.plan = job.plan)
    ⟨job, member, rfl, rfl, rfl, rfl⟩ ?_
  rintro _ state event next earlier ⟨row, inside, sameId, sameState, sameResult, samePlan⟩ step
  have constrained := run_constrained empty (before.append earlier)
  obtain ⟨row', inside', rowEvent, move, _⟩ := (step_effect constrained step).1.successor inside
  have inactive : row.active = false := by
    rw [Job.active, sameState]
    exact terminal
  obtain ⟨keepState, keepResult, keepPlan⟩ := move.terminal inactive
  exact ⟨row', inside', move.identity.1.trans sameId, keepState.trans sameState,
    keepResult.trans sameResult, keepPlan.trans samePlan⟩

/-- The fencing of lease tokens over the given calls. -/
structure Fenced (start : Database) (events : List Event) (db : Database) : Prop where
  unique : ∀ jobId workerId leaseToken workerId' leaseToken',
    assertLease db jobId workerId leaseToken = .ok true →
      assertLease db jobId workerId' leaseToken' = .ok true →
        workerId = workerId' ∧ leaseToken = leaseToken'
  deadline : ∀ job ∈ db.jobs, job.leaseUntil = some db.now → ∀ workerId leaseToken,
    assertLease db job.id workerId leaseToken ≠ .ok true
  completions : ∀ leaseToken, events.countP (Event.completes leaseToken) ≤ 1
  lapsed : ∀ past future middle op lease, events = past ++ future →
    Run Database.Step start past middle → Run Database.Step middle future db →
      (op, .leased (some lease)) ∈ past → Lapsed middle lease.id lease.leaseToken →
        ∀ event ∈ future, event.accepts lease.leaseToken = false
  terminal : ∀ past future middle, events = past ++ future →
    Run Database.Step start past middle → Run Database.Step middle future db →
      ∀ job ∈ middle.jobs, job.active = false →
        ∃ job' ∈ db.jobs, job'.id = job.id ∧ job'.state = job.state ∧
          job'.result = job.result ∧ job'.plan = job.plan

/-- Lease tokens fence every run in which the granted tokens differ. -/
theorem lease_fencing (empty : start.jobs = []) (run : Run Database.Step start events db)
    (fresh : (events.filterMap Event.grantedToken).Nodup) : Fenced start events db := by
  have constrained := run_constrained empty run
  constructor
  · exact fun _ _ _ _ _ => assertLease_unique constrained
  · exact fun _ member deadline => assertLease_deadline constrained member deadline
  · intro leaseToken
    rw [← countP_act_finishes]
    exact Fence.finish_once (run_fence empty run) (by rwa [filterMap_act_granted]) leaseToken
  · rintro past future middle op lease rfl before after granted lapsed event member
    rw [List.filterMap_append, List.nodup_append] at fresh
    have dead := dead_of_lapsed empty before fresh.1 granted lapsed
    have ungranted : lease.leaseToken ∉ (future.map Event.act).filterMap Fence.Act.granted := by
      rw [filterMap_act_granted]
      intro again
      exact fresh.2.2 _ (List.mem_filterMap.mpr ⟨_, granted, rfl⟩) _ again rfl
    have unused := (Fence.dead_forever (run_fence_from empty before after) dead ungranted).2
    by_contra accepted
    exact unused _ (List.mem_map_of_mem member) (Event.act_used (by simpa using accepted))
  · exact fun _ _ _ _ before after _ => run_terminal empty before after

end Runs

/-- A lease expires, a second worker takes over, and both workers try to finish. -/
def takeOver : List Op :=
  [.upsertRepository 1 1, .enqueue ⟨1, 7, .reconcile, .object []⟩ 5, .leaseNext "first" 10,
    .advance leaseInterval, .leaseNext "second" 11, .markSucceeded 5 "first" 10 .null,
    .markSucceeded 5 "second" 11 .null]

theorem lease_fencing_takeOver :
    Fenced (.empty 0) (replay takeOver (.empty 0)).1 (replay takeOver (.empty 0)).2 :=
  lease_fencing rfl (replay_run _ _) (by decide)

end PiTools
