import Mathlib.Algebra.Order.BigOperators.Group.List
import Mathlib.Algebra.Order.Group.Nat
import Mathlib.Data.Prod.Lex
import PiTools.Queue.Fencing

/-
This file shows how many leases can pass over a job that waits for one.
-/

namespace PiTools

open Library

/-- The table answered a request for a lease. -/
def Event.asks : Event → Bool
  | (.leaseNext _ _, .leased _) => true
  | _ => false

/-! ### The order of the leases -/

theorem older_irrefl (job : Job) : older job job = false := by simp [older]

/-- The creation time and then the id order the jobs. -/
theorem older_iff (first second : Job) : older first second = true ↔
    toLex (first.createdAt, first.id) < toLex (second.createdAt, second.id) := by
  simp [older, Prod.Lex.toLex_lt_toLex]

theorem older_asymm (first second : Job) (earlier : older first second = true) : older second first = false := by
  rw [← Bool.not_eq_true, older_iff]
  exact ((older_iff ..).mp earlier).asymm

theorem older_negTrans (first second third : Job) (left : older second first = false)
    (right : older third second = false) : older third first = false := by
  rw [← Bool.not_eq_true, older_iff, not_lt] at *
  exact left.trans right

/-- Of two jobs with different ids one is older. -/
theorem older_total {first second : Job} (different : first.id ≠ second.id) (later : older second first = false) :
    older first second = true := by
  rw [← Bool.not_eq_true, older_iff, not_lt] at later
  rw [older_iff]
  refine later.lt_of_ne fun same => different ?_
  exact (Prod.mk.inj (toLex.injective same)).2

section Steps

variable {db after : Database} {event : Event} {job job' : Job}

/-- A request that is answered leases the oldest job, and finds one whenever a job waits. -/
theorem asks_oldest {op : Op} {reply : Reply}
    (step : db.Step (op, reply) after) (asks : Event.asks (op, reply) = true) (member : job ∈ db.jobs)
    (waits : job.leaseable db.now = true) (passed : Event.grants job.id (op, reply) = false) :
    ∃ chosen ∈ db.jobs, Event.grants chosen.id (op, reply) = true ∧ older chosen job = true := by
  cases op with
  | leaseNext workerId leaseToken =>
      simp only [Database.Step, perform] at step
      cases sweep : (exhaustAttempts db.now).execute db with
      | error reason =>
          simp only [leaseNext, sweep, settle, Prod.mk.injEq] at step
          obtain ⟨_, rfl⟩ := step
          cases asks
      | ok answer =>
          obtain ⟨swept, count⟩ := answer
          obtain ⟨rows, _, kept, _⟩ := Update.execute_ok sweep
          simp only [leaseNext, sweep] at step
          have stays : job ∈ swept.jobs := by
            obtain ⟨row, inside, updated⟩ := forall₂_new rows member
            rcases updated with ⟨met, _⟩ | ⟨_, rfl⟩
            · simp only [exhaustAttempts, Bool.and_eq_true, decide_eq_true_eq] at met
              obtain ⟨⟨_, spent⟩, _⟩ := met
              have below := (Job.leaseable_iff.mp waits).2.1
              omega
            · exact inside
          have fit : job ∈ swept.jobs.filter fun job => job.leaseable db.now :=
            List.mem_filter.mpr ⟨stays, waits⟩
          cases selected : selectFirst older (swept.jobs.filter fun job => job.leaseable db.now) with
          | none =>
              rw [selectFirst_eq_none.mp selected] at fit
              cases fit
          | some chosen =>
              obtain ⟨inside, leaseable⟩ := List.mem_filter.mp (selectFirst_mem selected)
              obtain ⟨row, old, updated⟩ := forall₂_old rows inside
              obtain rfl := exhaustAttempts_leaseable updated leaseable
              have first := selectFirst_first older_irrefl older_negTrans older_asymm selected job fit
              cases taken : (takeLease db.now chosen.id workerId leaseToken).execute swept with
              | error reason =>
                  simp only [selected, taken, settle, Prod.mk.injEq] at step
                  obtain ⟨_, rfl⟩ := step
                  cases asks
              | ok answer =>
                  simp only [selected, taken, settle, Prod.mk.injEq] at step
                  obtain ⟨_, rfl⟩ := step
                  have granted (id : Uuid) : Event.grants id (.leaseNext workerId leaseToken,
                      .leased (some (chosen.leased leaseToken db.now))) = decide (chosen.id = id) := rfl
                  rw [granted, decide_eq_false_iff_not] at passed
                  exact ⟨chosen, old, by rw [granted, decide_eq_true rfl], older_total passed first⟩
  | _ => cases asks

/-- A lease that has expired is not held. -/
theorem Job.not_leaseHeld {now : Timestamp} {workerId : String} {leaseToken : Uuid}
    (waits : job.leaseable now = true) : job.leaseHeld workerId leaseToken now = false := by
  by_contra other
  obtain ⟨running, _, _, _, deadline, until_, future⟩ := Job.leaseHeld_iff.mp (Bool.not_eq_false _ ▸ other)
  obtain ⟨_, _, queued | ⟨_, expired⟩⟩ := Job.leaseable_iff.mp waits
  · rw [running] at queued
    cases queued
  · rw [Job.leaseExpired, until_, Option.all_some, decide_eq_true_eq] at expired
    exact absurd future expired.not_gt

/-- A job waits until it is leased or cancelled. -/
theorem Move.leaseable {now now' : Timestamp} {rowEvent : RowEvent} (move : Move now job rowEvent job')
    (explained : rowEvent.Explains event now job) (valid : job.Valid) (later : now ≤ now')
    (waits : job.leaseable now = true) (passed : event.grants job.id = false) (kept : job'.state ≠ .cancelled) :
    job'.leaseable now' = true := by
  obtain ⟨uncancelled, below, state⟩ := Job.leaseable_iff.mp waits
  have stays : job.leaseable now' = true :=
    Job.leaseable_iff.mpr ⟨uncancelled, below, state.imp_right fun ⟨running, expired⟩ =>
      ⟨running, Job.leaseExpired_mono later expired⟩⟩
  cases move with
  | untouched => exact stays
  | cancelled => exact absurd rfl kept
  | skipped plan =>
      have lower := valid.lower
      refine Job.leaseable_iff.mpr ⟨uncancelled, ?_, .inl rfl⟩
      change max (job.attempt - 1) 0 < job.maxAttempts
      omega
  | waiting workerId leaseToken details held | renewed workerId leaseToken held
  | succeeded workerId leaseToken result held | failed workerId leaseToken result held =>
      rw [Job.not_leaseHeld waits] at held
      cases held
  | approved plan parked =>
      rcases state with queued | ⟨running, _⟩
      · rw [queued] at parked
        cases parked
      · rw [running] at parked
        cases parked
  | exhausted _ spent => omega
  | leased workerId leaseToken =>
      cases explained
      exact absurd (passed.symm.trans (decide_eq_true rfl)) Bool.false_ne_true
  | linked => exact stays

end Steps

/-! ### The waiting of one job -/

section Runs

variable {start db after : Database} {past future : List Event} {job : Job}

/-- A job that no call leases still waits at the end of the run, or it is cancelled. -/
theorem run_waits (empty : start.jobs = []) (before : Run Database.Step start past db)
    (run : Run Database.Step db future after) (member : job ∈ db.jobs) (waits : job.leaseable db.now = true)
    (passed : ∀ event ∈ future, event.grants job.id = false) :
    ∃ row ∈ after.jobs, row.id = job.id ∧ row.createdAt = job.createdAt ∧
      (row.state = .cancelled ∨ row.leaseable after.now = true) := by
  induction run with
  | refl => exact ⟨job, member, rfl, rfl, .inr waits⟩
  | @snoc events middle finish event earlier last ih =>
      obtain ⟨row, inside, sameId, sameTime, state⟩ := ih fun other old => passed other (List.mem_append_left _ old)
      have reached := before.append earlier
      obtain ⟨effect, _⟩ := step_effect (run_constrained empty reached) last
      obtain ⟨row', inside', rowEvent, move, explained⟩ := effect.successor inside
      have identity := move.identity
      refine ⟨row', inside', identity.1.trans sameId, identity.2.2.2.trans sameTime, ?_⟩
      rcases state with cancelled | waiting
      · have inactive : row.active = false := by rw [Job.active, cancelled]; rfl
        exact .inl ((move.terminal inactive).1.trans cancelled)
      · by_cases kept : row'.state = .cancelled
        · exact .inl kept
        · have quiet : event.grants row.id = false :=
            sameId ▸ passed event (List.mem_append_right _ (List.mem_singleton.mpr rfl))
          have valid := run_valid empty reached row inside
          exact .inr (move.leaseable explained valid (perform_now last) waiting quiet kept)

/-- A row keeps its place in the order of the leases. -/
theorem run_place (empty : start.jobs = []) (before : Run Database.Step start past db)
    (run : Run Database.Step db future after) (member : job ∈ db.jobs) :
    ∃ row ∈ after.jobs, row.id = job.id ∧ row.createdAt = job.createdAt := by
  induction run with
  | refl => exact ⟨job, member, rfl, rfl⟩
  | snoc earlier last ih =>
      obtain ⟨row, inside, sameId, sameTime⟩ := ih
      obtain ⟨effect, _⟩ := step_effect (run_constrained empty (before.append earlier)) last
      obtain ⟨row', inside', rowEvent, move, _⟩ := effect.successor inside
      obtain ⟨keepId, _, _, keepTime⟩ := move.identity
      exact ⟨row', inside', keepId.trans sameId, keepTime.trans sameTime⟩

/-- The leases of one row in a part of a run are limited by its attempts and its skips. -/
theorem grantCount_le (empty : start.jobs = []) (before : Run Database.Step start past db)
    (run : Run Database.Step db future after) (member : job ∈ after.jobs) :
    grantCount future job.id ≤ job.maxAttempts.toNat + skipCount future job.id := by
  have whole := before.append run
  have valid := run_valid empty whole job member
  have upper := valid.upper
  have total := run_accounts empty whole job member
  have first : (skipCount past job.id : Int) ≤ grantCount past job.id := by
    by_cases present : ∃ row ∈ db.jobs, row.id = job.id
    · obtain ⟨row, inside, same⟩ := present
      have balance := run_accounts empty before row inside
      have lower := (run_valid empty before row inside).lower
      rw [same] at balance
      omega
    · have absent : ∀ row ∈ db.jobs, row.id ≠ job.id := fun row inside same => present ⟨row, inside, same⟩
      obtain ⟨noGrant, noSkip⟩ := run_uncounted empty before absent
      rw [noGrant, noSkip]
  simp only [grantCount, skipCount, List.countP_append] at total first ⊢
  push_cast at total
  omega

/-- While a job waits, the leases pass over it at most as often as the attempts and the skips of the older jobs
allow. -/
theorem lease_waiting_bounded (empty : start.jobs = []) (before : Run Database.Step start past db)
    (run : Run Database.Step db future after) (member : job ∈ db.jobs) (waits : job.leaseable db.now = true)
    (passed : grantCount future job.id = 0)
    (kept : ∀ row ∈ after.jobs, row.id = job.id → row.state ≠ .cancelled) :
    future.countP Event.asks ≤ ((after.jobs.filter (older · job)).map fun other =>
      other.maxAttempts.toNat + skipCount future other.id).sum := by
  have quiet : ∀ event ∈ future, event.grants job.id = false := fun event inside =>
    Bool.not_eq_true _ ▸ List.countP_eq_zero.mp passed event inside
  have covered : ∀ event ∈ future, event.asks = true →
      ∃ other ∈ after.jobs.filter (older · job), event.grants other.id = true := by
    intro event inside asks
    obtain ⟨first, second, state, next, rfl, early, step, late⟩ := run.step_of_mem inside
    have reached := before.append early
    obtain ⟨row, present, sameId, sameTime, condition⟩ := run_waits empty before early member waits
      fun other old => quiet other (List.mem_append_left _ old)
    have waiting : row.leaseable state.now = true := by
      refine condition.resolve_left fun cancelled => ?_
      have inactive : row.active = false := by rw [Job.active, cancelled]; rfl
      obtain ⟨last, inLast, lastId, lastState, _⟩ :=
        run_terminal empty reached (Run.cons step late) present inactive
      exact kept last inLast (lastId.trans sameId) (lastState.trans cancelled)
    obtain ⟨chosen, inState, grants, earlier⟩ :=
      asks_oldest step asks present waiting (sameId ▸ quiet event inside)
    obtain ⟨other, inAfter, otherId, otherTime⟩ := run_place empty reached (Run.cons step late) inState
    refine ⟨other, List.mem_filter.mpr ⟨inAfter, ?_⟩, otherId ▸ grants⟩
    rw [older_iff] at earlier ⊢
    rwa [otherId, otherTime, ← sameId, ← sameTime]
  refine (countP_le_sum covered).trans (List.sum_le_sum fun other inside => ?_)
  exact grantCount_le empty before run (List.mem_filter.mp inside).1

end Runs

/-! ### A job behind an older one -/

def firstInLine : JobSpec := ⟨1, 7, .reconcile, .object []⟩

def secondInLine : JobSpec := ⟨1, 8, .reconcile, .object []⟩

def behind : List Op := [.upsertRepository 1 1, .enqueue firstInLine 4, .advance 1, .enqueue secondInLine 5]

def behindTable : Database := (replay behind (.empty 0)).2

def overtaking : List Op := [.leaseNext "worker" 10, .advance leaseInterval, .leaseNext "worker" 11]

def overtakenTable : Database := (replay overtaking behindTable).2

theorem lease_waiting_bounded_behind :
    (replay overtaking behindTable).1.countP Event.asks ≤
      ((overtakenTable.jobs.filter (older · (newJob behindTable secondInLine 5))).map fun other =>
        other.maxAttempts.toNat + skipCount (replay overtaking behindTable).1 other.id).sum :=
  lease_waiting_bounded rfl (replay_run behind (.empty 0)) (replay_run overtaking behindTable)
    (by decide) (by decide) (by decide) (by decide)

end PiTools
