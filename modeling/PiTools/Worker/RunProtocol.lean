import PiTools.Worker.RunRepairs

/-
This file proves what has happened in the run of a job before each of its calls,
whichever calls fail.
-/

namespace PiTools.Executor

open Library

section Runs

variable {Content : Type} {world : World Content} {job : LeasedJob} {facts : List Call → Prop}

/-! ### The work -/

theorem remaining_of_unskipped {plan : Json} (found : unskippedFeedback plan ≠ none) :
    planHasRemainingFeedback plan = true := by
  rw [unskippedFeedback] at found
  obtain ⟨value, found⟩ := Option.ne_none_iff_exists'.mp found
  obtain ⟨items, listed, picked⟩ := Option.bind_eq_some_iff.mp found
  obtain ⟨item, picked, _⟩ := Option.map_eq_some_iff.mp picked
  rw [planHasRemainingFeedback, listed, Option.any_some, List.any_eq_true]
  have unskipped := List.find?_some picked
  exact ⟨item, List.mem_of_find?_eq_some picked, unskipped⟩

theorem authorized_of_unneeded {context : Context}
    (unneeded : needsApproval world context.policy job.plan = false) :
    Authorized world job context := by
  intro required
  simpa [needsApproval, required] using unneeded

theorem stackRebase_keeps {context : Context} (kind : job.kind = .stackRebase)
    (unskipped : planItemIsSkipped job.plan "stack_rebase" = false)
    (authorized : Authorized world job context) : Keeps (Inside world job)
      (Ready fun log => Quiet log ∧ Loaded log context)
      (Logged.call .stackRebase world.stackRebase)
      fun report => Ready fun log => Earned world job log (reportValue report) := by
  apply Keeps.call
  rintro log outcome ⟨confirmed, quiet, loaded⟩
  refine ⟨⟨⟨fun _ _ => confirmed, kind, unskipped, ⟨context, loaded, authorized⟩, quiet⟩, rfl⟩, ?_⟩
  rintro report rfl
  exact ⟨confirmed.snoc rfl, .rebased kind (List.mem_append_right _ (List.mem_singleton_self _))⟩

/-- The work of a kind that waits for its approval first. -/
theorem waiting_keeps {context : Context} (summary blocker : String) (kind : job.kind ≠ .reconcile) :
    Keeps (Inside world job) (Ready fun log => Quiet log ∧ Loaded log context)
      (pure (waitingForApproval summary blocker) : Program WorkerError Json)
      fun result => Ready (Returned world job result) :=
  Keeps.pure fun _ ready =>
    ⟨ready.1, .waits (isWaiting_waitingForApproval summary blocker) kind ready.2.1⟩

theorem work_keeps (context : Context) : Keeps (Inside world job)
    (Ready fun log => Quiet log ∧ Loaded log context) (work world context job)
    fun result => Ready (Returned world job result) := by
  have known := stable_quiet.and (stable_loaded context)
  rw [work]
  split
  case h_1 kind =>
    refine Keeps.bind (call_keeps known (fun _ => ⟨rfl, rfl, rfl⟩) fun _ _ _ => trivial) ?_
    exact fun _ => Keeps.pure fun _ ready => ⟨ready.1, .earned (.reconciled kind ready.2.2)⟩
  case h_2 kind =>
    split
    next => exact waiting_keeps _ _ (by simp [kind])
    next unneeded =>
      refine (feedbackRepair_keeps kind ?_).imp (fun _ ready => ready)
        fun _ _ ready => ⟨ready.1, .earned ready.2⟩
      intro found
      apply authorized_of_unneeded
      simpa [remaining_of_unskipped found] using unneeded
  case h_3 kind =>
    split
    next skipped => exact Keeps.pure fun _ ready => ⟨ready.1, .earned (.skippedStack kind skipped)⟩
    next unskipped =>
      split
      next => exact waiting_keeps _ _ (by simp [kind])
      next unneeded =>
        refine Keeps.bind (stackRebase_keeps kind (by simpa using unskipped)
          (authorized_of_unneeded (by simpa using unneeded))) ?_
        exact fun _ => Keeps.pure fun _ ready => ⟨ready.1, .earned ready.2⟩
  case h_4 kind =>
    split
    next skipped => exact Keeps.pure fun _ ready => ⟨ready.1, .earned (.skippedCi kind skipped)⟩
    next unskipped => exact ciRepair_keeps kind (by simpa using unskipped)

/-! ### The run -/

theorem loadPolicy_keeps (stable : Stable facts) : Keeps (Inside world job) (Ready facts)
    (loadPolicy world) fun policy => Ready fun log => facts log ∧ .savePolicy policy (.ok ()) ∈ log := by
  refine Keeps.bind (tell_keeps stable (fun _ => ⟨rfl, rfl, rfl⟩) fun _ _ _ => trivial) ?_
  intro source
  refine Keeps.bind (Keeps.settled fun _ _ ready _ => ready) ?_
  intro policy
  refine Keeps.bind (ask_keeps stable (fun _ => ⟨rfl, rfl, rfl⟩) fun _ _ _ => trivial) ?_
  exact fun _ => Keeps.pure fun _ ready => ⟨ready.1, ready.2.1, ready.2.2⟩

theorem loadContext_keeps : Keeps (Inside world job) Quiet (loadContext world job)
    fun context => Ready fun log => Quiet log ∧ Loaded log context := by
  refine Keeps.bind (ensureLease_keeps stable_quiet) ?_
  intro _
  refine Keeps.bind (fresh_keeps stable_quiet (fun _ => ⟨rfl, rfl, rfl⟩) fun _ _ _ _ => trivial) ?_
  intro found
  apply Keeps.bind_settled
  intro repository stored
  rw [okOr_eq_ok] at stored
  subst stored
  have first := stable_quiet.and (KeptBy.member (.repositoryContext (.ok (some repository))))
  refine Keeps.bind (ask_keeps first (fun _ => ⟨rfl, rfl, rfl⟩) fun _ _ _ => trivial) ?_
  intro found
  apply Keeps.bind_settled
  intro pullRequest stored
  rw [okOr_eq_ok] at stored
  subst stored
  have both := first.and (KeptBy.member (.pullRequestContext (.ok (some pullRequest))))
  refine Keeps.bind (tell_keeps both (fun _ => ⟨rfl, rfl, rfl⟩) fun _ _ _ => trivial) ?_
  intro _
  refine Keeps.bind (tell_keeps both (fun _ => ⟨rfl, rfl, rfl⟩) fun _ _ _ => trivial) ?_
  intro _
  refine Keeps.bind (loadPolicy_keeps both) ?_
  intro policy
  refine Keeps.bind ((ensureLease_keeps (both.and (KeptBy.member _))).imp (fun _ ready => ready.2)
    fun _ _ ready => ready) ?_
  intro _
  apply Keeps.pure
  rintro log ⟨fresh, ⟨⟨quiet, repository⟩, pullRequest⟩, policy⟩
  exact ⟨fresh.confirmed, quiet, repository, pullRequest, policy⟩

/-- Only a reconciliation has no handle. -/
theorem startWork_keeps (stable : Stable facts) (context : Context) :
    Keeps (Inside world job) (Ready facts) (startWork world context job)
      fun handle log => Ready facts log ∧ (handle = none → job.kind = .reconcile) := by
  rw [startWork]
  split
  case isTrue kind => exact Keeps.pure fun _ ready => ⟨ready, fun _ => kind⟩
  case isFalse =>
    refine Keeps.bind (Keeps.settled fun _ _ ready _ => ready.2) ?_
    intro items
    refine Keeps.bind (ensureLease_keeps stable) ?_
    intro _
    refine Keeps.bind ((start_steady stable context.pullRequest.headSha items).failingWith.imp
      (fun _ => Ready.of_fresh) fun _ _ ready => ready) ?_
    exact fun handle => Keeps.pure fun _ ready => ⟨ready, fun absent => by cases absent⟩

theorem showDetails_keeps (stable : Stable facts) (approvalHash : String) (handle : WorkHandle) :
    Keeps (Inside world job) (fun log => Fresh log ∧ facts log)
      (showDetails world job approvalHash (some handle))
      fun _ => Ready fun log => facts log ∧ Shows world (some approvalHash) log := by
  refine Keeps.bind (Keeps.settled fun _ _ fresh _ => Ready.of_fresh fresh) ?_
  intro items
  exact (updateProgress_keeps stable handle items (some approvalHash)).failingWith

/-- The last call has parked the job. -/
def Parked (log : List Call) : Prop :=
  ∃ details, log.getLast? = some (.markWaitingApproval details (.ok true))

theorem park_keeps (handle : WorkHandle) (result : Json) : Keeps (Inside world job) Quiet
    (park world job (some handle) result) fun parked log => parked = result ∧ Parked log := by
  refine Keeps.bind (ensureLease_keeps stable_quiet) ?_
  intro _
  apply Keeps.bind_settled
  intro approvalHash hashed
  rw [okOr_eq_ok, bind_asStr] at hashed
  refine Keeps.bind (showDetails_keeps stable_quiet approvalHash handle) ?_
  intro _
  have asked : Keeps (Inside world job)
      (Ready fun log => Quiet log ∧ Shows world (some approvalHash) log)
      (Logged.failingWith WorkerError.queue
        (Logged.call (.markWaitingApproval (waitingDetails world.sha256Hex job.plan result))
          (world.markWaitingApproval (waitingDetails world.sha256Hex job.plan result))))
      fun parked log => parked = true → Parked log := by
    apply Keeps.failingWith
    apply Keeps.call
    rintro log outcome ⟨confirmed, quiet, commentId, checkRunUrl, items, body, rendered, updated⟩
    have shown : ParkReason world log (waitingDetails world.sha256Hex job.plan result) :=
      ⟨⟨commentId, checkRunUrl, items, approvalHash, body, hashed, rendered, updated⟩, quiet⟩
    refine ⟨⟨⟨fun _ _ => confirmed, shown⟩, rfl⟩, ?_⟩
    rintro parked rfl rfl
    exact ⟨waitingDetails world.sha256Hex job.plan result, by simp⟩
  refine Keeps.bind asked ?_
  intro parked
  refine Keeps.bind (Keeps.settled fun log _ parks passed => parks (ensure_eq_ok.mp passed)) ?_
  exact fun _ => Keeps.pure fun _ last => ⟨rfl, last⟩

/-! ### The end of a run -/

theorem Earned.snoc {log : List Call} {result : Json} (earned : Earned world job log result)
    (call : Call) : Earned world job (log ++ [call]) result := by
  cases earned with
  | reconciled kind made => exact .reconciled kind (List.mem_append_left _ made)
  | skippedFeedback kind skipped => exact .skippedFeedback kind skipped
  | skippedStack kind skipped => exact .skippedStack kind skipped
  | skippedCi kind skipped => exact .skippedCi kind skipped
  | applied decided marked => exact .applied (decided.snoc call) (List.mem_append_left _ marked)
  | rejected decided marked => exact .rejected (decided.snoc call) (List.mem_append_left _ marked)
  | diagnosed proposed unpatched => exact .diagnosed (proposed.snoc call) unpatched
  | repaired proposed made => exact .repaired (proposed.snoc call) (List.mem_append_left _ made)
  | rebased kind made => exact .rebased kind (List.mem_append_left _ made)

theorem stable_earned (result : Json) : Stable fun log => Earned world job log result :=
  fun _ call _ earned => earned.snoc call

theorem isWaiting_report (report : Stack.StackReport) : isWaiting (reportValue report) = false := by
  simp [isWaiting, reportValue, get_sortedObject, getField]

theorem isWaiting_success (success : Success) : isWaiting success.toValue = false := by
  cases success with
  | rebased report => exact isWaiting_report report
  | _ => simp [isWaiting, Success.toValue, skippedItemResult, noPatchResult, get_sortedObject,
      getField, PiJobResult.summaryFields]

/-- An earned result does not wait. -/
theorem Earned.finished {log : List Call} {result : Json} (earned : Earned world job log result) :
    isWaiting result = false := by
  cases earned with
  | reconciled => simp [isWaiting, Reconciliation.toValue, get_sortedObject, getField]
  | rebased => exact isWaiting_report _
  | _ => exact isWaiting_success _

theorem finishResult_keeps (result : Json) (handle : Option WorkHandle) : Keeps (Inside world job)
    (fun log => Fresh log ∧ Earned world job log result) (finishResult world job result handle)
      fun _ => Ready fun log => Earned world job log result := by
  cases handle with
  | none => exact Keeps.pure fun _ fresh => Ready.of_fresh fresh
  | some handle =>
      exact finishWork_keeps (stable_earned result) handle fun _ _ earned made => .earned earned made

theorem stable_true : Stable fun _ => True := fun _ _ _ _ => trivial

/-- A failed run needs no more than its lease. -/
theorem finishError_keeps (error : WorkerError) (handle : WorkHandle) : Keeps (Inside world job)
    (fun log => Fresh log ∧ True) (finishWork world handle (errorSummary world job error) false)
      fun _ => Ready fun _ => True :=
  finishWork_keeps stable_true handle fun _ _ _ made => .failed made

/-- A result that waits has parked the job, and another one is earned. -/
structure Concluded (world : World Content) (job : LeasedJob) (result : Json) (log : List Call) :
    Prop where
  finished : isWaiting result = false → Ready (fun log => Earned world job log result) log
  parked : isWaiting result = true → Parked log

theorem concludeResult_keeps {handle : Option WorkHandle} (known : handle = none → job.kind = .reconcile)
    (result : Json) : Keeps (Inside world job) (Ready (Returned world job result))
      (conclude world job handle (.ok result))
      (Concluded world job) := by
  simp only [conclude]
  split
  case isTrue waiting =>
    have rested : ∀ log, Returned world job result log → job.kind ≠ .reconcile ∧ Quiet log := by
      intro log returned
      cases returned with
      | earned earned => exact absurd waiting (by simp [earned.finished])
      | waits _ kind quiet => exact ⟨kind, quiet⟩
    cases handle with
    | none =>
        intro log _ ready
        exact absurd (known rfl) (rested log ready.2).1
    | some handle =>
        refine (park_keeps handle result).imp (fun log ready => (rested log ready.2).2) ?_
        rintro _ log ⟨rfl, parked⟩
        exact ⟨fun finished => absurd waiting (by simp [finished]), fun _ => parked⟩
  case isFalse finished =>
    have earned : ∀ log, Returned world job result log → Earned world job log result := by
      intro log returned
      cases returned with
      | earned earned => exact earned
      | waits waiting => exact absurd waiting finished
    refine Keeps.bind ((ensureLease_keeps (stable_earned result)).imp
      (fun log ready => earned log ready.2) fun _ _ fresh => fresh) ?_
    intro _
    refine Keeps.bind (finishResult_keeps result handle) ?_
    exact fun _ => Keeps.pure fun _ ready => ⟨fun _ => ready, fun waiting => absurd waiting finished⟩

theorem conclude_keeps {handle : Option WorkHandle} (known : handle = none → job.kind = .reconcile)
    (outcome : Except WorkerError Json) : Keeps (Inside world job)
      (fun log => ∀ result, outcome = .ok result → Ready (Returned world job result) log)
      (conclude world job handle outcome)
      (Concluded world job) := by
  cases outcome with
  | ok result =>
      exact (concludeResult_keeps known result).imp (fun _ returned => returned result rfl)
        fun _ _ ready => ready
  | error error =>
      cases handle with
      | none => exact Keeps.settled fun _ _ _ failed => by cases failed
      | some handle =>
          refine Keeps.bind ((ensureLease_keeps stable_true).imp (fun _ _ => trivial)
            fun _ _ fresh => fresh) ?_
          intro _
          refine Keeps.bind (finishError_keeps error handle) ?_
          exact fun _ => Keeps.settled fun _ _ _ failed => by cases failed

theorem executeJob_keeps : Keeps (Inside world job) Quiet (executeJob world job)
    (Concluded world job) := by
  refine Keeps.bind loadContext_keeps ?_
  intro context
  refine Keeps.bind (startWork_keeps (stable_quiet.and (stable_loaded context)) context) ?_
  intro handle
  apply Keeps.assuming
  intro known
  refine Keeps.bind (work_keeps context).attempt ?_
  exact conclude_keeps known

theorem complete_keeps (outcome : Except WorkerError Json) : Keeps (Permitted world job)
    (fun log => ∀ result, outcome = .ok result → isWaiting result = false →
      Ready (fun log => Earned world job log result) log)
    (complete world outcome) fun _ _ => True := by
  cases outcome with
  | ok result =>
      simp only [complete]
      split
      case isTrue => exact Keeps.pure fun _ _ => trivial
      case isFalse waiting =>
        refine Keeps.bind (?_ : Keeps _ _ _ fun _ _ => True) fun _ => Keeps.pure fun _ _ => trivial
        apply Keeps.attempt_call
        intro log ended
        have ready := ended result rfl (by simpa using waiting)
        exact ⟨⟨fun _ _ => ready.1, ready.2⟩, trivial⟩
  | error error =>
      refine Keeps.bind (?_ : Keeps _ _ _ fun _ _ => True) fun _ => Keeps.pure fun _ _ => trivial
      apply Keeps.attempt_call
      intro log _
      exact ⟨⟨fun _ unfailing => (by cases unfailing), trivial⟩, trivial⟩

/-- The run is that of its work, and the completion of its outcome unless the lease was lost. -/
theorem runJob_log (log : List Call) : (runJob world job log).2 =
    if world.leaseLost (executeJob world job log).2 then (executeJob world job log).2
    else (complete world (executeJob world job log).1 (executeJob world job log).2).2 := by
  simp only [runJob, bind, Logged.attempt]
  split <;> rfl

theorem quiet_nil : Quiet [] := by
  intro call member
  cases member

theorem executeJob_inside : Guarded (Inside world job) (executeJob world job []).2 ∧
    ∀ result, (executeJob world job []).1 = .ok result →
      Concluded world job result (executeJob world job []).2 :=
  (executeJob_keeps [] Guarded.nil quiet_nil).2

theorem runJob_guarded : Guarded (Permitted world job) (runJob world job []).2 := by
  obtain ⟨inside, concluded⟩ : _ ∧ ∀ result, (executeJob world job []).1 = .ok result →
    Concluded world job result (executeJob world job []).2 := executeJob_inside
  have permitted := inside.mono fun _ _ call => call.toPermitted
  rw [runJob_log]
  split
  · exact permitted
  · exact (complete_keeps _ _ permitted fun result ran => (concluded result ran).finished).2.1

end Runs

/-- Whatever the answers are, every call of a run follows a lease check and has its reason. -/
theorem run_permitted {Content : Type} (world : World Content) (job : LeasedJob) :
    Guarded (Permitted world job) (runJob world job []).2 := runJob_guarded

/-! ### Changes of branches -/

section Sanctioned

variable {Content : Type} (world : World Content) (job : LeasedJob)

/-- The plan is approved, or the stored policy does not ask for it. -/
def Allowed (log : List Call) : Prop := planIsApproved world.sha256Hex job.plan = true ∨
  ∃ policy, .savePolicy policy (.ok ()) ∈ log ∧ policy.requireApproval = false

/-- One change of a branch at most is asked for, and none against the policy. -/
structure Sanctioned (log : List Call) : Prop where
  once : (log.filter Call.repairs).length ≤ 1
  allowed : ∀ call ∈ log, call.repairs = true → Allowed world job log

variable {world job} {past : List Call} {call : Call}

/-- A change of a branch is the first one. -/
theorem Permitted.quiet (permitted : Permitted world job past call) (repairs : call.repairs = true) :
    Quiet past := by
  have reason := permitted.reason
  cases call with
  | applyFeedback => exact reason.first
  | applyCiRepair => exact reason.first
  | stackRebase => exact reason.first
  | _ => cases repairs

theorem Authorized.allowed {context : Context} (authorized : Authorized world job context)
    (loaded : Loaded past context) : Allowed world job past := by
  cases required : context.policy.requireApproval with
  | true => exact .inl (authorized required)
  | false => exact .inr ⟨context.policy, loaded.policy, required⟩

theorem Permitted.allowed (permitted : Permitted world job past call)
    (repairs : call.repairs = true) : Allowed world job past := by
  have reason := permitted.reason
  cases call with
  | applyFeedback =>
      obtain ⟨context, head, authorized⟩ := reason.head
      exact authorized.allowed head.toLoaded
  | applyCiRepair => exact .inl reason.approved
  | stackRebase =>
      obtain ⟨context, loaded, authorized⟩ := reason.authorized
      exact authorized.allowed loaded
  | _ => cases repairs

theorem Allowed.append (allowed : Allowed world job past) (future : List Call) :
    Allowed world job (past ++ future) := by
  rcases allowed with approved | ⟨policy, saved, unrequired⟩
  · exact .inl approved
  · exact .inr ⟨policy, List.mem_append_left _ saved, unrequired⟩

end Sanctioned

/-- Whatever the answers are, a run asks for one change at most, and for none against the policy. -/
theorem run_sanctioned {Content : Type} (world : World Content) (job : LeasedJob) :
    Sanctioned world job (runJob world job []).2 := by
  have guarded : Guarded (Permitted world job) (runJob world job []).2 :=
    runJob_guarded
  refine ⟨guarded.filter_length fun past call permitted => permitted.quiet, ?_⟩
  intro call member repairs
  obtain ⟨past, future, split, permitted⟩ := guarded.of_mem member
  rw [split]
  exact (permitted.allowed repairs).append _

/-! ### The last call -/

section Ended

variable {Content : Type} (world : World Content)

/-- The call completes the job, or has parked it. -/
def Call.ends : Call → Bool
  | .markWaitingApproval _ (.ok true) => true
  | call => call.closes

/-- The job is completed at most once and last. Unless the lease was lost, the last call completes
or parks it. -/
structure Ended (log : List Call) : Prop where
  once : ∀ past call future, log = past ++ call :: future → call.closes = true → future = []
  last : world.leaseLost log = true ∨ ∃ call, log.getLast? = some call ∧ call.ends = true

variable {world} {job : LeasedJob} {log : List Call}

theorem Call.ends_of_closes {call : Call} (closes : call.closes = true) : call.ends = true := by
  unfold Call.ends
  split
  · rfl
  · exact closes

theorem unclosed_of_inside (inside : Guarded (Inside world job) log) :
    ∀ call ∈ log, call.closes = false := by
  intro call member
  obtain ⟨past, future, split, kept⟩ := inside.of_mem member
  exact kept.unclosed

theorem once_of_unclosed (unclosed : ∀ call ∈ log, call.closes = false) (past : List Call)
    (call : Call) (future : List Call) (split : log = past ++ call :: future)
    (closes : call.closes = true) : future = [] := by
  rw [unclosed call (by simp [split])] at closes
  cases closes

/-- Only the call behind the others can complete the job. -/
theorem once_of_snoc (unclosed : ∀ call ∈ log, call.closes = false) (last : Call)
    (past : List Call) (call : Call) (future : List Call)
    (split : log ++ [last] = past ++ call :: future) (closes : call.closes = true) :
    future = [] := by
  cases future using List.reverseRecOn with
  | nil => rfl
  | append_singleton future other =>
      rw [← List.cons_append, ← List.append_assoc] at split
      have earlier : log = past ++ call :: future := (List.append_inj' split rfl).1
      rw [unclosed call (by simp [earlier])] at closes
      cases closes

/-- A result that waits adds no call, and any other outcome adds the one that completes the job. -/
theorem complete_log (outcome : Except WorkerError Json) (log : List Call) :
    ((complete world outcome log).2 = log ∧ ∃ result, outcome = .ok result ∧ isWaiting result = true) ∨
      ∃ call, (complete world outcome log).2 = log ++ [call] ∧ call.closes = true := by
  cases outcome with
  | ok result =>
      simp only [complete]
      split
      case isTrue waiting => exact .inl ⟨rfl, result, rfl, waiting⟩
      case isFalse => exact .inr ⟨.markSucceeded result (world.markSucceeded result log), rfl, rfl⟩
  | error error =>
      exact .inr ⟨.markFailed (error.text world.hidden)
        (world.markFailed (error.text world.hidden) log), rfl, rfl⟩

end Ended

/-- No run is left open: it completes its job once and last, parks it, or has lost the lease. -/
theorem run_ended {Content : Type} (world : World Content) (job : LeasedJob) :
    Ended world (runJob world job []).2 := by
  obtain ⟨inside, concluded⟩ : _ ∧ ∀ result, (executeJob world job []).1 = .ok result →
    Concluded world job result (executeJob world job []).2 := executeJob_inside
  have unclosed := unclosed_of_inside inside
  rw [runJob_log]
  split
  case isTrue lost => exact ⟨once_of_unclosed unclosed, .inl lost⟩
  case isFalse =>
    rcases complete_log (executeJob world job []).1 (executeJob world job []).2 with
      ⟨same, result, ran, waiting⟩ | ⟨call, added, closes⟩
    · obtain ⟨details, parked⟩ := (concluded result ran).parked waiting
      rw [same]
      exact ⟨once_of_unclosed unclosed, .inr ⟨_, parked, rfl⟩⟩
    · rw [added]
      exact ⟨once_of_snoc unclosed call, .inr ⟨call, by simp, Call.ends_of_closes closes⟩⟩

end PiTools.Executor
