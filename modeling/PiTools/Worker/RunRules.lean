import PiTools.Worker.RunReasons

/-
This file gives rules for the calls of a run between two lease checks, and proves
that the coordinator keeps to them.
-/

namespace PiTools.Executor

open Library

section Rules

variable {Content : Type} {world : World Content} {job : LeasedJob} {facts : List Call → Prop}

/-- The last lease check succeeded, and the facts hold. -/
def Ready (facts : List Call → Prop) (log : List Call) : Prop := Confirmed log ∧ facts log

/-- Every call but a repair keeps the facts. -/
abbrev Stable (facts : List Call → Prop) : Prop := KeptBy (fun call => call.repairs = false) facts

theorem stable_quiet : Stable Quiet := by
  intro log call other quiet found member
  rcases List.mem_append.mp member with earlier | last
  · exact quiet found earlier
  · rwa [List.mem_singleton.mp last]

theorem stable_loaded (context : Context) : Stable fun log => Loaded log context :=
  fun _ _ _ loaded => ⟨List.mem_append_left _ loaded.repository, List.mem_append_left _ loaded.pullRequest,
    List.mem_append_left _ loaded.policy⟩

theorem Ready.kept (stable : Stable facts) : KeptBy Call.Ordinary (Ready facts) := by
  apply KeptBy.and
  · exact fun _ _ ordinary confirmed => confirmed.snoc ordinary.1
  · exact stable.mono fun _ ordinary => ordinary.2.1

theorem Ready.of_fresh {log : List Call} (fresh : Fresh log ∧ facts log) : Ready facts log :=
  ⟨fresh.1.confirmed, fresh.2⟩

section Calls

variable {Failure Other Answer : Type} {wrap : Failure → Other} {entry : Except Failure Answer → Call}
  {answer : List Call → Except Failure Answer}

/-- A call that needs no more than the facts, and its answer. -/
theorem call_keeps (stable : Stable facts) (ordinary : ∀ outcome, (entry outcome).Ordinary)
    (reason : ∀ log outcome, facts log → Reason world job log (entry outcome)) :
    Keeps (Inside world job) (Ready facts) (Logged.call entry answer)
      fun value => Ready fun log => facts log ∧ entry (.ok value) ∈ log := by
  refine (Keeps.ask (Ready.kept stable) ordinary fun log outcome ready => ?_).imp (fun _ ready => ready)
    fun _ _ asked => ⟨asked.1.1, asked.1.2, asked.2⟩
  exact ⟨⟨fun _ _ => ready.1, reason log outcome ready.2⟩, (ordinary outcome).2.2⟩

theorem ask_keeps (stable : Stable facts) (ordinary : ∀ outcome, (entry outcome).Ordinary)
    (reason : ∀ log outcome, facts log → Reason world job log (entry outcome)) :
    Keeps (Inside world job) (Ready facts) (Logged.failingWith wrap (Logged.call entry answer))
      fun value => Ready fun log => facts log ∧ entry (.ok value) ∈ log :=
  .failingWith (call_keeps stable ordinary reason)

/-- The same call where nobody reads its answer. -/
theorem tell_keeps (stable : Stable facts) (ordinary : ∀ outcome, (entry outcome).Ordinary)
    (reason : ∀ log outcome, facts log → Reason world job log (entry outcome)) :
    Steady (Inside world job) (Ready facts) (Logged.failingWith wrap (Logged.call entry answer)) :=
  (ask_keeps stable ordinary reason).imp (fun _ ready => ready) fun _ _ asked => ⟨asked.1, asked.2.1⟩

/-- A call that follows a lease check at once. -/
theorem fresh_keeps (stable : Stable facts) (ordinary : ∀ outcome, (entry outcome).Ordinary)
    (reason : ∀ log outcome, Fresh log → facts log → Reason world job log (entry outcome)) :
    Keeps (Inside world job) (fun log => Fresh log ∧ facts log)
      (Logged.failingWith wrap (Logged.call entry answer))
      fun value => Ready fun log => facts log ∧ entry (.ok value) ∈ log := by
  apply Keeps.failingWith
  apply Keeps.call
  rintro log outcome ⟨fresh, held⟩
  refine ⟨⟨⟨fun _ _ => fresh.confirmed, reason log outcome fresh held⟩, (ordinary outcome).2.2⟩, ?_⟩
  rintro value rfl
  exact ⟨fresh.confirmed.snoc (ordinary _).1, stable log _ (ordinary _).2.1 held,
    List.mem_append_right _ (List.mem_singleton_self _)⟩

/-- A lease check needs nothing. -/
theorem check_keeps (stable : Stable facts) (wrap : String → Other) (lost : Other) :
    Keeps (Inside world job) facts (do
      let held ← Logged.failingWith wrap (Logged.call .assertLease world.assertLease)
      Logged.settled (ensure (held = true) lost)) fun _ log => Fresh log ∧ facts log := by
  have asked : Keeps (Inside world job) facts
      (Logged.failingWith wrap (Logged.call .assertLease world.assertLease))
      fun held log => facts log ∧ (held = true → Fresh log) := by
    apply Keeps.failingWith
    apply Keeps.call
    intro log outcome held
    refine ⟨⟨⟨fun checks _ => (by cases checks), trivial⟩, rfl⟩, ?_⟩
    rintro value rfl
    refine ⟨stable log _ rfl held, ?_⟩
    rintro rfl
    exact fresh_snoc log
  apply Keeps.bind asked
  intro held
  apply Keeps.settled
  intro log _ known passed
  exact ⟨known.2 (ensure_eq_ok.mp passed), known.1⟩

end Calls

theorem ensureLease_keeps (stable : Stable facts) : Keeps (Inside world job) facts (ensureLease world)
    fun _ log => Fresh log ∧ facts log := check_keeps stable _ _

theorem ensureGuard_keeps (stable : Stable facts) : Keeps (Inside world job) (Ready facts)
    (Logged.failingWith WorkerError.workspace (ensureGuard world)) fun _ log => Fresh log ∧ facts log :=
  (Keeps.failingWith (check_keeps stable _ _)).imp (fun _ ready => ready.2) fun _ _ fresh => fresh

/-! ### The coordinator -/

theorem upsertLivingComment_steady (stable : Stable facts) (commentId : Int) (body : List Char) :
    Steady (Inside world job) (Ready facts) (upsertLivingComment world commentId body) :=
  tell_keeps stable (fun _ => ⟨rfl, rfl, rfl⟩) fun _ _ _ => trivial

theorem linkJobCheckRun_steady (stable : Stable facts) (checkRunId : Int) (checkRunUrl : String)
    (items : List PlanItem) : Steady (Inside world job) (Ready facts)
      (linkJobCheckRun world checkRunId checkRunUrl items) :=
  tell_keeps stable (fun _ => ⟨rfl, rfl, rfl⟩) fun _ _ _ => trivial

/-- A comment that shows the hash was updated. -/
def Shows (world : World Content) (approvalHash : Option String) (log : List Call) : Prop :=
  ∃ commentId checkRunUrl items body, planComment world checkRunUrl items approvalHash = .ok body ∧
    .updateIssueComment commentId body (.ok ()) ∈ log

theorem stable_shows (approvalHash : Option String) : Stable (Shows world approvalHash) := by
  rintro log call - ⟨commentId, checkRunUrl, items, body, rendered, updated⟩
  exact ⟨commentId, checkRunUrl, items, body, rendered, List.mem_append_left _ updated⟩

theorem mapError_eq_ok {Failure Other Answer : Type} {wrap : Failure → Other}
    {outcome : Except Failure Answer} {answer : Answer} :
    outcome.mapError wrap = .ok answer ↔ outcome = .ok answer := by
  cases outcome <;> simp [Except.mapError]

theorem updateProgress_keeps (stable : Stable facts) (handle : WorkHandle) (items : List PlanItem)
    (approvalHash : Option String) : Keeps (Inside world job) (Ready facts)
      (updateProgressWithApproval world handle items approvalHash)
      fun _ => Ready fun log => facts log ∧ Shows world approvalHash log := by
  apply Keeps.bind_settled
  intro body rendered
  refine Keeps.bind (ask_keeps stable (fun _ => ⟨rfl, rfl, rfl⟩) fun _ _ _ => trivial) ?_
  intro _
  have shown : Stable fun log => facts log ∧ Shows world approvalHash log :=
    stable.and (stable_shows approvalHash)
  apply (upsertLivingComment_steady shown handle.commentId body).imp _ fun _ _ ready => ready
  rintro log ⟨confirmed, held, updated⟩
  exact ⟨confirmed, held, _, _, _, body, mapError_eq_ok.mp rendered, updated⟩

theorem startNew_steady (stable : Stable facts) (headSha : String) (items : List PlanItem) :
    Steady (Inside world job) (Ready facts) (startNew world headSha items) := by
  refine Keeps.bind (ask_keeps stable (fun _ => ⟨rfl, rfl, rfl⟩) fun _ _ _ => trivial) ?_
  rintro ⟨checkRunId, htmlUrl⟩
  dsimp only
  apply Keeps.bind_settled
  intro checkRunUrl linked
  rw [okOr_eq_ok] at linked
  subst linked
  apply Keeps.bind_settled
  intro body rendered
  have created := stable.and (KeptBy.member (.createCheckRun headSha (.ok (checkRunId, some checkRunUrl))))
  refine Keeps.bind (tell_keeps created (fun _ => ⟨rfl, rfl, rfl⟩) fun _ _ opened =>
    .plan opened.2 (mapError_eq_ok.mp rendered)) ?_
  intro commentId
  refine Keeps.bind (linkJobCheckRun_steady created checkRunId checkRunUrl items) ?_
  intro _
  refine Keeps.bind (upsertLivingComment_steady created commentId body) ?_
  intro _
  exact Keeps.pure fun _ ready => ⟨ready.1, ready.2.1⟩

theorem start_steady (stable : Stable facts) (headSha : String) (items : List PlanItem) :
    Steady (Inside world job) (Ready facts) (start world headSha items) := by
  refine Steady.bind (tell_keeps stable (fun _ => ⟨rfl, rfl, rfl⟩) fun _ _ _ => trivial) ?_
  intro found
  cases found with
  | none => exact startNew_steady stable headSha items
  | some handle =>
      refine Steady.bind (linkJobCheckRun_steady stable _ _ items) ?_
      intro _
      refine Steady.bind ((updateProgress_keeps stable handle items none).imp (fun _ ready => ready)
        fun _ _ ready => ⟨ready.1, ready.2.1⟩) ?_
      exact fun _ => .pure handle

/-- The last comment of a run follows a lease check at once. -/
theorem finish_keeps (stable : Stable facts) (handle : WorkHandle) {summary : FinalSummary}
    {succeeded : Bool} (summed : ∀ log, facts log → Summed world job log summary succeeded) : Keeps (Inside world job) (fun log => Fresh log ∧ facts log)
      (finish world handle summary succeeded) fun _ => Ready facts := by
  apply Keeps.bind_settled
  intro body rendered
  refine Keeps.bind (fresh_keeps stable (fun _ => ⟨rfl, rfl, rfl⟩) fun log _ fresh held =>
    .summary (summed log held) (mapError_eq_ok.mp rendered) fresh) ?_
  intro commentId
  have posted := stable.and (KeptBy.member (.createIssueComment body (.ok commentId)))
  refine Keeps.bind (tell_keeps posted (fun _ => ⟨rfl, rfl, rfl⟩) fun _ _ _ => trivial) ?_
  intro _
  refine Keeps.imp (tell_keeps posted (fun _ => ⟨rfl, rfl, rfl⟩) ?_) (fun _ ready => ready) ?_
  · intro log _ known
    exact ⟨summary, commentId, summed log known.1, mapError_eq_ok.mp rendered, known.2⟩
  · exact fun _ _ ready => ⟨ready.1, ready.2.1⟩

theorem finishWork_keeps (stable : Stable facts) (handle : WorkHandle)
    {summary : Except ContractError FinalSummary} {succeeded : Bool}
    (summed : ∀ log made, facts log → summary = .ok made → Summed world job log made succeeded) :
    Keeps (Inside world job) (fun log => Fresh log ∧ facts log)
      (finishWork world handle summary succeeded) fun _ => Ready facts := by
  apply Keeps.bind_settled
  intro made built
  exact (finish_keeps stable handle fun log held =>
    summed log made held (mapError_eq_ok.mp built)).failingWith

end Rules

end PiTools.Executor
