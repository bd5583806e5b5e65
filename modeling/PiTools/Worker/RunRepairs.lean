import PiTools.Worker.RunRules

/-
This file proves what a run has done before it repairs a branch, and what it
tells others about the repair.
-/

namespace PiTools.Executor

open Library
open Stack (WorkspaceError)
open Reconcile (FeedbackRecord)

section Repairs

variable {Content : Type} {world : World Content} {job : LeasedJob} {facts : List Call → Prop}

/-! ### The repair of feedback -/

theorem checkHead_ok {context : Context} {head : GitHubHead} (checked : checkHead context head = .ok ()) :
    head = ⟨some context.fullName, context.pullRequest.headSha, some context.pullRequest.headBranch⟩ := by
  simp only [checkHead, bind_eq_ok, okOr_eq_ok, ensure_eq_ok] at checked
  obtain ⟨repository, known, _, same, sha, reference⟩ := checked
  cases head
  simp_all

/-- GitHub has the stored head in the repository itself. -/
def Current (log : List Call) (context : Context) : Prop :=
  .getPullRequest (.ok ⟨some context.fullName, context.pullRequest.headSha,
    some context.pullRequest.headBranch⟩) ∈ log

theorem stable_current (context : Context) : Stable fun log => Current log context := KeptBy.member _

theorem ensureHead_keeps (stable : Stable facts) (context : Context) :
    Keeps (Inside world job) (Ready facts) (ensureHead world context)
      fun _ => Ready fun log => facts log ∧ Current log context := by
  refine Keeps.bind (ask_keeps stable (fun _ => ⟨rfl, rfl, rfl⟩) fun _ _ _ => trivial) ?_
  intro head
  apply Keeps.settled
  rintro log _ ⟨confirmed, held, member⟩ checked
  rw [checkHead_ok checked] at member
  exact ⟨confirmed, held, member⟩

theorem cloneBranch_keeps (stable : Stable facts) (context : Context) :
    Keeps (Inside world job) (Ready facts) (cloneBranch world context)
      fun _ => Ready fun log => facts log ∧
        .cloneBranch context.pullRequest.headBranch context.pullRequest.headSha (.ok ()) ∈ log :=
  ask_keeps stable (fun _ => ⟨rfl, rfl, rfl⟩) fun _ _ _ => trivial

/-- The target belongs to the id of the feedback. -/
def Aimed (log : List Call) (feedback : FeedbackRecord) : FeedbackTarget → Prop
  | .reviewComment commentId threadId =>
      parseFeedbackCommentTarget feedback.id = .ok (.reviewComment commentId) ∧
        .reviewThreadId commentId (.ok (some threadId)) ∈ log
  | .pullRequestConversation => ∃ commentId,
      parseFeedbackCommentTarget feedback.id = .ok (.pullRequestConversation commentId)

theorem Aimed.snoc {log : List Call} {feedback : FeedbackRecord} {target : FeedbackTarget}
    (aimed : Aimed log feedback target) (call : Call) : Aimed (log ++ [call]) feedback target := by
  cases target with
  | reviewComment => exact ⟨aimed.1, List.mem_append_left _ aimed.2⟩
  | pullRequestConversation => exact aimed

theorem feedbackTarget_keeps (stable : Stable facts) (feedback : FeedbackRecord) :
    Keeps (Inside world job) (Ready facts) (feedbackTarget world feedback)
      fun target => Ready fun log => facts log ∧ Aimed log feedback target := by
  apply Keeps.bind_settled
  intro found parsed
  rw [mapError_eq_ok] at parsed
  cases found with
  | reviewComment commentId =>
      refine Keeps.bind (ask_keeps stable (fun _ => ⟨rfl, rfl, rfl⟩) fun _ _ _ => trivial) ?_
      intro thread
      apply Keeps.bind_settled
      intro threadId present
      rw [okOr_eq_ok] at present
      subst present
      exact Keeps.pure fun _ ready => ⟨ready.1, ready.2.1, parsed, ready.2.2⟩
  | pullRequestConversation commentId =>
      exact Keeps.pure fun _ ready => ⟨ready.1, ready.2, commentId, parsed⟩

/-- A deterministic rejection has pushed nothing, and a success has. -/
theorem applyFeedback_pushed {context : Context} {checkout : Checkout Content} {feedback : FeedbackRecord}
    {published : Except WorkspaceError (List Char × Workspace.Publication Content)}
    (same : published = Workspace.feedbackPublication checkout.world checkout.clone
      context.policy.automationActors (repairInput feedback) context.pullRequest.headBranch
      context.pullRequest.headSha context.policy.validationCommands)
    {outcome : Except WorkspaceError Workspace.RepairCommit}
    (applied : outcome = Workspace.applyFeedback checkout.world checkout.clone
      context.policy.automationActors (repairInput feedback) context.pullRequest.headBranch
      context.pullRequest.headSha context.policy.validationCommands) :
    (∀ commit, outcome = .ok commit → checkout.pushes (published.map Prod.snd) = true) ∧
      ∀ error, outcome = .error error → Workspace.isDeterministicFeedbackRejection error = true →
        checkout.pushes (published.map Prod.snd) = false := by
  rw [Workspace.applyFeedback, ← same] at applied
  subst applied
  cases published with
  | error error =>
      constructor
      · intro commit success
        cases success
      · exact fun _ _ _ => rfl
  | ok publication =>
      simp only [bind, Except.bind, Except.map, Checkout.pushes]
      cases pushed : checkout.world.push publication.2.tree with
      | error error =>
          constructor
          · intro commit success
            cases success
          · exact fun _ _ _ => rfl
      | ok =>
          constructor
          · exact fun _ _ => rfl
          · intro error failed final
            cases parsed : checkout.world.revParse with
            | ok text =>
                simp [parsed, pure, Except.pure] at failed
            | error reason =>
                simp only [parsed, Except.error.injEq] at failed
                subst failed
                rw [Workspace.not_rejection (checkout.revParse reason parsed)] at final
                cases final

/-- Replies about the feedback go to the target, and the reply is decided. -/
structure Settled (job : LeasedJob) (feedback : FeedbackRecord) (target : FeedbackTarget)
    (reply : FeedbackReply) (log : List Call) : Prop where
  next : job.feedback = some feedback
  aimed : Aimed log feedback target
  decided : Decided log feedback reply

theorem stable_aimed (feedback : FeedbackRecord) (target : FeedbackTarget) :
    Stable fun log => Aimed log feedback target := fun _ call _ aimed => aimed.snoc call

theorem Decided.snoc {log : List Call} {feedback : FeedbackRecord} {reply : FeedbackReply}
    (decided : Decided log feedback reply) (call : Call) : Decided (log ++ [call]) feedback reply := by
  cases decided with
  | applied made => exact .applied (List.mem_append_left _ made)
  | rejected made final => exact .rejected (List.mem_append_left _ made) final

section Outcomes

variable {feedback : FeedbackRecord} {target : FeedbackTarget} {reply : FeedbackReply}

theorem stable_settled : Stable (Settled job feedback target reply) :=
  fun _ call _ settled => ⟨settled.next, settled.aimed.snoc call, settled.decided.snoc call⟩

/-- The text is at the target. -/
def Posted (body : List Char) (log : List Call) : FeedbackTarget → Prop
  | .reviewComment commentId _ => .replyToReviewComment commentId body (.ok ()) ∈ log
  | .pullRequestConversation => ∃ commentId, .createIssueComment body (.ok commentId) ∈ log

theorem stable_posted (body : List Char) (target : FeedbackTarget) :
    Stable fun log => Posted body log target := by
  intro log call _ posted
  cases target with
  | reviewComment => exact List.mem_append_left _ posted
  | pullRequestConversation =>
      obtain ⟨commentId, posted⟩ := posted
      exact ⟨commentId, List.mem_append_left _ posted⟩

theorem postReply_keeps : Keeps (Inside world job)
    (fun log => Fresh log ∧ Settled job feedback target reply log)
    (postReply world (renderFeedbackReply reply) target) fun _ => Ready fun log =>
      Settled job feedback target reply log ∧ Posted (renderFeedbackReply reply) log target := by
  cases target with
  | reviewComment commentId threadId =>
      refine fresh_keeps stable_settled (fun _ => ⟨rfl, rfl, rfl⟩) ?_
      intro log _ fresh settled
      exact ⟨⟨feedback, reply, settled.next, settled.aimed.1, settled.decided, rfl⟩, fresh⟩
  | pullRequestConversation =>
      refine Keeps.bind (fresh_keeps stable_settled (fun _ => ⟨rfl, rfl, rfl⟩) ?_) ?_
      · intro log _ fresh settled
        obtain ⟨_, parsed⟩ := settled.aimed
        exact .outcome settled.next parsed settled.decided rfl fresh
      · intro posted
        exact Keeps.pure fun _ ready => ⟨ready.1, ready.2.1, posted, ready.2.2⟩

theorem resolveThread_keeps : Keeps (Inside world job) (fun log => Fresh log ∧
      Settled job feedback target reply log ∧ Posted (renderFeedbackReply reply) log target)
    (resolveThread world target) fun _ => Ready fun log =>
      Settled job feedback target reply log ∧ Told log feedback (renderFeedbackReply reply) := by
  have posted : Stable fun log => Settled job feedback target reply log ∧
      Posted (renderFeedbackReply reply) log target := stable_settled.and (stable_posted _ target)
  cases target with
  | reviewComment commentId threadId =>
      refine Keeps.imp (fresh_keeps posted (fun _ => ⟨rfl, rfl, rfl⟩) ?_) (fun _ known => known) ?_
      · intro log _ fresh known
        exact ⟨⟨commentId, _, known.1.aimed.2, known.2⟩, fresh⟩
      · rintro _ log ⟨confirmed, ⟨settled, replied⟩, resolved⟩
        exact ⟨confirmed, settled, .thread settled.aimed.1 settled.aimed.2 replied resolved⟩
  | pullRequestConversation =>
      apply Keeps.pure
      rintro log ⟨fresh, settled, _, replied⟩
      obtain ⟨_, parsed⟩ := settled.aimed
      exact ⟨fresh.confirmed, settled, .conversation parsed replied⟩

theorem publishFeedbackOutcome_keeps : Keeps (Inside world job)
    (Ready (Settled job feedback target reply))
    (publishFeedbackOutcome world target (renderFeedbackReply reply)) fun _ => Ready fun log =>
      Settled job feedback target reply log ∧ Told log feedback (renderFeedbackReply reply) := by
  refine Keeps.bind (ensureGuard_keeps stable_settled) ?_
  intro _
  refine Keeps.bind postReply_keeps ?_
  intro _
  refine Keeps.bind (ensureGuard_keeps (stable_settled.and (stable_posted _ target))) ?_
  intro _
  exact resolveThread_keeps

theorem stable_told (body : List Char) : Stable fun log => Told log feedback body := by
  intro log call _ told
  cases told with
  | thread parsed found replied resolved =>
      exact .thread parsed (List.mem_append_left _ found) (List.mem_append_left _ replied)
        (List.mem_append_left _ resolved)
  | conversation parsed posted => exact .conversation parsed (List.mem_append_left _ posted)

variable (feedback) in
/-- The row of the feedback changes after the reply. -/
theorem publishMark_keeps {entry : Except String Unit → Call} {answer : List Call → Except String Unit}
    {result : Json} (ordinary : ∀ outcome, (entry outcome).Ordinary)
    (reason : ∀ log outcome, Settled job feedback target reply log →
      Told log feedback (renderFeedbackReply reply) → Reason world job log (entry outcome))
    (earned : ∀ log, Settled job feedback target reply log → entry (.ok ()) ∈ log →
      Earned world job log result) :
    Keeps (Inside world job) (Ready (Settled job feedback target reply)) (do
      publishFeedbackOutcome world target (renderFeedbackReply reply)
      Logged.failingWith .repository (Logged.call entry answer)
      pure result) fun result => Ready fun log => Earned world job log result := by
  refine Keeps.bind publishFeedbackOutcome_keeps ?_
  intro _
  refine Keeps.bind (ask_keeps (stable_settled.and (stable_told _)) ordinary
    fun log outcome known => reason log outcome known.1 known.2) ?_
  intro _
  exact Keeps.pure fun _ ready => ⟨ready.1, earned _ ready.2.1.1 ready.2.2⟩

/-- What the workspace did with the feedback. -/
def Applied (feedback : FeedbackRecord) (log : List Call) :
    Except WorkspaceError Workspace.RepairCommit → Prop
  | .ok outcome => .applyFeedback feedback true (.ok outcome) ∈ log
  | .error error => Workspace.isDeterministicFeedbackRejection error = true →
      .applyFeedback feedback false (.error error) ∈ log

theorem applied_snoc {log : List Call} {pushed : Bool}
    {outcome : Except WorkspaceError Workspace.RepairCommit}
    (succeeded : ∀ commit, outcome = .ok commit → pushed = true)
    (rejected : ∀ error, outcome = .error error →
      Workspace.isDeterministicFeedbackRejection error = true → pushed = false) :
    Applied feedback (log ++ [.applyFeedback feedback pushed outcome]) outcome := by
  cases outcome with
  | ok commit =>
      rw [succeeded commit rfl]
      exact List.mem_append_right _ (List.mem_singleton_self _)
  | error error =>
      intro final
      rw [rejected error rfl final]
      exact List.mem_append_right _ (List.mem_singleton_self _)

theorem settleFeedback_keeps (next : job.feedback = some feedback)
    (outcome : Except WorkspaceError Workspace.RepairCommit) : Keeps (Inside world job)
      (Ready fun log => Aimed log feedback target ∧ Applied feedback log outcome)
      (settleFeedback world feedback target outcome)
      fun result => Ready fun log => Earned world job log result := by
  cases outcome with
  | ok outcome =>
      refine Keeps.imp (publishMark_keeps feedback (fun _ => ⟨rfl, rfl, rfl⟩) ?_
        fun _ settled marked => .applied settled.decided marked) ?_ fun _ _ ready => ready
      · exact fun log _ settled told => ⟨feedback, _, next, rfl, ⟨_, _, _, rfl⟩, settled.decided, told⟩
      · exact fun log ready => ⟨ready.1, next, ready.2.1, .applied ready.2.2⟩
  | error error =>
      simp only [settleFeedback]
      split
      case isFalse => exact Keeps.settled fun _ _ _ failed => by cases failed
      case isTrue final =>
        refine Keeps.imp (publishMark_keeps feedback (fun _ => ⟨rfl, rfl, rfl⟩) ?_
          fun _ settled marked => .rejected settled.decided marked) ?_ fun _ _ ready => ready
        · exact fun log _ settled told => ⟨feedback, _, next, rfl, ⟨_, rfl⟩, settled.decided, told⟩
        · exact fun log ready => ⟨ready.1, next, ready.2.1, .rejected (ready.2.2 final) final⟩

end Outcomes

/-- The run holds what a repair needs before it changes the branch. -/
theorem applyFeedback_keeps {context : Context} {feedback : FeedbackRecord} (target : FeedbackTarget)
    (checkout : Checkout Content) (kind : job.kind = .feedbackRepair)
    (next : job.feedback = some feedback) (authorized : Authorized world job context) :
    Keeps (Inside world job)
      (fun log => Fresh log ∧ (Quiet log ∧ AtHead log context) ∧ Aimed log feedback target)
      (Logged.attempt (applyFeedback context checkout feedback) : Program WorkerError _)
      fun outcome => Ready fun log => Aimed log feedback target ∧ Applied feedback log outcome := by
  apply Keeps.attempt_call
  rintro log ⟨fresh, ⟨quiet, head⟩, aimed⟩
  refine ⟨⟨⟨fun _ _ => fresh.confirmed, kind, next, ⟨context, head, authorized⟩, quiet, fresh⟩, rfl⟩, ?_⟩
  refine ⟨fresh.confirmed.snoc rfl, aimed.snoc _, ?_⟩
  exact applied_snoc (applyFeedback_pushed rfl rfl).1 (applyFeedback_pushed rfl rfl).2

theorem repairFeedback_keeps {context : Context} {feedback : FeedbackRecord}
    (kind : job.kind = .feedbackRepair) (next : job.feedback = some feedback)
    (authorized : Authorized world job context) : Keeps (Inside world job)
      (Ready fun log => Quiet log ∧ Loaded log context) (repairFeedback world context feedback)
      fun result => Ready fun log => Earned world job log result := by
  have known := stable_quiet.and (stable_loaded context)
  refine Keeps.bind (ensureHead_keeps known context) ?_
  intro _
  have current := known.and (stable_current context)
  refine Keeps.bind (feedbackTarget_keeps current feedback) ?_
  intro target
  refine Keeps.bind (cloneBranch_keeps (current.and (stable_aimed feedback target)) context) ?_
  intro checkout
  refine Keeps.bind (ensureGuard_keeps
    ((current.and (stable_aimed feedback target)).and (KeptBy.member _))) ?_
  intro _
  refine Keeps.bind ((applyFeedback_keeps target checkout kind next authorized).imp ?_
    fun _ _ ready => ready) ?_
  · rintro log ⟨fresh, ⟨⟨⟨quiet, loaded⟩, head⟩, aimed⟩, cloned⟩
    exact ⟨fresh, ⟨quiet, loaded, head, cloned⟩, aimed⟩
  · exact settleFeedback_keeps next

theorem feedbackRepair_keeps {context : Context} (kind : job.kind = .feedbackRepair)
    (authorized : unskippedFeedback job.plan ≠ none → Authorized world job context) :
    Keeps (Inside world job) (Ready fun log => Quiet log ∧ Loaded log context)
      (feedbackRepair world context job.plan)
      fun result => Ready fun log => Earned world job log result := by
  rw [feedbackRepair]
  cases found : unskippedFeedback job.plan with
  | none => exact Keeps.pure fun _ ready => ⟨ready.1, .skippedFeedback kind found⟩
  | some value =>
      apply Keeps.bind_settled
      intro feedback decoded
      rw [okOr_eq_ok] at decoded
      have next : job.feedback = some feedback := by
        rw [LeasedJob.feedback, found]
        exact decoded
      exact repairFeedback_keeps kind next (authorized (by simp [found]))

/-! ### The repair of CI -/

theorem snapshotFiles_steady (stable : Stable facts) (bytes : Nat) (paths : List String) :
    Steady (Inside world job) (Ready facts) (snapshotFiles world bytes paths) := by
  induction paths generalizing bytes with
  | nil => exact Steady.pure []
  | cons path rest ih =>
      refine Keeps.bind (ensureGuard_keeps stable) ?_
      intro _
      refine Keeps.bind (fresh_keeps stable (fun _ => ⟨rfl, rfl, rfl⟩) fun _ _ _ _ => trivial) ?_
      intro found
      have later : ∀ bytes, Keeps (Inside world job) (Ready fun log => facts log ∧
          .getRepositoryFile path (.ok found) ∈ log) (snapshotFiles world bytes rest)
          fun _ => Ready facts := by
        intro bytes
        exact (ih bytes).imp (fun _ ready => ⟨ready.1, ready.2.1⟩) fun _ _ ready => ready
      cases found with
      | none => exact later bytes
      | some content =>
          dsimp only
          split
          · exact Keeps.pure fun _ ready => ⟨ready.1, ready.2.1⟩
          · refine Keeps.bind (later _) ?_
            exact fun files => Keeps.pure fun _ ready => ready

theorem piDiagnosis_keeps (stable : Stable facts) (context : Context)
    (absent : job.plan.get "pi_result" = none) : Keeps (Inside world job) (Ready facts)
      (piDiagnosis world context job)
      fun result => Ready fun log => facts log ∧ Proposed world job log result := by
  refine Keeps.bind (Steady.settled _) ?_
  intro _
  refine Keeps.bind (call_keeps stable (fun _ => ⟨rfl, rfl, rfl⟩) fun _ _ _ => trivial) ?_
  intro evidence
  have asked := stable.and (KeptBy.member (.ciFailureEvidence (.ok evidence)))
  refine Keeps.bind (snapshotFiles_steady asked 0 _) ?_
  intro files
  refine Keeps.bind (Keeps.reading world.nonce) ?_
  intro nonce
  refine Keeps.imp (ask_keeps asked (fun _ => ⟨rfl, rfl, rfl⟩) fun _ _ _ => trivial)
    (fun _ ready => ready) ?_
  exact fun _ _ ready => ⟨ready.1, ready.2.1.1, .returned absent ready.2.2⟩

theorem diagnosis_keeps (stable : Stable facts) (context : Context) :
    Keeps (Inside world job) (Ready facts) (diagnosis world context job)
      fun result => Ready fun log => facts log ∧ Proposed world job log result := by
  rw [diagnosis]
  split
  case h_1 value found =>
    apply Keeps.settled
    rintro log result ⟨confirmed, held⟩ decoded
    exact ⟨confirmed, held, .stored found (mapError_eq_ok.mp decoded)⟩
  case h_2 absent => exact piDiagnosis_keeps stable context absent

theorem Proposed.snoc {log : List Call} {result : PiJobResult} (proposed : Proposed world job log result)
    (call : Call) : Proposed world job (log ++ [call]) result := by
  cases proposed with
  | stored found decoded => exact .stored found decoded
  | returned absent answered => exact .returned absent (List.mem_append_left _ answered)

theorem stable_proposed (result : PiJobResult) : Stable fun log => Proposed world job log result :=
  fun _ call _ proposed => proposed.snoc call

/-- The patches may be applied as soon as the branch is known. -/
structure Wanted (job : LeasedJob) (sha256Hex : List Char → String) (result : PiJobResult) : Prop where
  kind : job.kind = .ciRepair
  wanted : planItemIsSkipped job.plan "ci_repair" = false
  approved : planIsApproved sha256Hex job.plan = true
  marked : result.requiresApproval = true

theorem applyCiRepair_pushed {context : Context} {checkout : Checkout Content} {patches : List CiPatch}
    {outcome : Workspace.CiRepairCommit}
    (applied : Workspace.applyCiRepair checkout.world checkout.clone patches
      context.policy.repairAllowedPaths context.pullRequest.headBranch context.pullRequest.headSha
      context.policy.validationCommands = .ok outcome) :
    checkout.pushes (Workspace.ciPublication checkout.world checkout.clone patches
      context.policy.repairAllowedPaths context.pullRequest.headBranch context.pullRequest.headSha
      context.policy.validationCommands) = true := by
  rw [Workspace.applyCiRepair, bind_eq_ok] at applied
  obtain ⟨publication, published, applied⟩ := applied
  rw [bind_eq_ok] at applied
  obtain ⟨_, pushed, _⟩ := applied
  simp only [Checkout.pushes, published, pushed]
  rfl

theorem applyCiRepair_keeps (context : Context) {result : PiJobResult} (checkout : Checkout Content)
    (wanted : Wanted job world.sha256Hex result) : Keeps (Inside world job)
      (fun log => Fresh log ∧ (Quiet log ∧ AtHead log context) ∧ Proposed world job log result)
      (Logged.failingWith WorkerError.workspace
        (applyCiRepair context checkout result.proposedPatches))
      fun outcome => Ready fun log => Earned world job log
        (Success.repaired outcome.paths outcome.commit result).toValue := by
  apply Keeps.failingWith
  apply Keeps.answered_call
  rintro log ⟨fresh, ⟨quiet, head⟩, proposed⟩
  refine ⟨⟨⟨fun _ _ => fresh.confirmed, ?_⟩, rfl⟩, fun outcome applied => ⟨fresh.confirmed.snoc rfl, ?_⟩⟩
  · exact ⟨wanted.kind, wanted.wanted, wanted.approved, ⟨result, proposed, rfl, wanted.marked⟩,
      ⟨context, head⟩, quiet, fresh⟩
  · refine .repaired (proposed.snoc _) (List.mem_append_right _ ?_)
    rw [applied, applyCiRepair_pushed applied]
    exact List.mem_singleton_self _

theorem repairCi_keeps {context : Context} {result : PiJobResult}
    (wanted : Wanted job world.sha256Hex result) : Keeps (Inside world job)
      (Ready fun log => (Quiet log ∧ Loaded log context) ∧ Proposed world job log result)
      (repairCi world context result) fun result => Ready fun log => Earned world job log result := by
  have known : Stable fun log => (Quiet log ∧ Loaded log context) ∧ Proposed world job log result :=
    (stable_quiet.and (stable_loaded context)).and (stable_proposed result)
  refine Keeps.bind (ensureHead_keeps known context) ?_
  intro _
  have current := known.and (stable_current context)
  refine Keeps.bind (cloneBranch_keeps current context) ?_
  intro checkout
  refine Keeps.bind (ensureGuard_keeps (current.and (KeptBy.member _))) ?_
  intro _
  refine Keeps.bind ((applyCiRepair_keeps context checkout wanted).imp ?_
    fun _ _ ready => ready) ?_
  · rintro log ⟨fresh, ⟨⟨⟨quiet, loaded⟩, proposed⟩, head⟩, cloned⟩
    exact ⟨fresh, ⟨quiet, loaded, head, cloned⟩, proposed⟩
  · exact fun outcome => Keeps.pure fun _ ready => ready

/-- The result is earned, or a repair that left the branches alone waits with it. -/
inductive Returned (world : World Content) (job : LeasedJob) (result : Json) (log : List Call) : Prop
  | earned (earned : Earned world job log result)
  | waits (waiting : isWaiting result = true) (kind : job.kind ≠ .reconcile) (quiet : Quiet log)

theorem isWaiting_waitingForApproval (summary blocker : String) :
    isWaiting (waitingForApproval summary blocker) = true := by
  simp [isWaiting, waitingForApproval, get_sortedObject, getField, Json.asBool]

theorem isWaiting_ciWaitingResult (result : PiJobResult) : isWaiting (ciWaitingResult result) = true := by
  simp [isWaiting, ciWaitingResult, get_sortedObject, getField, PiJobResult.summaryFields, Json.asBool]

theorem ciRepair_keeps {context : Context} (kind : job.kind = .ciRepair)
    (unskipped : planItemIsSkipped job.plan "ci_repair" = false) : Keeps (Inside world job)
      (Ready fun log => Quiet log ∧ Loaded log context) (ciRepair world context job)
      fun result => Ready (Returned world job result) := by
  refine Keeps.bind (diagnosis_keeps (stable_quiet.and (stable_loaded context)) context) ?_
  intro result
  split
  next unpatched => exact Keeps.pure fun _ ready => ⟨ready.1, .earned (.diagnosed ready.2.2 unpatched)⟩
  next =>
    apply Keeps.bind_settled
    intro admission admitted
    rw [mapError_eq_ok] at admitted
    cases admission with
    | noMutation => exact Keeps.settled fun _ _ _ failed => by cases failed
    | waitingApproval => exact Keeps.pure fun _ ready => ⟨ready.1,
        .waits (isWaiting_ciWaitingResult result) (by simp [kind]) ready.2.1.1⟩
    | admitted =>
        have wanted : Wanted job world.sha256Hex result := by
          simp only [admitCiMutation] at admitted
          split at admitted
          · cases admitted
          split at admitted
          · cases admitted
          split at admitted
          · cases admitted
          · exact ⟨kind, unskipped, by simp_all, by simp_all⟩
        exact (repairCi_keeps wanted).imp (fun _ ready => ready)
          fun _ _ ready => ⟨ready.1, .earned ready.2⟩

end Repairs

end PiTools.Executor
