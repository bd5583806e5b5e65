import PiTools.Library.Json
import PiTools.Stack.Chain
import PiTools.Stack.Rebase

/-
This file defines the execution of a stack plan and shows in which order it
rebases the branches and moves the bases.
-/

namespace PiTools.Stack

open Library

/-! ### Plans -/

def debugNumbers (numbers : List Int) : String :=
  "[" ++ ", ".intercalate (numbers.map toString) ++ "]"

def StackError.text : StackError → String
  | .emptyStack => "a stack must contain at least one pull request"
  | .duplicatePullRequest number => "pull request " ++ toString number ++ " appears more than once"
  | .missingParent pullRequest parent =>
      "pull request " ++ toString pullRequest ++ " declares missing parent " ++ toString parent
  | .ambiguousParents pullRequest candidates =>
      "pull request " ++ toString pullRequest ++ " has ambiguous parents " ++ debugNumbers candidates
  | .conflictingParent pullRequest explicitParent inferredParent =>
      "pull request " ++ toString pullRequest ++ " declares parent " ++ toString explicitParent ++
        " but its base implies " ++ toString inferredParent
  | .cycleDetected cycle => "stack contains a cycle through pull requests " ++ debugNumbers cycle
  | .ambiguousOrder pullRequests =>
      "stack order is ambiguous across pull requests " ++ debugNumbers pullRequests

/-- The outcome of the planner, whose loops all end. -/
def planStack (pullRequests : List StackPullRequest) : Except StackError StackPlan :=
  (plan pullRequests).run.get (Option.isSome_iff_ne_none.mpr (plan_ends pullRequests))

theorem planStack_eq_ok {pullRequests : List StackPullRequest} {result : StackPlan} :
    planStack pullRequests = .ok result ↔ (plan pullRequests).run = some (.ok result) := by
  rw [planStack, Option.eq_some_iff_get_eq]
  exact ⟨fun same => ⟨_, same⟩, fun ⟨_, same⟩ => same⟩

/-! ### Execution -/

inductive WorkerError
  | mutationAdmissionRequired (reason : String)
  | planSerialization (reason : String)
  | github (reason : String)
  | workspace (reason : WorkspaceError)
  deriving DecidableEq, Repr

structure RebasePolicy where
  allowBotForcePush : Bool
  botOwnedBranches : List String
  validationCommands : List ValidationCommand

/-- One pull request of the stack is rebased or blocks the stack. -/
inductive RebaseStep
  | changed (change : String)
  | blocked (blocker : String)

/-- The changes and the blockers of the loop over the stack. -/
structure StackProgress where
  changes : List String
  blockers : List String

structure StackReport where
  completed : Bool
  changes : List String
  tests : List String
  remainingBlockers : List String
  mergeOrder : List Int
  requiredBaseUpdates : List BaseUpdate

def StackPlan.report (stackPlan : StackPlan) (progress : StackProgress) (updates : List String) :
    StackReport where
  completed := progress.blockers = []
  changes := "computed a deterministic base-most to tip-most stack order" ::
    progress.changes ++ updates
  tests := ["GitHub confirmed stack bases; branch rebases used exact remote-head leases"]
  remainingBlockers := progress.blockers
  mergeOrder := stackPlan.mergeOrder
  requiredBaseUpdates := stackPlan.requiredBaseUpdates

def named (number : Int) : String := "pull request " ++ toString number

def isClosed (current : GitHubPullRequest) : Bool :=
  current.state ≠ some "open" || current.merged = some true

/-- An update is pending when the base is still the old one. -/
def pendingUpdate (update : BaseUpdate) (current : GitHubPullRequest) : Except WorkerError Bool :=
  if isClosed current then
    .error (.mutationAdmissionRequired (named update.pullRequest ++ " is no longer open"))
  else
    match current.baseReference with
    | some base =>
        if base = update.fromBranch then .ok true
        else if base = update.toBranch then .ok false
        else .error (.mutationAdmissionRequired (named update.pullRequest ++ " base changed from " ++
          update.fromBranch ++ " to " ++ base))
    | none => .error (.mutationAdmissionRequired
        (named update.pullRequest ++ " base branch is unavailable"))

/-- The branch that the pull request is rebased onto. -/
def targetBranch (numbered : Entries Int StackPullRequest) (pullRequest : StackPullRequest)
    (parentNumber : Option Int) : Except WorkerError String :=
  match parentNumber with
  | none => .ok pullRequest.baseBranch
  | some parent => (okOr (numbered.lookup parent) (.mutationAdmissionRequired
      ("stack plan references missing parent pull request " ++ toString parent))).map
        StackPullRequest.headBranch

/-- The head branch of the pull request, or why the stack stops here. -/
def checkCurrent (repository : RepositoryContext) (stackPlan : StackPlan) (number : Int)
    (pullRequest : StackPullRequest) (target : String) (current : GitHubPullRequest) :
    Except WorkerError (Except String String) :=
  if isClosed current then .ok (.error (named number ++ " is no longer open"))
  else if current.head.repository ≠ some repository.fullName then
    .ok (.error (named number ++ " is a fork head; branch-history writes are disabled"))
  else
    match current.head.reference with
    | none => .error (.mutationAdmissionRequired (named number ++ " head branch is unavailable"))
    | some branch =>
        if branch ≠ pullRequest.headBranch then
          .ok (.error (named number ++ " head branch changed from " ++ pullRequest.headBranch ++
            " to " ++ branch))
        else
          match current.baseReference with
          | none => .error (.mutationAdmissionRequired
              (named number ++ " base branch is unavailable"))
          | some currentBase =>
              let pending := stackPlan.requiredBaseUpdates.any fun update =>
                update.pullRequest = number && update.fromBranch = currentBase &&
                  update.toBranch = target
              if currentBase ≠ target ∧ pending = false then
                .ok (.error (named number ++ " base is " ++ currentBase ++ ", expected " ++ target))
              else .ok (.ok branch)

/-- What the loop makes of the outcome of a rebase. -/
def rebaseStep (branch target : String) :
    Except WorkspaceError RebaseCommit → Except WorkerError RebaseStep
  | .ok outcome =>
      if outcome.before = outcome.after then
        .ok (.changed ("verified " ++ branch ++ " is already based on " ++ target))
      else .ok (.changed ("rebased " ++ branch ++ " onto " ++ outcome.targetBranch ++ " and pushed " ++
        if outcome.forcePushed then "with force-with-lease" else "without history rewrite"))
  | .error (.rebaseRequiresForcePush branch target) =>
      .ok (.blocked ("rebase of " ++ branch ++ " onto " ++ target ++
        " requires an explicitly authorized bot-owned branch rewrite"))
  | .error reason => .error (.workspace reason)

section Execution

variable (world : StackWorld) (repository : RepositoryContext) (policy : RebasePolicy)

/-- The lease is asserted and the pull request is read. -/
def readCurrent (number : Int) : Logged StackEntry WorkerError GitHubPullRequest := do
  Logged.failingWith .workspace (ensureLease world)
  Logged.failingWith .github (Logged.call (.read number) (world.getPullRequest number))

/-- The first loop finds the updates that are still pending. -/
def verifyUpdates : List BaseUpdate → Logged StackEntry WorkerError (List BaseUpdate)
  | [] => pure []
  | update :: rest => do
      let current ← readCurrent world update.pullRequest
      let pending ← Logged.settled (pendingUpdate update current)
      let others ← verifyUpdates rest
      pure (if pending then update :: others else others)

/-- The branch is cloned at its head and rebased there. -/
def rebaseClone (number : Int) (branch target headSha : String) :
    Logged StackEntry WorkerError RebaseStep := do
  let allowForcePush := policy.allowBotForcePush && policy.botOwnedBranches.contains branch
  Logged.failingWith .workspace
    (Logged.call (.cloned number branch headSha) (world.cloneBranch number branch headSha))
  let outcome ← Logged.attempt
    (rebaseOnto world number branch target headSha allowForcePush policy.validationCommands)
  Logged.note (.returned number outcome)
  Logged.settled (rebaseStep branch target outcome)

def rebasePullRequest (stackPlan : StackPlan) (number : Int) (pullRequest : StackPullRequest)
    (target : String) : Logged StackEntry WorkerError RebaseStep := do
  let current ← readCurrent world number
  match ← Logged.settled (checkCurrent repository stackPlan number pullRequest target current) with
  | .error blocker => pure (.blocked blocker)
  | .ok branch => rebaseClone world policy number branch target current.head.sha

/-- The second loop goes from the base to the tip and stops at the first blocker. -/
def rebaseStack (numbered : Entries Int StackPullRequest) (stackPlan : StackPlan) :
    Option Int → List Int → Logged StackEntry WorkerError StackProgress
  | _, [] => pure ⟨[], []⟩
  | parent, number :: rest => do
      let pullRequest ← Logged.settled (okOr (numbered.lookup number) (.mutationAdmissionRequired
        ("stack plan references missing pull request " ++ toString number)))
      let target ← Logged.settled (targetBranch numbered pullRequest parent)
      match ← rebasePullRequest world repository policy stackPlan number pullRequest target with
      | .blocked blocker => pure ⟨[], [blocker]⟩
      | .changed change => do
          let progress ← rebaseStack numbered stackPlan (some number) rest
          pure { progress with changes := change :: progress.changes }

/-- The third loop moves the bases on GitHub. -/
def publishUpdates : List BaseUpdate → Logged StackEntry WorkerError (List String)
  | [] => pure []
  | update :: rest => do
      Logged.failingWith .workspace (ensureLease world)
      let updated ← Logged.failingWith .github
        (Logged.call (.updated update.pullRequest update.toBranch)
          (world.updatePullRequestBase update.pullRequest update.toBranch))
      Logged.settled (ensure (updated.baseReference = some update.toBranch)
        (.mutationAdmissionRequired ("GitHub did not confirm base update for " ++
          named update.pullRequest)))
      let others ← publishUpdates rest
      pure (("updated " ++ named update.pullRequest ++ " base from " ++ update.fromBranch ++ " to " ++
        update.toBranch) :: others)

/-- The loops before the bases move. -/
def prepareStack (pullRequests : List StackPullRequest) (stackPlan : StackPlan) :
    Logged StackEntry WorkerError (List BaseUpdate × StackProgress) := do
  let pendingUpdates ← verifyUpdates world stackPlan.requiredBaseUpdates
  let progress ← rebaseStack world repository policy (byNumber pullRequests) stackPlan none
    stackPlan.mergeOrder
  pure (pendingUpdates, progress)

def executeStack (pullRequests : List StackPullRequest) (stackPlan : StackPlan) :
    Logged StackEntry WorkerError StackReport := do
  let prepared ← prepareStack world repository policy pullRequests stackPlan
  let updates ← publishUpdates world (if prepared.2.blockers = [] then prepared.1 else [])
  pure (stackPlan.report prepared.2 updates)

/-- The stack that a job plan stores, and its order. -/
def storedStack (fromValue : Json → Except String (List StackPullRequest)) (plan : Json) :
    Except WorkerError (List StackPullRequest × StackPlan) := do
  let value ← okOr (plan.get "pull_requests") (.mutationAdmissionRequired "stack plan is empty")
  let pullRequests ← (fromValue value).mapError .planSerialization
  let stackPlan ← (planStack pullRequests).mapError fun error =>
    .mutationAdmissionRequired error.text
  pure (pullRequests, stackPlan)

def stackRebase (fromValue : Json → Except String (List StackPullRequest)) (plan : Json) :
    Logged StackEntry WorkerError StackReport := do
  let stored ← Logged.settled (storedStack fromValue plan)
  executeStack world repository policy stored.1 stored.2

end Execution

/-! ### Rules of the log -/

/-- The rebase of the pull request returned without an error. -/
def Rebased (past : List StackEntry) (number : Int) : Prop :=
  ∃ commit, StackEntry.returned number (.ok commit) ∈ past

/-- Every pull request that the order has before this one is rebased. -/
def Reached (order : List Int) (past : List StackEntry) (number : Int) : Prop :=
  ∃ front back, order = front ++ number :: back ∧ ∀ other ∈ front, Rebased past other

/-- GitHub answered that the base is the one that the update moves. -/
def Observed (past : List StackEntry) (update : BaseUpdate) : Prop :=
  ∃ current, StackEntry.read update.pullRequest (.ok current) ∈ past ∧
    current.baseReference = some update.fromBranch

/-- The pull request whose clone the call works on. -/
def StackEntry.clone : StackEntry → Option Int
  | .cloned number _ _ _ | .command number _ _ | .validated number _ _ | .returned number _ =>
      some number
  | _ => none

def StackEntry.movesBase : StackEntry → Bool
  | .updated _ _ _ => true
  | _ => false

/-- What a base waits for before it moves. -/
structure MayMove (stackPlan : StackPlan) (past : List StackEntry) (number : Int)
    (branch : String) : Prop where
  rebased : ∀ other ∈ stackPlan.mergeOrder, Rebased past other
  required : ∃ update ∈ stackPlan.requiredBaseUpdates, update.pullRequest = number ∧
    update.toBranch = branch ∧ Observed past update
  leased : past.getLast? = some (.asserted (.ok true))

/-- Clones follow the order, and bases move under their own condition. -/
def StackRules (order : List Int) (moves : List StackEntry → Int → String → Prop)
    (past : List StackEntry) : StackEntry → Prop
  | .cloned number _ _ _ | .command number _ _ | .validated number _ _ | .returned number _ =>
      Reached order past number
  | .updated number branch _ => moves past number branch
  | .asserted _ | .read _ _ => True

section Rules

variable {world : StackWorld} {repository : RepositoryContext} {policy : RebasePolicy}
  {numbered : Entries Int StackPullRequest} {stackPlan : StackPlan} {order done rest : List Int}
  {moves : List StackEntry → Int → String → Prop} {number : Int} {holds : List StackEntry → Prop}

theorem rebased_lasting (number : Int) : Lasting fun log => Rebased log number :=
  fun _ _ grows ⟨commit, member⟩ => ⟨commit, grows.subset member⟩

theorem allRebased_lasting (numbers : List Int) :
    Lasting fun log => ∀ other ∈ numbers, Rebased log other :=
  fun log longer grows all other member => rebased_lasting other log longer grows (all other member)

theorem observed_lasting (update : BaseUpdate) : Lasting fun log => Observed log update :=
  fun _ _ grows ⟨current, member, base⟩ => ⟨current, grows.subset member, base⟩

/-- A read leaves its answer in the log. -/
theorem readCurrent_keeps (lasting : Lasting holds) : Keeps (StackRules order moves) holds
    (readCurrent world number)
    fun current log => holds log ∧ StackEntry.read number (.ok current) ∈ log := by
  apply Keeps.bind (.failingWith (ensureLease_steady lasting fun _ _ _ => trivial))
  intro _
  apply Keeps.failingWith
  apply Keeps.call
  intro log outcome held
  refine ⟨trivial, fun current same => ⟨lasting.snoc held _, ?_⟩⟩
  rw [same]
  exact List.mem_append_right _ (List.mem_singleton_self _)

/-! ### Verification -/

theorem pendingUpdate_base {update : BaseUpdate} {current : GitHubPullRequest}
    (pending : pendingUpdate update current = .ok true) :
    current.baseReference = some update.fromBranch := by
  unfold pendingUpdate at pending
  split at pending
  · cases pending
  · split at pending
    · rename_i base found
      split at pending
      · rename_i same
        rw [found, same]
      · split at pending
        · cases pending
        · cases pending
    · cases pending

/-- The pending updates are required ones whose old base was observed. -/
theorem verifyUpdates_keeps (updates : List BaseUpdate) :
    Keeps (StackRules order moves) (fun _ => True) (verifyUpdates world updates)
      fun pending log => ∀ update ∈ pending, update ∈ updates ∧ Observed log update := by
  induction updates with
  | nil => exact Keeps.pure fun _ _ update member => by cases member
  | cons update rest ih =>
      have always : Lasting fun _ : List StackEntry => True := fun _ _ _ _ => trivial
      apply Keeps.bind (readCurrent_keeps always)
      intro current
      have decided : Keeps (StackRules order moves)
          (fun log => True ∧ StackEntry.read update.pullRequest (.ok current) ∈ log)
          (Logged.settled (pendingUpdate update current))
          fun pending log => True ∧ (pending = true → Observed log update) := by
        apply Keeps.settled
        intro log pending read outcome
        refine ⟨trivial, fun isPending => ⟨current, read.2, ?_⟩⟩
        exact pendingUpdate_base (isPending ▸ outcome)
      apply Keeps.bind decided
      intro pending
      have lasting : Lasting fun log => pending = true → Observed log update :=
        fun log longer grows seen isPending => observed_lasting update log longer grows (seen isPending)
      apply Keeps.bind (ih.frame lasting)
      intro others
      apply Keeps.pure
      rintro log ⟨earlier, seen⟩ found member
      split at member
      · rename_i isPending
        rcases List.mem_cons.mp member with rfl | later
        · exact ⟨.head _, seen isPending⟩
        · exact ⟨.tail _ (earlier found later).1, (earlier found later).2⟩
      · exact ⟨.tail _ (earlier found member).1, (earlier found member).2⟩

/-! ### Rebases -/

theorem rebaseStep_changed {branch target change : String}
    {outcome : Except WorkspaceError RebaseCommit}
    (changed : rebaseStep branch target outcome = .ok (.changed change)) :
    ∃ commit, outcome = .ok commit := by
  cases outcome with
  | ok commit => exact ⟨commit, rfl⟩
  | error reason => cases reason <;> cases changed

/-- The clone of the next pull request is rebased after all before it. -/
theorem rebaseClone_keeps (place : order = done ++ number :: rest) (branch target headSha : String) :
    Keeps (StackRules order moves) (fun log => ∀ other ∈ done, Rebased log other)
      (rebaseClone world policy number branch target headSha)
      fun step log => ∀ change, step = .changed change →
        ∀ other ∈ done ++ [number], Rebased log other := by
  have reached (log : List StackEntry) (rebased : ∀ other ∈ done, Rebased log other) :
      Reached order log number := ⟨done, rest, place, rebased⟩
  have permits : Permits (StackRules order moves) (fun log => ∀ other ∈ done, Rebased log other)
      number :=
    ⟨allRebased_lasting done, fun _ _ _ => trivial, fun _ log _ => reached log,
      fun _ log _ => reached log⟩
  apply Keeps.bind (Steady.failingWith (.call permits.lasting (fun log _ => reached log) _))
  intro _
  apply Keeps.bind (Steady.attempt permits.lasting (rebaseOnto_steady permits _ _ _ _ _))
  intro outcome
  have noted : Keeps (StackRules order moves) (fun log => ∀ other ∈ done, Rebased log other)
      (Logged.note (.returned number outcome) : Logged StackEntry WorkerError Unit)
      fun _ log => (∀ other ∈ done, Rebased log other) ∧ StackEntry.returned number outcome ∈ log := by
    apply Keeps.note
    intro log rebased
    exact ⟨reached log rebased, permits.lasting.snoc rebased _,
      List.mem_append_right _ (List.mem_singleton_self _)⟩
  apply Keeps.bind noted
  intro _
  apply Keeps.settled
  rintro log step ⟨rebased, member⟩ outcomeStep change same other inside
  rcases List.mem_append.mp inside with before | last
  · exact rebased other before
  · obtain ⟨commit, rfl⟩ := rebaseStep_changed (same ▸ outcomeStep)
    exact ⟨commit, List.mem_singleton.mp last ▸ member⟩

theorem rebasePullRequest_keeps (place : order = done ++ number :: rest)
    (pullRequest : StackPullRequest) (target : String) :
    Keeps (StackRules order moves) (fun log => ∀ other ∈ done, Rebased log other)
      (rebasePullRequest world repository policy stackPlan number pullRequest target)
      fun step log => ∀ change, step = .changed change →
        ∀ other ∈ done ++ [number], Rebased log other := by
  apply Keeps.bind ((readCurrent_keeps (allRebased_lasting done)).imp (fun _ rebased => rebased)
    fun _ _ read => read.1)
  intro current
  apply Keeps.bind (Steady.settled _)
  intro checked
  cases checked with
  | error blocker => exact Keeps.pure fun _ _ change same => by cases same
  | ok branch => exact rebaseClone_keeps place branch target _

/-- Without a blocker the loop has rebased the whole order. -/
theorem rebaseStack_keeps (numbers : List Int) (parent : Option Int)
    (place : order = done ++ numbers) :
    Keeps (StackRules order moves) (fun log => ∀ other ∈ done, Rebased log other)
      (rebaseStack world repository policy numbered stackPlan parent numbers)
      fun progress log => progress.blockers = [] → ∀ other ∈ order, Rebased log other := by
  induction numbers generalizing done parent with
  | nil =>
      rw [List.append_nil] at place
      subst place
      exact Keeps.pure fun _ rebased _ => rebased
  | cons number rest ih =>
      apply Keeps.bind (Steady.settled _)
      intro pullRequest
      apply Keeps.bind (Steady.settled _)
      intro target
      apply Keeps.bind (rebasePullRequest_keeps place pullRequest target)
      intro step
      cases step with
      | blocked blocker => exact Keeps.pure fun _ _ empty => by cases empty
      | changed change =>
          have later : Keeps (StackRules order moves)
              (fun log => ∀ change_1, RebaseStep.changed change = .changed change_1 →
                ∀ other ∈ done ++ [number], Rebased log other)
              (rebaseStack world repository policy numbered stackPlan (some number) rest)
              fun progress log => progress.blockers = [] → ∀ other ∈ order, Rebased log other :=
            (ih (some number) (by simp [place])).imp (fun _ rebased => rebased change rfl)
              fun _ _ finished => finished
          apply Keeps.bind later
          intro progress
          exact Keeps.pure fun _ finished => finished

/-! ### Publication -/

/-- A lease that passes is the last entry of the log. -/
theorem ensureLease_last (lasting : Lasting holds) : Keeps (StackRules order moves) holds
    (ensureLease world)
    fun _ log => holds log ∧ log.getLast? = some (.asserted (.ok true)) := by
  have asserted : Keeps (StackRules order moves) holds
      (Logged.failingWith WorkspaceError.leaseCheck
        (Logged.call .asserted world.assertLease))
      fun held log => holds log ∧ log.getLast? = some (.asserted (.ok held)) := by
    apply Keeps.failingWith
    apply Keeps.call
    intro log outcome initially
    refine ⟨trivial, fun held same => ⟨lasting.snoc initially _, ?_⟩⟩
    rw [same, List.getLast?_append, List.getLast?_singleton, Option.some_or]
  apply Keeps.bind asserted
  intro held
  apply Keeps.settled
  rintro log _ ⟨initially, last⟩ passed
  rw [ensure_eq_ok.mp passed] at last
  exact ⟨initially, last⟩

/-- Every base moves under its condition when all branches are rebased. -/
theorem publishUpdates_keeps (world : StackWorld) (updates : List BaseUpdate)
    (required : ∀ update ∈ updates, update ∈ stackPlan.requiredBaseUpdates) :
    Keeps (StackRules stackPlan.mergeOrder (MayMove stackPlan))
      (fun log => (∀ other ∈ stackPlan.mergeOrder, Rebased log other) ∧
        ∀ update ∈ updates, Observed log update)
      (publishUpdates world updates) fun _ _ => True := by
  induction updates with
  | nil => exact Keeps.pure fun _ _ => trivial
  | cons update rest ih =>
      have observed : Lasting fun log => ∀ other ∈ update :: rest, Observed log other :=
        fun log longer grows all other member =>
          observed_lasting other log longer grows (all other member)
      have lasting := (allRebased_lasting stackPlan.mergeOrder).and observed
      apply Keeps.bind (.failingWith (ensureLease_last lasting))
      intro _
      have moved : Keeps (StackRules stackPlan.mergeOrder (MayMove stackPlan))
          (fun log => ((∀ other ∈ stackPlan.mergeOrder, Rebased log other) ∧
            ∀ other ∈ update :: rest, Observed log other) ∧
              log.getLast? = some (.asserted (.ok true)))
          (Logged.failingWith WorkerError.github
            (Logged.call (.updated update.pullRequest update.toBranch)
              (world.updatePullRequestBase update.pullRequest update.toBranch)))
          fun _ log => (∀ other ∈ stackPlan.mergeOrder, Rebased log other) ∧
            ∀ other ∈ update :: rest, Observed log other := by
        apply Keeps.failingWith
        apply Keeps.call
        rintro log outcome ⟨held, last⟩
        refine ⟨⟨held.1, ?_, last⟩, fun _ _ => lasting.snoc held _⟩
        exact ⟨update, required update (.head _), rfl, rfl, held.2 update (.head _)⟩
      apply Keeps.bind moved
      intro updated
      apply Keeps.bind (Steady.settled _)
      intro _
      apply Keeps.bind ((ih fun other member => required other (.tail _ member)).imp
        (fun log held => ⟨held.1, fun other member => held.2 other (.tail _ member)⟩)
        fun _ _ finished => finished)
      intro others
      exact Keeps.pure fun _ _ => trivial

/-! ### Executions -/

/-- Before the bases move, no base moves, and the two loops leave what the third one needs. -/
theorem prepareStack_keeps (pullRequests : List StackPullRequest) :
    Keeps (StackRules stackPlan.mergeOrder fun _ _ _ => False) (fun _ => True)
      (prepareStack world repository policy pullRequests stackPlan)
      fun prepared log =>
        (∀ update ∈ prepared.1, update ∈ stackPlan.requiredBaseUpdates ∧ Observed log update) ∧
          (prepared.2.blockers = [] → ∀ other ∈ stackPlan.mergeOrder, Rebased log other) := by
  apply Keeps.bind (verifyUpdates_keeps stackPlan.requiredBaseUpdates)
  intro pendingUpdates
  have lasting : Lasting fun log => ∀ update ∈ pendingUpdates,
      update ∈ stackPlan.requiredBaseUpdates ∧ Observed log update := by
    intro log longer grows seen update member
    exact ⟨(seen update member).1, observed_lasting update log longer grows (seen update member).2⟩
  have rebases : Keeps (StackRules stackPlan.mergeOrder fun _ _ _ => False) (fun _ => True)
      (rebaseStack world repository policy (byNumber pullRequests) stackPlan none
        stackPlan.mergeOrder)
      fun progress log => progress.blockers = [] →
        ∀ other ∈ stackPlan.mergeOrder, Rebased log other :=
    (rebaseStack_keeps stackPlan.mergeOrder none (List.nil_append _).symm).imp
      (fun _ _ other member => by cases member) fun _ _ finished => finished
  apply Keeps.bind ((rebases.frame lasting).imp (fun _ seen => ⟨trivial, seen⟩)
    fun _ _ finished => finished)
  intro progress
  exact Keeps.pure fun _ finished => ⟨finished.2, finished.1⟩

end Rules

/-- What an execution of a stack plan keeps, whatever its calls answer. -/
structure StackRebased (stackPlan : StackPlan)
    (prepared : Except WorkerError (List BaseUpdate × StackProgress))
    (outcome : Except WorkerError StackReport) (log : List StackEntry) : Prop where
  moved : ∀ past number branch answer future,
    log = past ++ .updated number branch answer :: future → MayMove stackPlan past number branch
  failed : ∀ reason, prepared = .error reason →
    outcome = .error reason ∧ ∀ entry ∈ log, entry.movesBase = false
  blocked : ∀ report, outcome = .ok report → report.remainingBlockers ≠ [] →
    ∀ entry ∈ log, entry.movesBase = false
  stopped : ∀ front number back, stackPlan.mergeOrder = front ++ number :: back →
    ¬ Rebased log number → ∀ later ∈ back, ∀ entry ∈ log, entry.clone ≠ some later

section Executions

variable {world : StackWorld} {repository : RepositoryContext} {policy : RebasePolicy}
  {pullRequests : List StackPullRequest} {stackPlan : StackPlan} {log : List StackEntry}
  {moves : List StackEntry → Int → String → Prop}

theorem StackRules.reached {past : List StackEntry} {entry : StackEntry} {order : List Int}
    {number : Int} (allowed : StackRules order moves past entry)
    (mine : entry.clone = some number) : Reached order past number := by
  cases entry with
  | cloned | command | validated | returned =>
      cases mine
      exact allowed
  | asserted | read | updated => cases mine

theorem still_of_guarded {order : List Int}
    (guarded : Guarded (StackRules order fun _ _ _ => False) log) :
    ∀ entry ∈ log, entry.movesBase = false := by
  intro entry member
  obtain ⟨past, _, _, allowed⟩ := guarded.of_mem member
  cases entry with
  | updated => exact allowed.elim
  | asserted | read | cloned | command | validated | returned => rfl

/-- A log that follows the order has no call on a clone after the first that is not rebased. -/
theorem stopped_of_guarded {order : List Int} (distinct : order.Nodup)
    (guarded : Guarded (StackRules order moves) log) {front back : List Int} {number : Int}
    (place : order = front ++ number :: back) (unrebased : ¬ Rebased log number) :
    ∀ later ∈ back, ∀ entry ∈ log, entry.clone ≠ some later := by
  intro later inside entry member mine
  obtain ⟨past, future, same, allowed⟩ := guarded.of_mem member
  obtain ⟨before, after, position, rebased⟩ := allowed.reached mine
  obtain ⟨between, beyond, rfl⟩ := List.append_of_mem inside
  -- The order names the later pull request once, so the earlier one stands before it.
  have split : (front ++ number :: between) ++ later :: beyond = before ++ later :: after := by
    rw [← position, place]
    simp
  have whole : ((front ++ number :: between) ++ later :: beyond).Nodup := by
    rw [split, ← position]
    exact distinct
  rw [List.nodup_append, List.nodup_cons] at whole
  obtain ⟨_, ⟨unrepeated, _⟩, apart⟩ := whole
  have first : later ∉ front ++ number :: between := fun again => apart later again later (.head _) rfl
  obtain ⟨rfl, _⟩ := (List.append_cons_inj_of_notMem first unrepeated).mp split
  apply unrebased
  apply rebased_lasting number past log
  · rw [same]
    exact List.prefix_append past _
  · exact rebased number (by simp)

theorem executeStack_rebased (distinct : stackPlan.mergeOrder.Nodup) :
    StackRebased stackPlan (prepareStack world repository policy pullRequests stackPlan []).1
      (executeStack world repository policy pullRequests stackPlan []).1
      (executeStack world repository policy pullRequests stackPlan []).2 := by
  have prepares : Keeps (StackRules stackPlan.mergeOrder fun _ _ _ => False) (fun _ => True)
      (prepareStack world repository policy pullRequests stackPlan) _ :=
    prepareStack_keeps pullRequests
  obtain ⟨_, guarded, succeeds⟩ := prepares [] .nil trivial
  cases ran : prepareStack world repository policy pullRequests stackPlan [] with
  | mk outcome log =>
      rw [ran] at guarded succeeds
      have still : Guarded (StackRules stackPlan.mergeOrder fun _ _ _ => False) log := guarded
      have never : ∀ past number branch answer future,
          log = past ++ .updated number branch answer :: future → MayMove stackPlan past number branch :=
        fun past number branch answer future same => (still past _ future same).elim
      cases outcome with
      | error reason =>
          rw [executeStack, Logged.bind_error ran]
          refine ⟨never, ?_, nofun, fun _ _ _ place => stopped_of_guarded distinct still place⟩
          rintro _ ⟨⟩
          exact ⟨rfl, still_of_guarded still⟩
      | ok prepared =>
          obtain ⟨pending, rebased⟩ := succeeds prepared rfl
          rw [executeStack, Logged.bind_ok ran]
          by_cases clear : prepared.2.blockers = []
          · have publishes : Keeps (StackRules stackPlan.mergeOrder (MayMove stackPlan))
                (fun log => (∀ other ∈ stackPlan.mergeOrder, Rebased log other) ∧
                  ∀ update ∈ prepared.1, Observed log update)
                (publishUpdates world prepared.1 >>= fun updates =>
                  pure (stackPlan.report prepared.2 updates))
                fun report _ => report.remainingBlockers = prepared.2.blockers :=
              (publishUpdates_keeps world prepared.1 fun update member =>
                (pending update member).1).bind fun updates => Keeps.pure fun _ _ => rfl
            have wider : Guarded (StackRules stackPlan.mergeOrder (MayMove stackPlan)) log := by
              refine still.mono ?_
              intro past entry allowed
              cases entry with
              | updated => exact allowed.elim
              | asserted | read => trivial
              | cloned | command | validated | returned => exact allowed
            rw [if_pos clear]
            obtain ⟨_, kept, reports⟩ := publishes log wider
              ⟨rebased clear, fun update member => (pending update member).2⟩
            refine ⟨fun past number branch answer future same => kept past _ future same, nofun, ?_,
              fun _ _ _ place => stopped_of_guarded distinct kept place⟩
            intro report same blocked
            rw [reports report same] at blocked
            exact absurd clear blocked
          · rw [if_neg clear]
            refine ⟨never, nofun, ?_, fun _ _ _ place => stopped_of_guarded distinct still place⟩
            intro _ _ _
            exact still_of_guarded still

theorem storedStack_planned {fromValue : Json → Except String (List StackPullRequest)} {plan : Json}
    (stored : storedStack fromValue plan = .ok (pullRequests, stackPlan)) :
    planStack pullRequests = .ok stackPlan := by
  unfold storedStack at stored
  obtain ⟨value, _, parses⟩ := bind_eq_ok.mp stored
  obtain ⟨found, _, plans⟩ := bind_eq_ok.mp parses
  obtain ⟨order, planned, same⟩ := bind_eq_ok.mp plans
  cases same
  cases made : planStack pullRequests with
  | ok result =>
      rw [made] at planned
      cases planned
      rfl
  | error reason =>
      rw [made] at planned
      cases planned

/--
Whatever GitHub, git and the lease answer, a stack rebase moves a base only after the whole order
is rebased. The base was seen at the old branch, and the lease is valid just before the move. A run
that fails earlier or ends with blockers moves no base, and no clone is touched after the first
pull request that is not rebased.
-/
theorem stack_rebase_all_or_none (world : StackWorld) (repository : RepositoryContext)
    (policy : RebasePolicy) (fromValue : Json → Except String (List StackPullRequest))
    (plan : Json) :
    (∀ reason, storedStack fromValue plan = .error reason →
      stackRebase world repository policy fromValue plan [] = (.error reason, [])) ∧
    ∀ pullRequests stackPlan, storedStack fromValue plan = .ok (pullRequests, stackPlan) →
      StackRebased stackPlan (prepareStack world repository policy pullRequests stackPlan []).1
        (stackRebase world repository policy fromValue plan []).1
        (stackRebase world repository policy fromValue plan []).2 := by
  constructor
  · intro reason rejected
    have refused : Logged.settled (storedStack fromValue plan) ([] : List StackEntry) =
        (.error reason, []) := by
      rw [rejected]
      rfl
    exact Logged.bind_error refused
  · intro pullRequests stackPlan stored
    have admitted : Logged.settled (storedStack fromValue plan) ([] : List StackEntry) =
        (.ok (pullRequests, stackPlan), []) := by
      rw [stored]
      rfl
    have ran : stackRebase world repository policy fromValue plan [] =
        executeStack world repository policy pullRequests stackPlan [] := Logged.bind_ok admitted
    have planned := planStack_eq_ok.mp (storedStack_planned stored)
    have distinct : stackPlan.mergeOrder.Nodup :=
      (plan_order planned).nodup_iff.mpr (plan_admits planned).2
    rw [ran]
    exact executeStack_rebased distinct

end Executions

end PiTools.Stack
