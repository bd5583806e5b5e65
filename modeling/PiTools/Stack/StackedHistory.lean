import PiTools.Stack.RebasedBranch

/-
This file shows when a completed stack rebase leaves a stacked history.
-/

namespace PiTools.Stack

open Library

/-! ### The loop over the stack -/

/-- The pull requests of the stack with the branches that they are rebased onto. -/
def targets : Option StackPullRequest → List StackPullRequest → List (StackPullRequest × String)
  | _, [] => []
  | parent, pullRequest :: rest =>
      (pullRequest, (parent.map StackPullRequest.headBranch).getD pullRequest.baseBranch) ::
        targets (some pullRequest) rest

/-- The branches are on top of their targets. -/
def Rests (git : Git) (base : Int → Option String) (steps : List (StackPullRequest × String))
    (forge : Forge) : Prop :=
  forge.base = base ∧ ∀ step ∈ steps, OnBranch git forge step.1.headBranch step.2

/-- The base is the target, or it is about to be moved there. -/
def Agrees (updates : List BaseUpdate) (base : Int → Option String) (number : Int) (target : String) : Prop :=
  base number = some target ∨
    ∃ update ∈ updates, update.pullRequest = number ∧ base number = some update.fromBranch ∧
      update.toBranch = target

/-- A later rebase does not move what an earlier one has read. -/
def Undisturbed (first second : StackPullRequest × String) : Prop :=
  second.1.headBranch ≠ first.1.headBranch ∧ second.1.headBranch ≠ first.2

section Loop

variable {git : Git} {start : Forge} {policy : RebasePolicy} {world : StackWorld} {repository : RepositoryContext}
  {base : Int → Option String} {earlier : List (StackPullRequest × String)} {stackPlan : StackPlan}

theorem readCurrent_served {number : Int} (before : Forge → Prop) :
    Served git start policy before (readCurrent world number)
      fun current forge => before forge ∧ current.baseReference = forge.base number := by
  apply Served.bind (ensureLease_served _).failingWith
  intro _
  apply Served.failingWith
  apply Served.call
  intro log outcome initially kept
  refine ⟨keepsHistory_of_remote rfl, ?_⟩
  rintro current rfl
  exact ⟨initially, kept⟩

/-- A branch that is checked is the head of the pull request, and its base agrees with the target. -/
theorem checkCurrent_ok {number : Int} {pullRequest : StackPullRequest} {target branch : String}
    {current : GitHubPullRequest}
    (checked : checkCurrent repository stackPlan number pullRequest target current = .ok (.ok branch)) :
    branch = pullRequest.headBranch ∧ (current.baseReference = base number →
      Agrees stackPlan.requiredBaseUpdates base number target) := by
  unfold checkCurrent at checked
  split at checked
  · cases checked
  · split at checked
    · cases checked
    · split at checked
      · cases checked
      · split at checked
        · cases checked
        · rename_i _ _ _ reference _ same
          split at checked
          · cases checked
          · rename_i _ currentBase found
            dsimp only at checked
            split at checked
            · cases checked
            · rename_i agrees
              cases checked
              refine ⟨not_not.mp same, fun known => ?_⟩
              have observed : base number = some currentBase := known.symm.trans found
              by_cases settled : currentBase = target
              · exact .inl (settled ▸ observed)
              · rw [not_and, Bool.not_eq_false, List.any_eq_true] at agrees
                obtain ⟨update, required, aimed⟩ := agrees settled
                simp only [Bool.and_eq_true, decide_eq_true_eq] at aimed
                obtain ⟨⟨mine, moving⟩, aim⟩ := aimed
                exact .inr ⟨update, required, mine, moving ▸ observed, aim⟩

/-- A rebase of a branch that no earlier one has read keeps the earlier ones. -/
theorem rests_of_moved {initial forge : Forge} {pullRequest : StackPullRequest} {target : String}
    (apart : ∀ step ∈ earlier, Undisturbed step (pullRequest, target)) (rests : Rests git base earlier initial)
    (moved : Moved git initial.remote initial.base pullRequest.headBranch target forge) :
    Rests git base (earlier ++ [(pullRequest, target)]) forge := by
  refine ⟨moved.bases.trans rests.1, fun step member => ?_⟩
  rcases List.mem_append.mp member with before | last
  · obtain ⟨head, read⟩ := apart step before
    obtain ⟨tip, onto, found, under, above⟩ := rests.2 step before
    refine ⟨tip, onto, ?_, ?_, above⟩
    · rw [moved.others _ head.symm, found]
    · rw [moved.others _ read.symm, under]
  · rw [List.mem_singleton.mp last]
    exact moved.stacked

theorem rebaseStep_changed_served {branch target : String} {outcome : Except WorkspaceError RebaseCommit}
    {after : Forge → Prop} : Served git start policy
      (fun forge => ∀ commit, outcome = .ok commit → after forge) (Logged.settled (rebaseStep branch target outcome))
      fun step forge => ∀ change, step = .changed change → after forge := by
  apply Served.settled
  rintro forge _ moved stepped change rfl
  obtain ⟨commit, rfl⟩ := rebaseStep_changed stepped
  exact moved commit rfl

theorem rebaseClone_served {pullRequest : StackPullRequest} {target headSha : String}
    (apart : ∀ step ∈ earlier, Undisturbed step (pullRequest, target)) :
    Served git start policy (Rests git base earlier)
      (rebaseClone world policy pullRequest.number pullRequest.headBranch target headSha)
      fun step forge => ∀ change, step = .changed change →
        Rests git base (earlier ++ [(pullRequest, target)]) forge := by
  have cloned : Served git start policy (Rests git base earlier)
      (Logged.failingWith WorkerError.workspace
        (Logged.call (.cloned pullRequest.number pullRequest.headBranch headSha)
          (world.cloneBranch pullRequest.number pullRequest.headBranch headSha))) fun _ => Rests git base earlier := by
    apply Served.failingWith
    apply Served.call
    intro log outcome initially _
    cases outcome with
    | ok => exact ⟨keepsHistory_of_remote rfl, fun _ _ => initially⟩
    | error => exact ⟨keepsHistory_of_remote rfl, fun _ _ => initially⟩
  apply Served.bind cloned
  intro _
  have rebased (allowForcePush : Bool) (allowed : allowForcePush = true →
      policy.allowBotForcePush = true ∧ pullRequest.headBranch ∈ policy.botOwnedBranches) :
      Served git start policy (Rests git base earlier)
        (rebaseOnto world pullRequest.number pullRequest.headBranch target headSha allowForcePush
          policy.validationCommands) fun _ => Rests git base (earlier ++ [(pullRequest, target)]) := by
    apply Served.fixing
    intro initial
    have moved : Served git start policy
        (fun forge => Shows initial.remote initial.base forge ∧ Rests git base earlier initial)
        (rebaseOnto world pullRequest.number pullRequest.headBranch target headSha allowForcePush
          policy.validationCommands)
        fun _ forge => Moved git initial.remote initial.base pullRequest.headBranch target forge ∧
          Rests git base earlier initial := (rebaseOnto_served allowed).frame
    refine moved.imp (fun forge initially => ?_) fun _ forge finished => ?_
    · exact ⟨⟨congrArg Forge.remote initially.1, congrArg Forge.base initially.1⟩, initially.1 ▸ initially.2⟩
    · exact rests_of_moved apart finished.2 finished.1
  have allowed : (policy.allowBotForcePush && policy.botOwnedBranches.contains pullRequest.headBranch) = true →
      policy.allowBotForcePush = true ∧ pullRequest.headBranch ∈ policy.botOwnedBranches := by
    rw [Bool.and_eq_true, List.contains_iff_mem]
    exact id
  apply Served.bind (rebased _ allowed).attempt
  intro outcome
  have noted : Served git start policy
      (fun forge => ∀ commit, outcome = .ok commit → Rests git base (earlier ++ [(pullRequest, target)]) forge)
      (Logged.note (.returned pullRequest.number outcome) : Logged StackEntry WorkerError Unit)
      fun _ forge => ∀ commit, outcome = .ok commit → Rests git base (earlier ++ [(pullRequest, target)]) forge := by
    apply Served.note
    exact fun _ initially => ⟨keepsHistory_of_remote rfl, initially⟩
  apply Served.bind noted
  intro _
  exact rebaseStep_changed_served

theorem rebasePullRequest_served {pullRequest : StackPullRequest} {target : String}
    (apart : ∀ step ∈ earlier, Undisturbed step (pullRequest, target)) :
    Served git start policy (Rests git base earlier)
      (rebasePullRequest world repository policy stackPlan pullRequest.number pullRequest target)
      fun step forge => ∀ change, step = .changed change →
        Rests git base (earlier ++ [(pullRequest, target)]) forge ∧
          Agrees stackPlan.requiredBaseUpdates base pullRequest.number target := by
  apply Served.bind (readCurrent_served _)
  intro current
  apply Served.check
  intro checked same
  cases checked with
  | error blocker =>
      apply Served.pure
      rintro _ _ change ⟨⟩
  | ok branch =>
      obtain ⟨rfl, agrees⟩ := checkCurrent_ok same
      have cloned : Served git start policy
          (fun forge => Rests git base earlier forge ∧ current.baseReference = base pullRequest.number)
          (rebaseClone world policy pullRequest.number pullRequest.headBranch target current.head.sha)
          fun step forge => (∀ change, step = .changed change →
            Rests git base (earlier ++ [(pullRequest, target)]) forge) ∧
              current.baseReference = base pullRequest.number := (rebaseClone_served apart).frame
      refine cloned.imp (fun forge initially => ?_) fun step forge finished change changed => ?_
      · exact ⟨initially.1, initially.2.trans (congrFun initially.1.1 _)⟩
      · exact ⟨finished.1 change changed, agrees finished.2⟩

variable {numbered : Entries Int StackPullRequest}

theorem targetBranch_ok {parent : Option StackPullRequest} {pullRequest : StackPullRequest} {target : String}
    (known : ∀ other ∈ parent, numbered.lookup other.number = some other)
    (aimed : targetBranch numbered pullRequest (parent.map StackPullRequest.number) = .ok target) :
    (parent.map StackPullRequest.headBranch).getD pullRequest.baseBranch = target := by
  cases parent with
  | none => exact Except.ok.inj aimed
  | some other =>
      rw [Option.map_some, targetBranch, known other rfl] at aimed
      exact Except.ok.inj aimed

/-- Without a blocker every branch of the stack is on top of its target. -/
theorem rebaseStack_served (stack : List StackPullRequest) (parent : Option StackPullRequest)
    (found : ∀ pullRequest ∈ stack, numbered.lookup pullRequest.number = some pullRequest)
    (known : ∀ pullRequest ∈ parent, numbered.lookup pullRequest.number = some pullRequest)
    (apart : (earlier ++ targets parent stack).Pairwise Undisturbed) :
    Served git start policy (Rests git base earlier)
      (rebaseStack world repository policy numbered stackPlan (parent.map StackPullRequest.number)
        (stack.map StackPullRequest.number))
      fun progress forge => progress.blockers = [] → Rests git base (earlier ++ targets parent stack) forge ∧
        ∀ step ∈ targets parent stack, Agrees stackPlan.requiredBaseUpdates base step.1.number step.2 := by
  induction stack generalizing earlier parent with
  | nil =>
      apply Served.pure
      intro forge rests _
      rw [targets, List.append_nil]
      exact ⟨rests, fun _ member => by cases member⟩
  | cons pullRequest rest ih =>
      apply Served.check
      intro other looked
      have same : pullRequest = other :=
        Option.some.inj ((found pullRequest (.head _)).symm.trans (okOr_eq_ok.mp looked))
      subst same
      apply Served.check
      intro target aimed
      rw [targets, targetBranch_ok known aimed] at apart ⊢
      have undisturbed : ∀ step ∈ earlier, Undisturbed step (pullRequest, target) :=
        fun step member => (List.pairwise_append.mp apart).2.2 step member _ (List.mem_cons_self ..)
      apply Served.bind (rebasePullRequest_served undisturbed)
      intro step
      cases step with
      | blocked blocker => exact .pure fun _ _ empty => by cases empty
      | changed change =>
          rw [List.append_cons] at apart
          have later := ih (some pullRequest) (fun other member => found other (.tail _ member))
            (fun other same => Option.some.inj same ▸ found pullRequest (.head _)) apart
          have framed : Served git start policy
              (fun forge => ∀ other, RebaseStep.changed change = .changed other →
                Rests git base (earlier ++ [(pullRequest, target)]) forge ∧
                  Agrees stackPlan.requiredBaseUpdates base pullRequest.number target)
              (rebaseStack world repository policy numbered stackPlan (some pullRequest.number)
                (rest.map StackPullRequest.number))
              fun progress forge => (progress.blockers = [] →
                Rests git base (earlier ++ [(pullRequest, target)] ++ targets (some pullRequest) rest) forge ∧
                  ∀ step ∈ targets (some pullRequest) rest,
                    Agrees stackPlan.requiredBaseUpdates base step.1.number step.2) ∧
                Agrees stackPlan.requiredBaseUpdates base pullRequest.number target :=
            later.frame.imp (fun _ initially => initially change rfl) fun _ _ finished => finished
          apply Served.bind framed
          intro progress
          apply Served.pure
          rintro forge ⟨rests, agrees⟩ clear
          obtain ⟨stacked, others⟩ := rests clear
          rw [← List.append_cons] at stacked
          refine ⟨stacked, fun step member => ?_⟩
          cases member with
          | head => exact agrees
          | tail _ member => exact others step member

/-! ### The bases -/

theorem pendingUpdate_ok {update : BaseUpdate} {current : GitHubPullRequest} {pending : Bool}
    (decided : pendingUpdate update current = .ok pending) :
    pending = decide (current.baseReference = some update.fromBranch) := by
  unfold pendingUpdate at decided
  split at decided
  · cases decided
  · split at decided
    · rename_i base found
      rw [found]
      split at decided
      · rename_i same
        cases decided
        exact (decide_eq_true (congrArg some same)).symm
      · rename_i different
        split at decided
        · cases decided
          exact (decide_eq_false fun old => different (Option.some.inj old)).symm
        · cases decided
    · cases decided

/-- The pending updates are those whose old base is still there. -/
theorem verifyUpdates_served (updates : List BaseUpdate) :
    Served git start policy (fun forge => forge.base = base) (verifyUpdates world updates)
      fun pending forge => forge.base = base ∧
        pending = updates.filter fun update => base update.pullRequest = some update.fromBranch := by
  induction updates with
  | nil => exact .pure fun _ initially => ⟨initially, rfl⟩
  | cons update rest ih =>
      apply Served.bind (readCurrent_served _)
      intro current
      apply Served.check
      intro pending decided
      have others : Served git start policy
          (fun forge => forge.base = base ∧ current.baseReference = forge.base update.pullRequest)
          (verifyUpdates world rest)
          fun others forge => (forge.base = base ∧
            others = rest.filter fun update => base update.pullRequest = some update.fromBranch) ∧
              current.baseReference = base update.pullRequest :=
        ih.frame.imp (fun forge initially => ⟨initially.1, initially.1 ▸ initially.2⟩) fun _ _ finished => finished
      apply Served.bind others
      intro others
      apply Served.pure
      rintro forge ⟨⟨same, rfl⟩, observed⟩
      refine ⟨same, ?_⟩
      rw [List.filter_cons, pendingUpdate_ok decided, observed]

/-- The bases after the updates. -/
def published (base : Int → Option String) (updates : List BaseUpdate) : Int → Option String :=
  updates.foldl (fun base update => Function.update base update.pullRequest (some update.toBranch)) base

theorem published_cons (base : Int → Option String) (update : BaseUpdate) (rest : List BaseUpdate) :
    published base (update :: rest) =
      published (Function.update base update.pullRequest (some update.toBranch)) rest := rfl

/-- A base is the target when all updates of the pull request move it there. -/
theorem published_eq {updates : List BaseUpdate} {number : Int} {target : String}
    (aims : ∀ update ∈ updates, update.pullRequest = number → update.toBranch = target)
    (moves : base number = some target ∨ ∃ update ∈ updates, update.pullRequest = number) :
    published base updates number = some target := by
  induction updates generalizing base with
  | nil =>
      rcases moves with settled | ⟨_, member, _⟩
      · exact settled
      · cases member
  | cons update rest ih =>
      rw [published_cons]
      apply ih fun other member => aims other (.tail _ member)
      by_cases mine : update.pullRequest = number
      · left
        rw [← mine, Function.update_self, aims update (.head _) mine]
      · rw [Function.update_of_ne fun same => mine same.symm]
        refine moves.imp_right ?_
        rintro ⟨other, member, same⟩
        rcases List.mem_cons.mp member with rfl | later
        · exact absurd same mine
        · exact ⟨other, later, same⟩

theorem publishUpdates_served {remote : String → Option String} (updates : List BaseUpdate) :
    Served git start policy (Shows remote base) (publishUpdates world updates)
      fun _ => Shows remote (published base updates) := by
  induction updates generalizing base with
  | nil => exact .pure fun _ shows => shows
  | cons update rest ih =>
      apply Served.bind (ensureLease_served _).failingWith
      intro _
      have moved : Served git start policy (Shows remote base)
          (Logged.failingWith WorkerError.github
            (Logged.call (.updated update.pullRequest update.toBranch)
              (world.updatePullRequestBase update.pullRequest update.toBranch)))
          fun updated => Shows remote
            (Function.update base update.pullRequest updated.baseReference) := by
        apply Served.failingWith
        apply Served.call
        intro log outcome initially _
        cases outcome with
        | error => exact ⟨keepsHistory_of_remote rfl, fun _ same => by cases same⟩
        | ok updated =>
            refine ⟨keepsHistory_of_remote rfl, ?_⟩
            rintro _ ⟨⟩
            exact ⟨initially.1, by simp only [Forge.next, initially.2]⟩
      apply Served.bind moved
      intro updated
      apply Served.check
      intro _ confirmed
      rw [ensure_eq_ok.mp confirmed]
      apply Served.bind ih
      intro _
      exact .pure fun _ finished => finished

/-! ### The whole run -/

/-- Every branch is on top of its target, which is its base on GitHub. -/
def Settled (git : Git) (steps : List (StackPullRequest × String)) (forge : Forge) : Prop :=
  ∀ step ∈ steps, OnBranch git forge step.1.headBranch step.2 ∧ forge.base step.1.number = some step.2

theorem settled_of_shows {remote : String → Option String} {steps : List (StackPullRequest × String)}
    {initial forge : Forge} (rests : Rests git base steps initial)
    (aims : ∀ step ∈ steps, ∀ update ∈ stackPlan.requiredBaseUpdates, update.pullRequest = step.1.number →
      update.toBranch = step.2)
    (agrees : ∀ step ∈ steps, Agrees stackPlan.requiredBaseUpdates base step.1.number step.2)
    (same : initial.remote = remote)
    (shows : Shows remote (published base (stackPlan.requiredBaseUpdates.filter fun update =>
      base update.pullRequest = some update.fromBranch)) forge) : Settled git steps forge := by
  intro step member
  constructor
  · obtain ⟨tip, onto, found, under, above⟩ := rests.2 step member
    refine ⟨tip, onto, ?_, ?_, above⟩
    · rw [shows.1, ← same, found]
    · rw [shows.1, ← same, under]
  · rw [shows.2]
    apply published_eq
    · exact fun update inside => aims step member update (List.mem_filter.mp inside).1
    · refine (agrees step member).imp_right ?_
      rintro ⟨update, required, mine, moving, _⟩
      exact ⟨update, List.mem_filter.mpr ⟨required, decide_eq_true (mine ▸ moving)⟩, mine⟩

/-- The pending updates settle the bases of branches that are on top of their targets. -/
theorem publishUpdates_settled {steps : List (StackPullRequest × String)} {pending : List BaseUpdate}
    (aims : ∀ step ∈ steps, ∀ update ∈ stackPlan.requiredBaseUpdates, update.pullRequest = step.1.number →
      update.toBranch = step.2) :
    Served git start policy
      (fun forge => (Rests git base steps forge ∧
        ∀ step ∈ steps, Agrees stackPlan.requiredBaseUpdates base step.1.number step.2) ∧
          pending = stackPlan.requiredBaseUpdates.filter
            fun update => base update.pullRequest = some update.fromBranch)
      (publishUpdates world pending) fun _ => Settled git steps := by
  apply Served.fixing
  intro middle
  have moved : Served git start policy
      (fun forge => Shows middle.remote middle.base forge ∧ (Rests git base steps middle ∧
        ∀ step ∈ steps, Agrees stackPlan.requiredBaseUpdates base step.1.number step.2) ∧
          pending = stackPlan.requiredBaseUpdates.filter
            fun update => base update.pullRequest = some update.fromBranch)
      (publishUpdates world pending)
      fun _ forge => Shows middle.remote (published middle.base pending) forge ∧ (Rests git base steps middle ∧
        ∀ step ∈ steps, Agrees stackPlan.requiredBaseUpdates base step.1.number step.2) ∧
          pending = stackPlan.requiredBaseUpdates.filter
            fun update => base update.pullRequest = some update.fromBranch := (publishUpdates_served pending).frame
  refine moved.imp (fun forge initially => ?_) fun _ forge finished => ?_
  · obtain ⟨rfl, prepared⟩ := initially
    exact ⟨⟨rfl, rfl⟩, prepared⟩
  · obtain ⟨shows, ⟨rests, agrees⟩, rfl⟩ := finished
    rw [rests.1] at shows
    exact settled_of_shows rests aims agrees rfl shows

theorem executeStack_served {pullRequests stack : List StackPullRequest}
    (order : stackPlan.mergeOrder = stack.map StackPullRequest.number)
    (found : ∀ pullRequest ∈ stack, (byNumber pullRequests).lookup pullRequest.number = some pullRequest)
    (apart : (targets none stack).Pairwise Undisturbed)
    (aims : ∀ step ∈ targets none stack, ∀ update ∈ stackPlan.requiredBaseUpdates,
      update.pullRequest = step.1.number → update.toBranch = step.2) :
    Served git start policy (fun _ => True) (executeStack world repository policy pullRequests stackPlan)
      fun report forge => report.completed = true → Settled git (targets none stack) forge := by
  apply Served.fixing
  intro initial
  have prepared : Served git start policy (fun forge => forge = initial ∧ True)
      (prepareStack world repository policy pullRequests stackPlan)
      fun prepared forge => (prepared.2.blockers = [] → Rests git initial.base (targets none stack) forge ∧
        ∀ step ∈ targets none stack, Agrees stackPlan.requiredBaseUpdates initial.base step.1.number step.2) ∧
          prepared.1 = stackPlan.requiredBaseUpdates.filter
            fun update => initial.base update.pullRequest = some update.fromBranch := by
    have verified : Served git start policy (fun forge => forge = initial ∧ True)
        (verifyUpdates world stackPlan.requiredBaseUpdates)
        fun pending forge => forge.base = initial.base ∧
          pending = stackPlan.requiredBaseUpdates.filter
            fun update => initial.base update.pullRequest = some update.fromBranch :=
      (verifyUpdates_served _).imp (fun _ same => congrArg Forge.base same.1) fun _ _ finished => finished
    apply Served.bind verified
    intro pending
    have rebased : Served git start policy
        (fun forge => forge.base = initial.base ∧ pending = stackPlan.requiredBaseUpdates.filter
            fun update => initial.base update.pullRequest = some update.fromBranch)
        (rebaseStack world repository policy (byNumber pullRequests) stackPlan none stackPlan.mergeOrder)
        fun progress forge => (progress.blockers = [] → Rests git initial.base (targets none stack) forge ∧
          ∀ step ∈ targets none stack, Agrees stackPlan.requiredBaseUpdates initial.base step.1.number step.2) ∧
            pending = stackPlan.requiredBaseUpdates.filter
              fun update => initial.base update.pullRequest = some update.fromBranch := by
      rw [order]
      have looped : Served git start policy (Rests git initial.base [])
          (rebaseStack world repository policy (byNumber pullRequests) stackPlan none
            (stack.map StackPullRequest.number))
          fun progress forge => progress.blockers = [] → Rests git initial.base (targets none stack) forge ∧
            ∀ step ∈ targets none stack, Agrees stackPlan.requiredBaseUpdates initial.base step.1.number step.2 :=
        rebaseStack_served stack none found nofun apart
      refine looped.frame.imp (fun forge initially => ?_) fun _ _ finished => finished
      exact ⟨⟨initially.1, fun _ member => by cases member⟩, initially.2⟩
    apply Served.bind rebased
    intro progress
    exact .pure fun _ finished => finished
  apply Served.bind prepared
  rintro ⟨pending, progress⟩
  dsimp only
  by_cases clear : progress.blockers = []
  · rw [if_pos clear]
    have moved : Served git start policy
        (fun forge => (progress.blockers = [] → Rests git initial.base (targets none stack) forge ∧
          ∀ step ∈ targets none stack, Agrees stackPlan.requiredBaseUpdates initial.base step.1.number step.2) ∧
            pending = stackPlan.requiredBaseUpdates.filter
              fun update => initial.base update.pullRequest = some update.fromBranch)
        (publishUpdates world pending) fun _ => Settled git (targets none stack) :=
      (publishUpdates_settled aims).imp (fun _ initially => ⟨initially.1 clear, initially.2⟩)
        fun _ _ settled => settled
    apply Served.bind moved
    intro updates
    exact .pure fun _ settled _ => settled
  · rw [if_neg clear]
    have blocked : ∀ updates, (stackPlan.report progress updates).completed ≠ true :=
      fun _ completed => clear (of_decide_eq_true completed)
    have skipped (before : Forge → Prop) : Served git start policy before (publishUpdates world [])
        fun _ _ => True := .pure fun _ _ => trivial
    apply Served.bind (skipped _)
    intro updates
    exact .pure fun _ _ completed => absurd completed (blocked updates)

end Loop

/-! ### The order of the plan -/

section Order

variable {pullRequests stack : List StackPullRequest} {stackPlan : StackPlan}

/-- A step of the stack goes onto its predecessor, and the first one onto its base. -/
theorem mem_targets {parent : Option StackPullRequest} {child : StackPullRequest} {target : String} :
    (child, target) ∈ targets parent stack ↔
      (stack.head? = some child ∧ (parent.map StackPullRequest.headBranch).getD child.baseBranch = target) ∨
        ∃ before, [before, child] <:+: stack ∧ before.headBranch = target := by
  induction stack generalizing parent with
  | nil => simp [targets]
  | cons pullRequest rest ih =>
      rw [targets, List.mem_cons, ih, List.head?_cons]
      constructor
      · rintro (same | ⟨next, rfl⟩ | ⟨before, inside, rfl⟩)
        · obtain ⟨rfl, rfl⟩ := Prod.mk.inj same
          exact .inl ⟨rfl, rfl⟩
        · obtain ⟨back, rfl⟩ := List.head?_eq_some_iff.mp next
          exact .inr ⟨pullRequest, (List.prefix_append [pullRequest, child] back).isInfix, rfl⟩
        · exact .inr ⟨before, List.infix_cons inside, rfl⟩
      · rintro (⟨⟨⟩, rfl⟩ | ⟨before, inside, rfl⟩)
        · exact .inl rfl
        · rcases List.infix_cons_iff.mp inside with starts | later
          · obtain ⟨rfl, back⟩ := List.cons_prefix_cons.mp starts
            obtain ⟨more, rfl⟩ := back
            exact .inr (.inl ⟨rfl, rfl⟩)
          · exact .inr (.inr ⟨before, later, rfl⟩)

theorem mem_of_targets {parent : Option StackPullRequest} {child : StackPullRequest} {target : String}
    (step : (child, target) ∈ targets parent stack) : child ∈ stack := by
  rcases mem_targets.mp step with ⟨first, _⟩ | ⟨before, place, _⟩
  · exact List.mem_of_mem_head? first
  · exact place.subset (by simp)

/-- With distinct heads no rebase moves what an earlier one has read. -/
theorem targets_undisturbed {parent : Option StackPullRequest} (heads : (stack.map StackPullRequest.headBranch).Nodup)
    (below : ∀ first, stack.head? = some first → ∀ other ∈ stack,
      other.headBranch ≠ (parent.map StackPullRequest.headBranch).getD first.baseBranch) :
    (targets parent stack).Pairwise Undisturbed := by
  induction stack generalizing parent with
  | nil => exact .nil
  | cons pullRequest rest ih =>
      rw [List.map_cons, List.nodup_cons] at heads
      have different : ∀ other ∈ rest, other.headBranch ≠ pullRequest.headBranch :=
        fun other member same => heads.1 (same ▸ List.mem_map_of_mem member)
      rw [targets, List.pairwise_cons]
      constructor
      · intro step member
        have inside : step.1 ∈ rest := mem_of_targets member
        exact ⟨different step.1 inside, below pullRequest rfl step.1 (.tail _ inside)⟩
      · exact ih heads.2 fun first _ other member => different other member

theorem exists_stack {order : List Int} (present : ∀ number ∈ order, Present pullRequests number) :
    ∃ stack : List StackPullRequest, order = stack.map StackPullRequest.number ∧
      ∀ pullRequest ∈ stack, pullRequest ∈ pullRequests := by
  induction order with
  | nil => exact ⟨[], rfl, nofun⟩
  | cons number rest ih =>
      obtain ⟨pullRequest, member, rfl⟩ := present number (.head _)
      obtain ⟨stack, rfl, inside⟩ := ih fun other later => present other (.tail _ later)
      exact ⟨pullRequest :: stack, rfl, List.forall_mem_cons.mpr ⟨member, inside⟩⟩

/-- The parent of a number is unique. -/
theorem edge_unique (distinct : DistinctNumbers pullRequests) (placeable : Placeable pullRequests)
    {child first second : Int} (one : Edge pullRequests child first) (other : Edge pullRequests child second) :
    first = second := by
  rw [← parentNumber_eq_some distinct placeable] at one other
  exact Option.some.inj (one.symm.trans other)

/-- In the order of a plan a parent stands before its child. -/
theorem infix_of_edge {order : List Int} {root : Int} (distinct : DistinctNumbers pullRequests)
    (placeable : Placeable pullRequests) (first : order.head? = some root) (isRoot : Root pullRequests root)
    (steps : order.IsChain fun number next => Edge pullRequests next number) {child parent : Int}
    (member : child ∈ order) (edge : Edge pullRequests child parent) : [parent, child] <:+: order := by
  obtain ⟨front, back, rfl⟩ := List.append_of_mem member
  cases front using List.reverseRecOn with
  | nil =>
      cases first
      exact absurd edge (isRoot.2 parent)
  | append_singleton front before =>
      have near : [before, child] <:+: front ++ [before] ++ child :: back := ⟨front, back, by simp⟩
      have pair := List.IsChain.infix steps near
      have above : Edge pullRequests child before := (List.isChain_cons_cons.mp pair).1
      rwa [← edge_unique distinct placeable above edge]

/-- Every branch is on top of the one before it, the first one is on top of its base branch, and the
bases on GitHub are the heads of the parents. -/
structure Stacked (git : Git) (pullRequests : List StackPullRequest) (order : List Int) (forge : Forge) : Prop where
  first : ∀ pullRequest ∈ pullRequests, order.head? = some pullRequest.number →
    OnBranch git forge pullRequest.headBranch pullRequest.baseBranch ∧
      forge.base pullRequest.number = some pullRequest.baseBranch
  later : ∀ parent ∈ pullRequests, ∀ child ∈ pullRequests, [parent.number, child.number] <:+: order →
    OnBranch git forge child.headBranch parent.headBranch
  based : ∀ parent ∈ pullRequests, ∀ child ∈ pullRequests, Edge pullRequests child.number parent.number →
    forge.base child.number = some parent.headBranch

/-- A pair of the order is a pair of the stack. -/
theorem pair_of_infix (distinct : DistinctNumbers pullRequests) (inside : ∀ other ∈ stack, other ∈ pullRequests)
    {parent child : StackPullRequest} (parent_ : parent ∈ pullRequests) (child_ : child ∈ pullRequests)
    (pair : [parent.number, child.number] <:+: stack.map StackPullRequest.number) : [parent, child] <:+: stack := by
  obtain ⟨items, within, same⟩ := List.infix_map_iff.mp pair
  obtain ⟨first, tail, rfl, one, rest⟩ := List.map_eq_cons_iff.mp same.symm
  obtain ⟨second, nothing, rfl, other, last⟩ := List.map_eq_cons_iff.mp rest
  obtain rfl := List.map_eq_nil_iff.mp last
  rwa [distinct.eq parent_ (inside first (within.subset (by simp))) one.symm,
    distinct.eq child_ (inside second (within.subset (by simp))) other.symm]

theorem stacked_of_settled {git : Git} {forge : Forge} {root : Int} (distinct : DistinctNumbers pullRequests)
    (placeable : Placeable pullRequests) (inside : ∀ other ∈ stack, other ∈ pullRequests)
    (first : (stack.map StackPullRequest.number).head? = some root) (isRoot : Root pullRequests root)
    (steps : (stack.map StackPullRequest.number).IsChain fun number next => Edge pullRequests next number)
    (covers : ∀ other ∈ pullRequests, other.number ∈ stack.map StackPullRequest.number)
    (settled : Settled git (targets none stack) forge) :
    Stacked git pullRequests (stack.map StackPullRequest.number) forge where
  first pullRequest member heads := by
    rw [List.head?_map, Option.map_eq_some_iff] at heads
    obtain ⟨other, found, same⟩ := heads
    have own : other = pullRequest :=
      distinct.eq (inside other (List.mem_of_mem_head? found)) member same
    exact settled (pullRequest, pullRequest.baseBranch) (mem_targets.mpr (.inl ⟨own ▸ found, rfl⟩))
  later parent parent_ child child_ pair :=
    (settled (child, parent.headBranch)
      (mem_targets.mpr (.inr ⟨parent, pair_of_infix distinct inside parent_ child_ pair, rfl⟩))).1
  based parent parent_ child child_ edge := by
    have pair := infix_of_edge distinct placeable first isRoot steps (covers child child_) edge
    exact (settled (child, parent.headBranch)
      (mem_targets.mpr (.inr ⟨parent, pair_of_infix distinct inside parent_ child_ pair, rfl⟩))).2

/-- The plan names every pull request, from its root on. -/
theorem plan_walks (planned : (plan pullRequests).run = some (.ok stackPlan)) :
    Placeable pullRequests ∧ (∃ root, Root pullRequests root ∧ stackPlan.mergeOrder.head? = some root) ∧
      (stackPlan.mergeOrder.IsChain fun number next => Edge pullRequests next number) ∧
        ∀ update ∈ stackPlan.requiredBaseUpdates, ∃ child ∈ pullRequests, baseUpdate pullRequests child = some update := by
  obtain ⟨nonempty, distinct⟩ := plan_admits planned
  obtain ⟨⟨placeable, chain⟩, root, isRoot, walked, updates⟩ := (plan_eq_ok distinct nonempty).mp planned
  obtain ⟨order, found, _, first, steps⟩ := walk_chain distinct placeable chain isRoot
  rw [walked] at found
  cases found
  refine ⟨placeable, ⟨root, isRoot, first⟩, steps, fun update member => ?_⟩
  rw [updates] at member
  exact (mem_updates distinct).mp member

/-- The update of a child moves its base to the head of the one before it. -/
theorem update_aims {update : BaseUpdate} {child : StackPullRequest} {target : String}
    (planned : (plan pullRequests).run = some (.ok stackPlan))
    (order : stackPlan.mergeOrder = stack.map StackPullRequest.number)
    (inside : ∀ other ∈ stack, other ∈ pullRequests) (step : (child, target) ∈ targets none stack)
    (required : update ∈ stackPlan.requiredBaseUpdates) (mine : update.pullRequest = child.number) :
    update.toBranch = target := by
  obtain ⟨_, distinct⟩ := plan_admits planned
  obtain ⟨placeable, ⟨root, isRoot, first⟩, steps, updates⟩ := plan_walks planned
  obtain ⟨own, member, correction⟩ := updates update required
  obtain ⟨parent, parent_, declared, _, rfl⟩ := (baseUpdate_eq_some distinct).mp correction
  obtain rfl := distinct.eq member (inside child (mem_of_targets step)) mine
  have edge : Edge pullRequests own.number parent.number := ⟨own, member, rfl, .inl declared⟩
  rw [order] at first steps
  rcases mem_targets.mp step with ⟨head, _⟩ | ⟨before, near, rfl⟩
  · rw [List.head?_map, head] at first
    cases first
    exact absurd edge (isRoot.2 parent.number)
  · have pair := List.IsChain.infix steps (near.map StackPullRequest.number)
    have above : Edge pullRequests own.number before.number := (List.isChain_cons_cons.mp pair).1
    have same := edge_unique distinct placeable edge above
    rw [distinct.eq parent_ (inside before (near.subset (by simp))) same]

/-- With distinct heads no rebase of the plan moves what an earlier one has read. -/
theorem plan_undisturbed (planned : (plan pullRequests).run = some (.ok stackPlan))
    (order : stackPlan.mergeOrder = stack.map StackPullRequest.number)
    (inside : ∀ other ∈ stack, other ∈ pullRequests)
    (heads : (pullRequests.map StackPullRequest.headBranch).Nodup) : (targets none stack).Pairwise Undisturbed := by
  obtain ⟨_, distinct⟩ := plan_admits planned
  obtain ⟨placeable, ⟨root, isRoot, first⟩, steps, updates⟩ := plan_walks planned
  have once : stack.Nodup := by
    apply List.Nodup.of_map StackPullRequest.number
    rw [← order]
    exact (plan_order planned).nodup_iff.mpr distinct
  apply targets_undisturbed
  · refine List.Nodup.map_on (fun one one_ other other_ same => ?_) once
    exact List.inj_on_of_nodup_map heads (inside one one_) (inside other other_) same
  · intro base found other member same
    rw [order, List.head?_map, found] at first
    cases first
    -- A pull request whose head is the base of the root would be its parent.
    have base_ := inside base (List.mem_of_mem_head? found)
    cases declared : base.explicitParent with
    | some parent => exact isRoot.2 parent ⟨base, base_, rfl, .inl declared⟩
    | none =>
        exact isRoot.2 other.number ⟨base, base_, rfl, .inr ⟨declared, other, inside other member, same, rfl⟩⟩

end Order

/-! ### Stacked histories -/

/--
Let git and GitHub be faithful, let nobody else push or edit, and let no two pull requests of the
stack have the same head. Then a completed stack rebase leaves a stacked history from every start. In every
run a branch loses its history only where the policy allows it.
-/
theorem stack_rebase_stacks_history {git : Git} {start : Forge} {world : StackWorld} {repository : RepositoryContext}
    {policy : RebasePolicy} {fromValue : Json → Except String (List StackPullRequest)} {plan : Json}
    {pullRequests : List StackPullRequest} {stackPlan : StackPlan}
    (stored : storedStack fromValue plan = .ok (pullRequests, stackPlan))
    (heads : (pullRequests.map StackPullRequest.headBranch).Nodup)
    (faithful : Guarded (Faithful git start) (stackRebase world repository policy fromValue plan []).2) :
    Guarded (fun past entry => KeepsHistory git policy (forgeAfter git start past) (forgeAfter git start (past ++ [entry])))
        (stackRebase world repository policy fromValue plan []).2 ∧
      ∀ report, (stackRebase world repository policy fromValue plan []).1 = .ok report → report.completed = true →
        Stacked git pullRequests stackPlan.mergeOrder
          (forgeAfter git start (stackRebase world repository policy fromValue plan []).2) := by
  have admitted : Logged.settled (storedStack fromValue plan) ([] : List StackEntry) =
      (.ok (pullRequests, stackPlan), []) := by
    rw [stored]
    rfl
  have ran : stackRebase world repository policy fromValue plan [] =
      executeStack world repository policy pullRequests stackPlan [] := Logged.bind_ok admitted
  have planned := planStack_eq_ok.mp (storedStack_planned stored)
  obtain ⟨_, distinct⟩ := plan_admits planned
  obtain ⟨placeable, ⟨root, isRoot, first⟩, steps, updates⟩ := plan_walks planned
  have perm := plan_order planned
  obtain ⟨stack, order, inside⟩ := exists_stack fun number member => present_iff.mpr (perm.subset member)
  have found (other : StackPullRequest) (member : other ∈ stack) :
      (byNumber pullRequests).lookup other.number = some other :=
    (lookup_byNumber distinct).mpr ⟨inside other member, rfl⟩
  have served : Served git start policy (fun _ => True)
      (executeStack world repository policy pullRequests stackPlan)
      fun report forge => report.completed = true → Settled git (targets none stack) forge :=
    executeStack_served order found (plan_undisturbed planned order inside heads)
      fun _ step _ required mine => update_aims planned order inside step required mine
  rw [ran] at faithful ⊢
  obtain ⟨history, finished⟩ := Serves.run served trivial faithful
  refine ⟨history, fun report returned completed => ?_⟩
  have covers (other : StackPullRequest) (member : other ∈ pullRequests) :
      other.number ∈ stack.map StackPullRequest.number :=
    order ▸ perm.symm.subset (List.mem_map_of_mem member)
  rw [order] at first steps ⊢
  exact stacked_of_settled distinct placeable inside first isRoot steps covers (finished report returned completed)

/-- The second branch of the stack is behind the first one. -/
def lagging : List StackPullRequest := [⟨10, "bottom", "main", none⟩, ⟨20, "top", "main", some 10⟩]

def laggingGit : Git where
  descends later earlier := (later, earlier) ∈
    [("2222222", "1111111"), ("4444444", "2222222"), ("4444444", "1111111")]
  rebased past := if past.length = 14 then "2222222" else "4444444"

def laggingForge : Forge where
  remote branch := [("main", "1111111"), ("bottom", "2222222"), ("top", "3333333")].lookup branch
  base _ := some "main"
  tip _ := ""
  tracked _ _ := none

def laggingPolicy : RebasePolicy := ⟨true, ["top"], []⟩

/-- Git answers by the number of calls before. -/
def laggingWorld : StackWorld where
  assertLease _ := .ok true
  getPullRequest number _ := .ok ⟨some "open", some false, ⟨some "octo/tools",
    if number = 10 then "2222222" else "3333333", some (if number = 10 then "bottom" else "top")⟩, some "main"⟩
  cloneBranch _ _ _ _ := .ok ()
  runBoundedArgv _ argv log := .ok ⟨argv, log.length ≠ 34,
    ([(7, "2222222 refs/heads/bottom"), (16, "2222222"), (23, "3333333 refs/heads/top"), (32, "4444444")].lookup
      log.length).getD "", ""⟩
  validate _ _ _ := .ok []
  updatePullRequestBase _ branch _ := .ok ⟨some "open", some false, ⟨none, "", none⟩, some branch⟩

def laggingRun : Except WorkerError StackReport × List StackEntry :=
  stackRebase laggingWorld ⟨"octo", "tools"⟩ laggingPolicy (fun _ => .ok lagging)
    (.object [("pull_requests", .array [])]) []

theorem lagging_stack_history :
    Stacked laggingGit lagging [10, 20] (forgeAfter laggingGit laggingForge laggingRun.2) := by
  have planned : planStack lagging = .ok ⟨[10, 20], [⟨20, "main", "bottom"⟩]⟩ := planStack_eq_ok.mpr (by decide)
  have stored : storedStack (fun _ => .ok lagging) (.object [("pull_requests", .array [])]) =
      .ok (lagging, ⟨[10, 20], [⟨20, "main", "bottom"⟩]⟩) := by
    rw [storedStack]
    change ((planStack lagging).mapError fun error => WorkerError.mutationAdmissionRequired error.text) >>=
      (fun stackPlan => pure (lagging, stackPlan)) = _
    rw [planned]
    rfl
  have faithful : Guarded (Faithful laggingGit laggingForge) laggingRun.2 :=
    guarded_of_faithfulFrom laggingGit laggingRun.2 .nil (by decide +kernel)
  have completed : laggingRun.1.toOption.map StackReport.completed = some true := by decide +kernel
  obtain ⟨report, returned, completed⟩ := Option.map_eq_some_iff.mp completed
  have answered : laggingRun.1 = .ok report := by
    cases same : laggingRun.1 with
    | error reason =>
        rw [same] at returned
        cases returned
    | ok other =>
        rw [same] at returned
        exact congrArg Except.ok (Option.some.inj returned)
  exact (stack_rebase_stacks_history stored (by decide) faithful).2 report answered completed

end PiTools.Stack
