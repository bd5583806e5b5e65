import PiTools.Stack.Forge

/-
This file proves where a rebase that returns leaves its branch.
-/

namespace PiTools.Stack

open Library

/-! ### Rules -/

section Rules

variable {git : Git} {start : Forge} {policy : RebasePolicy} {world : StackWorld} {Failure Other Answer Result : Type}
  {before stronger : Forge → Prop} {program : Logged StackEntry Failure Answer}

/-- What a program makes of the forge when git and GitHub are faithful. It keeps the history of every
branch that it may not rewrite. -/
def Served (git : Git) (start : Forge) (policy : RebasePolicy) (before : Forge → Prop)
    (program : Logged StackEntry Failure Answer) (after : Answer → Forge → Prop) : Prop :=
  Serves (Faithful git start)
    (fun past entry => KeepsHistory git policy (forgeAfter git start past) (forgeAfter git start (past ++ [entry])))
    (fun log => before (forgeAfter git start log)) program fun answer log => after answer (forgeAfter git start log)

theorem Served.pure {answer : Answer} {after : Answer → Forge → Prop}
    (holds : ∀ forge, before forge → after answer forge) :
    Served git start policy before (pure answer : Logged StackEntry Failure Answer) after :=
  Serves.pure fun _ initially => holds _ initially

theorem Served.settled {outcome : Except Failure Answer} {after : Answer → Forge → Prop}
    (holds : ∀ forge answer, before forge → outcome = .ok answer → after answer forge) :
    Served git start policy before (Logged.settled outcome) after :=
  Serves.settled fun _ answer initially same => holds _ answer initially same

theorem Served.bind {middle : Answer → Forge → Prop} {rest : Answer → Logged StackEntry Failure Result}
    {after : Result → Forge → Prop} (first : Served git start policy before program middle)
    (later : ∀ answer, Served git start policy (middle answer) (rest answer) after) :
    Served git start policy before (program >>= rest) after := Serves.bind first later

theorem Served.check {outcome : Except Failure Answer} {rest : Answer → Logged StackEntry Failure Result}
    {after : Result → Forge → Prop}
    (later : ∀ answer, outcome = .ok answer → Served git start policy before (rest answer) after) :
    Served git start policy before (Logged.settled outcome >>= rest) after := Serves.check later

theorem Served.frame {fact : Prop} {after : Answer → Forge → Prop}
    (served : Served git start policy before program after) :
    Served git start policy (fun forge => before forge ∧ fact) program fun answer forge => after answer forge ∧ fact :=
  Serves.frame served

/-- A program starts from some forge. -/
theorem Served.fixing {after : Answer → Forge → Prop}
    (served : ∀ initial, Served git start policy (fun forge => forge = initial ∧ before forge) program after) :
    Served git start policy before program after := by
  intro log guarded initially
  exact served (forgeAfter git start log) log guarded fun kept => ⟨rfl, initially kept⟩

theorem Served.attempt {after : Answer → Forge → Prop} (served : Served git start policy before program after) :
    Served git start policy before (Logged.attempt program : Logged StackEntry Other _)
      fun outcome forge => ∀ answer, outcome = .ok answer → after answer forge := Serves.attempt served

theorem Served.failingWith {wrap : Failure → Other} {after : Answer → Forge → Prop}
    (served : Served git start policy before program after) :
    Served git start policy before (Logged.failingWith wrap program) after := Serves.failingWith served

theorem Served.imp {after weaker : Answer → Forge → Prop} (served : Served git start policy before program after)
    (given : ∀ forge, stronger forge → before forge)
    (gives : ∀ answer forge, after answer forge → weaker answer forge) :
    Served git start policy stronger program weaker :=
  Serves.imp served (fun _ initially => given _ initially) fun answer _ finished => gives answer _ finished

theorem Served.note {entry : StackEntry} {after : Unit → Forge → Prop}
    (holds : ∀ log, before (forgeAfter git start log) →
      KeepsHistory git policy (forgeAfter git start log) (Forge.next git log (forgeAfter git start log) entry) ∧
        after () (Forge.next git log (forgeAfter git start log) entry)) :
    Served git start policy before (Logged.note entry : Logged StackEntry Failure Unit) after := by
  apply Serves.note
  intro log initially
  rw [forgeAfter_snoc]
  exact holds log initially

theorem Served.call {entry : Except Failure Answer → StackEntry} {answer : List StackEntry → Except Failure Answer}
    {after : Answer → Forge → Prop}
    (holds : ∀ log outcome, before (forgeAfter git start log) → Faithful git start log (entry outcome) →
      KeepsHistory git policy (forgeAfter git start log) (Forge.next git log (forgeAfter git start log) (entry outcome)) ∧
        ∀ value, outcome = .ok value →
          after value (Forge.next git log (forgeAfter git start log) (entry outcome))) :
    Served git start policy before (Logged.call entry answer) after := by
  apply Serves.call
  intro log outcome initially kept
  rw [forgeAfter_snoc]
  exact holds log outcome initially kept

/-- Only a push moves a remote branch. -/
theorem keepsHistory_of_remote {forge other : Forge} (same : other.remote = forge.remote) :
    KeepsHistory git policy forge other := by
  intro branch old found new later
  rw [same, found] at later
  exact .inl (Option.some.inj later).symm

theorem ensureLease_served (before : Forge → Prop) :
    Served git start policy before (ensureLease world) fun _ => before := by
  have asserted : Served git start policy before
      (Logged.failingWith WorkspaceError.leaseCheck (Logged.call .asserted world.assertLease)) fun _ => before := by
    apply Served.failingWith
    apply Served.call
    exact fun _ _ initially _ => ⟨keepsHistory_of_remote rfl, fun _ _ => initially⟩
  apply Served.bind asserted
  intro held
  exact .settled fun _ _ initially _ => initially

/-- A command changes the forge when it succeeds. -/
theorem runResult_served {number : Int} {argv : List String} {after : CommandResult → Forge → Prop}
    (holds : ∀ past forge result, before forge → GitAnswers git past forge number result (gitCommand argv) →
      KeepsHistory git policy forge (forge.run git past number (gitCommand argv)) ∧
        after result (forge.run git past number (gitCommand argv))) :
    Served git start policy before (runResult world number argv) fun result forge =>
      (result.success = true → after result forge) ∧ (result.success = false → before forge) := by
  apply Served.call
  intro log outcome initially kept
  cases outcome with
  | error reason => exact ⟨keepsHistory_of_remote rfl, fun _ same => by cases same⟩
  | ok result =>
      cases success : result.success with
      | false =>
          have same : Forge.next git log (forgeAfter git start log) (.command number argv (.ok result)) =
              forgeAfter git start log := by
            rw [Forge.next, success, if_neg Bool.false_ne_true]
          rw [same]
          refine ⟨keepsHistory_of_remote rfl, fun value answered => ?_⟩
          cases answered
          exact ⟨fun succeeds => absurd (success.symm.trans succeeds) Bool.false_ne_true, fun _ => initially⟩
      | true =>
          have ran : Forge.next git log (forgeAfter git start log) (.command number argv (.ok result)) =
              (forgeAfter git start log).run git log number (gitCommand argv) := by
            rw [Forge.next, success, if_pos rfl]
          obtain ⟨history, finished⟩ := holds log _ result initially (kept success)
          rw [ran]
          refine ⟨history, fun value answered => ?_⟩
          cases answered
          exact ⟨fun _ => finished, fun fails => absurd (fails.symm.trans success) Bool.false_ne_true⟩

theorem run_served {number : Int} {argv : List String} {after : CommandResult → Forge → Prop}
    (holds : ∀ past forge result, before forge → GitAnswers git past forge number result (gitCommand argv) →
      KeepsHistory git policy forge (forge.run git past number (gitCommand argv)) ∧
        after result (forge.run git past number (gitCommand argv))) :
    Served git start policy before (run world number argv) after := by
  apply Served.bind (runResult_served holds)
  intro result
  have succeeded : Served git start policy
      (fun forge => (result.success = true → after result forge) ∧ (result.success = false → before forge))
      (Logged.settled (ensure (result.success = true) (WorkspaceError.commandFailed argv result.stderr)))
      fun _ forge => after result forge :=
    .settled fun _ _ answered ensured => answered.1 (ensure_eq_ok.mp ensured)
  apply Served.bind succeeded
  intro _
  exact .pure fun _ finished => finished

/-- A command that changes nothing still answers. -/
theorem runResult_reads {number : Int} {argv : List String}
    (still : ∀ past forge, Forge.run git past forge number (gitCommand argv) = forge) :
    Served git start policy before (runResult world number argv) fun result forge => before forge ∧
      (result.success = true → ∃ past, GitAnswers git past forge number result (gitCommand argv)) := by
  have answered : Served git start policy before (runResult world number argv) fun result forge =>
      (result.success = true → before forge ∧
        ∃ past, GitAnswers git past forge number result (gitCommand argv)) ∧
      (result.success = false → before forge) := by
    apply runResult_served
    intro past forge result initially answers
    rw [still]
    exact ⟨keepsHistory_of_remote rfl, initially, past, answers⟩
  refine answered.imp (fun _ initially => initially) fun result forge finished => ?_
  cases success : result.success with
  | false => exact ⟨finished.2 success, fun same => absurd same Bool.false_ne_true⟩
  | true => exact ⟨(finished.1 success).1, fun _ => (finished.1 success).2⟩

theorem run_reads {number : Int} {argv : List String}
    (still : ∀ past forge, Forge.run git past forge number (gitCommand argv) = forge) :
    Served git start policy before (run world number argv) fun result forge => before forge ∧
      ∃ past, GitAnswers git past forge number result (gitCommand argv) := by
  apply run_served
  intro past forge result initially answers
  rw [still]
  exact ⟨keepsHistory_of_remote rfl, initially, past, answers⟩

/-- Other commands change nothing that the rebase reads. -/
theorem run_other {number : Int} {argv : List String} (other : gitCommand argv = .other) (before : Forge → Prop) :
    Served git start policy before (run world number argv) fun _ => before :=
  (run_reads fun _ _ => by rw [other]; rfl).imp (fun _ initially => initially) fun _ _ finished => finished.1

end Rules

/-! ### One branch -/

section Branch

variable {git : Git} {start : Forge} {policy : RebasePolicy} {world : StackWorld} {number : Int}
  {branch target expectedHeadSha : String} {remote : String → Option String} {base : Int → Option String}

/-- The forge has these branches and bases. -/
def Shows (remote : String → Option String) (base : Int → Option String) (forge : Forge) : Prop :=
  forge.remote = remote ∧ forge.base = base

/-- The clone knows the tip of the target. -/
def Tracks (remote : String → Option String) (number : Int) (target : String) (forge : Forge) : Prop :=
  ∃ tip, remote target = some tip ∧ forge.tracked number target = some tip

/-- The clone is on top of the target. -/
def OnTop (git : Git) (remote : String → Option String) (number : Int) (target : String) (forge : Forge) : Prop :=
  ∃ tip, remote target = some tip ∧ git.descends (forge.tip number) tip = true

theorem validateSha_nonempty {nothing : Unit} (valid : validateSha expectedHeadSha = .ok nothing) :
    expectedHeadSha ≠ "" := by
  rw [validateSha, ensure_eq_ok] at valid
  rintro rfl
  exact absurd valid.1 (by decide)

theorem checkRemoteHead_served (valid : expectedHeadSha ≠ "") :
    Served git start policy (Shows remote base) (checkRemoteHead world number branch expectedHeadSha)
      fun _ forge => Shows remote base forge ∧ remote branch = some expectedHeadSha := by
  apply Served.bind (runResult_reads fun _ _ => by rw [gitCommand_remoteHead]; rfl)
  intro result
  have succeeded : Served git start policy
      (fun forge => Shows remote base forge ∧ (result.success = true →
        ∃ past, GitAnswers git past forge number result (gitCommand (remoteHeadArgv branch))))
      (Logged.settled (ensure (result.success = true)
        (WorkspaceError.commandFailed (remoteHeadArgv branch) result.stderr)))
      fun _ forge => Shows remote base forge ∧
        String.ofList ((splitWhitespace result.stdout.toList).headD []) = (remote branch).getD "" := by
    apply Served.settled
    intro forge _ initially ensured
    obtain ⟨past, answers⟩ := initially.2 (ensure_eq_ok.mp ensured)
    rw [gitCommand_remoteHead] at answers
    refine ⟨initially.1, ?_⟩
    rw [← initially.1.1]
    exact answers
  apply Served.bind succeeded
  intro _
  apply Served.settled
  intro forge _ answered ensured
  refine ⟨answered.1, ?_⟩
  have same := answered.2.symm.trans (ensure_eq_ok.mp ensured)
  cases found : remote branch with
  | none =>
      rw [found] at same
      exact absurd same.symm valid
  | some tip =>
      rw [found] at same
      rw [← same, Option.getD_some]

/-- The fetch makes the tip of the target known to the clone. -/
theorem prepareRebase_served (valid : validBranch target.toList = true) :
    Served git start policy (Shows remote base) (prepareRebase world number target)
      fun _ forge => Shows remote base forge ∧ Tracks remote number target forge := by
  apply Served.bind (ensureLease_served _)
  intro _
  have fetched : Served git start policy (Shows remote base)
      (run world number ["git", "fetch", "--no-tags", "origin",
        "refs/heads/" ++ target ++ ":refs/remotes/origin/" ++ target])
      fun _ forge => Shows remote base forge ∧ Tracks remote number target forge := by
    apply run_served
    intro past forge result initially answered
    rw [gitCommand_fetch valid] at answered ⊢
    refine ⟨keepsHistory_of_remote rfl, initially, ?_⟩
    obtain ⟨tip, found⟩ := Option.ne_none_iff_exists'.mp answered
    refine ⟨tip, initially.1 ▸ found, ?_⟩
    simp only [Forge.run, Function.update_self, found]
  apply Served.bind fetched
  intro _
  apply Served.bind (ensureLease_served _)
  intro _
  apply Served.bind (run_other rfl _)
  intro _
  apply Served.bind (ensureLease_served _)
  intro _
  apply Served.bind (run_other rfl _)
  intro _
  exact .pure fun _ tracked => tracked

/-- A rebase that ends well puts the clone on top of the target. -/
theorem rebaseLocally_served : Served git start policy
    (fun forge => Shows remote base forge ∧ Tracks remote number target forge)
    (rebaseLocally world number branch target)
    fun _ forge => Shows remote base forge ∧ OnTop git remote number target forge := by
  have rebased : Served git start policy
      (fun forge => Shows remote base forge ∧ Tracks remote number target forge)
      (runResult world number ["git", "-c", "core.hooksPath=/dev/null", "rebase", "refs/remotes/origin/" ++ target])
      fun result forge =>
        (result.success = true → Shows remote base forge ∧ OnTop git remote number target forge) ∧
        (result.success = false → Shows remote base forge ∧ Tracks remote number target forge) := by
    apply runResult_served
    rintro past forge result ⟨shows, tip, found, tracked⟩ answered
    rw [gitCommand_rebase] at answered ⊢
    refine ⟨keepsHistory_of_remote rfl, shows, tip, found, ?_⟩
    simp only [Forge.run, Function.update_self]
    exact answered tip tracked
  apply Served.bind rebased
  intro result
  cases success : result.success with
  | true =>
      rw [if_pos rfl]
      exact .pure fun _ answered => answered.1 rfl
  | false =>
      rw [if_neg Bool.false_ne_true]
      apply Served.bind (runResult_reads fun _ _ => rfl).attempt
      intro _
      exact .settled fun _ _ _ same => by cases same

/-- A validation changes nothing that the rebase reads. -/
theorem validateRebase_served (commands : List ValidationCommand) (before : Forge → Prop) :
    Served git start policy before (validateRebase world number commands) fun _ => before := by
  have validated : Served git start policy before
      (Logged.call (.validated number commands) (world.validate number commands)) fun _ => before := by
    apply Served.call
    exact fun _ _ initially _ => ⟨keepsHistory_of_remote rfl, fun _ _ => initially⟩
  apply Served.bind validated
  intro validation
  split
  · exact .settled fun _ _ _ same => by cases same
  · exact .pure fun _ finished => finished

/-- The remote branch is on top of the remote target. -/
def OnBranch (git : Git) (forge : Forge) (branch target : String) : Prop :=
  ∃ tip onto, forge.remote branch = some tip ∧ forge.remote target = some onto ∧
    git.descends tip onto = true

/-- At most this branch is moved, and it is on top of its target. -/
structure Moved (git : Git) (remote : String → Option String) (base : Int → Option String)
    (branch target : String) (forge : Forge) : Prop where
  others : ∀ other, other ≠ branch → forge.remote other = remote other
  bases : forge.base = base
  stacked : OnBranch git forge branch target

/-- A push of a clone on top of the target moves its branch there. -/
theorem moved_of_push {past : List StackEntry} {forge : Forge} {expected : Option String} (apart : branch ≠ target)
    (shows : Shows remote base forge) (top : OnTop git remote number target forge) :
    Moved git remote base branch target (Forge.run git past forge number (.push branch expected)) := by
  obtain ⟨onto, found, above⟩ := top
  refine ⟨fun other different => ?_, shows.2, forge.tip number, onto, ?_, ?_, above⟩
  · simp only [Forge.run, Function.update_of_ne different, shows.1]
  · simp only [Forge.run, Function.update_self]
  · simp only [Forge.run, Function.update_of_ne apart.symm, shows.1, found]

/-- A push keeps the history of the branch, or it has a lease. -/
theorem keepsHistory_of_push {past : List StackEntry} {forge : Forge} {result : CommandResult} {forced : Bool}
    (allowed : forced = true → policy.allowBotForcePush = true ∧ branch ∈ policy.botOwnedBranches)
    (answers : GitAnswers git past forge number result
      (.push branch (if forced then some expectedHeadSha else none))) :
    KeepsHistory git policy forge
      (Forge.run git past forge number (.push branch (if forced then some expectedHeadSha else none))) := by
  intro other old found new later
  by_cases same : other = branch
  · subst same
    simp only [Forge.run, Function.update_self, Option.mem_def, Option.some.injEq] at later
    subst later
    cases forced with
    | true => exact .inr (.inr (allowed rfl))
    | false => exact .inr (.inl (answers old found))
  · simp only [Forge.run, Function.update_of_ne same, Option.mem_def] at later
    exact .inl (Option.some.inj (later.symm.trans found))

theorem pushRebase_served {after : String} {allowForcePush : Bool} (apart : branch ≠ target)
    (allowed : allowForcePush = true → policy.allowBotForcePush = true ∧ branch ∈ policy.botOwnedBranches) :
    Served git start policy (fun forge => Shows remote base forge ∧ OnTop git remote number target forge)
      (pushRebase world number branch target expectedHeadSha after allowForcePush)
      fun _ => Moved git remote base branch target := by
  apply Served.bind (runResult_reads fun _ _ => rfl)
  intro ancestor
  have decided : Served git start policy
      (fun forge => (Shows remote base forge ∧ OnTop git remote number target forge) ∧ (ancestor.success = true →
        ∃ past, GitAnswers git past forge number ancestor
          (gitCommand ["git", "merge-base", "--is-ancestor", expectedHeadSha, after])))
      (Logged.settled (if ancestor.success then .ok false
        else if allowForcePush then .ok true
        else .error (WorkspaceError.rebaseRequiresForcePush branch target)))
      fun forced forge => (Shows remote base forge ∧ OnTop git remote number target forge) ∧
        (forced = true → policy.allowBotForcePush = true ∧ branch ∈ policy.botOwnedBranches) := by
    apply Served.settled
    intro forge forced initially same
    refine ⟨initially.1, fun isForced => ?_⟩
    subst isForced
    split at same
    · cases same
    · split at same
      · exact allowed ‹_›
      · cases same
  apply Served.bind decided
  intro forced
  apply Served.bind (ensureLease_served _)
  intro _
  apply Served.check
  intro argv built
  have pushed : Served git start policy
      (fun forge => (Shows remote base forge ∧ OnTop git remote number target forge) ∧
        (forced = true → policy.allowBotForcePush = true ∧ branch ∈ policy.botOwnedBranches))
      (run world number argv) fun _ => Moved git remote base branch target := by
    apply run_served
    rintro past forge result ⟨⟨shows, top⟩, permitted⟩ answers
    rw [gitCommand_push built] at answers ⊢
    exact ⟨keepsHistory_of_push permitted answers, moved_of_push apart shows top⟩
  apply Served.bind pushed
  intro _
  exact .pure fun _ moved => moved

/-- A rebase that returns has put the branch on top of its target. -/
theorem rebaseOnto_served {allowForcePush : Bool} {commands : List ValidationCommand}
    (allowed : allowForcePush = true → policy.allowBotForcePush = true ∧ branch ∈ policy.botOwnedBranches) :
    Served git start policy (Shows remote base)
      (rebaseOnto world number branch target expectedHeadSha allowForcePush commands)
      fun _ => Moved git remote base branch target := by
  apply Served.check
  intro _ _
  apply Served.check
  intro _ validTarget
  apply Served.check
  intro _ validHead
  apply Served.check
  intro _ apart
  have clean : Served git start policy (Shows remote base) (ensureClean world number)
      fun _ => Shows remote base := by
    apply Served.bind (run_other rfl _)
    intro _
    exact .settled fun _ _ initially _ => initially
  apply Served.bind clean
  intro _
  apply Served.bind (ensureLease_served _)
  intro _
  apply Served.bind (checkRemoteHead_served (validateSha_nonempty validHead))
  intro _
  apply Served.bind (prepareRebase_served (ensure_eq_ok.mp validTarget)).frame
  intro _
  apply Served.bind rebaseLocally_served.frame
  intro _
  apply Served.bind (ensureLease_served _)
  intro _
  apply Served.bind (run_reads fun _ _ => rfl)
  intro head
  dsimp only
  split
  · rename_i same
    apply Served.pure
    rintro forge ⟨⟨⟨shows, onto, found, above⟩, expected⟩, _, answers⟩
    have current : String.ofList (trim head.stdout.toList) = forge.tip number := answers
    refine ⟨fun other _ => by rw [shows.1], shows.2, expectedHeadSha, onto, ?_, ?_, ?_⟩
    · rw [shows.1, expected]
    · rw [shows.1, found]
    · rw [← same, current]
      exact above
  · apply Served.bind (validateRebase_served _ _)
    intro _
    have pushed : Served git start policy
        (fun forge => ((Shows remote base forge ∧ OnTop git remote number target forge) ∧
          remote branch = some expectedHeadSha) ∧
            ∃ past, GitAnswers git past forge number head (gitCommand ["git", "rev-parse", "HEAD"]))
        (pushRebase world number branch target expectedHeadSha (String.ofList (trim head.stdout.toList))
          allowForcePush) fun _ => Moved git remote base branch target :=
      (pushRebase_served (ensure_eq_ok.mp apart) allowed).imp (fun _ initially => initially.1.1)
        fun _ _ moved => moved
    apply Served.bind pushed
    intro _
    exact .pure fun _ moved => moved

end Branch

end PiTools.Stack
