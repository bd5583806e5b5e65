import Mathlib.Logic.Function.Basic
import PiTools.Library.Promised
import PiTools.Stack.Execution

/-
This file defines what git and GitHub answer during a stack rebase in which
nobody else pushes or edits a pull request.
-/

namespace PiTools.Stack

open Library

/-! ### Commands -/

/-- What a command asks git for. -/
inductive GitCommand
  | remoteHead (branch : String)
  | fetch (branch : String)
  | rebase (branch : String)
  | head
  | isAncestor (ancestor commit : String)
  | push (branch : String) (expected : Option String)
  | other
  deriving DecidableEq, Repr

def afterText (start text : String) : Option String :=
  (stripPrefix start.toList text.toList).map String.ofList

/-- The branch on the left of a refspec. -/
def fetchedBranch (refspec : String) : Option String :=
  (afterText "refs/heads/" refspec).map fun rest => String.ofList (rest.toList.takeWhile (· ≠ ':'))

def gitCommand : List String → GitCommand
  | ["git", "ls-remote", "origin", reference] =>
      ((afterText "refs/heads/" reference).map GitCommand.remoteHead).getD .other
  | ["git", "fetch", "--no-tags", "origin", refspec] => ((fetchedBranch refspec).map GitCommand.fetch).getD .other
  | ["git", "-c", "core.hooksPath=/dev/null", "rebase", upstream] =>
      ((afterText "refs/remotes/origin/" upstream).map GitCommand.rebase).getD .other
  | ["git", "rev-parse", "HEAD"] => .head
  | ["git", "merge-base", "--is-ancestor", ancestor, commit] => .isAncestor ancestor commit
  | ["git", "push", "origin", refspec] =>
      ((afterText "HEAD:refs/heads/" refspec).map fun branch => GitCommand.push branch none).getD .other
  | ["git", "push", lease, "origin", refspec] =>
      ((afterText "HEAD:refs/heads/" refspec).map fun branch =>
        GitCommand.push branch (afterText ("--force-with-lease=refs/heads/" ++ branch ++ ":") lease)).getD .other
  | _ => .other

theorem afterText_append (start rest : String) : afterText start (start ++ rest) = some rest := by
  have starts : start.toList.isPrefixOf (start.toList ++ rest.toList) = true :=
    List.isPrefixOf_iff_prefix.mpr (List.prefix_append _ _)
  rw [afterText, String.toList_append, stripPrefix, if_pos starts, List.drop_left, Option.map_some,
    String.ofList_toList]

theorem gitCommand_remoteHead (branch : String) : gitCommand (remoteHeadArgv branch) = .remoteHead branch := by
  change ((afterText "refs/heads/" ("refs/heads/" ++ branch)).map GitCommand.remoteHead).getD .other = _
  rw [afterText_append]
  rfl

theorem gitCommand_fetch {branch : String} (valid : validBranch branch.toList = true) :
    gitCommand ["git", "fetch", "--no-tags", "origin",
      "refs/heads/" ++ branch ++ ":refs/remotes/origin/" ++ branch] = .fetch branch := by
  have plain : ∀ c ∈ branch.toList, decide (c ≠ ':') = true := by
    intro c member
    rw [decide_eq_true_eq]
    rintro rfl
    have excluded : branch.toList.any branchExclusions.contains = true :=
      List.any_eq_true.mpr ⟨':', member, by decide⟩
    simp [validBranch, excluded] at valid
  have colon : (":refs/remotes/origin/" ++ branch).toList.takeWhile (fun c => decide (c ≠ ':')) = [] := by
    rw [String.toList_append]
    rfl
  change ((fetchedBranch _).map GitCommand.fetch).getD .other = _
  rw [fetchedBranch, String.append_assoc, String.append_assoc, afterText_append, Option.map_some,
    String.toList_append, List.takeWhile_append_of_pos plain, colon, List.append_nil, String.ofList_toList]
  rfl

theorem gitCommand_rebase (branch : String) : gitCommand
    ["git", "-c", "core.hooksPath=/dev/null", "rebase", "refs/remotes/origin/" ++ branch] = .rebase branch := by
  change ((afterText "refs/remotes/origin/" ("refs/remotes/origin/" ++ branch)).map GitCommand.rebase).getD .other = _
  rw [afterText_append]
  rfl

theorem gitCommand_push {branch expected : String} {force : Bool} {argv : List String}
    (built : rebasePushArgv branch expected force = .ok argv) :
    gitCommand argv = .push branch (if force then some expected else none) := by
  simp only [rebasePushArgv, bind_eq_ok, pure_eq_ok] at built
  obtain ⟨_, _, _, _, rfl⟩ := built
  cases force with
  | false =>
      change ((afterText "HEAD:refs/heads/" ("HEAD:refs/heads/" ++ branch)).map _).getD GitCommand.other = _
      rw [afterText_append]
      rfl
  | true =>
      change ((afterText "HEAD:refs/heads/" ("HEAD:refs/heads/" ++ branch)).map _).getD GitCommand.other = _
      rw [afterText_append, Option.map_some, Option.getD_some, afterText_append]
      rfl

/-! ### Forges -/

/-- The tips of the remote branches, the bases of the pull requests, and for each clone its checked
out commit and what it knows of the remote branches. -/
structure Forge where
  remote : String → Option String
  base : Int → Option String
  tip : Int → String
  tracked : Int → String → Option String

/-- The history of the commits, and the commit that a rebase leaves after the calls before it. -/
structure Git where
  descends : String → String → Bool
  rebased : List StackEntry → String

variable (git : Git)

/-- A command that succeeds changes the forge. -/
def Forge.run (past : List StackEntry) (forge : Forge) (number : Int) : GitCommand → Forge
  | .fetch branch =>
      let known := Function.update (forge.tracked number) branch (forge.remote branch)
      { forge with tracked := Function.update forge.tracked number known }
  | .rebase _ => { forge with tip := Function.update forge.tip number (git.rebased past) }
  | .push branch _ => { forge with remote := Function.update forge.remote branch (some (forge.tip number)) }
  | .remoteHead _ | .head | .isAncestor _ _ | .other => forge

/-- A call that succeeds changes the forge. -/
def Forge.next (past : List StackEntry) (forge : Forge) : StackEntry → Forge
  | .cloned number branch headSha (.ok ()) =>
      let known := Function.update (fun _ => none) branch (forge.remote branch)
      { forge with
        tip := Function.update forge.tip number headSha
        tracked := Function.update forge.tracked number known }
  | .command number argv (.ok result) =>
      if result.success then Forge.run git past forge number (gitCommand argv) else forge
  | .updated number _ (.ok current) => { forge with base := Function.update forge.base number current.baseReference }
  | _ => forge

/-- The forge after a log. -/
def forgeAfter (start : Forge) (log : List StackEntry) : Forge :=
  (log.foldl (fun state entry => (state.1 ++ [entry], Forge.next git state.1 state.2 entry)) ([], start)).2

theorem forgeAfter_snoc (start : Forge) (log : List StackEntry) (entry : StackEntry) :
    forgeAfter git start (log ++ [entry]) = Forge.next git log (forgeAfter git start log) entry := by
  have past (entries before : List StackEntry) (forge : Forge) :
      (entries.foldl (fun state entry => (state.1 ++ [entry], Forge.next git state.1 state.2 entry))
        (before, forge)).1 = before ++ entries := by
    induction entries generalizing before forge with
    | nil => exact (List.append_nil before).symm
    | cons entry rest ih => rw [List.foldl_cons, ih, List.append_assoc, List.singleton_append]
  rw [forgeAfter, List.foldl_append, List.foldl_cons, List.foldl_nil, past, List.nil_append, forgeAfter]

/-- What the success of a command tells. -/
def GitAnswers (past : List StackEntry) (forge : Forge) (number : Int) (result : CommandResult) :
    GitCommand → Prop
  | .remoteHead branch =>
      String.ofList ((splitWhitespace result.stdout.toList).headD []) = (forge.remote branch).getD ""
  | .fetch branch => forge.remote branch ≠ none
  | .rebase branch => ∀ tip ∈ forge.tracked number branch, git.descends (git.rebased past) tip = true
  | .head => String.ofList (trim result.stdout.toList) = forge.tip number
  | .isAncestor ancestor commit => git.descends commit ancestor = true
  | .push branch none => ∀ old ∈ forge.remote branch, git.descends (forge.tip number) old = true
  | .push branch (some expected) => forge.remote branch = some expected
  | .other => True

instance (past : List StackEntry) (forge : Forge) (number : Int) (result : CommandResult) :
    DecidablePred (GitAnswers git past forge number result)
  | .remoteHead branch => inferInstanceAs (Decidable (_ = (forge.remote branch).getD ""))
  | .fetch branch => inferInstanceAs (Decidable (forge.remote branch ≠ none))
  | .rebase branch => inferInstanceAs (Decidable (∀ tip ∈ forge.tracked number branch, _))
  | .head => inferInstanceAs (Decidable (_ = forge.tip number))
  | .isAncestor ancestor commit => inferInstanceAs (Decidable (git.descends commit ancestor = true))
  | .push branch none => inferInstanceAs (Decidable (∀ old ∈ forge.remote branch, _))
  | .push branch (some expected) => inferInstanceAs (Decidable (forge.remote branch = some expected))
  | .other => .isTrue trivial

/-- GitHub reports the base of a pull request, and git does what it says. -/
def Tells (past : List StackEntry) (forge : Forge) : StackEntry → Prop
  | .read number (.ok current) => current.baseReference = forge.base number
  | .command number argv (.ok result) => result.success = true →
      GitAnswers git past forge number result (gitCommand argv)
  | _ => True

def Faithful (start : Forge) (past : List StackEntry) (entry : StackEntry) : Prop :=
  Tells git past (forgeAfter git start past) entry

instance (past : List StackEntry) (forge : Forge) : DecidablePred (Tells git past forge)
  | .read number (.ok current) => inferInstanceAs (Decidable (current.baseReference = forge.base number))
  | .command _ _ (.ok result) => inferInstanceAs (Decidable (result.success = true → GitAnswers ..))
  | .read _ (.error _) | .command _ _ (.error _) | .asserted _ | .cloned .. | .validated .. | .returned .. |
      .updated .. => .isTrue trivial

/-- The log goes on faithfully from a forge. -/
def FaithfulFrom (past : List StackEntry) (forge : Forge) : List StackEntry → Prop
  | [] => True
  | entry :: rest => Tells git past forge entry ∧
      FaithfulFrom (past ++ [entry]) (Forge.next git past forge entry) rest

instance decidableFaithfulFrom (past : List StackEntry) (forge : Forge) :
    DecidablePred (FaithfulFrom git past forge)
  | [] => .isTrue trivial
  | entry :: rest =>
      have := decidableFaithfulFrom (past ++ [entry]) (Forge.next git past forge entry) rest
      inferInstanceAs (Decidable (_ ∧ _))

theorem guarded_of_faithfulFrom {start : Forge} (log : List StackEntry) {past : List StackEntry}
    (guarded : Guarded (Faithful git start) past)
    (faithful : FaithfulFrom git past (forgeAfter git start past) log) : Guarded (Faithful git start) (past ++ log) := by
  induction log generalizing past with
  | nil => rwa [List.append_nil]
  | cons entry rest ih =>
      rw [List.append_cons]
      apply ih (guarded.snoc faithful.1)
      rw [forgeAfter_snoc]
      exact faithful.2

/-- A branch keeps its history, or it is listed and the policy allows the rewrite. -/
def KeepsHistory (policy : RebasePolicy) (before after : Forge) : Prop :=
  ∀ branch, ∀ old ∈ before.remote branch, ∀ new ∈ after.remote branch,
    new = old ∨ git.descends new old = true ∨
      (policy.allowBotForcePush = true ∧ branch ∈ policy.botOwnedBranches)

end PiTools.Stack
