import PiTools.Library.Outcome
import PiTools.Library.Text

/-
This file defines the policy of a repository and its validation.
-/

namespace PiTools.Approval

open Library

inductive PolicyError
  | invalid (reason : String)
  deriving DecidableEq, Repr

/-- The fields that the validation reads. The parents of the stack are a map by child. -/
structure Policy where
  automationActors : List String
  maintainers : List String
  reconcileIntervalSeconds : Nat
  allowBotForcePush : Bool
  botOwnedBranches : List String
  repairAllowedPaths : List String
  stackParents : List (Int × Int)
  deriving DecidableEq, Repr

def Policy.default : Policy where
  automationActors := []
  maintainers := []
  reconcileIntervalSeconds := 300
  allowBotForcePush := false
  botOwnedBranches := []
  repairAllowedPaths := []
  stackParents := []

/-- The path is relative, and its components are plain names. -/
def validRepairPath (path : String) : Bool :=
  path ≠ "" && path.toList.all (fun c => c ∉ ['\x5c', '\x00', '\r', '\n']) &&
    !isAbsolute path.toList && (components path.toList).all PathComponent.isNormal

def branchForbidden : List Char :=
  ['\x00', '\r', '\n', ' ', '~', '^', ':', '?', '*', '[', '\x5c']

def validBranchName (branch : String) : Bool :=
  let text := branch.toList
  branch ≠ "" && byteLength text ≤ 255 && branch ≠ "." && branch ≠ ".." &&
    text.head? ≠ some '-' && text.head? ≠ some '/' && text.getLast? ≠ some '/' &&
    text.getLast? ≠ some '.' && branch ≠ "@" && !containsText "//".toList text &&
    !containsText "@\x7b".toList text && text.all (fun c => c ∉ branchForbidden) &&
    !containsText "..".toList text && text.all (fun c => 32 ≤ c.toNat && c.toNat ≠ 127) &&
    (text.splitOn '/').all fun name => name ≠ [] && name ≠ ['.'] && name ≠ ['.', '.']

/-- The checks stand in the order of the source. -/
def Policy.validate (policy : Policy) : Except PolicyError Unit := do
  ensure (30 ≤ policy.reconcileIntervalSeconds)
    (.invalid "reconcile_interval_seconds must be at least 30")
  ensure (∀ actor ∈ policy.automationActors, blank actor.toList = false)
    (.invalid "automation_actors cannot contain empty values")
  ensure (∀ maintainer ∈ policy.maintainers, blank maintainer.toList = false)
    (.invalid "maintainers cannot contain empty values")
  ensure (∀ path ∈ policy.repairAllowedPaths, validRepairPath path = true)
    (.invalid "repair_allowed_paths must contain canonical repository-relative paths")
  ensure (∀ branch ∈ policy.botOwnedBranches, validBranchName branch = true)
    (.invalid "bot_owned_branches must contain valid branch names")
  ensure (¬ (policy.allowBotForcePush = true ∧ policy.botOwnedBranches = []))
    (.invalid "allow_bot_force_push requires bot_owned_branches")
  ensure (∀ link ∈ policy.stackParents, link.1 ≠ link.2)
    (.invalid "stack_parents cannot point a pull request to itself")

/-- The path is an element of the repair paths of an accepted policy. -/
def Admits (path : String) : Prop :=
  ∃ policy : Policy, policy.validate = .ok () ∧ path ∈ policy.repairAllowedPaths

/-- Every path is admitted or refused for itself. -/
theorem admits_iff {path : String} : Admits path ↔ validRepairPath path = true := by
  constructor
  · rintro ⟨policy, valid, member⟩
    simp only [Policy.validate, bind_eq_ok, ensure_eq_ok] at valid
    obtain ⟨-, -, -, -, -, -, -, paths, -⟩ := valid
    exact paths path member
  · intro valid
    refine ⟨{ Policy.default with repairAllowedPaths := [path] }, ?_, .head _⟩
    simp [Policy.validate, Policy.default, valid]

end PiTools.Approval
