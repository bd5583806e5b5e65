import PiTools.Approval.Policy
import PiTools.Library.Paths
import PiTools.Stack.Rebase
import PiTools.Worker.Pi

/-
This file compares the five checks that a path passes on its way through a
repair.
-/

namespace PiTools

open Library

inductive GitHubClientError
  | client (reason : String)
  | request (reason : String)
  | response (reason : String)
  | api (status : Nat) (body : String)
  | unsafePagination
  | paginationLoop
  | paginationLimit
  | repositoryFileTooLarge
  | workflowLogTooLarge
  | workflowLogNotUtf8
  | checkAnnotationsTooLarge
  deriving DecidableEq, Repr

def validateRepositoryFilePath (path : String) : Except GitHubClientError Unit :=
  if path = "" || path.toList.head? = some '/' ||
      path.toList.any (fun c => c ∈ ['\x5c', '\x00', '\r', '\n']) ||
      (path.toList.splitOn '/').any fun segment =>
        segment = [] || segment = ['.'] || segment = ['.', '.'] then
    .error (.response "repository file path is not canonical")
  else .ok ()

def validateWorkspaceRelativePath (value : String) : Except Stack.WorkspaceError Unit :=
  if value = "" || value.toList.any (fun c => c ∈ ['\x5c', '\x00', '\r', '\n']) ||
      isAbsolute value.toList || !(components value.toList).all PathComponent.isNormal then
    .error (.invalidInput ("invalid repository-relative path: " ++ value))
  else .ok ()

/-- The characters that no check but the one of the requests lets through. -/
def BreaksLine (path : List Char) : Prop := '\x00' ∈ path ∨ '\r' ∈ path ∨ '\n' ∈ path

/-- The path is split into plain names and has no character of its own meaning. -/
def CanonicalSegments (path : List Char) : Prop :=
  (∀ segment ∈ path.splitOn '/', segment ≠ [] ∧ segment ≠ ['.'] ∧ segment ≠ ['.', '.']) ∧
    '\x5c' ∉ path ∧ ¬ BreaksLine path

/-- All checks agree on the path with the check of the client. -/
structure OneNotion (path : String) : Prop where
  policy : Approval.Admits path ↔ validateRepositoryFilePath path = .ok ()
  ci : validateRepositoryPath path = .ok () ↔ validateRepositoryFilePath path = .ok ()
  pi : validateRelativePath path = .ok () ↔ validateRepositoryFilePath path = .ok ()
  workspace : validateWorkspaceRelativePath path = .ok () ↔ validateRepositoryFilePath path = .ok ()
  canonical : validateRepositoryFilePath path = .ok () ↔ CanonicalSegments path.toList

/-- A path that leads with a name hides neither an empty name nor the current directory, and it has
no line break. -/
def OneSpelling (path : String) : Prop :=
  LeadsWithName path.toList → '\x5c' ∉ path.toList →
    [] ∉ path.toList.splitOn '/' ∧ ['.'] ∉ path.toList.splitOn '/' ∧ ¬ BreaksLine path.toList

section Checks

variable {path : String}

theorem forbidden_iff {path : List Char} :
    path.any (fun c => c ∈ ['\x5c', '\x00', '\r', '\n']) = true ↔ '\x5c' ∈ path ∨ BreaksLine path := by
  simp only [List.any_eq_true, decide_eq_true_eq, List.mem_cons, List.not_mem_nil, or_false, BreaksLine]
  constructor
  · rintro ⟨c, member, rfl | rfl | rfl | rfl⟩ <;> tauto
  · rintro (member | member | member | member)
    · exact ⟨_, member, .inl rfl⟩
    · exact ⟨_, member, .inr (.inl rfl)⟩
    · exact ⟨_, member, .inr (.inr (.inl rfl))⟩
    · exact ⟨_, member, .inr (.inr (.inr rfl))⟩

theorem toList_ne_nil : path.toList ≠ [] ↔ path ≠ "" := by
  rw [Ne, String.toList_eq_nil_iff]

theorem components_accepted : (path ≠ "" ∧ isAbsolute path.toList = false ∧
    (components path.toList).all PathComponent.isNormal = true) ↔ LeadsWithName path.toList := by
  rw [← components_normal, toList_ne_nil]

theorem validateRepositoryPath_iff : validateRepositoryPath path = .ok () ↔
    LeadsWithName path.toList ∧ '\x5c' ∉ path.toList ∧ ¬ BreaksLine path.toList := by
  rw [← components_accepted, validateRepositoryPath]
  have forbidden := @forbidden_iff path.toList
  split
  · rename_i refused
    simp only [Bool.or_eq_true, decide_eq_true_eq, Bool.not_eq_true', forbidden] at refused
    simp only [reduceCtorEq, false_iff]
    rintro ⟨⟨nonempty, relative, normal⟩, slash, breaks⟩
    rcases refused with ((empty | bad) | absolute) | other
    · exact nonempty empty
    · exact bad.elim slash breaks
    · rw [relative] at absolute
      cases absolute
    · rw [normal] at other
      cases other
  · rename_i passed
    simp only [Bool.or_eq_true, decide_eq_true_eq, Bool.not_eq_true', forbidden, not_or] at passed
    obtain ⟨⟨⟨nonempty, slash, breaks⟩, relative⟩, normal⟩ := passed
    simp only [true_iff]
    exact ⟨⟨nonempty, by simpa using relative, by simpa using normal⟩, slash, breaks⟩

theorem validateWorkspaceRelativePath_iff : validateWorkspaceRelativePath path = .ok () ↔
    validateRepositoryPath path = .ok () := by
  rw [validateWorkspaceRelativePath, validateRepositoryPath]
  split <;> simp

theorem admits_path : Approval.Admits path ↔
    LeadsWithName path.toList ∧ '\x5c' ∉ path.toList ∧ ¬ BreaksLine path.toList := by
  have allowed : path.toList.all (fun c => c ∉ ['\x5c', '\x00', '\r', '\n']) = true ↔
      '\x5c' ∉ path.toList ∧ ¬ BreaksLine path.toList := by
    rw [← not_or, ← forbidden_iff, List.all_eq_true, List.any_eq_true]
    simp
  rw [Approval.admits_iff, Approval.validRepairPath, ← components_accepted]
  simp only [Bool.and_eq_true, decide_eq_true_eq, allowed, Bool.not_eq_true']
  tauto

theorem validateRelativePath_iff : validateRelativePath path = .ok () ↔
    LeadsWithName path.toList ∧ '\x5c' ∉ path.toList := by
  rw [← components_accepted, validateRelativePath]
  split
  · rename_i refused
    simp only [Bool.or_eq_true, decide_eq_true_eq, Bool.not_eq_true'] at refused
    simp only [reduceCtorEq, false_iff]
    rintro ⟨⟨nonempty, relative, normal⟩, slash⟩
    rcases refused with ((empty | absolute) | bad) | other
    · exact nonempty empty
    · rw [relative] at absolute
      cases absolute
    · exact slash bad
    · rw [normal] at other
      cases other
  · rename_i passed
    simp only [Bool.or_eq_true, decide_eq_true_eq, Bool.not_eq_true', not_or] at passed
    obtain ⟨⟨⟨nonempty, relative⟩, slash⟩, normal⟩ := passed
    simp only [true_iff]
    exact ⟨⟨nonempty, by simpa using relative, by simpa using normal⟩, slash⟩

/-- A path that starts with a slash has an empty first name. -/
theorem validateRepositoryFilePath_iff :
    validateRepositoryFilePath path = .ok () ↔ CanonicalSegments path.toList := by
  have forbidden := @forbidden_iff path.toList
  have first := @splitOn_head_nil path.toList
  have plain : (path.toList.splitOn '/').any (fun segment =>
      segment = [] || segment = ['.'] || segment = ['.', '.']) = false ↔
      ∀ segment ∈ path.toList.splitOn '/', segment ≠ [] ∧ segment ≠ ['.'] ∧ segment ≠ ['.', '.'] := by
    rw [List.any_eq_false]
    simp [and_assoc]
  rw [validateRepositoryFilePath, CanonicalSegments, ← plain, ← not_or, ← forbidden]
  split
  · rename_i refused
    simp only [Bool.or_eq_true, decide_eq_true_eq] at refused
    simp only [reduceCtorEq, false_iff]
    rintro ⟨canonical, allowed⟩
    have named : (path.toList.splitOn '/').head? ≠ some [] := by
      intro head
      exact (plain.mp canonical [] (List.mem_of_mem_head? head)).1 rfl
    rw [Ne, first, not_or, isAbsolute] at named
    rcases refused with ((empty | absolute) | bad) | other
    · exact named.1 (by rw [empty]; rfl)
    · exact named.2 (by simp [absolute])
    · exact allowed bad
    · rw [canonical] at other
      cases other
  · rename_i passed
    simp only [Bool.or_eq_true, decide_eq_true_eq, not_or, Bool.not_eq_true] at passed
    simp only [true_iff]
    exact ⟨passed.2, by simpa using passed.1.2⟩

end Checks

/-- The checks agree on a path exactly when it has one spelling. -/
theorem one_notion_iff (path : String) : OneNotion path ↔ OneSpelling path := by
  have client : validateRepositoryFilePath path = .ok () ↔ LeadsWithName path.toList ∧
      ([] ∉ path.toList.splitOn '/' ∧ ['.'] ∉ path.toList.splitOn '/') ∧
        '\x5c' ∉ path.toList ∧ ¬ BreaksLine path.toList := by
    rw [validateRepositoryFilePath_iff, CanonicalSegments, names_plain, and_assoc]
  constructor
  · intro notion leads slash
    have accepted := client.mp (notion.pi.mp (validateRelativePath_iff.mpr ⟨leads, slash⟩))
    exact ⟨accepted.2.1.1, accepted.2.1.2, accepted.2.2.2⟩
  · intro spelling
    have same : LeadsWithName path.toList ∧ '\x5c' ∉ path.toList ↔
        validateRepositoryFilePath path = .ok () := by
      rw [client]
      constructor
      · rintro ⟨leads, slash⟩
        obtain ⟨nonempty, notCurrent, breaks⟩ := spelling leads slash
        exact ⟨leads, ⟨nonempty, notCurrent⟩, slash, breaks⟩
      · rintro ⟨leads, -, slash, -⟩
        exact ⟨leads, slash⟩
    have unbroken : LeadsWithName path.toList ∧ '\x5c' ∉ path.toList ∧ ¬ BreaksLine path.toList ↔
        validateRepositoryFilePath path = .ok () := by
      rw [← same]
      constructor
      · rintro ⟨leads, slash, -⟩
        exact ⟨leads, slash⟩
      · rintro ⟨leads, slash⟩
        exact ⟨leads, slash, (spelling leads slash).2.2⟩
    exact ⟨admits_path.trans unbroken, validateRepositoryPath_iff.trans unbroken,
      validateRelativePath_iff.trans same,
      validateWorkspaceRelativePath_iff.trans (validateRepositoryPath_iff.trans unbroken),
      validateRepositoryFilePath_iff⟩

/-- A doubled slash is admitted by the policy and refused by the client. -/
theorem doubled_slash_disagrees : ¬ OneNotion "src//lib.rs" := by
  intro notion
  have accepted := notion.ci.mp (by decide)
  exact absurd accepted (by decide)

end PiTools
