import Mathlib.Algebra.GroupWithZero.Nat
import PiTools.Worker.WorkPlan

/-
This file defines the summary that ends a run and says which lines it accepts and
how large it becomes.
-/

namespace PiTools

open Library

def finalSummaryMarkerPrefix : String := "<!-- pitools:final-summary:v1:"

def maxGitHubMarkdownBytes : Nat := 60000

structure FinalSummary where
  runId : String
  changes : List String
  tests : List String
  remainingBlockers : List String
  deriving DecidableEq, Repr

def validateSafeTexts (field : String) : List String → Except ContractError Unit
  | [] => .ok ()
  | value :: rest => do
      validateSafeText field value
      validateSafeTexts field rest

def collectSafeLines (field : String) (values : List String) :
    Except ContractError (List String) := do
  ensure (values.length ≤ maxItems) (.invalid field "cannot contain more than 100 entries")
  validateSafeTexts field values
  pure values

def FinalSummary.new (runId : String) (changes tests remainingBlockers : List String) :
    Except ContractError FinalSummary := do
  validateIdentifier "run id" runId
  let changes ← collectSafeLines "change" changes
  let tests ← collectSafeLines "test" tests
  let remainingBlockers ← collectSafeLines "remaining blocker" remainingBlockers
  pure ⟨runId, changes, tests, remainingBlockers⟩

/-! ### Rendering -/

def isControl (c : Char) : Bool := c.toNat < 0x20 || (0x7f ≤ c.toNat && c.toNat < 0xa0)

def escapeMarkdownChar (c : Char) : List Char :=
  if c = '&' then "&amp;".toList
  else if c = '<' then "&lt;".toList
  else if c = '>' then "&gt;".toList
  else if c ∈ ['\x5c', '*', '[', ']', '\x60'] then ['\x5c', c]
  else if c = '\n' ∨ c = '\t' then [' ']
  else if isControl c then []
  else [c]

def escapeMarkdown (value : List Char) : List Char := value.flatMap escapeMarkdownChar

def renderLine (value : String) : List Char :=
  '-' :: ' ' :: escapeMarkdown value.toList ++ ['\n']

def renderSection (heading : String) (values : List String) : List Char :=
  ("\n## " ++ heading ++ "\n\n").toList ++
    if values = [] then "- None.\n".toList else values.flatMap renderLine

def ensureRenderBound (markdown : List Char) : Except ContractError (List Char) :=
  if maxGitHubMarkdownBytes < byteLength markdown then .error .markdownTooLarge else .ok markdown

def FinalSummary.markdown (summary : FinalSummary) : List Char :=
  (finalSummaryMarkerPrefix ++ summary.runId ++ " -->\n## PiTools final summary\n").toList ++
    renderSection "Changes" summary.changes ++ renderSection "Tests" summary.tests ++
      renderSection "Remaining blockers" summary.remainingBlockers

def FinalSummary.render (summary : FinalSummary) : Except ContractError (List Char) :=
  ensureRenderBound summary.markdown

/-! ### Lines -/

/-- What a visible line needs besides. -/
structure LineFits (value : String) : Prop where
  short : byteLength value.toList ≤ maxTextBytes
  unreturned : '\r' ∉ value.toList
  unterminated : '\x00' ∉ value.toList
  innocent : ∀ indicator ∈ secretIndicators,
    containsText indicator.toList (asciiLowercase value.toList) = false

instance (value : String) : Decidable (LineFits value) :=
  decidable_of_iff (byteLength value.toList ≤ maxTextBytes ∧ '\r' ∉ value.toList ∧
      '\x00' ∉ value.toList ∧ ∀ indicator ∈ secretIndicators,
        containsText indicator.toList (asciiLowercase value.toList) = false)
    ⟨fun ⟨short, unreturned, unterminated, innocent⟩ =>
      ⟨short, unreturned, unterminated, innocent⟩,
      fun fits => ⟨fits.short, fits.unreturned, fits.unterminated, fits.innocent⟩⟩

theorem validateSafeText_iff {field value : String} (visible : blank value.toList = false) :
    validateSafeText field value = .ok () ↔ LineFits value := by
  simp only [validateSafeText, bind_eq_ok, ensure_eq_ok, visible, true_and]
  constructor
  · rintro ⟨_, ⟨short, unreturned, unterminated⟩, innocent⟩
    exact ⟨short, unreturned, unterminated, innocent⟩
  · rintro ⟨short, unreturned, unterminated, innocent⟩
    exact ⟨(), ⟨short, unreturned, unterminated⟩, innocent⟩

theorem validateSafeTexts_iff {field : String} {values : List String}
    (visible : ∀ value ∈ values, blank value.toList = false) :
    validateSafeTexts field values = .ok () ↔ ∀ value ∈ values, LineFits value := by
  induction values with
  | nil => simp [validateSafeTexts]
  | cons value rest ih =>
      obtain ⟨here, later⟩ := List.forall_mem_cons.mp visible
      simp only [validateSafeTexts, bind_eq_ok, ih later, validateSafeText_iff here,
        List.forall_mem_cons]
      constructor
      · rintro ⟨_, both⟩
        exact both
      · intro both
        exact ⟨(), both⟩

theorem collectSafeLines_iff {field : String} {values collected : List String}
    (visible : ∀ value ∈ values, blank value.toList = false) :
    collectSafeLines field values = .ok collected ↔
      collected = values ∧ values.length ≤ maxItems ∧ ∀ value ∈ values, LineFits value := by
  simp only [collectSafeLines, bind_eq_ok, ensure_eq_ok, pure_eq_ok, validateSafeTexts_iff visible]
  constructor
  · rintro ⟨_, few, _, fit, rfl⟩
    exact ⟨rfl, few, fit⟩
  · rintro ⟨rfl, few, fit⟩
    exact ⟨(), few, (), fit, rfl⟩

/-! ### Sizes -/

/-- The escape of a character has at most five times its bytes. -/
theorem escapeMarkdownChar_bytes (c : Char) :
    byteLength (escapeMarkdownChar c) ≤ 5 * c.utf8Size := by
  have positive := c.utf8Size_pos
  unfold escapeMarkdownChar
  split
  · rename_i same
    rw [same]
    decide
  · split
    · rename_i same
      rw [same]
      decide
    · split
      · rename_i same
        rw [same]
        decide
      · split
        · have slash : '\x5c'.utf8Size = 1 := rfl
          simp only [byteLength, List.foldr_cons, List.foldr_nil, slash]
          omega
        · split
          · have space : ' '.utf8Size = 1 := rfl
            simp only [byteLength, List.foldr_cons, List.foldr_nil, space]
            omega
          · split
            · exact Nat.zero_le _
            · simp only [byteLength, List.foldr_cons, List.foldr_nil]
              omega

theorem escapeMarkdown_bytes (value : List Char) :
    byteLength (escapeMarkdown value) ≤ 5 * byteLength value := by
  induction value with
  | nil => exact Nat.le_refl 0
  | cons c rest ih =>
      have here := escapeMarkdownChar_bytes c
      rw [escapeMarkdown, List.flatMap_cons, ← escapeMarkdown, byteLength_append, byteLength_cons]
      omega

/-- The bytes of the lines of a section. -/
def sectionBytes (values : List String) : Nat :=
  if values = [] then 8
  else (values.map fun value => byteLength (escapeMarkdown value.toList) + 3).sum

theorem renderSection_bytes (heading : String) (values : List String) :
    byteLength (renderSection heading values) =
      byteLength heading.toList + 6 + sectionBytes values := by
  have lineBytes : ∀ values : List String, byteLength (values.flatMap renderLine) =
      (values.map fun value => byteLength (escapeMarkdown value.toList) + 3).sum := by
    intro values
    induction values with
    | nil => rfl
    | cons value rest ih =>
        have dash : '-'.utf8Size = 1 := rfl
        have space : ' '.utf8Size = 1 := rfl
        have break' : byteLength ['\n'] = 1 := rfl
        rw [List.flatMap_cons, byteLength_append, ih, List.map_cons, List.sum_cons, renderLine,
          List.cons_append, List.cons_append, byteLength_cons, byteLength_cons, byteLength_append,
          dash, space, break']
        omega
  have open' : byteLength "\n## ".toList = 4 := rfl
  have close : byteLength "\n\n".toList = 2 := rfl
  rw [renderSection, byteLength_append, String.toList_append, String.toList_append,
    byteLength_append, byteLength_append, open', close, sectionBytes]
  split
  · rw [show byteLength "- None.\n".toList = 8 from rfl]
    omega
  · rw [lineBytes]
    omega

/-- A summary is rendered exactly when its lines leave room for the headings. -/
theorem FinalSummary.render_iff {summary : FinalSummary} :
    (∃ body, summary.render = .ok body) ↔
      byteLength summary.runId.toList + sectionBytes summary.changes + sectionBytes summary.tests +
        sectionBytes summary.remainingBlockers + 108 ≤ maxGitHubMarkdownBytes := by
  have bytes : byteLength summary.markdown = byteLength summary.runId.toList +
      sectionBytes summary.changes + sectionBytes summary.tests +
        sectionBytes summary.remainingBlockers + 108 := by
    have marker : byteLength finalSummaryMarkerPrefix.toList = 30 := rfl
    have title : byteLength " -->\n## PiTools final summary\n".toList = 30 := rfl
    have changes : byteLength "Changes".toList = 7 := rfl
    have tests : byteLength "Tests".toList = 5 := rfl
    have blockers : byteLength "Remaining blockers".toList = 18 := rfl
    rw [markdown, byteLength_append, byteLength_append, byteLength_append, String.toList_append,
      String.toList_append, byteLength_append, byteLength_append, renderSection_bytes,
      renderSection_bytes, renderSection_bytes, marker, title, changes, tests, blockers]
    omega
  rw [← bytes, render, ensureRenderBound]
  split
  · simp only [reduceCtorEq, exists_false, false_iff]
    omega
  · simp only [Except.ok.injEq, exists_eq', true_iff]
    omega

end PiTools
