import PiTools.Library.Scanning
import PiTools.Library.Unlines
import PiTools.Worker.FinalSummary

/-
This file defines the text of a work plan comment and shows which lines the
comments have, whatever their items and values say.
-/

namespace PiTools

open Library

/-! ### The work plan comment -/

def workPlanMarker : String := "<!-- pitools:work-plan:v1 -->"

def ItemStatus.label : ItemStatus → String
  | .pending => "pending"
  | .inProgress => "in progress"
  | .completed => "completed"
  | .failed => "failed"
  | .skipped => "skipped"
  | .cancelled => "cancelled"

def renderItem (item : PlanItem) : List Char :=
  ("- `" ++ item.id ++ "` — " ++ item.status.label ++ " — ").toList ++
    (escapeMarkdown item.summary.toList ++ ['\n'])

def renderApprovalHash : Option String → List Char
  | none => []
  | some approvalHash => ("Approval fingerprint: `" ++ approvalHash ++ "`\n\n").toList

def WorkPlanComment.markdown (comment : WorkPlanComment) : List Char :=
  (workPlanMarker ++ "\n## PiTools work plan\n\n[Open Check Run](" ++ comment.checkRunUrl.text ++
      ")\n\n").toList ++
    (renderApprovalHash comment.approvalHash ++
      ((if comment.items = [] then "No work items.\n".toList else comment.items.flatMap renderItem) ++
        ("\nUse the Check Run controls to approve planned work when requested, " ++
          "skip the current item, or cancel the run.\n").toList))

def WorkPlanComment.render (comment : WorkPlanComment) : Except ContractError (List Char) :=
  ensureRenderBound comment.markdown

/-- The comments that the constructor and the setter of the fingerprint admit. -/
inductive WorkPlanComment.Accepted (parseUrl : String → Option Url) : WorkPlanComment → Prop
  | new {checkRunUrl : String} {items : List PlanItem} {comment : WorkPlanComment}
      (built : WorkPlanComment.new parseUrl checkRunUrl items = .ok comment) : Accepted parseUrl comment
  | withApprovalHash {comment hashed : WorkPlanComment} {approvalHash : String}
      (accepted : Accepted parseUrl comment)
      (built : comment.withApprovalHash approvalHash = .ok hashed) : Accepted parseUrl hashed

/-! ### Lines -/

/-- The line of an item without its line break. -/
def itemLine (item : PlanItem) : List Char :=
  ("- `" ++ item.id ++ "` — " ++ item.status.label ++ " — ").toList ++ escapeMarkdown item.summary.toList

def valueLine (value : String) : List Char := '-' :: ' ' :: escapeMarkdown value.toList

/-- The lines of a list, where a fixed line stands for an empty list. -/
def listLines {Value : Type} (line : Value → List Char) (nothing : String) (values : List Value) :
    List (List Char) :=
  match values with
  | [] => [nothing.toList]
  | values => values.map line

def fingerprintLines : Option String → List (List Char)
  | none => []
  | some approvalHash => [("Approval fingerprint: `" ++ approvalHash ++ "`").toList, []]

/-- The lines below the marker. -/
def WorkPlanComment.lines (comment : WorkPlanComment) : List (List Char) :=
  ["## PiTools work plan".toList, [], ("[Open Check Run](" ++ comment.checkRunUrl.text ++ ")").toList, []] ++
    (fingerprintLines comment.approvalHash ++
      (listLines itemLine "No work items." comment.items ++
        [[], ("Use the Check Run controls to approve planned work when requested, " ++
          "skip the current item, or cancel the run.").toList]))

def sectionLines (heading : String) (values : List String) : List (List Char) :=
  [[], ("## " ++ heading).toList, []] ++ listLines valueLine "- None." values

def FinalSummary.marker (summary : FinalSummary) : List Char :=
  (finalSummaryMarkerPrefix ++ summary.runId ++ " -->").toList

def FinalSummary.lines (summary : FinalSummary) : List (List Char) :=
  "## PiTools final summary".toList :: (sectionLines "Changes" summary.changes ++
    (sectionLines "Tests" summary.tests ++ sectionLines "Remaining blockers" summary.remainingBlockers))

def readStatus (label : List Char) : Option ItemStatus :=
  [.pending, .inProgress, .completed, .failed, .skipped, .cancelled].find? fun status =>
    status.label.toList = label

/-- The id and the status of an item are read from its line. -/
def readItemLine (line : List Char) : Option (String × ItemStatus) := do
  let rest ← stripPrefix "- `".toList line
  let (id, rest) ← splitOnce "` — ".toList rest
  let (label, _) ← splitOnce " — ".toList rest
  let status ← readStatus label
  pure (String.ofList id, status)

/-- A character that neither breaks a line nor opens or closes a tag. -/
def plainChar (c : Char) : Bool := c ≠ '<' && c ≠ '>' && !isControl c

/-- An HTTPS URL in its serialized form has neither control characters nor angle brackets. -/
def SafeUrls (parseUrl : String → Option Url) : Prop :=
  ∀ value url, parseUrl value = some url → url.scheme = "https" → url.text.toList.all plainChar = true

/-- A rendered text shows exactly its marker and the lines below it, of which the marker is the only
one with an angle bracket. -/
structure Shows (body marker : List Char) (below : List (List Char)) : Prop where
  lines : Library.lines body = marker :: below
  marker : ∃ rest, body = marker ++ rest ∧ '<' ∉ rest ∧ '>' ∉ rest

theorem escapeMarkdownChar_plain (c : Char) : (escapeMarkdownChar c).all plainChar = true := by
  unfold escapeMarkdownChar
  split
  · decide
  · split
    · decide
    · rename_i notOpen
      split
      · decide
      · rename_i notClose
        split
        · rename_i special
          have known : ∀ c ∈ ['\x5c', '*', '[', ']', '\x60'], ['\x5c', c].all plainChar = true := by decide
          exact known c special
        · split
          · decide
          · split
            · rfl
            · rename_i visible
              rw [Bool.not_eq_true] at visible
              simp [plainChar, notOpen, notClose, visible]

theorem escapeMarkdown_plain (value : List Char) : (escapeMarkdown value).all plainChar = true := by
  rw [List.all_eq_true]
  intro c member
  obtain ⟨d, -, inside⟩ := List.mem_flatMap.mp member
  exact List.all_eq_true.mp (escapeMarkdownChar_plain d) c inside

/-- The characters that are not plain. -/
def foreignChars : List Char := '<' :: '>' :: ((List.range 160).map Char.ofNat).filter isControl

/-- A property that no foreign character has is one of plain characters. -/
theorem plainChar_of {property : Char → Bool} (checked : ∀ c ∈ foreignChars, property c = false)
    {c : Char} (holds : property c = true) : plainChar c = true := by
  by_contra foreign
  have member : c ∈ foreignChars := by
    by_cases tag : c = '<' ∨ c = '>'
    · rcases tag with rfl | rfl
      · exact .head _
      · exact .tail _ (.head _)
    · rw [not_or] at tag
      have control : isControl c = true := by
        by_contra visible
        rw [Bool.not_eq_true] at visible
        exact foreign (by simp [plainChar, tag.1, tag.2, visible])
      have small : c.toNat < 160 := by
        simp only [isControl, Bool.or_eq_true, Bool.and_eq_true, decide_eq_true_eq] at control
        omega
      refine .tail _ (.tail _ (List.mem_filter.mpr ⟨?_, control⟩))
      exact List.mem_map.mpr ⟨c.toNat, List.mem_range.mpr small, Char.ofNat_toNat c⟩
  rw [checked c member] at holds
  cases holds

theorem identifierChar_plain {c : Char} (identifies : identifierChar c = true) : plainChar c = true :=
  plainChar_of (by decide) identifies

theorem plain_noBreak {line : List Char} (plain : line.all plainChar = true) :
    '\n' ∉ line ∧ '\r' ∉ line ∧ '<' ∉ line ∧ '>' ∉ line := by
  have none {c : Char} (other : plainChar c = false) : c ∉ line := by
    intro member
    rw [List.all_eq_true.mp plain c member] at other
    cases other
  exact ⟨none rfl, none rfl, none rfl, none rfl⟩

theorem shows_of_plain {body marker : List Char} {below : List (List Char)}
    (same : body = unlines (marker :: below)) (first : '\n' ∉ marker ∧ '\r' ∉ marker)
    (plain : ∀ line ∈ below, line.all plainChar = true) : Shows body marker below := by
  subst same
  constructor
  · rw [lines_unlines, List.map_cons, dropCarriageReturn_of_notMem first.2]
    · congr 1
      conv_rhs => rw [← List.map_id below]
      apply List.map_congr_left
      intro line member
      exact dropCarriageReturn_of_notMem (plain_noBreak (plain line member)).2.1
    · exact List.forall_mem_cons.mpr ⟨first.1, fun line member => (plain_noBreak (plain line member)).1⟩
  · refine ⟨'\n' :: unlines below, unlines_cons .., ?_⟩
    have none {c : Char} (other : plainChar c = false) (noBreak : c ≠ '\n') : c ∉ '\n' :: unlines below := by
      rw [List.mem_cons, not_or]
      refine ⟨noBreak, fun member => ?_⟩
      obtain ⟨line, inside, here⟩ := List.mem_flatMap.mp member
      rcases List.mem_append.mp here with inLine | last
      · rw [List.all_eq_true.mp (plain line inside) c inLine] at other
        cases other
      · exact noBreak (List.mem_singleton.mp last)
    exact ⟨none rfl (by decide), none rfl (by decide)⟩

/-! ### The comments -/

theorem validateIdentifier_ok {field value : String} (valid : validateIdentifier field value = .ok ()) :
    value.toList.all identifierChar = true := (ensure_eq_ok.mp valid).2.2

theorem identifier_plain {field value : String} (valid : validateIdentifier field value = .ok ()) :
    value.toList.all plainChar = true := by
  rw [List.all_eq_true]
  exact fun c member => identifierChar_plain (List.all_eq_true.mp (validateIdentifier_ok valid) c member)

theorem approvalHash_plain {value : String} (valid : validateApprovalHash value = .ok ()) :
    value.toList.all plainChar = true := by
  unfold validateApprovalHash at valid
  split at valid
  · cases valid
  · rename_i digits stripped
    have hex := (ensure_eq_ok.mp valid).2
    rw [stripPrefix_eq_some] at stripped
    rw [stripped, List.all_append, Bool.and_eq_true, List.all_eq_true, List.all_eq_true]
    refine ⟨by decide, fun c member => ?_⟩
    have checked : ∀ c ∈ foreignChars, (c.isDigit || ('a' ≤ c && c ≤ 'f') || ('A' ≤ c && c ≤ 'F')) =
        false := by decide
    exact plainChar_of checked (List.all_eq_true.mp hex c member)

theorem label_plain (status : ItemStatus) : status.label.toList.all plainChar = true := by
  cases status <;> decide

theorem itemLine_plain (item : PlanItem) : (itemLine item).all plainChar = true := by
  have fixed : "- `".toList.all plainChar = true ∧ "` — ".toList.all plainChar = true ∧
      " — ".toList.all plainChar = true := by decide
  simp only [itemLine, String.toList_append, List.all_append, fixed.1, fixed.2.1, fixed.2.2,
    identifier_plain item.validId, label_plain, escapeMarkdown_plain, Bool.and_self]

theorem valueLine_plain (value : String) : (valueLine value).all plainChar = true := by
  rw [valueLine, List.all_cons, List.all_cons, escapeMarkdown_plain]
  decide

theorem listLines_plain {Value : Type} {line : Value → List Char} {nothing : String}
    (plain : ∀ value, (line value).all plainChar = true)
    (none : nothing.toList.all plainChar = true) (values : List Value) :
    ∀ shown ∈ listLines line nothing values, shown.all plainChar = true := by
  cases values with
  | nil =>
      intro shown member
      rw [List.mem_singleton.mp member]
      exact none
  | cons value rest =>
      intro shown member
      obtain ⟨other, -, rfl⟩ := List.mem_map.mp member
      exact plain other

/-- A list of lines is rendered line by line. -/
theorem unlines_listLines {Value : Type} [DecidableEq Value] (line : Value → List Char)
    (nothing : String) (values : List Value) : unlines (listLines line nothing values) =
      if values = [] then nothing.toList ++ ['\n']
      else values.flatMap fun value => line value ++ ['\n'] := by
  cases values with
  | nil => simp [listLines]
  | cons value rest =>
      rw [if_neg (List.cons_ne_nil value rest), listLines, unlines, List.flatMap_map]
      exact List.cons_ne_nil value rest

theorem WorkPlanComment.markdown_eq (comment : WorkPlanComment) :
    comment.markdown = unlines (workPlanMarker.toList :: comment.lines) := by
  have items : (if comment.items = [] then "No work items.\n".toList
      else comment.items.flatMap renderItem) =
        unlines (listLines itemLine "No work items." comment.items) := by
    rw [unlines_listLines]
    congr 1
    apply List.flatMap_congr
    intro item _
    rw [renderItem, itemLine, List.append_assoc]
  have hash : renderApprovalHash comment.approvalHash =
      unlines (fingerprintLines comment.approvalHash) := by
    cases comment.approvalHash with
    | none => rfl
    | some approvalHash =>
        simp [renderApprovalHash, fingerprintLines, String.toList_append]
  rw [markdown, items, hash, lines]
  simp [String.toList_append]

/-- An accepted comment has no foreign character outside of its marker. -/
theorem WorkPlanComment.Accepted.plain {parseUrl : String → Option Url} {comment : WorkPlanComment}
    (safe : SafeUrls parseUrl) (accepted : comment.Accepted parseUrl) :
    comment.checkRunUrl.text.toList.all plainChar = true ∧
      ∀ approvalHash ∈ comment.approvalHash, approvalHash.toList.all plainChar = true := by
  induction accepted with
  | new built =>
      simp only [WorkPlanComment.new, bind_eq_ok, pure_eq_ok] at built
      obtain ⟨_, -, url, valid, rfl⟩ := built
      refine ⟨?_, by simp⟩
      unfold validateHttpsUrl at valid
      split at valid
      · cases valid
      · rename_i parsed known
        split at valid
        · cases valid
        · rename_i checked
          simp only [not_or, not_not] at checked
          cases valid
          exact safe _ _ known checked.1
  | withApprovalHash _ built ih =>
      simp only [WorkPlanComment.withApprovalHash, bind_eq_ok, pure_eq_ok] at built
      obtain ⟨_, valid, rfl⟩ := built
      refine ⟨ih.1, ?_⟩
      intro approvalHash same
      cases same
      exact approvalHash_plain valid

theorem WorkPlanComment.lines_plain {parseUrl : String → Option Url} {comment : WorkPlanComment}
    (safe : SafeUrls parseUrl) (accepted : comment.Accepted parseUrl) :
    ∀ line ∈ comment.lines, line.all plainChar = true := by
  obtain ⟨url, hash⟩ := accepted.plain safe
  intro line member
  simp only [lines, List.mem_append, List.mem_cons, List.not_mem_nil, or_false] at member
  rcases member with (rfl | rfl | rfl | rfl) | fingerprint | item | rfl | rfl
  · decide
  · rfl
  · have fixed : "[Open Check Run](".toList.all plainChar = true ∧ ")".toList.all plainChar = true := by
      decide
    simp only [String.toList_append, List.all_append, fixed.1, fixed.2, url, Bool.and_self]
  · rfl
  · cases known : comment.approvalHash with
    | none =>
        rw [known] at fingerprint
        cases fingerprint
    | some approvalHash =>
        rw [known] at fingerprint
        simp only [fingerprintLines, List.mem_cons, List.not_mem_nil, or_false] at fingerprint
        rcases fingerprint with rfl | rfl
        · have fixed : "Approval fingerprint: `".toList.all plainChar = true ∧
              "`".toList.all plainChar = true := by decide
          simp only [String.toList_append, List.all_append, fixed.1, fixed.2,
            hash approvalHash known, Bool.and_self]
        · rfl
  · exact listLines_plain itemLine_plain (by decide) comment.items line item
  · rfl
  · decide

theorem renderSection_eq (heading : String) (values : List String) :
    renderSection heading values = unlines (sectionLines heading values) := by
  have list : (if values = [] then "- None.\n".toList else values.flatMap renderLine) =
      unlines (listLines valueLine "- None." values) := by
    rw [unlines_listLines]
    rfl
  rw [renderSection, list, sectionLines]
  simp [String.toList_append]

theorem FinalSummary.markdown_eq (summary : FinalSummary) :
    summary.markdown = unlines (summary.marker :: summary.lines) := by
  rw [markdown, renderSection_eq, renderSection_eq, renderSection_eq, lines, unlines_cons, unlines_cons,
    unlines_append, unlines_append, marker]
  simp [String.toList_append]

theorem sectionLines_plain {heading : String} (plain : heading.toList.all plainChar = true)
    (values : List String) : ∀ line ∈ sectionLines heading values, line.all plainChar = true := by
  intro line member
  rcases List.mem_append.mp member with front | value
  · simp only [List.mem_cons, List.not_mem_nil, or_false] at front
    rcases front with rfl | rfl | rfl
    · rfl
    · have fixed : "## ".toList.all plainChar = true := by decide
      rw [String.toList_append, List.all_append, fixed, plain]
      rfl
    · rfl
  · exact listLines_plain valueLine_plain (by decide) values line value

theorem FinalSummary.lines_plain (summary : FinalSummary) :
    ∀ line ∈ summary.lines, line.all plainChar = true := by
  intro line member
  rcases List.mem_cons.mp member with rfl | inside
  · decide
  · rcases List.mem_append.mp inside with changes | others
    · exact sectionLines_plain (by decide) _ line changes
    · rcases List.mem_append.mp others with tests | blockers
      · exact sectionLines_plain (by decide) _ line tests
      · exact sectionLines_plain (by decide) _ line blockers

theorem ensureRenderBound_ok {markdown body : List Char} (rendered : ensureRenderBound markdown = .ok body) :
    body = markdown := by
  unfold ensureRenderBound at rendered
  split at rendered
  · cases rendered
  · exact (Except.ok.inj rendered).symm

/-- The id and the status of an item can be read from its line, whatever its summary says. -/
theorem readItemLine_itemLine (item : PlanItem) :
    readItemLine (itemLine item) = some (item.id, item.status) := by
  have noTick : '\x60' ∉ item.id.toList := by
    intro member
    cases List.all_eq_true.mp (validateIdentifier_ok item.validId) _ member
  have afterDash : stripPrefix "- `".toList (itemLine item) =
      some (item.id.toList ++ ("` — ".toList ++ (item.status.label.toList ++
        (" — ".toList ++ escapeMarkdown item.summary.toList)))) := by
    rw [stripPrefix_eq_some, itemLine]
    simp [String.toList_append]
  have afterId : splitOnce "` — ".toList (item.id.toList ++ ("` — ".toList ++ (item.status.label.toList ++
      (" — ".toList ++ escapeMarkdown item.summary.toList)))) =
        some (item.id.toList, item.status.label.toList ++
          (" — ".toList ++ escapeMarkdown item.summary.toList)) := by
    have tick : "` — ".toList = '\x60' :: " — ".toList := rfl
    rw [tick, splitOnce_append noTick, splitOnce_self]
    simp
  have afterLabel : splitOnce " — ".toList (item.status.label.toList ++
      (" — ".toList ++ escapeMarkdown item.summary.toList)) =
        some (item.status.label.toList, escapeMarkdown item.summary.toList) := by
    cases item.status <;> rfl
  have status : readStatus item.status.label.toList = some item.status := by
    cases item.status <;> decide
  simp only [readItemLine, afterDash, afterId, afterLabel, status, Option.bind_eq_bind, Option.bind_some,
    Option.pure_def, String.ofList_toList]

/-- The comments show the fixed lines and one line for each item or value, and nothing that an item or
a value says adds another line or an angle bracket. -/
theorem rendered_comments {parseUrl : String → Option Url} (safe : SafeUrls parseUrl) :
    (∀ comment : WorkPlanComment, comment.Accepted parseUrl → ∀ body, comment.render = .ok body →
      Shows body workPlanMarker.toList comment.lines ∧
        ∀ item ∈ comment.items, readItemLine (itemLine item) = some (item.id, item.status)) ∧
      ∀ runId changes tests remainingBlockers summary,
        FinalSummary.new runId changes tests remainingBlockers = .ok summary →
        ∀ body, summary.render = .ok body → Shows body summary.marker summary.lines := by
  constructor
  · intro comment accepted body rendered
    refine ⟨?_, fun item _ => readItemLine_itemLine item⟩
    apply shows_of_plain
    · rw [ensureRenderBound_ok rendered, comment.markdown_eq]
    · decide
    · exact WorkPlanComment.lines_plain safe accepted
  · intro runId changes tests remainingBlockers summary built body rendered
    have plain : runId.toList.all plainChar = true ∧ summary.runId = runId := by
      simp only [FinalSummary.new, bind_eq_ok, pure_eq_ok] at built
      obtain ⟨_, valid, _, -, _, -, _, -, rfl⟩ := built
      exact ⟨identifier_plain valid, rfl⟩
    apply shows_of_plain
    · rw [ensureRenderBound_ok rendered, summary.markdown_eq]
    · obtain ⟨noBreak, noReturn, -, -⟩ := plain_noBreak plain.1
      have fixed : ∀ c ∈ ['\n', '\r'], c ∉ finalSummaryMarkerPrefix.toList ∧ c ∉ " -->".toList := by
        decide
      simp only [FinalSummary.marker, plain.2, String.toList_append, List.mem_append, not_or]
      exact ⟨⟨⟨(fixed _ (.head _)).1, noBreak⟩, (fixed _ (.head _)).2⟩,
        ⟨⟨(fixed _ (.tail _ (.head _))).1, noReturn⟩, (fixed _ (.tail _ (.head _))).2⟩⟩
    · exact summary.lines_plain

/-- A parser that knows one URL. -/
def parseExampleUrl (value : String) : Option Url :=
  if value = "https://github.com/o/r/runs/7" then some ⟨"https", some "github.com", "", value⟩ else none

/-- A summary that tries to add a heading and a tag stays on the line of its item. -/
theorem forged_summary_lines : ∃ item comment body,
    PlanItem.new "feedback-1" "done` — failed <b> ## PiTools" .completed = .ok item ∧
      WorkPlanComment.new parseExampleUrl "https://github.com/o/r/runs/7" [item] = .ok comment ∧
      comment.render = .ok body ∧ Shows body workPlanMarker.toList comment.lines := by
  have safe : SafeUrls parseExampleUrl := by
    intro value url known _
    unfold parseExampleUrl at known
    split at known
    · rename_i same
      cases known
      rw [same]
      decide
    · cases known
  let item : PlanItem := ⟨"feedback-1", "done` — failed <b> ## PiTools", .completed, rfl, rfl⟩
  let comment : WorkPlanComment :=
    ⟨⟨"https", some "github.com", "", "https://github.com/o/r/runs/7"⟩, [item], none⟩
  have built : WorkPlanComment.new parseExampleUrl "https://github.com/o/r/runs/7" [item] = .ok comment := by
    decide
  have rendered : comment.render = .ok comment.markdown := if_neg (by decide +kernel)
  refine ⟨item, comment, comment.markdown, PlanItem.new_of_valid .completed rfl rfl, built, rendered, ?_⟩
  exact ((rendered_comments safe).1 comment (.new built) comment.markdown rendered).1

end PiTools
