import PiTools.Feedback.InlineSuggestion

/-
This file says which suggestions fail at the file system: those whose target is
missing, or is no text.
-/

namespace PiTools.Feedback

open Library

/-! ### Suggested paths -/

/-- The path of a comment whose suggestion and line range are well formed. -/
def inlinePath (feedback : Feedback) : Option (List Char) :=
  match extractInlineSuggestion feedback.body, feedback.path, feedback.line with
  | .ok _, some path, some line =>
      if line = 0 ∨ feedback.startLine.getD line = 0 ∨ line < feedback.startLine.getD line then none
      else some path
  | _, _, _ => none

def patchPath (suggestion : List Char) : Option (List Char) :=
  match parseUnifiedPatch suggestion with
  | .ok patch => some patch.path
  | .error _ => none

/-- The path that a suggestion names, as far as the suggestion itself is well formed. -/
def suggestedPath (feedback : Feedback) : Option (List Char) :=
  match extractExactSuggestion feedback.body with
  | .ok suggestion =>
      if "--- a/".toList <+: suggestion then patchPath suggestion else inlinePath feedback
  | .error _ => inlinePath feedback

/-! ### Targets -/

/-- Something that is no link stands at the first names. -/
def Passes (repository : Repository) (names : List (List Char)) (count : Nat) : Prop :=
  ∃ entry, repository (names.take count) = some entry ∧ entry ≠ .symlink

/-- The names lead to a missing entry before any link, or to a file that is no text. -/
def Unreadable (repository : Repository) (names : List (List Char)) : Prop :=
  (∃ count, 0 < count ∧ count ≤ names.length ∧ repository (names.take count) = none ∧
    ∀ earlier, 0 < earlier → earlier < count → Passes repository names earlier) ∨
  ((∀ count, 0 < count → count ≤ names.length → Passes repository names count) ∧
    repository names = some (.file none))

variable {repository : Repository} {relative : List Char} {target rest : List (List Char)}

/-- The first name of the rest is passed, and so are the others behind it. -/
theorem forall_take_cons {property : List (List Char) → Prop} {name : List Char} {bound : Nat} :
    (∀ count, 0 < count → count < bound + 2 → property (target ++ (name :: rest).take count)) ↔
      property (target ++ [name]) ∧
        ∀ count, 0 < count → count < bound + 1 → property (target ++ [name] ++ rest.take count) := by
  constructor
  · intro all
    refine ⟨by simpa using all 1 (by omega) (by omega), fun count positive small => ?_⟩
    simpa using all (count + 1) (by omega) (by omega)
  · rintro ⟨first, others⟩ count positive small
    match count with
    | 1 => simpa using first
    | count + 2 => simpa using others (count + 1) (by omega) (by omega)

/-- The components are passed when none of them is missing or a link. -/
theorem checkComponents_ok {reached : List (List Char)}
    (checked : checkComponents repository relative target rest = .ok reached) :
    reached = target ++ rest ∧ ∀ count, 0 < count → count < rest.length + 1 →
      ∃ entry, repository (target ++ rest.take count) = some entry ∧ entry ≠ .symlink := by
  induction rest generalizing target with
  | nil =>
      cases checked
      refine ⟨(List.append_nil _).symm, fun count positive small => ?_⟩
      simp at small
      omega
  | cons name rest ih =>
      simp only [checkComponents, bind_eq_ok, okOr_eq_ok, ensure_eq_ok] at checked
      obtain ⟨entry, found, _, plain, checked⟩ := checked
      obtain ⟨rfl, passed⟩ := ih checked
      refine ⟨by simp, ?_⟩
      rw [List.length_cons]
      exact (@forall_take_cons target rest (fun names => ∃ entry, repository names = some entry ∧
        entry ≠ .symlink) name _).mpr ⟨⟨entry, found, plain⟩, passed⟩

/-- The components fail at the file system when one is missing and no link stands before it. -/
theorem checkComponents_io :
    checkComponents repository relative target rest = .error .io ↔
      ∃ count, 0 < count ∧ count ≤ rest.length ∧ repository (target ++ rest.take count) = none ∧
        ∀ earlier, 0 < earlier → earlier < count →
          ∃ entry, repository (target ++ rest.take earlier) = some entry ∧ entry ≠ .symlink := by
  induction rest generalizing target with
  | nil =>
      refine iff_of_false (by simp [checkComponents]) ?_
      rintro ⟨count, positive, small, -⟩
      simp at small
      omega
  | cons name rest ih =>
      simp only [checkComponents, bind_eq_error, okOr_eq_error, okOr_eq_ok, ensure_eq_error,
        ensure_eq_ok, ih, and_true]
      constructor
      · rintro (missing | ⟨entry, found, ⟨-, other⟩ | ⟨_, plain, count, positive, small, missing, passed⟩⟩)
        · refine ⟨1, by omega, by simp, by simpa using missing, fun earlier positive small => ?_⟩
          omega
        · cases other
        · refine ⟨count + 1, by omega, by simpa using small, by simpa using missing, ?_⟩
          intro earlier early late
          obtain rfl | others : earlier = 1 ∨ 1 < earlier := by omega
          · exact ⟨entry, by simpa using found, plain⟩
          · obtain ⟨before, rfl⟩ := Nat.exists_eq_add_of_lt others
            simpa [Nat.add_comm, Nat.add_left_comm] using passed (before + 1) (by omega) (by omega)
      · rintro ⟨count, positive, small, missing, passed⟩
        cases count with
        | zero => omega
        | succ count =>
            cases count with
            | zero => exact .inl (by simpa using missing)
            | succ count =>
                obtain ⟨entry, found, plain⟩ := passed 1 (by omega) (by omega)
                refine .inr ⟨entry, by simpa using found, .inr ⟨(), plain, count + 1, by omega,
                  by simpa using small, by simpa using missing, fun earlier early late => ?_⟩⟩
                simpa using passed (earlier + 1) (by omega) (by omega)

/-- A checked target has the names of its path, and it is a regular file. -/
theorem checkedTarget_ok (checked : checkedTarget repository relative = .ok target) :
    CanonicalPath relative ∧ target = (components relative).map PathComponent.text ∧
      (∀ count, 0 < count → count ≤ target.length → Passes repository target count) ∧
        ∃ text, repository target = some (.file text) := by
  simp only [checkedTarget, bind_eq_ok, validateRelativePath_eq_ok, okOr_eq_ok, ensure_eq_ok,
    pure_eq_ok] at checked
  obtain ⟨_, canonical, reached, walked, entry, found, _, regular, rfl⟩ := checked
  obtain ⟨same, passed⟩ := checkComponents_ok walked
  rw [List.nil_append] at same
  subst same
  refine ⟨canonical, rfl, fun count positive small => ?_, ?_⟩
  · simpa [Passes] using passed count positive (by omega)
  · cases entry with
    | file text => exact ⟨text, found⟩
    | directory | symlink | other => cases regular

theorem validateRelativePath_io : validateRelativePath relative ≠ .error .io := by
  simp [validateRelativePath, bind_eq_error, ensure_eq_error]

/-- Reading a path fails at the file system when it is canonical and unreadable. -/
theorem readTarget_io :
    (checkedTarget repository relative >>= readToString repository) = .error .io ↔
      CanonicalPath relative ∧ Unreadable repository ((components relative).map PathComponent.text) := by
  rw [bind_eq_error]
  constructor
  · rintro (failed | ⟨target, checked, unread⟩)
    · simp only [checkedTarget, bind_eq_error, okOr_eq_error, ensure_eq_error, reduceCtorEq, and_false,
        false_or, validateRelativePath_io, validateRelativePath_eq_ok] at failed
      obtain ⟨_, canonical, missing | ⟨reached, walked, ⟨none', -⟩ | ⟨entry, -, impossible⟩⟩⟩ := failed
      · rw [checkComponents_io] at missing
        exact ⟨canonical, .inl (by simpa [Passes] using missing)⟩
      · -- The last component was found.
        obtain ⟨rfl, passed⟩ := checkComponents_ok walked
        obtain ⟨names, parts, texts, some'⟩ := components_canonical canonical
        have visible := List.length_pos_iff.mpr some'
        rw [texts] at none' passed
        obtain ⟨entry, found, -⟩ := passed names.length visible (by omega)
        rw [List.take_length] at found
        rw [found] at none'
        cases none'
      · exact absurd impossible (by simp [pure_ne_error])
    · obtain ⟨canonical, rfl, passed, text, found⟩ := checkedTarget_ok checked
      refine ⟨canonical, .inr ⟨passed, ?_⟩⟩
      cases text with
      | none => exact found
      | some text =>
          rw [readToString, found] at unread
          cases unread
  · rintro ⟨canonical, missing | ⟨passed, noText⟩⟩
    · left
      have walked : checkComponents repository relative []
          ((components relative).map PathComponent.text) = .error .io := by
        rw [checkComponents_io]
        simpa [Passes] using missing
      rw [checkedTarget, bind_eq_error]
      refine .inr ⟨(), validateRelativePath_eq_ok.mpr canonical, ?_⟩
      rw [bind_eq_error]
      exact .inl walked
    · right
      refine ⟨(components relative).map PathComponent.text, ?_, ?_⟩
      · have walked := @checkComponents_eq_ok repository relative []
          ((components relative).map PathComponent.text) passed
        simp only [checkedTarget, bind_eq_ok, validateRelativePath_eq_ok, okOr_eq_ok, ensure_eq_ok,
          pure_eq_ok]
        exact ⟨(), canonical, _, walked, _, noText, (), rfl, rfl⟩
      · rw [readToString, noText]

/-! ### Texts -/

theorem parseRange_ne_io (range : List Char) : parseRange range ≠ .error .io := by
  simp [parseRange, bind_eq_error, okOr_eq_error, mapped_eq_error]

theorem parseHunkHeader_ne_io (header : Line) : parseHunkHeader header ≠ .error .io := by
  simp [parseHunkHeader, bind_eq_error, okOr_eq_error, ensure_eq_error, mapped_eq_error, parseRange_ne_io]

theorem parseHunkLine_ne_io (line : Line) : parseHunkLine line ≠ .error .io := by
  unfold parseHunkLine
  split <;> simp

theorem parseHunks_ne_io (lines : List Line) : parseHunks lines ≠ .error .io := by
  induction lines using parseHunks.induct with
  | case1 => simp [parseHunks]
  | case2 header rest ih =>
      rw [parseHunks]
      simp [bind_eq_error, ensure_eq_error, mapped_eq_error, parseHunkHeader_ne_io,
        mapM_ne_error parseHunkLine_ne_io, ih]

theorem parseUnifiedPatch_ne_io (source : List Char) : parseUnifiedPatch source ≠ .error .io := by
  simp [parseUnifiedPatch, bind_eq_error, okOr_eq_error, ensure_eq_error, mapped_eq_error,
    validateRelativePath_io, parseHunks_ne_io]

theorem applyHunkLine_ne_io (source : List Line) (progress : Progress) (line : HunkLine) :
    applyHunkLine source progress line ≠ .error .io := by
  cases line with
  | context line | remove line =>
      simp [applyHunkLine, requireExactLine, ensure_eq_error, mapped_eq_error]
  | add line => exact pure_ne_error

theorem applyHunk_ne_io (source : List Line) (done : List Line × Nat) (hunk : Hunk) :
    applyHunk source done hunk ≠ .error .io := by
  simp [applyHunk, bind_eq_error, ensure_eq_error, mapped_eq_error,
    foldlM_ne_error (applyHunkLine_ne_io source)]

theorem applyHunks_ne_io (original : List Char) (hunks : List Hunk) :
    applyHunks original hunks ≠ .error .io := by
  simp [applyHunks, mapped_eq_error, foldlM_ne_error (applyHunk_ne_io _)]

theorem extractInlineSuggestion_ne_io (body : List Char) :
    extractInlineSuggestion body ≠ .error .io := by
  simp [extractInlineSuggestion, checkBody, bind_eq_error, okOr_eq_error, ensure_eq_error,
    mapped_eq_error]

theorem applyInlineSuggestion_ne_io (original : List Char) (startLine endLine : UInt32)
    (suggestion : List Char) : applyInlineSuggestion original startLine endLine suggestion ≠ .error .io := by
  simp [applyInlineSuggestion, bind_eq_error, ensure_eq_error, mapped_eq_error]

/-! ### Repairs -/

variable (repository relative) in
/-- What is computed from a text that was read fails in no other way at the file system. -/
theorem readThen_io {Answer : Type} {next : List Char → Except FeedbackError Answer}
    (texts : ∀ text, next text ≠ .error .io) :
    (checkedTarget repository relative >>= fun target => readToString repository target >>= next) =
        .error .io ↔
      CanonicalPath relative ∧ Unreadable repository ((components relative).map PathComponent.text) := by
  rw [← readTarget_io, ← bind_assoc, bind_eq_error]
  exact or_iff_left fun ⟨text, _, failed⟩ => texts text failed

variable {feedback : Feedback}

theorem preparePatch_io {suggestion : List Char} : preparePatch repository suggestion = .error .io ↔
    ∃ path, patchPath suggestion = some path ∧ CanonicalPath path ∧
      Unreadable repository ((components path).map PathComponent.text) := by
  rw [preparePatch, patchPath]
  cases parsed : parseUnifiedPatch suggestion with
  | error error =>
      refine iff_of_false ?_ (by simp)
      rintro same
      cases same
      exact parseUnifiedPatch_ne_io _ parsed
  | ok patch =>
      have later : ∀ text, (applyHunks text patch.hunks >>= fun repaired =>
          pure (PreparedRepair.mk patch.path text repaired)) ≠ .error .io := by
        simp [applyHunks_ne_io, mapped_eq_error]
      have read := readThen_io repository patch.path later
      simpa [bind, Except.bind] using read

theorem prepareInline_io : prepareInline repository feedback = .error .io ↔
    ∃ path, inlinePath feedback = some path ∧ CanonicalPath path ∧
      Unreadable repository ((components path).map PathComponent.text) := by
  rw [prepareInline, inlinePath]
  cases found : extractInlineSuggestion feedback.body with
  | error error =>
      refine iff_of_false ?_ (by simp)
      rintro same
      cases same
      exact extractInlineSuggestion_ne_io _ found
  | ok suggestion =>
      cases feedback.path with
      | none => exact iff_of_false (by simp [okOr, bind, Except.bind]) (by simp)
      | some path =>
          cases feedback.line with
          | none => exact iff_of_false (by simp [okOr, bind, Except.bind]) (by simp)
          | some line =>
              have later : ∀ text, (applyInlineSuggestion text (feedback.startLine.getD line) line
                  suggestion >>= fun repaired => pure (PreparedRepair.mk path text repaired)) ≠
                    .error .io := by
                simp [applyInlineSuggestion_ne_io, mapped_eq_error]
              have read := readThen_io repository path later
              dsimp only
              by_cases range : line = 0 ∨ feedback.startLine.getD line = 0 ∨
                  line < feedback.startLine.getD line
              · rw [if_pos range]
                refine iff_of_false ?_ (by simp)
                simp [okOr, bind, Except.bind, ensure, range]
              · rw [if_neg range]
                simpa [okOr, bind, Except.bind, ensure, range] using read

/-- A repair fails at the file system when the suggested path is canonical and unreadable. -/
theorem prepareRepair_io : prepareRepair repository feedback = .error .io ↔
    ∃ path, suggestedPath feedback = some path ∧ CanonicalPath path ∧
      Unreadable repository ((components path).map PathComponent.text) := by
  rw [prepareRepair, suggestedPath]
  cases extractExactSuggestion feedback.body with
  | error error => exact prepareInline_io
  | ok suggestion =>
      dsimp only
      split
      · exact preparePatch_io
      · exact prepareInline_io

/-- What is prepared was read from the checked target of its path. -/
theorem prepareRepair_read {prepared : PreparedRepair}
    (prepares : prepareRepair repository feedback = .ok prepared) :
    ∃ target, checkedTarget repository prepared.path = .ok target ∧
      readToString repository target = .ok prepared.original := by
  have patch : ∀ suggestion, preparePatch repository suggestion = .ok prepared →
      ∃ target, checkedTarget repository prepared.path = .ok target ∧
        readToString repository target = .ok prepared.original := by
    intro suggestion prepares
    simp only [preparePatch, bind_eq_ok, pure_eq_ok] at prepares
    obtain ⟨patch, -, target, checked, original, read, repaired, -, rfl⟩ := prepares
    exact ⟨target, checked, read⟩
  have inline_ : prepareInline repository feedback = .ok prepared →
      ∃ target, checkedTarget repository prepared.path = .ok target ∧
        readToString repository target = .ok prepared.original := by
    intro prepares
    simp only [prepareInline, bind_eq_ok, pure_eq_ok] at prepares
    obtain ⟨_, -, path, -, _, -, _, -, target, checked, original, read, repaired, -, rfl⟩ := prepares
    exact ⟨target, checked, read⟩
  rw [prepareRepair] at prepares
  split at prepares
  · split at prepares
    · exact patch _ prepares
    · exact inline_ prepares
  · exact inline_ prepares

end PiTools.Feedback
