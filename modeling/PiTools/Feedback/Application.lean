import PiTools.Feedback.Patch
import PiTools.Library.Splice

/-
This file shows that the application of hunks replaces their old lines by their
new lines and keeps every other line.
-/

namespace PiTools.Feedback

open Library

/-- The edit of the lines that a hunk stands for. -/
def Hunk.edit (hunk : Hunk) : Edit Line := ⟨hunk.start, oldLines hunk.lines, newLines hunk.lines⟩

theorem requireExactLine_eq_ok {source : List Line} {index : Nat} {expected : Line} {nothing : Unit} :
    requireExactLine source index expected = .ok nothing ↔ source[index]? = some expected := by
  unfold requireExactLine
  rw [ensure_eq_ok]

/-- The progress after some lines that remove the old lines and leave the new lines. -/
def Progress.extend (progress : Progress) (old new : List Line) : Progress :=
  ⟨progress.result ++ new, progress.sourceIndex + old.length, progress.produced + new.length⟩

theorem Progress.extend_extend (progress : Progress) (old old' new new' : List Line) :
    (progress.extend old new).extend old' new' = progress.extend (old ++ old') (new ++ new') := by
  simp only [Progress.extend, List.append_assoc, List.length_append, Nat.add_assoc]

/-- A line applies when its old line stands at the index. -/
theorem applyHunkLine_eq_ok {source : List Line} {line : HunkLine} {progress progress' : Progress} :
    applyHunkLine source progress line = .ok progress' ↔
      line.old.toList <+: source.drop progress.sourceIndex ∧
        progress' = progress.extend line.old.toList line.new.toList := by
  cases line with
  | context expected =>
      simp only [applyHunkLine, bind_eq_ok, requireExactLine_eq_ok, pure_eq_ok]
      show _ ↔ [expected] <+: _ ∧ progress' = progress.extend [expected] [expected]
      rw [singleton_prefix_drop]
      simp [Progress.extend, eq_comm]
  | remove expected =>
      simp only [applyHunkLine, bind_eq_ok, requireExactLine_eq_ok, pure_eq_ok]
      show _ ↔ [expected] <+: _ ∧ progress' = progress.extend [expected] []
      rw [singleton_prefix_drop]
      simp [Progress.extend, eq_comm]
  | add value =>
      simp only [applyHunkLine, pure_eq_ok]
      show _ ↔ [] <+: _ ∧ progress' = progress.extend [] [value]
      simp [Progress.extend, eq_comm]

theorem oldLines_cons (line : HunkLine) (rest : List HunkLine) :
    oldLines (line :: rest) = line.old.toList ++ oldLines rest := by
  cases line <;> rfl

theorem newLines_cons (line : HunkLine) (rest : List HunkLine) :
    newLines (line :: rest) = line.new.toList ++ newLines rest := by
  cases line <;> rfl

/-- The lines of a hunk apply when its old lines stand at the index. -/
theorem applyHunkLines_eq_ok {source : List Line} {lines : List HunkLine}
    {progress progress' : Progress} :
    lines.foldlM (applyHunkLine source) progress = .ok progress' ↔
      oldLines lines <+: source.drop progress.sourceIndex ∧
        progress' = progress.extend (oldLines lines) (newLines lines) := by
  induction lines generalizing progress with
  | nil =>
      rw [List.foldlM_nil, pure_eq_ok]
      simp [oldLines, newLines, Progress.extend, eq_comm]
  | cons line rest ih =>
      rw [List.foldlM_cons, bind_eq_ok, oldLines_cons, newLines_cons, append_prefix_drop,
        ← Progress.extend_extend]
      constructor
      · rintro ⟨middle, first, others⟩
        obtain ⟨here, rfl⟩ := applyHunkLine_eq_ok.mp first
        obtain ⟨there, rfl⟩ := ih.mp others
        exact ⟨⟨here, there⟩, rfl⟩
      · rintro ⟨⟨here, there⟩, rfl⟩
        exact ⟨_, applyHunkLine_eq_ok.mpr ⟨here, rfl⟩, ih.mpr ⟨there, rfl⟩⟩

/-- A hunk applies when it starts behind the cursor and its old lines stand at its start. -/
theorem applyHunk_eq_ok {source result : List Line} {cursor : Nat} {hunk : Hunk}
    (counted : hunk.newCount = (newLines hunk.lines).length) {done : List Line × Nat} :
    applyHunk source (result, cursor) hunk = .ok done ↔
      cursor ≤ hunk.edit.start ∧ hunk.edit.start ≤ source.length ∧
        hunk.edit.old <+: source.drop hunk.edit.start ∧
          done = (result ++ (source.drop cursor).take (hunk.edit.start - cursor) ++ hunk.edit.new,
            hunk.edit.start + hunk.edit.old.length) := by
  simp only [applyHunk, bind_eq_ok, ensure_eq_ok, applyHunkLines_eq_ok, pure_eq_ok, not_or, not_lt]
  constructor
  · rintro ⟨_, ⟨after, inside⟩, progress, ⟨starts, rfl⟩, _, produced, rfl⟩
    exact ⟨after, inside, starts, rfl⟩
  · rintro ⟨after, inside, starts, rfl⟩
    refine ⟨(), ⟨after, inside⟩, _, ⟨starts, rfl⟩, (), ?_, rfl⟩
    show 0 + (newLines hunk.lines).length = hunk.newCount
    omega

/-- The hunks apply exactly when the lines from the cursor on can be spliced. -/
theorem applyHunkList_eq_ok {source : List Line} {hunks : List Hunk}
    (counted : ∀ hunk ∈ hunks, hunk.newCount = (newLines hunk.lines).length)
    {result final : List Line} {cursor : Nat} (inside : cursor ≤ source.length) :
    (∃ done, hunks.foldlM (applyHunk source) (result, cursor) = .ok done ∧
      done.1 ++ source.drop done.2 = final) ↔
        ∃ rest, Spliced cursor (source.drop cursor) (hunks.map Hunk.edit) rest ∧
          final = result ++ rest := by
  induction hunks generalizing result cursor with
  | nil =>
      simp only [List.foldlM_nil, pure_eq_ok, List.map_nil, spliced_nil]
      constructor
      · rintro ⟨_, rfl, rfl⟩
        exact ⟨_, rfl, rfl⟩
      · rintro ⟨_, rfl, rfl⟩
        exact ⟨_, rfl, rfl⟩
  | cons hunk hunks ih =>
      have first : hunk.newCount = (newLines hunk.lines).length := counted hunk (.head _)
      have others : ∀ hunk ∈ hunks, hunk.newCount = (newLines hunk.lines).length :=
        fun hunk member => counted hunk (.tail _ member)
      simp only [List.foldlM_cons, bind_eq_ok, applyHunk_eq_ok first, List.map_cons,
        spliced_drop inside]
      constructor
      · rintro ⟨done, ⟨middle, ⟨after, start, starts, rfl⟩, applied⟩, rfl⟩
        obtain ⟨later, spliced, same⟩ :=
          (ih others (prefix_drop_length starts start)).mp ⟨done, applied, rfl⟩
        refine ⟨_, ⟨after, start, starts, later, spliced, rfl⟩, ?_⟩
        rw [same]
        simp only [List.append_assoc]
      · rintro ⟨rest, ⟨after, start, starts, later, spliced, rfl⟩, same⟩
        let copied := result ++ (source.drop cursor).take (hunk.edit.start - cursor) ++ hunk.edit.new
        have continued : final = copied ++ later := by
          rw [same]
          simp only [copied, List.append_assoc]
        obtain ⟨done, applied, ends⟩ :=
          (ih others (prefix_drop_length starts start)).mpr ⟨later, spliced, continued⟩
        exact ⟨done, ⟨_, ⟨after, start, starts, rfl⟩, applied⟩, ends⟩

/-- The hunks apply to a text exactly when its lines can be spliced. -/
theorem applyHunks_eq_ok {original result : List Char} {hunks : List Hunk}
    (counted : ∀ hunk ∈ hunks, hunk.newCount = (newLines hunk.lines).length) :
    applyHunks original hunks = .ok result ↔
      ∃ lines, Spliced 0 (original.splitOn '\n') (hunks.map Hunk.edit) lines ∧
        result = joinLines lines := by
  have spliced : ∀ lines, (∃ done,
      hunks.foldlM (applyHunk (original.splitOn '\n')) ([], 0) = .ok done ∧
        done.1 ++ (original.splitOn '\n').drop done.2 = lines) ↔
          Spliced 0 (original.splitOn '\n') (hunks.map Hunk.edit) lines := by
    intro lines
    rw [applyHunkList_eq_ok counted (Nat.zero_le _)]
    simp
  simp only [applyHunks, bind_eq_ok, pure_eq_ok]
  constructor
  · rintro ⟨done, applied, rfl⟩
    exact ⟨_, (spliced _).mp ⟨done, applied, rfl⟩, rfl⟩
  · rintro ⟨lines, known, rfl⟩
    obtain ⟨done, applied, rfl⟩ := (spliced lines).mpr known
    exact ⟨done, applied, rfl⟩

end PiTools.Feedback
