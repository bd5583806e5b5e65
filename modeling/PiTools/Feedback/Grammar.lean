import PiTools.Feedback.Patch

/-
This file describes the texts of well-formed patches and shows that the parser
accepts exactly these texts.
-/

namespace PiTools.Feedback

open Library

/-! ### Paths -/

/-- A name that stands for one file or directory. -/
structure PathName (name : List Char) : Prop where
  nonempty : name ≠ []
  notCurrent : name ≠ ['.']
  notParent : name ≠ ['.', '.']
  slash : '/' ∉ name
  backslash : '\x5c' ∉ name
  nul : '\x00' ∉ name

/-- A canonical path joins its names by single slashes. -/
def CanonicalPath (path : List Char) : Prop :=
  ∃ names, names ≠ [] ∧ (∀ name ∈ names, PathName name) ∧ path = ['/'].intercalate names

/-- No piece of a split contains the separator. -/
theorem notMem_of_mem_splitOn {separator : Char} {text piece : List Char}
    (member : piece ∈ text.splitOn separator) : separator ∉ piece := by
  induction text generalizing piece with
  | nil =>
      rw [List.splitOn_nil, List.mem_singleton] at member
      simp [member]
  | cons c rest ih =>
      rw [List.splitOn_cons_eq_if_modifyHead] at member
      split at member
      · rcases List.mem_cons.mp member with rfl | later
        · simp
        · exact ih later
      · rename_i other
        cases split : rest.splitOn separator with
        | nil => exact absurd split (List.splitOn_ne_nil separator rest)
        | cons first pieces =>
            rw [split, List.modifyHead_cons, List.mem_cons] at member
            rcases member with rfl | later
            · have apart : separator ∉ first := ih (split ▸ .head _)
              rw [List.mem_cons, not_or]
              exact ⟨fun same => other (by simp [same]), apart⟩
            · exact ih (split ▸ .tail _ later)

/-- Every character of a piece stands in the joined text. -/
theorem mem_intercalate {separator piece : List Char} {pieces : List (List Char)} {c : Char}
    (inside : piece ∈ pieces) (member : c ∈ piece) : c ∈ separator.intercalate pieces := by
  induction pieces with
  | nil => cases inside
  | cons first rest ih =>
      cases rest with
      | nil =>
          rw [List.mem_singleton] at inside
          rw [List.intercalate_singleton, ← inside]
          exact member
      | cons second rest =>
          rw [List.intercalate_cons_cons]
          rcases List.mem_cons.mp inside with rfl | later
          · simp [member]
          · exact List.mem_append_right _ (ih later)

/-- Every character of the joined text stands in the separator or in a piece. -/
theorem of_mem_intercalate {separator : List Char} {pieces : List (List Char)} {c : Char}
    (member : c ∈ separator.intercalate pieces) :
    c ∈ separator ∨ ∃ piece ∈ pieces, c ∈ piece := by
  induction pieces with
  | nil => cases member
  | cons first rest ih =>
      cases rest with
      | nil =>
          rw [List.intercalate_singleton] at member
          exact .inr ⟨first, .head _, member⟩
      | cons second rest =>
          rw [List.intercalate_cons_cons, List.mem_append, List.mem_append] at member
          rcases member with (here | between) | later
          · exact .inr ⟨first, .head _, here⟩
          · exact .inl between
          · rcases ih later with between | ⟨piece, inside, letter⟩
            · exact .inl between
            · exact .inr ⟨piece, .tail _ inside, letter⟩

/-- A normal component of a path is one of its names. -/
theorem component_name {path name : List Char} (member : .normal name ∈ components path) :
    name ∈ path.splitOn '/' ∧ name ≠ [] ∧ name ≠ ['.'] ∧ name ≠ ['.', '.'] := by
  unfold components at member
  rcases List.mem_append.mp member with front | inner
  · split at front
    · simp at front
    · split at front
      · simp at front
      · cases front
  · obtain ⟨piece, inside, found⟩ := List.mem_filterMap.mp inner
    unfold innerComponent at found
    split at found
    · cases found
    · rename_i visible
      split at found
      · cases found
      · rename_i notParent
        cases found
        rw [not_or] at visible
        exact ⟨inside, visible.1, visible.2, notParent⟩

/-- The components of a canonical path are its names. -/
theorem components_intercalate {names : List (List Char)} (nonempty : names ≠ [])
    (valid : ∀ name ∈ names, PathName name) :
    isAbsolute (['/'].intercalate names) = false ∧
      components (['/'].intercalate names) = names.map .normal := by
  have split : (['/'].intercalate names).splitOn '/' = names :=
    List.splitOn_intercalate '/' (fun name member => (valid name member).slash) nonempty
  have relative : isAbsolute (['/'].intercalate names) = false := by
    cases names with
    | nil => exact absurd rfl nonempty
    | cons first rest =>
        have name := valid first (.head _)
        cases first with
        | nil => exact absurd rfl name.nonempty
        | cons c letters =>
            have apart : c ≠ '/' := fun same => name.slash (by simp [same])
            cases rest with
            | nil => simp [isAbsolute, apart]
            | cons second rest =>
                rw [List.intercalate_cons_cons]
                simp [isAbsolute, apart]
  have inner : names.filterMap innerComponent = names.map .normal := by
    rw [← List.filterMap_eq_map]
    apply List.filterMap_congr
    intro name member
    have name := valid name member
    simp [innerComponent, name.nonempty, name.notCurrent, name.notParent]
  have front : names.head? ≠ some ['.'] := by
    intro first
    exact (valid ['.'] (List.mem_of_mem_head? first)).notCurrent rfl
  refine ⟨relative, ?_⟩
  simp only [components, split, relative, inner, Bool.false_eq_true, if_false, if_neg front,
    List.nil_append]

/-- The validation accepts exactly the canonical paths. -/
theorem validateRelativePath_eq_ok {path : List Char} {nothing : Unit} :
    validateRelativePath path = .ok nothing ↔ CanonicalPath path := by
  simp only [validateRelativePath, bind_eq_ok, ensure_eq_ok]
  constructor
  · rintro ⟨_, ⟨nonempty, backslash, nul⟩, _, ⟨_, normal⟩, same⟩
    refine ⟨(components path).map PathComponent.text, ?_, ?_, same.symm⟩
    · intro empty
      rw [empty] at same
      exact nonempty same.symm
    · intro name member
      obtain ⟨component, inside, rfl⟩ := List.mem_map.mp member
      have isNormal := List.all_eq_true.mp normal component inside
      cases component with
      | rootDir | curDir | parentDir => cases isNormal
      | normal name =>
          obtain ⟨piece, visible, notCurrent, notParent⟩ := component_name inside
          have within : ∀ c, c ∈ name → c ∈ path := fun c letter => by
            rw [← same]
            exact mem_intercalate member letter
          exact ⟨visible, notCurrent, notParent, notMem_of_mem_splitOn piece,
            fun letter => backslash (within _ letter), fun letter => nul (within _ letter)⟩
  · rintro ⟨names, nonempty, valid, rfl⟩
    obtain ⟨relative, parts⟩ := components_intercalate nonempty valid
    have apart : ∀ c, c ≠ '/' → (∀ name ∈ names, c ∉ name) → c ∉ ['/'].intercalate names := by
      intro c other absent member
      rcases of_mem_intercalate member with between | ⟨name, inside, letter⟩
      · exact other (List.mem_singleton.mp between)
      · exact absent name inside letter
    have visible : ['/'].intercalate names ≠ [] := by
      intro empty
      obtain ⟨name, rest, rfl⟩ := List.exists_cons_of_ne_nil nonempty
      obtain ⟨c, letters, rfl⟩ := List.exists_cons_of_ne_nil (valid name (.head _)).nonempty
      have member : c ∈ ['/'].intercalate ((c :: letters) :: rest) :=
        mem_intercalate (.head _) (.head _)
      rw [empty] at member
      cases member
    refine ⟨(), ⟨visible, ?_, ?_⟩, (), ⟨relative, ?_⟩, ?_⟩
    · exact apart _ (by decide) fun name inside => (valid name inside).backslash
    · exact apart _ (by decide) fun name inside => (valid name inside).nul
    · rw [parts]
      simp [PathComponent.isNormal]
    · rw [parts, List.map_map]
      congr 1
      exact List.map_id names

theorem components_canonical {relative : List Char} (canonical : CanonicalPath relative) :
    ∃ names, components relative = names.map .normal ∧
      (components relative).map PathComponent.text = names ∧ names ≠ [] := by
  obtain ⟨names, nonempty, valid, rfl⟩ := canonical
  obtain ⟨-, parts⟩ := components_intercalate nonempty valid
  refine ⟨names, parts, ?_, nonempty⟩
  rw [parts, List.map_map]
  exact List.map_id names

/-! ### Headers -/

/-- A range gives its start and its count. A count of one may be missing. -/
def RangeText (text : List Char) (start count : Nat) : Prop :=
  (∃ startText countText, text = startText ++ ',' :: countText ∧ UsizeText startText start ∧
    UsizeText countText count) ∨ (UsizeText text start ∧ count = 1)

/-- A header gives the range in the old text and the range in the new text. -/
def HeaderText (text : Line) (oldStart oldCount newCount : Nat) : Prop :=
  ∃ oldRange newRange newStart heading,
    text = "@@ -".toList ++ oldRange ++ " +".toList ++ newRange ++ " @@".toList ++ heading ∧
      RangeText oldRange oldStart oldCount ∧ RangeText newRange newStart newCount

theorem RangeText.notMem_space {text : List Char} {start count : Nat}
    (range : RangeText text start count) : ' ' ∉ text := by
  rcases range with ⟨startText, countText, rfl, first, second⟩ | ⟨only, _⟩
  · have before : ' ' ∉ startText := first.notMem (by decide) (by decide)
    have after : ' ' ∉ countText := second.notMem (by decide) (by decide)
    simp [before, after]
  · exact only.notMem (by decide) (by decide)

theorem usizeText_one : UsizeText ['1'] 1 := parseUsize_eq_some.mp (by decide)

/-- A range is read exactly from its texts. -/
theorem parseRange_eq_ok {range : List Char} {start count : Nat} :
    parseRange range = .ok (start, count) ↔ RangeText range start count := by
  simp only [parseRange, bind_eq_ok, okOr_eq_ok, parseUsize_eq_some, pure_eq_ok, Prod.mk.injEq]
  constructor
  · rintro ⟨_, first, _, second, rfl, rfl⟩
    cases split : splitOnce [','] range with
    | none =>
        rw [split] at first second
        have single := (parseUsize_eq_some.mpr second).symm.trans (parseUsize_eq_some.mpr usizeText_one)
        exact .inr ⟨first, Option.some.inj single⟩
    | some parts =>
        obtain ⟨startText, countText⟩ := parts
        rw [split] at first second
        have same := splitOnce_some split
        rw [List.append_assoc] at same
        exact .inl ⟨startText, countText, same, first, second⟩
  · rintro (⟨startText, countText, rfl, first, second⟩ | ⟨only, rfl⟩)
    · have apart : ',' ∉ startText := first.notMem (by decide) (by decide)
      have found : splitOnce [','] (',' :: countText) = some ([], countText) := splitOnce_self
      rw [splitOnce_append apart, found]
      exact ⟨start, by simpa using first, count, by simpa using second, rfl, rfl⟩
    · have apart : ',' ∉ range := only.notMem (by decide) (by decide)
      rw [splitOnce_of_notMem apart]
      exact ⟨start, only, 1, usizeText_one, rfl, rfl⟩

/-- Two fields make up the text between the markers. -/
theorem splitOn_two {text first second : List Char} :
    ((text.splitOn ' ')[0]? = some first ∧ (text.splitOn ' ')[1]? = some second ∧
      (text.splitOn ' ')[2]? = none) ↔
        text = first ++ ' ' :: second ∧ ' ' ∉ first ∧ ' ' ∉ second := by
  constructor
  · rintro ⟨zero, one, two⟩
    have fields : text.splitOn ' ' = [first, second] := by
      apply List.ext_getElem?
      intro index
      match index with
      | 0 => exact zero
      | 1 => exact one
      | index + 2 =>
          have bound := List.getElem?_eq_none_iff.mp two
          rw [List.getElem?_eq_none (by omega)]
          rfl
    have joined : [' '].intercalate (text.splitOn ' ') = text := List.intercalate_splitOn ' '
    rw [fields, List.intercalate_cons_cons, List.intercalate_singleton, List.append_assoc] at joined
    have inside : first ∈ text.splitOn ' ' ∧ second ∈ text.splitOn ' ' := by simp [fields]
    exact ⟨joined.symm, notMem_of_mem_splitOn inside.1, notMem_of_mem_splitOn inside.2⟩
  · rintro ⟨rfl, inFirst, inSecond⟩
    rw [List.splitOn_append_cons_self_of_not_mem inFirst, List.splitOn_eq_singleton inSecond]
    exact ⟨rfl, rfl, rfl⟩

/-- The marker after the ranges is the first one. -/
theorem splitOnce_ranges {old new : List Char} (heading : List Char) (inOld : ' ' ∉ old) (inNew : ' ' ∉ new) :
    splitOnce " @@".toList ('-' :: old ++ ' ' :: '+' :: new ++ " @@".toList ++ heading) =
      some ('-' :: old ++ ' ' :: '+' :: new, heading) := by
  have front : ' ' ∉ '-' :: old := by simp [inOld]
  have back : ' ' ∉ '+' :: new := by simp [inNew]
  have marker : splitOnce [' ', '@', '@'] ([' ', '@', '@'] ++ heading) = some ([], heading) :=
    splitOnce_self
  have later : ¬ [' ', '@', '@'] <+: ' ' :: ('+' :: new ++ ([' ', '@', '@'] ++ heading)) := by
    simp [List.cons_prefix_cons]
  show splitOnce [' ', '@', '@'] _ = _
  rw [show '-' :: old ++ ' ' :: '+' :: new ++ " @@".toList ++ heading =
    ('-' :: old) ++ (' ' :: (('+' :: new) ++ ([' ', '@', '@'] ++ heading))) by simp]
  rw [splitOnce_append front, splitOnce_cons later, splitOnce_append back, marker]
  simp

/-- A header is read exactly from its texts, and an old range from line zero is empty. -/
theorem parseHunkHeader_eq_ok {header : Line} {oldStart oldCount newCount : Nat} :
    parseHunkHeader header = .ok (oldStart, oldCount, newCount) ↔
      HeaderText header oldStart oldCount newCount ∧ (oldStart = 0 → oldCount = 0) := by
  simp only [parseHunkHeader, bind_eq_ok, okOr_eq_ok, stripPrefix_eq_some, ensure_eq_ok,
    Option.bind_eq_some_iff, pure_eq_ok]
  constructor
  · rintro ⟨rest, rfl, ⟨ranges, heading⟩, found, old, ⟨first, zero, rfl⟩, new, ⟨second, one, rfl⟩,
      _, two, ⟨start, count⟩, oldRange, ⟨newStart, count'⟩, newRange, _, oneBased, same⟩
    obtain ⟨rfl, inOld, inNew⟩ := splitOn_two.mp ⟨zero, one, two⟩
    simp only [Prod.mk.injEq] at same
    obtain ⟨rfl, rfl, rfl⟩ := same
    refine ⟨⟨old, new, newStart, heading, ?_, parseRange_eq_ok.mp oldRange,
      parseRange_eq_ok.mp newRange⟩, ?_⟩
    · rw [splitOnce_some found]
      simp
    · intro zero
      by_contra some_
      exact oneBased ⟨zero, some_⟩
  · rintro ⟨⟨old, new, newStart, heading, rfl, oldRange, newRange⟩, oneBased⟩
    have inOld := oldRange.notMem_space
    have inNew := newRange.notMem_space
    have fields := splitOn_two.mpr ⟨Eq.refl ('-' :: old ++ ' ' :: '+' :: new), by simp [inOld],
      by simp [inNew]⟩
    refine ⟨_, ?_, _, splitOnce_ranges heading inOld inNew, old, ⟨_, fields.1, rfl⟩, new,
      ⟨_, fields.2.1, rfl⟩, (), fields.2.2, _, parseRange_eq_ok.mpr oldRange, _,
      parseRange_eq_ok.mpr newRange, (), ?_, rfl⟩
    · simp
    · rintro ⟨zero, some_⟩
      exact some_ (oneBased zero)

/-! ### Hunks -/

/-- A line of a hunk carries its mark in front. -/
def HunkLine.text : HunkLine → Line
  | .context line => ' ' :: line
  | .remove line => '-' :: line
  | .add line => '+' :: line

/-- The counts of a hunk are the counts of its lines, and only an empty range starts at zero. -/
structure Hunk.Counted (hunk : Hunk) : Prop where
  old : hunk.oldCount = (oldLines hunk.lines).length
  new : hunk.newCount = (newLines hunk.lines).length
  oneBased : hunk.oldStart = 0 → hunk.oldCount = 0

/-- The lines of consecutive hunks, each with its header in front. -/
inductive HunkTexts : List Line → List Hunk → Prop
  | nil : HunkTexts [] []
  | cons {header : Line} {hunk : Hunk} {rest : List Line} {hunks : List Hunk}
      (heading : HeaderText header hunk.oldStart hunk.oldCount hunk.newCount)
      (counted : hunk.Counted) (later : HunkTexts rest hunks) :
      HunkTexts (header :: (hunk.lines.map HunkLine.text ++ rest)) (hunk :: hunks)

/-- The text of a patch for one canonical path with at least one hunk. -/
structure WellFormed (source path : List Char) (hunks : List Hunk) : Prop where
  canonical : CanonicalPath path
  nonempty : hunks ≠ []
  lines : ∃ body, HunkTexts body hunks ∧
    source.splitOn '\n' = ("--- a/".toList ++ path) :: ("+++ b/".toList ++ path) :: body

theorem parseHunkLine_eq_ok {line : Line} {parsed : HunkLine} :
    parseHunkLine line = .ok parsed ↔ line = parsed.text := by
  constructor
  · intro found
    unfold parseHunkLine at found
    split at found
    · cases found
      rfl
    · cases found
      rfl
    · cases found
      rfl
    · cases found
  · rintro rfl
    cases parsed <;> rfl

theorem parseHunkLines_eq_ok {lines : List Line} {parsed : List HunkLine} :
    lines.mapM parseHunkLine = .ok parsed ↔ lines = parsed.map HunkLine.text := by
  induction lines generalizing parsed with
  | nil =>
      rw [List.mapM_nil, pure_eq_ok]
      cases parsed <;> simp
  | cons line rest ih =>
      simp only [List.mapM_cons, bind_eq_ok, parseHunkLine_eq_ok, ih, pure_eq_ok]
      constructor
      · rintro ⟨first, rfl, others, rfl, rfl⟩
        rfl
      · intro same
        cases parsed with
        | nil => cases same
        | cons first others =>
            obtain ⟨rfl, rfl⟩ := List.cons.inj same
            exact ⟨first, rfl, others, rfl, rfl⟩

/-- The lines of a hunk belong to its body. -/
theorem inBody_text (line : HunkLine) : inBody line.text = true := by
  cases line <;> rfl

/-- A header ends the body before it. -/
theorem HeaderText.notInBody {header : Line} {oldStart oldCount newCount : Nat}
    (heading : HeaderText header oldStart oldCount newCount) : inBody header = false := by
  obtain ⟨oldRange, newRange, newStart, section_, rfl, _⟩ := heading
  rfl

/-- The body of a hunk ends where the lines of the next hunk start. -/
theorem HunkTexts.span {rest : List Line} {hunks : List Hunk} (texts : HunkTexts rest hunks)
    (lines : List HunkLine) :
    (lines.map HunkLine.text ++ rest).takeWhile inBody = lines.map HunkLine.text ∧
      (lines.map HunkLine.text ++ rest).dropWhile inBody = rest := by
  have inside : ∀ line ∈ lines.map HunkLine.text, inBody line = true := by
    intro line member
    obtain ⟨parsed, _, rfl⟩ := List.mem_map.mp member
    exact inBody_text parsed
  rw [List.takeWhile_append_of_pos inside, List.dropWhile_append_of_pos inside]
  cases texts with
  | nil => simp
  | cons heading counted later => simp [heading.notInBody]

/-- The hunks are read exactly from their texts. -/
theorem parseHunks_eq_ok {lines : List Line} {hunks : List Hunk} :
    parseHunks lines = .ok hunks ↔ HunkTexts lines hunks := by
  induction lines using parseHunks.induct generalizing hunks with
  | case1 =>
      rw [parseHunks]
      constructor
      · intro same
        cases same
        exact .nil
      · intro texts
        cases texts
        rfl
  | case2 header rest ih =>
      rw [parseHunks]
      simp only [bind_eq_ok, ensure_eq_ok, parseHunkLines_eq_ok, pure_eq_ok]
      constructor
      · rintro ⟨_, visible, ⟨oldStart, oldCount, newCount⟩, ranges, lines, body, _,
          ⟨old, new⟩, others, later, rfl⟩
        obtain ⟨heading, oneBased⟩ := parseHunkHeader_eq_ok.mp ranges
        have texts := @HunkTexts.cons header ⟨oldStart, oldCount, newCount, lines⟩ _ others heading
          ⟨old.symm, new.symm, oneBased⟩ (ih.mp later)
        rw [← body, List.takeWhile_append_dropWhile] at texts
        exact texts
      · intro texts
        cases texts with
        | @cons _ hunk later hunks heading counted texts =>
            obtain ⟨taken, dropped⟩ := texts.span hunk.lines
            rw [dropped] at ih
            rw [taken, dropped]
            refine ⟨(), ?_, _, parseHunkHeader_eq_ok.mpr ⟨heading, counted.oneBased⟩, hunk.lines,
              rfl, (), ⟨counted.old.symm, counted.new.symm⟩, hunks, ih.mpr texts, rfl⟩
            rintro rfl
            obtain ⟨oldRange, newRange, newStart, section_, empty, _⟩ := heading
            cases empty

/-- A patch is read exactly from its well-formed texts. -/
theorem parseUnifiedPatch_eq_ok {source : List Char} {patch : ParsedPatch} :
    parseUnifiedPatch source = .ok patch ↔ WellFormed source patch.path patch.hunks := by
  simp only [parseUnifiedPatch, bind_eq_ok, okOr_eq_ok, stripPrefix_eq_some, ensure_eq_ok,
    Option.bind_eq_some_iff, validateRelativePath_eq_ok, parseHunks_eq_ok, pure_eq_ok]
  constructor
  · rintro ⟨path, ⟨_, zero, rfl⟩, _, ⟨_, one, rfl⟩, _, rfl, _, canonical, hunks, texts, _, nonempty, rfl⟩
    refine ⟨canonical, nonempty, _, texts, ?_⟩
    have front : (source.splitOn '\n').take 2 = ["--- a/".toList ++ path, "+++ b/".toList ++ path] := by
      simp only [List.take_add_one, List.take_zero, zero, one]
      rfl
    calc source.splitOn '\n'
        = (source.splitOn '\n').take 2 ++ (source.splitOn '\n').drop 2 :=
          (List.take_append_drop 2 _).symm
      _ = ("--- a/".toList ++ path) :: ("+++ b/".toList ++ path) :: (source.splitOn '\n').drop 2 := by
          rw [front]
          rfl
  · rintro ⟨canonical, nonempty, body, texts, lines⟩
    rw [lines]
    exact ⟨patch.path, ⟨_, rfl, rfl⟩, _, ⟨_, rfl, rfl⟩, (), rfl, (), canonical, patch.hunks, texts, (),
      nonempty, rfl⟩

end PiTools.Feedback
