import PiTools.Workspace.GitApply

/-
This file shows which names `git apply` takes from a patch whose file lines all
name one path.
-/

namespace PiTools.Workspace

open Library

/-! ### Lines -/

def withoutBreak (line : List Char) : List Char := line.takeWhile (· ≠ '\n')

theorem rawLines_ended {line : List Char} (noBreak : '\n' ∉ line) (rest : List Char) :
    rawLines (line ++ '\n' :: rest) = (line ++ ['\n']) :: rawLines rest := by
  induction line with
  | nil => simp [rawLines]
  | cons c line ih =>
      rw [List.mem_cons, not_or] at noBreak
      rw [List.cons_append, rawLines, if_neg (Ne.symm noBreak.1), ih noBreak.2]
      rfl

theorem rawLines_open {line : List Char} (noBreak : '\n' ∉ line) (visible : line ≠ []) :
    rawLines line = [line] := by
  induction line with
  | nil => exact absurd rfl visible
  | cons c line ih =>
      rw [List.mem_cons, not_or] at noBreak
      rw [rawLines, if_neg (Ne.symm noBreak.1)]
      cases line with
      | nil => rfl
      | cons d line => rw [ih noBreak.2 (List.cons_ne_nil d line)]

theorem withoutBreak_of_notMem {line : List Char} (noBreak : '\n' ∉ line) (rest : List Char) :
    withoutBreak line = line ∧ withoutBreak (line ++ '\n' :: rest) = line := by
  have visible : ∀ c ∈ line, decide (c ≠ '\n') = true := by
    intro c member
    rw [decide_eq_true_eq]
    rintro rfl
    exact noBreak member
  constructor
  · exact List.takeWhile_eq_self_iff.mpr visible
  · rw [withoutBreak, List.takeWhile_append_of_pos visible]
    simp

/-- Without carriage returns both readers see the same lines. -/
theorem lines_eq_rawLines {text : List Char} (plain : '\r' ∉ text) :
    lines text = (rawLines text).map withoutBreak := by
  induction long : text.length using Nat.strongRecOn generalizing text with
  | ind length ih =>
      rcases exists_line text with noBreak | ⟨line, rest, noBreak, rfl⟩
      · by_cases visible : text = []
        · rw [visible]
          rfl
        · rw [lines_open noBreak visible, rawLines_open noBreak visible, List.map_singleton,
            (withoutBreak_of_notMem noBreak []).1]
      · simp only [List.mem_append, List.mem_cons, not_or] at plain
        have shorter : rest.length < length := by
          rw [← long, List.length_append, List.length_cons]
          omega
        rw [lines_ended noBreak, rawLines_ended noBreak, List.map_cons, ih _ shorter plain.2.2 rfl,
          (withoutBreak_of_notMem noBreak []).2, dropCarriageReturn_of_notMem plain.1]

/-! ### Names -/

/-- The lines of a patch that start as a line with a file name name the path. -/
structure Headed (path line : List Char) : Prop where
  old : startsWith "--- " line → withoutBreak line = "--- a/".toList ++ path
  new : startsWith "+++ " line → withoutBreak line = "+++ b/".toList ++ path

/-- The name that two file lines on their own stand for. -/
def traditionalName (git : GitReader) (path : List Char) : Option (List Char) :=
  findNameTraditional git (findNameTraditional git none ('a' :: '/' :: path)) ('b' :: '/' :: path)

/-- What is known of a name when all file lines name the path. -/
def GitName.Known (git : GitReader) (path : List Char) (name : GitName) : Prop :=
  match name.source with
  | .header => True
  | .fileLine => chooseName none (path.takeWhile fun c => c ∉ fileEnds) = some name.text
  | .traditional => traditionalName git path = some name.text

/-- A name of a header is the path. A path that is read from a file line survives there. -/
def GitName.Fits (git : GitReader) (path : List Char) (name : GitName) : Prop :=
  match name.source with
  | .header => name.text = path
  | .fileLine => '\t' ∉ path ∧ ¬ ['/', '/'] <:+: path
  | .traditional => traditionalName git path = some path

section

variable {git : GitReader} {path text : List Char} {letter : Char}

theorem head_of_withoutBreak {rest : List Char} (same : withoutBreak text = letter :: rest) :
    text.head? = some letter := by
  cases text with
  | nil => cases same
  | cons c text =>
      rw [withoutBreak, List.takeWhile_cons] at same
      split at same
      · rw [(List.cons.inj same).1]
        rfl
      · cases same

theorem takeWhile_fileEnds (text : List Char) :
    (withoutBreak text).takeWhile (fun c => c ∉ fileEnds) = text.takeWhile fun c => c ∉ fileEnds := by
  rw [withoutBreak, List.takeWhile_takeWhile]
  congr 1
  funext c
  by_cases breaks : c = '\n'
  · rw [breaks]
    rfl
  · simp [breaks]

theorem findName_file (plain : letter ≠ '\x22' ∧ letter ≠ '/' ∧ letter ∉ fileEnds)
    (same : withoutBreak text = letter :: '/' :: path) :
    findName git true fileEnds text = chooseName none (path.takeWhile fun c => c ∉ fileEnds) := by
  have unquoted : quotedName git true text = none := by
    apply if_neg
    rw [head_of_withoutBreak same, Option.some.injEq]
    exact plain.1
  have word : text.takeWhile (fun c => c ∉ fileEnds) =
      letter :: '/' :: path.takeWhile fun c => c ∉ fileEnds := by
    rw [← takeWhile_fileEnds, same, List.takeWhile_cons_of_pos (by simpa using plain.2.2),
      List.takeWhile_cons_of_pos (by decide)]
  have behind : behindSlash (letter :: '/' :: path.takeWhile fun c => c ∉ fileEnds) =
      path.takeWhile fun c => c ∉ fileEnds := by
    simp [behindSlash, plain.2.1]
  rw [findName, unquoted, Option.orElse_none]
  dsimp only
  rw [word, if_pos rfl, behind]

theorem withoutBreak_idem (text : List Char) : withoutBreak (withoutBreak text) = withoutBreak text := by
  rw [withoutBreak, withoutBreak, List.takeWhile_takeWhile]
  simp

theorem findNameTraditional_file (unquoted : letter ≠ '\x22')
    (same : withoutBreak text = letter :: '/' :: path) (default : Option (List Char)) :
    findNameTraditional git default text = findNameTraditional git default (letter :: '/' :: path) := by
  have none (other : List Char) (starts : other.head? = some letter) : quotedName git true other = none := by
    apply if_neg
    rw [starts, Option.some.injEq]
    exact unquoted
  have line : (letter :: '/' :: path).takeWhile (· ≠ '\n') = text.takeWhile (· ≠ '\n') := by
    have twice := withoutBreak_idem text
    rw [same] at twice
    exact twice.trans same.symm
  have word : (letter :: '/' :: path).takeWhile (fun c => c ∉ fileEnds) =
      text.takeWhile fun c => c ∉ fileEnds := by
    rw [← takeWhile_fileEnds text, same]
  rw [findNameTraditional, findNameTraditional, none text (head_of_withoutBreak same),
    none (letter :: '/' :: path) rfl, line, word]

theorem isDevNull_of_head (starts : text.head? = some letter) (other : letter ≠ '/') :
    isDevNull text = false := by
  cases text with
  | nil => cases starts
  | cons c text =>
      cases starts
      have differs : stripPrefix "/dev/null".toList (letter :: text) = none := by
        apply if_neg
        intro prefixed
        have first := (List.cons_prefix_cons.mp (List.isPrefixOf_iff_prefix.mp prefixed)).1
        exact other first.symm
      rw [isDevNull, differs]

/-! ### Headers -/

/-- The names of a header are known. -/
def Header.Known (git : GitReader) (path : List Char) (header : Header) : Prop :=
  (∀ name ∈ header.old, name.Known git path) ∧ ∀ name ∈ header.new, name.Known git path

theorem known_header (name : List Char) : (GitName.mk .header name).Known git path := trivial

theorem known_map_header (name : Option (List Char)) :
    ∀ known ∈ name.map (GitName.mk .header), known.Known git path := by
  intro known found
  obtain ⟨text, -, rfl⟩ := Option.map_eq_some_iff.mp found
  exact known_header text

theorem Headed.behind {line : List Char} (headed : Headed path line) :
    (startsWith "--- " line → withoutBreak (line.drop 4) = 'a' :: '/' :: path) ∧
      (startsWith "+++ " line → withoutBreak (line.drop 4) = 'b' :: '/' :: path) := by
  have behind {start : List Char} {rest : List Char} (long : start.length = 4) (noBreak : '\n' ∉ start)
      (same : withoutBreak line = start ++ rest) (starts : start <+: line) :
      withoutBreak (line.drop 4) = rest := by
    obtain ⟨tail, rfl⟩ := starts
    rw [withoutBreak, List.takeWhile_append_of_pos, List.append_cancel_left_eq] at same
    · rw [List.drop_left' long]
      exact same
    · intro c member
      rw [decide_eq_true_eq]
      rintro rfl
      exact noBreak member
  constructor
  · intro starts
    exact @behind "--- ".toList _ rfl (by decide) (headed.old starts)
      (List.isPrefixOf_iff_prefix.mp starts)
  · intro starts
    exact @behind "+++ ".toList _ rfl (by decide) (headed.new starts)
      (List.isPrefixOf_iff_prefix.mp starts)

/-- A name from a file line is known. -/
theorem verifyName_known {isNull : Bool} {known read : Option GitName}
    (verified : verifyName git isNull known text = some read)
    (plain : letter ≠ '\x22' ∧ letter ≠ '/' ∧ letter ∉ fileEnds)
    (same : withoutBreak text = letter :: '/' :: path)
    (before : ∀ name ∈ known, name.Known git path) : ∀ name ∈ read, name.Known git path := by
  unfold verifyName at verified
  split at verified
  · split at verified
    · cases verified
      intro name found
      obtain ⟨file, chosen, rfl⟩ := Option.map_eq_some_iff.mp found
      rw [findName_file plain same] at chosen
      exact chosen
    · split at verified
      · cases verified
        intro name found
        cases found
      · cases verified
  · split at verified
    · cases verified
      exact before
    · cases verified

variable {header next last : Header} {line : List Char}

theorem Header.defaultGitName_known (header : Header) :
    ∀ name ∈ header.defaultGitName, name.Known git path := known_map_header header.defaultName

theorem readIndex_names (read : header.readIndex text = some next) :
    next.old = header.old ∧ next.new = header.new := by
  unfold Header.readIndex at read
  split at read
  · cases read
    exact ⟨rfl, rfl⟩
  · dsimp only at read
    split at read
    · cases read
      exact ⟨rfl, rfl⟩
    · obtain ⟨mode, -, rfl⟩ := Option.map_eq_some_iff.mp read
      exact ⟨rfl, rfl⟩

/-- A line of an extended header adds known names only. -/
theorem headerTable_known {entry : String × (Header → List Char → Option Header)}
    (member : entry ∈ headerTable git) (starts : startsWith entry.1 line) (headed : Headed path line)
    (known : header.Known git path)
    (read : entry.2 header (line.drop entry.1.toList.length) = some next) : next.Known git path := by
  have renamed : ∀ name ∈ wholeName git (line.drop entry.1.toList.length), name.Known git path :=
    known_map_header _
  simp only [headerTable, List.mem_cons, List.not_mem_nil, or_false] at member
  rcases member with rfl | rfl | rfl | rfl | rfl | rfl | rfl | rfl | rfl | rfl | rfl | rfl | rfl | rfl | rfl
  · obtain ⟨name, verified, rfl⟩ := Option.map_eq_some_iff.mp read
    have here : withoutBreak (line.drop "--- ".toList.length) = 'a' :: '/' :: path :=
      headed.behind.1 starts
    exact ⟨verifyName_known verified (by decide) here known.1, known.2⟩
  · obtain ⟨name, verified, rfl⟩ := Option.map_eq_some_iff.mp read
    have here : withoutBreak (line.drop "+++ ".toList.length) = 'b' :: '/' :: path :=
      headed.behind.2 starts
    exact ⟨known.1, verifyName_known verified (by decide) here known.2⟩
  · obtain ⟨mode, -, rfl⟩ := Option.map_eq_some_iff.mp read
    exact known
  · obtain ⟨mode, -, rfl⟩ := Option.map_eq_some_iff.mp read
    exact known
  · obtain ⟨mode, -, rfl⟩ := Option.map_eq_some_iff.mp read
    exact ⟨header.defaultGitName_known, known.2⟩
  · obtain ⟨mode, -, rfl⟩ := Option.map_eq_some_iff.mp read
    exact ⟨known.1, header.defaultGitName_known⟩
  · cases read
    exact ⟨renamed, known.2⟩
  · cases read
    exact ⟨known.1, renamed⟩
  · cases read
    exact ⟨renamed, known.2⟩
  · cases read
    exact ⟨known.1, renamed⟩
  · cases read
    exact ⟨renamed, known.2⟩
  · cases read
    exact ⟨known.1, renamed⟩
  · cases read
    exact known
  · cases read
    exact known
  · obtain ⟨old, new⟩ := readIndex_names read
    rw [Header.Known, old, new]
    exact known

/-- By induction on the lines of the header. -/
theorem readHeader_known {used : Nat} {lines : List (List Char)}
    (headed : ∀ line ∈ lines, Headed path line) (known : header.Known git path) (read : readHeader git header lines = some (last, used)) :
    last.Known git path := by
  induction lines generalizing header used with
  | nil =>
      cases read
      exact known
  | cons line rest ih =>
      unfold readHeader at read
      split at read
      · cases read
        exact known
      · split at read
        · cases read
          exact known
        · rename_i start parse found
          obtain ⟨next, parsed, later⟩ := Option.bind_eq_some_iff.mp read
          split at later
          · cases later
          · obtain ⟨result, readOn, same⟩ := Option.bind_eq_some_iff.mp later
            cases same
            have starts : startsWith start line = true := by simpa using List.find?_some found
            have nextKnown := headerTable_known (List.mem_of_find?_eq_some found) starts
              (headed line (.head _)) known parsed
            exact ih (fun other member => headed other (.tail _ member)) nextKnown readOn

theorem complete_known (known : header.Known git path) (complete : header.complete = some next) :
    next.Known git path := by
  have named : (if header.old = none ∧ header.new = none then
      { header with old := header.defaultGitName, new := header.defaultGitName }
    else header).Known git path := by
    split
    · exact ⟨header.defaultGitName_known, header.defaultGitName_known⟩
    · exact known
  unfold Header.complete at complete
  generalize (if header.old = none ∧ header.new = none then
      { header with old := header.defaultGitName, new := header.defaultGitName }
    else header) = chosen at named complete
  dsimp only at complete
  split at complete
  · cases complete
  · cases complete
    exact named

theorem changed_known (known : header.Known git path) : ∀ name ∈ header.changed, name.Known git path := by
  intro name member
  unfold Header.changed at member
  split at member
  · exact known.2 name (by simpa using member)
  · rcases List.mem_append.mp member with old | new
    · exact known.1 name (by simpa using old)
    · exact known.2 name (by simpa using new)

/-! ### Patches -/

/-- What is found at a line has known names. -/
def AtLine.Known (git : GitReader) (path : List Char) : AtLine → Prop
  | .skips left => ∀ name ∈ left, name.Known git path
  | .fails => True
  | .stops => True
  | .found changed _ => ∀ name ∈ changed, name.Known git path

theorem readBody_known (known : header.Known git path) (used : Nat) (lines : List (List Char)) :
    (readBody git header used lines).Known git path := by
  have changed := changed_known known
  unfold readBody
  split
  · trivial
  · split
    · trivial
    · split
      · exact changed
      · split
        · split
          · trivial
          · exact changed
        · split
          · exact changed
          · split
            · exact changed
            · trivial

variable {left : Option GitName} {rest : List (List Char)}

theorem gitSection_known (before : ∀ name ∈ left, name.Known git path)
    (headed : ∀ line ∈ rest, Headed path line) (line : List Char) :
    (gitSection git left line rest).Known git path := by
  have start (defaultName : Option (List Char)) : (Header.start defaultName left).Known git path :=
    ⟨before, before⟩
  unfold gitSection
  dsimp only
  split
  · trivial
  · rename_i header used read
    have known := readHeader_known headed (start _) read
    split
    · trivial
    · rename_i named complete
      have namedKnown := complete_known known complete
      split
      · exact namedKnown.1
      · exact readBody_known namedKnown used rest

theorem traditionalHeader_known {first second : List Char} (before : ∀ name ∈ left, name.Known git path)
    (old : withoutBreak first = 'a' :: '/' :: path) (new : withoutBreak second = 'b' :: '/' :: path)
    (found : traditionalHeader git left first second = some header) : header.Known git path := by
  unfold traditionalHeader at found
  dsimp only at found
  rw [if_neg (by simp [isDevNull_of_head (head_of_withoutBreak old)]),
    if_neg (by simp [isDevNull_of_head (head_of_withoutBreak new)]),
    findNameTraditional_file (by decide) old, findNameTraditional_file (by decide) new] at found
  obtain ⟨name, named, same⟩ := Option.map_eq_some_iff.mp found
  have known : ∀ other ∈ some (GitName.mk .traditional name), other.Known git path := by
    intro other found
    cases found
    exact named
  split at same
  · cases same
    exact ⟨before, known⟩
  · split at same
    · cases same
      exact ⟨known, before⟩
    · cases same
      exact ⟨known, known⟩

theorem atLine_known {line : List Char} (before : ∀ name ∈ left, name.Known git path)
    (headedLine : Headed path line) (headed : ∀ line ∈ rest, Headed path line) :
    (atLine git left line rest).Known git path := by
  unfold atLine
  split
  · exact before
  · split
    · split
      · trivial
      · exact before
    · split
      · exact before
      · split
        · exact gitSection_known before headed line
        · split
          · rename_i second third more _
            split
            · rename_i headers
              unfold traditionalSection
              split
              · trivial
              · rename_i header found
                have known := traditionalHeader_known before (headedLine.behind.1 headers.1)
                  ((headed second (.head _)).behind.2 headers.2.1) found
                exact readBody_known known 1 _
            · exact before
          · exact before

/-- By induction on the lines, of which the ones of a patch are skipped behind its header. -/
theorem changedNames_known {skip : Nat} {lines : List (List Char)} {names : List GitName}
    (before : ∀ name ∈ left, name.Known git path) (headed : ∀ line ∈ lines, Headed path line)
    (read : changedNames git skip left lines = some names) : ∀ name ∈ names, name.Known git path := by
  induction lines generalizing skip left names with
  | nil =>
      cases read
      exact fun name member => absurd member List.not_mem_nil
  | cons line rest ih =>
      have later : ∀ line ∈ rest, Headed path line := fun other member => headed other (.tail _ member)
      cases skip with
      | succ skip => exact ih before later read
      | zero =>
          have here := @atLine_known git path left rest line before (headed line (.head _)) later
          rw [changedNames] at read
          cases known : atLine git left line rest with
          | skips left =>
              rw [known] at read here
              exact ih here later read
          | fails =>
              rw [known] at read
              cases read
          | stops =>
              rw [known] at read
              cases read
              exact fun name member => absurd member List.not_mem_nil
          | found changed used =>
              rw [known] at read here
              obtain ⟨others, readOn, rfl⟩ := Option.map_eq_some_iff.mp read
              intro name member
              rcases List.mem_append.mp member with first | second
              · exact here name first
              · exact ih (fun name none => absurd none (Option.not_mem_none name)) later readOn name second

theorem gitApplyChanges_known {patch : List Char} (headed : ∀ line ∈ rawLines patch, Headed path line) :
    ∀ name ∈ gitApplyChanges git patch, name.Known git path := by
  intro name member
  unfold gitApplyChanges at member
  cases read : changedNames git 0 none (rawLines patch) with
  | none =>
      rw [read] at member
      cases member
  | some names =>
      rw [read] at member
      have before : ∀ name ∈ (none : Option GitName), name.Known git path :=
        fun name none => absurd none (Option.not_mem_none name)
      exact changedNames_known before headed read name member

end

/-! ### Names that are the path -/

theorem squashSlash_length (text : List Char) : (squashSlash text).length ≤ text.length := by
  induction text using squashSlash.induct with
  | case1 => exact Nat.le_refl _
  | case2 c => exact Nat.le_refl _
  | case3 c d rest double ih =>
      rw [squashSlash, if_pos double]
      exact Nat.le_succ_of_le ih
  | case4 c d rest single ih =>
      rw [squashSlash, if_neg single]
      exact Nat.succ_le_succ ih

/-- Only a text with a double slash is changed. -/
theorem squashSlash_eq_self {text : List Char} : squashSlash text = text ↔ ¬ ['/', '/'] <:+: text := by
  induction text using squashSlash.induct with
  | case1 => simp [squashSlash]
  | case2 c => simp [squashSlash, List.infix_cons_iff, List.cons_prefix_cons]
  | case3 c d rest double ih =>
      obtain ⟨rfl, rfl⟩ := double
      constructor
      · intro same
        have short := squashSlash_length ('/' :: rest)
        rw [squashSlash, if_pos ⟨rfl, rfl⟩] at same
        rw [same] at short
        exact absurd short (by simp)
      · exact fun single => absurd ⟨[], rest, rfl⟩ single
  | case4 c d rest single ih =>
      have here : ¬ ['/', '/'] <+: c :: d :: rest := by
        rintro ⟨tail, same⟩
        obtain ⟨first, others⟩ := List.cons.inj same
        exact single ⟨first.symm, (List.cons.inj others).1.symm⟩
      rw [squashSlash, if_neg single, List.cons.injEq, List.infix_cons_iff, ih]
      simp [here]

theorem GitName.Known.text_eq_iff {git : GitReader} {path : List Char} {name : GitName}
    (known : name.Known git path) (noBreak : '\n' ∉ path ∧ '\r' ∉ path) :
    name.text = path ↔ name.Fits git path := by
  unfold GitName.Known at known
  unfold GitName.Fits
  cases source : name.source with
  | header => rfl
  | traditional =>
      rw [source] at known
      dsimp only at known ⊢
      rw [known, Option.some.injEq]
  | fileLine =>
      rw [source] at known
      dsimp only at known ⊢
      have text : squashSlash (path.takeWhile fun c => c ∉ fileEnds) = name.text := by
        unfold chooseName at known
        split at known
        · cases known
        · exact Option.some.inj known
      have plain : path.takeWhile (fun c => c ∉ fileEnds) = path ↔ '\t' ∉ path := by
        rw [List.takeWhile_eq_self_iff]
        constructor
        · intro inside tab
          exact absurd (inside '\t' tab) (by decide)
        · intro noTab c member
          have other : c ≠ '\n' ∧ c ≠ '\r' ∧ c ≠ '\t' := by
            refine ⟨?_, ?_, ?_⟩ <;> rintro rfl
            · exact noBreak.1 member
            · exact noBreak.2 member
            · exact noTab member
          simp [fileEnds, other]
      rw [← text]
      constructor
      · intro same
        -- Neither step can have made the path shorter.
        have long := squashSlash_length (path.takeWhile fun c => c ∉ fileEnds)
        rw [same] at long
        have whole := (List.takeWhile_prefix fun c => decide (c ∉ fileEnds)).eq_of_length_le long
        rw [whole] at same
        exact ⟨plain.mp whole, squashSlash_eq_self.mp same⟩
      · rintro ⟨noTab, single⟩
        rw [plain.mpr noTab, squashSlash_eq_self.mpr single]

end PiTools.Workspace
