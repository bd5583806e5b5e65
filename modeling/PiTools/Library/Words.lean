import PiTools.Library.Gaps
import PiTools.Library.Occurrences

/-
This file finds the words of a text that is cut after some bytes, also where
marks fill the gaps of the text.
-/

namespace Library

/-! ### Shortened texts -/

/-- The longest start of the text within the number of bytes. -/
def truncateUtf8 : Nat → List Char → List Char
  | _, [] => []
  | room, c :: rest => if c.utf8Size ≤ room then c :: truncateUtf8 (room - c.utf8Size) rest else []

/-- The text keeps its first bytes when there is a limit. -/
def shorten : Option Nat → List Char → List Char
  | none, text => text
  | some room, text => truncateUtf8 room text

def Fits (room : Option Nat) (bytes : Nat) : Prop := ∀ limit ∈ room, bytes ≤ limit

instance (room : Option Nat) (bytes : Nat) : Decidable (Fits room bytes) :=
  inferInstanceAs (Decidable (∀ limit ∈ room, bytes ≤ limit))

def Room.after (room : Option Nat) (bytes : Nat) : Option Nat := room.map fun limit => limit - bytes

theorem truncateUtf8_append (room : Nat) (first second : List Char) :
    truncateUtf8 room (first ++ second) =
      if byteLength first ≤ room then first ++ truncateUtf8 (room - byteLength first) second
      else truncateUtf8 room first := by
  induction first generalizing room with
  | nil => simp [byteLength]
  | cons c rest ih =>
      rw [List.cons_append, truncateUtf8, truncateUtf8, byteLength_cons]
      by_cases fits : c.utf8Size ≤ room
      · rw [if_pos fits, if_pos fits, ih]
        by_cases all : byteLength rest ≤ room - c.utf8Size
        · rw [if_pos all, if_pos (by omega), Nat.sub_sub]
          rfl
        · rw [if_neg all, if_neg (by omega)]
      · rw [if_neg fits, if_neg fits, if_neg (by omega)]

theorem truncateUtf8_of_le {room : Nat} {text : List Char} (small : byteLength text ≤ room) :
    truncateUtf8 room text = text := by
  have whole := truncateUtf8_append room text []
  rw [List.append_nil, if_pos small, truncateUtf8, List.append_nil] at whole
  exact whole

theorem truncateUtf8_prefix (room : Nat) (text : List Char) : truncateUtf8 room text <+: text := by
  induction text generalizing room with
  | nil => exact List.prefix_rfl
  | cons c rest ih =>
      rw [truncateUtf8]
      split
      · exact List.cons_prefix_cons.mpr ⟨rfl, ih _⟩
      · exact List.nil_prefix

theorem byteLength_truncateUtf8 (room : Nat) (text : List Char) :
    byteLength (truncateUtf8 room text) ≤ room := by
  induction text generalizing room with
  | nil => exact Nat.zero_le _
  | cons c rest ih =>
      rw [truncateUtf8]
      split
      · have later := ih (room - c.utf8Size)
        rw [byteLength_cons]
        omega
      · exact Nat.zero_le _

section Shorten

variable {room : Option Nat}

theorem shorten_append (room : Option Nat) (first second : List Char) :
    shorten room (first ++ second) =
      if Fits room (byteLength first) then first ++ shorten (Room.after room (byteLength first)) second
      else shorten room first := by
  cases room with
  | none => simp [shorten, Room.after, Fits]
  | some limit => simp [shorten, Room.after, Fits, truncateUtf8_append]

theorem shorten_of_fits {text : List Char} (fits : Fits room (byteLength text)) :
    shorten room text = text := by
  cases room with
  | none => rfl
  | some limit => exact truncateUtf8_of_le (fits limit rfl)

theorem shorten_starts (room : Option Nat) (text : List Char) : shorten room text <+: text := by
  cases room with
  | none => exact List.prefix_rfl
  | some limit => exact truncateUtf8_prefix limit text

theorem fits_shorten (room : Option Nat) (text : List Char) :
    Fits room (byteLength (shorten room text)) := by
  rintro limit rfl
  exact byteLength_truncateUtf8 limit text

theorem prefix_shorten {start text : List Char} :
    start <+: shorten room text ↔ start <+: text ∧ Fits room (byteLength start) := by
  constructor
  · intro starts
    refine ⟨starts.trans (shorten_starts room text), fun limit known => ?_⟩
    obtain ⟨rest, same⟩ := starts
    have small := fits_shorten room text limit known
    rw [← same, byteLength_append] at small
    omega
  · rintro ⟨⟨rest, rfl⟩, fits⟩
    rw [shorten_append, if_pos fits]
    exact List.prefix_append ..

/-- An occurrence stands in a shortened text when it ends in time. -/
theorem infix_shorten {needle text : List Char} : needle <:+: shorten room text ↔
    ∃ before after, text = before ++ (needle ++ after) ∧
      Fits room (byteLength before + byteLength needle) := by
  constructor
  · rintro ⟨before, after, same⟩
    have starts : before ++ needle <+: shorten room text := ⟨after, same⟩
    obtain ⟨⟨rest, whole⟩, fits⟩ := prefix_shorten.mp starts
    rw [byteLength_append] at fits
    exact ⟨before, rest, by rw [← whole, List.append_assoc], fits⟩
  · rintro ⟨before, after, rfl, fits⟩
    rw [← byteLength_append] at fits
    obtain ⟨rest, same⟩ := prefix_shorten.mpr
      (⟨⟨after, List.append_assoc ..⟩, fits⟩ : before ++ needle <+: _ ∧ _)
    exact ⟨before, rest, same⟩

end Shorten

/-! ### Lower case -/

def upperLetters : List Char := "ABCDEFGHIJKLMNOPQRSTUVWXYZ".toList

/-- Only the letters from A to Z have another lower case. -/
theorem toLower_eq_or (c : Char) : c.toLower = c ∨ c ∈ upperLetters := by
  by_cases upper : 65 ≤ c.toNat ∧ c.toNat ≤ 90
  · right
    have known : ∀ code ∈ List.range' 65 26, Char.ofNat code ∈ upperLetters := by decide
    rw [← Char.ofNat_toNat c]
    exact known c.toNat (List.mem_range'_1.mpr (by omega))
  · left
    unfold Char.toLower
    split
    · rename_i letter
      have low : (65 : Nat) ≤ c.toNat := UInt32.le_iff_toNat_le.mp letter.1
      have high : c.toNat ≤ 90 := UInt32.le_iff_toNat_le.mp letter.2
      exact absurd ⟨low, high⟩ upper
    · rfl

/-- What holds of the letters from A to Z as of their lower case holds of all characters so. -/
theorem toLower_invariant {Value : Type} (property : Char → Value)
    (letters : ∀ c ∈ upperLetters, property c.toLower = property c) (c : Char) :
    property c.toLower = property c := by
  rcases toLower_eq_or c with same | letter
  · rw [same]
  · exact letters c letter

theorem utf8Size_toLower : ∀ c : Char, c.toLower.utf8Size = c.utf8Size :=
  toLower_invariant Char.utf8Size (by decide)

theorem truncateUtf8_lowercase (room : Nat) (text : List Char) :
    truncateUtf8 room (asciiLowercase text) = asciiLowercase (truncateUtf8 room text) := by
  induction text generalizing room with
  | nil => rfl
  | cons c rest ih =>
      rw [asciiLowercase, List.map_cons, truncateUtf8, truncateUtf8, utf8Size_toLower]
      split
      · rw [← asciiLowercase, ih]
        rfl
      · rfl

theorem shorten_lowercase (room : Option Nat) (text : List Char) :
    shorten room (asciiLowercase text) = asciiLowercase (shorten room text) := by
  cases room with
  | none => rfl
  | some limit => exact truncateUtf8_lowercase limit text

theorem splitOn_lowercase {c : Char} (other : ∀ letter ∈ upperLetters, letter.toLower ≠ c ∧ letter ≠ c)
    (text : List Char) :
    (asciiLowercase text).splitOn c = (text.splitOn c).map asciiLowercase := by
  induction text with
  | nil => rfl
  | cons d rest ih =>
      have same : (d.toLower = c) = (d = c) :=
        toLower_invariant (fun d => d = c)
          (fun letter member => by simp [(other letter member).1, (other letter member).2]) d
      rw [asciiLowercase] at ih ⊢
      rw [List.map_cons, List.splitOn_cons_eq_if_modifyHead, List.splitOn_cons_eq_if_modifyHead, ih]
      by_cases here : d = c
      · have lower : d.toLower = c := same.mpr here
        rw [lower, here, beq_self_eq_true, if_pos rfl, if_pos rfl]
        rfl
      · have there : d.toLower ≠ c := fun lower => here (same.mp lower)
        obtain ⟨first, more, split⟩ := List.exists_cons_of_ne_nil (List.splitOn_ne_nil c rest)
        simp [here, there, split, asciiLowercase]

theorem dropCarriageReturn_lowercase (line : List Char) :
    dropCarriageReturn (asciiLowercase line) = asciiLowercase (dropCarriageReturn line) := by
  have same : ∀ c : Char, (c.toLower = '\r') = (c = '\r') :=
    toLower_invariant (fun c => c = '\r') (by decide)
  rcases List.eq_nil_or_concat line with rfl | ⟨front, c, rfl⟩
  · rfl
  · rw [dropCarriageReturn, dropCarriageReturn]
    by_cases ends : c = '\r' <;> simp [asciiLowercase, ends, same, List.map_append]

theorem lines_lowercase (text : List Char) :
    lines (asciiLowercase text) = (lines text).map asciiLowercase := by
  obtain ⟨front, last, split⟩ : ∃ (front : List (List Char)) (last : List Char),
      text.splitOn '\n' = front ++ [last] := by
    rcases List.eq_nil_or_concat (text.splitOn '\n') with empty | ⟨front, last, found⟩
    · exact absurd empty (List.splitOn_ne_nil '\n' text)
    · exact ⟨front, last, found.trans (List.concat_eq_append ..)⟩
  have commutes : dropCarriageReturn ∘ asciiLowercase = asciiLowercase ∘ dropCarriageReturn :=
    funext dropCarriageReturn_lowercase
  have ends : ∀ (front : List (List Char)) last, (front ++ [last]).getLastD [] = last := by
    intro front last
    rw [List.getLastD_eq_getLast?, List.getLast?_concat, Option.getD_some]
  rw [lines, lines, splitOn_lowercase (by decide), split, List.map_append]
  simp only [List.map_cons, List.map_nil, ends, List.dropLast_concat, List.map_append, List.map_map,
    commutes]
  cases last with
  | nil => rfl
  | cons c last => rfl

/-! ### Words -/

/-- The middle part is a whole word of the three parts together. -/
structure Word {Letter : Type} (delimiter : Letter → Bool) (before word after : List Letter) : Prop where
  visible : word ≠ []
  plain : ∀ c ∈ word, delimiter c = false
  left : ∀ c ∈ before.getLast?, delimiter c = true
  right : ∀ c ∈ after.head?, delimiter c = true

section Words

variable {Letter : Type} {delimiter : Letter → Bool}

/-- A text has no delimiter, or one ends its first piece. -/
theorem exists_first (delimiter : Letter → Bool) (text : List Letter) :
    (∀ c ∈ text, delimiter c = false) ∨ ∃ first c rest, text = first ++ c :: rest ∧
      (∀ d ∈ first, delimiter d = false) ∧ delimiter c = true := by
  induction text with
  | nil => exact .inl (by simp)
  | cons c rest ih =>
      cases delimits : delimiter c with
      | true => exact .inr ⟨[], c, rest, rfl, by simp, delimits⟩
      | false =>
          rcases ih with plain | ⟨first, d, more, rfl, plain, ends⟩
          · exact .inl (List.forall_mem_cons.mpr ⟨delimits, plain⟩)
          · exact .inr ⟨c :: first, d, more, rfl, List.forall_mem_cons.mpr ⟨delimits, plain⟩, ends⟩

/-- A word before the first delimiter is all that stands there. -/
theorem Word.of_plain {text before word after : List Letter} (whole : Word delimiter before word after)
    (plain : ∀ c ∈ text, delimiter c = false) (same : text = before ++ word ++ after) : word = text := by
  have noBefore : before = [] := by
    by_contra some'
    have ends := whole.left _ (List.getLast?_eq_some_getLast some')
    rw [plain _ (by rw [same]; simp)] at ends
    cases ends
  have noAfter : after = [] := by
    cases after with
    | nil => rfl
    | cons c after =>
        have ends := whole.right c rfl
        rw [plain c (by rw [same]; simp)] at ends
        cases ends
  rw [same, noBefore, noAfter, List.nil_append, List.append_nil]

theorem mem_splitOnP_filter {text word : List Letter} :
    word ≠ [] ∧ word ∈ text.splitOnP delimiter ↔
      ∃ before after, text = before ++ word ++ after ∧ Word delimiter before word after := by
  obtain ⟨length, bound⟩ : ∃ length, text.length = length := ⟨_, rfl⟩
  induction length using Nat.strong_induction_on generalizing text with
  | _ length ih =>
      rcases exists_first delimiter text with plain | ⟨first, c, rest, rfl, plain, delimits⟩
      · rw [List.splitOnP_eq_singleton (by simpa using plain), List.mem_singleton]
        constructor
        · rintro ⟨visible, rfl⟩
          exact ⟨[], [], by simp, visible, plain, by simp, by simp⟩
        · rintro ⟨before, after, same, whole⟩
          exact ⟨whole.visible, whole.of_plain plain same⟩
      · have later := @ih rest.length (by rw [← bound]; simp; omega) rest rfl
        rw [List.splitOnP_append_cons_of_forall_mem (by simpa using plain) c delimits, List.mem_cons,
          and_or_left, later]
        constructor
        · rintro (⟨visible, rfl⟩ | ⟨before, after, rfl, whole⟩)
          · refine ⟨[], c :: rest, rfl, visible, plain, by simp, fun d head => ?_⟩
            cases head
            exact delimits
          · refine ⟨first ++ c :: before, after, by simp, whole.visible, whole.plain, ?_, whole.right⟩
            intro d last
            rw [List.getLast?_append] at last
            cases before with
            | nil =>
                cases last
                exact delimits
            | cons e before =>
                refine whole.left d ?_
                rw [List.getLast?_cons_cons] at last
                rw [List.getLast?_eq_some_getLast (by simp)] at last ⊢
                exact last
        · rintro ⟨before, after, same, whole⟩
          rw [List.append_assoc] at same
          rcases List.append_eq_append_iff.mp same with ⟨gap, inside, tail⟩ | ⟨gap, inside, tail⟩
          · cases gap with
            | nil =>
                -- The word cannot start with the delimiter.
                obtain ⟨d, word', rfl⟩ := List.exists_cons_of_ne_nil whole.visible
                obtain ⟨rfl, -⟩ := List.cons.inj tail
                rw [whole.plain c (List.mem_cons_self ..)] at delimits
                cases delimits
            | cons d gap =>
                obtain ⟨rfl, later'⟩ := List.cons.inj tail
                refine .inr ⟨gap, after, later'.trans (List.append_assoc ..).symm, whole.visible, whole.plain,
                  ?_, whole.right⟩
                intro e last
                refine whole.left e ?_
                rw [inside, List.getLast?_append]
                cases gap with
                | nil => cases last
                | cons f gap =>
                    rw [List.getLast?_cons_cons]
                    rw [Option.mem_def] at last
                    rw [last]
                    rfl
          · -- The word lies in the first piece.
            have noBefore : before = [] := by
              by_contra some'
              have ends := whole.left _ (List.getLast?_eq_some_getLast some')
              rw [plain _ (by rw [inside]; simp)] at ends
              cases ends
            rw [noBefore, List.nil_append] at inside
            rcases List.append_eq_append_iff.mp tail with ⟨more, left, right⟩ | ⟨more, left, right⟩
            · cases more with
              | nil =>
                  rw [List.append_nil] at left
                  exact .inl ⟨whole.visible, by rw [inside, left]⟩
              | cons d more =>
                  have ends := whole.right d (by rw [right]; rfl)
                  rw [plain d (by rw [inside, left]; simp)] at ends
                  cases ends
            · cases more with
              | nil =>
                  rw [List.append_nil] at left
                  exact .inl ⟨whole.visible, by rw [left, inside]⟩
              | cons d more =>
                  have head := (List.cons.inj right).1
                  have ends := whole.plain c (by rw [left, head]; simp)
                  rw [delimits] at ends
                  cases ends

end Words

/-! ### Words behind marks -/

section Marked

variable {Letter : Type} {delimiter : Letter → Bool} {mark : List Letter}

theorem fill_last (cells : List (Option Letter))
    (ends : ∀ cell ∈ cells.getLast?, cell.any delimiter = true) :
    ∀ c ∈ (fill mark cells).getLast?, delimiter c = true := by
  rcases List.eq_nil_or_concat cells with rfl | ⟨rest, cell, rfl⟩
  · simp
  · have last := ends cell (by simp)
    cases cell with
    | none => cases last
    | some c =>
        intro d found
        rw [List.concat_eq_append, fill_append, fill_some, fill_nil, List.getLast?_append] at found
        cases found
        exact last

theorem fill_head (cells : List (Option Letter))
    (starts : ∀ cell ∈ cells.head?, cell.any delimiter = true) :
    ∀ c ∈ (fill mark cells).head?, delimiter c = true := by
  cases cells with
  | nil => simp
  | cons cell rest =>
      have first := starts cell rfl
      cases cell with
      | none => cases first
      | some c =>
          intro d found
          cases found
          exact first

theorem fill_ne_nil (filled : mark ≠ []) {cells : List (Option Letter)} (some' : cells ≠ []) :
    fill mark cells ≠ [] := by
  cases cells with
  | nil => exact absurd rfl some'
  | cons cell rest => cases cell <;> simp [filled]

theorem mem_fill {c : Letter} {cells : List (Option Letter)} :
    c ∈ fill mark cells ↔ some c ∈ cells ∨ none ∈ cells ∧ c ∈ mark := by
  induction cells with
  | nil => simp
  | cons cell rest ih =>
      cases cell with
      | some d => simp [ih, or_assoc]
      | none =>
          rw [fill_none, List.mem_append, ih]
          simp only [List.mem_cons, reduceCtorEq, false_or, true_or, true_and]
          tauto

/-- The words of a text with marks are the words of its cells. -/
theorem exists_word_fill (filled : mark ≠ []) (plain : ∀ c ∈ mark, delimiter c = false)
    (cells : List (Option Letter)) (holds : List Letter → List Letter → Prop) :
    (∃ before word after, fill mark cells = before ++ word ++ after ∧
      Word delimiter before word after ∧ holds before word) ↔
      ∃ before word after, cells = before ++ word ++ after ∧
        Word (Option.any delimiter) before word after ∧ holds (fill mark before) (fill mark word) := by
  have foreign {c : Letter} (delimits : delimiter c = true) : c ∉ mark := by
    intro member
    rw [plain c member] at delimits
    cases delimits
  constructor
  · rintro ⟨before, word, after, same, whole, held⟩
    rw [List.append_assoc] at same
    -- The word starts and ends between two cells.
    have opened : ∃ left rest, cells = left ++ rest ∧ fill mark left = before ∧
        fill mark rest = word ++ after ∧ ∀ cell ∈ left.getLast?, cell.any delimiter = true := by
      rcases List.eq_nil_or_concat before with rfl | ⟨front, c, rfl⟩
      · exact ⟨[], cells, rfl, rfl, same, by simp⟩
      · have delimits := whole.left c (by simp)
        rw [List.concat_eq_append, List.append_assoc, List.singleton_append] at same
        obtain ⟨left, rest, rfl, front', back⟩ := fill_eq_append_cons (foreign delimits) same
        refine ⟨left ++ [some c], rest, by simp, by simp [front'], back, ?_⟩
        simpa using delimits
    obtain ⟨left, rest, rfl, front, back, ends⟩ := opened
    have closed : ∃ middle right, rest = middle ++ right ∧ fill mark middle = word ∧
        ∀ cell ∈ right.head?, cell.any delimiter = true := by
      cases after with
      | nil => exact ⟨rest, [], by simp, by simpa using back, by simp⟩
      | cons c after =>
          have delimits := whole.right c rfl
          obtain ⟨middle, right, rfl, inner, -⟩ := fill_eq_append_cons (foreign delimits) back
          exact ⟨middle, some c :: right, rfl, inner, by simpa using delimits⟩
    obtain ⟨middle, right, rfl, inner, starts⟩ := closed
    refine ⟨left, middle, right, (List.append_assoc ..).symm, ⟨?_, ?_, ends, starts⟩, ?_⟩
    · rintro rfl
      exact whole.visible inner.symm
    · intro cell member
      cases cell with
      | none => rfl
      | some c => exact whole.plain c (by rw [← inner, mem_fill]; exact .inl member)
    · rw [front, inner]
      exact held
  · rintro ⟨before, word, after, rfl, whole, held⟩
    refine ⟨_, _, fill mark after, by rw [fill_append, fill_append], ⟨?_, ?_, ?_, ?_⟩, held⟩
    · exact fill_ne_nil filled whole.visible
    · intro c member
      rcases mem_fill.mp member with shown | ⟨-, hidden⟩
      · exact whole.plain (some c) shown
      · exact plain c hidden
    · exact fill_last before whole.left
    · exact fill_head after whole.right

/-- A word of a shortened text is what the cut leaves of a word. -/
theorem exists_word_shorten {delimiter : Char → Bool} {room : Option Nat} {text : List Char}
    (holds : List Char → Prop) : (∃ word, (word ≠ [] ∧ word ∈ (shorten room text).splitOnP delimiter) ∧
      holds word) ↔ ∃ before whole after, text = before ++ whole ++ after ∧
        Word delimiter before whole after ∧ shorten (Room.after room (byteLength before)) whole ≠ [] ∧
          holds (shorten (Room.after room (byteLength before)) whole) := by
  simp only [mem_splitOnP_filter]
  constructor
  · rintro ⟨word, ⟨before, after, same, part⟩, held⟩
    have starts : before ++ word <+: shorten room text := ⟨after, same.symm⟩
    obtain ⟨⟨rest, whole⟩, fits⟩ := prefix_shorten.mp starts
    have fitsBefore : Fits room (byteLength before) := by
      intro limit known
      have both := fits limit known
      rw [byteLength_append] at both
      omega
    have tail : shorten (Room.after room (byteLength before)) (word ++ rest) = word ++ after := by
      rw [← whole, List.append_assoc, shorten_append, if_pos fitsBefore, List.append_assoc] at same
      exact List.append_cancel_left same
    -- The word goes on behind the cut up to the next delimiter.
    have split : rest.takeWhile (fun c => !delimiter c) ++ rest.dropWhile (fun c => !delimiter c) = rest :=
      List.takeWhile_append_dropWhile
    have plain : ∀ c ∈ word ++ rest.takeWhile (fun c => !delimiter c), delimiter c = false := by
      intro c member
      rcases List.mem_append.mp member with inside | later
      · exact part.plain c inside
      · simpa using List.mem_takeWhile_imp later
    have cut : shorten (Room.after room (byteLength before))
        (word ++ rest.takeWhile fun c => !delimiter c) = word := by
      have inside := (shorten_starts (Room.after room (byteLength before))
        (word ++ rest.takeWhile fun c => !delimiter c))
      have joined := shorten_append (Room.after room (byteLength before))
        (word ++ rest.takeWhile fun c => !delimiter c) (rest.dropWhile fun c => !delimiter c)
      rw [List.append_assoc, split, tail] at joined
      split at joined
      · rename_i all
        rw [shorten_of_fits all]
        rw [List.append_assoc] at joined
        have more := List.append_cancel_left joined
        cases after with
        | nil =>
            have none := (List.append_eq_nil_iff.mp more.symm).1
            rw [none, List.append_nil]
        | cons c after =>
            have delimits := part.right c rfl
            cases known : rest.takeWhile fun c => !delimiter c with
            | nil => rw [List.append_nil]
            | cons d later =>
                rw [known] at more plain
                have head := (List.cons.inj more).1
                rw [head, plain d (by simp)] at delimits
                cases delimits
      · rw [← joined] at inside ⊢
        cases after with
        | nil => rw [List.append_nil]
        | cons c after =>
            have delimits := part.right c rfl
            rw [plain c (inside.subset (by simp))] at delimits
            cases delimits
    refine ⟨before, word ++ rest.takeWhile (fun c => !delimiter c),
      rest.dropWhile fun c => !delimiter c, ?_, ⟨?_, plain, part.left, ?_⟩, ?_, ?_⟩
    · rw [List.append_assoc, List.append_assoc, split, ← whole, List.append_assoc]
    · exact List.append_ne_nil_of_left_ne_nil part.visible _
    · intro c head
      have stops := List.head?_dropWhile_not (fun c => !delimiter c) rest
      rw [Option.mem_def] at head
      rw [head] at stops
      simpa using stops
    · rw [cut]
      exact part.visible
    · rw [cut]
      exact held
  · rintro ⟨before, whole, after, rfl, part, visible, held⟩
    have fits : Fits room (byteLength before) := by
      intro limit known
      by_contra large
      rw [known] at visible
      have none : limit - byteLength before = 0 := by omega
      refine visible (List.prefix_nil.mp ?_)
      have small := byteLength_truncateUtf8 (limit - byteLength before) whole
      rw [none] at small
      cases shown : truncateUtf8 0 whole with
      | nil =>
          change truncateUtf8 (limit - byteLength before) whole <+: []
          rw [none, shown]
      | cons c rest =>
          rw [shown, byteLength_cons] at small
          have positive := c.utf8Size_pos
          omega
    rw [List.append_assoc, shorten_append, if_pos fits, shorten_append]
    split
    · rename_i all
      rw [shorten_of_fits all] at visible held
      refine ⟨whole, ⟨before, _, (List.append_assoc ..).symm, visible, part.plain, part.left, ?_⟩, held⟩
      intro c head
      obtain ⟨rest, same⟩ := shorten_starts
        (Room.after (Room.after room (byteLength before)) (byteLength whole)) after
      refine part.right c ?_
      rw [← same, List.head?_append, Option.mem_def.mp head]
      rfl
    · refine ⟨_, ⟨before, [], by rw [List.append_nil], visible, ?_, part.left, by simp⟩, held⟩
      exact fun c member => part.plain c ((shorten_starts _ whole).subset member)

end Marked

end Library
