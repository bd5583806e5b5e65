import Mathlib.Data.List.TakeWhile

/-
This file replaces the matches of a finder in a text from left to right, and
says when a replacement changes nothing.
-/

namespace Library

variable {Letter : Type}

/-- A finder sees the letter before a position and the text from there on. It answers how much of
the text the match keeps and how much of it is replaced. -/
abbrev Finder (Letter : Type) := Option Letter → List Letter → Option (Nat × Nat)

/-- A match replaces something, and it lies in the text. -/
def Finder.Sound (find : Finder Letter) : Prop :=
  ∀ previous text kept replaced, find previous text = some (kept, replaced) →
    0 < replaced ∧ kept + replaced ≤ text.length

/-- The kept and the replaced parts of a text, where some letters are skipped first. -/
def pieces (find : Finder Letter) : Option Letter → Nat → List Letter →
    List (List Letter × List Letter)
  | _, _, [] => []
  | _, skip + 1, c :: rest => pieces find (some c) skip rest
  | previous, 0, c :: rest =>
      match find previous (c :: rest) with
      | some (kept, replaced) =>
          ((c :: rest).take kept, ((c :: rest).drop kept).take replaced) ::
            pieces find (some c) (kept + replaced - 1) rest
      | none => ([c], []) :: pieces find (some c) 0 rest

def joinPieces (parts : List (List Letter × List Letter)) : List Letter :=
  parts.flatMap fun part => part.1 ++ part.2

/-- Every replaced part gives way to the mark. -/
def markPieces (mark : List Letter) (parts : List (List Letter × List Letter)) : List Letter :=
  parts.flatMap fun part => part.1 ++ if part.2.isEmpty then [] else mark

def replacedParts (parts : List (List Letter × List Letter)) : List (List Letter) :=
  (parts.map Prod.snd).filter fun part => !part.isEmpty

def replaceAll (find : Finder Letter) (mark text : List Letter) : List Letter :=
  markPieces mark (pieces find none 0 text)

/-- The texts that the finder matches. -/
def foundTexts (find : Finder Letter) (text : List Letter) : List (List Letter) :=
  replacedParts (pieces find none 0 text)

section Pieces

variable {find : Finder Letter} {mark text part : List Letter} {parts : List (List Letter × List Letter)}
  {previous : Option Letter} {skip : Nat}

theorem mem_replacedParts : part ∈ replacedParts parts ↔ part ≠ [] ∧ ∃ kept, (kept, part) ∈ parts := by
  simp [replacedParts, and_comm]

theorem replacedParts_cons (piece : List Letter × List Letter) :
    replacedParts (piece :: parts) =
      (if piece.2.isEmpty then [] else [piece.2]) ++ replacedParts parts := by
  rw [replacedParts, List.map_cons, List.filter_cons]
  cases piece.2 <;> rfl

/-- The pieces make up the text. -/
theorem join_pieces (sound : find.Sound) (previous : Option Letter) (skip : Nat)
    (text : List Letter) : joinPieces (pieces find previous skip text) = text.drop skip := by
  induction text generalizing previous skip with
  | nil => simp [pieces, joinPieces]
  | cons c rest ih =>
      cases skip with
      | succ skip => exact ih (some c) skip
      | zero =>
          rw [pieces]
          split
          · rename_i kept replaced found
            obtain ⟨positive, inside⟩ := sound _ _ _ _ found
            have later := ih (some c) (kept + replaced - 1)
            have same : rest.drop (kept + replaced - 1) = ((c :: rest).drop kept).drop replaced := by
              rw [List.drop_drop]
              obtain ⟨count, whole⟩ : ∃ count, kept + replaced = count + 1 := ⟨kept + replaced - 1, by omega⟩
              rw [whole]
              rfl
            rw [joinPieces, List.flatMap_cons]
            change _ ++ joinPieces _ = _
            rw [later, same, List.append_assoc, List.take_append_drop, List.take_append_drop,
              List.drop_zero]
          · exact congrArg (c :: ·) (ih (some c) 0)

/-- A found text is the replaced part of some match in the text. -/
theorem foundTexts_match (member : part ∈ replacedParts (pieces find previous skip text)) :
    ∃ previous rest kept replaced, rest <:+ text ∧ find previous rest = some (kept, replaced) ∧
      part = (rest.drop kept).take replaced := by
  induction text generalizing previous skip with
  | nil => cases member
  | cons c rest ih =>
      have deeper {previous skip} (inside : part ∈ replacedParts (pieces find previous skip rest)) :
          ∃ previous rest' kept replaced, rest' <:+ c :: rest ∧
            find previous rest' = some (kept, replaced) ∧
              part = (rest'.drop kept).take replaced := by
        obtain ⟨previous, rest', kept, replaced, suffix, found⟩ := ih inside
        exact ⟨previous, rest', kept, replaced, suffix.trans (List.suffix_cons c rest), found⟩
      cases skip with
      | succ skip => exact deeper member
      | zero =>
          rw [pieces] at member
          split at member
          · rename_i kept replaced found
            rw [replacedParts_cons] at member
            rcases List.mem_append.mp member with here | later
            · split at here
              · cases here
              · exact ⟨previous, _, kept, replaced, List.suffix_rfl, found,
                  List.mem_singleton.mp here⟩
            · exact deeper later
          · exact deeper member

/-- When all matches are the mark itself the replacement changes nothing. -/
theorem replaceAll_of_marked (sound : find.Sound) (marked : ∀ part ∈ foundTexts find text, part = mark) :
    replaceAll find mark text = text := by
  refine Eq.trans ?_ (join_pieces sound none 0 text)
  rw [replaceAll, markPieces, joinPieces, List.flatMap_def, List.flatMap_def]
  apply congrArg List.flatten
  apply List.map_congr_left
  rintro ⟨kept, replaced⟩ member
  cases empty : replaced.isEmpty with
  | true => simp [List.isEmpty_iff.mp empty]
  | false =>
      have nonempty : replaced ≠ [] := by
        rintro rfl
        cases empty
      have same := marked replaced (mem_replacedParts.mpr ⟨nonempty, kept, member⟩)
      simp [same]

end Pieces

/-! ### Weights -/

/-- The number of positions at which a text starts with something. -/
def occurrences (starts : List Letter → Bool) : List Letter → Nat
  | [] => 0
  | c :: rest => (if starts (c :: rest) then 1 else 0) + occurrences starts rest

/-- What starts in a text starts in a longer text too, and nothing starts in the mark or across it. -/
structure Separates (starts : List Letter → Bool) (mark : List Letter) : Prop where
  grows : ∀ text more, starts text = true → starts (text ++ more) = true
  before : ∀ text more, text ≠ [] → starts (text ++ (mark ++ more)) = true → starts text = true
  inside : ∀ text more, text ≠ [] → text <:+ mark → starts (text ++ more) = false

section Weights

variable {starts : List Letter → Bool} {mark : List Letter}

/-- Something that occurs in a text starts in it. -/
theorem exists_of_occurrences_pos {text : List Letter} (occurs : 1 ≤ occurrences starts text) :
    ∃ rest, starts rest = true ∧ rest <:+ text := by
  induction text with
  | nil => cases occurs
  | cons c rest ih =>
      by_cases here : starts (c :: rest) = true
      · exact ⟨_, here, List.suffix_rfl⟩
      · rw [occurrences, if_neg here, Nat.zero_add] at occurs
        obtain ⟨inner, begins, within⟩ := ih occurs
        exact ⟨inner, begins, within.trans (List.suffix_cons c rest)⟩

theorem occurrences_append (separates : Separates starts mark) (text more : List Letter) :
    occurrences starts text + occurrences starts more ≤ occurrences starts (text ++ more) := by
  induction text with
  | nil => simp [occurrences]
  | cons c rest ih =>
      rw [List.cons_append, occurrences, occurrences]
      have grows := separates.grows (c :: rest) more
      rw [List.cons_append] at grows
      split
      · rename_i here
        rw [if_pos (grows here)]
        omega
      · omega

theorem occurrences_mark (separates : Separates starts mark) (more : List Letter) :
    occurrences starts (mark ++ more) = occurrences starts more := by
  have inside (text : List Letter) (suffix : text <:+ mark) :
      occurrences starts (text ++ more) = occurrences starts more := by
    induction text with
    | nil => rfl
    | cons c rest ih =>
        have none := separates.inside (c :: rest) more (List.cons_ne_nil _ _) suffix
        rw [List.cons_append] at none
        rw [List.cons_append, occurrences, none, ih ((List.suffix_cons c rest).trans suffix)]
        simp
  exact inside mark (List.suffix_refl mark)

theorem occurrences_separated (separates : Separates starts mark) (text more : List Letter) :
    occurrences starts (text ++ (mark ++ more)) ≤ occurrences starts text + occurrences starts more := by
  induction text with
  | nil => exact (occurrences_mark separates more).le.trans (Nat.le_add_left _ _)
  | cons c rest ih =>
      rw [List.cons_append, occurrences, occurrences]
      have before := separates.before (c :: rest) more (List.cons_ne_nil _ _)
      rw [List.cons_append] at before
      split
      · rename_i here
        rw [if_pos (before here)]
        omega
      · omega

/-- A replacement loses what starts in the replaced parts and creates nothing. -/
theorem occurrences_markPieces (separates : Separates starts mark) {weight : Nat}
    (parts : List (List Letter × List Letter))
    (heavy : ∀ part ∈ replacedParts parts, weight ≤ occurrences starts part) (front : List Letter) :
    occurrences starts (front ++ markPieces mark parts) + weight * (replacedParts parts).length ≤
      occurrences starts (front ++ joinPieces parts) := by
  induction parts generalizing front with
  | nil => simp [markPieces, joinPieces, replacedParts]
  | cons piece rest ih =>
      obtain ⟨kept, replaced⟩ := piece
      rw [replacedParts_cons] at heavy ⊢
      cases empty : replaced.isEmpty with
      | true =>
          rw [empty] at heavy
          have nothing := List.isEmpty_iff.mp empty
          have moved := ih (by simpa using heavy) (front ++ kept)
          simpa [markPieces, joinPieces, empty, nothing] using moved
      | false =>
          have nonempty : replaced ≠ [] := by
            rintro rfl
            cases empty
          simp only [empty, Bool.false_eq_true, if_false, List.singleton_append, List.mem_cons,
            forall_eq_or_imp] at heavy
          have later := ih heavy.2 []
          rw [List.nil_append, List.nil_append] at later
          have split := occurrences_separated separates (front ++ kept) (markPieces mark rest)
          have one := occurrences_append separates (front ++ kept) (replaced ++ joinPieces rest)
          have two := occurrences_append separates replaced (joinPieces rest)
          have marked : front ++ markPieces mark ((kept, replaced) :: rest) =
              front ++ kept ++ (mark ++ markPieces mark rest) := by
            simp [markPieces, nonempty]
          have joined : front ++ joinPieces ((kept, replaced) :: rest) =
              front ++ kept ++ (replaced ++ joinPieces rest) := by
            simp [joinPieces]
          have count : weight * ([replaced] ++ replacedParts rest).length =
              weight + weight * (replacedParts rest).length := by
            rw [List.length_append, List.length_singleton, Nat.mul_add, Nat.mul_one]
          rw [marked, joined, if_neg (by simp), count]
          have := heavy.1
          omega

theorem occurrences_replaceAll (separates : Separates starts mark) {find : Finder Letter}
    (sound : find.Sound) {weight : Nat} (text : List Letter)
    (heavy : ∀ part ∈ foundTexts find text, weight ≤ occurrences starts part) :
    occurrences starts (replaceAll find mark text) + weight * (foundTexts find text).length ≤
      occurrences starts text := by
  have moved := occurrences_markPieces separates (pieces find none 0 text) heavy []
  rwa [List.nil_append, List.nil_append, join_pieces sound, List.drop_zero] at moved

/-- Replacements one after another that lose nothing have found nothing. -/
theorem foldl_replaceAll_occurrences (separates : Separates starts mark) (finders : List (Finder Letter))
    (sound : ∀ find ∈ finders, find.Sound)
    (heavy : ∀ find ∈ finders, ∀ text, ∀ part ∈ foundTexts find text, 1 ≤ occurrences starts part)
    (text : List Letter) :
    let result := finders.foldl (fun text find => replaceAll find mark text) text
    occurrences starts result ≤ occurrences starts text ∧
      (occurrences starts result = occurrences starts text →
        result = text ∧ ∀ find ∈ finders, foundTexts find text = []) := by
  induction finders generalizing text with
  | nil => exact ⟨le_rfl, fun _ => ⟨rfl, by simp⟩⟩
  | cons find rest ih =>
      obtain ⟨soundHere, soundLater⟩ := List.forall_mem_cons.mp sound
      obtain ⟨heavyHere, heavyLater⟩ := List.forall_mem_cons.mp heavy
      have here := occurrences_replaceAll separates soundHere text (heavyHere text)
      obtain ⟨later, kept⟩ := ih soundLater heavyLater (replaceAll find mark text)
      refine ⟨by simp only [List.foldl_cons]; omega, fun same => ?_⟩
      simp only [List.foldl_cons] at same ⊢
      have nothing : foundTexts find text = [] := by
        rw [← List.length_eq_zero_iff]
        omega
      have unchanged : replaceAll find mark text = text :=
        replaceAll_of_marked soundHere (by simp [nothing])
      rw [unchanged] at kept same ⊢
      obtain ⟨whole, found⟩ := kept same
      exact ⟨whole, List.forall_mem_cons.mpr ⟨nothing, found⟩⟩

/-- Without any match the replacements change nothing. -/
theorem foldl_replaceAll_of_none (finders : List (Finder Letter)) (sound : ∀ find ∈ finders, find.Sound)
    {text : List Letter} (nothing : ∀ find ∈ finders, foundTexts find text = []) :
    finders.foldl (fun text find => replaceAll find mark text) text = text := by
  induction finders with
  | nil => rfl
  | cons find rest ih =>
      obtain ⟨soundHere, soundLater⟩ := List.forall_mem_cons.mp sound
      obtain ⟨here, later⟩ := List.forall_mem_cons.mp nothing
      rw [List.foldl_cons, replaceAll_of_marked soundHere (by simp [here])]
      exact ih soundLater later

end Weights

/-! ### Matches that end at a delimiter -/

/-- A match replaces everything up to the next delimiter, and no match starts with one. -/
structure Finder.Delimited (find : Finder Letter) (delimiter : Letter → Bool) : Prop where
  part : ∀ previous text kept replaced, find previous text = some (kept, replaced) →
    ∀ c ∈ (text.drop kept).take replaced, delimiter c = false
  next : ∀ previous text kept replaced, find previous text = some (kept, replaced) →
    ∀ c ∈ (text.drop (kept + replaced)).head?, delimiter c = true
  start : ∀ previous c rest, delimiter c = true → find previous (c :: rest) = none

section Delimited

variable {find : Finder Letter} {delimiter : Letter → Bool} {mark : List Letter}

/-- The first letter after the skipped ones stays when it is a delimiter. -/
theorem pieces_delimiter (mark : List Letter) (delimited : find.Delimited delimiter)
    {text : List Letter} {skip : Nat} (head : ∀ c ∈ (text.drop skip).head?, delimiter c = true)
    (previous : Option Letter) :
    (markPieces mark (pieces find previous skip text)).head? = (text.drop skip).head? := by
  induction text generalizing previous skip with
  | nil => simp [pieces, markPieces]
  | cons c rest ih =>
      cases skip with
      | succ skip => exact ih head (some c)
      | zero =>
          have none := delimited.start previous c rest (head c rfl)
          rw [pieces, none]
          rfl

theorem takeWhile_part {part : List Letter} (rest : List Letter)
    (plain : ∀ c ∈ part, delimiter c = false) (ends : ∀ c ∈ rest.head?, delimiter c = true) :
    (part ++ rest).takeWhile (fun c => !delimiter c) = part := by
  rw [List.takeWhile_append_of_pos fun c member => by simp [plain c member]]
  cases rest with
  | nil => simp
  | cons c rest => simp [ends c rfl]

/-- A replacement that changes nothing has found the mark only. -/
theorem marked_of_unchanged (sound : find.Sound) (delimited : find.Delimited delimiter)
    (plain : ∀ c ∈ mark, delimiter c = false) (previous : Option Letter) (skip : Nat)
    (text : List Letter)
    (same : markPieces mark (pieces find previous skip text) = text.drop skip) :
    ∀ part ∈ replacedParts (pieces find previous skip text), part = mark := by
  induction text generalizing previous skip with
  | nil => simp [pieces, replacedParts]
  | cons c rest ih =>
      cases skip with
      | succ skip => exact ih (some c) skip same
      | zero =>
          rw [pieces] at same ⊢
          split at same
          · rename_i kept replaced found
            obtain ⟨positive, inside⟩ := sound _ _ _ _ found
            have ends := delimited.next _ _ _ _ found
            obtain ⟨count, whole⟩ : ∃ count, kept + replaced = count + 1 :=
              ⟨kept + replaced - 1, by omega⟩
            rw [whole, Nat.add_sub_cancel] at same ⊢
            rw [whole] at ends
            change ∀ c ∈ (rest.drop count).head?, _ at ends
            have later := pieces_delimiter mark delimited ends (some c)
            have part := delimited.part _ _ _ _ found
            have nonempty : ((c :: rest).drop kept).take replaced ≠ [] := by
              rw [← List.length_pos_iff, List.length_take, List.length_drop]
              omega
            have split : (c :: rest).drop 0 = (c :: rest).take kept ++
                (((c :: rest).drop kept).take replaced ++ rest.drop count) := by
              have drop : rest.drop count = ((c :: rest).drop kept).drop replaced := by
                rw [List.drop_drop, whole]
                rfl
              rw [drop, List.take_append_drop, List.take_append_drop, List.drop_zero]
            rw [split, markPieces, List.flatMap_cons, List.append_assoc] at same
            have tails := List.append_cancel_left same
            rw [if_neg (by simpa using nonempty)] at tails
            change mark ++ markPieces mark _ = _ at tails
            -- Both sides go on with the same delimiter.
            have first : mark = ((c :: rest).drop kept).take replaced := by
              have left := takeWhile_part (markPieces mark (pieces find (some c) count rest)) plain
                (by rw [later]; exact ends)
              have right := takeWhile_part _ part ends
              rw [← left, ← right, tails]
            rw [first] at tails
            have unchanged := List.append_cancel_left tails
            rw [← first] at unchanged
            intro other member
            rw [replacedParts_cons] at member
            rcases List.mem_append.mp member with here | after
            · rw [if_neg (by simpa using nonempty), List.mem_singleton] at here
              rw [here, ← first]
            · exact ih (some c) count unchanged other after
          · rename_i none
            intro other member
            exact ih (some c) 0 (List.cons.inj same).2 other member

theorem replaceAll_eq_self_iff (sound : find.Sound) (delimited : find.Delimited delimiter)
    (plain : ∀ c ∈ mark, delimiter c = false) {text : List Letter} :
    replaceAll find mark text = text ↔ ∀ part ∈ foundTexts find text, part = mark :=
  ⟨marked_of_unchanged sound delimited plain none 0 text, replaceAll_of_marked sound⟩

end Delimited

end Library
