import Mathlib.Data.List.Infix
import PiTools.Library.Replace

/-
This file hides the ends of words in a text behind gaps, and says what can be
read in the text where a mark fills the gaps.
-/

namespace Library

variable {Letter : Type}

/-! ### Gaps -/

/-- From the place in a word where something starts the rest of the word is one gap. -/
def gapFrom (starts : List Letter → Bool) (delimiter : Letter → Bool) :
    Bool → List Letter → List (Option Letter)
  | _, [] => []
  | inside, c :: rest =>
      if delimiter c then some c :: gapFrom starts delimiter false rest
      else if inside then gapFrom starts delimiter true rest
      else if starts (c :: rest) then none :: gapFrom starts delimiter true rest
      else some c :: gapFrom starts delimiter false rest

def gaps (starts : List Letter → Bool) (delimiter : Letter → Bool) (text : List Letter) :
    List (Option Letter) := gapFrom starts delimiter false text

def fillCell (mark : List Letter) : Option Letter → List Letter
  | some c => [c]
  | none => mark

def fill (mark : List Letter) (cells : List (Option Letter)) : List Letter :=
  cells.flatMap (fillCell mark)

section Fill

variable {mark : List Letter}

@[simp] theorem fill_nil : fill mark [] = [] := rfl

@[simp] theorem fill_some (c : Letter) (cells : List (Option Letter)) :
    fill mark (some c :: cells) = c :: fill mark cells := rfl

@[simp] theorem fill_none (cells : List (Option Letter)) :
    fill mark (none :: cells) = mark ++ fill mark cells := rfl

@[simp] theorem fill_append (first second : List (Option Letter)) :
    fill mark (first ++ second) = fill mark first ++ fill mark second := List.flatMap_append ..

theorem fill_map_some (text : List Letter) : fill mark (text.map some) = text := by
  induction text with
  | nil => rfl
  | cons c rest ih => rw [List.map_cons, fill_some, ih]

theorem map_fill {Other : Type} (change : Letter → Other) (cells : List (Option Letter)) :
    (fill mark cells).map change = fill (mark.map change) (cells.map (Option.map change)) := by
  induction cells with
  | nil => rfl
  | cons cell rest ih => cases cell <;> simp [ih]

/-- A letter that the mark lacks stands in a cell of its own. -/
theorem fill_eq_append_cons {c : Letter} (foreign : c ∉ mark) {cells : List (Option Letter)}
    {before after : List Letter} (same : fill mark cells = before ++ c :: after) :
    ∃ left right, cells = left ++ some c :: right ∧ fill mark left = before ∧
      fill mark right = after := by
  induction cells generalizing before with
  | nil =>
      rw [fill_nil] at same
      exact absurd same.symm (by simp)
  | cons cell rest ih =>
      cases cell with
      | some d =>
          rw [fill_some] at same
          cases before with
          | nil =>
              obtain ⟨rfl, tail⟩ := List.cons.inj same
              exact ⟨[], rest, rfl, rfl, tail⟩
          | cons e before =>
              obtain ⟨rfl, tail⟩ := List.cons.inj same
              obtain ⟨left, right, rfl, front, back⟩ := ih tail
              exact ⟨some d :: left, right, rfl, by rw [fill_some, front], back⟩
      | none =>
          rw [fill_none] at same
          rcases List.append_eq_append_iff.mp same with ⟨gap, inside, tail⟩ | ⟨gap, inside, tail⟩
          · obtain ⟨left, right, rfl, front, back⟩ := ih tail
            exact ⟨none :: left, right, rfl, by rw [fill_none, front, inside], back⟩
          · cases gap with
            | nil =>
                obtain ⟨left, right, rfl, front, back⟩ := @ih [] tail.symm
                rw [List.append_nil] at inside
                exact ⟨none :: left, right, rfl, by rw [fill_none, front, List.append_nil, inside], back⟩
            | cons d gap =>
                obtain ⟨rfl, -⟩ := List.cons.inj tail
                exact absurd (by rw [inside]; simp) foreign

end Fill

/-! ### Texts that do not touch a mark -/

/-- No occurrence of the text can overlap the mark. -/
structure Foreign (mark text : List Letter) : Prop where
  visible : text ≠ []
  first : ∀ c ∈ mark.head?, c ∉ text
  last : ∀ c ∈ mark.getLast?, c ∉ text
  outside : ¬ text <:+: mark

section Foreign

variable {mark text : List Letter} {cells : List (Option Letter)}

/-- A text that lacks the first letter of the mark is read from letters only. -/
theorem fill_eq_append {after : List Letter} (filled : mark ≠ [])
    (first : ∀ c ∈ mark.head?, c ∉ text) (same : fill mark cells = text ++ after) :
    ∃ rest, cells = text.map some ++ rest ∧ fill mark rest = after := by
  induction text generalizing cells with
  | nil => exact ⟨cells, rfl, same⟩
  | cons c text ih =>
      cases cells with
      | nil => cases same
      | cons cell rest =>
          cases cell with
          | some d =>
              obtain ⟨rfl, tail⟩ := List.cons.inj same
              have later : ∀ c ∈ mark.head?, c ∉ text := fun c head member =>
                first c head (List.mem_cons_of_mem _ member)
              obtain ⟨rest', rfl, back⟩ := ih later tail
              exact ⟨rest', rfl, back⟩
          | none =>
              obtain ⟨d, mark', rfl⟩ := List.exists_cons_of_ne_nil filled
              obtain ⟨rfl, -⟩ := List.cons.inj same
              exact absurd (List.mem_cons_self ..) (first d rfl)

/-- Every occurrence stands on letters only. -/
theorem Foreign.fill_eq (foreign : Foreign mark text) (filled : mark ≠ [])
    {before after : List Letter} (same : fill mark cells = before ++ (text ++ after)) :
    ∃ left right, cells = left ++ (text.map some ++ right) ∧ fill mark left = before ∧
      fill mark right = after := by
  induction cells generalizing before with
  | nil =>
      have empty : before ++ (text ++ after) = [] := same.symm
      simp only [List.append_eq_nil_iff] at empty
      exact absurd empty.2.1 foreign.visible
  | cons cell rest ih =>
      cases before with
      | nil =>
          obtain ⟨right, shown, back⟩ := fill_eq_append filled foreign.first same
          exact ⟨[], right, shown, rfl, back⟩
      | cons c before =>
          cases cell with
          | some d =>
              obtain ⟨rfl, tail⟩ := List.cons.inj same
              obtain ⟨left, right, rfl, front, back⟩ := ih tail
              exact ⟨some d :: left, right, rfl, by rw [fill_some, front], back⟩
          | none =>
              rw [fill_none] at same
              rcases List.append_eq_append_iff.mp same with ⟨gap, inside, tail⟩ | ⟨gap, inside, tail⟩
              · obtain ⟨left, right, rfl, front, back⟩ := ih tail
                exact ⟨none :: left, right, rfl, by rw [fill_none, front, inside], back⟩
              · by_cases ends : gap = []
                · rw [ends, List.append_nil] at inside
                  rw [ends, List.nil_append] at tail
                  obtain ⟨left, right, rfl, front, back⟩ := @ih [] tail.symm
                  exact ⟨none :: left, right, rfl,
                    by rw [fill_none, front, List.append_nil, inside], back⟩
                · -- The occurrence starts inside of the mark.
                  rcases List.append_eq_append_iff.mp tail with ⟨more, whole, -⟩ | ⟨more, whole, -⟩
                  · refine absurd ?_ foreign.outside
                    rw [inside, whole]
                    exact ⟨c :: before, more, by simp⟩
                  · have close : gap.getLast ends ∈ mark.getLast? := by
                      rw [inside, List.getLast?_append, List.getLast?_eq_some_getLast ends]
                      rfl
                    refine absurd ?_ (foreign.last _ close)
                    rw [whole]
                    exact List.mem_append_left _ (List.getLast_mem ends)

end Foreign

/-! ### Tails of words -/

/-- A marker with the rest of its word. -/
def tailFinder [BEq Letter] (delimiter : Letter → Bool) (marker : List Letter) : Finder Letter :=
  fun _ text =>
    if marker.isPrefixOf text then some (0, (text.takeWhile fun c => !delimiter c).length) else none

section Tails

variable [DecidableEq Letter] {delimiter : Letter → Bool} {marker mark : List Letter}
  {starts : List Letter → Bool}

/-- The marker is not empty, and no delimiter occurs in it. -/
def InWord (delimiter : Letter → Bool) (marker : List Letter) : Prop :=
  marker ≠ [] ∧ ∀ c ∈ marker, delimiter c = false

theorem InWord.other (inWord : InWord delimiter marker) {c : Letter} (delimits : delimiter c = true)
    (rest : List Letter) : marker.isPrefixOf (c :: rest) = false := by
  obtain ⟨d, marker', rfl⟩ := List.exists_cons_of_ne_nil inWord.1
  have plain := inWord.2 d (List.mem_cons_self ..)
  have other : d ≠ c := by
    rintro rfl
    rw [plain] at delimits
    cases delimits
  simp [List.isPrefixOf, other]

theorem markPieces_gapFrom (inWord : InWord delimiter marker) (previous : Option Letter)
    (text : List Letter) :
    markPieces mark (pieces (tailFinder delimiter marker) previous 0 text) =
        fill mark (gapFrom marker.isPrefixOf delimiter false text) ∧
      markPieces mark (pieces (tailFinder delimiter marker) previous
          (text.takeWhile fun c => !delimiter c).length text) =
        fill mark (gapFrom marker.isPrefixOf delimiter true text) := by
  induction text generalizing previous with
  | nil => exact ⟨rfl, rfl⟩
  | cons c rest ih =>
      obtain ⟨outside, inside⟩ := ih (some c)
      cases delimits : delimiter c with
      | true =>
          have other := inWord.other delimits rest
          have here : markPieces mark (pieces (tailFinder delimiter marker) previous 0 (c :: rest)) =
              c :: fill mark (gapFrom marker.isPrefixOf delimiter false rest) := by
            simp only [pieces, tailFinder, other, Bool.false_eq_true, if_false]
            exact congrArg (c :: ·) outside
          simp only [gapFrom, delimits, if_true, fill_some, List.takeWhile_cons, Bool.not_true,
            Bool.false_eq_true, if_false, List.length_nil]
          exact ⟨here, here⟩
      | false =>
          simp only [gapFrom, delimits, Bool.false_eq_true, if_false, if_true, List.takeWhile_cons,
            Bool.not_false, List.length_cons]
          refine ⟨?_, inside⟩
          cases found : marker.isPrefixOf (c :: rest) with
          | true =>
              simp only [pieces, tailFinder, found, if_true, List.takeWhile_cons, delimits,
                Bool.not_false, List.length_cons, Nat.zero_add, Nat.add_sub_cancel, fill_none]
              exact congrArg (mark ++ ·) inside
          | false =>
              simp only [pieces, tailFinder, found, Bool.false_eq_true, if_false, fill_some]
              exact congrArg (c :: ·) outside

/-- A replacement of the tails fills the gaps that the marker leaves. -/
theorem replaceAll_tailFinder (inWord : InWord delimiter marker) (text : List Letter) :
    replaceAll (tailFinder delimiter marker) mark text =
      fill mark (gaps marker.isPrefixOf delimiter text) :=
  (markPieces_gapFrom inWord none text).1

/-- The texts agree as far as both of them go. -/
def Agree (first second : List Letter) : Prop := first <+: second ∨ second <+: first

instance (first second : List Letter) : Decidable (Agree first second) :=
  inferInstanceAs (Decidable (_ ∨ _))

omit [DecidableEq Letter] in
theorem agree_of_leading {first second rest : List Letter} (starts : first <+: second ++ rest) :
    Agree first second := List.prefix_or_prefix_of_prefix starts (List.prefix_append second rest)

/-- The marker cannot start inside of the mark, and it lacks the first letter of the mark. -/
structure Clear (mark marker : List Letter) : Prop where
  inside : ∀ ending ∈ mark.tails, ending ≠ [] → ¬ Agree marker ending
  first : ∀ c ∈ mark.head?, c ∉ marker

/-- One marker cannot start inside of the other one. -/
def StartsOutside (marker other : List Letter) : Prop :=
  ∀ ending ∈ other.tails, ending ≠ [] → ending ≠ other → ¬ Agree marker ending

instance (marker other : List Letter) : Decidable (StartsOutside marker other) :=
  inferInstanceAs (Decidable (∀ ending ∈ other.tails, _))

/-- Nothing starts inside of the marker. -/
def Undisturbed (starts : List Letter → Bool) (marker : List Letter) : Prop :=
  ∀ first second rest, marker = first ++ second → first ≠ [] → second ≠ [] →
    starts (second ++ rest) = false

/-- A marker that starts in the filled text starts in the text. -/
theorem prefix_fill (inWord : InWord delimiter marker) (filled : mark ≠ []) (clear : Clear mark marker)
    (undisturbed : Undisturbed starts marker) (c : Letter) (rest : List Letter) :
    marker <+: c :: fill mark (gapFrom starts delimiter false rest) ↔ marker <+: c :: rest := by
  -- The part of the marker that is already read comes first.
  have part : ∀ second first rest, marker = first ++ second → first ≠ [] →
      (second <+: fill mark (gapFrom starts delimiter false rest) ↔ second <+: rest) := by
    intro second
    induction second with
    | nil => simp
    | cons d second ih =>
        intro first rest same nonempty
        have plain : delimiter d = false := inWord.2 d (by rw [same]; simp)
        cases rest with
        | nil => simp [gapFrom]
        | cons e rest =>
            by_cases equal : d = e
            · subst equal
              rw [gapFrom, plain]
              simp only [Bool.false_eq_true, if_false]
              have next := ih (first ++ [d]) rest (by rw [same]; simp) (by simp)
              split
              · rename_i found
                constructor
                · intro starts'
                  obtain ⟨after, known⟩ := starts'
                  obtain ⟨m, mark', rfl⟩ := List.exists_cons_of_ne_nil filled
                  have head := (List.cons.inj known).1
                  exact absurd (by rw [same, head]; simp) (clear.first m rfl)
                · intro starts'
                  obtain ⟨after, known⟩ := starts'
                  rw [← known, undisturbed first (d :: second) after same nonempty (by simp)] at found
                  cases found
              · rw [fill_some, List.cons_prefix_cons, List.cons_prefix_cons, next]
            · have other : ¬ d :: second <+: e :: rest := by
                rw [List.cons_prefix_cons]
                exact fun both => equal both.1
              refine iff_of_false ?_ other
              rintro ⟨after, known⟩
              rw [gapFrom] at known
              split at known
              · exact equal (List.cons.inj known).1
              · simp only [Bool.false_eq_true, if_false] at known
                split at known
                · obtain ⟨m, mark', rfl⟩ := List.exists_cons_of_ne_nil filled
                  have head := (List.cons.inj known).1
                  exact absurd (by rw [same, head]; simp) (clear.first m rfl)
                · exact equal (List.cons.inj known).1
  obtain ⟨d, second, rfl⟩ := List.exists_cons_of_ne_nil inWord.1
  rw [List.cons_prefix_cons, List.cons_prefix_cons, part second [d] rest rfl (by simp)]

/-- A mark passes through the gaps of a marker that is clear of it. -/
theorem gapFrom_mark (clear : Clear mark marker) (plain : ∀ c ∈ mark, delimiter c = false)
    (text : List Letter) : gapFrom marker.isPrefixOf delimiter false (mark ++ text) =
      mark.map some ++ gapFrom marker.isPrefixOf delimiter false text := by
  have part : ∀ ending ∈ mark.tails, gapFrom marker.isPrefixOf delimiter false (ending ++ text) =
      ending.map some ++ gapFrom marker.isPrefixOf delimiter false text := by
    intro ending
    induction ending with
    | nil => simp
    | cons c ending ih =>
        intro tail
        have suffix : c :: ending <:+ mark := (List.mem_tails _ _).mp tail
        have next := ih ((List.mem_tails _ _).mpr ((List.suffix_cons c ending).trans suffix))
        have absent : marker.isPrefixOf (c :: (ending ++ text)) = false := by
          have clear' := clear.inside (c :: ending) tail (by simp)
          rw [← Bool.not_eq_true, List.isPrefixOf_iff_prefix]
          exact fun starts' => clear' (agree_of_leading starts')
        rw [List.cons_append, gapFrom, plain c (suffix.subset (List.mem_cons_self ..)), absent, next]
        rfl
  exact part mark (by simp)

/-- The gaps of one more marker fall together with the gaps that are filled already. -/
theorem gapFrom_fill (inWord : InWord delimiter marker) (filled : mark ≠ [])
    (plain : ∀ c ∈ mark, delimiter c = false) (clear : Clear mark marker)
    (undisturbed : Undisturbed starts marker) (text : List Letter) :
    let both := fun rest => starts rest || marker.isPrefixOf rest
    (fill mark (gapFrom marker.isPrefixOf delimiter false
        (fill mark (gapFrom starts delimiter false text))) =
      fill mark (gapFrom both delimiter false text)) ∧
    (fill mark (gapFrom marker.isPrefixOf delimiter false
        (fill mark (gapFrom starts delimiter true text))) =
      fill mark (gapFrom both delimiter true text)) ∧
    ∀ inside, fill mark (gapFrom marker.isPrefixOf delimiter true
        (fill mark (gapFrom starts delimiter inside text))) =
      fill mark (gapFrom both delimiter true text) := by
  intro both
  have pass : ∀ rest : List Letter, gapFrom marker.isPrefixOf delimiter true (mark ++ rest) =
      gapFrom marker.isPrefixOf delimiter true rest := by
    intro rest
    clear clear filled
    induction mark with
    | nil => rfl
    | cons c mark ih =>
        rw [List.cons_append, gapFrom, plain c (List.mem_cons_self ..)]
        exact ih fun d member => plain d (List.mem_cons_of_mem _ member)
  induction text with
  | nil => exact ⟨rfl, rfl, fun _ => rfl⟩
  | cons c rest ih =>
      obtain ⟨shown, hidden, within⟩ := ih
      cases delimits : delimiter c with
      | true =>
          simp only [gapFrom, delimits, if_true, fill_some, shown, implies_true, and_self]
      | false =>
          refine ⟨?_, ?_, ?_⟩
          · simp only [gapFrom, delimits, Bool.false_eq_true, if_false]
            cases found : starts (c :: rest) with
            | true =>
                have here : both (c :: rest) = true := by simp [both, found]
                simp only [here, if_true, fill_none, gapFrom_mark clear plain, fill_append,
                  fill_map_some, hidden]
            | false =>
                have same : marker.isPrefixOf (c :: fill mark (gapFrom starts delimiter false rest)) =
                    both (c :: rest) := by
                  have starts' := prefix_fill inWord filled clear undisturbed c rest
                  rw [← List.isPrefixOf_iff_prefix, ← List.isPrefixOf_iff_prefix] at starts'
                  rw [Bool.eq_iff_iff, starts']
                  simp [both, found]
                simp only [Bool.false_eq_true, if_false, fill_some, gapFrom, delimits, same]
                split
                · rw [fill_none, fill_none, within]
                · rw [fill_some, fill_some, shown]
          · simp only [gapFrom, delimits, Bool.false_eq_true, if_false, if_true]
            exact hidden
          · intro inside
            have target : gapFrom both delimiter true (c :: rest) = gapFrom both delimiter true rest := by
              simp only [gapFrom, delimits, Bool.false_eq_true, if_false, if_true]
            rw [target]
            simp only [gapFrom, delimits, Bool.false_eq_true, if_false]
            split
            · exact within true
            · split
              · rw [fill_none, pass, within]
              · simp only [fill_some, gapFrom, delimits, Bool.false_eq_true, if_false, if_true]
                exact within false

end Tails

/-! ### Many markers -/

/-- No two markers overlap each other or the mark. -/
structure Markers [DecidableEq Letter] (delimiter : Letter → Bool) (mark : List Letter)
    (markers : List (List Letter)) : Prop where
  inWord : ∀ marker ∈ markers, InWord delimiter marker
  clear : ∀ marker ∈ markers, Clear mark marker
  apart : markers.Pairwise StartsOutside

def startsAny [BEq Letter] (markers : List (List Letter)) (text : List Letter) : Bool :=
  markers.any fun marker => marker.isPrefixOf text

section Markers

variable [DecidableEq Letter] {delimiter : Letter → Bool} {mark : List Letter}

/-- The tails behind several markers are replaced as one. -/
theorem foldl_replaceAll_tailFinder (filled : mark ≠ []) (plain : ∀ c ∈ mark, delimiter c = false)
    (text : List Letter) (markers done : List (List Letter))
    (suited : Markers delimiter mark (done ++ markers)) :
    markers.foldl (fun text marker => replaceAll (tailFinder delimiter marker) mark text)
        (fill mark (gaps (startsAny done) delimiter text)) =
      fill mark (gaps (startsAny (done ++ markers)) delimiter text) := by
  induction markers generalizing done with
  | nil => rw [List.foldl_nil, List.append_nil]
  | cons marker markers ih =>
      have member : marker ∈ done ++ marker :: markers := by simp
      have undisturbed : Undisturbed (startsAny done) marker := by
        intro first second rest same before after
        rw [startsAny, List.any_eq_false]
        intro earlier old starts'
        have outside := (List.pairwise_append.mp suited.apart).2.2 earlier old marker
          (List.mem_cons_self ..)
        refine outside second ?_ after ?_ (agree_of_leading (List.isPrefixOf_iff_prefix.mp starts'))
        · exact (List.mem_tails _ _).mpr ⟨first, same.symm⟩
        · intro whole
          rw [whole] at same
          exact before (List.self_eq_append_left.mp same)
      have joined : (fun rest => startsAny done rest || marker.isPrefixOf rest) =
          startsAny (done ++ [marker]) := by
        funext rest
        simp [startsAny]
      have step := (gapFrom_fill (suited.inWord marker member) filled plain
        (suited.clear marker member) undisturbed text).1
      rw [List.foldl_cons, replaceAll_tailFinder (suited.inWord marker member), gaps, gaps, step,
        joined]
      have next := ih (done ++ [marker]) (by simpa using suited)
      rw [List.append_assoc, List.singleton_append] at next
      exact next

theorem gaps_nothing (text : List Letter) :
    fill mark (gaps (startsAny []) delimiter text) = text := by
  induction text with
  | nil => rfl
  | cons c rest ih =>
      rw [gaps] at ih ⊢
      simp only [gapFrom, startsAny, List.any_nil, Bool.false_eq_true, if_false, ite_self, fill_some]
      exact congrArg (c :: ·) ih

end Markers

/-! ### The first gap -/

section First

variable {starts : List Letter → Bool} {delimiter : Letter → Bool}

/-- Inside of a gap nothing is kept up to the next delimiter. -/
theorem gapFrom_inside (text : List Letter) : gapFrom starts delimiter true text =
    gaps starts delimiter (text.dropWhile fun c => !delimiter c) := by
  induction text with
  | nil => rfl
  | cons c rest ih =>
      cases delimits : delimiter c with
      | true => simp [gapFrom, gaps, delimits]
      | false => simp only [gapFrom, delimits, List.dropWhile_cons, Bool.false_eq_true, if_false,
          Bool.not_false, if_true, ih]

/-- Letters in front of the first start are kept. -/
theorem gaps_append (before : List Letter) {rest : List Letter}
    (first : ∀ front back, before = front ++ back → back ≠ [] → starts (back ++ rest) = false) :
    gaps starts delimiter (before ++ rest) = before.map some ++ gaps starts delimiter rest := by
  induction before with
  | nil => rfl
  | cons c before ih =>
      have here := first [] (c :: before) rfl (List.cons_ne_nil _ _)
      rw [List.cons_append] at here
      have later := ih fun front back same => first (c :: front) back (by rw [same]; rfl)
      rw [gaps] at later
      rw [List.cons_append, gaps, gapFrom, here, later]
      simp

/-- A start opens a gap up to the next delimiter. -/
theorem gaps_start {c : Letter} {rest : List Letter} (begins : starts (c :: rest) = true)
    (plain : delimiter c = false) : gaps starts delimiter (c :: rest) =
      none :: gaps starts delimiter ((c :: rest).dropWhile fun c => !delimiter c) := by
  rw [gaps, gapFrom, begins, plain, gapFrom_inside]
  simp [plain]

/-- A letter of a word that is kept in front starts no gap. -/
theorem gaps_kept {c : Letter} {cells : List (Option Letter)} {text : List Letter}
    (plain : delimiter c = false) (kept : some c :: cells <+: gaps starts delimiter text) :
    ∃ rest, text = c :: rest ∧ starts text = false ∧ cells <+: gaps starts delimiter rest := by
  cases text with
  | nil => exact absurd (List.prefix_nil.mp kept) (by simp)
  | cons d rest =>
      rw [gaps, gapFrom] at kept
      split at kept
      · rename_i delimits
        rw [← Option.some.inj (List.cons_prefix_cons.mp kept).1, plain] at delimits
        cases delimits
      · split at kept
        · rename_i inside
          cases inside
        · split at kept
          · cases (List.cons_prefix_cons.mp kept).1
          · rename_i quiet
            obtain ⟨same, later⟩ := List.cons_prefix_cons.mp kept
            rw [Option.some.inj same]
            exact ⟨rest, rfl, Bool.eq_false_iff.mpr quiet, later⟩

/-- What is kept in front stands in front of the text, with its delimiters. -/
theorem prefix_gaps {word text : List Letter} (kept : word.map some <+: gaps starts delimiter text) :
    word <+: text := by
  induction word generalizing text with
  | nil => exact List.nil_prefix
  | cons c word ih =>
      cases text with
      | nil => exact absurd (List.prefix_nil.mp kept) (by simp)
      | cons d rest =>
          have next : some c = some d ∧ word.map some <+: gaps starts delimiter rest := by
            rw [gaps, gapFrom] at kept
            split at kept
            · exact List.cons_prefix_cons.mp kept
            · rw [if_neg Bool.false_ne_true] at kept
              split at kept
              · cases (List.cons_prefix_cons.mp kept).1
              · exact List.cons_prefix_cons.mp kept
          rw [Option.some.inj next.1]
          exact List.cons_prefix_cons.mpr ⟨rfl, ih next.2⟩

/-- No word that starts a gap is kept. -/
theorem not_infix_gaps {word text : List Letter} (visible : word ≠ [])
    (plain : ∀ c ∈ word, delimiter c = false)
    (begins : ∀ rest, word <+: rest → starts rest = true) :
    ¬ word.map some <:+: gaps starts delimiter text := by
  obtain ⟨c, word, rfl⟩ := List.exists_cons_of_ne_nil visible
  obtain ⟨length, bound⟩ : ∃ length, text.length = length := ⟨_, rfl⟩
  induction length using Nat.strong_induction_on generalizing text with
  | _ length ih =>
      intro occurs
      cases text with
      | nil => exact absurd (List.infix_nil.mp occurs) (by simp)
      | cons d rest =>
          by_cases kept : (c :: word).map some <+: gaps starts delimiter (d :: rest)
          · obtain ⟨-, -, quiet, -⟩ := gaps_kept (plain c (.head _)) kept
            rw [begins _ (prefix_gaps kept)] at quiet
            cases quiet
          · have shorter : (rest.dropWhile fun c => !delimiter c).length ≤ rest.length :=
              (List.dropWhile_sublist _).length_le
            rw [List.length_cons] at bound
            rw [gaps, gapFrom] at occurs kept
            split at occurs
            · rename_i delimits
              rw [if_pos delimits] at kept
              exact ih rest.length (by omega) rfl ((List.infix_cons_iff.mp occurs).resolve_left kept)
            · rename_i inWord
              rw [if_neg inWord] at kept
              split at occurs
              · rename_i inside
                cases inside
              · rename_i outside
                rw [if_neg outside] at kept
                split at occurs
                · rename_i starts'
                  rw [if_pos starts'] at kept
                  have later := (List.infix_cons_iff.mp occurs).resolve_left kept
                  rw [gapFrom_inside] at later
                  exact ih _ (by omega) rfl later
                · rename_i quiet
                  rw [if_neg quiet] at kept
                  exact ih rest.length (by omega) rfl
                    ((List.infix_cons_iff.mp occurs).resolve_left kept)

/-- What is kept together stands together in the text. -/
theorem infix_of_gaps {word text : List Letter} (kept : word.map some <:+: gaps starts delimiter text) :
    word <:+: text := by
  obtain ⟨length, bound⟩ : ∃ length, text.length = length := ⟨_, rfl⟩
  induction length using Nat.strong_induction_on generalizing text with
  | _ length ih =>
      cases text with
      | nil => exact (List.map_eq_nil_iff.mp (List.infix_nil.mp kept)) ▸ List.nil_infix
      | cons d rest =>
          rw [List.length_cons] at bound
          by_cases here : word.map some <+: gaps starts delimiter (d :: rest)
          · exact (prefix_gaps here).isInfix
          · have behind : rest <:+ d :: rest := List.suffix_cons d rest
            have skipped : (rest.dropWhile fun c => !delimiter c) <:+ rest := List.dropWhile_suffix _
            rw [gaps, gapFrom] at kept here
            split at kept
            · rename_i delimits
              rw [if_pos delimits] at here
              exact (ih rest.length (by omega) ((List.infix_cons_iff.mp kept).resolve_left here) rfl).trans behind.isInfix
            · rename_i inWord
              rw [if_neg inWord] at here
              rw [if_neg Bool.false_ne_true] at kept here
              split at kept
              · rename_i begins
                rw [if_pos begins] at here
                have later := (List.infix_cons_iff.mp kept).resolve_left here
                rw [gapFrom_inside] at later
                have shorter := skipped.length_le
                exact (ih _ (by omega) later rfl).trans (skipped.trans behind).isInfix
              · rename_i quiet
                rw [if_neg quiet] at here
                exact (ih rest.length (by omega) ((List.infix_cons_iff.mp kept).resolve_left here) rfl).trans
                  behind.isInfix

/-- Changed letters that are all kept. -/
theorem cells_of_map {Other : Type} {change : Letter → Other} {word : List Other} {cells : List (Option Letter)}
    (same : word.map some = cells.map (Option.map change)) : ∃ part : List Letter, cells = part.map some ∧ word = part.map change := by
  induction word generalizing cells with
  | nil => exact ⟨[], List.map_eq_nil_iff.mp same.symm, rfl⟩
  | cons c word ih =>
      obtain ⟨cell, rest, rfl, first, others⟩ := List.map_eq_cons_iff.mp same.symm
      obtain ⟨d, rfl, changed⟩ := Option.map_eq_some_iff.mp first
      obtain ⟨part, rfl, rfl⟩ := ih others.symm
      exact ⟨d :: part, rfl, by rw [List.map_cons, changed]⟩

/-- Without a gap the whole text is kept. -/
theorem gaps_whole {text : List Letter} (kept : none ∉ gaps starts delimiter text) :
    gaps starts delimiter text = text.map some := by
  induction text with
  | nil => rfl
  | cons c rest ih =>
      rw [gaps, gapFrom] at kept ⊢
      split at kept
      · rename_i delimits
        rw [if_pos delimits, List.map_cons]
        exact congrArg (some c :: ·) (ih (List.not_mem_of_not_mem_cons kept))
      · rename_i inWord
        split at kept
        · rename_i inside
          cases inside
        · rename_i outside
          split at kept
          · exact absurd (List.mem_cons_self ..) kept
          · rename_i quiet
            rw [if_neg inWord, if_neg outside, if_neg quiet, List.map_cons]
            exact congrArg (some c :: ·) (ih (List.not_mem_of_not_mem_cons kept))

theorem gaps_eq_nil {text : List Letter} : gaps starts delimiter text = [] ↔ text = [] := by
  cases text with
  | nil => simp [gaps, gapFrom]
  | cons c rest =>
      rw [gaps, gapFrom]
      split
      · simp
      · split
        · rename_i inside
          cases inside
        · split
          · simp
          · simp

/-- One gap is left of a word that starts with something hidden. -/
theorem gaps_eq_gap {text : List Letter} : gaps starts delimiter text = [none] ↔
    text ≠ [] ∧ starts text = true ∧ ∀ c ∈ text, delimiter c = false := by
  cases text with
  | nil => simp [gaps, gapFrom]
  | cons c rest =>
      constructor
      · intro single
        rw [gaps, gapFrom] at single
        split at single
        · cases single
        · rename_i inWord
          split at single
          · rename_i inside
            cases inside
          · split at single
            · rename_i begins
              have nothing := (List.cons.inj single).2
              rw [gapFrom_inside, gaps_eq_nil, List.dropWhile_eq_nil_iff] at nothing
              refine ⟨List.cons_ne_nil c rest, begins, List.forall_mem_cons.mpr ⟨?_, fun d member => ?_⟩⟩
              · exact Bool.eq_false_iff.mpr inWord
              · simpa using nothing d member
            · cases single
      · rintro ⟨-, begins, plain⟩
        have nothing : (c :: rest).dropWhile (fun c => !delimiter c) = [] := by
          rw [List.dropWhile_eq_nil_iff]
          intro d member
          rw [plain d member]
          rfl
        rw [gaps_start begins (plain c (.head _)), nothing]
        rfl

end First

end Library
