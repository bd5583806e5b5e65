import PiTools.Library.Text

/-
This file says which parts the text operations find, and reads decimal numbers.
-/

namespace Library

@[simp] theorem stripPrefix_eq_some {start text rest : List Char} :
    stripPrefix start text = some rest ↔ text = start ++ rest := by
  unfold stripPrefix
  constructor
  · intro found
    split at found
    · rename_i starts
      obtain ⟨rest', rfl⟩ := List.isPrefixOf_iff_prefix.mp starts
      rw [List.drop_left] at found
      rw [Option.some.inj found]
    · cases found
  · rintro rfl
    simp [List.isPrefixOf_iff_prefix]

/-! ### The first occurrence of a separator -/

/-- The parts of a split surround the separator. -/
theorem splitOnce_some {separator text before after : List Char}
    (found : splitOnce separator text = some (before, after)) :
    text = before ++ separator ++ after := by
  induction text generalizing before with
  | nil =>
      unfold splitOnce at found
      split at found
      · cases found
        simp_all
      · cases found
  | cons c rest ih =>
      unfold splitOnce at found
      split at found
      · rename_i starts
        obtain ⟨rest', same⟩ := List.isPrefixOf_iff_prefix.mp starts
        cases found
        rw [← same]
        simp
      · obtain ⟨parts, inner, same⟩ := Option.map_eq_some_iff.mp found
        cases same
        rw [ih inner]
        rfl

/-- A separator is not found where its first character does not occur. -/
theorem splitOnce_of_notMem {c : Char} {separator text : List Char} (absent : c ∉ text) :
    splitOnce (c :: separator) text = none := by
  induction text with
  | nil => simp [splitOnce]
  | cons d rest ih =>
      rw [List.mem_cons, not_or] at absent
      unfold splitOnce
      rw [ih absent.2]
      simp [absent.1]

/-- A split starts at the separator when nothing stands before it. -/
theorem splitOnce_self {c : Char} {separator after : List Char} :
    splitOnce (c :: separator) ((c :: separator) ++ after) = some ([], after) := by
  unfold splitOnce
  simp [List.isPrefixOf_iff_prefix]

/-- A split passes one character at which the separator does not start. -/
theorem splitOnce_cons {c : Char} {separator rest : List Char}
    (other : ¬ separator <+: c :: rest) :
    splitOnce separator (c :: rest) =
      (splitOnce separator rest).map fun parts => (c :: parts.1, parts.2) := by
  rw [splitOnce, if_neg]
  rwa [List.isPrefixOf_iff_prefix]

/-- A split passes a front in which the first character of the separator does not occur. -/
theorem splitOnce_append {c : Char} {separator front rest : List Char} (absent : c ∉ front) :
    splitOnce (c :: separator) (front ++ rest) =
      (splitOnce (c :: separator) rest).map fun parts => (front ++ parts.1, parts.2) := by
  induction front with
  | nil => simp
  | cons d front ih =>
      rw [List.mem_cons, not_or] at absent
      rw [List.cons_append, splitOnce_cons, ih absent.2, Option.map_map]
      · rfl
      · rw [List.cons_prefix_cons]
        exact fun starts => absent.1 starts.1

/-! ### Numbers of the machine -/

/-- The numbers of the type `usize` on a 64-bit machine. -/
def usizeBound : Nat := 0x10000000000000000

/-- A number is read from decimal digits after an optional sign. -/
def parseUsize (text : List Char) : Option Nat :=
  let digits := match text with
    | '+' :: rest => rest
    | _ => text
  if digits = [] ∨ ¬ digits.all Char.isDigit then none
  else if Nat.ofDigitChars 10 digits 0 < usizeBound then some (Nat.ofDigitChars 10 digits 0)
  else none

/-- The texts of a number. -/
def UsizeText (text : List Char) (value : Nat) : Prop :=
  ∃ digits, digits ≠ [] ∧ (∀ c ∈ digits, c.isDigit = true) ∧
    (text = digits ∨ text = '+' :: digits) ∧ Nat.ofDigitChars 10 digits 0 = value ∧
      value < usizeBound

/-- A number is read exactly from its texts. -/
theorem parseUsize_eq_some {text : List Char} {value : Nat} :
    parseUsize text = some value ↔ UsizeText text value := by
  have known : ∀ digits : List Char,
      (if digits = [] ∨ ¬ digits.all Char.isDigit then none
        else if Nat.ofDigitChars 10 digits 0 < usizeBound then some (Nat.ofDigitChars 10 digits 0)
        else none) = some value ↔ digits ≠ [] ∧ (∀ c ∈ digits, c.isDigit = true) ∧
          Nat.ofDigitChars 10 digits 0 = value ∧ value < usizeBound := by
    intro digits
    constructor
    · intro read
      split at read
      · cases read
      · rename_i digital
        rw [not_or, not_not, List.all_eq_true] at digital
        split at read
        · rename_i small
          cases read
          exact ⟨digital.1, digital.2, rfl, small⟩
        · cases read
    · rintro ⟨some_, digital, rfl, small⟩
      rw [if_neg, if_pos small]
      rw [not_or, not_not, List.all_eq_true]
      exact ⟨some_, digital⟩
  unfold parseUsize
  rw [known]
  constructor
  · rintro ⟨some_, digital, same, small⟩
    refine ⟨_, some_, digital, ?_, same, small⟩
    split
    · exact .inr rfl
    · exact .inl rfl
  · rintro ⟨digits, some_, digital, rfl | rfl, same, small⟩
    · split
      · -- A sign is no digit.
        exact absurd (digital '+' (by simp)) (by decide)
      · exact ⟨some_, digital, same, small⟩
    · exact ⟨some_, digital, same, small⟩

/-- The characters of a number are digits and a sign. -/
theorem UsizeText.notMem {text : List Char} {value : Nat} (read : UsizeText text value) {c : Char}
    (noDigit : c.isDigit = false) (noSign : c ≠ '+') : c ∉ text := by
  obtain ⟨digits, _, digital, rfl | rfl, _⟩ := read
  · intro member
    rw [digital c member] at noDigit
    cases noDigit
  · intro member
    rcases List.mem_cons.mp member with same | inside
    · exact noSign same
    · rw [digital c inside] at noDigit
      cases noDigit

/-- A small number is read back from its decimal digits. -/
theorem usizeText_toDigits {value : Nat} (small : value < usizeBound) :
    UsizeText (Nat.toDigits 10 value) value := by
  refine ⟨Nat.toDigits 10 value, ?_, ?_, .inl rfl, ?_, small⟩
  · exact Nat.toDigits_ne_nil
  · exact fun c member => Nat.isDigit_of_mem_toDigits (by decide) (by decide) member
  · exact Nat.ofDigitChars_ten_toDigits

end Library
