import PiTools.Library.JsonText
import PiTools.Library.Occurrences

/-
This file says what can be found in the compact text of a JSON value.
-/

namespace Library

/-! ### Infixes -/

/-- A needle without a character stands before the character or behind it. -/
theorem infix_append_cons_iff {needle front back : List Char} {c : Char} (absent : c ∉ needle) :
    needle <:+: front ++ c :: back ↔ needle <:+: front ∨ needle <:+: back := by
  constructor
  · exact infix_append_cons absent
  · rintro (before | behind)
    · exact List.infix_append_of_infix_left before
    · exact List.infix_append_of_infix_right (List.infix_cons behind)

/-- A needle is found in a changed text where something that changes to it was. -/
theorem infix_map_iff {change : Char → Char} {text needle : List Char} :
    needle <:+: text.map change ↔ ∃ part, part.map change = needle ∧ part <:+: text := by
  constructor
  · rintro ⟨before, after, same⟩
    obtain ⟨front, right, rfl, front_, rfl⟩ := List.map_eq_append_iff.mp same.symm
    obtain ⟨left, part, rfl, rfl, rfl⟩ := List.map_eq_append_iff.mp front_
    exact ⟨part, rfl, left, right, rfl⟩
  · rintro ⟨part, rfl, found⟩
    exact found.map change

/-! ### Strings and keys -/

mutual
/-- The strings and the keys of a value. -/
def Json.texts : Json → List (List Char)
  | .null | .bool _ | .number _ => []
  | .string value => [value.toList]
  | .array items => itemsTexts items
  | .object fields => fieldsTexts fields

def itemsTexts : List Json → List (List Char)
  | [] => []
  | item :: rest => item.texts ++ itemsTexts rest

def fieldsTexts : List (String × Json) → List (List Char)
  | [] => []
  | (key, value) :: rest => key.toList :: (value.texts ++ fieldsTexts rest)
end

/-- What a string text copies or escapes, without its quotation marks. -/
def escapedText (text : List Char) : List Char := text.flatMap escapeChar

@[simp] theorem escapedText_cons (c : Char) (rest : List Char) :
    escapedText (c :: rest) = escapeChar c ++ escapedText rest := List.flatMap_cons

@[simp] theorem escapedText_append (first second : List Char) :
    escapedText (first ++ second) = escapedText first ++ escapedText second :=
  List.flatMap_append

theorem escapeText_eq (text : List Char) : escapeText text = escapedText text ++ ['\x22'] := by
  induction text with
  | nil => rfl
  | cons c rest ih =>
      rw [escapeText, ih, escapedText_cons, List.append_assoc]

/-- The characters that a compact text has outside of its strings and keys. -/
def symbols : List Char := "[]\x7b\x7d,:\x22nulltruefalse0123456789.-".toList

/-- The needle can stand in a string only. -/
structure Textual (needle : List Char) : Prop where
  quote : '\x22' ∉ needle
  openList : '[' ∉ needle
  closeList : ']' ∉ needle
  openObject : '\x7b' ∉ needle
  closeObject : '\x7d' ∉ needle
  comma : ',' ∉ needle
  colon : needle.head? ≠ some ':'
  foreign : ∃ c ∈ needle, c ∉ symbols

variable {needle : List Char}

theorem Textual.not_infix (textual : Textual needle) {text : List Char}
    (plain : ∀ c ∈ text, c ∈ symbols) : ¬ needle <:+: text := by
  intro found
  obtain ⟨c, member, foreign⟩ := textual.foreign
  exact foreign (plain c (found.subset member))

theorem Textual.infix_cons (textual : Textual needle) {c : Char} (absent : c ∉ needle)
    {text : List Char} : needle <:+: c :: text ↔ needle <:+: text := by
  rw [← List.nil_append (c :: text), infix_append_cons_iff absent, or_iff_right]
  exact textual.not_infix (by simp)

/-- A needle is found in a string text when it is found in what is copied or escaped. -/
theorem Textual.stringText (textual : Textual needle) (value : String) :
    needle <:+: stringText value ↔ needle <:+: escapedText value.toList := by
  rw [Library.stringText, escapeText_eq, textual.infix_cons textual.quote,
    infix_append_cons_iff textual.quote, or_iff_left]
  exact textual.not_infix (by simp)

theorem numberChar_symbols {c : Char} (used : numberChar c = true) : c ∈ symbols := by
  simp only [numberChar, Bool.or_eq_true, decide_eq_true_eq] at used
  rcases used with (digit | rfl) | rfl
  · have known : ∀ code ∈ List.range' 48 10, Char.ofNat code ∈ symbols := by decide
    simp only [Char.isDigit, Bool.and_eq_true, decide_eq_true_eq] at digit
    have low : 48 ≤ c.toNat := UInt32.le_iff_toNat_le.mp digit.1
    have high : c.toNat ≤ 57 := UInt32.le_iff_toNat_le.mp digit.2
    rw [← Char.ofNat_toNat c]
    exact known c.toNat (List.mem_range'_1.mpr (by omega))
  · decide
  · decide

theorem Textual.number (textual : Textual needle) (value : Number) : ¬ needle <:+: value.text :=
  textual.not_infix fun _ member => numberChar_symbols (value.text_numberChar member)

/-- The rest of an array or an object starts with a character that no needle has. -/
theorem Textual.moreItems (textual : Textual needle) (text : List Char) (rest : List Json) :
    needle <:+: text ++ moreItemsText rest ↔
      needle <:+: text ∨ needle <:+: moreItemsText rest := by
  cases rest with
  | nil =>
      rw [moreItemsText, infix_append_cons_iff textual.closeList, textual.infix_cons textual.closeList]
  | cons item rest =>
      rw [moreItemsText, infix_append_cons_iff textual.comma, textual.infix_cons textual.comma]

theorem Textual.moreFields (textual : Textual needle) (text : List Char)
    (rest : List (String × Json)) :
    needle <:+: text ++ moreFieldsText rest ↔
      needle <:+: text ∨ needle <:+: moreFieldsText rest := by
  cases rest with
  | nil =>
      rw [moreFieldsText, infix_append_cons_iff textual.closeObject,
        textual.infix_cons textual.closeObject]
  | cons field rest =>
      rw [moreFieldsText, infix_append_cons_iff textual.comma, textual.infix_cons textual.comma]

/-- A key and its value share no needle. -/
theorem Textual.field (textual : Textual needle) (key : String) (text : List Char) :
    needle <:+: Library.stringText key ++ ':' :: text ↔
      needle <:+: escapedText key.toList ∨ needle <:+: text := by
  have colon : needle <:+: ':' :: text ↔ needle <:+: text := by
    rw [List.infix_cons_iff, or_iff_right]
    intro starts
    cases needle with
    | nil =>
        obtain ⟨c, member, _⟩ := textual.foreign
        cases member
    | cons first rest =>
        obtain ⟨rfl, -⟩ := List.cons_prefix_cons.mp starts
        exact textual.colon rfl
  rw [Library.stringText, escapeText_eq, List.cons_append, List.append_assoc,
    textual.infix_cons textual.quote, List.singleton_append, infix_append_cons_iff textual.quote, colon]

/-- Some text of the list is escaped to one with the needle. -/
def FoundIn (needle : List Char) (texts : List (List Char)) : Prop :=
  ∃ text ∈ texts, needle <:+: escapedText text

@[simp] theorem foundIn_nil : ¬ FoundIn needle [] := by
  simp [FoundIn]

@[simp] theorem foundIn_append {first second : List (List Char)} :
    FoundIn needle (first ++ second) ↔ FoundIn needle first ∨ FoundIn needle second := by
  simp [FoundIn, or_and_right, exists_or]

@[simp] theorem foundIn_cons {text : List Char} {rest : List (List Char)} :
    FoundIn needle (text :: rest) ↔ needle <:+: escapedText text ∨ FoundIn needle rest := by
  simp [FoundIn]

mutual
/-- A compact text shows what its escaped strings and keys show. -/
theorem Textual.text (textual : Textual needle) :
    ∀ value : Json, needle <:+: value.text ↔ FoundIn needle value.texts
  | .null => by
      simpa [Json.texts] using @Textual.not_infix needle textual Json.null.text (by decide)
  | .bool true => by
      simpa [Json.texts] using @Textual.not_infix needle textual (Json.bool true).text (by decide)
  | .bool false => by
      simpa [Json.texts] using @Textual.not_infix needle textual (Json.bool false).text (by decide)
  | .number value => by
      simpa [Json.texts, Json.text] using textual.number value
  | .string value => by
      simp only [Json.text, Json.texts, textual.stringText, foundIn_cons, foundIn_nil, or_false]
  | .array items => by
      rw [Json.text, Json.texts, textual.infix_cons textual.openList, textual.items items]
  | .object fields => by
      rw [Json.text, Json.texts, textual.infix_cons textual.openObject, textual.fields fields]

theorem Textual.items (textual : Textual needle) :
    ∀ items : List Json, needle <:+: itemsText items ↔ FoundIn needle (itemsTexts items)
  | [] => by
      simpa [itemsTexts] using @Textual.not_infix needle textual (itemsText []) (by decide)
  | item :: rest => by
      rw [itemsText, itemsTexts, textual.moreItems, foundIn_append, textual.text item,
        textual.restItems rest]

theorem Textual.restItems (textual : Textual needle) :
    ∀ items : List Json, needle <:+: moreItemsText items ↔ FoundIn needle (itemsTexts items)
  | [] => by
      simpa [itemsTexts] using @Textual.not_infix needle textual (moreItemsText []) (by decide)
  | item :: rest => by
      rw [moreItemsText, itemsTexts, textual.infix_cons textual.comma, textual.moreItems,
        foundIn_append, textual.text item, textual.restItems rest]

theorem Textual.fields (textual : Textual needle) :
    ∀ fields : List (String × Json), needle <:+: fieldsText fields ↔
      FoundIn needle (fieldsTexts fields)
  | [] => by
      simpa [fieldsTexts] using @Textual.not_infix needle textual (fieldsText []) (by decide)
  | (key, value) :: rest => by
      rw [fieldsText, fieldsTexts, textual.field, textual.moreFields, foundIn_cons, foundIn_append,
        textual.text value, textual.restFields rest]

theorem Textual.restFields (textual : Textual needle) :
    ∀ fields : List (String × Json), needle <:+: moreFieldsText fields ↔
      FoundIn needle (fieldsTexts fields)
  | [] => by
      simpa [fieldsTexts] using @Textual.not_infix needle textual (moreFieldsText []) (by decide)
  | (key, value) :: rest => by
      rw [moreFieldsText, fieldsTexts, textual.infix_cons textual.comma, textual.field,
        textual.moreFields, foundIn_cons, foundIn_append, textual.text value,
        textual.restFields rest]
end

/-! ### Copied characters -/

/-- A character outside of the escapes is copied. -/
theorem escapedText_plain {text : List Char} (plain : ∀ c ∈ text, c ∉ escaped) :
    escapedText text = text := by
  induction text with
  | nil => rfl
  | cons c rest ih =>
      obtain ⟨first, others⟩ := List.forall_mem_cons.mp plain
      rw [escapedText_cons, escapeChar_plain first, ih others]
      rfl

/-- A text of copied characters stands in the escaped text where it stands in the text. -/
theorem infix_escapedText {text : List Char} (plain : ∀ c ∈ needle, c ∉ escaped)
    (found : needle <:+: text) : needle <:+: escapedText text := by
  obtain ⟨before, after, rfl⟩ := found
  refine ⟨escapedText before, escapedText after, ?_⟩
  rw [escapedText_append, escapedText_append, escapedText_plain plain]

/-- The characters of the escapes. -/
def escapeLetters : List Char := "\x22\x5c/bfnrtu0123456789abcdef".toList

theorem mem_escapedText {text : List Char} {c : Char} (member : c ∈ escapedText text) :
    (c ∈ text ∧ c ∉ escaped) ∨ c ∈ escapeLetters := by
  obtain ⟨d, inside, among⟩ := List.mem_flatMap.mp member
  by_cases special : d ∈ escaped
  · have letters : ∀ d ∈ escaped, ∀ c ∈ escapeChar d, c ∈ escapeLetters := by decide
    exact .inr (letters d special c among)
  · rw [escapeChar_plain special, List.mem_singleton] at among
    exact .inl ⟨among ▸ inside, among ▸ special⟩

/-- A character of the compact text that is neither a symbol nor part of an escape was copied. -/
theorem Json.mem_text {value : Json} {c : Char} (member : c ∈ value.text) (foreign : c ∉ symbols)
    (letter : c ∉ escapeLetters) : c ∉ escaped ∧ ∃ text ∈ value.texts, c ∈ text := by
  have other : ∀ d ∈ symbols, d ≠ c := fun d known same => foreign (same ▸ known)
  have textual : Textual [c] := by
    constructor
    · simpa using other '\x22' (by decide)
    · simpa using other '[' (by decide)
    · simpa using other ']' (by decide)
    · simpa using other '\x7b' (by decide)
    · simpa using other '\x7d' (by decide)
    · simpa using other ',' (by decide)
    · simpa using (other ':' (by decide)).symm
    · exact ⟨c, List.mem_singleton_self c, foreign⟩
  obtain ⟨text, among, found⟩ := (textual.text value).mp (List.infix_iff_prefix_suffix.mpr
    (by
      obtain ⟨before, after, same⟩ := List.append_of_mem member
      exact ⟨c :: after, ⟨after, rfl⟩, before, same.symm⟩))
  rcases mem_escapedText (found.subset (List.mem_singleton_self c)) with ⟨inside, copied⟩ | part
  · exact ⟨copied, text, among, inside⟩
  · exact absurd part letter

end Library
