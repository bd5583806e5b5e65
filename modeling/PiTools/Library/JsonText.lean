import Mathlib.Data.List.Sort
import Mathlib.Data.List.TakeWhile
import PiTools.Library.Json

/-
This file writes a JSON value as compact text and shows that the text
determines the value.
-/

namespace Library

/-- The characters with an escape of two characters. -/
def shortEscapes : List (Char × Char) :=
  [('\x22', '\x22'), ('\x5c', '\x5c'), ('\x08', 'b'), ('\x09', 't'), ('\x0a', 'n'),
    ('\x0c', 'f'), ('\x0d', 'r')]

/-- Other control characters are written with four hexadecimal digits. -/
def escapeChar (c : Char) : List Char :=
  match shortEscapes.lookup c with
  | some letter => ['\x5c', letter]
  | none =>
      if c.toNat < 32 then
        ['\x5c', 'u', '0', '0', Nat.digitChar (c.toNat / 16), Nat.digitChar (c.toNat % 16)]
      else [c]

def escapeText : List Char → List Char
  | [] => ['\x22']
  | c :: rest => escapeChar c ++ escapeText rest

def stringText (value : String) : List Char := '\x22' :: escapeText value.toList

def signText (negative : Bool) : List Char := if negative then ['-'] else []

def Number.text : Number → List Char
  | .int (.ofNat value) => Nat.toDigits 10 value
  | .int (.negSucc value) => '-' :: Nat.toDigits 10 (value + 1)
  | .decimal negative whole tenth rest =>
      (signText negative ++ Nat.toDigits 10 whole) ++
        '.' :: (tenth :: rest).map fun digit => Nat.digitChar digit.val

mutual
/-- The compact text of a value. -/
def Json.text : Json → List Char
  | .null => ['n', 'u', 'l', 'l']
  | .bool true => ['t', 'r', 'u', 'e']
  | .bool false => ['f', 'a', 'l', 's', 'e']
  | .number value => value.text
  | .string value => stringText value
  | .array items => '[' :: itemsText items
  | .object fields => '\x7b' :: fieldsText fields

def itemsText : List Json → List Char
  | [] => [']']
  | item :: rest => item.text ++ moreItemsText rest

def moreItemsText : List Json → List Char
  | [] => [']']
  | item :: rest => ',' :: (item.text ++ moreItemsText rest)

def fieldsText : List (String × Json) → List Char
  | [] => ['\x7d']
  | (key, value) :: rest => stringText key ++ ':' :: (value.text ++ moreFieldsText rest)

def moreFieldsText : List (String × Json) → List Char
  | [] => ['\x7d']
  | (key, value) :: rest => ',' :: (stringText key ++ ':' :: (value.text ++ moreFieldsText rest))
end

/-- A `jsonb` column orders keys by their length in bytes first. -/
def columnKeyBefore (first second : String) : Bool :=
  first.utf8ByteSize < second.utf8ByteSize ||
    (first.utf8ByteSize = second.utf8ByteSize && !decide (second < first))

mutual
/-- The text of a value that a `jsonb` column prints. -/
def Json.columnText : Json → List Char
  | .null => ['n', 'u', 'l', 'l']
  | .bool true => ['t', 'r', 'u', 'e']
  | .bool false => ['f', 'a', 'l', 's', 'e']
  | .number value => value.text
  | .string value => stringText value
  | .array items => '[' :: ([',', ' '].intercalate (columnItems items) ++ [']'])
  | .object fields =>
      '\x7b' :: ([',', ' '].intercalate
        (((columnFields fields).insertionSort
          fun first second => columnKeyBefore first.1 second.1).map
            fun field => stringText field.1 ++ [':', ' '] ++ field.2) ++ ['\x7d'])

def columnItems : List Json → List (List Char)
  | [] => []
  | item :: rest => item.columnText :: columnItems rest

def columnFields : List (String × Json) → List (String × List Char)
  | [] => []
  | (key, value) :: rest => (key, value.columnText) :: columnFields rest
end

/-- The operator `->>` reads a field as text. -/
def Json.getText (value : Json) (key : String) : Option String :=
  match value.get key with
  | none => none
  | some .null => none
  | some (.string text) => some text
  | some inner => some (String.ofList inner.columnText)

theorem Json.getText_of_string {value : Json} {key text : String}
    (found : value.get key = some (.string text)) : value.getText key = some text := by
  rw [Json.getText, found]

theorem Json.getText_congr {first second : Json} {key : String}
    (same : first.get key = second.get key) : first.getText key = second.getText key := by
  simp only [Json.getText, same]

/-- A merge takes the text of a key from one of its sides. -/
theorem Json.getText_concat {first second : Json} {key text : String}
    (found : (first.concat second).getText key = some text) :
    second.getText key = some text ∨ first.getText key = some text := by
  cases merged : (first.concat second).get key with
  | none =>
      rw [Json.getText, merged] at found
      cases found
  | some inner =>
      rcases Json.get_concat_of_get merged with right | ⟨_, left⟩
      · left
        rw [← found]
        exact Json.getText_congr (right.trans merged.symm)
      · right
        rw [← found]
        exact Json.getText_congr (left.trans merged.symm)

theorem Json.getText_setKey {target value result : Json} {key other : String}
    (set : target.setKey key value = .ok result) (differs : key ≠ other) :
    result.getText other = target.getText other := by
  apply Json.getText_congr
  rw [Json.get_setKey other set, if_neg differs]

/-! The text of a string ends at its closing quotation mark. -/

/-- The characters that a string text does not copy. -/
def escaped : List Char := '\x22' :: '\x5c' :: (List.range 32).map Char.ofNat

theorem mem_escaped_of_lt {c : Char} (control : c.toNat < 32) : c ∈ escaped := by
  refine .tail _ (.tail _ (List.mem_map.mpr ⟨c.toNat, List.mem_range.mpr control, ?_⟩))
  simp

theorem escapeChar_plain {c : Char} (plain : c ∉ escaped) : escapeChar c = [c] := by
  have noShort : shortEscapes.lookup c = none := by
    rw [List.lookup_eq_none_iff]
    intro entry member
    have special : entry.1 ∈ escaped := by
      revert entry
      decide
    simp only [bne_iff_ne]
    rintro rfl
    exact plain special
  have noControl : ¬ c.toNat < 32 := fun control => plain (mem_escaped_of_lt control)
  simp [escapeChar, noShort, noControl]

theorem escapeChar_special {c : Char} (special : c ∈ escaped) :
    (escapeChar c).head? = some '\x5c' := by
  have checked : (escaped.all fun c => (escapeChar c).head? = some '\x5c') = true := by decide
  simpa using List.all_eq_true.mp checked c special

/-- No escape starts another escape. -/
theorem escapeChar_prefixFree {c d : Char} (specialC : c ∈ escaped) (specialD : d ∈ escaped)
    (starts : escapeChar c <+: escapeChar d) : c = d := by
  have checked : (escaped.all fun c => escaped.all fun d =>
      (escapeChar c).isPrefixOf (escapeChar d) = false ∨ c = d) = true := by decide
  have apart := List.all_eq_true.mp (List.all_eq_true.mp checked c specialC) d specialD
  simp only [decide_eq_true_eq] at apart
  exact apart.resolve_left (by simpa using starts)

theorem escapeChar_append {c d : Char} {rest rest' : List Char}
    (same : escapeChar c ++ rest = escapeChar d ++ rest') : c = d ∧ rest = rest' := by
  have equal : c = d := by
    by_cases specialC : c ∈ escaped <;> by_cases specialD : d ∈ escaped
    · rcases List.prefix_or_prefix_of_prefix (List.prefix_append (escapeChar c) rest)
        (same ▸ List.prefix_append (escapeChar d) rest') with starts | starts
      · exact escapeChar_prefixFree specialC specialD starts
      · exact (escapeChar_prefixFree specialD specialC starts).symm
    · have head := congrArg List.head? same
      rw [escapeChar_plain specialD, List.head?_append, escapeChar_special specialC] at head
      simp only [Option.some_or, List.cons_append, List.head?_cons, Option.some.injEq] at head
      exact absurd (head ▸ by decide) specialD
    · have head := congrArg List.head? same
      rw [escapeChar_plain specialC, List.head?_append (l := escapeChar d),
        escapeChar_special specialD] at head
      simp only [Option.some_or, List.cons_append, List.head?_cons, Option.some.injEq] at head
      exact absurd (head ▸ by decide) specialC
    · rw [escapeChar_plain specialC, escapeChar_plain specialD] at same
      exact (List.cons.inj same).1
  subst equal
  exact ⟨rfl, List.append_cancel_left same⟩

theorem escapeChar_ne_quote (c : Char) (rest rest' : List Char) :
    escapeChar c ++ rest ≠ '\x22' :: rest' := by
  intro same
  have head := congrArg List.head? same
  by_cases special : c ∈ escaped
  · rw [List.head?_append, escapeChar_special special] at head
    simp at head
  · rw [escapeChar_plain special] at head
    simp only [List.cons_append, List.head?_cons, Option.some.injEq] at head
    exact special (head ▸ .head _)

theorem escapeText_append {first second rest rest' : List Char}
    (same : escapeText first ++ rest = escapeText second ++ rest') :
    first = second ∧ rest = rest' := by
  induction first generalizing second with
  | nil =>
      cases second with
      | nil => simpa [escapeText] using same
      | cons d second =>
          simp only [escapeText, List.append_assoc] at same
          exact absurd same.symm (escapeChar_ne_quote d _ _)
  | cons c first ih =>
      cases second with
      | nil =>
          simp only [escapeText, List.append_assoc] at same
          exact absurd same (escapeChar_ne_quote c _ _)
      | cons d second =>
          simp only [escapeText, List.append_assoc] at same
          obtain ⟨rfl, tail⟩ := escapeChar_append same
          obtain ⟨rfl, equal⟩ := ih tail
          exact ⟨rfl, equal⟩

theorem stringText_append {first second : String} {rest rest' : List Char}
    (same : stringText first ++ rest = stringText second ++ rest') :
    first = second ∧ rest = rest' := by
  simp only [stringText, List.cons_append, List.cons.injEq, true_and] at same
  obtain ⟨chars, equal⟩ := escapeText_append same
  exact ⟨String.toList_inj.mp chars, equal⟩

/-! The text of a number ends at the first character that no number uses. -/

def numberChar (c : Char) : Bool := c.isDigit || c = '.' || c = '-'

theorem digitChar_isDigit {digit : Nat} (small : digit < 10) :
    (Nat.digitChar digit).isDigit = true := by
  revert digit
  decide

theorem toDigits_isDigit {value : Nat} {c : Char} (member : c ∈ Nat.toDigits 10 value) :
    c.isDigit = true := Nat.isDigit_of_mem_toDigits (by decide) (by decide) member

theorem toDigits_injective {first second : Nat}
    (same : Nat.toDigits 10 first = Nat.toDigits 10 second) : first = second := by
  rw [← Nat.ofDigitChars_ten_toDigits (n := first), same, Nat.ofDigitChars_ten_toDigits]

theorem dot_notMem_whole (negative : Bool) (whole : Nat) :
    '.' ∉ signText negative ++ Nat.toDigits 10 whole := by
  intro member
  rcases List.mem_append.mp member with sign | digit
  · cases negative <;> simp [signText] at sign
  · exact absurd (toDigits_isDigit digit) (by decide)

theorem Number.text_numberChar (value : Number) {c : Char} (member : c ∈ value.text) :
    numberChar c = true := by
  have digit {value : Nat} (inside : c ∈ Nat.toDigits 10 value) : numberChar c = true := by
    simp [numberChar, toDigits_isDigit inside]
  match value with
  | .int (.ofNat value) => exact digit member
  | .int (.negSucc value) =>
      rcases List.mem_cons.mp member with rfl | inside
      · rfl
      · exact digit inside
  | .decimal negative whole tenth rest =>
      simp only [Number.text, List.mem_append, List.mem_cons, List.mem_map] at member
      rcases member with (sign | inside) | rfl | ⟨other, _, rfl⟩
      · cases negative <;> simp_all [signText, numberChar]
      · exact digit inside
      · rfl
      · simp [numberChar, digitChar_isDigit other.isLt]

theorem signText_append {negative negative' : Bool} {whole whole' : Nat}
    (same : signText negative ++ Nat.toDigits 10 whole =
      signText negative' ++ Nat.toDigits 10 whole') : negative = negative' ∧ whole = whole' := by
  have unsigned {first second : Nat} (equal : Nat.toDigits 10 first =
      '-' :: Nat.toDigits 10 second) : False := by
    have minus : '-' ∈ Nat.toDigits 10 first := by simp [equal]
    exact absurd (toDigits_isDigit minus) (by decide)
  cases negative <;> cases negative' <;> simp only [signText, Bool.false_eq_true, if_false,
    if_true, List.nil_append, List.singleton_append, List.cons.injEq, true_and] at same
  · exact ⟨rfl, toDigits_injective same⟩
  · exact (unsigned same).elim
  · exact (unsigned same.symm).elim
  · exact ⟨rfl, toDigits_injective same⟩

theorem digitChar_fin_injective :
    Function.Injective fun digit : Fin 10 => Nat.digitChar digit.val := by
  simp only [Function.Injective]
  decide

/-- The sign and the magnitude of an integer give its text. -/
theorem Number.text_int (value : Int) :
    (Number.int value).text = signText (value < 0) ++ Nat.toDigits 10 value.natAbs := by
  cases value with
  | ofNat value => simp [Number.text, signText]
  | negSucc value => simp [Number.text, signText, Int.negSucc_lt_zero]

theorem Number.text_injective {first second : Number} (same : first.text = second.text) :
    first = second := by
  have noDot (value : Int) : '.' ∉ (Number.int value).text := by
    rw [Number.text_int]
    exact dot_notMem_whole _ _
  have hasDot (negative whole tenth rest) :
      '.' ∈ (Number.decimal negative whole tenth rest).text := by
    simp [Number.text]
  match first, second with
  | .int first, .int second =>
      rw [Number.text_int, Number.text_int] at same
      obtain ⟨sign, magnitude⟩ := signText_append same
      congr 1
      simp only [decide_eq_decide] at sign
      omega
  | .int first, .decimal negative whole tenth rest =>
      exact absurd (same ▸ hasDot negative whole tenth rest) (noDot first)
  | .decimal negative whole tenth rest, .int second =>
      exact absurd (same ▸ hasDot negative whole tenth rest) (noDot second)
  | .decimal negative whole tenth rest, .decimal negative' whole' tenth' rest' =>
      simp only [Number.text] at same
      have noDotAfter : '.' ∉ (tenth :: rest).map fun digit => Nat.digitChar digit.val := by
        simp only [List.mem_map, not_exists, not_and]
        intro digit _ dot
        exact absurd (dot ▸ digitChar_isDigit digit.isLt) (by decide)
      have parts :=
        (List.append_cons_inj_of_notMem (dot_notMem_whole _ _) noDotAfter).mp same
      obtain ⟨rfl, rfl⟩ := signText_append parts.1
      have digits := List.map_injective_iff.mpr digitChar_fin_injective parts.2.2
      obtain ⟨rfl, rfl⟩ := List.cons.inj digits
      rfl

/-- No number continues into the rest of the text. -/
def Delimited (rest : List Char) : Prop := ∀ c ∈ rest.head?, numberChar c = false

theorem takeWhile_number (value : Number) {rest : List Char} (delimited : Delimited rest) :
    (value.text ++ rest).takeWhile numberChar = value.text := by
  rw [List.takeWhile_append_of_pos fun _ member => value.text_numberChar member]
  cases rest with
  | nil => simp
  | cons c rest => simp [delimited c rfl]

theorem Number.text_append {first second : Number} {rest rest' : List Char}
    (delimited : Delimited rest) (delimited' : Delimited rest')
    (same : first.text ++ rest = second.text ++ rest') : first = second ∧ rest = rest' := by
  have texts := congrArg (List.takeWhile numberChar) same
  rw [takeWhile_number first delimited, takeWhile_number second delimited'] at texts
  obtain rfl := Number.text_injective texts
  exact ⟨rfl, List.append_cancel_left same⟩

theorem Number.text_head (value : Number) :
    ∃ c tail, value.text = c :: tail ∧ numberChar c = true := by
  have nonempty : value.text ≠ [] := by
    match value with
    | .int (.ofNat value) => exact Nat.toDigits_ne_nil
    | .int (.negSucc value) => simp [Number.text]
    | .decimal negative whole tenth rest => simp [Number.text]
  obtain ⟨c, tail, equal⟩ := List.exists_cons_of_ne_nil nonempty
  exact ⟨c, tail, equal, value.text_numberChar (by simp [equal])⟩

/-! The first character of a text tells the kind of its value. -/

def Json.kind : Json → Nat
  | .null => 0
  | .bool true => 1
  | .bool false => 2
  | .number _ => 3
  | .string _ => 4
  | .array _ => 5
  | .object _ => 6

def headKind (c : Char) : Nat :=
  if c = 'n' then 0 else if c = 't' then 1 else if c = 'f' then 2 else if numberChar c then 3
  else if c = '\x22' then 4 else if c = '[' then 5 else if c = '\x7b' then 6 else 7

theorem Json.text_head (value : Json) :
    ∃ c tail, value.text = c :: tail ∧ headKind c = value.kind := by
  match value with
  | .null => exact ⟨_, _, rfl, rfl⟩
  | .bool true => exact ⟨_, _, rfl, rfl⟩
  | .bool false => exact ⟨_, _, rfl, rfl⟩
  | .number value =>
      obtain ⟨c, tail, equal, used⟩ := value.text_head
      refine ⟨c, tail, by simpa [Json.text] using equal, ?_⟩
      have letters : c ≠ 'n' ∧ c ≠ 't' ∧ c ≠ 'f' := by
        refine ⟨?_, ?_, ?_⟩ <;> rintro rfl <;> exact absurd used (by decide)
      simp [headKind, letters, used, Json.kind]
  | .string value => exact ⟨'\x22', escapeText value.toList, by simp [Json.text, stringText], rfl⟩
  | .array items => exact ⟨'[', itemsText items, by simp [Json.text], rfl⟩
  | .object fields => exact ⟨'\x7b', fieldsText fields, by simp [Json.text], rfl⟩

theorem Json.kind_of_text {first second : Json} {rest rest' : List Char}
    (same : first.text ++ rest = second.text ++ rest') : first.kind = second.kind := by
  obtain ⟨c, tail, text, kind⟩ := first.text_head
  obtain ⟨c', tail', text', kind'⟩ := second.text_head
  rw [text, text', List.cons_append, List.cons_append] at same
  rw [← kind, ← kind', (List.cons.inj same).1]

/-- No value starts with a closing bracket. -/
theorem Json.text_ne_bracket (value : Json) (rest rest' : List Char) :
    value.text ++ rest ≠ ']' :: rest' := by
  intro same
  obtain ⟨c, tail, text, kind⟩ := value.text_head
  rw [text, List.cons_append] at same
  rw [(List.cons.inj same).1, show headKind ']' = 7 from rfl] at kind
  match value with
  | .null | .bool true | .bool false | .number _ | .string _ | .array _ | .object _ =>
      simp [Json.kind] at kind

theorem delimited_cons {c : Char} (rest : List Char) (unused : numberChar c = false) :
    Delimited (c :: rest) := by
  intro d first
  cases first
  exact unused

theorem moreItemsText_delimited (items : List Json) (rest : List Char) :
    Delimited (moreItemsText items ++ rest) := by
  cases items <;> exact delimited_cons _ rfl

theorem moreFieldsText_delimited (fields : Fields) (rest : List Char) :
    Delimited (moreFieldsText fields ++ rest) := by
  cases fields <;> exact delimited_cons _ rfl

mutual
/-- A delimited text has one value and one rest. -/
theorem Json.text_append : ∀ (first second : Json) (rest rest' : List Char),
    Delimited rest → Delimited rest' → first.text ++ rest = second.text ++ rest' →
      first = second ∧ rest = rest'
  | first, second, rest, rest', delimited, delimited', same => by
      have kinds := Json.kind_of_text same
      match first, second with
      | .null, .null => simpa [Json.text] using same
      | .bool true, .bool true => simpa [Json.text] using same
      | .bool false, .bool false => simpa [Json.text] using same
      | .number first, .number second =>
          simp only [Json.text] at same
          obtain ⟨rfl, equal⟩ := Number.text_append delimited delimited' same
          exact ⟨rfl, equal⟩
      | .string first, .string second =>
          simp only [Json.text] at same
          obtain ⟨rfl, equal⟩ := stringText_append same
          exact ⟨rfl, equal⟩
      | .array first, .array second =>
          simp only [Json.text, List.cons_append, List.cons.injEq, true_and] at same
          obtain ⟨rfl, equal⟩ := itemsText_append first second rest rest' same
          exact ⟨rfl, equal⟩
      | .object first, .object second =>
          simp only [Json.text, List.cons_append, List.cons.injEq, true_and] at same
          obtain ⟨rfl, equal⟩ := fieldsText_append first second rest rest' same
          exact ⟨rfl, equal⟩

theorem itemsText_append : ∀ (first second : List Json) (rest rest' : List Char),
    itemsText first ++ rest = itemsText second ++ rest' → first = second ∧ rest = rest'
  | [], [], rest, rest', same => by simpa [itemsText] using same
  | [], item :: items, rest, rest', same => by
      simp only [itemsText, List.append_assoc] at same
      exact absurd same.symm (item.text_ne_bracket _ _)
  | item :: items, [], rest, rest', same => by
      simp only [itemsText, List.append_assoc] at same
      exact absurd same (item.text_ne_bracket _ _)
  | item :: items, item' :: items', rest, rest', same => by
      simp only [itemsText, List.append_assoc] at same
      obtain ⟨rfl, tail⟩ := Json.text_append item item' _ _ (moreItemsText_delimited items rest)
        (moreItemsText_delimited items' rest') same
      obtain ⟨rfl, equal⟩ := moreItemsText_append items items' rest rest' tail
      exact ⟨rfl, equal⟩

theorem moreItemsText_append : ∀ (first second : List Json) (rest rest' : List Char),
    moreItemsText first ++ rest = moreItemsText second ++ rest' → first = second ∧ rest = rest'
  | [], [], rest, rest', same => by simpa [moreItemsText] using same
  | [], item :: items, rest, rest', same => by simp [moreItemsText] at same
  | item :: items, [], rest, rest', same => by simp [moreItemsText] at same
  | item :: items, item' :: items', rest, rest', same => by
      simp only [moreItemsText, List.cons_append, List.cons.injEq, true_and,
        List.append_assoc] at same
      obtain ⟨rfl, tail⟩ := Json.text_append item item' _ _ (moreItemsText_delimited items rest)
        (moreItemsText_delimited items' rest') same
      obtain ⟨rfl, equal⟩ := moreItemsText_append items items' rest rest' tail
      exact ⟨rfl, equal⟩

theorem fieldsText_append : ∀ (first second : List (String × Json)) (rest rest' : List Char),
    fieldsText first ++ rest = fieldsText second ++ rest' → first = second ∧ rest = rest'
  | [], [], rest, rest', same => by simpa [fieldsText] using same
  | [], (key, value) :: fields, rest, rest', same => by simp [fieldsText, stringText] at same
  | (key, value) :: fields, [], rest, rest', same => by simp [fieldsText, stringText] at same
  | (key, value) :: fields, (key', value') :: fields', rest, rest', same => by
      simp only [fieldsText, List.append_assoc, List.cons_append] at same
      obtain ⟨rfl, colon⟩ := stringText_append same
      obtain ⟨rfl, tail⟩ := Json.text_append value value' _ _
        (moreFieldsText_delimited fields rest) (moreFieldsText_delimited fields' rest')
        (List.cons.inj colon).2
      obtain ⟨rfl, equal⟩ := moreFieldsText_append fields fields' rest rest' tail
      exact ⟨rfl, equal⟩

theorem moreFieldsText_append : ∀ (first second : List (String × Json)) (rest rest' : List Char),
    moreFieldsText first ++ rest = moreFieldsText second ++ rest' → first = second ∧ rest = rest'
  | [], [], rest, rest', same => by simpa [moreFieldsText] using same
  | [], (key, value) :: fields, rest, rest', same => by simp [moreFieldsText] at same
  | (key, value) :: fields, [], rest, rest', same => by simp [moreFieldsText] at same
  | (key, value) :: fields, (key', value') :: fields', rest, rest', same => by
      simp only [moreFieldsText, List.cons_append, List.cons.injEq, true_and,
        List.append_assoc] at same
      obtain ⟨rfl, colon⟩ := stringText_append same
      obtain ⟨rfl, tail⟩ := Json.text_append value value' _ _
        (moreFieldsText_delimited fields rest) (moreFieldsText_delimited fields' rest')
        (List.cons.inj colon).2
      obtain ⟨rfl, equal⟩ := moreFieldsText_append fields fields' rest rest' tail
      exact ⟨rfl, equal⟩
end

/-- The compact text determines the value. -/
theorem Json.text_injective : Function.Injective Json.text := by
  intro first second same
  have delimited : Delimited [] := by simp [Delimited]
  exact (Json.text_append first second [] [] delimited delimited (by simpa using same)).1

/-- Equal texts decide equal values. -/
instance : DecidableEq Json := fun first second =>
  decidable_of_iff (first.text = second.text) Json.text_injective.eq_iff

end Library
