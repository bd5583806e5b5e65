import PiTools.Library.JsonText

/-
This file reads a JSON value from its text. One machine reads the tokens of the
text, and another one reads the value from the tokens.
-/

namespace Library

/-! ### Numbers -/

/-- The digits behind the point, and the text behind them. -/
def jsonFraction : List Char → Option (List Char × List Char)
  | '.' :: rest =>
      let digits := rest.takeWhile Char.isDigit
      if digits = [] then none else some (digits, rest.dropWhile Char.isDigit)
  | rest => some ([], rest)

def jsonExponent : List Char → Option Int
  | [] => some 0
  | c :: rest =>
      let negative := rest.head? = some '-'
      let digits := if negative ∨ rest.head? = some '+' then rest.tail else rest
      if (c = 'e' ∨ c = 'E') ∧ digits ≠ [] ∧ digits.all Char.isDigit = true then
        let value : Int := Nat.ofDigitChars 10 digits 0
        some (if negative then -value else value)
      else none

/-- The digits around the point after the point has moved. -/
def movePoint (whole fraction : List Char) : Int → List Char × List Char
  | .ofNat count =>
      (whole ++ (fraction.take count ++ List.replicate (count - fraction.length) '0'), fraction.drop count)
  | .negSucc count =>
      let filled := List.replicate (count + 1 - whole.length) '0' ++ whole
      let point := filled.length - (count + 1)
      (filled.take point, filled.drop point ++ fraction)

def digitOf (c : Char) : Fin 10 := ⟨(c.toNat - 48) % 10, Nat.mod_lt _ (Nat.succ_pos 9)⟩

def numberOf (negative : Bool) (whole fraction : List Char) : Number :=
  let magnitude := Nat.ofDigitChars 10 whole 0
  match fraction with
  | [] => .int (if negative then -magnitude else magnitude)
  | tenth :: rest => .decimal negative magnitude (digitOf tenth) (rest.map digitOf)

/-- A number has no leading zeros. -/
def jsonUnsigned (negative : Bool) (text : List Char) : Option Number := do
  let whole := text.takeWhile Char.isDigit
  if whole = [] ∨ (whole.head? = some '0' ∧ 1 < whole.length) then none
  else
    let (fraction, behind) ← jsonFraction (text.dropWhile Char.isDigit)
    let exponent ← jsonExponent behind
    let moved := movePoint whole fraction exponent
    some (numberOf negative moved.1 moved.2)

def jsonNumber (text : List Char) : Option Number :=
  if text.head? = some '-' then jsonUnsigned true text.tail else jsonUnsigned false text

/-! ### Tokens -/

inductive JsonToken
  | sign (c : Char)
  | scalar (value : Json)
  | string (value : String)

/-- What the machine of the tokens is in: nothing, a number or a literal, or a string with its
characters and a high surrogate that waits for the other half. -/
inductive Lexing
  | between
  | bare (letters : List Char)
  | quoted (chars : List Char) (high : Option Nat)
  | escape (chars : List Char) (high : Option Nat)
  | hex (chars : List Char) (high : Option Nat) (digits : List Nat)

/-- The characters of numbers and of `true`, `false` and `null`. -/
def bareChar (c : Char) : Bool := c.isDigit || c ∈ "+-.Eaeflnrstu".toList

def jsonSign (c : Char) : Bool := c ∈ ['[', ']', '\x7b', '\x7d', ':', ',']

def jsonSpace (c : Char) : Bool := c ∈ [' ', '\t', '\n', '\r']

def readBare (letters : List Char) : Option JsonToken :=
  if letters = "null".toList then some (.scalar .null)
  else if letters = "true".toList then some (.scalar (.bool true))
  else if letters = "false".toList then some (.scalar (.bool false))
  else (jsonNumber letters).map fun value => .scalar (.number value)

/-- Half of a surrogate pair is no character. -/
def flushHalf (chars : List Char) (high : Option Nat) : List Char :=
  if high.isSome then chars ++ ['\ufffd'] else chars

def hexValue (c : Char) : Option Nat :=
  if c.isDigit then some (c.toNat - 48)
  else if 'a' ≤ c ∧ c ≤ 'f' then some (c.toNat - 87)
  else if 'A' ≤ c ∧ c ≤ 'F' then some (c.toNat - 55)
  else none

/-- A string goes on with the character of a code unit. -/
def pushUnit (chars : List Char) (high : Option Nat) (unit : Nat) : Lexing :=
  if 0xD800 ≤ unit ∧ unit < 0xDC00 then .quoted (flushHalf chars high) (some unit)
  else if 0xDC00 ≤ unit ∧ unit < 0xE000 then
    match high with
    | some first => .quoted (chars ++ [Char.ofNat (0x10000 + (first - 0xD800) * 0x400 + (unit - 0xDC00))]) none
    | none => .quoted (chars ++ ['\ufffd']) none
  else .quoted (flushHalf chars high ++ [Char.ofNat unit]) none

/-- The letters behind a backslash and their characters. -/
def backslashLetters : List (Char × Char) :=
  ('/', '/') :: shortEscapes.map fun escape => (escape.2, escape.1)

/-- One character between tokens. -/
def advanceBetween (c : Char) : Option (List JsonToken × Lexing) :=
  if jsonSpace c then some ([], .between)
  else if jsonSign c then some ([.sign c], .between)
  else if c = '\x22' then some ([], .quoted [] none)
  else if bareChar c then some ([], .bare [c])
  else none

def advance : Lexing → Char → Option (List JsonToken × Lexing)
  | .between, c => advanceBetween c
  | .bare letters, c =>
      if bareChar c then some ([], .bare (letters ++ [c]))
      else do
        let token ← readBare letters
        let (tokens, state) ← advanceBetween c
        some (token :: tokens, state)
  | .quoted chars high, c =>
      if c = '\x22' then some ([.string (String.ofList (flushHalf chars high))], .between)
      else if c = '\x5c' then some ([], .escape chars high)
      else if c.toNat < 32 then none
      else some ([], .quoted (flushHalf chars high ++ [c]) none)
  | .escape chars high, c =>
      if c = 'u' then some ([], .hex chars high [])
      else (backslashLetters.lookup c).map fun char => ([], .quoted (flushHalf chars high ++ [char]) none)
  | .hex chars high digits, c => do
      let digit ← hexValue c
      if digits.length < 3 then some ([], .hex chars high (digits ++ [digit]))
      else some ([], pushUnit chars high ((digits ++ [digit]).foldl (fun unit digit => 16 * unit + digit) 0))

/-- The tokens of a text from a state on. -/
def lexFrom : Lexing → List Char → Option (List JsonToken)
  | .between, [] => some []
  | .bare letters, [] => (readBare letters).map fun token => [token]
  | _, [] => none
  | state, c :: rest =>
      match advance state c with
      | none => none
      | some (tokens, next) => (lexFrom next rest).map (tokens ++ ·)

/-! ### Values -/

/-- What stands around a value: the items before it, or the fields before it and its key. -/
inductive Frame
  | array (items : List Json)
  | object (fields : Fields) (key : String)

inductive Reading
  | value (frames : List Frame)
  | opened (frames : List Frame)
  | fields (frames : List Frame)
  | key (fields : Fields) (frames : List Frame)
  | colon (fields : Fields) (key : String) (frames : List Frame)
  | done (value : Json) (frames : List Frame)

def readValue (frames : List Frame) : JsonToken → Option Reading
  | .scalar value => some (.done value frames)
  | .string value => some (.done (.string value) frames)
  | .sign '[' => some (.opened frames)
  | .sign '\x7b' => some (.fields frames)
  | .sign _ => none

def readToken : Reading → JsonToken → Option Reading
  | .value frames, token => readValue frames token
  | .opened frames, .sign ']' => some (.done (.array []) frames)
  | .opened frames, token => readValue (.array [] :: frames) token
  | .fields frames, .sign '\x7d' => some (.done (.object []) frames)
  | .fields frames, .string key => some (.colon [] key frames)
  | .key fields frames, .string key => some (.colon fields key frames)
  | .colon fields key frames, .sign ':' => some (.value (.object fields key :: frames))
  | .done value (.array items :: frames), .sign ',' => some (.value (.array (items ++ [value]) :: frames))
  | .done value (.array items :: frames), .sign ']' => some (.done (.array (items ++ [value])) frames)
  | .done value (.object fields key :: frames), .sign ',' => some (.key (fields ++ [(key, value)]) frames)
  | .done value (.object fields key :: frames), .sign '\x7d' =>
      some (.done (.object (fields ++ [(key, value)])) frames)
  | _, _ => none

def readFrom (state : Reading) (tokens : List JsonToken) : Option Json :=
  match tokens.foldlM readToken state with
  | some (.done value []) => some value
  | _ => none

/-- The value of a text, where an object keeps all its fields. -/
def parseJson (text : List Char) : Option Json := (lexFrom .between text).bind (readFrom (.value []))

example : (parseJson "[1.50, -2e1 , \x22\x5cu0041\x5cn\x22, [ ]]".toList).map Json.text =
    some "[1.50,-20,\x22A\x5cn\x22,[]]".toList := by decide +kernel

/-! ### The tokens of a value -/

mutual
/-- The tokens of the compact text of a value. -/
def Json.tokens : Json → List JsonToken
  | .string value => [.string value]
  | .array items => .sign '[' :: itemsTokens items
  | .object fields => .sign '\x7b' :: fieldsTokens fields
  | value => [.scalar value]

def itemsTokens : List Json → List JsonToken
  | [] => [.sign ']']
  | item :: rest => item.tokens ++ moreItemsTokens rest

def moreItemsTokens : List Json → List JsonToken
  | [] => [.sign ']']
  | item :: rest => .sign ',' :: (item.tokens ++ moreItemsTokens rest)

def fieldsTokens : List (String × Json) → List JsonToken
  | [] => [.sign '\x7d']
  | (key, value) :: rest => .string key :: .sign ':' :: (value.tokens ++ moreFieldsTokens rest)

def moreFieldsTokens : List (String × Json) → List JsonToken
  | [] => [.sign '\x7d']
  | (key, value) :: rest =>
      .sign ',' :: .string key :: .sign ':' :: (value.tokens ++ moreFieldsTokens rest)
end

/-! ### Reading a number back -/

theorem digitOf_digitChar (digit : Fin 10) : digitOf (Nat.digitChar digit.val) = digit := by
  revert digit
  decide

theorem movePoint_zero (whole fraction : List Char) : movePoint whole fraction 0 = (whole, fraction) := by
  change (whole ++ (fraction.take 0 ++ List.replicate (0 - fraction.length) '0'), fraction.drop 0) = _
  simp

theorem toDigits_head {value : Nat} (positive : 0 < value) : (Nat.toDigits 10 value).head? ≠ some '0' := by
  induction value using Nat.strong_induction_on with
  | _ value ih =>
      by_cases small : value < 10
      · rw [Nat.toDigits_of_lt_base small]
        have checked : ∀ digit < 10, 0 < digit → [Nat.digitChar digit].head? ≠ some '0' := by decide
        exact checked value small positive
      · rw [Nat.toDigits_of_base_le (by decide) (by omega), List.head?_append_of_ne_nil _ Nat.toDigits_ne_nil]
        exact ih (value / 10) (by omega) (by omega)

/-- The whole part of a number ends at the first character that is no digit. -/
theorem jsonUnsigned_append (negative : Bool) (whole : Nat) {behind : List Char}
    (ends : ∀ c ∈ behind.head?, c.isDigit = false) :
    jsonUnsigned negative (Nat.toDigits 10 whole ++ behind) =
      (jsonFraction behind).bind fun fraction => (jsonExponent fraction.2).bind fun exponent =>
        let moved := movePoint (Nat.toDigits 10 whole) fraction.1 exponent
        some (numberOf negative moved.1 moved.2) := by
  have digits : ∀ c ∈ Nat.toDigits 10 whole, c.isDigit = true := fun c member => toDigits_isDigit member
  have taken : (Nat.toDigits 10 whole ++ behind).takeWhile Char.isDigit = Nat.toDigits 10 whole := by
    rw [List.takeWhile_append_of_pos digits]
    cases behind with
    | nil => simp
    | cons c rest => simp [ends c rfl]
  have dropped : (Nat.toDigits 10 whole ++ behind).dropWhile Char.isDigit = behind := by
    rw [List.dropWhile_append_of_pos digits]
    cases behind with
    | nil => rfl
    | cons c rest => simp [ends c rfl]
  have starts : ¬ (Nat.toDigits 10 whole = [] ∨
      ((Nat.toDigits 10 whole).head? = some '0' ∧ 1 < (Nat.toDigits 10 whole).length)) := by
    rintro (empty | ⟨zero, long⟩)
    · exact Nat.toDigits_ne_nil empty
    · rcases Nat.eq_zero_or_pos whole with rfl | positive
      · rw [Nat.toDigits_zero] at long
        exact absurd long (by decide)
      · exact toDigits_head positive zero
  rw [jsonUnsigned, taken, dropped, if_neg starts]
  rfl

theorem jsonUnsigned_whole (negative : Bool) (value : Nat) :
    jsonUnsigned negative (Nat.toDigits 10 value) = some (.int (if negative then -value else value)) := by
  have read := @jsonUnsigned_append negative value [] (by simp)
  rw [List.append_nil] at read
  rw [read]
  change some (numberOf negative (movePoint _ [] 0).1 (movePoint _ [] 0).2) = _
  rw [movePoint_zero, numberOf, Nat.ofDigitChars_ten_toDigits]

theorem jsonUnsigned_decimal (negative : Bool) (whole : Nat) (tenth : Fin 10) (rest : List (Fin 10)) :
    jsonUnsigned negative (Nat.toDigits 10 whole ++ '.' :: (tenth :: rest).map fun digit => Nat.digitChar digit.val) =
      some (.decimal negative whole tenth rest) := by
  have digits : ∀ c ∈ (tenth :: rest).map fun digit => Nat.digitChar digit.val, c.isDigit = true := by
    intro c member
    obtain ⟨digit, -, rfl⟩ := List.mem_map.mp member
    exact digitChar_isDigit digit.isLt
  rw [jsonUnsigned_append negative whole (by simp)]
  have fraction : jsonFraction ('.' :: (tenth :: rest).map fun digit => Nat.digitChar digit.val) =
      some ((tenth :: rest).map fun digit => Nat.digitChar digit.val, []) := by
    rw [jsonFraction, List.takeWhile_eq_self_iff.mpr digits, List.dropWhile_eq_nil_iff.mpr digits]
    rfl
  have back : (rest.map fun digit => Nat.digitChar digit.val).map digitOf = rest := by
    rw [List.map_map]
    exact (List.map_congr_left fun digit _ => digitOf_digitChar digit).trans (List.map_id rest)
  rw [fraction]
  change some (numberOf negative (movePoint _ _ 0).1 (movePoint _ _ 0).2) = _
  rw [movePoint_zero]
  change some (Number.decimal negative (Nat.ofDigitChars 10 (Nat.toDigits 10 whole) 0) (digitOf _) (List.map _ _)) = _
  rw [Nat.ofDigitChars_ten_toDigits, back, digitOf_digitChar]

/-- A number is read from its text. -/
theorem jsonNumber_text (value : Number) : jsonNumber value.text = some value := by
  have unsigned (whole : Nat) (behind : List Char) : (Nat.toDigits 10 whole ++ behind).head? ≠ some '-' := by
    rw [List.head?_append_of_ne_nil _ Nat.toDigits_ne_nil]
    intro minus
    exact absurd (toDigits_isDigit (List.mem_of_mem_head? minus)) (by decide)
  match value with
  | .int (.ofNat value) =>
      have head := unsigned value []
      rw [List.append_nil] at head
      rw [Number.text, jsonNumber, if_neg head, jsonUnsigned_whole]
      rfl
  | .int (.negSucc value) =>
      rw [Number.text, jsonNumber, List.head?_cons, if_pos rfl, List.tail_cons, jsonUnsigned_whole]
      rfl
  | .decimal false whole tenth rest =>
      rw [Number.text, signText, if_neg Bool.false_ne_true, List.nil_append, jsonNumber,
        if_neg (unsigned whole _), jsonUnsigned_decimal]
  | .decimal true whole tenth rest =>
      change jsonNumber ('-' :: (Nat.toDigits 10 whole ++ _)) = _
      rw [jsonNumber, List.head?_cons, if_pos rfl, List.tail_cons, jsonUnsigned_decimal]

/-! ### Reading the tokens back -/

theorem lexFrom_cons (state : Lexing) (c : Char) (rest : List Char) :
    lexFrom state (c :: rest) =
      (advance state c).bind fun step => (lexFrom step.2 rest).map (step.1 ++ ·) := by
  have stepped : lexFrom state (c :: rest) = match advance state c with
      | none => none
      | some (tokens, next) => (lexFrom next rest).map (tokens ++ ·) := by
    cases state <;> rfl
  rw [stepped]
  cases advance state c <;> rfl

theorem map_nil_append {Item : Type} (found : Option (List Item)) : found.map ([] ++ ·) = found := by
  cases found <;> rfl

theorem advanceBetween_bare {c : Char} (bare : bareChar c = true) : advanceBetween c = some ([], .bare [c]) := by
  have other : ∀ d ∈ [' ', '\t', '\n', '\r', '[', ']', '\x7b', '\x7d', ':', ',', '\x22'], bareChar d = false := by
    decide
  have apart {d : Char} (member : d ∈ [' ', '\t', '\n', '\r', '[', ']', '\x7b', '\x7d', ':', ',', '\x22']) :
      c ≠ d := by
    rintro rfl
    rw [other c member] at bare
    cases bare
  have noSpace : jsonSpace c = false := by simp [jsonSpace, apart]
  have noSign : jsonSign c = false := by simp [jsonSign, apart]
  rw [advanceBetween, noSpace, noSign, if_neg Bool.false_ne_true, if_neg Bool.false_ne_true,
    if_neg (apart (by simp)), if_pos bare]

/-- A number or a literal ends at the first character that neither uses. -/
theorem lexFrom_bare {letters more rest : List Char} (bare : ∀ c ∈ more, bareChar c = true)
    (ends : ∀ c ∈ rest.head?, bareChar c = false) :
    lexFrom (.bare letters) (more ++ rest) =
      (readBare (letters ++ more)).bind fun token => (lexFrom .between rest).map (token :: ·) := by
  induction more generalizing letters with
  | nil =>
      rw [List.nil_append, List.append_nil]
      cases rest with
      | nil => cases found : readBare letters <;> simp [lexFrom, found]
      | cons c rest =>
          have other := ends c rfl
          rw [lexFrom_cons, advance, other, if_neg Bool.false_ne_true, lexFrom_cons, advance]
          cases readBare letters with
          | none => rfl
          | some token =>
              change ((advanceBetween c).bind fun step => some (token :: step.1, step.2)).bind _ = _
              cases advanceBetween c with
              | none => rfl
              | some step => simp [Function.comp_def]
  | cons c more ih =>
      obtain ⟨here, later⟩ := List.forall_mem_cons.mp bare
      rw [List.cons_append, lexFrom_cons, advance, if_pos here, Option.bind_some, map_nil_append,
        ih later, List.append_assoc, List.singleton_append]

theorem lexFrom_scalar {c : Char} {more rest : List Char} {token : JsonToken}
    (bare : ∀ d ∈ c :: more, bareChar d = true) (read : readBare (c :: more) = some token)
    (ends : ∀ d ∈ rest.head?, bareChar d = false) :
    lexFrom .between ((c :: more) ++ rest) = (lexFrom .between rest).map ([token] ++ ·) := by
  obtain ⟨here, later⟩ := List.forall_mem_cons.mp bare
  rw [List.cons_append, lexFrom_cons, advance, advanceBetween_bare here, Option.bind_some, map_nil_append,
    lexFrom_bare later ends, List.singleton_append, read]
  rfl

theorem lexFrom_sign {c : Char} (sign : jsonSign c = true) (rest : List Char) :
    lexFrom .between (c :: rest) = (lexFrom .between rest).map ([.sign c] ++ ·) := by
  have noSpace : jsonSpace c = false := by
    have other : ∀ d ∈ ['[', ']', '\x7b', '\x7d', ':', ','], jsonSpace d = false := by decide
    exact other c (by simpa [jsonSign] using sign)
  rw [lexFrom_cons, advance, advanceBetween, noSpace, if_neg Bool.false_ne_true, if_pos sign]
  rfl

/-- The escape of a character is a letter, or it has the code of the character. -/
def escapeReads (c : Char) : List Char → Bool
  | ['\x5c', letter] => letter ≠ 'u' && backslashLetters.lookup letter = some c
  | ['\x5c', 'u', '0', '0', high, low] =>
      hexValue high = some (c.toNat / 16) && hexValue low = some (c.toNat % 16) && c.toNat < 32
  | _ => false

theorem escapeReads_cases {c : Char} {text : List Char} (reads : escapeReads c text = true) :
    (∃ letter, text = ['\x5c', letter] ∧ letter ≠ 'u' ∧ backslashLetters.lookup letter = some c) ∨
      ∃ high low, text = ['\x5c', 'u', '0', '0', high, low] ∧ hexValue high = some (c.toNat / 16) ∧
        hexValue low = some (c.toNat % 16) ∧ c.toNat < 32 := by
  unfold escapeReads at reads
  split at reads
  · rename_i letter
    simp only [Bool.and_eq_true, decide_eq_true_eq] at reads
    exact .inl ⟨letter, rfl, reads⟩
  · rename_i high low
    simp only [Bool.and_eq_true, decide_eq_true_eq, and_assoc] at reads
    exact .inr ⟨high, low, rfl, reads⟩
  · cases reads

/-- An escape stands for its character. -/
theorem lexFrom_escapeChar (chars : List Char) (c : Char) (rest : List Char) :
    lexFrom (.quoted chars none) (escapeChar c ++ rest) = lexFrom (.quoted (chars ++ [c]) none) rest := by
  by_cases special : c ∈ escaped
  · have checked : (escaped.all fun c => escapeReads c (escapeChar c)) = true := by decide +kernel
    rcases escapeReads_cases (List.all_eq_true.mp checked c special) with
      ⟨letter, shape, other, found⟩ | ⟨high, low, shape, highValue, lowValue, control⟩
    · rw [shape]
      change lexFrom (.quoted chars none) ('\x5c' :: letter :: rest) = _
      rw [lexFrom_cons, advance, if_neg (by decide), if_pos rfl, Option.bind_some, map_nil_append,
        lexFrom_cons, advance, if_neg other, found]
      exact map_nil_append _
    · have unit : [0, 0, c.toNat / 16, c.toNat % 16].foldl (fun unit digit => 16 * unit + digit) 0 = c.toNat := by
        simp only [List.foldl_cons, List.foldl_nil]
        omega
      have pushed : pushUnit chars none c.toNat = .quoted (chars ++ [c]) none := by
        rw [pushUnit, if_neg (by omega), if_neg (by omega), Char.ofNat_toNat]
        rfl
      have zero : hexValue '0' = some 0 := by decide
      rw [shape]
      change lexFrom (.quoted chars none) ('\x5c' :: 'u' :: '0' :: '0' :: high :: low :: rest) = _
      rw [lexFrom_cons, advance, if_neg (by decide), if_pos rfl, Option.bind_some, map_nil_append,
        lexFrom_cons, advance, if_pos rfl, Option.bind_some, map_nil_append, lexFrom_cons, advance, zero]
      change ((lexFrom (.hex chars none [0]) ('0' :: high :: low :: rest)).map ([] ++ ·)) = _
      rw [map_nil_append, lexFrom_cons, advance, zero]
      change ((lexFrom (.hex chars none [0, 0]) (high :: low :: rest)).map ([] ++ ·)) = _
      rw [map_nil_append, lexFrom_cons, advance, highValue]
      change ((lexFrom (.hex chars none [0, 0, c.toNat / 16]) (low :: rest)).map ([] ++ ·)) = _
      rw [map_nil_append, lexFrom_cons, advance, lowValue]
      change ((lexFrom (pushUnit chars none ([0, 0, c.toNat / 16, c.toNat % 16].foldl _ 0)) rest).map
        ([] ++ ·)) = _
      rw [map_nil_append, unit, pushed]
  · have ordinary : c ≠ '\x22' ∧ c ≠ '\x5c' := by
      constructor
      · rintro rfl
        exact special (by decide)
      · rintro rfl
        exact special (by decide)
    have visible : ¬ c.toNat < 32 := fun control => special (mem_escaped_of_lt control)
    rw [escapeChar_plain special, List.singleton_append, lexFrom_cons, advance, if_neg ordinary.1,
      if_neg ordinary.2, if_neg visible]
    exact map_nil_append _

theorem lexFrom_escapeText (chars text rest : List Char) :
    lexFrom (.quoted chars none) (escapeText text ++ rest) =
      (lexFrom .between rest).map ([.string (String.ofList (chars ++ text))] ++ ·) := by
  induction text generalizing chars with
  | nil =>
      rw [escapeText, List.singleton_append, lexFrom_cons, advance, if_pos rfl, List.append_nil]
      rfl
  | cons c text ih => rw [escapeText, List.append_assoc, lexFrom_escapeChar, ih, List.append_assoc, List.singleton_append]

theorem lexFrom_quote (rest : List Char) :
    lexFrom .between ('\x22' :: rest) = lexFrom (.quoted [] none) rest := by
  rw [lexFrom_cons, advance]
  exact map_nil_append _

theorem lexFrom_stringText (value : String) (rest : List Char) :
    lexFrom .between (stringText value ++ rest) = (lexFrom .between rest).map ([.string value] ++ ·) := by
  rw [stringText, List.cons_append, lexFrom_quote, lexFrom_escapeText, List.nil_append, String.ofList_toList]

/-- No number and no literal goes on in the text. -/
def EndsBare (rest : List Char) : Prop := ∀ c ∈ rest.head?, bareChar c = false

theorem endsBare_cons {c : Char} (rest : List Char) (other : bareChar c = false) : EndsBare (c :: rest) := by
  intro d first
  cases first
  exact other

theorem numberChar_bare {c : Char} (digit : numberChar c = true) : bareChar c = true := by
  simp only [numberChar, Bool.or_eq_true, decide_eq_true_eq] at digit
  rcases digit with (digit | rfl) | rfl
  · simp [bareChar, digit]
  · decide
  · decide

theorem lexFrom_number (value : Number) {rest : List Char} (ends : EndsBare rest) :
    lexFrom .between (value.text ++ rest) = (lexFrom .between rest).map ([.scalar (.number value)] ++ ·) := by
  have chars : ∀ c ∈ value.text, bareChar c = true := fun c member => numberChar_bare (value.text_numberChar member)
  have other (word : List Char) (c : Char) (first : word.head? = some c) (letter : numberChar c = false) :
      value.text ≠ word := by
    rintro rfl
    rw [value.text_numberChar (List.mem_of_mem_head? first)] at letter
    cases letter
  have read : readBare value.text = some (.scalar (.number value)) := by
    rw [readBare, if_neg (other _ 'n' (by decide) (by decide)), if_neg (other _ 't' (by decide) (by decide)),
      if_neg (other _ 'f' (by decide) (by decide)), jsonNumber_text]
    rfl
  cases found : value.text with
  | nil =>
      have head := value.text_head
      rw [found] at head
      simp at head
  | cons c more =>
      rw [found] at chars read
      exact lexFrom_scalar chars read ends

theorem moreItemsText_ends (items : List Json) (rest : List Char) : EndsBare (moreItemsText items ++ rest) := by
  cases items <;> exact endsBare_cons _ (by decide)

theorem moreFieldsText_ends (fields : Fields) (rest : List Char) : EndsBare (moreFieldsText fields ++ rest) := by
  cases fields <;> exact endsBare_cons _ (by decide)

theorem map_append_append {Item : Type} (first second : List Item) (found : Option (List Item)) :
    (found.map (second ++ ·)).map (first ++ ·) = found.map ((first ++ second) ++ ·) := by
  cases found <;> simp

mutual
/-- The tokens of a value are read from its text in front of any rest. -/
theorem Json.lexFrom_text : ∀ (value : Json) (rest : List Char), EndsBare rest →
    lexFrom .between (value.text ++ rest) = (lexFrom .between rest).map (value.tokens ++ ·)
  | .null, rest, ends => @lexFrom_scalar 'n' _ rest (.scalar .null) (by decide) rfl ends
  | .bool true, rest, ends => @lexFrom_scalar 't' _ rest (.scalar (.bool true)) (by decide) rfl ends
  | .bool false, rest, ends => @lexFrom_scalar 'f' _ rest (.scalar (.bool false)) (by decide) rfl ends
  | .number value, rest, ends => lexFrom_number value ends
  | .string value, rest, _ => lexFrom_stringText value rest
  | .array items, rest, _ => by
      rw [Json.text, List.cons_append, lexFrom_sign (by decide), itemsText_lexFrom items rest, map_append_append]
      rfl
  | .object fields, rest, _ => by
      rw [Json.text, List.cons_append, lexFrom_sign (by decide), fieldsText_lexFrom fields rest, map_append_append]
      rfl

theorem itemsText_lexFrom : ∀ (items : List Json) (rest : List Char),
    lexFrom .between (itemsText items ++ rest) = (lexFrom .between rest).map (itemsTokens items ++ ·)
  | [], rest => lexFrom_sign (by decide) rest
  | item :: items, rest => by
      rw [itemsText, List.append_assoc, Json.lexFrom_text item _ (moreItemsText_ends items rest),
        moreItemsText_lexFrom items rest, map_append_append]
      rfl

theorem moreItemsText_lexFrom : ∀ (items : List Json) (rest : List Char),
    lexFrom .between (moreItemsText items ++ rest) = (lexFrom .between rest).map (moreItemsTokens items ++ ·)
  | [], rest => lexFrom_sign (by decide) rest
  | item :: items, rest => by
      rw [moreItemsText, List.cons_append, lexFrom_sign (by decide), List.append_assoc,
        Json.lexFrom_text item _ (moreItemsText_ends items rest), moreItemsText_lexFrom items rest,
        map_append_append, map_append_append]
      rfl

theorem fieldsText_lexFrom : ∀ (fields : List (String × Json)) (rest : List Char),
    lexFrom .between (fieldsText fields ++ rest) = (lexFrom .between rest).map (fieldsTokens fields ++ ·)
  | [], rest => lexFrom_sign (by decide) rest
  | (key, value) :: fields, rest => by
      rw [fieldsText, List.append_assoc, lexFrom_stringText, List.cons_append, lexFrom_sign (by decide),
        List.append_assoc, Json.lexFrom_text value _ (moreFieldsText_ends fields rest),
        moreFieldsText_lexFrom fields rest, map_append_append, map_append_append, map_append_append]
      rfl

theorem moreFieldsText_lexFrom : ∀ (fields : List (String × Json)) (rest : List Char),
    lexFrom .between (moreFieldsText fields ++ rest) = (lexFrom .between rest).map (moreFieldsTokens fields ++ ·)
  | [], rest => lexFrom_sign (by decide) rest
  | (key, value) :: fields, rest => by
      rw [moreFieldsText, List.cons_append, lexFrom_sign (by decide), List.append_assoc, lexFrom_stringText,
        List.cons_append, lexFrom_sign (by decide), List.append_assoc,
        Json.lexFrom_text value _ (moreFieldsText_ends fields rest), moreFieldsText_lexFrom fields rest,
        map_append_append, map_append_append, map_append_append, map_append_append]
      rfl
end

/-! ### Reading the value back -/

/-- A value does not start with the end of an array. -/
theorem Json.tokens_head (value : Json) (state : List Frame) (rest : List JsonToken) :
    (value.tokens ++ rest).foldlM readToken (.opened state) =
      (value.tokens ++ rest).foldlM readToken (.value (.array [] :: state)) := by
  cases value <;> rfl

mutual
/-- A value is read from its tokens in front of any rest and inside any frames. -/
theorem Json.readToken_tokens : ∀ (value : Json) (frames : List Frame) (rest : List JsonToken),
    (value.tokens ++ rest).foldlM readToken (.value frames) = rest.foldlM readToken (.done value frames)
  | .null, frames, rest => rfl
  | .bool value, frames, rest => rfl
  | .number value, frames, rest => rfl
  | .string value, frames, rest => rfl
  | .array [], frames, rest => rfl
  | .array (item :: items), frames, rest => by
      change (item.tokens ++ moreItemsTokens items ++ rest).foldlM readToken (.opened frames) = _
      rw [List.append_assoc, Json.tokens_head, Json.readToken_tokens item, moreItems_readToken items]
      rfl
  | .object [], frames, rest => rfl
  | .object ((key, value) :: fields), frames, rest => by
      change (value.tokens ++ moreFieldsTokens fields ++ rest).foldlM readToken (.value (.object [] key :: frames)) = _
      rw [List.append_assoc, Json.readToken_tokens value, moreFields_readToken fields]
      rfl

theorem moreItems_readToken : ∀ (items : List Json) (value : Json) (before : List Json) (frames : List Frame)
    (rest : List JsonToken),
    (moreItemsTokens items ++ rest).foldlM readToken (.done value (.array before :: frames)) =
      rest.foldlM readToken (.done (.array (before ++ value :: items)) frames)
  | [], value, before, frames, rest => rfl
  | item :: items, value, before, frames, rest => by
      change (item.tokens ++ moreItemsTokens items ++ rest).foldlM readToken
        (.value (.array (before ++ [value]) :: frames)) = _
      rw [List.append_assoc, Json.readToken_tokens item, moreItems_readToken items, List.append_assoc,
        List.singleton_append]

theorem moreFields_readToken : ∀ (fields : List (String × Json)) (value : Json) (before : Fields) (key : String)
    (frames : List Frame) (rest : List JsonToken),
    (moreFieldsTokens fields ++ rest).foldlM readToken (.done value (.object before key :: frames)) =
      rest.foldlM readToken (.done (.object (before ++ (key, value) :: fields)) frames)
  | [], value, before, key, frames, rest => rfl
  | (other, field) :: fields, value, before, key, frames, rest => by
      change (field.tokens ++ moreFieldsTokens fields ++ rest).foldlM readToken
        (.value (.object (before ++ [(key, value)]) other :: frames)) = _
      rw [List.append_assoc, Json.readToken_tokens field, moreFields_readToken fields, List.append_assoc,
        List.singleton_append]
end

theorem readFrom_tokens (value : Json) : readFrom (.value []) value.tokens = some value := by
  have read := value.readToken_tokens [] []
  rw [List.append_nil] at read
  rw [readFrom, read]
  rfl

/-- A value is read from its compact text. -/
theorem parseJson_text (value : Json) : parseJson value.text = some value := by
  have tokens := value.lexFrom_text [] (by simp [EndsBare])
  rw [List.append_nil] at tokens
  rw [parseJson, tokens]
  change readFrom (.value []) (value.tokens ++ []) = _
  rw [List.append_nil, readFrom_tokens]

end Library
