import PiTools.Library.JsonText
import PiTools.Library.Streaming
import PiTools.Library.Unlines
import PiTools.Library.Utf8
import PiTools.PiWorker.Redaction

/-
This file defines the reader of server frames in the Pi worker and shows that it
acts on the same frames however their bytes arrive.
-/

namespace PiTools.PiWorker

open Library

/-! ### Numbers -/

/-- A finite number in decimal notation, which stands for `mantissa * 10 ^ exponent`. -/
structure DecimalText where
  negative : Bool
  mantissa : Nat
  exponent : Int
  deriving DecidableEq, Repr

/-- The value of a digit in a base up to sixteen. -/
def digitValue (base : Nat) (c : Char) : Option Nat :=
  let value := if c.isDigit then c.toNat - '0'.toNat
    else if 'a' ≤ c ∧ c ≤ 'f' then c.toNat - 'a'.toNat + 10
    else if 'A' ≤ c ∧ c ≤ 'F' then c.toNat - 'A'.toNat + 10 else base
  if value < base then some value else none

def readRadix (base : Nat) (digits : List Char) : Option DecimalText :=
  if digits = [] then none
  else (digits.mapM (digitValue base)).map fun values =>
    ⟨false, values.foldl (fun total value => base * total + value) 0, 0⟩

def readExponent : List Char → Option Int
  | [] => some 0
  | mark :: rest =>
      let digits := if rest.head? = some '+' ∨ rest.head? = some '-' then rest.tail else rest
      if (mark = 'e' ∨ mark = 'E') ∧ digits ≠ [] ∧ digits.all Char.isDigit then
        let magnitude : Int := Nat.ofDigitChars 10 digits 0
        some (if rest.head? = some '-' then -magnitude else magnitude)
      else none

def readDecimal (negative : Bool) (text : List Char) : Option DecimalText :=
  let whole := text.takeWhile Char.isDigit
  let rest := text.dropWhile Char.isDigit
  let fraction := if rest.head? = some '.' then rest.tail.takeWhile Char.isDigit else []
  let rest := if rest.head? = some '.' then rest.tail.dropWhile Char.isDigit else rest
  if whole = [] ∧ fraction = [] then none
  else (readExponent rest).map fun exponent =>
    ⟨negative, Nat.ofDigitChars 10 (whole ++ fraction) 0, exponent - fraction.length⟩

def trimSpaces (text : List Char) : List Char :=
  ((text.dropWhile spaceChar).reverse.dropWhile spaceChar).reverse

/-- The function `Number` on a text. Texts that are no number and infinite numbers have no value. -/
def readNumber (text : List Char) : Option DecimalText :=
  match trimSpaces text with
  | [] => some ⟨false, 0, 0⟩
  | '0' :: 'b' :: digits => readRadix 2 digits
  | '0' :: 'B' :: digits => readRadix 2 digits
  | '0' :: 'o' :: digits => readRadix 8 digits
  | '0' :: 'O' :: digits => readRadix 8 digits
  | '0' :: 'x' :: digits => readRadix 16 digits
  | '0' :: 'X' :: digits => readRadix 16 digits
  | '+' :: rest => readDecimal false rest
  | '-' :: rest => readDecimal true rest
  | rest => readDecimal false rest

/-- A quotient rounded to the nearest integer, and to the even one of two. -/
def roundHalfEven (numerator denominator : Nat) : Nat :=
  let quotient := numerator / denominator
  let remainder := numerator % denominator
  if 2 * remainder < denominator ∨ (2 * remainder = denominator ∧ quotient % 2 = 0) then quotient
  else quotient + 1

def safeBound : Nat := 9007199254740992

/-- The double next to a quotient, when it is a safe integer. -/
def safeQuotient (numerator denominator : Nat) : Option Nat :=
  let whole := numerator / denominator
  if 2 * numerator < denominator then
    -- Only a number below half of the least double becomes zero.
    if numerator * 2 ^ 1075 ≤ denominator then some 0 else none
  else if safeBound ≤ whole then none
  else
    let places := 53 - if whole = 0 then 0 else Nat.log2 whole + 1
    let scaled := roundHalfEven (numerator * 2 ^ places) denominator
    if scaled % 2 ^ places = 0 ∧ scaled / 2 ^ places < safeBound then some (scaled / 2 ^ places) else none

/-- The magnitude of the number, when the double next to it is a safe integer. -/
def DecimalText.safeMagnitude (number : DecimalText) : Option Nat :=
  if number.mantissa = 0 then some 0
  else if number.exponent < 0 then safeQuotient number.mantissa (10 ^ (-number.exponent).toNat)
  else
    let value := number.mantissa * 10 ^ number.exponent.toNat
    if value < safeBound then some value else none

def maxMessageBytes : Nat := 256 * 1024

/-- The size of a message that the worker reads. -/
def messageSize (text : List Char) : Option Nat := do
  let number ← readNumber text
  let magnitude ← number.safeMagnitude
  if (number.negative ∧ 0 < magnitude) ∨ maxMessageBytes < magnitude then none else some magnitude

/-! ### The parser -/

/-- The user and the password of the endpoint, and the ones of the environment. -/
structure Connection where
  username : Option String
  password : Option String
  environmentUsername : Option String
  environmentPassword : Option String

inductive NatsEffect
  /-- The payload is processed, and the answer goes to the reply subject. -/
  | process (line reply : List Char)
  | write (text : List Char)
  | destroy (reason : String)
  deriving DecidableEq, Repr

def requestSubject : String := "pitools.pi.requests"

def sid : String := "1"

def Connection.authFields (connection : Connection) (infoReceived : Bool) : Fields :=
  if !infoReceived then []
  else
    match connection.username.or connection.environmentUsername,
      connection.password.or connection.environmentPassword with
    | some username, some password => [("user", .string username), ("pass", .string password)]
    | _, _ => []

def Connection.connectText (connection : Connection) (infoReceived : Bool) : List Char :=
  "CONNECT ".toList ++ (Json.object ([("verbose", .bool false), ("pedantic", .bool false),
    ("lang", .string "node"), ("version", .string "1.0"), ("protocol", .number (.int 1)),
    ("echo", .bool false)] ++ connection.authFields infoReceived)).text ++
      ("\r\nSUB " ++ requestSubject ++ " " ++ sid ++ "\r\nPING\r\n").toList

def lineBreak : List UInt8 := asciiBytes ['\r', '\n']

/-- The bytes before and after the first line break. -/
def takeLine : List UInt8 → Option (List UInt8 × List UInt8)
  | [] => none
  | byte :: rest =>
      if lineBreak.isPrefixOf (byte :: rest) then some ([], rest.tail)
      else (takeLine rest).map fun parts => (byte :: parts.1, parts.2)

theorem takeLine_some {buffer line rest : List UInt8} (found : takeLine buffer = some (line, rest)) :
    buffer = line ++ (lineBreak ++ rest) := by
  induction buffer generalizing line with
  | nil => cases found
  | cons byte buffer ih =>
      unfold takeLine at found
      split at found
      · rename_i starts
        obtain ⟨more, same⟩ := List.isPrefixOf_iff_prefix.mp starts
        obtain ⟨rfl, rfl⟩ := List.cons.inj same
        cases found
        rfl
      · obtain ⟨parts, inner, same⟩ := Option.map_eq_some_iff.mp found
        cases same
        rw [ih inner]
        rfl

theorem takeLine_shorter {buffer line rest : List UInt8} (found : takeLine buffer = some (line, rest)) :
    rest.length < buffer.length := by
  rw [takeLine_some found, List.length_append, List.length_append]
  simp only [lineBreak, asciiBytes, List.length_map, List.length_cons, List.length_nil]
  omega

abbrev NatsTurn (buffer : List UInt8) : Type := Turn UInt8 Bool NatsEffect buffer

/-- The loop returns and leaves the buffer as it is. -/
def NatsTurn.wait (effects : List NatsEffect) (infoReceived : Bool) {buffer : List UInt8} : NatsTurn buffer :=
  ⟨effects, infoReceived, none, by simp⟩

def NatsTurn.take (effects : List NatsEffect) (infoReceived : Bool) {buffer : List UInt8}
    (rest : List UInt8) (shorter : rest.length < buffer.length) : NatsTurn buffer :=
  ⟨effects, infoReceived, some rest, by simpa using shorter⟩

/-- What a line that is not a message makes the worker do. -/
def Connection.lineEffects (connection : Connection) (line : List Char) : List NatsEffect :=
  if "INFO ".toList.isPrefixOf line then [.write (connection.connectText true)]
  else if line = "PING".toList then [.write "PONG\r\n".toList]
  else if line = "-ERR".toList then [.destroy "NATS worker connection was rejected"]
  else []

def consumeMessage (infoReceived : Bool) (buffer : List UInt8) : NatsTurn buffer :=
  match found : takeLine buffer with
  | none => .wait [] infoReceived
  | some (header, rest) =>
      let parts := (decodeUtf8 header).splitOn ' '
      match messageSize (parts.getLastD []) with
      | none => .wait [.destroy "NATS message size is invalid"] infoReceived
      | some size =>
          if rest.length < size + 2 then .wait [] infoReceived
          else
            let payload := rest.take size
            let reply := if parts.length = 5 then parts[3]? else none
            .take (reply.toList.map fun reply => .process (decodeUtf8 payload) reply) infoReceived
              (rest.drop (size + 2))
              (Nat.lt_of_le_of_lt (by simp) (takeLine_shorter found))

/-- One round of the loop `drain`. -/
def Connection.turn (connection : Connection) (infoReceived : Bool) (buffer : List UInt8) :
    NatsTurn buffer :=
  if decodeUtf8 (buffer.take 4) = "MSG ".toList then consumeMessage infoReceived buffer
  else
    match found : takeLine buffer with
    | none => .wait [] infoReceived
    | some (line, rest) =>
        .take (connection.lineEffects (decodeUtf8 line))
          (infoReceived || "INFO ".toList.isPrefixOf (decodeUtf8 line)) rest (takeLine_shorter found)

/-- The parser of a new connection reads chunks one after another. -/
def Connection.pushAll (connection : Connection) (chunks : List (List UInt8)) :
    Drained UInt8 Bool NatsEffect := Library.pushAll connection.turn false [] chunks

/-! ### The frames of the server -/

inductive ServerFrame
  | info (options : List UInt8)
  | ping
  | pong
  | ok
  | msg (subject sid : List UInt8) (reply : Option (List UInt8)) (payload : List UInt8)
  deriving DecidableEq, Repr

/-- A word without white space. -/
def Token (bytes : List UInt8) : Prop := bytes ≠ [] ∧ ∀ byte ∈ bytes, byte ∉ asciiBytes [' ', '\t', '\r', '\n']

instance (bytes : List UInt8) : Decidable (Token bytes) := inferInstanceAs (Decidable (_ ∧ _))

/-- The options of a server stand on one line, and a payload has a bounded size. -/
def ServerFrame.Formed : ServerFrame → Prop
  | .info options => ¬ lineBreak <:+: options
  | .ping => True
  | .pong => True
  | .ok => True
  | .msg subject sid reply payload =>
      Token subject ∧ Token sid ∧ (∀ subject ∈ reply, Token subject) ∧ payload.length ≤ maxMessageBytes

/-- The header of a message. -/
def messageHeader (subject sid : List UInt8) (reply : Option (List UInt8)) (size : Nat) : List UInt8 :=
  [32].intercalate ([asciiBytes "MSG".toList, subject, sid] ++ reply.toList ++
    [asciiBytes (Nat.toDigits 10 size)])

def ServerFrame.encode : ServerFrame → List UInt8
  | .info options => asciiBytes "INFO ".toList ++ options ++ lineBreak
  | .ping => asciiBytes "PING\r\n".toList
  | .pong => asciiBytes "PONG\r\n".toList
  | .ok => asciiBytes "+OK\r\n".toList
  | .msg subject sid reply payload =>
      messageHeader subject sid reply payload.length ++ lineBreak ++ payload ++ lineBreak

/-- What a frame asks of the worker. -/
def ServerFrame.effects (connection : Connection) : ServerFrame → List NatsEffect
  | .info _ => [.write (connection.connectText true)]
  | .ping => [.write "PONG\r\n".toList]
  | .pong => []
  | .ok => []
  | .msg _ _ none _ => []
  | .msg _ _ (some reply) payload => [.process (decodeUtf8 payload) (decodeUtf8 reply)]

def ServerFrame.informs : ServerFrame → Bool
  | .info _ => true
  | _ => false

/-! ### Sizes -/

theorem digit_bounds {c : Char} (digit : c.isDigit = true) : 48 ≤ c.toNat ∧ c.toNat ≤ 57 := by
  have low : '0'.toNat = 48 := rfl
  have high : '9'.toNat = 57 := rfl
  rw [← low, ← high]
  simpa [Char.isDigit, UInt32.le_iff_toNat_le] using digit

theorem trimSpaces_digits {digits : List Char} (digital : ∀ c ∈ digits, c.isDigit = true) :
    trimSpaces digits = digits := by
  have visible : ∀ c ∈ digits, spaceChar c = false := by
    intro c member
    have bounds := digit_bounds (digital c member)
    simp only [spaceChar, Bool.or_eq_false_iff, Bool.and_eq_false_iff, decide_eq_false_iff_not]
    omega
  have kept : ∀ text : List Char, (∀ c ∈ text, spaceChar c = false) → text.dropWhile spaceChar = text := by
    intro text shown
    cases text with
    | nil => rfl
    | cons c rest => rw [List.dropWhile_cons, shown c (.head _)]; rfl
  rw [trimSpaces, kept digits visible, kept, List.reverse_reverse]
  exact fun c member => visible c (List.mem_reverse.mp member)

theorem readNumber_digits {digits : List Char} (some_ : digits ≠ [])
    (digital : ∀ c ∈ digits, c.isDigit = true) :
    readNumber digits = some ⟨false, Nat.ofDigitChars 10 digits 0, 0⟩ := by
  have whole : digits.takeWhile Char.isDigit = digits := List.takeWhile_eq_self_iff.mpr digital
  have none : digits.dropWhile Char.isDigit = [] := List.dropWhile_eq_nil_iff.mpr digital
  have decimal : readDecimal false digits = some ⟨false, Nat.ofDigitChars 10 digits 0, 0⟩ := by
    simp [readDecimal, whole, none, some_, readExponent]
  unfold readNumber
  rw [trimSpaces_digits digital]
  split <;> first
    | exact decimal
    | exact absurd rfl some_
    | exact absurd (digital _ (.head _)) (by decide)
    | exact absurd (digital _ (.tail _ (.head _))) (by decide)

/-- The size of a payload is read from its decimal digits. -/
theorem messageSize_toDigits {size : Nat} (bounded : size ≤ maxMessageBytes) :
    messageSize (Nat.toDigits 10 size) = some size := by
  have digital : ∀ c ∈ Nat.toDigits 10 size, c.isDigit = true :=
    fun c member => Nat.isDigit_of_mem_toDigits (by decide) (by decide) member
  have magnitude : (DecimalText.mk false size 0).safeMagnitude = some size := by
    unfold DecimalText.safeMagnitude
    split
    · rename_i zero
      exact congrArg some zero.symm
    · have small : size < safeBound := Nat.lt_of_le_of_lt bounded (by decide)
      simp [small]
  rw [messageSize, readNumber_digits Nat.toDigits_ne_nil digital, Nat.ofDigitChars_ten_toDigits]
  simp [magnitude, bounded]

/-! ### Lines -/

theorem takeLine_append {buffer line rest : List UInt8} (found : takeLine buffer = some (line, rest))
    (more : List UInt8) : takeLine (buffer ++ more) = some (line, rest ++ more) := by
  induction buffer generalizing line with
  | nil => cases found
  | cons byte buffer ih =>
      unfold takeLine at found
      rw [List.cons_append, takeLine]
      split at found
      · rename_i starts
        obtain ⟨tail, same⟩ := List.isPrefixOf_iff_prefix.mp starts
        obtain ⟨rfl, rfl⟩ := List.cons.inj same
        cases found
        rfl
      · rename_i other
        obtain ⟨parts, inner, same⟩ := Option.map_eq_some_iff.mp found
        cases same
        rw [if_neg, ih inner]
        · rfl
        · -- A line break that starts here would end in the bytes that were there already.
          intro starts
          obtain ⟨tail, same⟩ := List.isPrefixOf_iff_prefix.mp starts
          cases buffer with
          | nil => cases inner
          | cons second buffer =>
              obtain ⟨rfl, tailSame⟩ := List.cons.inj same
              obtain ⟨rfl, -⟩ := List.cons.inj tailSame
              exact other (List.isPrefixOf_iff_prefix.mpr ⟨buffer, rfl⟩)

/-- A line without a line break ends at the line break behind it. -/
theorem takeLine_line {line : List UInt8} (unbroken : ¬ lineBreak <:+: line) (rest : List UInt8) :
    takeLine (line ++ (lineBreak ++ rest)) = some (line, rest) := by
  induction line with
  | nil => rfl
  | cons byte line ih =>
      have inner : ¬ lineBreak <:+: line := fun inside => unbroken (inside.trans (List.infix_cons List.infix_rfl))
      rw [List.cons_append, takeLine, if_neg, ih inner]
      · rfl
      · intro starts
        obtain ⟨tail, same⟩ := List.isPrefixOf_iff_prefix.mp starts
        cases line with
        | nil =>
            obtain ⟨-, tailSame⟩ := List.cons.inj same
            cases (List.cons.inj tailSame).1
        | cons second line =>
            obtain ⟨rfl, tailSame⟩ := List.cons.inj same
            obtain ⟨rfl, -⟩ := List.cons.inj tailSame
            exact unbroken ⟨[], line, rfl⟩

/-- A part of a line and its break that lacks the end has no line. -/
theorem takeLine_part {line part more : List UInt8} (unbroken : ¬ lineBreak <:+: line)
    (same : part ++ more = line ++ lineBreak) (missing : more ≠ []) : takeLine part = none := by
  cases found : takeLine part with
  | none => rfl
  | some parts =>
      have whole := takeLine_line unbroken []
      rw [List.append_nil, ← same, takeLine_append found more] at whole
      have nothing : parts.2 ++ more = [] := (Prod.mk.inj (Option.some.inj whole)).2
      exact absurd (List.append_eq_nil_iff.mp nothing).2 missing

/-! ### Frames -/

variable {connection : Connection} {infoReceived : Bool}

/-- The first four bytes of a buffer are compared with the start of a message. -/
theorem decodeUtf8_front {start : List Char} (ascii : ∀ c ∈ start, c.toNat < 0x80)
    (long : start.length = 4) (rest : List UInt8) :
    decodeUtf8 ((asciiBytes start ++ rest).take 4) = start := by
  have front : (asciiBytes start ++ rest).take 4 = asciiBytes start := by
    apply List.take_left'
    rw [asciiBytes, List.length_map, long]
  rw [front, ← List.append_nil (asciiBytes start), decodeUtf8_asciiBytes ascii]
  exact List.append_nil start

/-- The worker waits where a line has not ended. -/
theorem turn_waits {buffer : List UInt8} (open_ : takeLine buffer = none) :
    connection.turn infoReceived buffer = .wait [] infoReceived := by
  have unread : ∀ found : List UInt8 × List UInt8, takeLine buffer ≠ some found := by
    intro found other
    rw [open_] at other
    cases other
  unfold Connection.turn
  split
  · unfold consumeMessage
    split
    · rfl
    · rename_i found
      exact absurd found (unread _)
  · split
    · rfl
    · rename_i found
      exact absurd found (unread _)

/-- A line that is no message is read as a whole. -/
theorem turn_line {buffer line rest : List UInt8}
    (other : decodeUtf8 (buffer.take 4) ≠ "MSG ".toList) (found : takeLine buffer = some (line, rest)) :
    (connection.turn infoReceived buffer).effects = connection.lineEffects (decodeUtf8 line) ∧
      (connection.turn infoReceived buffer).state =
        (infoReceived || "INFO ".toList.isPrefixOf (decodeUtf8 line)) ∧
          (connection.turn infoReceived buffer).left = some rest := by
  unfold Connection.turn
  rw [if_neg other]
  split
  · rename_i missing
    rw [found] at missing
    cases missing
  · rename_i here
    rw [found] at here
    cases here
    exact ⟨rfl, rfl, rfl⟩

/-- A frame of one line that does not start as a message. -/
theorem takes_line {start : List Char} (ascii : ∀ c ∈ start, c.toNat < 0x80) (long : start.length = 4)
    (other : start ≠ "MSG ".toList) {tail : List UInt8}
    (unbroken : ¬ lineBreak <:+: asciiBytes start ++ tail) (rest : List UInt8) :
    (connection.turn infoReceived (asciiBytes start ++ tail ++ lineBreak ++ rest)).effects =
        connection.lineEffects (start ++ decodeUtf8 tail) ∧
      (connection.turn infoReceived (asciiBytes start ++ tail ++ lineBreak ++ rest)).state =
        (infoReceived || "INFO ".toList.isPrefixOf (start ++ decodeUtf8 tail)) ∧
        (connection.turn infoReceived (asciiBytes start ++ tail ++ lineBreak ++ rest)).left = some rest := by
  rw [← decodeUtf8_asciiBytes ascii tail]
  apply turn_line
  · rw [List.append_assoc, List.append_assoc, decodeUtf8_front ascii long]
    exact other
  · rw [List.append_assoc]
    exact takeLine_line unbroken rest

theorem not_infix_of_absent {byte : UInt8} {needle bytes : List UInt8} (inside : byte ∈ needle)
    (absent : byte ∉ bytes) : ¬ needle <:+: bytes := fun found => absent (found.subset inside)

theorem Token.space {bytes : List UInt8} (token : Token bytes) : 32 ∉ bytes := by
  intro member
  exact token.2 _ member (by decide)

theorem Token.noReturn {bytes : List UInt8} (token : Token bytes) : 13 ∉ bytes := by
  intro member
  exact token.2 _ member (by decide)

/-- The bytes of a number lie above the white space. -/
theorem low_notMem_digits {size : Nat} {byte : UInt8} (low : byte.toNat < 48) :
    byte ∉ asciiBytes (Nat.toDigits 10 size) := by
  intro member
  obtain ⟨c, digit, rfl⟩ := List.mem_map.mp member
  have bounds := digit_bounds (Nat.isDigit_of_mem_toDigits (by decide) (by decide) digit)
  rw [UInt8.toNat_ofNat', Nat.mod_eq_of_lt (by omega)] at low
  omega

section

variable {subject sid payload : List UInt8} {reply : Option (List UInt8)}

/-- The words of a header are read back, whatever bytes they have. -/
theorem splitOn_messageHeader (formed : (ServerFrame.msg subject sid reply payload).Formed) (size : Nat) :
    (decodeUtf8 (messageHeader subject sid reply size)).splitOn ' ' =
      ["MSG".toList, decodeUtf8 subject, decodeUtf8 sid] ++ (reply.toList.map decodeUtf8 ++
        [Nat.toDigits 10 size]) := by
  obtain ⟨subjectToken, sidToken, replyToken, -⟩ := formed
  have digits : ∀ c ∈ Nat.toDigits 10 size, c.isDigit = true :=
    fun c member => Nat.isDigit_of_mem_toDigits (by decide) (by decide) member
  have decoded (text : List Char) (ascii : ∀ c ∈ text, c.toNat < 0x80) :
      decodeUtf8 (asciiBytes text) = text := by
    have whole := decodeUtf8_asciiBytes ascii []
    rwa [List.append_nil, decodeUtf8_nil, List.append_nil] at whole
  have digitsDecoded : decodeUtf8 (asciiBytes (Nat.toDigits 10 size)) = Nat.toDigits 10 size := by
    apply decoded
    intro c member
    have bounds := digit_bounds (digits c member)
    omega
  rw [messageHeader, decodeUtf8_intercalate, List.splitOn_intercalate]
  · simp only [List.map_append, List.map_cons, List.map_nil, digitsDecoded, List.append_assoc,
      decoded "MSG".toList (by decide)]
  · intro word member
    obtain ⟨bytes, inside, rfl⟩ := List.mem_map.mp member
    apply space_notMem_decodeUtf8
    simp only [List.mem_append, List.mem_cons, List.not_mem_nil, or_false, Option.mem_toList] at inside
    rcases inside with ((rfl | rfl | rfl) | replies) | rfl
    · decide
    · exact subjectToken.space
    · exact sidToken.space
    · exact (replyToken _ replies).space
    · exact low_notMem_digits (by decide)
  · simp

/-- A header stands on one line. -/
theorem messageHeader_unbroken (formed : (ServerFrame.msg subject sid reply payload).Formed) (size : Nat) :
    ¬ lineBreak <:+: messageHeader subject sid reply size := by
  obtain ⟨subjectToken, sidToken, replyToken, -⟩ := formed
  apply @not_infix_of_absent 13
  · decide
  · intro member
    have inside : 13 ∈ (32 : UInt8) :: (asciiBytes "MSG".toList ++ (subject ++ (sid ++
        (reply.toList.flatten ++ asciiBytes (Nat.toDigits 10 size))))) := by
      cases reply <;>
        simp only [messageHeader, Option.toList, List.cons_append, List.nil_append, List.append_nil,
          List.intercalate_cons_cons, List.intercalate_singleton, List.flatten_cons, List.flatten_nil,
          List.mem_append, List.mem_cons, List.not_mem_nil, or_false] at member ⊢ <;>
        grind
    simp only [List.mem_cons, List.mem_append] at inside
    rcases inside with space | word | here | here | here | here
    · cases space
    · revert word
      decide
    · exact subjectToken.noReturn here
    · exact sidToken.noReturn here
    · cases reply with
      | none => cases here
      | some bytes => exact (replyToken bytes rfl).noReturn (by simpa using here)
    · exact low_notMem_digits (by decide) here

/-- A header starts a message. -/
theorem turn_message (arrived : List UInt8) :
    connection.turn infoReceived (messageHeader subject sid reply payload.length ++ (lineBreak ++ arrived)) =
      consumeMessage infoReceived (messageHeader subject sid reply payload.length ++ (lineBreak ++ arrived)) := by
  have front : messageHeader subject sid reply payload.length =
      asciiBytes "MSG ".toList ++ [32].intercalate ([subject, sid] ++ reply.toList ++
        [asciiBytes (Nat.toDigits 10 payload.length)]) := by
    rfl
  apply if_pos
  rw [front, List.append_assoc]
  exact decodeUtf8_front (by decide) rfl _

/-- A message is read when its payload and the line break behind it have arrived. -/
theorem consumeMessage_eq (formed : (ServerFrame.msg subject sid reply payload).Formed)
    (arrived : List UInt8) {buffer : List UInt8}
    (same : buffer = messageHeader subject sid reply payload.length ++ (lineBreak ++ arrived)) :
    (arrived.length < payload.length + 2 → consumeMessage infoReceived buffer = .wait [] infoReceived) ∧
      (payload.length + 2 ≤ arrived.length →
        (consumeMessage infoReceived buffer).effects = (reply.toList.map fun reply =>
            .process (decodeUtf8 (arrived.take payload.length)) (decodeUtf8 reply)) ∧
          (consumeMessage infoReceived buffer).state = infoReceived ∧
            (consumeMessage infoReceived buffer).left = some (arrived.drop (payload.length + 2))) := by
  have found : takeLine buffer = some (messageHeader subject sid reply payload.length, arrived) := by
    rw [same]
    exact takeLine_line (messageHeader_unbroken formed _) arrived
  have size : messageSize (((decodeUtf8 (messageHeader subject sid reply payload.length)).splitOn
      ' ').getLastD []) = some payload.length := by
    rw [splitOn_messageHeader formed, ← List.append_assoc, List.getLastD_concat]
    exact messageSize_toDigits formed.2.2.2
  have replied : (if ((decodeUtf8 (messageHeader subject sid reply payload.length)).splitOn ' ').length = 5
      then ((decodeUtf8 (messageHeader subject sid reply payload.length)).splitOn ' ')[3]? else none) =
        reply.map decodeUtf8 := by
    rw [splitOn_messageHeader formed]
    cases reply <;> rfl
  unfold consumeMessage
  split
  · rename_i missing
    rw [found] at missing
    cases missing
  · rename_i header rest here
    rw [found] at here
    cases here
    dsimp only
    split
    · rename_i none
      rw [size] at none
      cases none
    · rename_i number known
      rw [size] at known
      cases known
      split
      · rename_i short
        exact ⟨fun _ => rfl, fun enough => absurd short (by omega)⟩
      · rename_i enough
        refine ⟨fun short => absurd short enough, fun _ => ⟨?_, rfl, rfl⟩⟩
        rw [replied]
        cases reply <;> rfl

end

/-- A part of a line without the end of its break is kept. -/
theorem waits_line {line part : List UInt8} (unbroken : ¬ lineBreak <:+: line)
    (start : part <+: line ++ lineBreak) (unlike : part ≠ line ++ lineBreak) :
    connection.turn infoReceived part = .wait [] infoReceived := by
  obtain ⟨more, same⟩ := start
  apply turn_waits
  apply takeLine_part unbroken same
  rintro rfl
  exact unlike (by rw [← same, List.append_nil])

/-- A part of a message is kept until its last byte has arrived. -/
theorem waits_message {subject sid payload part : List UInt8} {reply : Option (List UInt8)}
    (formed : (ServerFrame.msg subject sid reply payload).Formed)
    (start : part <+: (ServerFrame.msg subject sid reply payload).encode)
    (unlike : part ≠ (ServerFrame.msg subject sid reply payload).encode) :
    connection.turn infoReceived part = .wait [] infoReceived := by
  obtain ⟨more, same⟩ := start
  have missing : more ≠ [] := by
    rintro rfl
    exact unlike (by rw [← same, List.append_nil])
  rw [ServerFrame.encode, List.append_assoc, List.append_assoc] at same
  cases found : takeLine part with
  | none => exact turn_waits found
  | some parts =>
      obtain ⟨line, arrived⟩ := parts
      have whole := takeLine_append found more
      rw [same, takeLine_line (messageHeader_unbroken formed _)] at whole
      obtain ⟨rfl, here⟩ := Prod.mk.inj (Option.some.inj whole)
      have short : arrived.length < payload.length + 2 := by
        have length := congrArg List.length here
        have positive := List.length_pos_iff.mpr missing
        simp only [List.length_append, lineBreak, asciiBytes, List.map_cons, List.map_nil, List.length_cons,
          List.length_nil] at length
        omega
      rw [takeLine_some found, turn_message]
      exact (consumeMessage_eq formed arrived rfl).1 short

/-- The reader takes each frame as a whole, and it waits on a part of a frame. -/
theorem turn_framing (connection : Connection) :
    Framing connection.turn ServerFrame.encode (ServerFrame.effects connection)
      (fun infoReceived frame => infoReceived || frame.informs) ServerFrame.Formed where
  takes := by
    intro frame formed infoReceived rest
    cases frame with
    | info options =>
        have unbroken : ¬ lineBreak <:+: asciiBytes "INFO".toList ++ (32 :: options) := by
          have front : asciiBytes "INFO".toList ++ (32 :: options) = asciiBytes "INFO ".toList ++ options := rfl
          rw [front, lineBreak, asciiBytes, List.map_cons, infix_append_of_notMem (by decide)]
          exact formed
        have decoded : "INFO".toList ++ decodeUtf8 (32 :: options) = "INFO ".toList ++ decodeUtf8 options :=
          congrArg ("INFO".toList ++ ·) (decodeUtf8_space [] options)
        have starts : "INFO ".toList.isPrefixOf ("INFO ".toList ++ decodeUtf8 options) = true :=
          List.isPrefixOf_iff_prefix.mpr (List.prefix_append ..)
        have taken := @takes_line connection infoReceived "INFO".toList (by decide) rfl (by decide)
          (32 :: options) unbroken rest
        rw [decoded, Connection.lineEffects, if_pos starts, starts] at taken
        exact taken
    | ping => exact @takes_line connection infoReceived "PING".toList (by decide) rfl (by decide) [] (by decide) rest
    | pong => exact @takes_line connection infoReceived "PONG".toList (by decide) rfl (by decide) [] (by decide) rest
    | ok =>
        have front : (ServerFrame.ok.encode ++ rest).take 4 = asciiBytes "+OK\r".toList := rfl
        have other : decodeUtf8 ((ServerFrame.ok.encode ++ rest).take 4) ≠ "MSG ".toList := by
          rw [front]
          decide
        exact @turn_line connection infoReceived _ (asciiBytes "+OK".toList) rest other rfl
    | msg subject sid reply payload =>
        have shape : (ServerFrame.msg subject sid reply payload).encode ++ rest =
            messageHeader subject sid reply payload.length ++ (lineBreak ++ (payload ++ (lineBreak ++ rest))) := by
          simp only [ServerFrame.encode, List.append_assoc]
        have enough : payload.length + 2 ≤ (payload ++ (lineBreak ++ rest)).length := by
          simp [lineBreak, asciiBytes]
        have read := (@consumeMessage_eq infoReceived subject sid payload reply formed _ _ rfl).2 enough
        rw [shape, turn_message]
        have dropped : (payload ++ (lineBreak ++ rest)).drop (payload.length + 2) = rest := by
          rw [← List.append_assoc]
          exact List.drop_left' (by simp [lineBreak, asciiBytes])
        rw [List.take_left, dropped] at read
        refine ⟨?_, ?_, read.2.2⟩
        · rw [read.1]
          cases reply <;> rfl
        · rw [read.2.1]
          exact (Bool.or_false _).symm
  waits := by
    intro frame formed infoReceived part start unlike
    have waiting : connection.turn infoReceived part = .wait [] infoReceived := by
      cases frame with
      | info options =>
          have unbroken : ¬ lineBreak <:+: asciiBytes "INFO ".toList ++ options := by
            rw [lineBreak, asciiBytes, List.map_cons, infix_append_of_notMem (by decide)]
            exact formed
          exact waits_line unbroken start unlike
      | ping => exact @waits_line connection infoReceived (asciiBytes "PING".toList) part (by decide) start unlike
      | pong => exact @waits_line connection infoReceived (asciiBytes "PONG".toList) part (by decide) start unlike
      | ok => exact @waits_line connection infoReceived (asciiBytes "+OK".toList) part (by decide) start unlike
      | msg subject sid reply payload => exact waits_message formed start unlike
    rw [waiting]
    exact ⟨rfl, rfl, rfl⟩
  idles := by
    intro infoReceived
    exact ⟨rfl, rfl, rfl⟩

theorem ServerFrame.encode_ne_nil (frame : ServerFrame) : frame.encode ≠ [] := by
  cases frame <;> simp [ServerFrame.encode, asciiBytes, lineBreak]

/-- However the bytes of the frames are cut into chunks, the worker does what the frames ask, in their
order. At each point the buffer holds the bytes of the frame that has not ended. -/
theorem push_chunks (connection : Connection) {frames : List ServerFrame}
    (formed : ∀ frame ∈ frames, frame.Formed) (chunks : List (List UInt8)) :
    (chunks.flatten = frames.flatMap ServerFrame.encode → connection.pushAll chunks =
        ⟨frames.flatMap (ServerFrame.effects connection), frames.any ServerFrame.informs, []⟩) ∧
      ∀ unread, chunks.flatten ++ unread = frames.flatMap ServerFrame.encode →
        ∃ done rest part, frames = done ++ rest ∧ chunks.flatten = done.flatMap ServerFrame.encode ++ part ∧
          Unfinished ServerFrame.encode rest part ∧ connection.pushAll chunks =
            ⟨done.flatMap (ServerFrame.effects connection), done.any ServerFrame.informs, part⟩ := by
  have informed (frames : List ServerFrame) (infoReceived : Bool) :
      frames.foldl (fun infoReceived frame => infoReceived || frame.informs) infoReceived =
        (infoReceived || frames.any ServerFrame.informs) := by
    induction frames generalizing infoReceived with
    | nil => simp
    | cons frame frames ih => rw [List.foldl_cons, ih, List.any_cons, Bool.or_assoc]
  constructor
  · intro stream
    have pushed := (turn_framing connection).pushAll_whole (fun frame _ => frame.encode_ne_nil) formed
      false stream
    rw [informed] at pushed
    exact pushed
  · intro unread stream
    have start : Unfinished ServerFrame.encode frames [] :=
      unfinished_nil fun frame _ => frame.encode_ne_nil
    obtain ⟨done, rest, part, split, read, unfinished, pushed⟩ :=
      (turn_framing connection).pushAll_frames formed false chunks stream start
    rw [informed] at pushed
    exact ⟨done, rest, part, split, read, unfinished, pushed⟩

def exampleConnection : Connection := ⟨some "pi", some "secret", none, none⟩

def exampleFrames : List ServerFrame :=
  [.info (asciiBytes "\x7b\x7d".toList), .ping,
    .msg (asciiBytes "pitools.pi.requests".toList) (asciiBytes "1".toList) (some (asciiBytes "_INBOX.7".toList))
      (asciiBytes "MSG 1\r\n".toList)]

/-- A payload that looks like a message header arrives in chunks of seven bytes. -/
theorem example_chunks : (exampleConnection.pushAll ((exampleFrames.flatMap ServerFrame.encode).toChunks 7)).effects =
    [.write (exampleConnection.connectText true), .write "PONG\r\n".toList,
      .process "MSG 1\r\n".toList "_INBOX.7".toList] := by
  have formed : ∀ frame ∈ exampleFrames, frame.Formed := by
    have replies : ∀ reply ∈ some (asciiBytes "_INBOX.7".toList), Token reply := by
      intro reply same
      cases same
      decide +kernel
    have options : ¬ lineBreak <:+: asciiBytes "\x7b\x7d".toList := by decide +kernel
    simp only [exampleFrames, List.forall_mem_cons, List.not_mem_nil, false_implies, implies_true, and_true]
    exact ⟨options, trivial, by decide +kernel, by decide +kernel, replies, by decide +kernel⟩
  rw [(push_chunks exampleConnection formed _).1]
  · rfl
  · decide

end PiTools.PiWorker
