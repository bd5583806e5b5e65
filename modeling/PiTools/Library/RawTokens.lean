import PiTools.Library.JsonRead
import PiTools.Library.JsonSearch

/-
This file takes the text of a JSON value apart into the texts of its tokens,
where what stands between the quotation marks of a string can be changed.
-/

namespace Library

/-- The text of a token, with what stands between the quotation marks of a string. -/
inductive RawToken
  | sign (c : Char)
  | scalar (value : Json)
  | quoted (body : List Char)

def RawToken.text : RawToken → List Char
  | .sign c => [c]
  | .scalar value => value.text
  | .quoted body => '\x22' :: (body ++ ['\x22'])

def rawText (tokens : List RawToken) : List Char := tokens.flatMap RawToken.text

def RawToken.mapBody (change : List Char → List Char) : RawToken → RawToken
  | .quoted body => .quoted (change body)
  | token => token

/-- What stands between the quotation marks. -/
def RawToken.body? : RawToken → Option (List Char)
  | .quoted body => some body
  | _ => none

/-- A token whose string has a body of its own. -/
def JsonToken.rawWith (body : String → List Char) : JsonToken → RawToken
  | .sign c => .sign c
  | .scalar value => .scalar value
  | .string value => .quoted (body value)

def JsonToken.raw (token : JsonToken) : RawToken := token.rawWith fun value => escapedText value.toList

def JsonToken.string? : JsonToken → Option String
  | .string value => some value
  | _ => none

def JsonToken.mapString (change : String → String) : JsonToken → JsonToken
  | .string value => .string (change value)
  | token => token

section

variable {change : List Char → List Char} {tokens : List RawToken}

@[simp] theorem rawText_nil : rawText [] = [] := rfl

@[simp] theorem rawText_cons (token : RawToken) : rawText (token :: tokens) = token.text ++ rawText tokens :=
  List.flatMap_cons

@[simp] theorem rawText_append (first second : List RawToken) :
    rawText (first ++ second) = rawText first ++ rawText second := List.flatMap_append

theorem rawText_quoted (body : List Char) :
    rawText (.quoted body :: tokens) = '\x22' :: (body ++ '\x22' :: rawText tokens) := by
  rw [rawText_cons, RawToken.text, List.cons_append, List.append_assoc, List.singleton_append]

theorem filterMap_body_quoted (body : List Char) :
    (RawToken.quoted body :: tokens).filterMap RawToken.body? = body :: tokens.filterMap RawToken.body? := rfl

theorem mapBody_rawWith (body : String → List Char) (tokens : List JsonToken) :
    (tokens.map (JsonToken.rawWith body)).map (RawToken.mapBody change) =
      tokens.map (JsonToken.rawWith fun value => change (body value)) := by
  rw [List.map_map]
  apply List.map_congr_left
  intro token _
  cases token <;> rfl

theorem rawWith_congr {first second : String → List Char} {tokens : List JsonToken}
    (same : ∀ value ∈ tokens.filterMap JsonToken.string?, first value = second value) :
    tokens.map (JsonToken.rawWith first) = tokens.map (JsonToken.rawWith second) := by
  apply List.map_congr_left
  intro token member
  cases token with
  | sign c => rfl
  | scalar value => rfl
  | string value => exact congrArg RawToken.quoted (same value (List.mem_filterMap.mpr ⟨_, member, rfl⟩))

theorem filterMap_body_rawWith (body : String → List Char) (tokens : List JsonToken) :
    (tokens.map (JsonToken.rawWith body)).filterMap RawToken.body? = (tokens.filterMap JsonToken.string?).map body := by
  rw [List.filterMap_map, List.map_filterMap]
  apply List.filterMap_congr
  intro token _
  cases token <;> rfl

theorem rawWith_mapString (change : String → String) (tokens : List JsonToken) :
    (tokens.map (JsonToken.mapString change)).map JsonToken.raw =
      tokens.map (JsonToken.rawWith fun value => escapedText (change value).toList) := by
  rw [List.map_map]
  apply List.map_congr_left
  intro token _
  cases token <;> rfl

end

theorem stringText_raw (value : String) : stringText value = (JsonToken.string value).raw.text := by
  rw [stringText, escapeText_eq]
  rfl

/-! ### The tokens of a value -/

mutual
/-- The text of a value is the one of its tokens. -/
theorem Json.rawText_tokens : ∀ value : Json, rawText (value.tokens.map JsonToken.raw) = value.text
  | .null => rfl
  | .bool true => rfl
  | .bool false => rfl
  | .number value => List.append_nil value.text
  | .string value => by
      rw [Json.tokens, List.map_singleton, rawText_cons, rawText_nil, List.append_nil, ← stringText_raw, Json.text]
  | .array items => by
      rw [Json.tokens, List.map_cons, rawText_cons, rawText_itemsTokens items, Json.text]
      rfl
  | .object fields => by
      rw [Json.tokens, List.map_cons, rawText_cons, rawText_fieldsTokens fields, Json.text]
      rfl

theorem rawText_itemsTokens : ∀ items : List Json, rawText ((itemsTokens items).map JsonToken.raw) = itemsText items
  | [] => rfl
  | item :: rest => by
      rw [itemsTokens, List.map_append, rawText_append, item.rawText_tokens, rawText_moreItemsTokens rest, itemsText]

theorem rawText_moreItemsTokens : ∀ items : List Json,
    rawText ((moreItemsTokens items).map JsonToken.raw) = moreItemsText items
  | [] => rfl
  | item :: rest => by
      rw [moreItemsTokens, List.map_cons, List.map_append, rawText_cons, rawText_append, item.rawText_tokens,
        rawText_moreItemsTokens rest, moreItemsText]
      rfl

theorem rawText_fieldsTokens : ∀ fields : List (String × Json),
    rawText ((fieldsTokens fields).map JsonToken.raw) = fieldsText fields
  | [] => rfl
  | (key, value) :: rest => by
      rw [fieldsTokens, List.map_cons, List.map_cons, List.map_append, rawText_cons, rawText_cons, rawText_append,
        value.rawText_tokens, rawText_moreFieldsTokens rest, ← stringText_raw, fieldsText]
      rfl

theorem rawText_moreFieldsTokens : ∀ fields : List (String × Json),
    rawText ((moreFieldsTokens fields).map JsonToken.raw) = moreFieldsText fields
  | [] => rfl
  | (key, value) :: rest => by
      rw [moreFieldsTokens, List.map_cons, List.map_cons, List.map_cons, List.map_append, rawText_cons, rawText_cons,
        rawText_cons, rawText_append, value.rawText_tokens, rawText_moreFieldsTokens rest, ← stringText_raw,
        moreFieldsText]
      rfl
end

/-- The strings of the items follow each other. -/
theorem itemsTokens_strings (items : List Json) : (itemsTokens items).filterMap JsonToken.string? =
    items.flatMap fun item => item.tokens.filterMap JsonToken.string? := by
  have more (items : List Json) : (moreItemsTokens items).filterMap JsonToken.string? =
      items.flatMap fun item => item.tokens.filterMap JsonToken.string? := by
    induction items with
    | nil => rfl
    | cons item rest ih =>
        rw [moreItemsTokens, List.filterMap_cons_none rfl, List.filterMap_append, ih, List.flatMap_cons]
  cases items with
  | nil => rfl
  | cons item rest => rw [itemsTokens, List.filterMap_append, more, List.flatMap_cons]

/-- The strings of the items are changed when those of each item are. -/
theorem itemsTokens_mapString {Item : Type} {change : String → String} {toValue : Item → Json} {changed : Item → Item}
    (each : ∀ item, (toValue (changed item)).tokens = (toValue item).tokens.map (JsonToken.mapString change))
    (items : List Item) : itemsTokens ((items.map changed).map toValue) =
      (itemsTokens (items.map toValue)).map (JsonToken.mapString change) := by
  have more (items : List Item) : moreItemsTokens ((items.map changed).map toValue) =
      (moreItemsTokens (items.map toValue)).map (JsonToken.mapString change) := by
    induction items with
    | nil => rfl
    | cons item rest ih =>
        simp only [List.map_cons, moreItemsTokens, List.map_append, ih, each, JsonToken.mapString]
  cases items with
  | nil => rfl
  | cons item rest => simp only [List.map_cons, itemsTokens, List.map_append, more, each]

theorem stringTokens_mapString (change : String → String) (value : String) :
    (Json.string (change value)).tokens = (Json.string value).tokens.map (JsonToken.mapString change) := rfl

theorem numberTokens_mapString (change : String → String) (value : Number) :
    (Json.number value).tokens = (Json.number value).tokens.map (JsonToken.mapString change) := rfl

/-- The keys and the strings of the fields follow each other. -/
theorem fieldsTokens_strings (fields : List (String × Json)) : (fieldsTokens fields).filterMap JsonToken.string? =
    fields.flatMap fun field => field.1 :: field.2.tokens.filterMap JsonToken.string? := by
  have more (fields : List (String × Json)) : (moreFieldsTokens fields).filterMap JsonToken.string? =
      fields.flatMap fun field => field.1 :: field.2.tokens.filterMap JsonToken.string? := by
    induction fields with
    | nil => rfl
    | cons field rest ih =>
        rw [List.flatMap_cons, ← ih]
        change field.1 :: (field.2.tokens ++ moreFieldsTokens rest).filterMap _ = _
        rw [List.filterMap_append, List.cons_append]
  cases fields with
  | nil => rfl
  | cons field rest =>
      rw [List.flatMap_cons, ← more]
      change field.1 :: (field.2.tokens ++ moreFieldsTokens rest).filterMap _ = _
      rw [List.filterMap_append, List.cons_append]

/-- The strings of the fields are changed when the key and the strings of each field are. -/
theorem fieldsTokens_mapString {change : String → String} {fields changed : List (String × Json)}
    (each : List.Forall₂ (fun field other => other.1 = change field.1 ∧
      other.2.tokens = field.2.tokens.map (JsonToken.mapString change)) fields changed) :
    fieldsTokens changed = (fieldsTokens fields).map (JsonToken.mapString change) := by
  have more {fields changed : List (String × Json)} (each : List.Forall₂ (fun field other =>
      other.1 = change field.1 ∧ other.2.tokens = field.2.tokens.map (JsonToken.mapString change)) fields changed) :
      moreFieldsTokens changed = (moreFieldsTokens fields).map (JsonToken.mapString change) := by
    induction each with
    | nil => rfl
    | cons here later ih =>
        simp only [moreFieldsTokens, List.map_cons, List.map_append, ih, here, JsonToken.mapString]
  cases each with
  | nil => rfl
  | cons here later =>
      simp only [fieldsTokens, List.map_cons, List.map_append, more later, here, JsonToken.mapString]

/-- A token outside of the strings uses the symbols of JSON only. -/
def RawToken.Plain : RawToken → Prop
  | .sign c => c ∈ symbols
  | .scalar value => ∀ c ∈ value.text, c ∈ symbols
  | .quoted _ => True

theorem rawWith_plain {token : JsonToken} (plain : token.raw.Plain) (body : String → List Char) :
    (token.rawWith body).Plain := by
  cases token with
  | sign c => exact plain
  | scalar value => exact plain
  | string value => trivial

theorem sign_plain {c : Char} (sign : jsonSign c = true) : (JsonToken.sign c).raw.Plain := by
  have signs : ∀ d ∈ ['[', ']', '\x7b', '\x7d', ':', ','], d ∈ symbols := by decide
  exact signs c (by simpa [jsonSign] using sign)

mutual
theorem Json.tokens_plain : ∀ (value : Json), ∀ token ∈ value.tokens, token.raw.Plain
  | .null => List.forall_mem_singleton.mpr (show ∀ c ∈ Json.null.text, c ∈ symbols by decide)
  | .bool true => List.forall_mem_singleton.mpr (show ∀ c ∈ (Json.bool true).text, c ∈ symbols by decide)
  | .bool false => List.forall_mem_singleton.mpr (show ∀ c ∈ (Json.bool false).text, c ∈ symbols by decide)
  | .number value =>
      List.forall_mem_singleton.mpr fun _ member => numberChar_symbols (value.text_numberChar member)
  | .string _ => List.forall_mem_singleton.mpr trivial
  | .array items => List.forall_mem_cons.mpr ⟨sign_plain (by decide), itemsTokens_plain items⟩
  | .object fields => List.forall_mem_cons.mpr ⟨sign_plain (by decide), fieldsTokens_plain fields⟩

theorem itemsTokens_plain : ∀ (items : List Json), ∀ token ∈ itemsTokens items, token.raw.Plain
  | [] => List.forall_mem_singleton.mpr (sign_plain (by decide))
  | item :: rest => List.forall_mem_append.mpr ⟨item.tokens_plain, moreItemsTokens_plain rest⟩

theorem moreItemsTokens_plain : ∀ (items : List Json), ∀ token ∈ moreItemsTokens items, token.raw.Plain
  | [] => List.forall_mem_singleton.mpr (sign_plain (by decide))
  | item :: rest => List.forall_mem_cons.mpr ⟨sign_plain (by decide),
      List.forall_mem_append.mpr ⟨item.tokens_plain, moreItemsTokens_plain rest⟩⟩

theorem fieldsTokens_plain : ∀ (fields : List (String × Json)), ∀ token ∈ fieldsTokens fields, token.raw.Plain
  | [] => List.forall_mem_singleton.mpr (sign_plain (by decide))
  | (_, value) :: rest => List.forall_mem_cons.mpr ⟨trivial, List.forall_mem_cons.mpr ⟨sign_plain (by decide),
      List.forall_mem_append.mpr ⟨value.tokens_plain, moreFieldsTokens_plain rest⟩⟩⟩

theorem moreFieldsTokens_plain : ∀ (fields : List (String × Json)), ∀ token ∈ moreFieldsTokens fields,
    token.raw.Plain
  | [] => List.forall_mem_singleton.mpr (sign_plain (by decide))
  | (_, value) :: rest => List.forall_mem_cons.mpr ⟨sign_plain (by decide), List.forall_mem_cons.mpr ⟨trivial,
      List.forall_mem_cons.mpr ⟨sign_plain (by decide),
        List.forall_mem_append.mpr ⟨value.tokens_plain, moreFieldsTokens_plain rest⟩⟩⟩⟩
end

/-! ### Dull texts -/

/-- The text is made of the symbols of JSON up to its first quotation mark. -/
def Dull (text : List Char) : Prop := ∀ c ∈ text.takeWhile (· ≠ '\x22'), c ∈ symbols

theorem dull_quote (rest : List Char) : Dull ('\x22' :: rest) := by
  intro c member
  rw [List.takeWhile_cons_of_neg (by decide)] at member
  cases member

theorem Dull.append {front back : List Char} (dull : Dull back) (symbolic : ∀ c ∈ front, c ∈ symbols) :
    Dull (front ++ back) := by
  intro c member
  rw [List.takeWhile_append] at member
  split at member
  · rcases List.mem_append.mp member with inside | behind
    · exact symbolic c inside
    · exact dull c behind
  · exact symbolic c ((List.takeWhile_sublist _).subset member)

theorem rawText_dull {tokens : List RawToken} (plain : ∀ token ∈ tokens, token.Plain) : Dull (rawText tokens) := by
  induction tokens with
  | nil =>
      intro c member
      cases member
  | cons token rest ih =>
      obtain ⟨here, later⟩ := List.forall_mem_cons.mp plain
      cases token with
      | sign d => exact (ih later).append (List.forall_mem_singleton.mpr here)
      | scalar value => exact (ih later).append here
      | quoted body =>
          rw [rawText_quoted]
          exact dull_quote _

/-- A word with a letter that is no symbol does not start a dull text. -/
theorem Dull.not_starts {text word : List Char} (dull : Dull text) (plain : '\x22' ∉ word)
    (foreign : ∃ c ∈ word, c ∉ symbols) : ¬ word <+: text := by
  rintro ⟨rest, rfl⟩
  obtain ⟨c, member, other⟩ := foreign
  have all : ∀ d ∈ word, decide (d ≠ '\x22') = true := by
    intro d inside
    rw [decide_eq_true_eq]
    rintro rfl
    exact plain inside
  apply other
  apply dull
  rw [List.takeWhile_append_of_pos all]
  exact List.mem_append_left _ member

end Library
