import PiTools.Library.Json
import PiTools.Library.Replace
import PiTools.Library.Text

/-
This file defines the redaction of secrets in the Pi worker. A regular expression
is the finder of its matches.
-/

namespace PiTools.PiWorker

open Library

def redactedMark : List Char := "[REDACTED]".toList

/-! ### Character classes -/

/-- The class `\w`. -/
def wordChar (c : Char) : Bool := c.isAlphanum || c = '_'

/-- The class `[A-Za-z0-9_-]`. -/
def dashChar (c : Char) : Bool := wordChar c || c = '-'

/-- The class `[A-Za-z0-9._~+/=-]`. -/
def bearerChar (c : Char) : Bool := dashChar c || c ∈ ['.', '~', '+', '/', '=']

/-- The class `[0-9A-Z]`. -/
def keyChar (c : Char) : Bool := c.isDigit || c.isUpper

/-- The class `[A-Z0-9 ]`. -/
def labelChar (c : Char) : Bool := keyChar c || c = ' '

/-- The class `\s`. -/
def spaceChar (c : Char) : Bool :=
  let code := c.toNat
  (9 ≤ code && code ≤ 13) || code = 32 || code = 160 || code = 5760 ||
    (8192 ≤ code && code ≤ 8202) || code = 8232 || code = 8233 || code = 8239 || code = 8287 ||
    code = 12288 || code = 65279

/-- No word goes on at the position. -/
def wordStarts (previous : Option Char) : Bool := previous.all fun c => !wordChar c

/-! ### Patterns -/

/-- The longest run of a class that ends at a word boundary, if it is long enough. A run only
stops in front of a character outside of its class, so its last word character ends it. -/
def boundedRun (inClass : Char → Bool) (atLeast : Nat) (text : List Char) : Option Nat :=
  let run := ((text.takeWhile inClass).reverse.dropWhile fun c => !wordChar c).length
  if max atLeast 1 ≤ run then some run else none

/-- A marker at the start of a word and something after it. -/
def markedSecret (marker tail : List Char → Option Nat) : Finder Char := fun previous text =>
  if wordStarts previous then
    (marker text).bind fun marked => (tail (text.drop marked)).map fun rest => (0, marked + rest)
  else none

/-- One of some literal markers. -/
def literalMarker (markers : List String) (text : List Char) : Option Nat :=
  (markers.find? fun marker => marker.toList.isPrefixOf text).map fun marker => marker.toList.length

/-- The pattern `\bgh[pousr]_[A-Za-z0-9_-]+\b`. -/
def gitHubToken : Finder Char :=
  markedSecret (literalMarker ["ghp_", "gho_", "ghu_", "ghs_", "ghr_"]) (boundedRun dashChar 1)

/-- The pattern `\bgithub_pat_[A-Za-z0-9_]+\b`. -/
def gitHubPat : Finder Char :=
  markedSecret (literalMarker ["github_pat_"]) (boundedRun wordChar 1)

/-- The pattern `\bsk-[A-Za-z0-9_-]{8,}\b`. -/
def skKey : Finder Char := markedSecret (literalMarker ["sk-"]) (boundedRun dashChar 8)

/-- The pattern `\bBearer\s+[A-Za-z0-9._~+/=-]+\b` in any case. -/
def bearerToken : Finder Char :=
  markedSecret
    (fun text => if asciiLowercase (text.take 6) = "bearer".toList then some 6 else none)
    fun text =>
      let spaces := (text.takeWhile spaceChar).length
      if spaces = 0 then none
      else (boundedRun bearerChar 1 (text.drop spaces)).map fun run => spaces + run

/-- The pattern `\bAKIA[0-9A-Z]{16}\b`. -/
def accessKey : Finder Char :=
  markedSecret (literalMarker ["AKIA"]) fun text =>
    if 16 ≤ text.length ∧ (text.take 16).all keyChar ∧ (text.drop 16).head?.all (fun c => !wordChar c)
    then some 16 else none

/-- The pattern `\bnpm_[A-Za-z0-9_-]{10,}\b`. -/
def npmToken : Finder Char := markedSecret (literalMarker ["npm_"]) (boundedRun dashChar 10)

/-- The part `[A-Za-z0-9_-]{8,}\.` of a web token. -/
def dottedRun (text : List Char) : Option Nat :=
  let run := (text.takeWhile dashChar).length
  if 8 ≤ run ∧ (text.drop run).head? = some '.' then some (run + 1) else none

/-- The pattern `\beyJ[A-Za-z0-9_-]{8,}\.[A-Za-z0-9_-]{8,}\.[A-Za-z0-9_-]{8,}\b`. -/
def webToken : Finder Char :=
  markedSecret (literalMarker ["eyJ"]) fun text =>
    (dottedRun text).bind fun header =>
      (dottedRun (text.drop header)).bind fun payload =>
        (boundedRun dashChar 8 (text.drop (header + payload))).map fun signature =>
          header + payload + signature

/-- The line `-----BEGIN [A-Z0-9 ]+-----`, or the one that starts with `-----END `. -/
def pemLine (start : String) (text : List Char) : Option Nat :=
  (stripPrefix start.toList text).bind fun rest =>
    let label := (rest.takeWhile labelChar).length
    if 1 ≤ label ∧ "-----".toList.isPrefixOf (rest.drop label) then
      some (start.toList.length + label + 5)
    else none

/-- The end of the first match in a text. -/
def firstEnd (matching : List Char → Option Nat) : List Char → Option Nat
  | [] => matching []
  | c :: rest => (matching (c :: rest)).orElse fun _ => (firstEnd matching rest).map (· + 1)

/-- The pattern `-----BEGIN [A-Z0-9 ]+-----[\s\S]*?-----END [A-Z0-9 ]+-----`. -/
def pemBlock : Finder Char := fun _ text =>
  (pemLine "-----BEGIN " text).bind fun header =>
    (firstEnd (pemLine "-----END ") (text.drop header)).map fun body => (0, header + body)

def secretPatterns : List (Finder Char) :=
  [gitHubToken, gitHubPat, skKey, bearerToken, accessKey, npmToken, webToken, pemBlock]

/-- The words `authorization|api[_-]?key|password|private[_-]?key|secret|token`. -/
def sensitiveWords : List String :=
  ["authorization", "apikey", "api_key", "api-key", "password", "privatekey", "private_key",
    "private-key", "secret", "token"]

def sensitiveKey (key : String) : Bool :=
  sensitiveWords.any fun word => containsText word.toList (asciiLowercase key.toList)

/-- The class `[\s,;]`. -/
def endsAssignment (c : Char) : Bool := spaceChar c || c = ',' || c = ';'

/-- A sensitive word, a colon or an equals sign with spaces around it, and a value. Only the value
is replaced. -/
def sensitiveAssignment : Finder Char := fun previous text =>
  if wordStarts previous then
    (literalMarker sensitiveWords (asciiLowercase text)).bind fun word =>
      let before := ((text.drop word).takeWhile spaceChar).length
      match text.drop (word + before) with
      | sign :: rest =>
          let after := (rest.takeWhile spaceChar).length
          let value := ((rest.drop after).takeWhile fun c => !endsAssignment c).length
          if (sign = ':' ∨ sign = '=') ∧ 1 ≤ value then some (word + before + 1 + after, value)
          else none
      | [] => none
  else none

/-! ### Redaction -/

def redactText (text : List Char) : List Char :=
  replaceAll sensitiveAssignment redactedMark
    (secretPatterns.foldl (fun redacted pattern => replaceAll pattern redactedMark redacted) text)

def redactString (value : String) : String := String.ofList (redactText value.toList)

mutual
def redactValue : Json → Json
  | .string value => .string (redactString value)
  | .array items => .array (redactItems items)
  | .object fields => .object (redactFields fields)
  | value => value

def redactItems : List Json → List Json
  | [] => []
  | item :: rest => redactValue item :: redactItems rest

def redactFields : List (String × Json) → List (String × Json)
  | [] => []
  | (key, item) :: rest =>
      (key, if sensitiveKey key then .string (String.ofList redactedMark) else redactValue item) ::
        redactFields rest
end

def redactSecrets (value : Json) : Json := redactValue value

example : redactString "token ghp_1234567890 leaked; key sk-abcdefghijklmnop" =
    "token [REDACTED] leaked; key [REDACTED]" := by decide +kernel

/-! ### The matches lie in the text -/

/-- The length that a part answers lies in its text. -/
def Within (part : List Char → Option Nat) : Prop :=
  ∀ text length, part text = some length → length ≤ text.length

section Matches

variable {text : List Char}

theorem takeWhile_length_le (inClass : Char → Bool) (text : List Char) :
    (text.takeWhile inClass).length ≤ text.length :=
  (List.takeWhile_sublist inClass).length_le

theorem boundedRun_within (inClass : Char → Bool) (atLeast : Nat) :
    Within (boundedRun inClass atLeast) := by
  intro text length found
  simp only [boundedRun] at found
  split at found
  · cases found
    have := (List.dropWhile_sublist (fun c => !wordChar c)
      (l := (text.takeWhile inClass).reverse)).length_le
    rw [List.length_reverse] at this
    exact this.trans (takeWhile_length_le inClass text)
  · cases found

theorem literalMarker_prefix {markers : List String} {length : Nat}
    (found : literalMarker markers text = some length) :
    ∃ marker ∈ markers, marker.toList <+: text ∧ length = marker.toList.length := by
  obtain ⟨marker, chosen, rfl⟩ := Option.map_eq_some_iff.mp found
  have starts := List.find?_some chosen
  exact ⟨marker, List.mem_of_find?_eq_some chosen, List.isPrefixOf_iff_prefix.mp starts, rfl⟩

theorem literalMarker_within (markers : List String) : Within (literalMarker markers) := by
  intro text length found
  obtain ⟨marker, -, starts, rfl⟩ := literalMarker_prefix found
  exact starts.length_le

/-- A marked secret starts with its marker. -/
theorem markedSecret_spec {marker tail : List Char → Option Nat} {previous : Option Char}
    {kept replaced : Nat} (found : markedSecret marker tail previous text = some (kept, replaced)) :
    ∃ marked rest, marker text = some marked ∧ tail (text.drop marked) = some rest ∧
      kept = 0 ∧ replaced = marked + rest := by
  unfold markedSecret at found
  split at found
  · obtain ⟨marked, first, later⟩ := Option.bind_eq_some_iff.mp found
    obtain ⟨rest, second, same⟩ := Option.map_eq_some_iff.mp later
    cases same
    exact ⟨marked, rest, first, second, rfl, rfl⟩
  · cases found

theorem markedSecret_sound {marker tail : List Char → Option Nat} (markerWithin : Within marker)
    (tailWithin : Within tail) (positive : ∀ text length, marker text = some length → 0 < length) :
    (markedSecret marker tail).Sound := by
  intro previous text kept replaced found
  obtain ⟨marked, rest, first, second, rfl, rfl⟩ := markedSecret_spec found
  have inMarker := markerWithin text marked first
  have inTail := tailWithin _ rest second
  have := positive text marked first
  rw [List.length_drop] at inTail
  omega

theorem literalMarker_positive {markers : List String} (visible : ∀ marker ∈ markers, marker ≠ "")
    (text : List Char) (length : Nat) (found : literalMarker markers text = some length) :
    0 < length := by
  obtain ⟨marker, member, -, rfl⟩ := literalMarker_prefix found
  rw [List.length_pos_iff, Ne, String.toList_eq_nil_iff]
  exact visible marker member

theorem dottedRun_within : Within dottedRun := by
  intro text length found
  simp only [dottedRun] at found
  split at found
  · rename_i dotted
    cases found
    have inside := takeWhile_length_le dashChar text
    by_contra long
    have empty : text.drop (text.takeWhile dashChar).length = [] := List.drop_eq_nil_of_le (by omega)
    rw [empty] at dotted
    cases dotted.2
  · cases found

theorem pemLine_within (start : String) : Within (pemLine start) := by
  intro text length found
  obtain ⟨rest, stripped, later⟩ := Option.bind_eq_some_iff.mp found
  unfold stripPrefix at stripped
  split at stripped
  · rename_i starts
    cases stripped
    dsimp only at later
    split at later
    · rename_i dashes
      cases later
      have front := (List.isPrefixOf_iff_prefix.mp starts).length_le
      have back := (List.isPrefixOf_iff_prefix.mp dashes.2).length_le
      rw [List.length_drop, List.length_drop] at back
      have five : "-----".toList.length = 5 := rfl
      omega
    · cases later
  · cases stripped

theorem firstEnd_within {matching : List Char → Option Nat} (within : Within matching) :
    Within (firstEnd matching) := by
  intro text
  induction text with
  | nil => exact within []
  | cons c rest ih =>
      intro length found
      rw [firstEnd] at found
      cases here : matching (c :: rest) with
      | some length' =>
          rw [here] at found
          cases found
          exact within _ _ here
      | none =>
          rw [here] at found
          obtain ⟨later, matched, rfl⟩ := Option.map_eq_some_iff.mp found
          have := ih later matched
          simpa using this

theorem pemBlock_spec {previous : Option Char} {kept replaced : Nat}
    (found : pemBlock previous text = some (kept, replaced)) :
    ∃ header body, pemLine "-----BEGIN " text = some header ∧
      firstEnd (pemLine "-----END ") (text.drop header) = some body ∧
        kept = 0 ∧ replaced = header + body := by
  obtain ⟨header, first, later⟩ := Option.bind_eq_some_iff.mp found
  obtain ⟨body, second, same⟩ := Option.map_eq_some_iff.mp later
  cases same
  exact ⟨header, body, first, second, rfl, rfl⟩

theorem pemLine_starts {start : String} {length : Nat} (found : pemLine start text = some length) :
    start.toList <+: text ∧ start.toList.length ≤ length := by
  obtain ⟨rest, stripped, later⟩ := Option.bind_eq_some_iff.mp found
  unfold stripPrefix at stripped
  dsimp only at later
  split at stripped
  · rename_i starts
    split at later
    · cases later
      exact ⟨List.isPrefixOf_iff_prefix.mp starts, by omega⟩
    · cases later
  · cases stripped

theorem pemBlock_sound : pemBlock.Sound := by
  intro previous text kept replaced found
  obtain ⟨header, body, first, second, rfl, rfl⟩ := pemBlock_spec found
  have inHeader := pemLine_within _ _ _ first
  have inBody := firstEnd_within (pemLine_within "-----END ") _ _ second
  have front := (pemLine_starts first).2
  have eleven : "-----BEGIN ".toList.length = 11 := rfl
  rw [List.length_drop] at inBody
  omega

theorem bearerTail_within : Within fun text =>
    let spaces := (text.takeWhile spaceChar).length
    if spaces = 0 then none
    else (boundedRun bearerChar 1 (text.drop spaces)).map fun run => spaces + run := by
  intro text length found
  dsimp only at found
  split at found
  · cases found
  · obtain ⟨run, bounded, rfl⟩ := Option.map_eq_some_iff.mp found
    have inRun := boundedRun_within _ _ _ _ bounded
    have inSpaces := takeWhile_length_le spaceChar text
    rw [List.length_drop] at inRun
    omega

theorem webTail_within : Within fun text =>
    (dottedRun text).bind fun header =>
      (dottedRun (text.drop header)).bind fun payload =>
        (boundedRun dashChar 8 (text.drop (header + payload))).map fun signature =>
          header + payload + signature := by
  intro text length found
  obtain ⟨header, first, later⟩ := Option.bind_eq_some_iff.mp found
  obtain ⟨payload, second, last⟩ := Option.bind_eq_some_iff.mp later
  obtain ⟨signature, third, rfl⟩ := Option.map_eq_some_iff.mp last
  have inHeader := dottedRun_within _ _ first
  have inPayload := dottedRun_within _ _ second
  have inSignature := boundedRun_within _ _ _ _ third
  rw [List.length_drop] at inPayload inSignature
  omega

theorem bearerMarker_within : Within fun text =>
    if asciiLowercase (text.take 6) = "bearer".toList then some 6 else none := by
  intro text length found
  dsimp only at found
  split at found
  · rename_i marked
    cases found
    have length := congrArg List.length marked
    rw [asciiLowercase, List.length_map, List.length_take] at length
    have six : "bearer".toList.length = 6 := rfl
    omega
  · cases found

theorem accessTail_within : Within fun text =>
    if 16 ≤ text.length ∧ (text.take 16).all keyChar ∧ (text.drop 16).head?.all (fun c => !wordChar c)
    then some 16 else none := by
  intro text length found
  dsimp only at found
  split at found
  · rename_i fits
    cases found
    exact fits.1
  · cases found

/-- Every pattern of a secret finds matches in the text only. -/
theorem secretPatterns_sound : ∀ find ∈ secretPatterns, find.Sound := by
  have literal (markers : List String) (visible : ∀ marker ∈ markers, marker ≠ "")
      {tail : List Char → Option Nat} (within : Within tail) :
      (markedSecret (literalMarker markers) tail).Sound :=
    markedSecret_sound (literalMarker_within markers) within (literalMarker_positive visible)
  have bearer : bearerToken.Sound := by
    refine markedSecret_sound bearerMarker_within bearerTail_within fun text length found => ?_
    split at found
    · cases found
      decide
    · cases found
  simp only [secretPatterns, List.forall_mem_cons, List.not_mem_nil, false_imp_iff, implies_true,
    and_true]
  exact ⟨literal _ (by decide) (boundedRun_within _ _), literal _ (by decide) (boundedRun_within _ _),
    literal _ (by decide) (boundedRun_within _ _), bearer, literal _ (by decide) accessTail_within,
    literal _ (by decide) (boundedRun_within _ _), literal _ (by decide) webTail_within,
    pemBlock_sound⟩

/-! ### What the matches start with -/

/-- The lower case of what the matches of the patterns start with. -/
def secretStarts : List String :=
  ["ghp_", "gho_", "ghu_", "ghs_", "ghr_", "github_pat_", "sk-", "bearer", "akia", "npm_", "eyj",
    "-----begin "]

def startsSecret (text : List Char) : Bool :=
  secretStarts.any fun start => start.toList.isPrefixOf (asciiLowercase text)

theorem startsSecret_iff : startsSecret text = true ↔
    ∃ start ∈ secretStarts, start.toList <+: asciiLowercase text := by
  simp [startsSecret, List.isPrefixOf_iff_prefix]

theorem startsSecret_of_literal {start : String} (known : asciiLowercase start.toList ∈
      secretStarts.map String.toList) (starts : start.toList <+: text) : startsSecret text = true := by
  obtain ⟨lower, member, same⟩ := List.mem_map.mp known
  refine startsSecret_iff.mpr ⟨lower, member, ?_⟩
  rw [same]
  exact starts.map Char.toLower

/-- No start of a secret has a bracket or occurs in the mark. -/
theorem redactedMark_separates : Separates startsSecret redactedMark := by
  have plain : ∀ start ∈ secretStarts, '[' ∉ start.toList := by decide
  have closed : ∀ start ∈ secretStarts, ']' ∉ start.toList := by decide
  constructor
  · intro text more starts
    obtain ⟨start, member, prefixed⟩ := startsSecret_iff.mp starts
    refine startsSecret_iff.mpr ⟨start, member, ?_⟩
    rw [asciiLowercase, List.map_append]
    exact prefixed.trans (List.prefix_append _ _)
  · intro text more _ starts
    obtain ⟨start, member, prefixed⟩ := startsSecret_iff.mp starts
    refine startsSecret_iff.mpr ⟨start, member, ?_⟩
    rw [asciiLowercase, List.map_append] at prefixed
    rcases List.prefix_or_prefix_of_prefix prefixed (List.prefix_append _ _) with inside | across
    · exact inside
    · obtain ⟨last, whole⟩ := across
      cases last with
      | nil => exact ⟨[], by simpa [asciiLowercase] using whole.symm⟩
      | cons c last =>
          rw [← whole, List.prefix_append_right_inj] at prefixed
          have bracket : c = '[' := (List.cons_prefix_cons.mp prefixed).1
          exact absurd (by rw [← whole, bracket]; simp) (plain start member)
  · intro text more nonempty suffix
    have apart : ∀ text ∈ redactedMark.tails, ∀ start ∈ secretStarts,
        start.toList.isPrefixOf (asciiLowercase text) = false := by decide
    have ends : ∀ text ∈ redactedMark.tails, text ≠ [] → ']' ∈ asciiLowercase text := by decide
    have inTails := (List.mem_tails text redactedMark).mpr suffix
    rw [Bool.eq_false_iff, Ne, startsSecret_iff]
    rintro ⟨start, member, prefixed⟩
    rw [asciiLowercase, List.map_append] at prefixed
    rcases List.prefix_or_prefix_of_prefix prefixed (List.prefix_append _ _) with within | across
    · have never := apart text inTails start member
      rw [asciiLowercase, List.isPrefixOf_iff_prefix.mpr within] at never
      cases never
    · exact closed start member (across.subset (ends text inTails nonempty))

theorem occurrences_pos {text : List Char} (starts : startsSecret text = true) :
    1 ≤ occurrences startsSecret text := by
  cases text with
  | nil =>
      rw [startsSecret_iff] at starts
      obtain ⟨start, member, prefixed⟩ := starts
      have visible : ∀ start ∈ secretStarts, start.toList ≠ [] := by decide
      exact absurd (List.prefix_nil.mp prefixed) (visible start member)
  | cons c rest =>
      rw [occurrences, if_pos starts]
      omega

/-- The match of a marked secret starts with the marker. -/
theorem markedSecret_starts {marker tail : List Char → Option Nat} {previous : Option Char}
    {kept replaced : Nat} (starts : ∀ text length, marker text = some length →
      ∀ more, startsSecret (text.take (length + more)) = true)
    (found : markedSecret marker tail previous text = some (kept, replaced)) :
    startsSecret ((text.drop kept).take replaced) = true := by
  obtain ⟨marked, rest, first, -, rfl, rfl⟩ := markedSecret_spec found
  exact starts text marked first rest

theorem literalMarker_starts {markers : List String}
    (known : ∀ marker ∈ markers, asciiLowercase marker.toList ∈ secretStarts.map String.toList)
    (text : List Char) (length : Nat) (found : literalMarker markers text = some length) (more : Nat) :
    startsSecret (text.take (length + more)) = true := by
  obtain ⟨marker, member, prefixed, rfl⟩ := literalMarker_prefix found
  refine startsSecret_of_literal (known marker member) ?_
  rw [List.prefix_take_iff]
  exact ⟨prefixed, by omega⟩

theorem bearerMarker_starts (text : List Char) (length : Nat)
    (found : (if asciiLowercase (text.take 6) = "bearer".toList then some 6 else none) = some length)
    (more : Nat) : startsSecret (text.take (length + more)) = true := by
  split at found
  · rename_i marked
    cases found
    refine startsSecret_iff.mpr ⟨"bearer", by decide, ?_⟩
    rw [← marked, asciiLowercase, asciiLowercase]
    apply List.IsPrefix.map
    exact List.take_prefix_take_left (by omega)
  · cases found

/-- What a pattern of a secret replaces starts like a secret. -/
theorem secretPatterns_start : ∀ find ∈ secretPatterns, ∀ previous text kept replaced,
    find previous text = some (kept, replaced) →
      startsSecret ((text.drop kept).take replaced) = true := by
  have literal (markers : List String) (tail : List Char → Option Nat)
      (known : ∀ marker ∈ markers, asciiLowercase marker.toList ∈ secretStarts.map String.toList) :
      ∀ previous text kept replaced,
        markedSecret (literalMarker markers) tail previous text = some (kept, replaced) →
          startsSecret ((text.drop kept).take replaced) = true :=
    fun _ _ _ _ found => markedSecret_starts (literalMarker_starts known) found
  have pem : ∀ previous text kept replaced, pemBlock previous text = some (kept, replaced) →
      startsSecret ((text.drop kept).take replaced) = true := by
    intro previous text kept replaced found
    obtain ⟨header, body, first, -, rfl, rfl⟩ := pemBlock_spec found
    obtain ⟨prefixed, long⟩ := pemLine_starts first
    refine @startsSecret_of_literal _ "-----BEGIN " (by decide) ?_
    rw [List.drop_zero, List.prefix_take_iff]
    exact ⟨prefixed, by omega⟩
  simp only [secretPatterns, List.forall_mem_cons, List.not_mem_nil, false_imp_iff, implies_true,
    and_true]
  exact ⟨literal _ _ (by decide), literal _ _ (by decide), literal _ _ (by decide),
    fun _ _ _ _ found => markedSecret_starts bearerMarker_starts found, literal _ _ (by decide),
    literal _ _ (by decide), literal _ _ (by decide), pem⟩

theorem secretPatterns_heavy : ∀ find ∈ secretPatterns, ∀ text, ∀ part ∈ foundTexts find text,
    1 ≤ occurrences startsSecret part := by
  intro find member text part inside
  obtain ⟨previous, rest, kept, replaced, -, found, rfl⟩ := foundTexts_match inside
  exact occurrences_pos (secretPatterns_start find member previous rest kept replaced found)

/-- A pattern of a secret keeps nothing of its match. -/
theorem secretPatterns_kept : ∀ find ∈ secretPatterns, ∀ previous text kept replaced,
    find previous text = some (kept, replaced) → kept = 0 := by
  have marked (marker tail : List Char → Option Nat) : ∀ previous text kept replaced,
      markedSecret marker tail previous text = some (kept, replaced) → kept = 0 := by
    intro previous text kept replaced found
    obtain ⟨-, -, -, -, same, -⟩ := markedSecret_spec found
    exact same
  have pem : ∀ previous text kept replaced, pemBlock previous text = some (kept, replaced) → kept = 0 := by
    intro previous text kept replaced found
    obtain ⟨-, -, -, -, same, -⟩ := pemBlock_spec found
    exact same
  simp only [secretPatterns, List.forall_mem_cons, List.not_mem_nil, false_imp_iff, implies_true,
    and_true]
  exact ⟨marked _ _, marked _ _, marked _ _, marked _ _, marked _ _, marked _ _, marked _ _, pem⟩

theorem secretPatterns_starts {find : Finder Char} (member : find ∈ secretPatterns) {previous : Option Char}
    {lengths : Nat × Nat} (found : find previous text = some lengths) : startsSecret text = true := by
  obtain ⟨kept, replaced⟩ := lengths
  have starts := secretPatterns_start find member previous text kept replaced found
  rw [secretPatterns_kept find member previous text kept replaced found, List.drop_zero] at starts
  rw [← List.take_append_drop replaced text]
  exact redactedMark_separates.grows _ _ starts

/-! ### Assignments -/

/-- An assignment is a word, a sign and a value, with spaces around the sign. -/
theorem sensitiveAssignment_spec {previous : Option Char} {kept replaced : Nat}
    (found : sensitiveAssignment previous text = some (kept, replaced)) :
    ∃ word before after, literalMarker sensitiveWords (asciiLowercase text) = some word ∧
      kept = word + before + 1 + after ∧ kept ≤ text.length ∧
        replaced = ((text.drop kept).takeWhile fun c => !endsAssignment c).length ∧ 1 ≤ replaced := by
  unfold sensitiveAssignment at found
  split at found
  · obtain ⟨word, marked, later⟩ := Option.bind_eq_some_iff.mp found
    dsimp only at later
    split at later
    · rename_i sign rest split
      split at later
      · rename_i fits
        cases later
        have length := congrArg List.length split
        rw [List.length_drop, List.length_cons] at length
        have inside := takeWhile_length_le spaceChar rest
        have tail : text.drop (word + ((text.drop word).takeWhile spaceChar).length + 1) = rest := by
          rw [← List.drop_drop, split]
          rfl
        refine ⟨word, _, _, marked, rfl, by omega, ?_, fits.2⟩
        rw [← tail, List.drop_drop]
      · cases later
    · cases later
  · cases found

theorem sensitiveAssignment_sound : sensitiveAssignment.Sound := by
  intro previous text kept replaced found
  obtain ⟨word, before, after, -, -, inside, rfl, positive⟩ := sensitiveAssignment_spec found
  have := takeWhile_length_le (fun c => !endsAssignment c) (text.drop kept)
  rw [List.length_drop] at this
  exact ⟨positive, by omega⟩

theorem takeWhile_take (inClass : Char → Bool) (text : List Char) :
    text.take (text.takeWhile inClass).length = text.takeWhile inClass :=
  (List.prefix_iff_eq_take.mp (List.takeWhile_prefix inClass)).symm

theorem drop_takeWhile (inClass : Char → Bool) (text : List Char) :
    text.drop (text.takeWhile inClass).length = text.dropWhile inClass := by
  have whole : text.takeWhile inClass ++ text.dropWhile inClass = text :=
    List.takeWhile_append_dropWhile
  calc text.drop (text.takeWhile inClass).length
      = (text.takeWhile inClass ++ text.dropWhile inClass).drop (text.takeWhile inClass).length := by
        rw [whole]
    _ = text.dropWhile inClass := List.drop_left

theorem toLower_outside {c : Char} (outside : c.toNat < 65 ∨ 90 < c.toNat) : c.toLower = c := by
  unfold Char.toLower
  split
  · rename_i upper
    have low : (65 : Nat) ≤ c.toNat := UInt32.le_iff_toNat_le.mp upper.1
    have high : c.toNat ≤ 90 := UInt32.le_iff_toNat_le.mp upper.2
    omega
  · rfl

theorem endsAssignment_outside {c : Char} (ends : endsAssignment c = true) :
    c.toNat < 65 ∨ 122 < c.toNat := by
  simp only [endsAssignment, spaceChar, Bool.or_eq_true, Bool.and_eq_true, decide_eq_true_eq] at ends
  rcases ends with (space | rfl) | rfl
  · omega
  · decide
  · decide

theorem sensitiveAssignment_delimited : sensitiveAssignment.Delimited endsAssignment := by
  constructor
  · intro previous text kept replaced found c member
    obtain ⟨word, before, after, -, -, -, rfl, -⟩ := sensitiveAssignment_spec found
    rw [takeWhile_take] at member
    simpa using List.mem_takeWhile_imp member
  · intro previous text kept replaced found c member
    obtain ⟨word, before, after, -, -, -, rfl, -⟩ := sensitiveAssignment_spec found
    rw [← List.drop_drop, drop_takeWhile] at member
    have stops := List.head?_dropWhile_not (fun c => !endsAssignment c) (text.drop kept)
    rw [member] at stops
    simpa using stops
  · intro previous c rest ends
    have letters : ∀ word ∈ sensitiveWords, ∃ first more, word.toList = first :: more ∧
        97 ≤ first.toNat ∧ first.toNat ≤ 122 := by
      simp only [sensitiveWords, List.forall_mem_cons, List.not_mem_nil, false_imp_iff, implies_true,
        and_true]
      exact ⟨⟨_, _, rfl, by decide⟩, ⟨_, _, rfl, by decide⟩, ⟨_, _, rfl, by decide⟩,
        ⟨_, _, rfl, by decide⟩, ⟨_, _, rfl, by decide⟩, ⟨_, _, rfl, by decide⟩,
        ⟨_, _, rfl, by decide⟩, ⟨_, _, rfl, by decide⟩, ⟨_, _, rfl, by decide⟩,
        ⟨_, _, rfl, by decide⟩⟩
    cases found : sensitiveAssignment previous (c :: rest) with
    | none => rfl
    | some lengths =>
        obtain ⟨word, before, after, marked, -⟩ := sensitiveAssignment_spec found
        obtain ⟨marker, member, starts, -⟩ := literalMarker_prefix marked
        obtain ⟨first, more, letters, low, high⟩ := letters marker member
        rw [letters, asciiLowercase, List.map_cons] at starts
        have same := (List.cons_prefix_cons.mp starts).1
        have outside := endsAssignment_outside ends
        rw [toLower_outside (by omega)] at same
        rw [same] at low high
        omega

/-! ### What redaction leaves alone -/

/-- The text has no match of a secret, and its sensitive assignments are redacted already. -/
def Unredacted (text : List Char) : Prop :=
  (∀ pattern ∈ secretPatterns, foundTexts pattern text = []) ∧
    ∀ value ∈ foundTexts sensitiveAssignment text, value = redactedMark

instance (text : List Char) : Decidable (Unredacted text) := inferInstanceAs (Decidable (_ ∧ _))

theorem redactText_eq_self : redactText text = text ↔ Unredacted text := by
  have plain : ∀ c ∈ redactedMark, endsAssignment c = false := by decide
  rw [redactText, Unredacted]
  constructor
  · intro same
    obtain ⟨fewer, kept⟩ := foldl_replaceAll_occurrences redactedMark_separates secretPatterns
      secretPatterns_sound secretPatterns_heavy text
    have last := occurrences_replaceAll redactedMark_separates sensitiveAssignment_sound
      (secretPatterns.foldl (fun redacted pattern => replaceAll pattern redactedMark redacted) text)
      fun part _ => Nat.zero_le (occurrences startsSecret part)
    rw [same] at last
    obtain ⟨whole, nothing⟩ := kept (by omega)
    rw [whole] at same
    exact ⟨nothing, (replaceAll_eq_self_iff sensitiveAssignment_sound sensitiveAssignment_delimited
      plain).mp same⟩
  · rintro ⟨nothing, marked⟩
    rw [foldl_replaceAll_of_none secretPatterns secretPatterns_sound nothing]
    exact (replaceAll_eq_self_iff sensitiveAssignment_sound sensitiveAssignment_delimited plain).mpr
      marked

theorem redactString_eq_self {value : String} : redactString value = value ↔ Unredacted value.toList := by
  rw [← redactText_eq_self, redactString]
  constructor
  · intro same
    have chars := congrArg String.toList same
    rwa [String.toList_ofList] at chars
  · intro same
    rw [same, String.ofList_toList]

end Matches

end PiTools.PiWorker
