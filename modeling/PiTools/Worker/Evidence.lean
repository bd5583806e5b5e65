import PiTools.Library.Words
import PiTools.Worker.CiRepair

/-
This file defines how the evidence for a diagnosis is prepared, and says exactly
which secrets a reader of the evidence still finds.
-/

namespace PiTools

open Library

/-! ### Preparation -/

def redaction : List Char := "[REDACTED]".toList

/-- The markers in front of a token. -/
def tokenMarkers : List (List Char) :=
  ["ghp_", "github_pat_", "ghs_", "gho_", "ghu_", "ghr_", "sk-proj-", "AKIA", "npm_", "eyJ"].map
    String.toList

/-- The markers of a line that assigns a secret. -/
def assignmentMarkers : List (List Char) :=
  ["authorization: bearer", "password=", "token=", "secret=", "private_key="].map String.toList

def isSeparator (c : Char) : Bool := c = '=' || c = ':'

def redactTokenMarker (value marker : List Char) : List Char :=
  replaceAll (tailFinder isWhitespace marker) redaction value

def redactLine (originalLine : List Char) : List Char :=
  let line := tokenMarkers.foldl redactTokenMarker originalLine
  let normalized := asciiLowercase line
  if assignmentMarkers.any fun marker => containsText marker normalized then
    let separator := line.findIdx isSeparator
    line.take (min separator (line.length - 1) + 1) ++ redaction
  else line

def beginsPem (line : List Char) : Bool := containsText "-----begin ".toList (asciiLowercase line)

def endsPem (line : List Char) : Bool := containsText "-----end ".toList (asciiLowercase line)

/-- The loop over the lines carries whether it is inside of a PEM block. -/
def redactLines : Bool → List (List Char) → List (List Char)
  | _, [] => []
  | inPem, line :: rest =>
      if inPem || beginsPem line then redaction :: redactLines (!endsPem line) rest
      else redactLine line :: redactLines false rest

def redactCiText (value : List Char) : List Char := joinLines (redactLines false (lines value))

def indent (depth : Nat) : List Char := List.replicate (2 * depth) ' '

mutual
/-- The text of a value with one item or field a line. -/
def prettyText : Nat → Json → List Char
  | _, .array [] => ['[', ']']
  | depth, .array (item :: rest) =>
      '[' :: '\n' :: ([',', '\n'].intercalate (prettyItems (depth + 1) (item :: rest)) ++
        '\n' :: (indent depth ++ [']']))
  | _, .object [] => ['\x7b', '\x7d']
  | depth, .object (field :: rest) =>
      '\x7b' :: '\n' :: ([',', '\n'].intercalate (prettyFields (depth + 1) (field :: rest)) ++
        '\n' :: (indent depth ++ ['\x7d']))
  | _, value => value.text

def prettyItems : Nat → List Json → List (List Char)
  | _, [] => []
  | depth, item :: rest => (indent depth ++ prettyText depth item) :: prettyItems depth rest

def prettyFields : Nat → List (String × Json) → List (List Char)
  | _, [] => []
  | depth, (key, value) :: rest =>
      (indent depth ++ (stringText key ++ ':' :: ' ' :: prettyText depth value)) ::
        prettyFields depth rest
end

def maxCiLogBytes : Nat := 128 * 1024

def serializedEvidence (jobPlan checkOutputs : Json) : List Char :=
  prettyText 0 (sortedObject [("job_plan", jobPlan), ("check_outputs", checkOutputs)])

def maxEvidenceBytes : Nat := min maxCiLogBytes (48 * 1024)

def prepareCiEvidence (jobPlan checkOutputs : Json) : String :=
  String.ofList (truncateUtf8 maxEvidenceBytes (redactCiText (serializedEvidence jobPlan checkOutputs)))

/-! ### What is left to read -/

def loweredCells (cells : List (Option Char)) : List (Option Char) :=
  cells.map (Option.map Char.toLower)

/-- The line spells an assignment outside of the gaps. -/
def Assigns (cells : List (Option Char)) : Prop :=
  ∃ marker ∈ assignmentMarkers, marker.map some <:+: loweredCells cells

instance (cells : List (Option Char)) : Decidable (Assigns cells) :=
  inferInstanceAs (Decidable (∃ marker ∈ assignmentMarkers, _))

def upToSeparator : List (Option Char) → List (Option Char)
  | [] => []
  | cell :: rest => if cell.any isSeparator then [cell] else cell :: upToSeparator rest

/-- A line outside of a PEM block. A token and the rest of its word are one gap, and an assignment
hides all that follows the first separator. -/
def shownLine (line : List Char) : List (Option Char) :=
  let cells := gaps (startsAny tokenMarkers) isWhitespace line
  if Assigns cells then upToSeparator cells ++ [none] else cells

/-- A line of a PEM block is one gap. -/
def shownLines : Bool → List (List Char) → List (List (Option Char))
  | _, [] => []
  | inPem, line :: rest =>
      if inPem || beginsPem line then [none] :: shownLines (!endsPem line) rest
      else shownLine line :: shownLines false rest

/-- The characters of the text that stay, in lower case, and the gaps between them. -/
def shownCells (text : List Char) : List (Option Char) :=
  loweredCells ([some '\n'].intercalate (shownLines false (lines text)))

def shownBytes (cells : List (Option Char)) : Nat := byteLength (fill (asciiLowercase redaction) cells)

/-- A marker of a secret ends within the room. -/
def ExposesMarker (room : Option Nat) (text : List Char) : Prop :=
  ∃ marker ∈ secretMarkers, ∃ before after,
    shownCells text = before ++ (marker.toList.map some ++ after) ∧
      Fits room (shownBytes before + byteLength marker.toList)

/-- What the room leaves of a word has the form of a web token. -/
def ExposesJwt (room : Option Nat) (text : List Char) : Prop :=
  ∃ before word after, shownCells text = before ++ word ++ after ∧
    Word (Option.any isWhitespace) before word after ∧
      looksLikeJwt (shorten (Room.after room (shownBytes before))
        (fill (asciiLowercase redaction) word)) = true

/-- The first bytes of the redacted text show something secret. Without a room the whole text
counts. -/
def Exposes (room : Option Nat) (text : List Char) : Prop :=
  ExposesMarker room text ∨ ExposesJwt room text

/-! ### Lines -/

theorem tokenMarkers_suited : Markers isWhitespace redaction tokenMarkers where
  inWord := (by decide : ∀ marker ∈ tokenMarkers, marker ≠ [] ∧
    ∀ c ∈ marker, isWhitespace c = false)
  clear marker member :=
    ⟨(by decide : ∀ marker ∈ tokenMarkers, ∀ ending ∈ redaction.tails, ending ≠ [] →
        ¬ Agree marker ending) marker member,
      fun _ first => Option.some.inj first ▸
        (by decide : ∀ marker ∈ tokenMarkers, '[' ∉ marker) marker member⟩
  apart := by decide

theorem redactTokens_eq (line : List Char) : tokenMarkers.foldl redactTokenMarker line =
    fill redaction (gaps (startsAny tokenMarkers) isWhitespace line) := by
  have start := foldl_replaceAll_tailFinder (by decide : redaction ≠ [])
    (by decide : ∀ c ∈ redaction, isWhitespace c = false) line tokenMarkers [] tokenMarkers_suited
  rw [gaps_nothing, List.nil_append] at start
  exact start

theorem asciiLowercase_fill (cells : List (Option Char)) :
    asciiLowercase (fill redaction cells) = fill (asciiLowercase redaction) (loweredCells cells) :=
  map_fill Char.toLower cells

/-- A marker that is foreign to the mark is read from the cells. -/
theorem containsText_fill {marker mark : List Char} (foreign : Foreign mark marker) (filled : mark ≠ [])
    {cells : List (Option Char)} :
    containsText marker (fill mark cells) = true ↔ marker.map some <:+: cells := by
  rw [containsText_iff]
  constructor
  · rintro ⟨before, after, same⟩
    rw [List.append_assoc] at same
    obtain ⟨left, right, rfl, -, -⟩ := foreign.fill_eq filled same.symm
    exact ⟨left, right, by rw [List.append_assoc]⟩
  · rintro ⟨left, right, rfl⟩
    rw [fill_append, fill_append, fill_map_some]
    exact ⟨_, _, rfl⟩

theorem redaction_foreign {markers : List (List Char)}
    (visible : ∀ marker ∈ markers, marker ≠ [])
    (apart : ∀ marker ∈ markers, '[' ∉ marker ∧ ']' ∉ marker)
    (outside : ∀ marker ∈ markers, containsText marker (asciiLowercase redaction) = false) :
    ∀ marker ∈ markers, Foreign (asciiLowercase redaction) marker := by
  intro marker member
  have first : (asciiLowercase redaction).head? = some '[' := by decide
  have last : (asciiLowercase redaction).getLast? = some ']' := by decide
  refine ⟨visible marker member, ?_, ?_, ?_⟩
  · rw [first]
    intro c known
    cases known
    exact (apart marker member).1
  · rw [last]
    intro c known
    cases known
    exact (apart marker member).2
  · rw [← containsText_iff, outside marker member]
    simp

theorem assignmentMarkers_foreign :
    ∀ marker ∈ assignmentMarkers, Foreign (asciiLowercase redaction) marker :=
  redaction_foreign (by decide) (by decide) (by decide)

theorem lowered_redaction_ne : asciiLowercase redaction ≠ [] := by decide

theorem assigns_iff (cells : List (Option Char)) : Assigns cells ↔
    (assignmentMarkers.any fun marker =>
      containsText marker (asciiLowercase (fill redaction cells))) = true := by
  rw [Assigns, List.any_eq_true, asciiLowercase_fill]
  apply exists_congr
  intro marker
  apply and_congr_right
  intro member
  rw [containsText_fill (assignmentMarkers_foreign marker member) lowered_redaction_ne]

/-- A separator ends the part of a line that stays. -/
theorem take_separator (cells : List (Option Char)) (separated : ∃ cell ∈ cells, cell.any isSeparator = true) :
    let line := fill redaction cells
    line.take (min (line.findIdx isSeparator) (line.length - 1) + 1) =
      fill redaction (upToSeparator cells) := by
  have plain : ∀ c ∈ redaction, isSeparator c = false := by decide
  have found : ∀ cells : List (Option Char), (∃ cell ∈ cells, cell.any isSeparator = true) →
      (fill redaction cells).findIdx isSeparator < (fill redaction cells).length := by
    rintro cells ⟨cell, member, separates⟩
    cases cell with
    | none => cases separates
    | some c =>
        rw [List.findIdx_lt_length]
        exact ⟨c, mem_fill.mpr (.inl member), separates⟩
  have inside := found cells separated
  have least : min ((fill redaction cells).findIdx isSeparator) ((fill redaction cells).length - 1) =
      (fill redaction cells).findIdx isSeparator := by omega
  dsimp only
  rw [least]
  clear least inside
  induction cells with
  | nil => simp at separated
  | cons cell rest ih =>
      rw [upToSeparator]
      cases cell with
      | some c =>
          rw [fill_some, List.findIdx_cons, Option.any_some]
          cases separates : isSeparator c with
          | true => rfl
          | false =>
              have later : ∃ cell ∈ rest, cell.any isSeparator = true := by
                simpa [separates] using separated
              simp only [cond_false, Bool.false_eq_true, if_false, fill_some, List.take_succ_cons]
              rw [ih later]
      | none =>
          have later : ∃ cell ∈ rest, cell.any isSeparator = true := by simpa using separated
          rw [fill_none, Option.any_none, if_neg (by simp), fill_none, ← ih later,
            List.findIdx_append, if_neg (by simpa using plain), List.take_append,
            List.take_of_length_le (by omega)]
          congr 2

theorem redactLine_eq (line : List Char) : redactLine line = fill redaction (shownLine line) := by
  rw [redactLine, redactTokens_eq, shownLine]
  dsimp only
  by_cases assigned : Assigns (gaps (startsAny tokenMarkers) isWhitespace line)
  · rw [if_pos assigned, if_pos ((assigns_iff _).mp assigned), fill_append]
    congr 1
    · apply take_separator
      obtain ⟨marker, member, occurs⟩ := assigned
      have separated : ∀ marker ∈ assignmentMarkers, ∃ c ∈ marker, isSeparator c = true := by decide
      obtain ⟨c, inside, separates⟩ := separated marker member
      obtain ⟨cell, known, same⟩ := List.mem_map.mp
        (occurs.subset (List.mem_map_of_mem (f := some) inside))
      cases cell with
      | none => cases same
      | some d =>
          refine ⟨some d, known, ?_⟩
          rw [Option.map_some, Option.some.injEq] at same
          rw [Option.any_some, ← separates, ← same]
          exact (toLower_invariant isSeparator (by decide) d).symm
  · rw [if_neg assigned, if_neg (mt (assigns_iff _).mpr assigned)]

/-! ### Texts -/

theorem redactLines_eq (inPem : Bool) (lines : List (List Char)) :
    redactLines inPem lines = (shownLines inPem lines).map (fill redaction) := by
  induction lines generalizing inPem with
  | nil => rfl
  | cons line rest ih =>
      rw [redactLines, shownLines]
      split
      · rw [List.map_cons, ih, fill_none, fill_nil, List.append_nil]
      · rw [List.map_cons, ih, redactLine_eq]

theorem fill_intercalate (separator : Char) (cells : List (List (Option Char))) :
    fill redaction ([some separator].intercalate cells) =
      [separator].intercalate (cells.map (fill redaction)) := by
  induction cells with
  | nil => rfl
  | cons first rest ih =>
      cases rest with
      | nil => simp
      | cons second rest =>
          rw [List.map_cons] at ih
          rw [List.intercalate_cons_cons, List.map_cons, List.map_cons, List.intercalate_cons_cons,
            fill_append, fill_append, ih]
          rfl

theorem lowercase_redactCiText (text : List Char) : asciiLowercase (redactCiText text) =
    fill (asciiLowercase redaction) (shownCells text) := by
  rw [shownCells, ← asciiLowercase_fill, fill_intercalate, ← redactLines_eq]
  rfl

def secretMarkerTexts : List (List Char) := secretMarkers.map String.toList

theorem secretMarkers_foreign :
    ∀ marker ∈ secretMarkerTexts, Foreign (asciiLowercase redaction) marker :=
  redaction_foreign (by decide) (by decide) (by decide)

theorem exposesMarker_iff (room : Option Nat) (text : List Char) :
    (secretMarkers.any fun marker =>
      containsText marker.toList (asciiLowercase (shorten room (redactCiText text)))) = true ↔
        ExposesMarker room text := by
  rw [← shorten_lowercase, lowercase_redactCiText, List.any_eq_true]
  apply exists_congr
  intro marker
  apply and_congr_right
  intro member
  have foreign := secretMarkers_foreign marker.toList (List.mem_map_of_mem member)
  rw [containsText_iff, infix_shorten]
  constructor
  · rintro ⟨before, after, same, fits⟩
    obtain ⟨left, right, known, front, -⟩ := foreign.fill_eq lowered_redaction_ne same
    exact ⟨left, right, known, by rw [shownBytes, front]; exact fits⟩
  · rintro ⟨left, right, known, fits⟩
    refine ⟨fill (asciiLowercase redaction) left, fill (asciiLowercase redaction) right, ?_, fits⟩
    rw [known, fill_append, fill_append, fill_map_some]

theorem looksLikeJwt_nil : looksLikeJwt [] = false := by decide

theorem exposesJwt_iff (room : Option Nat) (text : List Char) :
    (splitWhitespace (asciiLowercase (shorten room (redactCiText text)))).any looksLikeJwt = true ↔
      ExposesJwt room text := by
  have plain : ∀ c ∈ asciiLowercase redaction, isWhitespace c = false := by decide
  rw [← shorten_lowercase, lowercase_redactCiText, List.any_eq_true]
  have words := @exists_word_shorten isWhitespace room
    (fill (asciiLowercase redaction) (shownCells text)) fun word => looksLikeJwt word = true
  have cells := exists_word_fill lowered_redaction_ne plain (shownCells text) fun before word =>
    looksLikeJwt (shorten (Room.after room (byteLength before)) word) = true
  rw [ExposesJwt]
  unfold shownBytes
  rw [← cells]
  constructor
  · rintro ⟨word, member, token⟩
    rw [splitWhitespace, List.mem_filter, decide_eq_true_eq, and_comm] at member
    obtain ⟨before, whole, after, same, part, -, held⟩ := words.mp ⟨word, member, token⟩
    exact ⟨before, whole, after, same, part, held⟩
  · rintro ⟨before, whole, after, same, part, token⟩
    have visible : shorten (Room.after room (byteLength before)) whole ≠ [] := by
      intro empty
      rw [empty, looksLikeJwt_nil] at token
      cases token
    obtain ⟨word, member, held⟩ := words.mpr ⟨before, whole, after, same, part, visible, token⟩
    refine ⟨word, ?_, held⟩
    rw [splitWhitespace, List.mem_filter, decide_eq_true_eq, and_comm]
    exact member

/-- The check finds a secret in the first bytes of the redacted text when they show one. -/
theorem containsSecretLike_redactCiText (room : Option Nat) (text : List Char) :
    containsSecretLike (shorten room (redactCiText text)) = true ↔ Exposes room text := by
  rw [containsSecretLike, Bool.or_eq_true, exposesMarker_iff, exposesJwt_iff, Exposes]

end PiTools
