import Mathlib.Data.List.Find
import PiTools.Library.Cuts
import PiTools.PiWorker.Redaction

/-
This file shows where the redaction of a text with quotation marks is the
redaction of the parts between them.
-/

namespace PiTools.PiWorker

open Library

/-! ### Parts that stop at a quotation mark -/

/-- What stands behind a quotation mark does not matter. -/
def QuoteLocal (part : List Char → Option Nat) : Prop :=
  ∀ front rest, part (front ++ '\x22' :: rest) = part front

section

variable {front rest : List Char}

theorem takeWhile_quote {inClass : Char → Bool} (outside : inClass '\x22' = false) :
    (front ++ '\x22' :: rest).takeWhile inClass = front.takeWhile inClass := by
  rw [List.takeWhile_append]
  split
  · rename_i whole
    have all := List.takeWhile_eq_self_iff.mp ((List.takeWhile_prefix inClass).eq_of_length whole)
    rw [List.takeWhile_eq_self_iff.mpr all, List.takeWhile_cons_of_neg (by simp [outside]), List.append_nil]
  · rfl

theorem isPrefixOf_quote {start : List Char} (absent : '\x22' ∉ start) :
    start.isPrefixOf (front ++ '\x22' :: rest) = start.isPrefixOf front := by
  rw [Bool.eq_iff_iff, List.isPrefixOf_iff_prefix, List.isPrefixOf_iff_prefix]
  constructor
  · intro starts
    rcases List.prefix_or_prefix_of_prefix starts (List.prefix_append front _) with inside | ⟨more, rfl⟩
    · exact inside
    · cases more with
      | nil => rw [List.append_nil]
      | cons c more =>
          have same := (List.cons_prefix_cons.mp ((List.prefix_append_right_inj front).mp starts)).1
          rw [same] at absent
          exact absurd (List.mem_append_right _ (.head _)) absent
  · intro starts
    exact starts.trans (List.prefix_append ..)

end

theorem QuoteLocal.drop {part : List Char → Option Nat} (isLocal : QuoteLocal part) {front : List Char}
    {count : Nat} (inside : count ≤ front.length) (rest : List Char) :
    part ((front ++ '\x22' :: rest).drop count) = part (front.drop count) := by
  rw [List.drop_append_of_le_length inside, isLocal]

theorem literalMarker_local {markers : List String} (plain : ∀ marker ∈ markers, '\x22' ∉ marker.toList) :
    QuoteLocal (literalMarker markers) := by
  intro front rest
  have same : markers.find? (fun marker => marker.toList.isPrefixOf (front ++ '\x22' :: rest)) =
      markers.find? (fun marker => marker.toList.isPrefixOf front) :=
    List.find?_congr fun marker member => isPrefixOf_quote (plain marker member)
  rw [literalMarker, literalMarker, same]

theorem boundedRun_local {inClass : Char → Bool} (outside : inClass '\x22' = false) (atLeast : Nat) :
    QuoteLocal (boundedRun inClass atLeast) := by
  intro front rest
  rw [boundedRun, boundedRun, takeWhile_quote outside]

/-- One part behind another one. -/
def followed (first second : List Char → Option Nat) : List Char → Option Nat := fun text =>
  (first text).bind fun length => (second (text.drop length)).map fun more => length + more

theorem followed_local {first second : List Char → Option Nat} (firstLocal : QuoteLocal first)
    (within : Within first) (secondLocal : QuoteLocal second) : QuoteLocal (followed first second) := by
  intro front rest
  rw [followed, firstLocal]
  cases found : first front with
  | none => simp [followed, found]
  | some length =>
      rw [Option.bind_some, secondLocal.drop (within front length found)]
      simp [followed, found]

theorem bearerMarker_local : QuoteLocal fun text =>
    if asciiLowercase (text.take 6) = "bearer".toList then some 6 else none := by
  intro front rest
  have same : asciiLowercase ((front ++ '\x22' :: rest).take 6) = "bearer".toList ↔
      asciiLowercase (front.take 6) = "bearer".toList := by
    by_cases long : 6 ≤ front.length
    · rw [List.take_append_of_le_length long]
    · have short : asciiLowercase (front.take 6) ≠ "bearer".toList := by
        intro same
        have length := congrArg List.length same
        rw [asciiLowercase, List.length_map, List.length_take] at length
        change _ = 6 at length
        omega
      refine iff_of_false (fun same => ?_) short
      have quoted : '\x22'.toLower ∈ "bearer".toList := by
        rw [← same, asciiLowercase, List.take_append]
        apply List.mem_map_of_mem
        apply List.mem_append_right
        obtain ⟨count, left⟩ : ∃ count, 6 - front.length = count + 1 := ⟨5 - front.length, by omega⟩
        rw [left]
        exact .head _
      exact absurd quoted (by decide)
  simp only [same]

theorem bearerTail_local : QuoteLocal fun text =>
    let spaces := (text.takeWhile spaceChar).length
    if spaces = 0 then none
    else (boundedRun bearerChar 1 (text.drop spaces)).map fun run => spaces + run := by
  intro front rest
  dsimp only
  rw [takeWhile_quote (by decide),
    (boundedRun_local (by decide) 1 : QuoteLocal (boundedRun bearerChar 1)).drop (takeWhile_length_le _ _)]

theorem accessTail_local : QuoteLocal fun text =>
    if 16 ≤ text.length ∧ (text.take 16).all keyChar ∧ (text.drop 16).head?.all (fun c => !wordChar c)
    then some 16 else none := by
  intro front rest
  dsimp only
  by_cases long : 16 ≤ front.length
  · rw [List.take_append_of_le_length long, List.drop_append_of_le_length long]
    have next : (front.drop 16 ++ '\x22' :: rest).head?.all (fun c => !wordChar c) =
        (front.drop 16).head?.all (fun c => !wordChar c) := by
      cases front.drop 16 with
      | nil => rfl
      | cons c more => rfl
    have longer : 16 ≤ (front ++ '\x22' :: rest).length := by
      rw [List.length_append]
      omega
    simp only [next, long, longer]
  · have short : ¬ ((front ++ '\x22' :: rest).take 16).all keyChar = true := by
      intro all
      have quoted : '\x22' ∈ (front ++ '\x22' :: rest).take 16 := by
        rw [List.take_append]
        apply List.mem_append_right
        obtain ⟨count, left⟩ : ∃ count, 16 - front.length = count + 1 := ⟨15 - front.length, by omega⟩
        rw [left]
        exact .head _
      exact absurd (List.all_eq_true.mp all _ quoted) (by decide)
    rw [if_neg (fun fits => short fits.2.1), if_neg (fun fits => long fits.1)]

theorem dottedRun_local : QuoteLocal dottedRun := by
  intro front rest
  have next : ((front ++ '\x22' :: rest).drop (front.takeWhile dashChar).length).head? = some '.' ↔
      (front.drop (front.takeWhile dashChar).length).head? = some '.' := by
    rw [List.drop_append_of_le_length (takeWhile_length_le dashChar front)]
    cases front.drop (front.takeWhile dashChar).length with
    | nil => exact iff_of_false (by simp) (by simp)
    | cons c more => exact Iff.rfl
  rw [dottedRun, dottedRun, takeWhile_quote (by decide)]
  simp only [next]

theorem webTail_local : QuoteLocal fun text =>
    (dottedRun text).bind fun header =>
      (dottedRun (text.drop header)).bind fun payload =>
        (boundedRun dashChar 8 (text.drop (header + payload))).map fun signature =>
          header + payload + signature := by
  intro front rest
  dsimp only
  rw [dottedRun_local]
  cases first : dottedRun front with
  | none => rfl
  | some header =>
      have inHeader := dottedRun_within _ _ first
      rw [Option.bind_some, Option.bind_some, dottedRun_local.drop inHeader]
      cases second : dottedRun (front.drop header) with
      | none => rfl
      | some payload =>
          have inPayload := dottedRun_within _ _ second
          rw [List.length_drop] at inPayload
          rw [Option.bind_some, Option.bind_some,
            (boundedRun_local (by decide) 8 : QuoteLocal (boundedRun dashChar 8)).drop (by omega)]

theorem pemLine_local {start : String} (plain : '\x22' ∉ start.toList) : QuoteLocal (pemLine start) := by
  intro front rest
  rw [pemLine, pemLine, stripPrefix, stripPrefix, isPrefixOf_quote plain]
  split
  · rename_i starts
    have inside := (List.isPrefixOf_iff_prefix.mp starts).length_le
    rw [List.drop_append_of_le_length inside, Option.bind_some, Option.bind_some]
    dsimp only
    rw [takeWhile_quote (by decide), List.drop_append_of_le_length (takeWhile_length_le _ _),
      isPrefixOf_quote (by decide)]
  · rfl

/-! ### Secrets -/

/-- A finder does not see what stands behind a quotation mark, and it sees a quotation mark in front
of a text as the start of the text. -/
structure QuoteBlind (find : Finder Char) : Prop where
  behind : ∀ previous front rest, find previous (front ++ '\x22' :: rest) = find previous front
  start : find (some '\x22') = find none
  empty : ∀ previous, find previous [] = none

theorem wordStarts_quote : wordStarts (some '\x22') = wordStarts none := by decide

theorem markedSecret_blind {marker tail : List Char → Option Nat} (markerLocal : QuoteLocal marker)
    (within : Within marker) (tailLocal : QuoteLocal tail) (positive : marker [] = none) :
    QuoteBlind (markedSecret marker tail) where
  behind := by
    intro previous front rest
    rw [markedSecret, markedSecret, markerLocal]
    cases found : marker front with
    | none => rfl
    | some marked => rw [Option.bind_some, Option.bind_some, tailLocal.drop (within front marked found)]
  start := by
    funext text
    rw [markedSecret, markedSecret, wordStarts_quote]
  empty := by
    intro previous
    rw [markedSecret, positive]
    split <;> rfl

/-- The patterns of the secrets without the blocks. -/
def tokenPatterns : List (Finder Char) :=
  [gitHubToken, gitHubPat, skKey, bearerToken, accessKey, npmToken, webToken]

theorem tokenPatterns_blind : ∀ find ∈ tokenPatterns, QuoteBlind find := by
  have literal (markers : List String) (plain : ∀ marker ∈ markers, '\x22' ∉ marker.toList)
      (positive : literalMarker markers [] = none) {tail : List Char → Option Nat} (tailLocal : QuoteLocal tail) :
      QuoteBlind (markedSecret (literalMarker markers) tail) :=
    markedSecret_blind (literalMarker_local plain) (literalMarker_within markers) tailLocal positive
  simp only [tokenPatterns, List.forall_mem_cons, List.not_mem_nil, false_imp_iff, implies_true, and_true]
  exact ⟨literal _ (by decide) rfl (boundedRun_local (by decide) _),
    literal _ (by decide) rfl (boundedRun_local (by decide) _),
    literal _ (by decide) rfl (boundedRun_local (by decide) _),
    markedSecret_blind bearerMarker_local bearerMarker_within bearerTail_local rfl,
    literal _ (by decide) rfl accessTail_local, literal _ (by decide) rfl (boundedRun_local (by decide) _),
    literal _ (by decide) rfl webTail_local⟩

theorem tokenPatterns_sound : ∀ find ∈ tokenPatterns, find.Sound :=
  fun find member => secretPatterns_sound find (List.mem_append_left [pemBlock] member)

theorem replaceFrom_start {find : Finder Char} {first second : Option Char} (same : find first = find second)
    (mark text : List Char) : replaceFrom find mark first text = replaceFrom find mark second text := by
  cases text with
  | nil => rfl
  | cons c rest => rw [replaceFrom, replaceFrom, pieces, pieces, same]

theorem QuoteBlind.inert {find : Finder Char} (blind : QuoteBlind find) (previous : Option Char) (rest : List Char) :
    find previous ('\x22' :: rest) = none :=
  (blind.behind previous [] rest).trans (blind.empty previous)

/-- The replacement of the tokens splits at every quotation mark. -/
theorem QuoteBlind.replaceFrom {find : Finder Char} (blind : QuoteBlind find) (sound : find.Sound)
    (mark front rest : List Char) (previous : Option Char) :
    replaceFrom find mark previous (front ++ '\x22' :: rest) =
      replaceFrom find mark previous front ++ '\x22' :: replaceAll find mark rest := by
  have agree : ∀ other text back, text ≠ [] → ¬ False → (∃ more, back = '\x22' :: more) →
      find other (text ++ back) = find other text := by
    rintro other text back - - ⟨more, rfl⟩
    exact blind.behind other text more
  rcases replaceFrom_cut sound (fun other text back filled crossing => agree other text back filled crossing)
      front previous with whole | ⟨_, _, _, _, _, absurdly, _⟩
  · rw [whole _ ⟨rest, rfl⟩, replaceFrom_none (blind.inert _ rest), replaceFrom_start blind.start]
    rfl
  · exact absurdly.elim

/-- The text after the first seven patterns. -/
def hideTokens (text : List Char) : List Char :=
  tokenPatterns.foldl (fun hidden pattern => replaceAll pattern redactedMark hidden) text

theorem redactText_eq (text : List Char) : redactText text =
    replaceAll sensitiveAssignment redactedMark (replaceAll pemBlock redactedMark (hideTokens text)) := by
  simp only [redactText, hideTokens, secretPatterns, tokenPatterns, List.foldl_cons, List.foldl_nil]

/-! ### Blocks -/

theorem pemLine_nil {start : String} (visible : start.toList ≠ []) : pemLine start [] = none := by
  cases found : pemLine start [] with
  | none => rfl
  | some length => exact absurd (List.prefix_nil.mp (pemLine_starts found).1) visible

theorem firstEnd_cons (matching : List Char → Option Nat) (c : Char) (rest : List Char) :
    firstEnd matching (c :: rest) =
      (matching (c :: rest)).or ((firstEnd matching rest).map (· + 1)) := by
  rw [firstEnd]
  cases matching (c :: rest) <;> rfl

/-- The first match in front of a quotation mark is the first one of all. -/
theorem firstEnd_quote {matching : List Char → Option Nat} (isLocal : QuoteLocal matching)
    (empty : matching [] = none) (front rest : List Char) :
    firstEnd matching (front ++ '\x22' :: rest) =
      (firstEnd matching front).or ((firstEnd matching rest).map (· + (front.length + 1))) := by
  induction front with
  | nil =>
      have none_ : matching ('\x22' :: rest) = none := (isLocal [] rest).trans empty
      rw [List.nil_append, firstEnd_cons, none_, firstEnd, empty]
      rfl
  | cons c front ih =>
      rw [List.cons_append, firstEnd_cons, firstEnd_cons, ← List.cons_append, isLocal, ih]
      cases matching (c :: front) with
      | some length => rfl
      | none =>
          cases firstEnd matching front with
          | some length => rfl
          | none => simp [Function.comp_def, Nat.add_assoc]

/-- The first end line of a text ends here. -/
def firstEndLine : List Char → Option Nat := firstEnd (pemLine "-----END ")

theorem firstEndLine_quote (front rest : List Char) :
    firstEndLine (front ++ '\x22' :: rest) =
      (firstEndLine front).or ((firstEndLine rest).map (· + (front.length + 1))) :=
  firstEnd_quote (pemLine_local (by decide)) (pemLine_nil (by decide)) front rest

theorem pemBlock_eq (previous : Option Char) (text : List Char) :
    pemBlock previous text = (pemLine "-----BEGIN " text).bind fun header =>
      (firstEndLine (text.drop header)).map fun body => (0, header + body) := rfl

/-- A block is open when no line ends it. -/
def OpensAt (text : List Char) : Prop :=
  ∃ header, pemLine "-----BEGIN " text = some header ∧ firstEndLine (text.drop header) = none

theorem pemLine_spec {start : String} {text : List Char} {length : Nat} (found : pemLine start text = some length) :
    ∃ label rest, text = start.toList ++ (label ++ ("-----".toList ++ rest)) ∧
      (∀ c ∈ label, labelChar c = true) ∧ length = start.toList.length + label.length + 5 := by
  obtain ⟨behind, stripped, later⟩ := Option.bind_eq_some_iff.mp found
  unfold stripPrefix at stripped
  split at stripped
  · rename_i starts
    cases stripped
    dsimp only at later
    split at later
    · rename_i dashes
      cases later
      obtain ⟨more, rfl⟩ := List.isPrefixOf_iff_prefix.mp starts
      rw [List.drop_left] at dashes ⊢
      obtain ⟨rest, closed⟩ := List.isPrefixOf_iff_prefix.mp dashes.2
      refine ⟨more.takeWhile labelChar, rest, ?_, fun c member => List.mem_takeWhile_imp member, rfl⟩
      rw [closed, drop_takeWhile, List.takeWhile_append_dropWhile]
    · cases later
  · cases stripped

theorem firstEnd_suffix {matching : List Char → Option Nat} {part text : List Char} (suffix : part <:+ text)
    (found : firstEnd matching part ≠ none) : firstEnd matching text ≠ none := by
  induction text with
  | nil =>
      rw [List.suffix_nil.mp suffix] at found
      exact found
  | cons c rest ih =>
      rcases List.suffix_cons_iff.mp suffix with rfl | inside
      · exact found
      · rw [firstEnd_cons]
        intro nothing
        rw [Option.or_eq_none_iff, Option.map_eq_none_iff] at nothing
        exact ih inside nothing.2

/-- A line starts inside of another one at its last hyphens only. -/
theorem beginLine_overlap {text : List Char} {header count : Nat} (first : pemLine "-----BEGIN " text = some header)
    (later : 0 < count) (second : "-----BEGIN ".toList <+: text.drop count) : header ≤ count + 5 := by
  obtain ⟨label, rest, rfl, plain, rfl⟩ := pemLine_spec first
  have eleven : "-----BEGIN ".toList.length = 11 := rfl
  rw [eleven]
  by_contra early
  by_cases inWord : count < 11
  · have apart : ∀ place < 11, 0 < place → ∃ letter ∈ ("-----BEGIN ".toList.drop place).take 5, letter ≠ '-' := by
      decide
    obtain ⟨letter, member, other⟩ := apart count inWord later
    have hyphens : ∀ c ∈ (("-----BEGIN ".toList ++ (label ++ ("-----".toList ++ rest))).drop count).take 5,
        c = '-' := by
      obtain ⟨more, same⟩ := second
      rw [← same, List.take_append_of_le_length (by decide)]
      decide
    apply other
    apply hyphens
    rw [List.drop_append_of_le_length (by omega), List.take_append]
    exact List.mem_append_left _ member
  · obtain ⟨place, rfl⟩ : ∃ place, count = 11 + place := ⟨count - 11, by omega⟩
    rw [← List.drop_drop, ← eleven, List.drop_left, List.drop_append_of_le_length (by omega)] at second
    have inside : place < label.length := by omega
    rw [List.drop_eq_getElem_cons inside, List.cons_append] at second
    have hyphen := (List.cons_prefix_cons.mp (show '-' :: "----BEGIN ".toList <+: _ from second)).1
    have noHyphen := plain _ (List.getElem_mem inside)
    rw [← hyphen] at noHyphen
    exact absurd noHyphen (by decide)

theorem pemBlock_quote (previous : Option Char) (front rest : List Char) :
    pemBlock previous (front ++ '\x22' :: rest) = (pemLine "-----BEGIN " front).bind fun header =>
      ((firstEndLine (front.drop header)).or
        ((firstEndLine rest).map (· + ((front.drop header).length + 1)))).map fun body => (0, header + body) := by
  have lines : QuoteLocal (pemLine "-----BEGIN ") := pemLine_local (by decide)
  rw [pemBlock_eq, lines]
  cases found : pemLine "-----BEGIN " front with
  | none => rfl
  | some header =>
      rw [Option.bind_some, Option.bind_some,
        List.drop_append_of_le_length (pemLine_within _ _ _ found), firstEndLine_quote]

theorem pemBlock_closed {text : List Char} (closed : ¬ OpensAt text) (previous : Option Char) (rest : List Char) :
    pemBlock previous (text ++ '\x22' :: rest) = pemBlock previous text := by
  rw [pemBlock_quote, pemBlock_eq]
  cases found : pemLine "-----BEGIN " text with
  | none => rfl
  | some header =>
      cases ends : firstEndLine (text.drop header) with
      | none => exact absurd ⟨header, found, ends⟩ closed
      | some body => rw [Option.bind_some, Option.bind_some, ends, Option.some_or]

theorem pemBlock_endless {rest : List Char} (endless : firstEndLine rest = none) (previous : Option Char)
    (text : List Char) : pemBlock previous (text ++ '\x22' :: rest) = pemBlock previous text := by
  rw [pemBlock_quote, pemBlock_eq, endless]
  simp

theorem pemBlock_inert {c : Char} (other : c ≠ '-') (previous : Option Char) (rest : List Char) :
    pemBlock previous (c :: rest) = none := by
  cases found : pemBlock previous (c :: rest) with
  | none => rfl
  | some lengths =>
      obtain ⟨header, body, starts, -⟩ := pemBlock_spec found
      have same := (List.cons_prefix_cons.mp (pemLine_starts starts).1).1
      exact absurd same.symm other

theorem pemBlock_start (previous : Option Char) (text : List Char) :
    replaceFrom pemBlock redactedMark previous text = replaceAll pemBlock redactedMark text := by
  have same : pemBlock previous = pemBlock none := rfl
  exact replaceFrom_start same redactedMark text

theorem pemBlock_quoted (previous : Option Char) (rest : List Char) :
    replaceFrom pemBlock redactedMark previous ('\x22' :: rest) = '\x22' :: replaceAll pemBlock redactedMark rest := by
  rw [replaceFrom_none (pemBlock_inert (show '\x22' ≠ '-' by decide) previous rest), pemBlock_start]

/-- The replacement of the blocks splits at a quotation mark behind which no block ends. -/
theorem pemBlock_split {rest : List Char} (endless : firstEndLine rest = none) (previous : Option Char)
    (front : List Char) : replaceFrom pemBlock redactedMark previous (front ++ '\x22' :: rest) =
      replaceAll pemBlock redactedMark front ++ '\x22' :: replaceAll pemBlock redactedMark rest := by
  have agree : ∀ other text back, text ≠ [] → ¬ False → back = '\x22' :: rest →
      pemBlock other (text ++ back) = pemBlock other text := by
    rintro other text back - - rfl
    exact pemBlock_endless endless other text
  rcases replaceFrom_cut pemBlock_sound agree front previous with whole | ⟨_, _, _, _, _, absurdly, _⟩
  · rw [whole _ rfl, pemBlock_quoted, pemBlock_start]
  · exact absurdly.elim

/-- No block starts behind an open one. -/
theorem OpensAt.replaceAll {text : List Char} (opens : OpensAt text) : replaceAll pemBlock redactedMark text = text := by
  obtain ⟨header, begins, endless⟩ := opens
  apply replaceAll_of_marked pemBlock_sound
  intro part member
  obtain ⟨previous, rest, kept, replaced, suffix, found, -⟩ := foundTexts_match member
  obtain ⟨inner, body, starts, ends, -⟩ := pemBlock_spec found
  obtain ⟨front, rfl⟩ := suffix
  have ended : firstEndLine (rest.drop inner) ≠ none := by
    rw [firstEndLine, ends]
    exact Option.some_ne_none body
  have bounded : header ≤ front.length + inner := by
    cases front with
    | nil =>
        rw [List.nil_append] at begins
        rw [begins] at starts
        cases starts
        exact Nat.le_add_left header 0
    | cons c front =>
        have begun := pemLine_starts starts
        have eleven : "-----BEGIN ".toList.length = 11 := rfl
        have early := beginLine_overlap begins (show 0 < (c :: front).length from Nat.succ_pos _)
          (by rw [List.drop_left]; exact begun.1)
        omega
  refine absurd endless (firstEnd_suffix ?_ ended)
  have whole : rest.drop inner = ((front ++ rest).drop header).drop (front.length + inner - header) := by
    rw [List.drop_drop, Nat.add_sub_cancel' bounded, ← List.drop_drop, List.drop_left]
  rw [whole]
  exact List.drop_suffix _ _

/-- A block that has no end is left of a text. -/
def leavesOpen (text : List Char) : Bool :=
  (firstEnd (pemLine "-----BEGIN ") (replaceAll pemBlock redactedMark text)).isSome

/-- The replacement of the blocks splits at a quotation mark, or a block is open in front of it. -/
theorem pemBlock_cut (front : List Char) :
    (∀ previous rest, replaceFrom pemBlock redactedMark previous (front ++ '\x22' :: rest) =
        replaceAll pemBlock redactedMark front ++ '\x22' :: replaceAll pemBlock redactedMark rest) ∨
      ∃ shown text, OpensAt text ∧ replaceAll pemBlock redactedMark front = shown ++ text ∧
        ∀ previous rest, replaceFrom pemBlock redactedMark previous (front ++ '\x22' :: rest) =
          shown ++ replaceAll pemBlock redactedMark (text ++ '\x22' :: rest) := by
  have agree : ∀ other text back, text ≠ [] → ¬ OpensAt text → (∃ rest, back = '\x22' :: rest) →
      pemBlock other (text ++ back) = pemBlock other text := by
    rintro other text back - closed ⟨rest, rfl⟩
    exact pemBlock_closed closed other rest
  rcases replaceFrom_cut pemBlock_sound agree front none with
    whole | ⟨shown, other, text, -, -, opens, alone, whole⟩
  · refine .inl fun previous rest => ?_
    have split := whole _ ⟨rest, rfl⟩
    rw [pemBlock_quoted] at split
    exact (pemBlock_start previous _).trans split
  · rw [pemBlock_start other, opens.replaceAll] at alone
    refine .inr ⟨shown, text, opens, alone, fun previous rest => ?_⟩
    have split := whole _ ⟨rest, rfl⟩
    rw [pemBlock_start other] at split
    exact (pemBlock_start previous _).trans split

/-- The replacement of the blocks splits at a quotation mark behind a text that leaves no block open. -/
theorem pemBlock_settled {front : List Char} (settled : leavesOpen front = false) (previous : Option Char)
    (rest : List Char) : replaceFrom pemBlock redactedMark previous (front ++ '\x22' :: rest) =
      replaceAll pemBlock redactedMark front ++ '\x22' :: replaceAll pemBlock redactedMark rest := by
  rcases pemBlock_cut front with splits | ⟨shown, text, ⟨header, begins, -⟩, alone, -⟩
  · exact splits previous rest
  · have here : firstEnd (pemLine "-----BEGIN ") text ≠ none := by
      cases text with
      | nil =>
          rw [pemLine_nil (by decide)] at begins
          cases begins
      | cons c text =>
          rw [firstEnd_cons, begins, Option.some_or]
          exact Option.some_ne_none header
    rw [leavesOpen, alone, Option.isSome_eq_false_iff, Option.isNone_iff_eq_none] at settled
    exact absurd settled (firstEnd_suffix (List.suffix_append shown text) here)

/-! ### Assignments -/

/-- The kept part of an assignment, whose value may be empty. -/
def assignmentHead (previous : Option Char) (text : List Char) : Option Nat :=
  if wordStarts previous then
    (literalMarker sensitiveWords (asciiLowercase text)).bind fun word =>
      let before := ((text.drop word).takeWhile spaceChar).length
      match text.drop (word + before) with
      | sign :: rest =>
          if sign = ':' ∨ sign = '=' then some (word + before + 1 + (rest.takeWhile spaceChar).length) else none
      | [] => none
  else none

theorem sensitiveAssignment_eq (previous : Option Char) (text : List Char) :
    sensitiveAssignment previous text = (assignmentHead previous text).bind fun kept =>
      let value := ((text.drop kept).takeWhile fun c => !endsAssignment c).length
      if 1 ≤ value then some (kept, value) else none := by
  unfold sensitiveAssignment assignmentHead
  split
  · cases literalMarker sensitiveWords (asciiLowercase text) with
    | none => rfl
    | some word =>
        rw [Option.bind_some, Option.bind_some]
        dsimp only
        cases behind : text.drop (word + ((text.drop word).takeWhile spaceChar).length) with
        | nil => rfl
        | cons sign rest =>
            dsimp only
            by_cases assigns : sign = ':' ∨ sign = '='
            · have tail (more : Nat) :
                  text.drop (word + ((text.drop word).takeWhile spaceChar).length + 1 + more) = rest.drop more := by
                rw [← List.drop_drop, ← List.drop_drop, behind]
                rfl
              rw [if_pos assigns, Option.bind_some, tail]
              simp only [assigns, true_and]
            · rw [if_neg assigns, Option.bind_none, if_neg (fun fits => assigns fits.1)]
  · rfl

theorem assignmentHead_quote (previous : Option Char) (front rest : List Char) :
    assignmentHead previous (front ++ '\x22' :: rest) = assignmentHead previous front := by
  have words : QuoteLocal (literalMarker sensitiveWords) := literalMarker_local (by decide)
  have lower : asciiLowercase (front ++ '\x22' :: rest) = asciiLowercase front ++ '\x22' :: asciiLowercase rest := by
    rw [asciiLowercase, List.map_append]
    rfl
  unfold assignmentHead
  split
  · rw [lower, words]
    cases found : literalMarker sensitiveWords (asciiLowercase front) with
    | none => rfl
    | some word =>
        have inside := literalMarker_within _ _ _ found
        rw [asciiLowercase, List.length_map] at inside
        have spaces := takeWhile_length_le spaceChar (front.drop word)
        rw [List.length_drop] at spaces
        rw [Option.bind_some, Option.bind_some, List.drop_append_of_le_length inside]
        dsimp only
        rw [takeWhile_quote (by decide), List.drop_append_of_le_length (by omega)]
        cases front.drop (word + ((front.drop word).takeWhile spaceChar).length) with
        | nil => rfl
        | cons sign more =>
            rw [List.cons_append]
            dsimp only
            rw [takeWhile_quote (by decide)]
  · rfl

theorem assignmentHead_within {previous : Option Char} {text : List Char} {kept : Nat}
    (found : assignmentHead previous text = some kept) : kept ≤ text.length := by
  unfold assignmentHead at found
  split at found
  · obtain ⟨word, -, later⟩ := Option.bind_eq_some_iff.mp found
    dsimp only at later
    split at later
    · rename_i sign rest behind
      split at later
      · cases later
        have length := congrArg List.length behind
        have spaces := takeWhile_length_le spaceChar rest
        rw [List.length_drop, List.length_cons] at length
        omega
      · cases later
    · cases later
  · cases found

/-- The value of an assignment reaches the end of the text, or it starts there. -/
def AssignsAtEnd (previous : Option Char) (text : List Char) : Prop :=
  ∃ kept, assignmentHead previous text = some kept ∧ ∀ c ∈ text.drop kept, endsAssignment c = false

theorem sensitiveAssignment_closed {previous : Option Char} {text : List Char}
    (closed : ¬ AssignsAtEnd previous text) (rest : List Char) :
    sensitiveAssignment previous (text ++ '\x22' :: rest) = sensitiveAssignment previous text := by
  rw [sensitiveAssignment_eq, sensitiveAssignment_eq, assignmentHead_quote]
  cases found : assignmentHead previous text with
  | none => rfl
  | some kept =>
      have ends : ((text.drop kept).takeWhile fun c => !endsAssignment c).length ≠ (text.drop kept).length := by
        intro whole
        have all := List.takeWhile_eq_self_iff.mp ((List.takeWhile_prefix _).eq_of_length whole)
        exact closed ⟨kept, found, fun c member => by simpa using all c member⟩
      rw [Option.bind_some, Option.bind_some, List.drop_append_of_le_length (assignmentHead_within found),
        List.takeWhile_append, if_neg ends]

/-- The value goes on behind the quotation mark up to its end. -/
theorem sensitiveAssignment_crosses {previous : Option Char} {text : List Char}
    (assigns : AssignsAtEnd previous text) :
    ∃ shown, ∀ rest, ∃ last, replaceFrom sensitiveAssignment redactedMark previous (text ++ '\x22' :: rest) =
      shown ++ (redactedMark ++
        replaceFrom sensitiveAssignment redactedMark last (rest.dropWhile fun c => !endsAssignment c)) := by
  obtain ⟨kept, found, plain⟩ := assigns
  have inside := assignmentHead_within found
  refine ⟨text.take kept, fun rest => ?_⟩
  have run : (text.drop kept ++ '\x22' :: rest).takeWhile (fun c => !endsAssignment c) =
      text.drop kept ++ '\x22' :: rest.takeWhile fun c => !endsAssignment c := by
    rw [List.takeWhile_append_of_pos (fun c member => by simp [plain c member]),
      List.takeWhile_cons_of_pos (by decide)]
  have length : ((text.drop kept ++ '\x22' :: rest).takeWhile fun c => !endsAssignment c).length =
      text.length - kept + ((rest.takeWhile fun c => !endsAssignment c).length + 1) := by
    rw [run, List.length_append, List.length_cons, List.length_drop]
  have matched : sensitiveAssignment previous (text ++ '\x22' :: rest) =
      some (kept, text.length - kept + ((rest.takeWhile fun c => !endsAssignment c).length + 1)) := by
    rw [sensitiveAssignment_eq, assignmentHead_quote, found, Option.bind_some,
      List.drop_append_of_le_length inside]
    dsimp only
    rw [length, if_pos (by omega)]
  have whole : kept + (text.length - kept + ((rest.takeWhile fun c => !endsAssignment c).length + 1)) =
      text.length + ((rest.takeWhile fun c => !endsAssignment c).length + 1) := by omega
  have replaced := @replaceFrom_some _ _ redactedMark _ sensitiveAssignment_sound _ _ _ matched
  rw [List.take_append_of_le_length inside, whole, List.drop_length_add_append, List.drop_succ_cons,
    drop_takeWhile] at replaced
  exact ⟨_, replaced⟩

theorem sensitiveAssignment_word {previous : Option Char} {text : List Char} {lengths : Nat × Nat}
    (found : sensitiveAssignment previous text = some lengths) :
    ∃ word ∈ sensitiveWords, word.toList <+: asciiLowercase text := by
  obtain ⟨word, before, after, marked, -⟩ := sensitiveAssignment_spec found
  obtain ⟨marker, member, starts, -⟩ := literalMarker_prefix marked
  exact ⟨marker, member, starts⟩

/-- The replacement of the assignments splits at every quotation mark behind a text, or a value
goes on behind it. -/
theorem sensitiveAssignment_cut (front : List Char) :
    (∀ rest, replaceFrom sensitiveAssignment redactedMark (some '\x22') (front ++ '\x22' :: rest) =
        replaceAll sensitiveAssignment redactedMark front ++ '\x22' :: replaceAll sensitiveAssignment redactedMark rest) ∨
      ∃ shown, ∀ rest, ∃ last,
        replaceFrom sensitiveAssignment redactedMark (some '\x22') (front ++ '\x22' :: rest) =
          shown ++ (redactedMark ++
            replaceFrom sensitiveAssignment redactedMark last (rest.dropWhile fun c => !endsAssignment c)) := by
  have starts : sensitiveAssignment (some '\x22') = sensitiveAssignment none := by
    funext text
    rw [sensitiveAssignment, sensitiveAssignment, wordStarts_quote]
  have inert (previous : Option Char) (rest : List Char) : sensitiveAssignment previous ('\x22' :: rest) = none := by
    cases found : sensitiveAssignment previous ('\x22' :: rest) with
    | none => rfl
    | some lengths =>
        have apart : ∀ word ∈ sensitiveWords, word.toList ≠ [] ∧ word.toList.head? ≠ some '\x22' := by decide
        obtain ⟨word, member, begins⟩ := sensitiveAssignment_word found
        obtain ⟨filled, other⟩ := apart word member
        obtain ⟨c, more, letters⟩ := List.exists_cons_of_ne_nil filled
        rw [letters, asciiLowercase, List.map_cons] at begins
        have same := (List.cons_prefix_cons.mp begins).1
        rw [letters, same] at other
        exact absurd rfl other
  have agree : ∀ other text back, text ≠ [] → ¬ AssignsAtEnd other text → (∃ rest, back = '\x22' :: rest) →
      sensitiveAssignment other (text ++ back) = sensitiveAssignment other text := by
    rintro other text back - closed ⟨rest, rfl⟩
    exact sensitiveAssignment_closed closed rest
  rcases replaceFrom_cut sensitiveAssignment_sound agree front (some '\x22') with
    whole | ⟨shown, other, text, -, -, assigns, -, whole⟩
  · refine .inl fun rest => ?_
    rw [whole _ ⟨rest, rfl⟩, replaceFrom_none (inert _ rest), replaceFrom_start starts, replaceFrom_start starts]
    rfl
  · obtain ⟨more, crosses⟩ := sensitiveAssignment_crosses assigns
    refine .inr ⟨shown ++ more, fun rest => ?_⟩
    obtain ⟨last, crossed⟩ := crosses rest
    refine ⟨last, ?_⟩
    rw [whole _ ⟨rest, rfl⟩, crossed, List.append_assoc]

end PiTools.PiWorker
