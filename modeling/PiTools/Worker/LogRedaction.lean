import PiTools.Library.ByteText
import PiTools.Library.Unlines
import PiTools.Worker.Evidence

/-
This file follows the redaction of a log by byte offsets and shows that it ends,
which tokens and assignments it removes, and which key blocks it hides.
-/

namespace PiTools

open Library

/-! ### The loops -/

/-- The loop behind a marker. It stops without a value when a slice is no text or the fuel is used
up. -/
def redactTokenMarkerFrom (marker : List Char) : Nat → List Char → Nat → Option (List Char)
  | 0, _, _ => none
  | fuel + 1, value, searchFrom => do
      let tail ← dropBytes searchFrom value
      match findText marker tail with
      | none => pure value
      | some relative =>
          let start := searchFrom + relative
          let word ← dropBytes start value
          let stop := ((findChar isWhitespace word).map (start + ·)).getD (byteLength value)
          let value ← replaceRange start stop redaction value
          redactTokenMarkerFrom marker fuel value (start + byteLength redaction)

def redactLineSteps (fuel : Nat) (originalLine : List Char) : Option (List Char) := do
  let line ← tokenMarkers.foldlM (fun line marker => redactTokenMarkerFrom marker fuel line 0) originalLine
  let normalized := asciiLowercase line
  if assignmentMarkers.any fun marker => containsText marker normalized then
    let separator := (findChar isSeparator line).getD (byteLength line)
    let front ← takeBytes (min separator (byteLength line - 1) + 1) line
    pure (front ++ redaction)
  else pure line

def redactLinesSteps (fuel : Nat) : Bool → List (List Char) → Option (List (List Char))
  | _, [] => some []
  | inPem, line :: rest => do
      if inPem || beginsPem line then
        let rest ← redactLinesSteps fuel (!endsPem line) rest
        pure (redaction :: rest)
      else
        let line ← redactLineSteps fuel line
        let rest ← redactLinesSteps fuel false rest
        pure (line :: rest)

def redactCiTextSteps (fuel : Nat) (value : List Char) : Option (List Char) :=
  (redactLinesSteps fuel false (lines value)).map joinLines

/-- With enough fuel the steps end in the result. -/
def Ends {Result : Type} (steps : Nat → Option Result) (result : Result) : Prop :=
  ∃ bound, ∀ fuel, bound ≤ fuel → steps fuel = some result

section Ends

variable {First Second : Type}

theorem Ends.bind {steps : Nat → Option First} {first : First} (ends : Ends steps first)
    {next : Nat → First → Option Second} {second : Second}
    (later : Ends (fun fuel => next fuel first) second) :
    Ends (fun fuel => steps fuel >>= next fuel) second := by
  obtain ⟨bound, enough⟩ := ends
  obtain ⟨bound', enough'⟩ := later
  refine ⟨max bound bound', fun fuel large => ?_⟩
  dsimp only
  rw [enough fuel (by omega)]
  exact enough' fuel (by omega)

theorem Ends.pure (result : First) : Ends (fun _ => some result) result := ⟨0, fun _ _ => rfl⟩

end Ends

/-- What the loop leaves of the text behind the place from which it searches. -/
def hideTails (marker text : List Char) : List Char :=
  fill redaction (gaps marker.isPrefixOf isWhitespace text)

theorem hideTails_absent {marker text : List Char} (absent : ¬ marker <:+: text) :
    hideTails marker text = text := by
  have quiet : gaps marker.isPrefixOf isWhitespace (text ++ []) =
      text.map some ++ gaps marker.isPrefixOf isWhitespace [] := by
    apply gaps_append
    intro front back same _
    rw [List.append_nil, Bool.eq_false_iff]
    intro starts
    exact absent (same ▸ (List.isPrefixOf_iff_prefix.mp starts).isInfix.trans
      (List.suffix_append front back).isInfix)
  rw [List.append_nil] at quiet
  rw [hideTails, quiet, fill_append, fill_map_some]
  exact List.append_nil text

/-- The first marker and the rest of its word give way to the mark. -/
theorem hideTails_append {marker before tail : List Char} (inWord : InWord isWhitespace marker)
    (starts : marker <+: tail)
    (first : ∀ front back, before = front ++ back → back ≠ [] → ¬ marker <+: back ++ tail) :
    hideTails marker (before ++ tail) =
      before ++ (redaction ++ hideTails marker (tail.dropWhile fun c => !isWhitespace c)) := by
  obtain ⟨c, word, rfl⟩ := List.exists_cons_of_ne_nil inWord.1
  obtain ⟨rest, rfl⟩ := starts
  have kept : gaps (c :: word).isPrefixOf isWhitespace (before ++ (c :: word ++ rest)) =
      before.map some ++ gaps (c :: word).isPrefixOf isWhitespace (c :: word ++ rest) := by
    apply gaps_append
    intro front back same visible
    rw [Bool.eq_false_iff]
    exact mt List.isPrefixOf_iff_prefix.mp (first front back same visible)
  have begins : (c :: word).isPrefixOf (c :: (word ++ rest)) = true :=
    List.isPrefixOf_iff_prefix.mpr ⟨rest, rfl⟩
  have gap := gaps_start begins (inWord.2 c (.head _))
  rw [hideTails, kept, fill_append, fill_map_some, List.cons_append, gap, fill_none]
  rfl

theorem redactTokenMarkerFrom_eq {marker : List Char} (inWord : InWord isWhitespace marker)
    (fuel : Nat) (done rest : List Char) (enough : rest.length < fuel) :
    redactTokenMarkerFrom marker fuel (done ++ rest) (byteLength done) =
      some (done ++ hideTails marker rest) := by
  induction fuel generalizing done rest with
  | zero => omega
  | succ fuel ih =>
      rw [redactTokenMarkerFrom, dropBytes_append]
      dsimp only [bind, Option.bind]
      rcases findText_cases inWord.1 rest with ⟨none, absent⟩ | ⟨before, tail, rfl, found, starts, first⟩
      · rw [none, hideTails_absent absent]
        rfl
      · -- The word of the marker ends at the next white space or at the end of the text.
        have word := List.takeWhile_append_dropWhile (p := fun c => !isWhitespace c) (l := tail)
        have slice := dropBytes_append (done ++ before) tail
        rw [byteLength_append, List.append_assoc] at slice
        have stop : ((findChar isWhitespace tail).map (byteLength done + byteLength before + ·)).getD
            (byteLength (done ++ (before ++ tail))) = byteLength (done ++ before) +
              byteLength (tail.takeWhile fun c => !isWhitespace c) := by
          rw [← findChar_getD, byteLength_append, byteLength_append, byteLength_append]
          cases findChar isWhitespace tail with
          | none => simp [Nat.add_assoc]
          | some offset => rfl
        have replaced := replaceRange_append (done ++ before) (tail.takeWhile fun c => !isWhitespace c)
          redaction (tail.dropWhile fun c => !isWhitespace c)
        rw [word, List.append_assoc] at replaced
        have shorter : (tail.dropWhile fun c => !isWhitespace c).length < fuel := by
          obtain ⟨c, marker', rfl⟩ := List.exists_cons_of_ne_nil inWord.1
          obtain ⟨more, rfl⟩ := starts
          have plain := inWord.2 c (.head _)
          have less : ((marker' ++ more).dropWhile fun c => !isWhitespace c).length ≤
              (marker' ++ more).length := (List.dropWhile_sublist _).length_le
          rw [List.cons_append, List.dropWhile_cons, plain]
          simp only [List.length_append, List.length_cons] at enough less
          simp only [Bool.not_false, if_true]
          omega
        have later := ih (done ++ before ++ redaction) (tail.dropWhile fun c => !isWhitespace c) shorter
        rw [found]
        dsimp only
        rw [slice]
        dsimp only
        rw [stop, ← byteLength_append, replaced]
        dsimp only
        rw [← byteLength_append, hideTails_append inWord starts first]
        simpa only [List.append_assoc] using later

theorem redactTokenMarker_eq {marker : List Char} (inWord : InWord isWhitespace marker)
    (value : List Char) : redactTokenMarker value marker = hideTails marker value :=
  replaceAll_tailFinder inWord value

theorem redactTokenMarker_ends {marker : List Char} (inWord : InWord isWhitespace marker)
    (value : List Char) :
    Ends (fun fuel => redactTokenMarkerFrom marker fuel value 0) (redactTokenMarker value marker) := by
  refine ⟨value.length + 1, fun fuel large => ?_⟩
  rw [redactTokenMarker_eq inWord]
  exact redactTokenMarkerFrom_eq inWord fuel [] value (by omega)

theorem redactTokens_ends (markers : List (List Char))
    (inWord : ∀ marker ∈ markers, InWord isWhitespace marker) (line : List Char) :
    Ends (fun fuel => markers.foldlM (fun line marker => redactTokenMarkerFrom marker fuel line 0) line)
      (markers.foldl redactTokenMarker line) := by
  induction markers generalizing line with
  | nil => exact Ends.pure line
  | cons marker markers ih =>
      obtain ⟨here, later⟩ := List.forall_mem_cons.mp inWord
      simp only [List.foldlM_cons, List.foldl_cons]
      exact (redactTokenMarker_ends here line).bind (ih later _)

/-- An assignment has a separator, so the line is cut behind a character. -/
theorem takeBytes_separator {line : List Char} (separated : ∃ c ∈ line, isSeparator c = true) :
    takeBytes (min ((findChar isSeparator line).getD (byteLength line)) (byteLength line - 1) + 1) line =
      some (line.take (min (line.findIdx isSeparator) (line.length - 1) + 1)) := by
  have one : ∀ c, isSeparator c = true → c.utf8Size = 1 := by
    intro c separates
    rcases Bool.or_eq_true_iff.mp separates with equals | colon
    · rw [of_decide_eq_true equals]
      rfl
    · rw [of_decide_eq_true colon]
      rfl
  obtain ⟨before, c, rest, same, separates, first⟩ : ∃ before c rest, line = before ++ c :: rest ∧
      isSeparator c = true ∧ ∀ d ∈ before, isSeparator d = false := by
    rcases exists_first isSeparator line with none | ⟨before, c, rest, same, first, separates⟩
    · obtain ⟨c, member, separates⟩ := separated
      rw [none c member] at separates
      cases separates
    · exact ⟨before, c, rest, same, separates, first⟩
  subst same
  have kept : (before ++ c :: rest).takeWhile (fun c => !isSeparator c) = before := by
    rw [List.takeWhile_append_of_pos fun d member => by simp [first d member]]
    simp [separates]
  have found : findChar isSeparator (before ++ c :: rest) = some (byteLength before) := by
    rw [findChar_eq, kept, if_pos]
    simp [separates]
  have index : (before ++ c :: rest).findIdx isSeparator = before.length := by
    rw [List.findIdx_append, if_neg, List.findIdx_cons, separates, cond_true, Nat.zero_add]
    simpa using first
  have size := one c separates
  have bytes : byteLength (before ++ c :: rest) = byteLength before + 1 + byteLength rest := by
    rw [byteLength_append, byteLength_cons, size, Nat.add_assoc]
  have chars : (before ++ c :: rest).length = before.length + 1 + rest.length := by
    rw [List.length_append, List.length_cons]
    omega
  have least : min (byteLength before) (byteLength (before ++ c :: rest) - 1) + 1 =
      byteLength (before ++ [c]) := by
    rw [bytes, byteLength_append, byteLength_cons, size]
    simp only [byteLength, List.foldr_nil]
    omega
  have place : min before.length ((before ++ c :: rest).length - 1) + 1 = (before ++ [c]).length := by
    rw [chars, List.length_append, List.length_singleton]
    omega
  have split : before ++ c :: rest = before ++ [c] ++ rest := by simp
  rw [found, Option.getD_some, least, index, place, split, takeBytes_append, List.take_left]

/-- A line that assigns a secret has a separator. -/
theorem assigned_separated {line : List Char} (assigned : (assignmentMarkers.any fun marker =>
    containsText marker (asciiLowercase line)) = true) : ∃ c ∈ line, isSeparator c = true := by
  obtain ⟨marker, member, occurs⟩ := List.any_eq_true.mp assigned
  have separated : ∀ marker ∈ assignmentMarkers, ∃ c ∈ marker, isSeparator c = true := by decide
  obtain ⟨c, inside, separates⟩ := separated marker member
  obtain ⟨d, known, lowered⟩ := List.mem_map.mp ((containsText_iff.mp occurs).subset inside)
  refine ⟨d, known, ?_⟩
  rw [← toLower_invariant isSeparator (by decide), lowered, separates]

theorem redactLine_ends (line : List Char) :
    Ends (fun fuel => redactLineSteps fuel line) (redactLine line) := by
  have tokens := redactTokens_ends tokenMarkers (fun marker member =>
    tokenMarkers_suited.inWord marker member) line
  refine tokens.bind ?_
  rw [redactLine]
  dsimp only
  split
  · rename_i assigned
    rw [takeBytes_separator (assigned_separated assigned)]
    exact Ends.pure _
  · exact Ends.pure _

theorem redactLines_ends (inPem : Bool) (lines : List (List Char)) :
    Ends (fun fuel => redactLinesSteps fuel inPem lines) (redactLines inPem lines) := by
  induction lines generalizing inPem with
  | nil => exact Ends.pure []
  | cons line rest ih =>
      rw [redactLines]
      simp only [redactLinesSteps]
      split
      · exact (ih _).bind (Ends.pure _)
      · exact (redactLine_ends line).bind ((ih false).bind (Ends.pure _))

theorem redactCiText_ends (text : List Char) :
    Ends (fun fuel => redactCiTextSteps fuel text) (redactCiText text) := by
  obtain ⟨bound, enough⟩ := redactLines_ends false (lines text)
  refine ⟨bound, fun fuel large => ?_⟩
  have ended : redactLinesSteps fuel false (lines text) = some (redactLines false (lines text)) :=
    enough fuel large
  dsimp only
  rw [redactCiTextSteps, ended, Option.map_some, redactCiText]

/-! ### Tokens and assignments -/

/-- No marker is left where each of them starts a gap. -/
theorem redactTokens_clean {marker : List Char} (member : marker ∈ tokenMarkers) (line : List Char) :
    ¬ marker <:+: tokenMarkers.foldl redactTokenMarker line := by
  have foreign : Foreign redaction marker := by
    have known : ∀ marker ∈ tokenMarkers, marker ≠ [] ∧ '[' ∉ marker ∧ ']' ∉ marker ∧
        containsText marker redaction = false := by decide
    obtain ⟨visible, first, last, outside⟩ := known marker member
    refine ⟨visible, fun c head => ?_, fun c head => ?_, ?_⟩
    · cases head
      exact first
    · cases head
      exact last
    · rw [← containsText_iff, outside]
      exact Bool.false_ne_true
  have inWord := tokenMarkers_suited.inWord marker member
  rw [redactTokens_eq, ← containsText_iff, containsText_fill foreign (by decide)]
  refine not_infix_gaps inWord.1 inWord.2 fun rest starts => ?_
  exact List.any_eq_true.mpr ⟨marker, member, List.isPrefixOf_iff_prefix.mpr starts⟩

theorem not_infix_append_redaction {marker front : List Char} (absent : ¬ marker <:+: front)
    (member : marker ∈ tokenMarkers) : ¬ marker <:+: front ++ redaction := by
  have known : ∀ marker ∈ tokenMarkers, marker ≠ [] ∧ '[' ∉ marker ∧
      containsText marker (redaction.drop 1) = false := by decide
  obtain ⟨visible, first, outside⟩ := known marker member
  have split : redaction = '[' :: redaction.drop 1 := by decide
  intro occurs
  rw [split] at occurs
  rcases infix_append_cons first occurs with left | right
  · exact absent left
  · rw [containsText_iff.mpr right] at outside
    cases outside

theorem redactLine_clean {marker : List Char} (member : marker ∈ tokenMarkers) (line : List Char) :
    ¬ marker <:+: redactLine line := by
  have clean := redactTokens_clean member line
  rw [redactLine]
  dsimp only
  split
  · refine not_infix_append_redaction (fun occurs => clean ?_) member
    exact occurs.trans (List.take_prefix _ _).isInfix
  · exact clean

theorem redactLines_clean {marker : List Char} (member : marker ∈ tokenMarkers) (inPem : Bool)
    (lines : List (List Char)) : ∀ line ∈ redactLines inPem lines, ¬ marker <:+: line := by
  have masked : ¬ marker <:+: redaction :=
    not_infix_append_redaction (fun occurs => tokenMarkers_suited.inWord marker member |>.1
      (List.infix_nil.mp occurs)) member
  induction lines generalizing inPem with
  | nil => simp [redactLines]
  | cons line rest ih =>
      rw [redactLines]
      split
      · exact List.forall_mem_cons.mpr ⟨masked, ih _⟩
      · exact List.forall_mem_cons.mpr ⟨redactLine_clean member line, ih false⟩

/-- The state of the loop behind some lines. -/
def insidePem : Bool → List (List Char) → Bool
  | inPem, [] => inPem
  | inPem, line :: rest => insidePem ((inPem || beginsPem line) && !endsPem line) rest

theorem redactLines_append (inPem : Bool) (before after : List (List Char)) :
    redactLines inPem (before ++ after) =
      redactLines inPem before ++ redactLines (insidePem inPem before) after := by
  induction before generalizing inPem with
  | nil => rfl
  | cons line rest ih =>
      rw [List.cons_append, redactLines, redactLines, insidePem]
      split
      · rename_i hidden
        rw [ih, hidden, Bool.true_and, List.cons_append]
      · rename_i shown
        rw [ih, Bool.eq_false_iff.mpr shown, Bool.false_and, List.cons_append]

theorem redactLines_length (inPem : Bool) (lines : List (List Char)) :
    (redactLines inPem lines).length = lines.length := by
  induction lines generalizing inPem with
  | nil => rfl
  | cons line rest ih =>
      rw [redactLines]
      split
      · rw [List.length_cons, List.length_cons, ih]
      · rw [List.length_cons, List.length_cons, ih]

/-- What stands in the place of a line depends on the state in front of it. -/
theorem redactLines_getElem (before after : List (List Char)) (line : List Char) :
    (redactLines false (before ++ line :: after))[before.length]? =
      some (if insidePem false before || beginsPem line then redaction else redactLine line) := by
  rw [redactLines_append, List.getElem?_append_right (by rw [redactLines_length]), redactLines_length,
    Nat.sub_self, redactLines]
  split
  · rfl
  · rfl

/-- A line that assigns a secret ends behind its first separator. -/
theorem redactLine_assigned {line : List Char} (assigned : ∃ marker ∈ assignmentMarkers,
    marker <:+: asciiLowercase (tokenMarkers.foldl redactTokenMarker line)) :
    ∃ front separator rest, tokenMarkers.foldl redactTokenMarker line = front ++ separator :: rest ∧
      isSeparator separator = true ∧ (∀ c ∈ front, isSeparator c = false) ∧
        redactLine line = front ++ separator :: redaction := by
  have found : (assignmentMarkers.any fun marker =>
      containsText marker (asciiLowercase (tokenMarkers.foldl redactTokenMarker line))) = true := by
    obtain ⟨marker, member, occurs⟩ := assigned
    exact List.any_eq_true.mpr ⟨marker, member, containsText_iff.mpr occurs⟩
  rcases exists_first isSeparator (tokenMarkers.foldl redactTokenMarker line) with
    none | ⟨front, c, rest, same, first, separates⟩
  · obtain ⟨c, member, separates⟩ := assigned_separated found
    rw [none c member] at separates
    cases separates
  · refine ⟨front, c, rest, same, separates, first, ?_⟩
    have index : (front ++ c :: rest).findIdx isSeparator = front.length := by
      rw [List.findIdx_append, if_neg, List.findIdx_cons, separates, cond_true, Nat.zero_add]
      simpa using first
    have place : min front.length ((front ++ c :: rest).length - 1) + 1 = (front ++ [c]).length := by
      rw [List.length_append, List.length_cons, List.length_append, List.length_singleton]
      omega
    have split : front ++ c :: rest = front ++ [c] ++ rest := by simp
    rw [redactLine]
    dsimp only
    rw [if_pos found, same, index, place, split, List.take_left]
    simp

/-- A line without a marker stays. -/
theorem redactLine_plain {line : List Char} (noToken : ∀ marker ∈ tokenMarkers, ¬ marker <:+: line)
    (noAssignment : ∀ marker ∈ assignmentMarkers, ¬ marker <:+: asciiLowercase line) :
    redactLine line = line := by
  have kept : ∀ markers : List (List Char), (∀ marker ∈ markers, InWord isWhitespace marker ∧ ¬ marker <:+: line) →
      markers.foldl redactTokenMarker line = line := by
    intro markers absent
    induction markers with
    | nil => rfl
    | cons marker rest ih =>
        obtain ⟨here, later⟩ := List.forall_mem_cons.mp absent
        rw [List.foldl_cons, redactTokenMarker_eq here.1, hideTails_absent here.2, ih later]
  have tokens := kept tokenMarkers fun marker member =>
    ⟨tokenMarkers_suited.inWord marker member, noToken marker member⟩
  rw [redactLine, tokens]
  dsimp only
  rw [if_neg]
  rw [Bool.not_eq_true, List.any_eq_false]
  intro marker member
  rw [containsText_iff]
  exact noAssignment marker member

theorem redactLines_plain {lines : List (List Char)}
    (noToken : ∀ marker ∈ tokenMarkers, ∀ line ∈ lines, ¬ marker <:+: line)
    (noAssignment : ∀ marker ∈ assignmentMarkers, ∀ line ∈ lines, ¬ marker <:+: asciiLowercase line)
    (noPem : ∀ line ∈ lines, beginsPem line = false) : redactLines false lines = lines := by
  induction lines with
  | nil => rfl
  | cons line rest ih =>
      obtain ⟨here, later⟩ := List.forall_mem_cons.mp noPem
      have plain := redactLine_plain (fun marker member => noToken marker member line (.head _))
        fun marker member => noAssignment marker member line (.head _)
      rw [redactLines, here, Bool.or_self, if_neg Bool.false_ne_true, plain,
        ih (fun marker member other inside => noToken marker member other (.tail _ inside))
          (fun marker member other inside => noAssignment marker member other (.tail _ inside)) later]

/-- The redaction of a log ends without a token, hides every assignment behind its separator, and
leaves a text alone that has nothing to hide. -/
theorem redactCiText_complete (text : List Char) :
    Ends (fun fuel => redactCiTextSteps fuel text) (redactCiText text) ∧
      (∀ marker ∈ tokenMarkers, ¬ marker <:+: redactCiText text) ∧
      (∀ before line after, lines text = before ++ line :: after →
        insidePem false before = false → beginsPem line = false →
        (∃ marker ∈ assignmentMarkers,
          marker <:+: asciiLowercase (tokenMarkers.foldl redactTokenMarker line)) →
        ∃ front separator rest,
          tokenMarkers.foldl redactTokenMarker line = front ++ separator :: rest ∧
            isSeparator separator = true ∧ (∀ c ∈ front, isSeparator c = false) ∧
            (redactLines false (lines text))[before.length]? =
              some (front ++ separator :: redaction)) ∧
      ((∀ marker ∈ tokenMarkers, ¬ marker <:+: text) →
        (∀ marker ∈ assignmentMarkers, ¬ marker <:+: asciiLowercase text) →
        ¬ "-----begin ".toList <:+: asciiLowercase text →
        redactCiText text = joinLines (lines text)) := by
  refine ⟨redactCiText_ends text, ?_, ?_, ?_⟩
  · intro marker member occurs
    have inWord := tokenMarkers_suited.inWord marker member
    have noBreak : '\n' ∉ marker := by
      intro inside
      cases inWord.2 '\n' inside
    obtain ⟨line, known, inside⟩ := infix_joinLines inWord.1 noBreak occurs
    exact redactLines_clean member false (lines text) line known inside
  · intro before line after same outside noPem assigned
    obtain ⟨front, separator, rest, split, separates, first, shown⟩ := redactLine_assigned assigned
    refine ⟨front, separator, rest, split, separates, first, ?_⟩
    rw [same, redactLines_getElem, outside, noPem, Bool.or_self, if_neg Bool.false_ne_true, shown]
  · intro noToken noAssignment noPem
    have lowered {line : List Char} (member : line ∈ lines text) :
        asciiLowercase line <:+: asciiLowercase text :=
      (infix_of_mem_lines member).map Char.toLower
    rw [redactCiText, redactLines_plain]
    · exact fun marker member line inside occurs =>
        noToken marker member (occurs.trans (infix_of_mem_lines inside))
    · exact fun marker member line inside occurs =>
        noAssignment marker member (occurs.trans (lowered inside))
    · intro line inside
      rw [beginsPem, Bool.eq_false_iff, Ne, containsText_iff]
      exact fun occurs => noPem (occurs.trans (lowered inside))

/-! ### Key blocks -/

def keyBegin : List Char := "-----begin ".toList

def keyEnd : List Char := "-----end ".toList

def startsMarker (marker text : List Char) : Bool := marker.isPrefixOf (asciiLowercase text)

/-- Whether a key block is open behind a line, as its markers are read one after another. -/
def openAfter : Bool → List Char → Bool
  | isOpen, [] => isOpen
  | isOpen, c :: rest =>
      openAfter (if startsMarker keyBegin (c :: rest) then true
        else if startsMarker keyEnd (c :: rest) then false else isOpen) rest

def openAfterLines (isOpen : Bool) (lines : List (List Char)) : Bool := lines.foldl openAfter isOpen

/-- The line opens a key block, or some of its text lies in front of the end of one. -/
def showsKey : Bool → List Char → Bool
  | _, [] => false
  | isOpen, c :: rest =>
      if startsMarker keyBegin (c :: rest) then true
      else if startsMarker keyEnd (c :: rest) then showsKey false rest
      else isOpen || showsKey isOpen rest

/-- Every line that shows something of a key block is replaced. -/
def KeysHidden (text : List Char) : Prop :=
  ∀ before line after, lines text = before ++ line :: after →
    showsKey (openAfterLines false before) line = true →
    (redactLines false (lines text))[before.length]? = some redaction

/-- The redaction of tokens leaves nothing of the line but the mark. -/
def Masked (line : List Char) : Prop :=
  line = redaction ∨ startsAny tokenMarkers line = true ∧ ∀ c ∈ line, isWhitespace c = false

instance (line : List Char) : Decidable (Masked line) := inferInstanceAs (Decidable (_ ∨ _))

theorem beginsPem_cons (c : Char) (rest : List Char) :
    beginsPem (c :: rest) = (startsMarker keyBegin (c :: rest) || beginsPem rest) := rfl

theorem endsPem_cons (c : Char) (rest : List Char) :
    endsPem (c :: rest) = (startsMarker keyEnd (c :: rest) || endsPem rest) := rfl

/-- Without a marker the block stays as it is. -/
theorem openAfter_quiet {line : List Char} (noBegin : beginsPem line = false)
    (noEnd : endsPem line = false) (isOpen : Bool) : openAfter isOpen line = isOpen := by
  induction line with
  | nil => rfl
  | cons c rest ih =>
      rw [beginsPem_cons, Bool.or_eq_false_iff] at noBegin
      rw [endsPem_cons, Bool.or_eq_false_iff] at noEnd
      rw [openAfter, noBegin.1, noEnd.1]
      exact ih noBegin.2 noEnd.2

theorem openAfter_begins {line : List Char} (noEnd : endsPem line = false) (isOpen : Bool)
    (opened : isOpen = true ∨ beginsPem line = true) : openAfter isOpen line = true := by
  induction line generalizing isOpen with
  | nil => exact opened.resolve_right (by decide)
  | cons c rest ih =>
      rw [endsPem_cons, Bool.or_eq_false_iff] at noEnd
      rw [openAfter, noEnd.1, if_neg Bool.false_ne_true]
      apply ih noEnd.2
      rw [beginsPem_cons, Bool.or_eq_true] at opened
      split
      · exact .inl rfl
      · rename_i noBegin
        exact opened.imp_right fun either => either.resolve_left noBegin

theorem openAfter_ends {line : List Char} (noBegin : beginsPem line = false) (isOpen : Bool)
    (closed : isOpen = false ∨ endsPem line = true) : openAfter isOpen line = false := by
  induction line generalizing isOpen with
  | nil => exact closed.resolve_right (by decide)
  | cons c rest ih =>
      rw [beginsPem_cons, Bool.or_eq_false_iff] at noBegin
      rw [openAfter, noBegin.1, if_neg Bool.false_ne_true]
      apply ih noBegin.2
      rw [endsPem_cons, Bool.or_eq_true] at closed
      split
      · exact .inl rfl
      · rename_i noEnd
        exact closed.imp_right fun either => either.resolve_left noEnd

/-- A line with an end does not depend on what was open in front of it. -/
theorem openAfter_of_ends {line : List Char} (closes : endsPem line = true) (isOpen : Bool) :
    openAfter isOpen line = openAfter false line := by
  induction line generalizing isOpen with
  | nil => cases closes
  | cons c rest ih =>
      rw [endsPem_cons, Bool.or_eq_true] at closes
      rw [openAfter, openAfter]
      split
      · rfl
      · split
        · rfl
        · rename_i noEnd
          exact ih (closes.resolve_left noEnd) isOpen

/-- Nothing is shown of a key where none is open and none begins. -/
theorem showsKey_quiet {line : List Char} (noBegin : beginsPem line = false) :
    showsKey false line = false := by
  induction line with
  | nil => rfl
  | cons c rest ih =>
      rw [beginsPem_cons, Bool.or_eq_false_iff] at noBegin
      rw [showsKey, noBegin.1, if_neg Bool.false_ne_true, Bool.false_or, ih noBegin.2, ite_self]

/-- The line closes a block and opens another one behind it. -/
def Reopens (line : List Char) : Prop := endsPem line = true ∧ openAfter false line = true

instance (line : List Char) : Decidable (Reopens line) := inferInstanceAs (Decidable (_ ∧ _))

/-- The loop never takes a closed block for an open one. -/
theorem insidePem_open (lines : List (List Char)) :
    insidePem false lines = true → openAfterLines false lines = true := by
  have run : ∀ (lines : List (List Char)) (inPem isOpen : Bool), (inPem = true → isOpen = true) →
      insidePem inPem lines = true → openAfterLines isOpen lines = true := by
    intro lines
    induction lines with
    | nil => exact fun _ _ covered => covered
    | cons line rest ih =>
        intro inPem isOpen covered inside
        rw [insidePem] at inside
        rw [openAfterLines, List.foldl_cons, ← openAfterLines]
        refine ih _ _ (fun hidden => ?_) inside
        rw [Bool.and_eq_true, Bool.or_eq_true, Bool.not_eq_true'] at hidden
        exact openAfter_begins hidden.2 isOpen (hidden.1.imp_left covered)
  exact run lines false false id

theorem insidePem_append (inPem : Bool) (before after : List (List Char)) :
    insidePem inPem (before ++ after) = insidePem (insidePem inPem before) after := by
  induction before generalizing inPem with
  | nil => rfl
  | cons line rest ih => exact ih _

/-- The loop takes an open block for a closed one behind a line that reopens, as long as no marker
follows. -/
theorem insidePem_missed (lines : List (List Char)) :
    (openAfterLines false lines = true ∧ insidePem false lines = false) ↔
      ∃ before line between, lines = before ++ line :: between ∧ Reopens line ∧
        ∀ other ∈ between, beginsPem other = false ∧ endsPem other = false := by
  constructor
  · rintro ⟨isOpen, missed⟩
    induction lines using List.reverseRecOn with
    | nil => cases isOpen
    | append_singleton front line ih =>
        rw [openAfterLines, List.foldl_append, List.foldl_cons, List.foldl_nil, ← openAfterLines] at isOpen
        rw [insidePem_append, insidePem, insidePem] at missed
        cases begins : beginsPem line with
        | false =>
            cases closes : endsPem line with
            | false =>
                rw [openAfter_quiet begins closes] at isOpen
                rw [begins, closes, Bool.or_false, Bool.not_false, Bool.and_true] at missed
                obtain ⟨before, other, between, same, reopens, quiet⟩ := ih isOpen missed
                refine ⟨before, other, between ++ [line], by simp [same], reopens, ?_⟩
                intro next member
                rcases List.mem_append.mp member with earlier | last
                · exact quiet next earlier
                · rw [List.mem_singleton.mp last]
                  exact ⟨begins, closes⟩
            | true =>
                rw [openAfter_ends begins _ (.inr closes)] at isOpen
                cases isOpen
        | true =>
            cases closes : endsPem line with
            | false =>
                rw [begins, closes, Bool.or_true, Bool.not_false, Bool.and_true] at missed
                cases missed
            | true =>
                rw [openAfter_of_ends closes] at isOpen
                exact ⟨front, line, [], rfl, ⟨closes, isOpen⟩, by simp⟩
  · rintro ⟨before, line, between, rfl, reopens, quiet⟩
    have kept : ∀ (lines : List (List Char)) (state : Bool),
        (∀ other ∈ lines, beginsPem other = false ∧ endsPem other = false) →
          openAfterLines state lines = state ∧ insidePem state lines = state := by
      intro lines state none
      induction lines with
      | nil => exact ⟨rfl, rfl⟩
      | cons line rest ih =>
          obtain ⟨here, later⟩ := List.forall_mem_cons.mp none
          rw [openAfterLines, List.foldl_cons, openAfter_quiet here.1 here.2, insidePem, here.1, here.2,
            Bool.or_false, Bool.not_false, Bool.and_true]
          exact ih later
    constructor
    · rw [openAfterLines, List.foldl_append, List.foldl_cons, openAfter_of_ends reopens.1, reopens.2]
      exact (kept between true quiet).1
    · rw [insidePem_append, insidePem, reopens.1, Bool.not_true, Bool.and_false]
      exact (kept between false quiet).2

/-- A line outside of a block gives way to the mark alone when it is one token. -/
theorem redactLine_masked (line : List Char) : redactLine line = redaction ↔ Masked line := by
  have separates : ∀ c ∈ redaction, isSeparator c = false := by decide
  have cells : gaps (startsAny tokenMarkers) isWhitespace line = [none] ↔
      startsAny tokenMarkers line = true ∧ ∀ c ∈ line, isWhitespace c = false := by
    rw [gaps_eq_gap]
    constructor
    · exact And.right
    · intro token
      refine ⟨fun empty => ?_, token⟩
      rw [empty] at token
      exact absurd token.1 (by decide)
  constructor
  · intro masked
    by_cases assigned : ∃ marker ∈ assignmentMarkers,
        marker <:+: asciiLowercase (tokenMarkers.foldl redactTokenMarker line)
    · obtain ⟨front, separator, rest, -, separator', -, shown⟩ := redactLine_assigned assigned
      have member : separator ∈ redaction := by
        rw [← masked, shown]
        simp
      rw [separates separator member] at separator'
      cases separator'
    · have plain : redactLine line = tokenMarkers.foldl redactTokenMarker line := by
        rw [redactLine]
        dsimp only
        rw [if_neg]
        intro found
        obtain ⟨marker, member, occurs⟩ := List.any_eq_true.mp found
        exact assigned ⟨marker, member, containsText_iff.mp occurs⟩
      rw [plain, redactTokens_eq] at masked
      by_cases gap : none ∈ gaps (startsAny tokenMarkers) isWhitespace line
      · obtain ⟨before, after, same⟩ := List.append_of_mem gap
        rw [same, fill_append, fill_none] at masked
        have sizes := congrArg List.length masked
        simp only [List.length_append] at sizes
        have empty : ∀ {cells : List (Option Char)}, (fill redaction cells).length = 0 → cells = [] := by
          intro cells none
          by_contra some'
          exact fill_ne_nil (by decide) some' (List.length_eq_zero_iff.mp none)
        rw [empty (by omega : (fill redaction before).length = 0),
          empty (by omega : (fill redaction after).length = 0)] at same
        exact .inr (cells.mp same)
      · rw [gaps_whole gap, fill_map_some] at masked
        exact .inl masked
  · rintro (rfl | token)
    · decide
    · have unassigned : ¬ Assigns [none] := by decide
      rw [redactLine_eq, shownLine, cells.mpr token]
      rw [if_neg unassigned, fill_none, fill_nil, List.append_nil]

/-- Key blocks are hidden exactly when behind every line that closes one block and opens another, as
far as no marker follows, each line with text of the open block is a token or begins a block. -/
theorem keysHidden_iff (text : List Char) : KeysHidden text ↔
    ∀ before line between shown after, lines text = before ++ line :: between ++ shown :: after →
      Reopens line → (∀ other ∈ between, beginsPem other = false ∧ endsPem other = false) →
      beginsPem shown = false → showsKey true shown = true → Masked shown := by
  constructor
  · intro hidden before line between shown after same reopens quiet noBegin shows
    obtain ⟨isOpen, missed⟩ := (insidePem_missed (before ++ line :: between)).mpr
      ⟨before, line, between, rfl, reopens, quiet⟩
    have replaced := hidden (before ++ line :: between) shown after same (by rw [isOpen]; exact shows)
    rw [same, redactLines_getElem, missed, noBegin, Bool.or_self, if_neg Bool.false_ne_true] at replaced
    exact (redactLine_masked shown).mp (Option.some.inj replaced)
  · intro masked before line after same shows
    rw [same, redactLines_getElem]
    congr 1
    split
    · rfl
    · rename_i outside
      rw [Bool.not_eq_true, Bool.or_eq_false_iff] at outside
      have isOpen : openAfterLines false before = true := by
        by_contra closed
        rw [Bool.not_eq_true] at closed
        rw [closed, showsKey_quiet outside.2] at shows
        cases shows
      obtain ⟨front, other, between, rfl, reopens, quiet⟩ :=
        (insidePem_missed before).mp ⟨isOpen, outside.1⟩
      rw [isOpen] at shows
      exact (redactLine_masked line).mpr (masked front other between line after same reopens quiet
        outside.2 shows)

/-- Behind a line that closes one block and opens another the second key is shown. -/
theorem second_key_shown :
    ¬ ∀ text, KeysHidden text := by
  intro hidden
  have masked := (keysHidden_iff _).mp (hidden
    "-----BEGIN A KEY-----\nfirst\n-----END A KEY----------BEGIN B KEY-----\nsecond\n-----END B KEY-----".toList)
    ["-----BEGIN A KEY-----".toList, "first".toList]
    "-----END A KEY----------BEGIN B KEY-----".toList [] "second".toList ["-----END B KEY-----".toList]
    (by decide +kernel) (by decide) (by simp) (by decide) (by decide)
  exact absurd masked (by decide)

end PiTools
