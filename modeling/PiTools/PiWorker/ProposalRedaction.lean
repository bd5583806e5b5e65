import PiTools.Library.RawTokens
import PiTools.Library.Words
import PiTools.PiWorker.Proposal
import PiTools.PiWorker.QuotedRedaction

/-
This file says which proposals survive the redaction of their text.
-/

namespace PiTools.PiWorker

open Library

/-! ### Texts outside of the strings -/

/-- A finder finds nothing at the start of a dull text. -/
def Foreign (find : Finder Char) : Prop := ∀ previous text, Dull text → find previous text = none

theorem dull_lowercase {text : List Char} (dull : Dull text) : Dull (asciiLowercase text) := by
  have quotes : (fun c => decide (c ≠ '\x22')) ∘ Char.toLower = fun c => decide (c ≠ '\x22') :=
    funext (toLower_invariant (fun c => decide (c ≠ '\x22')) (by decide))
  have kept : ∀ c ∈ symbols, c.toLower ∈ symbols := by decide
  intro c member
  rw [asciiLowercase, List.takeWhile_map, quotes] at member
  obtain ⟨d, inside, rfl⟩ := List.mem_map.mp member
  exact kept d (dull d inside)

theorem secretPatterns_foreign : ∀ find ∈ secretPatterns, Foreign find := by
  intro find member previous text dull
  cases found : find previous text with
  | none => rfl
  | some lengths =>
      have words : ∀ start ∈ secretStarts, '\x22' ∉ start.toList ∧ ∃ c ∈ start.toList, c ∉ symbols := by decide
      obtain ⟨start, known, begins⟩ := startsSecret_iff.mp (secretPatterns_starts member found)
      obtain ⟨plain, foreign⟩ := words start known
      exact absurd begins ((dull_lowercase dull).not_starts plain foreign)

theorem sensitiveAssignment_foreign : Foreign sensitiveAssignment := by
  intro previous text dull
  cases found : sensitiveAssignment previous text with
  | none => rfl
  | some lengths =>
      have words : ∀ word ∈ sensitiveWords, '\x22' ∉ word.toList ∧ ∃ c ∈ word.toList, c ∉ symbols := by decide
      obtain ⟨word, known, begins⟩ := sensitiveAssignment_word found
      obtain ⟨plain, foreign⟩ := words word known
      exact absurd begins ((dull_lowercase dull).not_starts plain foreign)

theorem Foreign.symbols {find : Finder Char} (foreign : Foreign find) (mark : List Char) {front back : List Char}
    (symbolic : ∀ c ∈ front, c ∈ symbols) (dull : Dull back) (previous : Option Char) :
    ∃ last, replaceFrom find mark previous (front ++ back) = front ++ replaceFrom find mark last back := by
  induction front generalizing previous with
  | nil => exact ⟨previous, rfl⟩
  | cons c rest ih =>
      have here := foreign previous (c :: rest ++ back) (dull.append symbolic)
      obtain ⟨last, whole⟩ := ih (List.forall_mem_cons.mp symbolic).2 (some c)
      refine ⟨last, ?_⟩
      rw [List.cons_append] at here ⊢
      rw [replaceFrom_none here, whole, List.cons_append]

/-- The replacement splits at the quotation mark behind a string. -/
def Splits (find : Finder Char) (body rest : List Char) : Prop :=
  replaceFrom find redactedMark (some '\x22') (body ++ '\x22' :: rest) =
    replaceAll find redactedMark body ++ '\x22' :: replaceAll find redactedMark rest

/-- The redaction of a text is the one of its strings when it splits behind each of them. -/
theorem replaceFrom_rawText {find : Finder Char} (foreign : Foreign find) {tokens : List RawToken}
    (plain : ∀ token ∈ tokens, token.Plain)
    (splits : ∀ body rest, .quoted body :: rest <:+ tokens → Splits find body (rawText rest))
    (previous : Option Char) : replaceFrom find redactedMark previous (rawText tokens) =
      rawText (tokens.map (RawToken.mapBody (replaceAll find redactedMark))) := by
  induction tokens generalizing previous with
  | nil => rfl
  | cons token rest ih =>
      obtain ⟨here, later⟩ := List.forall_mem_cons.mp plain
      have deeper := ih later fun body more suffix => splits body more (suffix.trans (List.suffix_cons token rest))
      have dull := rawText_dull later
      cases token with
      | sign c =>
          obtain ⟨last, whole⟩ := foreign.symbols redactedMark (List.forall_mem_singleton.mpr here) dull previous
          rw [rawText_cons, RawToken.text, whole, deeper, List.map_cons, rawText_cons]
          rfl
      | scalar value =>
          obtain ⟨last, whole⟩ := foreign.symbols redactedMark here dull previous
          rw [rawText_cons, RawToken.text, whole, deeper, List.map_cons, rawText_cons]
          rfl
      | quoted body =>
          have split := splits body rest List.suffix_rfl
          have alone : replaceAll find redactedMark (rawText rest) = _ := deeper none
          rw [rawText_quoted, replaceFrom_none (foreign previous _ (dull_quote _)), split, alone, List.map_cons,
            RawToken.mapBody, rawText_quoted]

theorem mapBody_plain {change : List Char → List Char} {tokens : List RawToken}
    (plain : ∀ token ∈ tokens, token.Plain) : ∀ token ∈ tokens.map (RawToken.mapBody change), token.Plain := by
  intro token member
  obtain ⟨inner, inside, rfl⟩ := List.mem_map.mp member
  have here := plain inner inside
  cases inner with
  | sign c => exact here
  | scalar value => exact here
  | quoted body => trivial

/-- The tokens of secrets are hidden in each string alone. -/
theorem hideTokens_rawText {tokens : List RawToken} (plain : ∀ token ∈ tokens, token.Plain) :
    hideTokens (rawText tokens) = rawText (tokens.map (RawToken.mapBody hideTokens)) := by
  have each (patterns : List (Finder Char)) (known : ∀ find ∈ patterns, find ∈ tokenPatterns)
      (tokens : List RawToken) (plain : ∀ token ∈ tokens, token.Plain) :
      patterns.foldl (fun hidden pattern => replaceAll pattern redactedMark hidden) (rawText tokens) =
        rawText (tokens.map (RawToken.mapBody fun body =>
          patterns.foldl (fun hidden pattern => replaceAll pattern redactedMark hidden) body)) := by
    induction patterns generalizing tokens with
    | nil =>
        rw [List.foldl_nil]
        apply congrArg rawText
        refine (List.map_id tokens).symm.trans (List.map_congr_left fun token _ => ?_)
        cases token <;> rfl
    | cons find patterns ih =>
        obtain ⟨member, others⟩ := List.forall_mem_cons.mp known
        have blind := tokenPatterns_blind find member
        have sound := tokenPatterns_sound find member
        have foreign := secretPatterns_foreign find (List.mem_append_left [pemBlock] member)
        have splits : ∀ body rest, .quoted body :: rest <:+ tokens → Splits find body (rawText rest) := by
          intro body rest _
          rw [Splits, blind.replaceFrom sound, replaceFrom_start blind.start]
          rfl
        rw [List.foldl_cons, replaceAll_eq, replaceFrom_rawText foreign plain splits none,
          ih others _ (mapBody_plain plain), List.map_map]
        apply congrArg rawText
        apply List.map_congr_left
        intro token _
        cases token <;> rfl
  exact each tokenPatterns (fun _ member => member) tokens plain

/-! ### Blocks -/

/-- A line ends a block in the text. -/
def endsBlock (text : List Char) : Bool := (firstEndLine text).isSome

/-- A block that one text leaves open does not end in a later one. -/
def BlocksApart (first second : List Char) : Prop := leavesOpen first = true → endsBlock second = false

instance (first second : List Char) : Decidable (BlocksApart first second) := inferInstanceAs (Decidable (_ → _))

theorem firstEndLine_rawText {tokens : List RawToken} (plain : ∀ token ∈ tokens, token.Plain)
    (endless : ∀ body ∈ tokens.filterMap RawToken.body?, endsBlock body = false) :
    firstEndLine (rawText tokens) = none := by
  have noLine {text : List Char} (dull : Dull text) : pemLine "-----END " text = none := by
    cases found : pemLine "-----END " text with
    | none => rfl
    | some length => exact absurd (pemLine_starts found).1 (dull.not_starts (by decide) ⟨'E', by decide, by decide⟩)
  have passes {front back : List Char} (symbolic : ∀ c ∈ front, c ∈ symbols) (dull : Dull back)
      (ends : firstEndLine back = none) : firstEndLine (front ++ back) = none := by
    induction front with
    | nil => exact ends
    | cons c front ih =>
        have here := noLine (dull.append symbolic)
        rw [List.cons_append] at here ⊢
        rw [firstEndLine, firstEnd_cons, here, Option.none_or, Option.map_eq_none_iff]
        exact ih (List.forall_mem_cons.mp symbolic).2
  induction tokens with
  | nil => exact @pemLine_nil "-----END " (by decide)
  | cons token rest ih =>
      obtain ⟨here, later⟩ := List.forall_mem_cons.mp plain
      have dull := rawText_dull later
      cases token with
      | sign c => exact passes (List.forall_mem_singleton.mpr here) dull (ih later endless)
      | scalar value => exact passes here dull (ih later endless)
      | quoted body =>
          rw [filterMap_body_quoted] at endless
          obtain ⟨first, others⟩ := List.forall_mem_cons.mp endless
          rw [endsBlock, Option.isSome_eq_false_iff, Option.isNone_iff_eq_none] at first
          rw [rawText_quoted, firstEndLine, firstEnd_cons, noLine (dull_quote _), Option.none_or,
            Option.map_eq_none_iff]
          change firstEndLine _ = none
          rw [firstEndLine_quote, first, ih later others]
          rfl

/-- The blocks are hidden in each string alone when none goes on in a later string. -/
theorem hideBlocks_rawText {tokens : List RawToken} (plain : ∀ token ∈ tokens, token.Plain)
    (apart : (tokens.filterMap RawToken.body?).Pairwise BlocksApart) :
    replaceAll pemBlock redactedMark (rawText tokens) =
      rawText (tokens.map (RawToken.mapBody (replaceAll pemBlock redactedMark))) := by
  refine replaceFrom_rawText (secretPatterns_foreign pemBlock (by simp [secretPatterns])) plain ?_ none
  intro body rest suffix
  cases settled : leavesOpen body with
  | false => exact pemBlock_settled settled (some '\x22') (rawText rest)
  | true =>
      have inOrder := apart.sublist (suffix.sublist.filterMap RawToken.body?)
      rw [filterMap_body_quoted, List.pairwise_cons] at inOrder
      have endless := firstEndLine_rawText (fun token member => plain token (suffix.subset (.tail _ member)))
        fun other member => inOrder.1 other member settled
      exact pemBlock_split endless (some '\x22') body

/-! ### Strings -/

/-- The redaction of the quoted text of a string is the quoted text of its redaction. -/
def RedactsAlike (value : String) : Prop := redactText (stringText value) = stringText (redactString value)

instance (value : String) : Decidable (RedactsAlike value) := inferInstanceAs (Decidable (_ = _))

/-- What stands between the quotation marks of a string after the tokens of secrets are hidden. -/
def hiddenBody (value : String) : List Char := hideTokens (escapedText value.toList)

/-- What stands there after the blocks are hidden, too. -/
def unblockedBody (value : String) : List Char := replaceAll pemBlock redactedMark (hiddenBody value)

theorem redactText_stringText (value : String) : redactText (stringText value) =
    '\x22' :: replaceFrom sensitiveAssignment redactedMark (some '\x22') (unblockedBody value ++ ['\x22']) := by
  have plain : ∀ token ∈ [RawToken.quoted (escapedText value.toList)], token.Plain :=
    List.forall_mem_singleton.mpr trivial
  have quoted (body : List Char) : rawText [.quoted body] = '\x22' :: (body ++ ['\x22']) := rawText_quoted body
  have whole : stringText value = rawText [.quoted (escapedText value.toList)] := by
    rw [stringText, escapeText_eq, quoted]
  rw [redactText_eq, whole, hideTokens_rawText plain,
    hideBlocks_rawText (mapBody_plain plain) (List.pairwise_singleton _ _)]
  change replaceAll _ _ (rawText [.quoted (unblockedBody value)]) = _
  rw [quoted, replaceAll_eq, replaceFrom_none (sensitiveAssignment_foreign none _ (dull_quote _))]

theorem RedactsAlike.splits {value : String} (alike : RedactsAlike value) :
    (∀ rest, Splits sensitiveAssignment (unblockedBody value) rest) ∧
      replaceAll sensitiveAssignment redactedMark (unblockedBody value) = escapedText (redactString value).toList := by
  rw [RedactsAlike, redactText_stringText, stringText, escapeText_eq, List.cons.injEq] at alike
  rcases sensitiveAssignment_cut (unblockedBody value) with splits | ⟨shown, crosses⟩
  · have alone := splits []
    refine ⟨splits, ?_⟩
    rw [alike.2] at alone
    exact (List.append_cancel_right alone).symm
  · obtain ⟨last, crossed⟩ := crosses []
    rw [alike.2, List.dropWhile_nil, replaceFrom_nil, List.append_nil] at crossed
    have ends := congrArg List.getLast? crossed
    rw [List.getLast?_append_of_ne_nil _ (show redactedMark ≠ [] by decide), List.getLast?_append_of_ne_nil _
      (List.cons_ne_nil _ _)] at ends
    exact absurd ends (by decide)

/-- The redaction of a text is the text of the redacted strings. -/
theorem redactText_rawText {tokens : List JsonToken} (plain : ∀ token ∈ tokens, token.raw.Plain)
    (alike : ∀ value ∈ tokens.filterMap JsonToken.string?, RedactsAlike value)
    (apart : (tokens.filterMap JsonToken.string?).Pairwise fun first second =>
      BlocksApart (hiddenBody first) (hiddenBody second)) :
    redactText (rawText (tokens.map JsonToken.raw)) =
      rawText ((tokens.map (JsonToken.mapString redactString)).map JsonToken.raw) := by
  have plainWith (body : String → List Char) : ∀ token ∈ tokens.map (JsonToken.rawWith body), token.Plain := by
    intro token member
    obtain ⟨inner, inside, rfl⟩ := List.mem_map.mp member
    exact rawWith_plain (plain inner inside) body
  have tokensHidden : hideTokens (rawText (tokens.map JsonToken.raw)) =
      rawText (tokens.map (JsonToken.rawWith hiddenBody)) :=
    (hideTokens_rawText (plainWith _)).trans (congrArg rawText (mapBody_rawWith _ tokens))
  have blocksHidden : replaceAll pemBlock redactedMark (rawText (tokens.map (JsonToken.rawWith hiddenBody))) =
      rawText (tokens.map (JsonToken.rawWith unblockedBody)) := by
    refine (hideBlocks_rawText (plainWith _) ?_).trans (congrArg rawText (mapBody_rawWith _ tokens))
    rw [filterMap_body_rawWith]
    exact List.pairwise_map.mpr apart
  have splits : ∀ body rest, .quoted body :: rest <:+ tokens.map (JsonToken.rawWith unblockedBody) →
      Splits sensitiveAssignment body (rawText rest) := by
    intro body rest suffix
    obtain ⟨token, member, same⟩ := List.mem_map.mp (suffix.subset (.head _))
    cases token with
    | sign c => cases same
    | scalar value => cases same
    | string value =>
        have known := alike value (List.mem_filterMap.mpr ⟨_, member, rfl⟩)
        have shape : unblockedBody value = body := RawToken.quoted.inj same
        rw [← shape]
        exact known.splits.1 (rawText rest)
  rw [redactText_eq, tokensHidden, blocksHidden, replaceAll_eq,
    replaceFrom_rawText sensitiveAssignment_foreign (plainWith _) splits none, mapBody_rawWith, rawWith_mapString]
  exact congrArg rawText (rawWith_congr fun value member => (alike value member).splits.2)

/-! ### Proposals -/

/-- The strings of a proposal in the order of its text. -/
def Proposal.strings (proposal : Proposal) : List String :=
  proposal.diagnosis :: (proposal.proposedFiles ++
    ((proposal.proposedPatches.flatMap fun patch => [patch.path, patch.unifiedDiff]) ++
      (proposal.validationCommands ++ proposal.risks)))

/-- No block that one of the strings leaves open ends in a later one. -/
def StringsApart (values : List String) : Prop :=
  values.Pairwise fun first second => BlocksApart (hiddenBody first) (hiddenBody second)

instance (values : List String) : Decidable (StringsApart values) := inferInstanceAs (Decidable (List.Pairwise _ _))

/-- A string leaves a block open, or a line of it ends one. -/
def meetsBlocks (value : String) : Bool := leavesOpen (hiddenBody value) || endsBlock (hiddenBody value)

theorem stringsApart_filter (values : List String) : StringsApart (values.filter meetsBlocks) ↔ StringsApart values := by
  have same (first second : String) : (meetsBlocks first = true → meetsBlocks second = true →
      BlocksApart (hiddenBody first) (hiddenBody second)) ↔ BlocksApart (hiddenBody first) (hiddenBody second) := by
    simp only [meetsBlocks, BlocksApart]
    cases leavesOpen (hiddenBody first) <;> cases endsBlock (hiddenBody second) <;> simp
  rw [StringsApart, StringsApart, List.pairwise_filter]
  simp only [same]

/-- The keys in the text of a proposal. -/
def proposalKeys : List String :=
  ["diagnosis", "confidence", "proposedFiles", "proposedPatches", "path", "unifiedDiff", "validationCommands", "risks"]

/-- The redaction keeps the keys. -/
theorem proposalKeys_kept : ∀ key ∈ proposalKeys,
    RedactsAlike key ∧ redactString key = key ∧ meetsBlocks key = false := by decide +kernel

theorem stringsValue_strings (texts : List String) :
    (stringsValue texts).tokens.filterMap JsonToken.string? = texts := by
  rw [stringsValue, Json.tokens, List.filterMap_cons_none rfl, itemsTokens_strings, List.flatMap_map]
  exact List.flatMap_singleton' texts

theorem patchesValue_strings (patches : List CiPatch) : (patchesValue patches).tokens.filterMap JsonToken.string? =
    patches.flatMap fun patch => ["path", patch.path, "unifiedDiff", patch.unifiedDiff] := by
  rw [patchesValue, Json.tokens, List.filterMap_cons_none rfl, itemsTokens_strings, List.flatMap_map]
  rfl

/-- The keys and the strings in the text of a proposal. -/
theorem Proposal.tokens_strings (proposal : Proposal) :
    (Json.object proposal.toFields).tokens.filterMap JsonToken.string? =
      "diagnosis" :: proposal.diagnosis :: "confidence" :: "proposedFiles" :: (proposal.proposedFiles ++
        "proposedPatches" :: ((proposal.proposedPatches.flatMap fun patch =>
          ["path", patch.path, "unifiedDiff", patch.unifiedDiff]) ++
            "validationCommands" :: (proposal.validationCommands ++ "risks" :: proposal.risks))) := by
  rw [Json.tokens, List.filterMap_cons_none rfl, fieldsTokens_strings]
  simp only [Proposal.toFields, List.flatMap_cons, List.flatMap_nil, stringsValue_strings, patchesValue_strings,
    Json.tokens, List.append_nil, List.cons_append]
  rfl

theorem stringsValue_mapString (change : String → String) (texts : List String) :
    (stringsValue (texts.map change)).tokens = (stringsValue texts).tokens.map (JsonToken.mapString change) :=
  congrArg (JsonToken.sign '[' :: ·) (itemsTokens_mapString (stringTokens_mapString change) texts)

theorem patchesValue_mapString {change : String → String} (path : "path" = change "path")
    (diff : "unifiedDiff" = change "unifiedDiff") (patches : List CiPatch) :
    (patchesValue (patches.map fun patch => ⟨change patch.path, change patch.unifiedDiff⟩)).tokens =
      (patchesValue patches).tokens.map (JsonToken.mapString change) := by
  refine congrArg (JsonToken.sign '[' :: ·) (itemsTokens_mapString (fun patch => ?_) patches)
  exact congrArg (JsonToken.sign '\x7b' :: ·) (fieldsTokens_mapString
    (.cons ⟨path, stringTokens_mapString change _⟩ (.cons ⟨diff, stringTokens_mapString change _⟩ .nil)))

theorem toFields_mapString {change : String → String} (kept : ∀ key ∈ proposalKeys, key = change key)
    {proposal other : Proposal} (diagnosis : other.diagnosis = change proposal.diagnosis)
    (confidence : other.confidence = proposal.confidence)
    (files : other.proposedFiles = proposal.proposedFiles.map change)
    (patches : other.proposedPatches = proposal.proposedPatches.map fun patch =>
      ⟨change patch.path, change patch.unifiedDiff⟩)
    (commands : other.validationCommands = proposal.validationCommands.map change)
    (risks : other.risks = proposal.risks.map change) : (Json.object other.toFields).tokens =
      (Json.object proposal.toFields).tokens.map (JsonToken.mapString change) := by
  refine congrArg (JsonToken.sign '\x7b' :: ·) (fieldsTokens_mapString ?_)
  rw [Proposal.toFields, Proposal.toFields, diagnosis, confidence, files, patches, commands, risks]
  have patchesChanged := patchesValue_mapString (kept "path" (by decide)) (kept "unifiedDiff" (by decide))
    proposal.proposedPatches
  exact .cons ⟨kept "diagnosis" (by decide), stringTokens_mapString change _⟩
    (.cons ⟨kept "confidence" (by decide), numberTokens_mapString change _⟩
      (.cons ⟨kept "proposedFiles" (by decide), stringsValue_mapString change _⟩
        (.cons ⟨kept "proposedPatches" (by decide), patchesChanged⟩
          (.cons ⟨kept "validationCommands" (by decide), stringsValue_mapString change _⟩
            (.cons ⟨kept "risks" (by decide), stringsValue_mapString change _⟩ .nil)))))

/-- The tokens of a redacted proposal are those of the proposal with redacted strings. -/
theorem Proposal.redacted_tokens (proposal : Proposal) : (Json.object proposal.redacted.toFields).tokens =
    (Json.object proposal.toFields).tokens.map (JsonToken.mapString redactString) :=
  toFields_mapString (fun key member => (proposalKeys_kept key member).2.1.symm) rfl (by rw [Proposal.redacted])
    rfl rfl rfl rfl

/-- The keys neither leave a block open nor end one. -/
theorem Proposal.strings_filter (proposal : Proposal) :
    ((Json.object proposal.toFields).tokens.filterMap JsonToken.string?).filter meetsBlocks =
      proposal.strings.filter meetsBlocks := by
  have key (name : String) (member : name ∈ proposalKeys) : meetsBlocks name = false :=
    (proposalKeys_kept name member).2.2
  have patches : (proposal.proposedPatches.flatMap fun patch =>
      ["path", patch.path, "unifiedDiff", patch.unifiedDiff]).filter meetsBlocks =
        (proposal.proposedPatches.flatMap fun patch => [patch.path, patch.unifiedDiff]).filter meetsBlocks := by
    rw [List.filter_flatMap, List.filter_flatMap]
    apply congrArg (List.flatMap · proposal.proposedPatches)
    funext patch
    simp only [List.filter_cons, key "path" (by decide), key "unifiedDiff" (by decide), Bool.false_eq_true, if_false]
  rw [proposal.tokens_strings, Proposal.strings]
  simp only [List.filter_cons, List.filter_append, key "diagnosis" (by decide), key "confidence" (by decide),
    key "proposedFiles" (by decide), key "proposedPatches" (by decide), key "validationCommands" (by decide),
    key "risks" (by decide), patches, Bool.false_eq_true, if_false]

/-- What holds of the keys and of the strings of a proposal holds of all strings in its text. -/
theorem Proposal.forall_strings (proposal : Proposal) {property : String → Prop}
    (keys : ∀ key ∈ proposalKeys, property key) :
    (∀ value ∈ (Json.object proposal.toFields).tokens.filterMap JsonToken.string?, property value) ↔
      ∀ value ∈ proposal.strings, property value := by
  have patches : (∀ value ∈ proposal.proposedPatches.flatMap fun patch =>
      ["path", patch.path, "unifiedDiff", patch.unifiedDiff], property value) ↔
        ∀ value ∈ proposal.proposedPatches.flatMap fun patch => [patch.path, patch.unifiedDiff], property value := by
    rw [List.forall_mem_flatMap, List.forall_mem_flatMap]
    simp only [List.forall_mem_cons, keys "path" (by decide), keys "unifiedDiff" (by decide), true_and]
  rw [proposal.tokens_strings, Proposal.strings]
  simp only [List.forall_mem_cons, List.forall_mem_append, keys "diagnosis" (by decide), keys "confidence" (by decide),
    keys "proposedFiles" (by decide), keys "proposedPatches" (by decide), keys "validationCommands" (by decide),
    keys "risks" (by decide), patches, true_and]

/-- The proposals whose text is redacted like their strings: each of them is redacted alike inside of
its quotation marks, and no block goes on from one to a later one. -/
def Proposal.RedactsAlike (proposal : Proposal) : Prop :=
  (∀ value ∈ proposal.strings, PiWorker.RedactsAlike value) ∧ StringsApart proposal.strings

instance (proposal : Proposal) : Decidable proposal.RedactsAlike := inferInstanceAs (Decidable (_ ∧ _))

theorem Proposal.RedactsAlike.json {proposal : Proposal} (alike : proposal.RedactsAlike) :
    redactString proposal.json = proposal.redacted.json := by
  have strings := (proposal.forall_strings fun key member => (proposalKeys_kept key member).1).mpr alike.1
  have apart : StringsApart ((Json.object proposal.toFields).tokens.filterMap JsonToken.string?) := by
    rw [← stringsApart_filter, proposal.strings_filter, stringsApart_filter]
    exact alike.2
  have whole := redactText_rawText (Json.tokens_plain _) strings apart
  rw [← proposal.redacted_tokens, Json.rawText_tokens, Json.rawText_tokens] at whole
  rw [redactString, Proposal.json, String.toList_ofList, whole, Proposal.json]

/-- A proposal is not lost when its text is redacted like its strings. -/
theorem proposal_survives {proposal : Proposal} (alike : proposal.RedactsAlike) : proposal.Survives := by
  have read : readProposal (redactString proposal.json) = some proposal.redacted := by
    rw [alike.json, readProposal_json]
  refine ⟨read ▸ Option.some_ne_none _, ?_⟩
  rw [parseProposal, read, Option.getD_some]

theorem one_inUnitInterval : Number.inUnitInterval (.int 1) = true := rfl

/-- A proposal with secrets in its strings. None of them reaches a quotation mark or an escape. -/
def guardedProposal : Proposal where
  diagnosis := "the log shows token: abc123 here\nand ghp_abcdef"
  confidence := .int 1
  proposedFiles := ["src/lib.rs", "say \x22hi\x22"]
  proposedPatches := [⟨"src/lib.rs", "-old\n+new\n"⟩]
  validationCommands := ["cargo test"]
  risks := []
  unit := one_inUnitInterval

theorem guarded_proposal_survives : guardedProposal.Survives := proposal_survives (by decide +kernel)

/-- The value of the assignment reaches the end of the diagnosis. -/
def assignedProposal : Proposal where
  diagnosis := "token: abc"
  confidence := .int 1
  proposedFiles := ["src/lib.rs"]
  proposedPatches := [⟨"src/lib.rs", "-old\n+new\n"⟩]
  validationCommands := []
  risks := []
  unit := one_inUnitInterval

/-- The assignment takes the quotation mark behind it, so the reply is no JSON any more. -/
theorem assigned_proposal_lost : ¬ assignedProposal.Survives ∧
    parseProposal assignedProposal.json = fallbackProposal (redactString assignedProposal.json) := by
  have broken : parseJson (redactText (Json.object assignedProposal.toFields).text) = none := by decide +kernel
  have unread : readProposal (redactString assignedProposal.json) = none := by
    rw [readProposal, redactString, Proposal.json, String.toList_ofList, String.toList_ofList, broken]
  constructor
  · rintro ⟨read, -⟩
    exact read unread
  · rw [parseProposal, unread, Option.getD_none]

end PiTools.PiWorker
