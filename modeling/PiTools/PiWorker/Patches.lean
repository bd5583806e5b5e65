import PiTools.PiWorker.Protocol

/-
This file shows which patches cross the boundary of the Pi worker unchanged.
-/

namespace PiTools.PiWorker

open Library

/-- The patches of a result that the schema accepts. -/
def proposedPatches (value : Json) : Option (List CiPatch) :=
  (parseResult value).bind fun result => result.proposedPatches

def redactPatch (patch : CiPatch) : CiPatch :=
  ⟨redactString patch.path, redactString patch.unifiedDiff⟩

/-! ### Redacted values -/

theorem getField_redactFields (key : String) (fields : Fields) :
    getField key (redactFields fields) = (getField key fields).map fun item =>
      if sensitiveKey key then .string (String.ofList redactedMark) else redactValue item := by
  induction fields with
  | nil => rfl
  | cons field rest ih =>
      obtain ⟨other, item⟩ := field
      rw [redactFields, getField_cons, getField_cons, ih]
      by_cases same : other = key
      · rw [if_pos same, if_pos same, same]
        rfl
      · rw [if_neg same, if_neg same]

theorem redactItems_eq (items : List Json) : redactItems items = items.map redactValue := by
  induction items with
  | nil => rfl
  | cons item rest ih => rw [redactItems, ih, List.map_cons]

theorem required_some {Value : Type} {decode : Json → Option Value} {fields : Fields} {key : String}
    {item : Json} {value : Value} (found : getField key fields = some item)
    (read : required decode fields key = some value) : decode item = some value := by
  rwa [required, found] at read

theorem strictObject_some {keys : List String} {fields read : Fields}
    (strict : strictObject keys (.object fields) = some read) : read = fields := by
  rw [strictObject] at strict
  split at strict
  · exact (Option.some.inj strict).symm
  · cases strict

theorem boundedString_some {least most : Nat} {text read : String}
    (parsed : boundedString least most (.string text) = some read) : read = text := by
  obtain ⟨same, -⟩ := Option.filter_eq_some_iff.mp parsed
  exact (Option.some.inj same).symm

/-- The schema reads a redacted patch as its redaction. -/
theorem piPatchSchema_redact {patch read : CiPatch}
    (parsed : piPatchSchema (redactValue (.object patch.toFields)) = some read) :
    read = redactPatch patch := by
  have path : getField "path" (redactFields patch.toFields) =
      some (.string (redactString patch.path)) := by
    rw [getField_redactFields, CiPatch.toFields, getField_cons, if_pos rfl, Option.map_some,
      if_neg (by decide)]
    rfl
  have diff : getField "unifiedDiff" (redactFields patch.toFields) =
      some (.string (redactString patch.unifiedDiff)) := by
    rw [getField_redactFields, CiPatch.toFields, getField_cons, if_neg (by decide), getField_cons,
      if_pos rfl, Option.map_some, if_neg (by decide)]
    rfl
  rw [redactValue] at parsed
  simp only [piPatchSchema, Option.bind_eq_bind, Option.bind_eq_some_iff, Option.pure_def,
    Option.some.injEq] at parsed
  obtain ⟨fields, strict, readPath, first, readDiff, second, rfl⟩ := parsed
  rw [strictObject_some strict] at first second
  rw [boundedString_some (required_some path first), boundedString_some (required_some diff second)]
  rfl

theorem patchesSchema_redact {patches read : List CiPatch}
    (parsed : arrayOf piPatchSchema (redactValue (patchesValue patches)) = some read) :
    read = patches.map redactPatch := by
  rw [patchesValue, redactValue, redactItems_eq, List.map_map] at parsed
  change ((patches.map (redactValue ∘ fun patch => Json.object patch.toFields)).mapM piPatchSchema) =
    some read at parsed
  induction patches generalizing read with
  | nil =>
      cases parsed
      rfl
  | cons patch rest ih =>
      simp only [List.map_cons, List.mapM_cons, Option.bind_eq_bind, Option.bind_eq_some_iff,
        Option.pure_def, Option.some.injEq] at parsed
      obtain ⟨first, here, others, later, rfl⟩ := parsed
      rw [List.map_cons, piPatchSchema_redact here, ih later]

theorem toFields_patches (result : ProtocolResult) :
    getField "proposedPatches" result.toFields = result.proposedPatches.map patchesValue := by
  rw [ProtocolResult.toFields]
  cases result.proposedPatches <;> cases result.metadata <;> rfl

/-- The redacted result has the redacted patches. -/
theorem parseResult_redact {result redacted : ProtocolResult}
    (parsed : parseResult (redactSecrets result.toJson) = some redacted) :
    redacted.proposedPatches = result.proposedPatches.map fun patches => patches.map redactPatch := by
  rw [redactSecrets, ProtocolResult.toJson, redactValue] at parsed
  simp only [parseResult, Option.bind_eq_bind, Option.bind_eq_some_iff, Option.pure_def,
    Option.some.injEq] at parsed
  obtain ⟨fields, strict, _, _, _, _, _, _, _, _, _, _, _, _, patches, read, _, _, _, _, _, _, _, _,
    rfl⟩ := parsed
  show patches = _
  have visible : sensitiveKey "proposedPatches" = false := by decide
  rw [strictObject_some strict, optional, getField_redactFields, toFields_patches] at read
  simp only [visible, Bool.false_eq_true, if_false] at read
  cases proposed : result.proposedPatches with
  | none =>
      rw [proposed] at read
      exact (Option.some.inj read).symm
  | some proposed' =>
      rw [proposed] at read
      obtain ⟨schema, decoded, rfl⟩ := Option.map_eq_some_iff.mp read
      rw [patchesSchema_redact decoded, Option.map_some]

/-! ### The boundary -/

theorem redactPatch_eq_self {patch : CiPatch} : redactPatch patch = patch ↔
    Unredacted patch.path.toList ∧ Unredacted patch.unifiedDiff.toList := by
  rw [← redactString_eq_self, ← redactString_eq_self, redactPatch]
  cases patch
  simp

/-- The patches of an accepted result are the proposed ones exactly when none of them has a secret
pattern or a sensitive assignment in its path or in its diff. -/
theorem patches_unchanged_iff {value : Json} {request : ProtocolRequest} {maxOutputBytes : Nat}
    {returned : ProtocolResult}
    (accepted : validateProtocolResult value request maxOutputBytes = .ok returned) :
    returned.proposedPatches = proposedPatches value ↔
      ∀ patch ∈ (proposedPatches value).getD [],
        Unredacted patch.path.toList ∧ Unredacted patch.unifiedDiff.toList := by
  simp only [validateProtocolResult, bind_eq_ok, okOr_eq_ok, pure_eq_ok] at accepted
  obtain ⟨_, -, result, parsed, _, -, _, -, _, -, _, -, redacted, reparsed, _, -, rfl⟩ := accepted
  have proposed : proposedPatches value = result.proposedPatches := by
    rw [proposedPatches, parsed, Option.bind_some]
  rw [proposed, parseResult_redact reparsed]
  cases result.proposedPatches with
  | none => simp
  | some patches =>
      simp only [Option.map_some, Option.some.injEq, Option.getD_some, ← redactPatch_eq_self]
      constructor
      · intro same patch member
        exact (List.map_eq_map_iff.mp (same.trans (List.map_id _).symm)) patch member
      · intro same
        exact (List.map_congr_left same).trans (List.map_id _)

/-! ### A diff with an assignment -/

def boundaryRequest : ProtocolRequest :=
  ⟨protocolVersion, "job", "o/r", "snapshot.json", [], ["a.py"], none, "sha256:policy", "nonce"⟩

/-- The result proposes one line of a file. -/
def boundaryResult (line : String) : Json :=
  ProtocolResult.toJson ⟨protocolVersion, "job", "nonce", "fix", .int 1, ["a.py"],
    some [⟨"a.py", "--- a/a.py\n+++ b/a.py\n@@ -1 +1 @@\n-x\n+" ++ line ++ "\n"⟩], [], [], true, none⟩

def boundaryOutcome (line : String) : Except String ProtocolResult :=
  validateProtocolResult (boundaryResult line) boundaryRequest defaultMaxOutputBytes

theorem plain_patch_unchanged : ∃ returned, boundaryOutcome "y" = .ok returned ∧
    returned.proposedPatches = proposedPatches (boundaryResult "y") := by
  cases accepted : boundaryOutcome "y" with
  | error reason =>
      have passes : (boundaryOutcome "y").toBool = true := by decide +kernel
      rw [accepted] at passes
      cases passes
  | ok returned => exact ⟨returned, rfl, (patches_unchanged_iff accepted).mpr (by decide +kernel)⟩

theorem assignment_patch_changed : ∃ returned, boundaryOutcome "token = read()" = .ok returned ∧
    returned.proposedPatches ≠ proposedPatches (boundaryResult "token = read()") := by
  have differs : (boundaryOutcome "token = read()").toOption.any (fun returned =>
      returned.proposedPatches ≠ proposedPatches (boundaryResult "token = read()")) = true := by
    decide +kernel
  cases accepted : boundaryOutcome "token = read()" with
  | error reason =>
      rw [accepted] at differs
      cases differs
  | ok returned =>
      rw [accepted] at differs
      exact ⟨returned, rfl, of_decide_eq_true differs⟩

end PiTools.PiWorker
