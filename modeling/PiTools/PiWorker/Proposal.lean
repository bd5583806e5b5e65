import PiTools.Library.JsonRead
import PiTools.PiWorker.Protocol

/-
This file defines how the Pi worker reads a proposal from the reply of the model.
-/

namespace PiTools.PiWorker

open Library

/-- From here on a number is rounded to infinity. -/
def infinityBound : Nat := 2 ^ 1024 - 2 ^ 970

def Number.isFinite : Number → Bool
  | .int value => value.natAbs < infinityBound
  | .decimal _ whole _ _ => whole < infinityBound

/-- The nearest number between zero and one. -/
def clampUnit (value : Number) : Number :=
  if Number.inUnitInterval value then value
  else
    match value with
    | .int value => if value < 0 then .int 0 else .int 1
    | .decimal negative _ _ _ => if negative then .int 0 else .int 1

theorem clampUnit_inUnitInterval (value : Number) : Number.inUnitInterval (clampUnit value) = true := by
  unfold clampUnit
  split
  · assumption
  · split
    · split <;> rfl
    · split <;> rfl

structure Proposal where
  diagnosis : String
  confidence : Number
  proposedFiles : List String
  proposedPatches : List CiPatch
  validationCommands : List String
  risks : List String
  unit : Number.inUnitInterval confidence = true
  deriving DecidableEq

/-- The last field of a key is the one that counts. -/
def lastField (key : String) (fields : Fields) : Option Json := fields.reverse.lookup key

def stringArray : Option Json → List String
  | some (.array items) => items.filterMap Json.asStr
  | _ => []

def patchOf : Json → Option CiPatch
  | .object fields =>
      match lastField "path" fields, lastField "unifiedDiff" fields with
      | some (.string path), some (.string unifiedDiff) => some ⟨path, unifiedDiff⟩
      | _, _ => none
  | _ => none

def patchArray : Option Json → List CiPatch
  | some (.array items) => items.filterMap patchOf
  | _ => []

def confidenceOf : Option Json → Number
  | some (.number value) => if Number.isFinite value then clampUnit value else .int 0
  | _ => .int 0

theorem confidenceOf_inUnitInterval (value : Option Json) : Number.inUnitInterval (confidenceOf value) = true := by
  unfold confidenceOf
  split
  · split
    · exact clampUnit_inUnitInterval _
    · rfl
  · rfl

/-- The proposal of an object. The whole text is the diagnosis of an object without one. -/
def proposalOf (redacted : String) (fields : Fields) : Proposal where
  diagnosis := ((lastField "diagnosis" fields).bind Json.asStr).getD redacted
  confidence := confidenceOf (lastField "confidence" fields)
  proposedFiles := stringArray (lastField "proposedFiles" fields)
  proposedPatches := patchArray (lastField "proposedPatches" fields)
  validationCommands := stringArray (lastField "validationCommands" fields)
  risks := stringArray (lastField "risks" fields)
  unit := confidenceOf_inUnitInterval _

/-- A text with an object or an array is read. An array has none of the fields. -/
def readProposal (redacted : String) : Option Proposal :=
  match parseJson redacted.toList with
  | some (.object fields) => some (proposalOf redacted fields)
  | some (.array _) => some (proposalOf redacted [])
  | _ => none

def fallbackProposal (redacted : String) : Proposal where
  diagnosis := redacted
  confidence := .int 0
  proposedFiles := []
  proposedPatches := []
  validationCommands := []
  risks := ["Pi response was not valid proposal JSON"]
  unit := rfl

def parseProposal (raw : String) : Proposal :=
  let redacted := redactString raw
  (readProposal redacted).getD (fallbackProposal redacted)

/-! ### Proposals as texts -/

def Proposal.toFields (proposal : Proposal) : Fields :=
  [("diagnosis", .string proposal.diagnosis), ("confidence", .number proposal.confidence),
    ("proposedFiles", stringsValue proposal.proposedFiles),
    ("proposedPatches", patchesValue proposal.proposedPatches),
    ("validationCommands", stringsValue proposal.validationCommands), ("risks", stringsValue proposal.risks)]

def Proposal.json (proposal : Proposal) : String := String.ofList (Json.object proposal.toFields).text

def CiPatch.redacted (patch : CiPatch) : CiPatch := ⟨redactString patch.path, redactString patch.unifiedDiff⟩

/-- Every string is redacted on its own. -/
def Proposal.redacted (proposal : Proposal) : Proposal where
  diagnosis := redactString proposal.diagnosis
  confidence := proposal.confidence
  proposedFiles := proposal.proposedFiles.map redactString
  proposedPatches := proposal.proposedPatches.map CiPatch.redacted
  validationCommands := proposal.validationCommands.map redactString
  risks := proposal.risks.map redactString
  unit := proposal.unit

/-- The reply is read, and the proposal is the redaction of the sent one. -/
def Proposal.Survives (proposal : Proposal) : Prop :=
  readProposal (redactString proposal.json) ≠ none ∧ parseProposal proposal.json = proposal.redacted

instance (proposal : Proposal) : Decidable proposal.Survives := inferInstanceAs (Decidable (_ ∧ _))

/-! ### Reading a proposal back -/

theorem one_lt_infinityBound : 1 < infinityBound := by decide +kernel

theorem isFinite_of_unit {value : Number} (unit : Number.inUnitInterval value = true) :
    Number.isFinite value = true := by
  have bound := one_lt_infinityBound
  cases value with
  | int value =>
      simp only [Number.inUnitInterval, Bool.and_eq_true, decide_eq_true_eq] at unit
      rw [Number.isFinite, decide_eq_true_eq]
      omega
  | decimal negative whole tenth rest =>
      have small : whole ≤ 1 := by
        simp only [Number.inUnitInterval] at unit
        split at unit
        · simp only [Bool.and_eq_true, decide_eq_true_eq] at unit
          omega
        · simp only [Bool.or_eq_true, Bool.and_eq_true, decide_eq_true_eq] at unit
          omega
      rw [Number.isFinite, decide_eq_true_eq]
      omega

theorem stringArray_stringsValue (texts : List String) : stringArray (some (stringsValue texts)) = texts := by
  rw [stringsValue, stringArray, List.filterMap_map]
  exact List.filterMap_some

theorem patchArray_patchesValue (patches : List CiPatch) : patchArray (some (patchesValue patches)) = patches := by
  rw [patchesValue, patchArray, List.filterMap_map]
  exact List.filterMap_some

/-- A proposal is read from its own fields. -/
theorem proposalOf_toFields (redacted : String) (proposal : Proposal) :
    proposalOf redacted proposal.toFields = proposal := by
  have confidence : confidenceOf (some (.number proposal.confidence)) = proposal.confidence := by
    rw [confidenceOf, isFinite_of_unit proposal.unit, if_pos rfl]
    exact if_pos proposal.unit
  have files := stringArray_stringsValue proposal.proposedFiles
  have patches := patchArray_patchesValue proposal.proposedPatches
  have commands := stringArray_stringsValue proposal.validationCommands
  have risks := stringArray_stringsValue proposal.risks
  obtain ⟨_, _, _, _, _, _, _⟩ := proposal
  simp only [proposalOf, Proposal.toFields, lastField, Proposal.mk.injEq]
  exact ⟨rfl, confidence, files, patches, commands, risks⟩

theorem readProposal_json (proposal : Proposal) : readProposal proposal.json = some proposal := by
  rw [readProposal, Proposal.json, String.toList_ofList, parseJson_text]
  exact congrArg some (proposalOf_toFields _ proposal)

end PiTools.PiWorker
