import Mathlib.Algebra.Group.Int.Defs
import Mathlib.Algebra.GroupWithZero.Nat
import PiTools.Library.Text

/-
This file defines the decoder of UTF-8 that puts the replacement character in the
place of each malformed sequence, and shows that it keeps ASCII characters apart.
-/

namespace Library

/-- The bytes of an ASCII text. -/
def asciiBytes (text : List Char) : List UInt8 := text.map fun c => c.toNat.toUInt8

@[simp] theorem asciiBytes_append (first second : List Char) :
    asciiBytes (first ++ second) = asciiBytes first ++ asciiBytes second := List.map_append

/-- A character of which some bytes have been read. The next byte has to lie between two bounds. -/
structure PartialChar where
  needed : Nat
  code : Nat
  lower : Nat
  upper : Nat
  deriving DecidableEq, Repr

def replacementChar : Char := '\uFFFD'

/-- The first byte of a character. -/
def decodeFirst (byte : Nat) : List Char × Option PartialChar :=
  if byte < 0x80 then ([Char.ofNat byte], none)
  else if 0xC2 ≤ byte ∧ byte ≤ 0xDF then ([], some ⟨1, byte - 0xC0, 0x80, 0xBF⟩)
  else if 0xE0 ≤ byte ∧ byte ≤ 0xEF then
    ([], some ⟨2, byte - 0xE0, if byte = 0xE0 then 0xA0 else 0x80, if byte = 0xED then 0x9F else 0xBF⟩)
  else if 0xF0 ≤ byte ∧ byte ≤ 0xF4 then
    ([], some ⟨3, byte - 0xF0, if byte = 0xF0 then 0x90 else 0x80, if byte = 0xF4 then 0x8F else 0xBF⟩)
  else ([replacementChar], none)

/-- A byte that does not continue a character ends it and is read again as a first byte. -/
def decodeByte : Option PartialChar → Nat → List Char × Option PartialChar
  | none, byte => decodeFirst byte
  | some pending, byte =>
      if pending.lower ≤ byte ∧ byte ≤ pending.upper then
        let code := pending.code * 64 + (byte - 0x80)
        if pending.needed ≤ 1 then ([Char.ofNat code], none)
        else ([], some ⟨pending.needed - 1, code, 0x80, 0xBF⟩)
      else (replacementChar :: (decodeFirst byte).1, (decodeFirst byte).2)

def decodeFrom : Option PartialChar → List UInt8 → List Char
  | none, [] => []
  | some _, [] => [replacementChar]
  | pending, byte :: rest =>
      (decodeByte pending byte.toNat).1 ++ decodeFrom (decodeByte pending byte.toNat).2 rest

def decodeUtf8 (bytes : List UInt8) : List Char := decodeFrom none bytes

@[simp] theorem decodeUtf8_nil : decodeUtf8 [] = [] := rfl

theorem decodeFrom_cons (pending : Option PartialChar) (byte : UInt8) (rest : List UInt8) :
    decodeFrom pending (byte :: rest) =
      (decodeByte pending byte.toNat).1 ++ decodeFrom (decodeByte pending byte.toNat).2 rest := by
  cases pending <;> rfl

/-! ### ASCII characters -/

theorem decodeFirst_ascii {byte : Nat} (ascii : byte < 0x80) :
    decodeFirst byte = ([Char.ofNat byte], none) := if_pos ascii

@[simp] theorem decodeUtf8_asciiBytes {text : List Char} (ascii : ∀ c ∈ text, c.toNat < 0x80)
    (rest : List UInt8) : decodeUtf8 (asciiBytes text ++ rest) = text ++ decodeUtf8 rest := by
  induction text with
  | nil => rfl
  | cons c text ih =>
      have small : c.toNat < 0x80 := ascii c (.head _)
      have same : c.toNat.toUInt8.toNat = c.toNat := by
        rw [UInt8.toNat_ofNat']
        exact Nat.mod_eq_of_lt (by omega)
      have known : decodeByte none c.toNat.toUInt8.toNat = ([c], none) := by
        rw [same, decodeByte, decodeFirst_ascii small, Char.ofNat_toNat]
      rw [asciiBytes, List.map_cons, List.cons_append, decodeUtf8, decodeFrom_cons, known]
      exact congrArg (c :: ·) (ih fun other member => ascii other (.tail _ member))

/-- The bounds of the next byte keep the character out of ASCII. -/
def PartialChar.Large (pending : PartialChar) : Prop :=
  0x80 ≤ pending.lower ∧ 0 < pending.needed ∧
    0x80 ≤ (pending.code * 64 + (pending.lower - 0x80)) * 64 ^ (pending.needed - 1)

theorem decodeFirst_large {byte : Nat} {pending : PartialChar}
    (found : (decodeFirst byte).2 = some pending) : pending.Large := by
  unfold decodeFirst at found
  split at found
  · cases found
  · split at found
    · cases found
      refine ⟨Nat.le_refl _, Nat.one_pos, ?_⟩
      simp only [Nat.sub_self, pow_zero]
      omega
    · split at found
      · cases found
        refine ⟨?_, Nat.succ_pos _, ?_⟩
        · dsimp only
          split <;> omega
        · simp only [Nat.add_one_sub_one, pow_one]
          split <;> omega
      · split at found
        · cases found
          refine ⟨?_, Nat.succ_pos _, ?_⟩
          · dsimp only
            split <;> omega
          · simp only [Nat.add_one_sub_one, Nat.reducePow]
            split <;> omega
        · cases found

theorem PartialChar.Large.next {pending : PartialChar} (large : pending.Large) {byte : Nat}
    (above : pending.lower ≤ byte) (more : ¬ pending.needed ≤ 1) :
    (PartialChar.mk (pending.needed - 1) (pending.code * 64 + (byte - 0x80)) 0x80 0xBF).Large := by
  obtain ⟨-, -, whole⟩ := large
  refine ⟨Nat.le_refl _, by dsimp only; omega, ?_⟩
  obtain ⟨further, same⟩ : ∃ further, pending.needed - 1 = further + 1 :=
    ⟨pending.needed - 2, by omega⟩
  rw [same] at whole ⊢
  dsimp only
  rw [Nat.sub_self, Nat.add_zero, Nat.add_sub_cancel, Nat.mul_assoc, Nat.mul_comm 64, ← pow_succ]
  exact whole.trans (Nat.mul_le_mul_right _ (by omega))

theorem decodeByte_large {pending : Option PartialChar} (large : ∀ partly ∈ pending, partly.Large)
    (byte : Nat) : ∀ partly ∈ (decodeByte pending byte).2, partly.Large := by
  intro partly found
  cases pending with
  | none => exact decodeFirst_large found
  | some pending =>
      rw [decodeByte] at found
      split at found
      · rename_i bounds
        dsimp only at found
        split at found
        · cases found
        · rename_i more
          cases found
          exact (large pending rfl).next bounds.1 more
      · exact decodeFirst_large found

theorem ofNat_ne {c : Char} (visible : c.toNat ≠ 0) {code : Nat} (other : code ≠ c.toNat) : Char.ofNat code ≠ c := by
  rintro rfl
  by_cases valid : code.isValidChar
  · rw [show (Char.ofNat code).toNat = code by rw [Char.ofNat, dif_pos valid]; rfl] at other
    exact other rfl
  · rw [Char.ofNat, dif_neg valid] at visible
    exact visible rfl

section Absent

variable {c : Char}

theorem notMem_decodeFirst (visible : c.toNat ≠ 0) (ascii : c.toNat < 0x80) {byte : Nat} (other : byte ≠ c.toNat) :
    c ∉ (decodeFirst byte).1 := by
  have plain : c ≠ replacementChar := fun same => absurd (same ▸ ascii) (by decide)
  unfold decodeFirst
  split
  · simpa using (ofNat_ne visible other).symm
  · split
    · simp
    · split
      · simp
      · split
        · simp
        · simpa using plain

theorem notMem_decodeByte (visible : c.toNat ≠ 0) (ascii : c.toNat < 0x80) {pending : Option PartialChar}
    (large : ∀ partly ∈ pending, partly.Large) {byte : Nat} (other : byte ≠ c.toNat) :
    c ∉ (decodeByte pending byte).1 := by
  cases pending with
  | none => exact notMem_decodeFirst visible ascii other
  | some pending =>
      rw [decodeByte]
      split
      · rename_i bounds
        dsimp only
        split
        · rename_i last
          obtain ⟨-, one, whole⟩ := large pending rfl
          rw [show pending.needed - 1 = 0 by omega, pow_zero, Nat.mul_one] at whole
          have above : pending.code * 64 + (byte - 0x80) ≠ c.toNat := by omega
          simpa using (ofNat_ne visible above).symm
        · simp
      · rw [List.mem_cons, not_or]
        exact ⟨fun same => absurd (same ▸ ascii) (by decide), notMem_decodeFirst visible ascii other⟩

theorem notMem_decodeFrom (visible : c.toNat ≠ 0) (ascii : c.toNat < 0x80) {pending : Option PartialChar}
    (large : ∀ partly ∈ pending, partly.Large) {bytes : List UInt8} (absent : c.toNat.toUInt8 ∉ bytes) :
    c ∉ decodeFrom pending bytes := by
  induction bytes generalizing pending with
  | nil =>
      cases pending with
      | none => exact List.not_mem_nil
      | some pending =>
          rw [decodeFrom, List.mem_singleton]
          exact fun same => absurd (same ▸ ascii) (by decide)
  | cons byte rest ih =>
      rw [List.mem_cons, not_or] at absent
      have other : byte.toNat ≠ c.toNat := by
        intro same
        refine absent.1 (UInt8.toNat_inj.mp ?_)
        rw [same, UInt8.toNat_ofNat']
        exact Nat.mod_eq_of_lt (by omega)
      rw [decodeFrom_cons, List.mem_append, not_or]
      exact ⟨notMem_decodeByte visible ascii large other, ih (decodeByte_large large _) absent.2⟩

/-- An ASCII character is decoded only from its own byte. -/
theorem notMem_decodeUtf8 (visible : c.toNat ≠ 0) (ascii : c.toNat < 0x80) {bytes : List UInt8}
    (absent : c.toNat.toUInt8 ∉ bytes) : c ∉ decodeUtf8 bytes :=
  notMem_decodeFrom visible ascii (by simp) absent

end Absent

/-- Only a space is decoded as a space. -/
theorem space_notMem_decodeUtf8 {bytes : List UInt8} (absent : 32 ∉ bytes) : ' ' ∉ decodeUtf8 bytes :=
  notMem_decodeUtf8 (by decide) (by decide) absent

/-- A space ends what is decoded before it. -/
theorem decodeFrom_space {pending : Option PartialChar} (large : ∀ partly ∈ pending, partly.Large)
    (bytes rest : List UInt8) :
    decodeFrom pending (bytes ++ 32 :: rest) = decodeFrom pending bytes ++ ' ' :: decodeUtf8 rest := by
  induction bytes generalizing pending with
  | nil =>
      cases pending with
      | none => rfl
      | some pending =>
          have outside : ¬ (pending.lower ≤ (32 : UInt8).toNat ∧ (32 : UInt8).toNat ≤ pending.upper) := by
            have bound := (large pending rfl).1
            rw [show (32 : UInt8).toNat = 32 from rfl]
            omega
          rw [List.nil_append, decodeFrom_cons, decodeByte, if_neg outside]
          rfl
  | cons byte bytes ih =>
      rw [List.cons_append, decodeFrom_cons, decodeFrom_cons, ih (decodeByte_large large _), List.append_assoc]

theorem decodeUtf8_space (bytes rest : List UInt8) :
    decodeUtf8 (bytes ++ 32 :: rest) = decodeUtf8 bytes ++ ' ' :: decodeUtf8 rest :=
  decodeFrom_space (by simp) bytes rest

/-- Words between spaces are decoded on their own. -/
theorem decodeUtf8_intercalate (words : List (List UInt8)) :
    decodeUtf8 ([32].intercalate words) = [' '].intercalate (words.map decodeUtf8) := by
  induction words with
  | nil => rfl
  | cons word words ih =>
      cases words with
      | nil => simp
      | cons next words =>
          rw [List.intercalate_cons_cons, List.append_assoc, List.singleton_append, decodeUtf8_space, ih]
          simp [List.intercalate_cons_cons]

/-! ### The encoder -/

def encodeUtf8 (text : List Char) : List UInt8 := text.flatMap String.utf8EncodeChar

@[simp] theorem encodeUtf8_append (first second : List Char) :
    encodeUtf8 (first ++ second) = encodeUtf8 first ++ encodeUtf8 second := List.flatMap_append

theorem encodeUtf8_injective : Function.Injective encodeUtf8 := by
  intro left right same
  have arrays : (String.ofList left).toByteArray = (String.ofList right).toByteArray := by
    rw [String.toByteArray_ofList, String.toByteArray_ofList]
    exact congrArg List.toByteArray same
  exact String.ofList_injective (String.toByteArray_inj.mp arrays)

/-- The byte of an ASCII character stands for no other character. -/
theorem eq_of_mem_utf8EncodeChar {c other : Char} (ascii : c.toNat < 0x80)
    (member : c.toNat.toUInt8 ∈ String.utf8EncodeChar other) : other = c := by
  -- The bytes of a longer character are at least 128.
  have apart (byte : Nat) (high : 0x80 ≤ byte) (low : byte < 256) : c.toNat.toUInt8 ≠ UInt8.ofNat byte := by
    intro same
    have numbers := congrArg UInt8.toNat same
    rw [UInt8.toNat_ofNat', UInt8.toNat_ofNat', Nat.mod_eq_of_lt (by omega), Nat.mod_eq_of_lt low] at numbers
    omega
  have bound : other.val.toNat < 0x110000 := by
    rcases other.valid with below | ⟨_, below⟩ <;> exact Nat.lt_of_lt_of_le below (by decide)
  unfold String.utf8EncodeChar at member
  dsimp only at member
  split at member
  · rename_i small
    have numbers := congrArg UInt8.toNat (List.mem_singleton.mp member)
    rw [UInt8.toNat_ofNat', UInt8.toNat_ofNat', Nat.mod_eq_of_lt (by omega), Nat.mod_eq_of_lt (by omega)] at numbers
    exact Char.ext (UInt32.toNat_inj.mp numbers.symm)
  · split at member
    · simp only [List.mem_cons, List.not_mem_nil, or_false] at member
      rcases member with same | same <;> exact absurd same (apart _ (by omega) (by omega))
    · split at member
      · simp only [List.mem_cons, List.not_mem_nil, or_false] at member
        rcases member with same | same | same <;> exact absurd same (apart _ (by omega) (by omega))
      · simp only [List.mem_cons, List.not_mem_nil, or_false] at member
        rcases member with same | same | same | same <;> exact absurd same (apart _ (by omega) (by omega))

theorem encodeUtf8_ascii {text : List Char} (ascii : ∀ c ∈ text, c.toNat < 0x80) :
    encodeUtf8 text = asciiBytes text := by
  induction text with
  | nil => rfl
  | cons c rest ih =>
      have small : c.val.toNat ≤ 0x7f := Nat.le_of_lt_succ (ascii c (.head _))
      have one : String.utf8EncodeChar c = [c.toNat.toUInt8] := if_pos small
      rw [encodeUtf8, List.flatMap_cons, one, asciiBytes, List.map_cons]
      exact congrArg (c.toNat.toUInt8 :: ·) (ih fun other member => ascii other (.tail _ member))

theorem notMem_encodeUtf8 {c : Char} (ascii : c.toNat < 0x80) {text : List Char} (absent : c ∉ text) :
    c.toNat.toUInt8 ∉ encodeUtf8 text := by
  rw [encodeUtf8, List.mem_flatMap]
  rintro ⟨other, member, inside⟩
  exact absent (eq_of_mem_utf8EncodeChar ascii inside ▸ member)

theorem length_encodeUtf8 (text : List Char) : (encodeUtf8 text).length = byteLength text := by
  induction text with
  | nil => rfl
  | cons c rest ih =>
      rw [encodeUtf8, List.flatMap_cons, List.length_append, String.length_utf8EncodeChar, byteLength_cons]
      exact congrArg (c.utf8Size + ·) ih

/-- The last byte of a character completes it. -/
theorem decodeFrom_last {pending : PartialChar} {byte : UInt8} (one : pending.needed ≤ 1)
    (lower : pending.lower ≤ byte.toNat) (upper : byte.toNat ≤ pending.upper) {c : Char}
    (code : pending.code * 64 + (byte.toNat - 0x80) = c.toNat) (rest : List UInt8) :
    decodeFrom (some pending) (byte :: rest) = c :: decodeUtf8 rest := by
  rw [decodeFrom_cons, decodeByte, if_pos ⟨lower, upper⟩]
  dsimp only
  rw [if_pos one, code, Char.ofNat_toNat]
  rfl

theorem decodeFrom_more {pending : PartialChar} {byte : UInt8} (more : ¬ pending.needed ≤ 1)
    (lower : pending.lower ≤ byte.toNat) (upper : byte.toNat ≤ pending.upper) (rest : List UInt8) :
    decodeFrom (some pending) (byte :: rest) =
      decodeFrom (some ⟨pending.needed - 1, pending.code * 64 + (byte.toNat - 0x80), 0x80, 0xBF⟩) rest := by
  rw [decodeFrom_cons, decodeByte, if_pos ⟨lower, upper⟩]
  dsimp only
  rw [if_neg more]
  rfl

/-- A character is read back from its bytes. -/
theorem decodeUtf8_utf8EncodeChar (c : Char) (rest : List UInt8) :
    decodeUtf8 (String.utf8EncodeChar c ++ rest) = c :: decodeUtf8 rest := by
  have number (byte : Nat) (small : byte < 256) : (UInt8.ofNat byte).toNat = byte := by
    rw [UInt8.toNat_ofNat', Nat.mod_eq_of_lt small]
  have first {byte : Nat} (small : byte < 256) {pending : PartialChar} (read : decodeFirst byte = ([], some pending))
      (bytes : List UInt8) : decodeUtf8 (UInt8.ofNat byte :: bytes) = decodeFrom (some pending) bytes := by
    rw [decodeUtf8, decodeFrom_cons, number byte small, decodeByte, read]
    rfl
  have valid : c.val.toNat < 0xd800 ∨ (0xdfff < c.val.toNat ∧ c.val.toNat < 0x110000) := c.valid
  have code : c.toNat = c.val.toNat := rfl
  unfold String.utf8EncodeChar
  generalize c.val.toNat = v at valid code
  dsimp only
  -- One case for each number of bytes.
  split
  · rename_i small
    rw [List.singleton_append, decodeUtf8, decodeFrom_cons, number v (by omega), decodeByte,
      decodeFirst_ascii (by omega), ← code, Char.ofNat_toNat]
    rfl
  · split
    · rename_i above below
      have read : decodeFirst (v / 64 % 0x20 + 0xc0) = ([], some ⟨1, v / 64 % 0x20 + 0xc0 - 0xC0, 0x80, 0xBF⟩) := by
        rw [decodeFirst, if_neg (by omega), if_pos (by omega)]
      have last := number (v % 0x40 + 0x80) (by omega)
      rw [List.cons_append, List.singleton_append, first (by omega) read]
      apply decodeFrom_last <;> simp only [last, code] <;> omega
    · split
      · rename_i _ above below
        have read : decodeFirst (v / 4096 % 0x10 + 0xe0) =
            ([], some ⟨2, v / 4096 % 0x10 + 0xe0 - 0xE0, if v / 4096 % 0x10 + 0xe0 = 0xE0 then 0xA0 else 0x80,
              if v / 4096 % 0x10 + 0xe0 = 0xED then 0x9F else 0xBF⟩) := by
          rw [decodeFirst, if_neg (by omega), if_neg (by omega), if_pos (by omega)]
        have middle := number (v / 64 % 0x40 + 0x80) (by omega)
        have last := number (v % 0x40 + 0x80) (by omega)
        rw [List.cons_append, List.cons_append, List.singleton_append, first (by omega) read,
          decodeFrom_more (by simp) (by simp only [middle]; split <;> omega) (by simp only [middle]; split <;> omega)]
        apply decodeFrom_last <;> simp only [middle, last, code] <;> omega
      · rename_i _ _ above
        have read : decodeFirst (v / 262144 % 0x08 + 0xf0) =
            ([], some ⟨3, v / 262144 % 0x08 + 0xf0 - 0xF0, if v / 262144 % 0x08 + 0xf0 = 0xF0 then 0x90 else 0x80,
              if v / 262144 % 0x08 + 0xf0 = 0xF4 then 0x8F else 0xBF⟩) := by
          rw [decodeFirst, if_neg (by omega), if_neg (by omega), if_neg (by omega), if_pos (by omega)]
        have second := number (v / 4096 % 0x40 + 0x80) (by omega)
        have third := number (v / 64 % 0x40 + 0x80) (by omega)
        have last := number (v % 0x40 + 0x80) (by omega)
        rw [List.cons_append, List.cons_append, List.cons_append, List.singleton_append, first (by omega) read,
          decodeFrom_more (by simp) (by simp only [second]; split <;> omega) (by simp only [second]; split <;> omega),
          decodeFrom_more (by simp) (by simp only [third]; omega) (by simp only [third]; omega)]
        apply decodeFrom_last <;> simp only [second, third, last, code] <;> omega

@[simp] theorem decodeUtf8_encodeUtf8 (text : List Char) : decodeUtf8 (encodeUtf8 text) = text := by
  induction text with
  | nil => rfl
  | cons c rest ih =>
      rw [encodeUtf8, List.flatMap_cons, decodeUtf8_utf8EncodeChar]
      exact congrArg (c :: ·) ih

end Library
