import PiTools.Library.Scanning

/-
This file defines JSON values with ordered object fields, and the operators
that a `jsonb` column offers on them.
-/

namespace Library

/-- A number is carried by its decimal digits, with exponents written out. -/
inductive Number
  | int (value : Int)
  | decimal (negative : Bool) (whole : Nat) (tenth : Fin 10) (rest : List (Fin 10))
  deriving DecidableEq, Repr

/-- The fields of an object stand in the order of their keys. -/
inductive Json
  | null
  | bool (value : Bool)
  | number (value : Number)
  | string (value : String)
  | array (items : List Json)
  | object (fields : List (String × Json))
  deriving Repr

abbrev Fields := List (String × Json)

/-- The value of a key. -/
def getField (key : String) : Fields → Option Json
  | [] => none
  | (other, value) :: rest => if other = key then some value else getField key rest

/-- The insertion keeps the order of the keys and replaces an earlier value. -/
def insertField (key : String) (value : Json) : Fields → Fields
  | [] => [(key, value)]
  | (other, old) :: rest =>
      if other = key then (key, value) :: rest
      else if key < other then (key, value) :: (other, old) :: rest
      else (other, old) :: insertField key value rest

def removeField (key : String) : Fields → Fields
  | [] => []
  | (other, value) :: rest =>
      if other = key then removeField key rest else (other, value) :: removeField key rest

/-- The merge keeps every key, and the second object decides on shared keys. -/
def mergeFields (first second : Fields) : Fields :=
  second.foldr (fun field merged => insertField field.1 field.2 merged) first

@[simp] theorem getField_nil (key : String) : getField key [] = none := rfl

theorem getField_cons (key other : String) (value : Json) (rest : Fields) :
    getField key ((other, value) :: rest) =
      if other = key then some value else getField key rest := rfl

@[simp] theorem getField_insertField_self (key : String) (value : Json) (fields : Fields) :
    getField key (insertField key value fields) = some value := by
  induction fields with
  | nil => simp [insertField, getField]
  | cons field rest ih =>
      simp only [insertField]
      split
      · simp [getField]
      · split
        · simp [getField]
        · rename_i different _
          simp [getField, different, ih]

@[simp] theorem getField_insertField_of_ne {key other : String} (different : other ≠ key)
    (value : Json) (fields : Fields) :
    getField key (insertField other value fields) = getField key fields := by
  induction fields with
  | nil => simp [insertField, getField, different]
  | cons field rest ih =>
      obtain ⟨first, old⟩ := field
      simp only [insertField]
      split
      · rename_i same
        subst same
        simp [getField, different]
      · split
        · simp [getField, different]
        · simp only [getField, ih]

theorem getField_insertField (key other : String) (value : Json) (fields : Fields) :
    getField key (insertField other value fields) =
      if other = key then some value else getField key fields := by
  split
  · rename_i same
    subst same
    simp
  · rename_i different
    simp [different]

@[simp] theorem getField_removeField_of_ne {key other : String} (different : other ≠ key)
    (fields : Fields) : getField key (removeField other fields) = getField key fields := by
  induction fields with
  | nil => rfl
  | cons field rest ih =>
      simp only [removeField]
      split
      · rename_i same
        simp [getField, same, different, ih]
      · simp only [getField, ih]

theorem getField_mergeFields (key : String) (first second : Fields) :
    getField key (mergeFields first second) = (getField key second).or (getField key first) := by
  induction second with
  | nil => simp [mergeFields]
  | cons field rest ih =>
      simp only [mergeFields, List.foldr_cons] at ih ⊢
      rw [getField_insertField, getField_cons, ih]
      split <;> simp

/-- Removing a key hides an insertion at that key. -/
theorem removeField_insertField_self (key : String) (value : Json) (fields : Fields) :
    removeField key (insertField key value fields) = removeField key fields := by
  induction fields with
  | nil => simp [insertField, removeField]
  | cons field rest ih =>
      simp only [insertField]
      split
      · rename_i same
        simp [removeField, same]
      · split
        · simp [removeField]
        · simp only [removeField, ih]

theorem removeField_comm (first second : String) (fields : Fields) :
    removeField first (removeField second fields) =
      removeField second (removeField first fields) := by
  induction fields with
  | nil => rfl
  | cons field rest ih =>
      simp only [removeField]
      split <;> split <;> simp_all [removeField]

namespace Json

/-- The field of an object under a key. Other values have no such field. -/
def get (value : Json) (key : String) : Option Json :=
  match value with
  | .object fields => getField key fields
  | _ => none

def asBool : Json → Option Bool
  | .bool value => some value
  | _ => none

def asStr : Json → Option String
  | .string value => some value
  | _ => none

def asArray : Json → Option (List Json)
  | .array items => some items
  | _ => none

/-- A number that fits into 64 bits with a sign. -/
def asInt64 : Json → Option Int
  | .number (.int value) =>
      if -0x8000000000000000 ≤ value ∧ value < 0x8000000000000000 then some value else none
  | _ => none

/-- A number that fits into 32 bits with a sign. -/
def asInt32 (value : Json) : Option Int :=
  value.asInt64.filter fun number => -0x80000000 ≤ number ∧ number < 0x80000000

/-- A number that fits into 32 bits without a sign. -/
def asUInt32 (value : Json) : Option Nat :=
  (value.asInt64.filter fun number => 0 ≤ number ∧ number < 0x100000000).map Int.toNat

/-- An index has no sign and no leading zero. -/
def arrayIndex (token : String) : Option Nat :=
  match token.toList with
  | '+' :: _ | '0' :: _ :: _ => none
  | digits => parseUsize digits

/-- The value at the end of a path. -/
def pointer (value : Json) : List String → Option Json
  | [] => some value
  | token :: path =>
      match value with
      | .object fields => (getField token fields).bind fun inner => inner.pointer path
      | .array items => (arrayIndex token).bind fun index =>
          (items[index]?).bind fun inner => inner.pointer path
      | _ => none

def isObject : Json → Bool
  | .object _ => true
  | _ => false

def ofInt (value : Int) : Json := .number (.int value)

@[simp] theorem get_object (fields : Fields) (key : String) :
    (object fields).get key = getField key fields := rfl

theorem isObject_of_get {value inner : Json} {key : String} (found : value.get key = some inner) :
    ∃ fields, value = object fields := by
  cases value <;> simp_all [get]

/-- The items that an operand of `||` contributes to an array. -/
def items : Json → List Json
  | .array items => items
  | value => [value]

/-- The operator `||` merges two objects and otherwise joins arrays. -/
def concat : Json → Json → Json
  | .object first, .object second => .object (mergeFields first second)
  | first, second => .array (first.items ++ second.items)

/-- The failures of `jsonb_set` at a key that is not an index. -/
inductive SetError
  | scalarTarget
  | pathElementNotInteger
  deriving DecidableEq, Repr

/-- The operator `jsonb_set` at one key, where a missing key is created. -/
def setKey (target : Json) (key : String) (value : Json) : Except SetError Json :=
  match target with
  | .object fields => .ok (.object (insertField key value fields))
  | .array _ => .error .pathElementNotInteger
  | _ => .error .scalarTarget

/-- A merge into any value answers from the second object or, for objects, from the first. -/
theorem get_concat_of_get {first second inner : Json} {key : String}
    (found : (first.concat second).get key = some inner) :
    second.get key = some inner ∨ (second.get key = none ∧ first.get key = some inner) := by
  cases first <;> cases second <;> simp only [concat, get, reduceCtorEq] at found
  rename_i one two
  rw [getField_mergeFields] at found
  cases second : getField key two with
  | none => exact .inr ⟨second, by simpa [second] using found⟩
  | some other => exact .inl (by simpa [second] using found)

/-- A key that the second object lacks keeps its value in an object. -/
theorem get_concat_of_none {fields : Fields} {second : Json} {key : String}
    (isObject : second.isObject = true) (absent : second.get key = none) :
    ((object fields).concat second).get key = getField key fields := by
  cases second <;> simp_all [concat, get, Json.isObject, getField_mergeFields]

/-- A key of the second object is a key of the merge. -/
theorem get_concat_of_found {first second value : Json} {key : String}
    (isObject : first.isObject = true) (found : second.get key = some value) :
    (first.concat second).get key = some value := by
  cases first <;> cases second <;> simp_all [concat, get, Json.isObject, getField_mergeFields]

theorem isObject_concat {first second : Json} (one : first.isObject = true)
    (two : second.isObject = true) : (first.concat second).isObject = true := by
  cases first <;> cases second <;> simp_all [concat, Json.isObject]

/-- A merge with an object that lacks a key answers from the first value. -/
theorem get_concat_of_absent {first second : Json} {key : String}
    (isObject : second.isObject = true) (absent : second.get key = none) :
    (first.concat second).get key = first.get key := by
  cases first with
  | object fields => exact get_concat_of_none isObject absent
  | _ => cases second <;> rfl

theorem setKey_ok {target value result : Json} {key : String}
    (set : target.setKey key value = .ok result) :
    ∃ fields, target = object fields ∧ result = object (insertField key value fields) := by
  cases target <;> simp only [setKey, reduceCtorEq, Except.ok.injEq] at set
  exact ⟨_, rfl, set.symm⟩

/-- A successful `jsonb_set` decides its own key and keeps every other key. -/
theorem get_setKey {target value result : Json} {key : String} (other : String)
    (set : target.setKey key value = .ok result) :
    result.get other = if key = other then some value else target.get other := by
  obtain ⟨fields, rfl, rfl⟩ := setKey_ok set
  simp [getField_insertField]

end Json

end Library
