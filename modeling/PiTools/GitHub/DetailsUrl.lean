import PiTools.Library.Scanning

/-
This file says when the id of an Actions job is read from the details URL of
its check run.
-/

namespace PiTools.GitHub

open Library

/-! ### The scan of the path -/

/-- A number of the type `i64` is read from decimal digits after an optional sign. -/
def parseI64 (text : List Char) : Option Int :=
  let negative := text.head? = some '-'
  let digits := if negative ∨ text.head? = some '+' then text.tail else text
  if digits = [] ∨ ¬ digits.all Char.isDigit then none
  else
    let magnitude : Int := Nat.ofDigitChars 10 digits 0
    let value := if negative then -magnitude else magnitude
    if -0x8000000000000000 ≤ value ∧ value < 0x8000000000000000 then some value else none

/-- The parts of a parsed URL that are read. A URL without a hierarchical path has no segments. -/
structure DetailsUrl where
  scheme : String
  pathSegments : Option (List String)
  deriving DecidableEq, Repr

def readJobId : List String → Option Int
  | [] => none
  | segment :: _ => (parseI64 segment.toList).bind fun jobId => if 0 < jobId then some jobId else none

/-- The number behind the first segment `job`. -/
def jobIdOfSegments : List String → Option Int
  | [] => none
  | segment :: rest => if segment = "job" then readJobId rest else jobIdOfSegments rest

def actionsJobIdFromDetailsUrl (parseUrl : String → Option DetailsUrl) (detailsUrl : Option String) : Option Int := do
  let url ← parseUrl (← detailsUrl)
  if url.scheme ≠ "https" then none
  else jobIdOfSegments (← url.pathSegments)

theorem readJobId_cons {segment : String} {rest : List String} {jobId : Int} :
    readJobId (segment :: rest) = some jobId ↔ parseI64 segment.toList = some jobId ∧ 0 < jobId := by
  rw [readJobId, Option.bind_eq_some_iff]
  constructor
  · rintro ⟨number, read, positive⟩
    split at positive
    · rename_i holds
      cases positive
      exact ⟨read, holds⟩
    · cases positive
  · rintro ⟨read, positive⟩
    exact ⟨jobId, read, if_pos positive⟩

/-- The scan passes the segments in front of the first segment `job`. -/
theorem jobIdOfSegments_eq_some {segments : List String} {jobId : Int} :
    jobIdOfSegments segments = some jobId ↔ 0 < jobId ∧ ∃ front next back,
      segments = front ++ "job" :: next :: back ∧ "job" ∉ front ∧ parseI64 next.toList = some jobId := by
  induction segments with
  | nil => simp [jobIdOfSegments]
  | cons segment rest ih =>
      rw [jobIdOfSegments]
      by_cases here : segment = "job"
      · subst here
        rw [if_pos rfl]
        constructor
        · intro found
          cases rest with
          | nil => cases found
          | cons next back =>
              obtain ⟨read, positive⟩ := readJobId_cons.mp found
              exact ⟨positive, [], next, back, rfl, List.not_mem_nil, read⟩
        · rintro ⟨positive, front, next, back, split, first, read⟩
          cases front with
          | nil =>
              cases split
              exact readJobId_cons.mpr ⟨read, positive⟩
          | cons other front =>
              cases split
              exact absurd (.head _) first
      · rw [if_neg here, ih]
        constructor
        · rintro ⟨positive, front, next, back, rfl, first, read⟩
          refine ⟨positive, segment :: front, next, back, rfl, ?_, read⟩
          rw [List.mem_cons, not_or]
          exact ⟨Ne.symm here, first⟩
        · rintro ⟨positive, front, next, back, split, first, read⟩
          cases front with
          | nil =>
              cases split
              exact absurd rfl here
          | cons other front =>
              cases split
              exact ⟨positive, front, next, back, rfl, fun inside => first (.tail _ inside), read⟩

/-! ### Details URLs -/

/-- The characters of the names of owners and repositories. -/
def nameChar (c : Char) : Bool := c.isAlphanum || c ∈ ['.', '_', '-']

structure GitHubName where
  text : String
  admitted : text ≠ "" ∧ text.toList.all nameChar = true

/-- The ids are the positive numbers of the type `i64`. -/
structure ActionsJobId where
  value : Nat
  positive : 0 < value
  bounded : value < 0x8000000000000000

def decimalText (value : Nat) : String := String.ofList (Nat.toDigits 10 value)

section

variable (owner repository : GitHubName) (run : Nat) (job : ActionsJobId)

def detailsSegments : List String :=
  [owner.text, repository.text, "actions", "runs", decimalText run, "job", decimalText job.value]

def detailsUrl : String :=
  "https://github.com/" ++ String.intercalate "/" (detailsSegments owner repository run job)

/-- The parser keeps the segments of the path. -/
def KeepsSegments (parseUrl : String → Option DetailsUrl) : Prop :=
  parseUrl (detailsUrl owner repository run job) = some ⟨"https", some (detailsSegments owner repository run job)⟩

instance (parseUrl : String → Option DetailsUrl) : Decidable (KeepsSegments owner repository run job parseUrl) :=
  inferInstanceAs (Decidable (_ = _))

/-- The id of the job is read, and no other number is. -/
def SurvivesUrl (parseUrl : String → Option DetailsUrl) : Prop :=
  let found := actionsJobIdFromDetailsUrl parseUrl (some (detailsUrl owner repository run job))
  found = some (job.value : Int) ∧ ∀ other, found = some other → other = job.value

end

theorem parseI64_digits {value : Nat} (bounded : value < 0x8000000000000000) :
    parseI64 (Nat.toDigits 10 value) = some (value : Int) := by
  have digits : ∀ c ∈ Nat.toDigits 10 value, c.isDigit = true :=
    fun c member => Nat.isDigit_of_mem_toDigits (by decide) (by decide) member
  have unsigned {sign : Char} (other : sign.isDigit = false) : (Nat.toDigits 10 value).head? ≠ some sign := by
    intro first
    rw [digits sign (List.mem_of_mem_head? first)] at other
    cases other
  have known : ¬ (Nat.toDigits 10 value = [] ∨ ¬ (Nat.toDigits 10 value).all Char.isDigit) := by
    rw [not_or, not_not, List.all_eq_true]
    exact ⟨Nat.toDigits_ne_nil, digits⟩
  have range : -0x8000000000000000 ≤ (value : Int) ∧ (value : Int) < 0x8000000000000000 := by omega
  unfold parseI64
  dsimp only
  rw [if_neg (not_or.mpr ⟨unsigned (by decide), unsigned (by decide)⟩), if_neg known,
    if_neg (unsigned (by decide)), Nat.ofDigitChars_ten_toDigits, if_pos range]

theorem decimalText_ne_job (value : Nat) : decimalText value ≠ "job" := by
  intro same
  have letters : Nat.toDigits 10 value = ['j', 'o', 'b'] := by
    rw [← String.toList_ofList (l := Nat.toDigits 10 value)]
    exact congrArg String.toList same
  have digit : 'j'.isDigit = true :=
    Nat.isDigit_of_mem_toDigits (by decide) (by decide) (letters ▸ List.mem_cons_self)
  cases digit

section

variable {parseUrl : String → Option DetailsUrl} {owner repository : GitHubName} {run : Nat} {job : ActionsJobId}

/-- The scan meets the owner's name first, then the name of the repository. -/
theorem jobIdOfSegments_details (other : Int) :
    jobIdOfSegments (detailsSegments owner repository run job) = some other ↔
      (owner.text ≠ "job" ∧ repository.text ≠ "job" ∧ other = job.value) ∨
        (owner.text = "job" ∧ parseI64 repository.text.toList = some other ∧ 0 < other) := by
  have positive : (0 : Int) < job.value := by exact_mod_cast job.positive
  rw [detailsSegments, jobIdOfSegments]
  by_cases byOwner : owner.text = "job"
  · rw [if_pos byOwner, readJobId_cons]
    simp [byOwner]
  · rw [if_neg byOwner, jobIdOfSegments]
    by_cases byRepository : repository.text = "job"
    · -- The segment behind the name is no number.
      have noNumber : parseI64 "actions".toList = none := by decide
      rw [if_pos byRepository, readJobId_cons, noNumber]
      simp [byOwner, byRepository]
    · have last : jobIdOfSegments ["actions", "runs", decimalText run, "job", decimalText job.value] =
          readJobId [decimalText job.value] := by
        rw [jobIdOfSegments, if_neg (by decide), jobIdOfSegments, if_neg (by decide), jobIdOfSegments,
          if_neg (decimalText_ne_job run), jobIdOfSegments, if_pos rfl]
      rw [if_neg byRepository, last, readJobId_cons, decimalText, String.toList_ofList, parseI64_digits job.bounded]
      constructor
      · rintro ⟨same, -⟩
        exact .inl ⟨byOwner, byRepository, (Option.some.inj same).symm⟩
      · rintro (⟨-, -, rfl⟩ | ⟨absurdly, -⟩)
        · exact ⟨rfl, positive⟩
        · exact absurd absurdly byOwner

theorem actionsJobId_details (keeps : KeepsSegments owner repository run job parseUrl) :
    actionsJobIdFromDetailsUrl parseUrl (some (detailsUrl owner repository run job)) =
      jobIdOfSegments (detailsSegments owner repository run job) := by
  unfold actionsJobIdFromDetailsUrl
  change (parseUrl (detailsUrl owner repository run job)).bind _ = _
  rw [keeps]
  rfl

/-- Another number is read exactly for an owner with the name `job` and a numeral as the name of the
repository. -/
theorem other_job_id_iff (keeps : KeepsSegments owner repository run job parseUrl) (other : Int) :
    (actionsJobIdFromDetailsUrl parseUrl (some (detailsUrl owner repository run job)) = some other ∧
        other ≠ job.value) ↔
      owner.text = "job" ∧ parseI64 repository.text.toList = some other ∧ 0 < other ∧ other ≠ job.value := by
  rw [actionsJobId_details keeps, jobIdOfSegments_details]
  constructor
  · rintro ⟨⟨-, -, same⟩ | ⟨byOwner, read, positive⟩, different⟩
    · exact absurd same different
    · exact ⟨byOwner, read, positive, different⟩
  · rintro ⟨byOwner, read, positive, different⟩
    exact ⟨.inr ⟨byOwner, read, positive⟩, different⟩

/-- A job id survives its URL exactly when no name is `job`, or the owner's name is and the name of
the repository is a numeral of the same id. -/
theorem job_id_survives_iff (keeps : KeepsSegments owner repository run job parseUrl) :
    SurvivesUrl owner repository run job parseUrl ↔
      (owner.text ≠ "job" ∧ repository.text ≠ "job") ∨
        (owner.text = "job" ∧ parseI64 repository.text.toList = some (job.value : Int)) := by
  have positive : (0 : Int) < job.value := by exact_mod_cast job.positive
  rw [SurvivesUrl, actionsJobId_details keeps]
  constructor
  · rintro ⟨found, -⟩
    rcases (jobIdOfSegments_details _).mp found with ⟨byOwner, byRepository, -⟩ | ⟨byOwner, read, -⟩
    · exact .inl ⟨byOwner, byRepository⟩
    · exact .inr ⟨byOwner, read⟩
  · intro condition
    have found : jobIdOfSegments (detailsSegments owner repository run job) = some (job.value : Int) := by
      rw [jobIdOfSegments_details]
      rcases condition with ⟨byOwner, byRepository⟩ | ⟨byOwner, read⟩
      · exact .inl ⟨byOwner, byRepository, rfl⟩
      · exact .inr ⟨byOwner, read, positive⟩
    refine ⟨found, fun other also => ?_⟩
    rw [found] at also
    exact (Option.some.inj also).symm

end

/-! ### Examples -/

/-- A parser of absolute URLs with a host and a path. -/
def parsePlainUrl (text : String) : Option DetailsUrl :=
  match splitOnce "://".toList text.toList with
  | none => none
  | some (scheme, rest) =>
      some ⟨String.ofList scheme, some ((rest.splitOn '/').tail.map String.ofList)⟩

def widgets : GitHubName := ⟨"widgets", by decide⟩

def exampleJob : ActionsJobId := ⟨399444496, by decide, by decide⟩

theorem example_job_id_survives :
    SurvivesUrl ⟨"acme", by decide⟩ widgets 29679449 exampleJob parsePlainUrl :=
  (job_id_survives_iff (by decide +kernel)).mpr (.inl (by decide))

/-- The owner `job` with a repository `42` has the log of the job 42 fetched. -/
theorem owner_named_job_misleads :
    ∃ owner repository run job, KeepsSegments owner repository run job parsePlainUrl ∧
      actionsJobIdFromDetailsUrl parsePlainUrl (some (detailsUrl owner repository run job)) = some 42 ∧
        ¬ SurvivesUrl owner repository run job parsePlainUrl := by
  have keeps : KeepsSegments ⟨"job", by decide⟩ ⟨"42", by decide⟩ 29679449 exampleJob parsePlainUrl := by
    decide +kernel
  have found : actionsJobIdFromDetailsUrl parsePlainUrl
      (some (detailsUrl ⟨"job", by decide⟩ ⟨"42", by decide⟩ 29679449 exampleJob)) = some 42 := by
    decide +kernel
  refine ⟨_, _, _, _, keeps, found, ?_⟩
  rintro ⟨same, -⟩
  rw [found] at same
  exact absurd same (by decide)

end PiTools.GitHub
