import PiTools.Reconcile.Readiness

/-
This file shows what a ready pull request says about its required checks.
-/

namespace PiTools.Reconcile

open Library

variable {data : PullRequestReadSet} {policy : Policy} {name : String}

/-! ### Results -/

/-- A result on GitHub is a commit status or a check run. -/
inductive CheckResult
  | ofStatus (status : CommitStatus)
  | ofRun (run : GitHubCheckRun)
  deriving DecidableEq

def CheckResult.record : CheckResult → CheckRecord
  | .ofStatus status => status.record
  | .ofRun run => run.record

def CommitStatus.Passes (status : CommitStatus) : Prop := status.state = "success"

def GitHubCheckRun.Passes (run : GitHubCheckRun) : Prop :=
  run.status = "completed" ∧ (run.conclusion = some "success" ∨ run.conclusion = some "skipped")

def CheckResult.Passes : CheckResult → Prop
  | .ofStatus status => status.Passes
  | .ofRun run => run.Passes

def latestStatus (data : PullRequestReadSet) (name : String) : Option CommitStatus :=
  (sortedStatuses data).reverse.find? fun status => name = status.context

def latestCheckRun (data : PullRequestReadSet) (name : String) : Option GitHubCheckRun :=
  (sortedCheckRuns data).reverse.find? fun run => name = run.name

/-- The latest check run of one app. -/
def latestCheckRunOf (data : PullRequestReadSet) (name : String) (app : Option CheckApp) :
    Option GitHubCheckRun :=
  (sortedCheckRuns data).reverse.find? fun run => name = run.name ∧ app = run.app

/-- The result whose record keeps the name. -/
def winningResult (data : PullRequestReadSet) (name : String) : Option CheckResult :=
  ((latestCheckRun data name).map .ofRun).or ((latestStatus data name).map .ofStatus)

/-- The records keep the latest check run of a name, or else its latest commit status. -/
theorem lookup_recordsByName (data : PullRequestReadSet) (name : String) :
    (recordsByName data).lookup name = (winningResult data name).map CheckResult.record := by
  rw [recordsByName, Entries.lookup_collect, List.reverse_append, List.find?_append,
    ← List.map_reverse, ← List.map_reverse, List.find?_map, List.find?_map, winningResult]
  simp only [Function.comp_def, latestCheckRun, latestStatus]
  cases (sortedCheckRuns data).reverse.find? fun run => name = run.name with
  | some run => simp [CheckResult.record]
  | none =>
      cases (sortedStatuses data).reverse.find? fun status => name = status.context with
      | some status => simp [CheckResult.record]
      | none => rfl

theorem mem_sortedCheckRuns {run : GitHubCheckRun} :
    run ∈ (sortedCheckRuns data).reverse ↔ run ∈ data.checkRuns := by
  rw [List.mem_reverse, sortedCheckRuns, List.mem_insertionSort]

theorem mem_sortedStatuses {status : CommitStatus} :
    status ∈ (sortedStatuses data).reverse ↔ status ∈ data.statuses := by
  rw [List.mem_reverse, sortedStatuses, List.mem_insertionSort]

theorem latestStatus_eq_some {status : CommitStatus} (found : latestStatus data name = some status) :
    status ∈ data.statuses ∧ status.context = name := by
  have same := List.find?_some found
  rw [decide_eq_true_eq] at same
  exact ⟨mem_sortedStatuses.mp (List.mem_of_find?_eq_some found), same.symm⟩

theorem latestCheckRun_eq_some {run : GitHubCheckRun} (found : latestCheckRun data name = some run) :
    run ∈ data.checkRuns ∧ run.name = name := by
  have same := List.find?_some found
  rw [decide_eq_true_eq] at same
  exact ⟨mem_sortedCheckRuns.mp (List.mem_of_find?_eq_some found), same.symm⟩

theorem latestCheckRunOf_eq_some {run : GitHubCheckRun} {app : Option CheckApp}
    (found : latestCheckRunOf data name app = some run) :
    run ∈ data.checkRuns ∧ run.name = name ∧ run.app = app := by
  have same := List.find?_some found
  rw [decide_eq_true_eq] at same
  exact ⟨mem_sortedCheckRuns.mp (List.mem_of_find?_eq_some found), same.1.symm, same.2.symm⟩

theorem exists_latestCheckRun {run : GitHubCheckRun} (member : run ∈ data.checkRuns) :
    ∃ latest, latestCheckRun data run.name = some latest := by
  rw [← Option.isSome_iff_exists, latestCheckRun, List.find?_isSome]
  exact ⟨run, mem_sortedCheckRuns.mpr member, by simp⟩

theorem exists_latestCheckRunOf {run : GitHubCheckRun} (member : run ∈ data.checkRuns) :
    ∃ latest, latestCheckRunOf data run.name run.app = some latest := by
  rw [← Option.isSome_iff_exists, latestCheckRunOf, List.find?_isSome]
  exact ⟨run, mem_sortedCheckRuns.mpr member, by simp⟩

/-- The latest check run of a name is also the latest one of its app. -/
theorem latestCheckRunOf_latest {run : GitHubCheckRun}
    (latest : latestCheckRun data name = some run) :
    latestCheckRunOf data name run.app = some run := by
  obtain ⟨same, before, after, split, earlier⟩ := List.find?_eq_some_iff_append.mp latest
  refine List.find?_eq_some_iff_append.mpr ⟨by simpa using same, before, after, split, ?_⟩
  intro other member
  have different := earlier other member
  simp only [Bool.not_eq_true', decide_eq_false_iff_not] at different ⊢
  exact fun both => different both.1

/-! ### Records -/

theorem checkStatus_completed {status : String} :
    checkStatus status = .completed ↔ status = "completed" := by
  unfold checkStatus
  split
  · rename_i queued
    constructor
    · intro absurd_
      cases absurd_
    · rintro rfl
      simp at queued
  · split
    · rename_i started
      simp [started]
    · split <;> simp_all

theorem checkConclusion_success {conclusion : String} :
    checkConclusion conclusion = .success ↔ conclusion = "success" := by
  unfold checkConclusion
  repeat' split
  all_goals simp_all

theorem checkConclusion_skipped {conclusion : String} :
    checkConclusion conclusion = .skipped ↔ conclusion = "skipped" := by
  unfold checkConclusion
  repeat' split
  all_goals simp_all

/-- A check gives no reason exactly when its app is right and it passed. -/
theorem checkReason_eq_none {check : CheckSnapshot} :
    checkReason check = none ↔
      (∀ app, check.requiredAppId = some app → check.appId = some app) ∧
        check.status = .completed ∧
          (check.conclusion = some .success ∨ check.conclusion = some .skipped) := by
  unfold checkReason
  split
  · rename_i wrong
    simp only [Bool.and_eq_true, Option.isSome_iff_exists, decide_eq_true_eq] at wrong
    obtain ⟨⟨app, required⟩, different⟩ := wrong
    simp only [reduceCtorEq, false_iff]
    intro right
    exact different ((right.1 app required).trans required.symm)
  · rename_i right
    have sameApp : ∀ app, check.requiredAppId = some app → check.appId = some app := by
      intro app required
      simpa [required] using right
    rw [and_iff_right sameApp]
    cases check.status <;> cases check.conclusion <;> simp
    rename_i conclusion
    cases conclusion <;> simp

theorem record_passes {result : CheckResult} :
    (checkStatus result.record.status = .completed ∧
      (result.record.conclusion.map checkConclusion = some .success ∨
        result.record.conclusion.map checkConclusion = some .skipped)) ↔ result.Passes := by
  cases result with
  | ofRun run =>
      simp only [CheckResult.record, GitHubCheckRun.record, CheckResult.Passes,
        GitHubCheckRun.Passes, checkStatus_completed, Option.map_eq_some_iff,
        checkConclusion_success, checkConclusion_skipped, exists_eq_right]
  | ofStatus status =>
      simp only [CheckResult.record, CommitStatus.record, CheckResult.Passes, CommitStatus.Passes,
        checkStatus_completed, Option.map_eq_some_iff, checkConclusion_success,
        checkConclusion_skipped, exists_eq_right, commitStatusState]
      repeat' split
      all_goals simp_all

/-! ### The readiness checks -/

/-- Every record has the name under which it is kept. -/
theorem recordsByName_named {entry : String × CheckRecord} (member : entry ∈ recordsByName data) :
    entry.2.name = entry.1 := by
  have found := (Entries.collect_ordered _).mem_iff.mp member
  rw [Entries.lookup_collect, Option.map_eq_some_iff] at found
  obtain ⟨pair, found, same⟩ := found
  have key := List.find?_some found
  rw [decide_eq_true_eq] at key
  have inside := List.mem_reverse.mp (List.mem_of_find?_eq_some found)
  rw [← same, key]
  rcases List.mem_append.mp inside with status | run
  · obtain ⟨_, _, rfl⟩ := List.mem_map.mp status
    rfl
  · obtain ⟨_, _, rfl⟩ := List.mem_map.mp run
    rfl

/-- The snapshots of the records before the missing ones are added. -/
theorem lookup_snapshots (requiredNames : List String) :
    Entries.lookup name (Entries.collect ((checkRecords data).map fun check =>
      (check.name, CheckRecord.snapshot data requiredNames check))) =
        ((recordsByName data).lookup name).map (CheckRecord.snapshot data requiredNames) := by
  have keys : ((checkRecords data).map fun check =>
      (check.name, CheckRecord.snapshot data requiredNames check)) =
        (recordsByName data).map fun entry =>
          (entry.1, CheckRecord.snapshot data requiredNames entry.2) := by
    rw [checkRecords, List.map_map]
    refine List.map_congr_left fun entry member => ?_
    simp only [Function.comp_def, recordsByName_named member]
  have ordered : Entries.Ordered (recordsByName data) := Entries.collect_ordered _
  rw [keys]
  apply Option.ext
  intro snapshot
  rw [Entries.lookup_collect_of_nodup (by simpa [List.map_map, Function.comp_def] using
    ordered.keys_nodup), List.mem_map, Option.map_eq_some_iff]
  constructor
  · rintro ⟨⟨_, record⟩, member, same⟩
    cases same
    exact ⟨record, ordered.mem_iff.mp member, rfl⟩
  · rintro ⟨record, found, rfl⟩
    exact ⟨(name, record), ordered.mem_iff.mpr found, rfl⟩

theorem lookup_orMissing {checks : Entries String CheckSnapshot} {other : String} :
    (orMissing data checks other).lookup name =
      (checks.lookup name).or (if name = other then some (missingCheck data name) else none) := by
  unfold orMissing
  split
  · rename_i present
    split
    · rename_i same
      obtain ⟨check, found⟩ := Option.isSome_iff_exists.mp present
      rw [same, found, Option.some_or]
    · rw [Option.or_none]
  · rename_i absent
    rw [Entries.lookup_insert]
    split
    · rename_i same
      rw [Option.not_isSome_iff_eq_none, ← same] at absent
      rw [absent, Option.none_or, same]
    · rw [Option.or_none]

theorem lookup_foldl_orMissing {names : List String} {checks : Entries String CheckSnapshot} :
    (names.foldl (orMissing data) checks).lookup name =
      (checks.lookup name).or (if name ∈ names then some (missingCheck data name) else none) := by
  induction names generalizing checks with
  | nil => simp
  | cons first rest ih =>
      rw [List.foldl_cons, ih, lookup_orMissing, Option.or_assoc]
      congr 1
      by_cases here : name = first
      · simp [here]
      · simp [here]

/-- A required name has the snapshot of its record, or else the missing one. -/
theorem lookup_readinessChecks (required : name ∈ requiredCheckNames data policy) :
    (readinessChecks data policy).lookup name =
      some (((winningResult data name).map fun result =>
        CheckRecord.snapshot data (requiredCheckNames data policy) result.record).getD
          (missingCheck data name)) := by
  rw [readinessChecks, lookup_foldl_orMissing, lookup_snapshots, lookup_recordsByName,
    if_pos required]
  cases winningResult data name <;> rfl

theorem orMissing_ordered {checks : Entries String CheckSnapshot} (ordered : Entries.Ordered checks)
    (other : String) : Entries.Ordered (orMissing data checks other) := by
  unfold orMissing
  split
  · exact ordered
  · exact ordered.insert other _

theorem readinessChecks_ordered (data : PullRequestReadSet) (policy : Policy) :
    Entries.Ordered (readinessChecks data policy) := by
  unfold readinessChecks
  refine List.foldlRecOn _ _ (Entries.collect_ordered _) fun checks ordered other _ => ?_
  exact orMissing_ordered ordered other

/-- Every snapshot has the name under which it is kept. -/
theorem readinessChecks_named {entry : String × CheckSnapshot}
    (member : entry ∈ readinessChecks data policy) : entry.2.name = entry.1 := by
  obtain ⟨key, check⟩ := entry
  have found := (readinessChecks_ordered data policy).mem_iff.mp member
  rw [readinessChecks, lookup_foldl_orMissing, lookup_snapshots] at found
  cases known : (recordsByName data).lookup key with
  | some record =>
      rw [known] at found
      cases found
      exact recordsByName_named (Entries.mem_of_lookup known)
  | none =>
      rw [known, Option.map_none, Option.none_or] at found
      split at found
      · cases found
        rfl
      · cases found

theorem find_readinessChecks :
    ((readinessChecks data policy).map Prod.snd).find? (fun check => check.name = name) =
      (readinessChecks data policy).lookup name := by
  have named (entry : String × CheckSnapshot) (member : entry ∈ readinessChecks data policy) :
      entry.2.name = entry.1 := readinessChecks_named member
  generalize readinessChecks data policy = checks at named
  induction checks with
  | nil => rfl
  | cons first rest ih =>
      have key := named first List.mem_cons_self
      rw [List.map_cons, List.find?_cons, ih fun entry member =>
        named entry (List.mem_cons_of_mem _ member), key, Entries.lookup]
      by_cases same : first.1 = name
      · simp [same]
      · simp [same, Ne.symm same]

/-- The names that are evaluated are those of the read set and of the policy. -/
theorem mem_requiredNames (required : name ∈ requiredCheckNames data policy) :
    name ∈ requiredNames (reconcileReadSet data policy).readiness policy := by
  have found := lookup_readinessChecks required
  have member := Entries.mem_of_lookup found
  have evaluated : ∀ check : CheckSnapshot, check = ((winningResult data name).map fun result =>
      CheckRecord.snapshot data (requiredCheckNames data policy) result.record).getD
        (missingCheck data name) → check.name = name → check.required = true := by
    rintro check rfl named
    cases known : winningResult data name with
    | none => rfl
    | some result =>
        rw [known] at named
        have same : result.record.name = name := named
        exact decide_eq_true (by rwa [same])
  unfold requiredNames
  rw [(List.pairwise_insertionSort _ _).destutter_eq_dedup, List.mem_dedup,
    List.mem_insertionSort, List.mem_append]
  refine .inl (List.mem_map.mpr ⟨_, List.mem_filter.mpr ⟨List.mem_map_of_mem member, ?_⟩,
    readinessChecks_named member⟩)
  exact evaluated _ rfl (readinessChecks_named member)

/-! ### Ready pull requests -/

/-- A ready input has no reason at all. -/
theorem evaluate_ready {input : ReadinessInput} :
    (evaluate input policy).ready = true ↔ foundReasons input policy = [] := by
  simp only [evaluate, List.isEmpty_iff, List.destutter_eq_nil]
  have perm := List.perm_insertionSort (fun left right : ReadinessReason =>
    left.debug ≤ right.debug) (foundReasons input policy)
  exact ⟨fun empty => List.nil_perm.mp (empty ▸ perm), fun empty => by rw [empty]; rfl⟩

/-- The winning result of a required name passes and comes from the app that is looked up. -/
theorem ready_winning (ready : (evaluate (reconcileReadSet data policy).readiness policy).ready = true)
    (required : name ∈ requiredCheckNames data policy) :
    ∃ result, winningResult data name = some result ∧ result.Passes ∧
      ∀ app, requiredCheckAppId data result.record.name = some app →
        result.record.appId = some app := by
  have reasons := evaluate_ready.mp ready
  simp only [foundReasons, List.append_eq_nil_iff] at reasons
  have checks : (requiredNames (reconcileReadSet data policy).readiness policy).filterMap
      (requiredCheckReason (reconcileReadSet data policy).readiness.requiredChecks) = [] :=
    reasons.1.1.1.1.1.2
  have passed := List.filterMap_eq_nil_iff.mp checks name (mem_requiredNames required)
  have found : (reconcileReadSet data policy).readiness.requiredChecks.find?
      (fun check => check.name = name) = _ :=
    find_readinessChecks.trans (lookup_readinessChecks required)
  rw [requiredCheckReason, found] at passed
  cases known : winningResult data name with
  | none =>
      rw [known] at passed
      obtain ⟨_, completed, _⟩ := checkReason_eq_none.mp passed
      cases completed
  | some result =>
      rw [known] at passed
      obtain ⟨apps, completed⟩ := checkReason_eq_none.mp passed
      exact ⟨result, rfl, record_passes.mp completed, apps⟩

/-- A passing result of the name, which an app has to report when one is given. -/
def PassingResult (data : PullRequestReadSet) (name : String) (appId : Option Int) : Prop :=
  (∃ run ∈ data.checkRuns, run.name = name ∧ run.Passes ∧
    ∀ app, appId = some app → run.app.map CheckApp.id = some app) ∨
  (appId = none ∧ ∃ status ∈ data.statuses, status.context = name ∧ status.Passes)

/-- Another record has taken the name of the result. -/
def Masked (data : PullRequestReadSet) (name : String) (result : CheckResult) : Prop :=
  winningResult data name ≠ some result

/-- Every requirement has a passing result and no latest result is masked without passing. -/
structure ChecksSound (data : PullRequestReadSet) (policy : Policy) : Prop where
  protection : ∀ check ∈ requiredStatusChecks data, PassingResult data check.context check.appId
  contexts : ∀ name ∈ requiredContexts data, PassingResult data name none
  policyChecks : ∀ name ∈ policy.requiredChecks, PassingResult data name none
  statuses : ∀ name ∈ requiredCheckNames data policy, ∀ status,
    latestStatus data name = some status → Masked data name (.ofStatus status) → status.Passes
  runs : ∀ name ∈ requiredCheckNames data policy, ∀ app run,
    latestCheckRunOf data name app = some run → Masked data name (.ofRun run) → run.Passes

/-- The sources that the records leave out have passed, and every required app has reported. -/
structure SourcesAgree (data : PullRequestReadSet) (policy : Policy) : Prop where
  statuses : ∀ name ∈ requiredCheckNames data policy,
    (∃ run ∈ data.checkRuns, run.name = name) →
      ∀ status, latestStatus data name = some status → status.Passes
  apps : ∀ name ∈ requiredCheckNames data policy, ∀ newest, latestCheckRun data name = some newest →
    ∀ app run, app ≠ newest.app → latestCheckRunOf data name app = some run → run.Passes
  reported : ∀ check ∈ requiredStatusChecks data, ∀ app, check.appId = some app →
    requiredCheckAppId data check.context ≠ some app →
      ∃ run ∈ data.checkRuns, run.name = check.context ∧ run.app.map CheckApp.id = some app

theorem mem_requiredCheckNames :
    name ∈ requiredCheckNames data policy ↔
      name ∈ policy.requiredChecks ∨ name ∈ requiredContexts data ∨
        ∃ check ∈ requiredStatusChecks data, check.context = name := by
  have keys : ∀ names : List String,
      name ∈ (Entries.collect (names.map fun name => (name, ()))).map Prod.fst ↔ name ∈ names := by
    intro names
    induction names using List.reverseRecOn with
    | nil => rfl
    | append_singleton names last ih =>
        rw [List.map_append, List.map_singleton, Entries.collect_append_singleton,
          Entries.mem_keys_insert, ih, List.mem_append, List.mem_singleton, or_comm]
  rw [requiredCheckNames, keys]
  simp

theorem winningResult_eq_some {result : CheckResult} (won : winningResult data name = some result) :
    (∃ run, result = .ofRun run ∧ latestCheckRun data name = some run) ∨
      ∃ status, result = .ofStatus status ∧ latestCheckRun data name = none ∧
        latestStatus data name = some status := by
  unfold winningResult at won
  cases found : latestCheckRun data name with
  | some run =>
      rw [found] at won
      cases won
      exact .inl ⟨run, rfl, rfl⟩
  | none =>
      rw [found, Option.map_none, Option.none_or, Option.map_eq_some_iff] at won
      obtain ⟨status, latest, rfl⟩ := won
      exact .inr ⟨status, rfl, rfl, latest⟩

theorem winningResult_run {run : GitHubCheckRun} (latest : latestCheckRun data name = some run) :
    winningResult data name = some (.ofRun run) := by
  rw [winningResult, latest]
  rfl

/-- The winning result is a passing one for a requirement without an app. -/
theorem passingResult_winning {result : CheckResult} (won : winningResult data name = some result)
    (passes : result.Passes) {appId : Option Int}
    (apps : ∀ app, appId = some app → result.record.appId = some app) :
    PassingResult data name appId := by
  rcases winningResult_eq_some won with ⟨run, rfl, latest⟩ | ⟨status, rfl, _, latest⟩
  · obtain ⟨member, same⟩ := latestCheckRun_eq_some latest
    exact .inl ⟨run, member, same, passes, apps⟩
  · obtain ⟨member, same⟩ := latestStatus_eq_some latest
    refine .inr ⟨?_, status, member, same, passes⟩
    cases appId with
    | none => rfl
    | some app => cases apps app rfl

theorem winningResult_name {result : CheckResult} (won : winningResult data name = some result) :
    result.record.name = name := by
  rcases winningResult_eq_some won with ⟨run, rfl, latest⟩ | ⟨status, rfl, _, latest⟩
  · exact (latestCheckRun_eq_some latest).2
  · exact (latestStatus_eq_some latest).2

/-- Agreeing sources of a ready pull request give every required app a passing run. -/
theorem SourcesAgree.protection (agree : SourcesAgree data policy)
    (ready : (evaluate (reconcileReadSet data policy).readiness policy).ready = true)
    {check : RequiredStatusCheck} (member : check ∈ requiredStatusChecks data) :
    PassingResult data check.context check.appId := by
  have required : check.context ∈ requiredCheckNames data policy :=
    mem_requiredCheckNames.mpr (.inr (.inr ⟨check, member, rfl⟩))
  obtain ⟨result, won, passes, apps⟩ := ready_winning ready required
  rw [winningResult_name won] at apps
  by_cases lookedUp : ∀ app, check.appId = some app → requiredCheckAppId data check.context = some app
  · exact passingResult_winning won passes fun app given => apps app (lookedUp app given)
  · push Not at lookedUp
    obtain ⟨app, given, other⟩ := lookedUp
    obtain ⟨run, reported, same, sameApp⟩ := agree.reported check member app given other
    obtain ⟨newest, latest⟩ := same ▸ exists_latestCheckRun reported
    obtain ⟨own, latestOwn⟩ := same ▸ exists_latestCheckRunOf reported
    obtain ⟨inside, named, ownApp⟩ := latestCheckRunOf_eq_some latestOwn
    have ownPasses : own.Passes := by
      by_cases newestApp : run.app = newest.app
      · rw [newestApp, latestCheckRunOf_latest latest, Option.some.injEq] at latestOwn
        rw [winningResult_run latest, Option.some.injEq] at won
        rw [← won] at passes
        exact latestOwn ▸ passes
      · exact agree.apps _ required newest latest run.app own newestApp latestOwn
    refine .inl ⟨own, inside, named, ownPasses, fun app' given' => ?_⟩
    rw [given, Option.some.injEq] at given'
    rw [ownApp, sameApp, given']

/-- A ready pull request is sound exactly when the sources of its required checks agree. -/
theorem ready_checks_sound
    (ready : (evaluate (reconcileReadSet data policy).readiness policy).ready = true) :
    ChecksSound data policy ↔ SourcesAgree data policy := by
  constructor
  · intro sound
    refine ⟨?_, ?_, ?_⟩
    · rintro name required ⟨run, member, rfl⟩ status latest
      obtain ⟨newest, found⟩ := exists_latestCheckRun member
      refine sound.statuses _ required status latest fun won => ?_
      rw [winningResult_run found] at won
      cases won
    · intro name required newest latest app run other found
      refine sound.runs name required app run found fun won => ?_
      rw [winningResult_run latest] at won
      cases won
      exact other (latestCheckRunOf_eq_some found).2.2.symm
    · intro check member app given _
      rcases sound.protection check member with ⟨run, inside, same, _, apps⟩ | ⟨noApp, _⟩
      · exact ⟨run, inside, same, apps app given⟩
      · rw [given] at noApp
        cases noApp
  · intro agree
    have named : ∀ name ∈ requiredCheckNames data policy, PassingResult data name none := by
      intro name required
      obtain ⟨result, won, passes, _⟩ := ready_winning ready required
      exact passingResult_winning won passes fun app given => by cases given
    refine ⟨fun check member => agree.protection ready member, ?_, ?_, ?_, ?_⟩
    · exact fun name member => named name (mem_requiredCheckNames.mpr (.inr (.inl member)))
    · exact fun name member => named name (mem_requiredCheckNames.mpr (.inl member))
    · intro name required status latest masked
      cases newest : latestCheckRun data name with
      | some run =>
          exact agree.statuses name required ⟨run, latestCheckRun_eq_some newest⟩ status latest
      | none =>
          -- Without a check run the latest status keeps its name.
          refine absurd ?_ masked
          rw [winningResult, newest, latest]
          rfl
    · intro name required app run found masked
      obtain ⟨member, same, sameApp⟩ := latestCheckRunOf_eq_some found
      obtain ⟨newest, latest⟩ := same ▸ exists_latestCheckRun member
      refine agree.apps name required newest latest app run ?_ found
      rintro rfl
      rw [latestCheckRunOf_latest latest, Option.some.injEq] at found
      exact masked (found ▸ winningResult_run latest)

/-- Two apps report the same required check, and only the newer run has passed. -/
def twoApps : PullRequestReadSet where
  pullRequest := ⟨false, some "clean", some true, "head", "base"⟩
  baseBranchSha := "base"
  branchProtection := ⟨some ⟨[], [⟨"build", some 7⟩, ⟨"build", some 9⟩]⟩, none⟩
  reviews := []
  issueComments := []
  reviewComments := []
  checkRuns := [⟨1, "build", "completed", some "failure", none, some ⟨9⟩⟩,
    ⟨2, "build", "completed", some "success", none, some ⟨7⟩⟩]
  statuses := []

def openPolicy : Policy := ⟨[], [], false, false⟩

theorem twoApps_ready :
    (evaluate (reconcileReadSet twoApps openPolicy).readiness openPolicy).ready = true := by
  decide +kernel

theorem ready_checks_sound_twoApps :
    ChecksSound twoApps openPolicy ↔ SourcesAgree twoApps openPolicy :=
  ready_checks_sound twoApps_ready

theorem failed_required_check_ready :
    ¬ ∀ data policy, (evaluate (reconcileReadSet data policy).readiness policy).ready = true →
      ChecksSound data policy := by
  intro claimed
  rcases (claimed twoApps openPolicy twoApps_ready).protection ⟨"build", some 9⟩ (by decide) with
    ⟨run, member, _, passes, apps⟩ | ⟨noApp, _⟩
  · have sameApp := apps 9 rfl
    simp only [twoApps, List.mem_cons, List.not_mem_nil, or_false] at member
    rcases member with rfl | rfl
    · simp [GitHubCheckRun.Passes] at passes
    · simp at sameApp
  · cases noApp

end PiTools.Reconcile
