import PiTools.GitHub.Pagination
import PiTools.Reconcile.ReadSet

/-
This file defines the eight reads behind a read set, and says when it has
everything that GitHub holds for the head of a pull request.
-/

namespace PiTools.GitHub

open Library
open Reconcile (BranchProtection CommitStatus GitHubCheckRun GitHubPullRequest PullRequestComment
  PullRequestReadSet PullRequestReview)

/-! ### Reads -/

/-- A pull request with the name of its base branch. -/
structure PulledRequest where
  pullRequest : GitHubPullRequest
  baseReference : Option String

structure Branch where
  isProtected : Bool
  sha : String

structure CheckRunsPage where
  checkRuns : List GitHubCheckRun

structure CombinedStatus where
  statuses : List CommitStatus

/-- How the bodies of the responses are decoded. -/
structure Decoders where
  pullRequest : Json → Except String PulledRequest
  branch : Json → Except String Branch
  branchProtection : Json → Except String BranchProtection
  reviews : Json → Except String (List PullRequestReview)
  comments : Json → Except String (List PullRequestComment)
  checkRuns : Json → Except String CheckRunsPage
  combinedStatus : Json → Except String CombinedStatus

/-- A repository by its owner and its name. -/
structure RepositoryName where
  owner : String
  name : String

def RepositoryName.path (repository : RepositoryName) (rest : String) : String :=
  "repos/" ++ repository.owner ++ "/" ++ repository.name ++ "/" ++ rest

section Paths

variable (repository : RepositoryName)

def pullRequestPath (number : Int) : String := repository.path ("pulls/" ++ toString number)

def branchPath (branch : String) : String := repository.path ("branches/" ++ branch)

def branchProtectionPath (branch : String) : String :=
  repository.path ("branches/" ++ branch ++ "/protection")

def reviewsPath (number : Int) : String :=
  repository.path ("pulls/" ++ toString number ++ "/reviews?per_page=100&page=1")

def issueCommentsPath (number : Int) : String :=
  repository.path ("issues/" ++ toString number ++ "/comments?per_page=100&page=1")

def reviewCommentsPath (number : Int) : String :=
  repository.path ("pulls/" ++ toString number ++ "/comments?per_page=100&page=1")

def checkRunsPath (headSha : String) : String :=
  repository.path ("commits/" ++ headSha ++ "/check-runs?filter=latest&per_page=100&page=1")

def combinedStatusPath (headSha : String) : String :=
  repository.path ("commits/" ++ headSha ++ "/status")

end Paths

/-- A branch without protection has the default one. -/
def noProtection : BranchProtection := ⟨none, none⟩

section Read

variable (client : Client) (decoders : Decoders) (repository : RepositoryName)

def getPullRequest (number : Int) : Logged ApiUrl GitHubClientError PulledRequest :=
  client.getJson decoders.pullRequest (pullRequestPath repository number)

def getBranch (branch : String) : Logged ApiUrl GitHubClientError Branch :=
  client.getJson decoders.branch (branchPath repository branch)

def getBranchProtection (branch : String) : Logged ApiUrl GitHubClientError BranchProtection :=
  client.getJson decoders.branchProtection (branchProtectionPath repository branch)

def listPullRequestReviews (number : Int) : Logged ApiUrl GitHubClientError (List PullRequestReview) :=
  client.getPaginated decoders.reviews id (reviewsPath repository number)

def listIssueComments (number : Int) : Logged ApiUrl GitHubClientError (List PullRequestComment) :=
  client.getPaginated decoders.comments id (issueCommentsPath repository number)

def listReviewComments (number : Int) : Logged ApiUrl GitHubClientError (List PullRequestComment) :=
  client.getPaginated decoders.comments id (reviewCommentsPath repository number)

def listCheckRuns (headSha : String) : Logged ApiUrl GitHubClientError (List GitHubCheckRun) :=
  client.getPaginated decoders.checkRuns CheckRunsPage.checkRuns (checkRunsPath repository headSha)

def getCombinedStatus (headSha : String) : Logged ApiUrl GitHubClientError CombinedStatus :=
  client.getJson decoders.combinedStatus (combinedStatusPath repository headSha)

/-- The protection is read only where a branch has one. -/
def readProtection (branch : Branch) (name : String) : Logged ApiUrl GitHubClientError BranchProtection :=
  if branch.isProtected then getBranchProtection client decoders repository name
  else pure noProtection

def readPullRequest (number : Int) : Logged ApiUrl GitHubClientError PullRequestReadSet := do
  let pulled ← getPullRequest client decoders repository number
  let baseBranchName ← Logged.settled (match pulled.baseReference with
    | none => .error (.response "pull request base ref is missing")
    | some name => .ok name)
  let baseBranch ← getBranch client decoders repository baseBranchName
  let branchProtection ← readProtection client decoders repository baseBranch baseBranchName
  let reviews ← listPullRequestReviews client decoders repository number
  let issueComments ← listIssueComments client decoders repository number
  let reviewComments ← listReviewComments client decoders repository number
  let checkRuns ← listCheckRuns client decoders repository pulled.pullRequest.headSha
  let combinedStatus ← getCombinedStatus client decoders repository pulled.pullRequest.headSha
  pure {
    pullRequest := pulled.pullRequest
    baseBranchSha := baseBranch.sha
    branchProtection
    reviews
    issueComments
    reviewComments
    checkRuns
    statuses := combinedStatus.statuses }

end Read

/-! ### What GitHub holds -/

/-- The lists of a pull request and of its head, cut into the pages that GitHub serves. -/
structure Held where
  headSha : String
  reviews : List (List PullRequestReview)
  issueComments : List (List PullRequestComment)
  reviewComments : List (List PullRequestComment)
  checkRuns : List CheckRunsPage
  statuses : List CombinedStatus

/-- The pages of a list are linked one after another from a path, whatever was read before. -/
def Serves {Page : Type} (client : Client) (decode : Json → Except String Page) (path : String)
    (pages : List Page) : Prop :=
  ∃ first chain, client.join path = .ok first ∧ (∀ past, Chain client decode past first chain) ∧
    chain.map Link.page = pages

/-- GitHub pages every list of the pull request and links its further pages. -/
structure PagesLists (client : Client) (decoders : Decoders) (repository : RepositoryName)
    (number : Int) (held : Held) : Prop where
  head : ∀ past pulled, (getPullRequest client decoders repository number past).1 = .ok pulled →
    pulled.pullRequest.headSha = held.headSha
  reviews : Serves client decoders.reviews (reviewsPath repository number) held.reviews
  issueComments : Serves client decoders.comments (issueCommentsPath repository number)
    held.issueComments
  reviewComments : Serves client decoders.comments (reviewCommentsPath repository number)
    held.reviewComments
  checkRuns : Serves client decoders.checkRuns (checkRunsPath repository held.headSha) held.checkRuns
  statuses : Serves client decoders.combinedStatus (combinedStatusPath repository held.headSha)
    held.statuses

/-- The read set has everything that GitHub holds. -/
structure Complete (held : Held) (data : PullRequestReadSet) : Prop where
  reviews : ∀ page ∈ held.reviews, ∀ review ∈ page, review ∈ data.reviews
  issueComments : ∀ page ∈ held.issueComments, ∀ comment ∈ page, comment ∈ data.issueComments
  reviewComments : ∀ page ∈ held.reviewComments, ∀ comment ∈ page, comment ∈ data.reviewComments
  checkRuns : ∀ page ∈ held.checkRuns, ∀ run ∈ page.checkRuns, run ∈ data.checkRuns
  statuses : ∀ page ∈ held.statuses, ∀ status ∈ page.statuses, status ∈ data.statuses

section Complete

variable {client : Client} {decoders : Decoders} {repository : RepositoryName} {number : Int}
  {held : Held} {data : PullRequestReadSet} {past : List ApiUrl}

/-- A paginated read that succeeds has all pages. -/
theorem getPaginated_serves {Page Item : Type} {decode : Json → Except String Page}
    {intoItems : Page → List Item} {path : String} {pages : List Page} {items : List Item}
    (serves : Serves client decode path pages)
    (read : (client.getPaginated decode intoItems path past).1 = .ok items) :
    items = pages.flatMap intoItems := by
  obtain ⟨first, chain, joined, linked, rfl⟩ := serves
  obtain ⟨other, chain', joined', linked', -, rfl⟩ :=
    ((getPaginated_exact client decode intoItems path past).2 items).mp read
  rw [joined] at joined'
  cases joined'
  rw [(linked past).unique linked', List.flatMap_map]

/-- A single read has the first page. -/
theorem getJson_serves {Page : Type} {decode : Json → Except String Page} {path : String}
    {pages : List Page} {page : Page} (serves : Serves client decode path pages)
    (read : (client.getJson decode path past).1 = .ok page) : pages.head? = some page := by
  obtain ⟨first, chain, joined, linked, rfl⟩ := serves
  obtain ⟨url, past', started, later⟩ := Logged.ok_of_bind read
  have start : client.joined path past = (.ok first, past) := by
    show ((client.join path).mapError _, past) = _
    rw [joined]
    rfl
  rw [start] at started
  cases started
  obtain ⟨response, past'', answered, decoded⟩ := Logged.ok_of_bind later
  obtain ⟨answer, next, read', sent, more, decoded'⟩ := (linked past).first
  have reply : client.sendGet first past = (.ok answer, past ++ [first]) := by
    show ((client.send past first).mapError _, _) = _
    rw [sent]
    rfl
  rw [reply] at answered
  cases answered
  have same : read' = page := by
    have both : (Except.ok read' : Except GitHubClientError Page) = .ok page :=
      decoded'.symm.trans decoded
    exact Except.ok.inj both
  obtain ⟨rest, known, -⟩ := (chain_ok sent more decoded').mp (linked past)
  rw [known, same, List.map_cons, List.head?_cons]

/-- What the parts of a successful read have read. -/
theorem readPullRequest_ok (pages : PagesLists client decoders repository number held)
    (read : (readPullRequest client decoders repository number past).1 = .ok data) :
    data.reviews = held.reviews.flatMap id ∧ data.issueComments = held.issueComments.flatMap id ∧
      data.reviewComments = held.reviewComments.flatMap id ∧
        data.checkRuns = held.checkRuns.flatMap CheckRunsPage.checkRuns ∧
          (held.statuses.head?).map CombinedStatus.statuses = some data.statuses := by
  obtain ⟨pulled, past₁, gotPull, rest₁⟩ := Logged.ok_of_bind read
  have head := pages.head past pulled (congrArg Prod.fst gotPull)
  obtain ⟨base, past₂, -, rest₂⟩ := Logged.ok_of_bind rest₁
  obtain ⟨branch, past₃, -, rest₃⟩ := Logged.ok_of_bind rest₂
  obtain ⟨protection, past₄, -, rest₄⟩ := Logged.ok_of_bind rest₃
  obtain ⟨reviews, past₅, gotReviews, rest₅⟩ := Logged.ok_of_bind rest₄
  obtain ⟨issues, past₆, gotIssues, rest₆⟩ := Logged.ok_of_bind rest₅
  obtain ⟨comments, past₇, gotComments, rest₇⟩ := Logged.ok_of_bind rest₆
  obtain ⟨runs, past₈, gotRuns, rest₈⟩ := Logged.ok_of_bind rest₇
  obtain ⟨combined, past₉, gotStatus, done⟩ := Logged.ok_of_bind rest₈
  cases done
  rw [head] at gotRuns gotStatus
  refine ⟨?_, ?_, ?_, ?_, ?_⟩
  · exact getPaginated_serves pages.reviews (congrArg Prod.fst gotReviews)
  · exact getPaginated_serves pages.issueComments (congrArg Prod.fst gotIssues)
  · exact getPaginated_serves pages.reviewComments (congrArg Prod.fst gotComments)
  · exact getPaginated_serves pages.checkRuns (congrArg Prod.fst gotRuns)
  · rw [getJson_serves pages.statuses (congrArg Prod.fst gotStatus), Option.map_some]

/-- A read set has everything exactly when the statuses of the later pages are on the first one. -/
theorem read_set_complete_iff (pages : PagesLists client decoders repository number held)
    (read : (readPullRequest client decoders repository number past).1 = .ok data) :
    Complete held data ↔ ∀ later ∈ held.statuses.tail, ∀ status ∈ later.statuses,
      ∃ page ∈ held.statuses.head?, status ∈ page.statuses := by
  obtain ⟨reviews, issues, comments, runs, statuses⟩ := readPullRequest_ok pages read
  obtain ⟨first, known, same⟩ := Option.map_eq_some_iff.mp statuses
  obtain ⟨rest, pagesOf⟩ := List.head?_eq_some_iff.mp known
  have members : (∀ later ∈ held.statuses.tail, ∀ status ∈ later.statuses,
      ∃ page ∈ held.statuses.head?, status ∈ page.statuses) ↔
        ∀ page ∈ held.statuses, ∀ status ∈ page.statuses, status ∈ data.statuses := by
    rw [pagesOf, List.tail_cons, List.head?_cons, ← same, List.forall_mem_cons]
    constructor
    · intro covered
      refine ⟨fun status member => member, fun page member status inside => ?_⟩
      obtain ⟨other, here, found⟩ := covered page member status inside
      cases here
      exact found
    · intro covered later member status inside
      exact ⟨first, rfl, covered.2 later member status inside⟩
  rw [members]
  constructor
  · exact Complete.statuses
  · intro covered
    refine ⟨?_, ?_, ?_, ?_, covered⟩
    · intro page member review inside
      rw [reviews]
      exact List.mem_flatMap.mpr ⟨page, member, inside⟩
    · intro page member comment inside
      rw [issues]
      exact List.mem_flatMap.mpr ⟨page, member, inside⟩
    · intro page member comment inside
      rw [comments]
      exact List.mem_flatMap.mpr ⟨page, member, inside⟩
    · intro page member run inside
      rw [runs]
      exact List.mem_flatMap.mpr ⟨page, member, inside⟩

end Complete

/-! ### A head with two pages of statuses -/

def textAt (json : Json) (field : String) : Except String String :=
  match json.get field with
  | some (.string text) => .ok text
  | _ => .error ("missing field " ++ field)

def decodeStatus (json : Json) : Except String CommitStatus := do
  let context ← textAt json "context"
  let state ← textAt json "state"
  match json.get "id" with
  | some (.number (.int id)) => pure ⟨id, context, state, none⟩
  | _ => .error "missing field id"

/-- The decoders of the fields that the example has. -/
def exampleDecoders : Decoders where
  pullRequest json := do
    let head ← textAt ((json.get "head").getD .null) "sha"
    let base ← textAt ((json.get "base").getD .null) "sha"
    let reference ← textAt ((json.get "base").getD .null) "ref"
    pure ⟨⟨false, none, none, head, base⟩, some reference⟩
  branch json := do
    let sha ← textAt ((json.get "commit").getD .null) "sha"
    pure ⟨false, sha⟩
  branchProtection _ := .ok noProtection
  reviews _ := .ok []
  comments _ := .ok []
  checkRuns _ := .ok ⟨[]⟩
  combinedStatus json := do
    let statuses ← ((json.get "statuses").getD .null).items.mapM decodeStatus
    pure ⟨statuses⟩

def exampleUrl (path : String) : ApiUrl where
  scheme := "https"
  host := some "api.github.com"
  port := some 443
  username := ""
  password := none
  path := '/' :: path.toList
  text := "https://api.github.com/" ++ path

def page (links : List (Option (List Char))) (json : Json) : Response :=
  ⟨200, links, none, .ok json⟩

def statusesJson (statuses : List Json) : Json := .object [("statuses", .array statuses)]

def statusJson (id : Int) (context state : String) : Json :=
  .object [("id", .number (.int id)), ("context", .string context), ("state", .string state)]

/-- GitHub links a second page of statuses, on which the failing one stands. -/
def exampleServer (url : ApiUrl) : Except String Response :=
  if url = exampleUrl "repos/acme/widgets/pulls/7" then
    .ok (page [] (.object [("head", .object [("sha", .string "c0ffee")]),
      ("base", .object [("sha", .string "ba5e"), ("ref", .string "main")])]))
  else if url = exampleUrl "repos/acme/widgets/branches/main" then
    .ok (page [] (.object [("commit", .object [("sha", .string "ba5e")])]))
  else if url = exampleUrl "repos/acme/widgets/commits/c0ffee/status" then
    .ok (page [some ("<https://api.github.com/repos/acme/widgets/commits/c0ffee/status?page=2>; rel=" ++
      "\x22next\x22").toList] (statusesJson [statusJson 1 "build" "success"]))
  else if url = exampleUrl "repos/acme/widgets/commits/c0ffee/status?page=2" then
    .ok (page [] (statusesJson [statusJson 2 "deploy" "failure"]))
  else .ok (page [] (.array []))

def exampleClient : Client where
  apiBase := exampleUrl ""
  token := []
  parseUrl text := (stripPrefix "https://api.github.com/".toList text).map fun path =>
    exampleUrl (String.ofList path)
  join path := .ok (exampleUrl path)
  send _ url := exampleServer url

def exampleRepository : RepositoryName := ⟨"acme", "widgets"⟩

def exampleHeld : Held where
  headSha := "c0ffee"
  reviews := [[]]
  issueComments := [[]]
  reviewComments := [[]]
  checkRuns := [⟨[]⟩]
  statuses := [⟨[⟨1, "build", "success", none⟩]⟩, ⟨[⟨2, "deploy", "failure", none⟩]⟩]

theorem exampleClient_empty {Page : Type} {decode : Json → Except String Page} {path : String}
    {nothing : Page} (decoded : decode (.array []) = .ok nothing)
    (served : exampleServer (exampleUrl path) = .ok (page [] (.array []))) :
    Serves exampleClient decode path [nothing] := by
  refine ⟨exampleUrl path, [⟨exampleUrl path, nothing⟩], rfl, fun past => ?_, rfl⟩
  refine ⟨rfl, page [] (.array []), served, ?_, .inl ⟨rfl, rfl⟩⟩
  show (decode (.array [])).mapError _ = _
  rw [decoded]
  rfl

theorem exampleClient_pages :
    PagesLists exampleClient exampleDecoders exampleRepository 7 exampleHeld where
  head := by
    intro past pulled got
    have known : (getPullRequest exampleClient exampleDecoders exampleRepository 7 past).1 =
      .ok ⟨⟨false, none, none, "c0ffee", "ba5e"⟩, some "main"⟩ := by rfl
    rw [known] at got
    cases got
    rfl
  reviews := exampleClient_empty rfl rfl
  issueComments := exampleClient_empty rfl rfl
  reviewComments := exampleClient_empty rfl rfl
  checkRuns := exampleClient_empty rfl rfl
  statuses := by
    refine ⟨exampleUrl "repos/acme/widgets/commits/c0ffee/status",
      [⟨exampleUrl "repos/acme/widgets/commits/c0ffee/status", ⟨[⟨1, "build", "success", none⟩]⟩⟩,
        ⟨exampleUrl "repos/acme/widgets/commits/c0ffee/status?page=2",
          ⟨[⟨2, "deploy", "failure", none⟩]⟩⟩], rfl, fun past => ?_, rfl⟩
    refine ⟨rfl, _, rfl, rfl, .inr ⟨_, by rfl, rfl, _, rfl, rfl, .inl ⟨rfl, rfl⟩⟩⟩

/-- The read set of the example has the statuses of the first page. -/
theorem exampleRead : ∃ data,
    (readPullRequest exampleClient exampleDecoders exampleRepository 7 []).1 = .ok data ∧
      data.statuses = [⟨1, "build", "success", none⟩] := by
  refine ⟨⟨⟨false, none, none, "c0ffee", "ba5e"⟩, "ba5e", noProtection, [], [], [], [], _⟩, ?_, rfl⟩
  rfl

theorem example_complete_iff : ∃ data,
    (readPullRequest exampleClient exampleDecoders exampleRepository 7 []).1 = .ok data ∧
      (Complete exampleHeld data ↔ ∀ later ∈ exampleHeld.statuses.tail, ∀ status ∈ later.statuses,
        ∃ page ∈ exampleHeld.statuses.head?, status ∈ page.statuses) := by
  obtain ⟨data, read, -⟩ := exampleRead
  exact ⟨data, read, read_set_complete_iff exampleClient_pages read⟩

/-- The failing status on the second page is missing from the read set. -/
theorem second_page_missing : ¬ ∀ (client : Client) (decoders : Decoders)
    (repository : RepositoryName) (number : Int) (held : Held) (data : PullRequestReadSet),
      PagesLists client decoders repository number held →
      (readPullRequest client decoders repository number []).1 = .ok data → Complete held data := by
  intro whole
  obtain ⟨data, read, statuses⟩ := exampleRead
  have complete := whole exampleClient exampleDecoders exampleRepository 7 exampleHeld data
    exampleClient_pages read
  have member := complete.statuses ⟨[⟨2, "deploy", "failure", none⟩]⟩ (.tail _ (.head _))
    ⟨2, "deploy", "failure", none⟩ (.head _)
  rw [statuses] at member
  exact absurd member (by decide)

end PiTools.GitHub
