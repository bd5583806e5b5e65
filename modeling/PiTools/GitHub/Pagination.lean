import PiTools.Library.Logged
import PiTools.Library.Occurrences
import PiTools.Library.Replace
import PiTools.Worker.RepairPaths

/-
This file defines how the client reads a list page by page, and says which
requests it sends and when it returns the whole list.
-/

namespace PiTools.GitHub

open Library

/-! ### The client -/

/-- The parts of a parsed URL that the client reads, and the URL itself as a text. -/
structure ApiUrl where
  scheme : String
  host : Option String
  port : Option Nat
  username : String
  password : Option String
  path : List Char
  text : String
  deriving DecidableEq, Repr

/-- A response. The value of a header is no text when it has other than visible characters, and
neither is a body that cannot be read. -/
structure Response where
  status : Nat
  links : List (Option (List Char))
  body : Option (List Char)
  json : Except String Json

/-- The configuration of the client, the URL parser, and a server that knows all requests before. -/
structure Client where
  apiBase : ApiUrl
  token : List Char
  parseUrl : List Char → Option ApiUrl
  join : String → Except String ApiUrl
  send : List ApiUrl → ApiUrl → Except String Response

def maxPaginationPages : Nat := 100

/-- The occurrences of a literal. -/
def literalFinder (literal : List Char) : Finder Char := fun _ text =>
  if literal.isPrefixOf text then some (0, literal.length) else none

def redact (value token : List Char) : List Char :=
  (if token = [] then value else replaceAll (literalFinder token) "[REDACTED]".toList value).take 4096

def Response.isSuccess (response : Response) : Bool := 200 ≤ response.status && response.status < 300

def decodeResponse {Value : Type} (token : List Char) (decode : Json → Except String Value)
    (response : Response) : Except GitHubClientError Value :=
  if response.isSuccess then (response.json >>= decode).mapError .response
  else .error (.api response.status
    (String.ofList (redact (response.body.getD "unreadable response".toList) token)))

variable (client : Client)

/-- The first link of a header value that leads to the next page. -/
def nextOfLinks : List (List Char) → Except GitHubClientError (Option ApiUrl)
  | [] => .ok none
  | link :: rest =>
      match (link.splitOn ';').map trim with
      | [] => nextOfLinks rest
      | target :: parts =>
          if parts.any fun part => part = "rel=\x22next\x22".toList then
            match (stripPrefix ['<'] target).bind (stripSuffix ['>']) with
            | none => .error (.response "invalid pagination link header")
            | some target =>
                match client.parseUrl target with
                | some url => .ok (some url)
                | none => .error (.response "invalid pagination link URL")
          else nextOfLinks rest

def nextLink : List (Option (List Char)) → Except GitHubClientError (Option ApiUrl)
  | [] => .ok none
  | none :: _ => .error (.response "invalid pagination link header")
  | some value :: rest =>
      match nextOfLinks client (value.splitOn ',') with
      | .error reason => .error reason
      | .ok (some url) => .ok (some url)
      | .ok none => nextLink rest

def Client.isSafePaginationUrl (candidate : ApiUrl) : Bool :=
  candidate.scheme = client.apiBase.scheme && candidate.host = client.apiBase.host &&
    candidate.port = client.apiBase.port && candidate.username = "" && candidate.password = none &&
    client.apiBase.path.isPrefixOf candidate.path

/-- A request is logged by its URL. -/
def Client.sendGet (url : ApiUrl) : Logged ApiUrl GitHubClientError Response :=
  Logged.call (fun _ => url) fun past =>
    (client.send past url).mapError fun reason =>
      .request (String.ofList (redact reason.toList client.token))

def Client.joined (path : String) : Logged ApiUrl GitHubClientError ApiUrl :=
  Logged.settled ((client.join path).mapError .client)

def Client.getJson {Value : Type} (decode : Json → Except String Value) (path : String) :
    Logged ApiUrl GitHubClientError Value := do
  let url ← client.joined path
  let response ← client.sendGet url
  Logged.settled (decodeResponse client.token decode response)

section Pages

variable {Page Item : Type} (decode : Json → Except String Page) (intoItems : Page → List Item)

/-- The loop over the pages with the URLs that it has visited and the items that it has read. -/
def Client.getPages : Nat → ApiUrl → List String → List Item →
    Logged ApiUrl GitHubClientError (List Item)
  | 0, _, _, _ => Logged.settled (.error .paginationLimit)
  | rounds + 1, url, visited, items =>
      if url.text ∈ visited then Logged.settled (.error .paginationLoop)
      else do
        let response ← client.sendGet url
        let next ← Logged.settled (nextLink client response.links)
        let page ← Logged.settled (decodeResponse client.token decode response)
        match next with
        | none => pure (items ++ intoItems page)
        | some candidate =>
            if client.isSafePaginationUrl candidate then
              getPages rounds candidate (url.text :: visited) (items ++ intoItems page)
            else Logged.settled (.error .unsafePagination)

def Client.getPaginated (path : String) : Logged ApiUrl GitHubClientError (List Item) := do
  let url ← client.joined path
  client.getPages decode intoItems maxPaginationPages url [] []

end Pages

/-! ### Chains of pages -/

/-- A page of a chain with the URL from which it was read. -/
structure Link (Page : Type) where
  url : ApiUrl
  page : Page

section Chains

variable {Page Item : Type} (decode : Json → Except String Page) (intoItems : Page → List Item)

/-- The chain of next links from a URL ends, and each of its pages is read. -/
def Chain : List ApiUrl → ApiUrl → List (Link Page) → Prop
  | _, _, [] => False
  | past, url, link :: rest =>
      link.url = url ∧ ∃ response, client.send past url = .ok response ∧
        decodeResponse client.token decode response = .ok link.page ∧
          (rest = [] ∧ nextLink client response.links = .ok none ∨
            ∃ next, nextLink client response.links = .ok (some next) ∧ Chain (past ++ [url]) next rest)

/-- The chain has at most so many pages, all of them at safe URLs, and no URL twice. -/
structure WithinLimits (rounds : Nat) (visited : List String) (chain : List (Link Page)) : Prop where
  short : chain.length ≤ rounds
  fresh : ∀ link ∈ chain, link.url.text ∉ visited
  distinct : (chain.map fun link => link.url.text).Nodup
  safe : ∀ link ∈ chain.tail, client.isSafePaginationUrl link.url = true

variable {client decode intoItems} {rounds : Nat} {past : List ApiUrl} {url : ApiUrl}
  {visited : List String} {items : List Item}

/-- A round of the loop at a new URL. -/
theorem getPages_fresh (fresh : url.text ∉ visited) :
    client.getPages decode intoItems (rounds + 1) url visited items past =
      match client.send past url with
      | .error reason => (.error (.request (String.ofList (redact reason.toList client.token))),
          past ++ [url])
      | .ok response =>
          match nextLink client response.links with
          | .error reason => (.error reason, past ++ [url])
          | .ok next =>
              match decodeResponse client.token decode response with
              | .error reason => (.error reason, past ++ [url])
              | .ok page =>
                  match next with
                  | none => (.ok (items ++ intoItems page), past ++ [url])
                  | some candidate =>
                      if client.isSafePaginationUrl candidate then
                        client.getPages decode intoItems rounds candidate (url.text :: visited)
                          (items ++ intoItems page) (past ++ [url])
                      else (.error .unsafePagination, past ++ [url]) := by
  rw [Client.getPages, if_neg fresh]
  cases sent : client.send past url with
  | error reason =>
      apply Logged.bind_error
      show ((client.send past url).mapError _, _) = _
      rw [sent]
      rfl
  | ok response =>
      have answered : client.sendGet url past = (.ok response, past ++ [url]) := by
        show ((client.send past url).mapError _, _) = _
        rw [sent]
        rfl
      rw [Logged.bind_ok answered]
      dsimp only
      cases nextLink client response.links with
      | error reason => rfl
      | ok next =>
          dsimp only
          cases decodeResponse client.token decode response with
          | error reason => rfl
          | ok page =>
              cases next with
              | none => rfl
              | some candidate =>
                  show (if client.isSafePaginationUrl candidate then _
                    else Logged.settled (Except.error GitHubClientError.unsafePagination) :
                      Logged ApiUrl GitHubClientError (List Item)) (past ++ [url]) = _
                  dsimp only
                  split
                  · rfl
                  · rfl

/-- What the loop has sent in the end. -/
structure Requests (client : Client) (rounds : Nat) (visited : List String) (url : ApiUrl)
    (sent : List ApiUrl) : Prop where
  few : sent.length ≤ rounds
  fresh : ∀ other ∈ sent, other.text ∉ visited
  distinct : (sent.map ApiUrl.text).Nodup
  allowed : ∀ other ∈ sent, other = url ∨ client.isSafePaginationUrl other = true

theorem Requests.none (client : Client) (rounds : Nat) (visited : List String) (url : ApiUrl) :
    Requests client rounds visited url [] :=
  ⟨Nat.zero_le _, by simp, List.nodup_nil, by simp⟩

theorem Requests.single (client : Client) (rounds : Nat) (fresh : url.text ∉ visited) :
    Requests client (rounds + 1) visited url [url] :=
  ⟨by simp, by simpa using fresh, by simp, by simp⟩

theorem Requests.cons {candidate : ApiUrl} {sent : List ApiUrl} (fresh : url.text ∉ visited)
    (safe : client.isSafePaginationUrl candidate = true)
    (later : Requests client rounds (url.text :: visited) candidate sent) :
    Requests client (rounds + 1) visited url (url :: sent) where
  few := Nat.succ_le_succ later.few
  fresh := List.forall_mem_cons.mpr
    ⟨fresh, fun other member => List.not_mem_of_not_mem_cons (later.fresh other member)⟩
  distinct := by
    rw [List.map_cons, List.nodup_cons]
    refine ⟨fun repeated => ?_, later.distinct⟩
    obtain ⟨other, member, same⟩ := List.mem_map.mp repeated
    exact later.fresh other member (same ▸ List.mem_cons_self ..)
  allowed := by
    refine List.forall_mem_cons.mpr ⟨.inl rfl, fun other member => .inr ?_⟩
    rcases later.allowed other member with rfl | held
    · exact safe
    · exact held

theorem getPages_requests : ∃ sent,
    (client.getPages decode intoItems rounds url visited items past).2 = past ++ sent ∧
      Requests client rounds visited url sent := by
  induction rounds generalizing past url visited items with
  | zero => exact ⟨[], (List.append_nil past).symm, Requests.none ..⟩
  | succ rounds ih =>
      by_cases seen : url.text ∈ visited
      · rw [Client.getPages, if_pos seen]
        exact ⟨[], (List.append_nil past).symm, Requests.none ..⟩
      · have single := Requests.single client rounds seen
        rw [getPages_fresh seen]
        cases client.send past url with
        | error reason => exact ⟨[url], rfl, single⟩
        | ok response =>
            dsimp only
            cases nextLink client response.links with
            | error reason => exact ⟨[url], rfl, single⟩
            | ok next =>
                dsimp only
                cases decodeResponse client.token decode response with
                | error reason => exact ⟨[url], rfl, single⟩
                | ok page =>
                    cases next with
                    | none => exact ⟨[url], rfl, single⟩
                    | some candidate =>
                        dsimp only
                        split
                        · rename_i safe
                          obtain ⟨sent, same, later⟩ := @ih (past ++ [url]) candidate
                            (url.text :: visited) (items ++ intoItems page)
                          refine ⟨url :: sent, ?_, later.cons seen safe⟩
                          rw [same, List.append_assoc, List.singleton_append]
                        · exact ⟨[url], rfl, single⟩

/-- A chain goes on from its first response. -/
theorem chain_ok {response : Response} {next : Option ApiUrl} {page : Page} {chain : List (Link Page)}
    (sent : client.send past url = .ok response) (linked : nextLink client response.links = .ok next)
    (decoded : decodeResponse client.token decode response = .ok page) :
    Chain client decode past url chain ↔ ∃ rest, chain = ⟨url, page⟩ :: rest ∧
      (rest = [] ∧ next = none ∨
        ∃ candidate, next = some candidate ∧ Chain client decode (past ++ [url]) candidate rest) := by
  cases chain with
  | nil => simp [Chain]
  | cons link rest =>
      constructor
      · rintro ⟨here, other, sent', decoded', ends⟩
        rw [sent] at sent'
        cases sent'
        rw [decoded] at decoded'
        rw [linked] at ends
        refine ⟨rest, ?_, ?_⟩
        · rw [← here, Except.ok.inj decoded']
        · simpa only [Except.ok.injEq] using ends
      · rintro ⟨rest', same, ends⟩
        obtain ⟨rfl, rfl⟩ := List.cons.inj same
        refine ⟨rfl, response, sent, decoded, ?_⟩
        rw [linked]
        simpa only [Except.ok.injEq] using ends

/-- The first page of a chain is sent for, linked and decoded. -/
theorem Chain.first {chain : List (Link Page)} (linked : Chain client decode past url chain) :
    ∃ response next page, client.send past url = .ok response ∧
      nextLink client response.links = .ok next ∧
        decodeResponse client.token decode response = .ok page := by
  cases chain with
  | nil => exact linked.elim
  | cons link rest =>
      obtain ⟨-, response, sent, decoded, ends⟩ := linked
      rcases ends with ⟨-, last⟩ | ⟨next, more, -⟩
      · exact ⟨response, none, link.page, sent, last, decoded⟩
      · exact ⟨response, some next, link.page, sent, more, decoded⟩

theorem Chain.head {chain : List (Link Page)} (linked : Chain client decode past url chain) :
    ∀ link ∈ chain.head?, link.url = url := by
  cases chain with
  | nil => exact linked.elim
  | cons link rest =>
      intro other same
      cases same
      exact linked.1

/-- The server's answers leave no choice to a chain. -/
theorem Chain.unique {chain other : List (Link Page)} (linked : Chain client decode past url chain)
    (linked' : Chain client decode past url other) : chain = other := by
  induction chain generalizing past url other with
  | nil => exact linked.elim
  | cons link rest ih =>
      obtain ⟨response, next, page, sent, more, decoded⟩ := linked.first
      obtain ⟨rest₁, same₁, ends₁⟩ := (chain_ok sent more decoded).mp linked
      obtain ⟨rest₂, rfl, ends₂⟩ := (chain_ok sent more decoded).mp linked'
      obtain ⟨rfl, rfl⟩ := List.cons.inj same₁
      congr 1
      rcases ends₁ with ⟨rfl, none⟩ | ⟨candidate, known, follows⟩
      · rcases ends₂ with ⟨rfl, -⟩ | ⟨candidate, known, -⟩
        · rfl
        · rw [none] at known
          cases known
      · rcases ends₂ with ⟨-, none⟩ | ⟨candidate', known', follows'⟩
        · rw [none] at known
          cases known
        · rw [known] at known'
          cases known'
          exact ih follows follows'

theorem withinLimits_cons {page : Page} {rest : List (Link Page)} (fresh : url.text ∉ visited) :
    WithinLimits client (rounds + 1) visited (⟨url, page⟩ :: rest) ↔
      WithinLimits client rounds (url.text :: visited) rest ∧
        ∀ link ∈ rest.head?, client.isSafePaginationUrl link.url = true := by
  constructor
  · intro limits
    obtain ⟨short, unseen, distinct, safe⟩ := limits
    rw [List.map_cons, List.nodup_cons] at distinct
    refine ⟨⟨Nat.le_of_succ_le_succ short, fun link member => ?_, distinct.2, fun link member => ?_⟩,
      fun link member => ?_⟩
    · rw [List.mem_cons, not_or]
      refine ⟨fun same => distinct.1 ?_, unseen link (.tail _ member)⟩
      exact List.mem_map.mpr ⟨link, member, same⟩
    · exact safe link (List.mem_of_mem_tail member)
    · exact safe link (List.mem_of_mem_head? member)
  · rintro ⟨limits, first⟩
    refine ⟨Nat.succ_le_succ limits.short, ?_, ?_, ?_⟩
    · exact List.forall_mem_cons.mpr
        ⟨fresh, fun link member => List.not_mem_of_not_mem_cons (limits.fresh link member)⟩
    · rw [List.map_cons, List.nodup_cons]
      refine ⟨fun repeated => ?_, limits.distinct⟩
      obtain ⟨link, member, same⟩ := List.mem_map.mp repeated
      exact limits.fresh link member (same ▸ List.mem_cons_self ..)
    · intro link member
      cases rest with
      | nil => cases member
      | cons second rest =>
          rcases List.mem_cons.mp member with rfl | later
          · exact first link rfl
          · exact limits.safe link later

/-- The loop returns a list exactly for a chain within the limits. -/
theorem getPages_ok {result : List Item} :
    (client.getPages decode intoItems rounds url visited items past).1 = .ok result ↔
      ∃ chain, Chain client decode past url chain ∧ WithinLimits client rounds visited chain ∧
        result = items ++ chain.flatMap fun link => intoItems link.page := by
  induction rounds generalizing past url visited items with
  | zero =>
      constructor
      · intro same
        cases same
      · rintro ⟨chain, linked, limits, -⟩
        rw [List.length_eq_zero_iff.mp (Nat.le_zero.mp limits.short)] at linked
        exact linked.elim
  | succ rounds ih =>
      by_cases seen : url.text ∈ visited
      · rw [Client.getPages, if_pos seen]
        constructor
        · intro same
          cases same
        · rintro ⟨chain, linked, limits, -⟩
          cases chain with
          | nil => exact linked.elim
          | cons link rest =>
              refine absurd ?_ (limits.fresh link (.head _))
              rw [linked.1]
              exact seen
      · rw [getPages_fresh seen]
        cases sent : client.send past url with
        | error reason =>
            dsimp only
            refine iff_of_false (by simp) fun ⟨chain, linked, _⟩ => ?_
            obtain ⟨_, _, _, answered, -, -⟩ := linked.first
            rw [sent] at answered
            cases answered
        | ok response =>
            dsimp only
            cases linked : nextLink client response.links with
            | error reason =>
                dsimp only
                refine iff_of_false (by simp) fun ⟨chain, follows, _⟩ => ?_
                obtain ⟨_, _, _, answered, next, -⟩ := follows.first
                rw [sent] at answered
                cases answered
                rw [linked] at next
                cases next
            | ok next =>
                dsimp only
                cases decoded : decodeResponse client.token decode response with
                | error reason =>
                    dsimp only
                    refine iff_of_false (by simp) fun ⟨chain, follows, _⟩ => ?_
                    obtain ⟨_, _, _, answered, -, read⟩ := follows.first
                    rw [sent] at answered
                    cases answered
                    rw [decoded] at read
                    cases read
                | ok page =>
                    simp only [chain_ok sent linked decoded]
                    cases next with
                    | none =>
                        constructor
                        · intro same
                          refine ⟨[⟨url, page⟩], ⟨[], rfl, .inl ⟨rfl, rfl⟩⟩, ?_, ?_⟩
                          · exact ⟨by simp, by simpa using seen, by simp, by simp⟩
                          · simpa using (Except.ok.inj same).symm
                        · rintro ⟨chain, ⟨rest, rfl, ends⟩, -, rfl⟩
                          rcases ends with ⟨rfl, -⟩ | ⟨candidate, same, -⟩
                          · simp
                          · cases same
                    | some candidate =>
                        dsimp only
                        split
                        · rename_i safe
                          rw [ih]
                          constructor
                          · rintro ⟨rest, follows, limits, rfl⟩
                            refine ⟨⟨url, page⟩ :: rest, ⟨rest, rfl, .inr ⟨candidate, rfl, follows⟩⟩,
                              (withinLimits_cons seen).mpr ⟨limits, fun link first => ?_⟩, by simp⟩
                            rw [follows.head link first]
                            exact safe
                          · rintro ⟨chain, ⟨rest, rfl, ends⟩, limits, rfl⟩
                            rcases ends with ⟨-, same⟩ | ⟨next, same, follows⟩
                            · cases same
                            · cases same
                              exact ⟨rest, follows, ((withinLimits_cons seen).mp limits).1, by simp⟩
                        · rename_i unsafe'
                          refine iff_of_false (by simp) ?_
                          rintro ⟨chain, ⟨rest, rfl, ends⟩, limits, rfl⟩
                          rcases ends with ⟨-, same⟩ | ⟨next, same, follows⟩
                          · cases same
                          · cases same
                            cases rest with
                            | nil => exact follows
                            | cons link rest =>
                                have safe := ((withinLimits_cons seen).mp limits).2 link rfl
                                rw [follows.1] at safe
                                exact unsafe' safe

/-- A list is read with few requests to new and safe URLs, and it is returned exactly when its chain
of pages ends within the limits. -/
theorem getPaginated_exact (client : Client) (decode : Json → Except String Page)
    (intoItems : Page → List Item) (path : String) (past : List ApiUrl) :
    (∃ sent, (client.getPaginated decode intoItems path past).2 = past ++ sent ∧
      sent.length ≤ maxPaginationPages ∧ (sent.map ApiUrl.text).Nodup ∧
        ∀ url ∈ sent, client.join path = .ok url ∨ client.isSafePaginationUrl url = true) ∧
      ∀ items, (client.getPaginated decode intoItems path past).1 = .ok items ↔
        ∃ first chain, client.join path = .ok first ∧ Chain client decode past first chain ∧
          WithinLimits client maxPaginationPages [] chain ∧
            items = chain.flatMap fun link => intoItems link.page := by
  cases joined : client.join path with
  | error reason =>
      have failed : client.getPaginated decode intoItems path past = (.error (.client reason), past) := by
        refine Logged.bind_error ?_
        show ((client.join path).mapError _, past) = _
        rw [joined]
        rfl
      rw [failed]
      refine ⟨⟨[], by simp, Nat.zero_le _, List.nodup_nil, by simp⟩, fun items => ?_⟩
      refine iff_of_false (by simp) fun ⟨first, _, same, _⟩ => ?_
      cases same
  | ok first =>
      have started : client.getPaginated decode intoItems path past =
          client.getPages decode intoItems maxPaginationPages first [] [] past := by
        refine Logged.bind_ok ?_
        show ((client.join path).mapError _, past) = _
        rw [joined]
        rfl
      rw [started]
      constructor
      · obtain ⟨sent, same, requests⟩ :=
          @getPages_requests client Page Item decode intoItems maxPaginationPages past first [] []
        refine ⟨sent, same, requests.few, requests.distinct, fun url member => ?_⟩
        exact (requests.allowed url member).imp_left fun here => by rw [here]
      · intro items
        rw [getPages_ok]
        constructor
        · rintro ⟨chain, linked, limits, rfl⟩
          exact ⟨first, chain, rfl, linked, limits, rfl⟩
        · rintro ⟨other, chain, same, linked, limits, rfl⟩
          cases same
          exact ⟨chain, linked, limits, rfl⟩

end Chains

end PiTools.GitHub
