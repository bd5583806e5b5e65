import Mathlib.Data.List.Nodup
import Mathlib.Data.List.Perm.Subperm
import Mathlib.Logic.Relation

/-
This file searches the components of a graph with a stack of open nodes and a
list of visited nodes.
-/

namespace Library

variable {Node : Type} [DecidableEq Node]

/-- The neighbors that were not visited before are marked and put on the stack. -/
def visitNeighbors : List Node → List Node → List Node → List Node × List Node
  | [], visited, stack => (visited, stack)
  | neighbor :: rest, visited, stack =>
      if neighbor ∈ visited then visitNeighbors rest visited stack
      else visitNeighbors rest (visited ++ [neighbor]) (neighbor :: stack)

/-- The search takes one node from the stack in each round. -/
def searchComponent (neighbors : Node → List Node) :
    Nat → List Node → List Node → List Node → Option (List Node × List Node)
  | _, [], visited, component => some (visited, component)
  | 0, _ :: _, _, _ => none
  | fuel + 1, current :: stack, visited, component =>
      let (visited, stack) := visitNeighbors (neighbors current) visited stack
      searchComponent neighbors fuel stack visited (component ++ [current])

/-- Every start that was not visited before gives a component. -/
def searchComponents (neighbors : Node → List Node) (fuel : Nat) :
    List Node → List Node → Option (List (List Node))
  | [], _ => some []
  | start :: rest, visited =>
      if start ∈ visited then searchComponents neighbors fuel rest visited
      else
        (searchComponent neighbors fuel [start] (visited ++ [start]) []).bind fun found =>
          (searchComponents neighbors fuel rest found.1).map fun components =>
            found.2 :: components

variable {neighbors : Node → List Node} {before stack visited component : List Node}

/-! ### One component -/

/-- The nodes that one round finds. -/
structure Found (candidates visited found : List Node) : Prop where
  nodup : found.Nodup
  inside : found ⊆ candidates
  fresh : ∀ node ∈ found, node ∉ visited
  complete : ∀ node ∈ candidates, node ∈ visited ∨ node ∈ found

/-- The found nodes are marked and put on the stack. -/
theorem visitNeighbors_spec (candidates visited stack : List Node) :
    ∃ found, Found candidates visited found ∧
      (visitNeighbors candidates visited stack).2 = found ++ stack ∧
        ∀ node, node ∈ (visitNeighbors candidates visited stack).1 ↔
          node ∈ visited ∨ node ∈ found := by
  induction candidates generalizing visited stack with
  | nil => exact ⟨[], ⟨List.nodup_nil, by simp, by simp, by simp⟩, rfl, by simp [visitNeighbors]⟩
  | cons neighbor rest ih =>
      rw [visitNeighbors]
      split
      · rename_i old
        obtain ⟨found, spec, stacked, marked⟩ := ih visited stack
        refine ⟨found, ⟨spec.nodup, List.Subset.trans spec.inside (List.subset_cons_self _ _), spec.fresh, ?_⟩,
          stacked, marked⟩
        intro node member
        rcases List.mem_cons.mp member with rfl | later
        · exact .inl old
        · exact spec.complete node later
      · rename_i new
        obtain ⟨found, spec, stacked, marked⟩ := ih (visited ++ [neighbor]) (neighbor :: stack)
        have apart : neighbor ∉ found := fun inside => spec.fresh neighbor inside (by simp)
        refine ⟨found ++ [neighbor], ⟨?_, ?_, ?_, ?_⟩, by simp [stacked], fun node => ?_⟩
        · exact spec.nodup.append (List.nodup_singleton _) (List.disjoint_singleton.mpr apart)
        · intro node member
          rcases List.mem_append.mp member with inside | last
          · exact List.mem_cons_of_mem _ (spec.inside inside)
          · rw [List.mem_singleton.mp last]
            exact List.mem_cons_self
        · intro node member visited
          rcases List.mem_append.mp member with inside | last
          · exact spec.fresh node inside (List.mem_append_left _ visited)
          · exact new (List.mem_singleton.mp last ▸ visited)
        · intro node member
          rcases List.mem_cons.mp member with rfl | later
          · exact .inr (by simp)
          · rcases spec.complete node later with old | inside
            · rcases List.mem_append.mp old with old | here
              · exact .inl old
              · exact .inr (List.mem_append_right _ here)
            · exact .inr (List.mem_append_left _ inside)
        · rw [marked]
          simp only [List.mem_append, List.mem_singleton]
          tauto

/-- A search has visited the nodes before it, its component and its stack. -/
structure Searching (neighbors : Node → List Node) (before stack visited component : List Node) :
    Prop where
  nodup : (component ++ stack).Nodup
  marked : ∀ node, node ∈ visited ↔ node ∈ before ∨ node ∈ component ++ stack
  fresh : ∀ node ∈ component ++ stack, node ∉ before
  explored : ∀ node ∈ component, ∀ neighbor ∈ neighbors node, neighbor ∈ visited

omit [DecidableEq Node] in
theorem Searching.start {start : Node} (fresh : start ∉ before) :
    Searching neighbors before [start] (before ++ [start]) [] where
  nodup := List.nodup_singleton _
  marked := by simp
  fresh := by simpa using fresh
  explored := by simp

/-- One round moves a node to the component and opens its neighbors. -/
theorem Searching.round {current : Node}
    (searching : Searching neighbors before (current :: stack) visited component) :
    Searching neighbors before (visitNeighbors (neighbors current) visited stack).2
      (visitNeighbors (neighbors current) visited stack).1 (component ++ [current]) := by
  obtain ⟨found, spec, stacked, marked⟩ := visitNeighbors_spec (neighbors current) visited stack
  have same : component ++ [current] ++ stack = component ++ current :: stack := by simp
  have apart : ∀ node ∈ found, node ∉ component ++ current :: stack := fun node inside old =>
    spec.fresh node inside ((searching.marked node).mpr (.inr old))
  rw [stacked]
  constructor
  · have perm : (component ++ [current] ++ (found ++ stack)).Perm
        (found ++ (component ++ current :: stack)) := by
      rw [← same]
      exact List.perm_append_comm_assoc _ _ _
    exact perm.nodup_iff.mpr (spec.nodup.append searching.nodup apart)
  · intro node
    rw [marked, searching.marked, ← same]
    simp only [List.mem_append, List.mem_singleton]
    tauto
  · intro node member old
    by_cases inside : node ∈ found
    · exact spec.fresh node inside ((searching.marked node).mpr (.inl old))
    · refine searching.fresh node ?_ old
      rw [← same]
      simp only [List.mem_append, List.mem_singleton] at member ⊢
      tauto
  · intro node member neighbor adjacent
    rw [marked]
    rcases List.mem_append.mp member with inside | last
    · exact .inl (searching.explored node inside neighbor adjacent)
    · rw [List.mem_singleton.mp last] at adjacent
      exact spec.complete neighbor adjacent

/-- A search that ends has an empty stack and keeps what it found. -/
theorem searchComponent_spec {fuel : Nat} {visited' component' : List Node}
    (searching : Searching neighbors before stack visited component)
    (searched : searchComponent neighbors fuel stack visited component =
      some (visited', component')) :
    Searching neighbors before [] visited' component' ∧ component ++ stack ⊆ component' := by
  induction fuel generalizing stack visited component with
  | zero =>
      cases stack with
      | nil =>
          cases searched
          exact ⟨searching, by simp⟩
      | cons => cases searched
  | succ fuel ih =>
      cases stack with
      | nil =>
          cases searched
          exact ⟨searching, by simp⟩
      | cons current stack =>
          obtain ⟨ended, kept⟩ := ih searching.round searched
          refine ⟨ended, fun node member => kept ?_⟩
          obtain ⟨found, _, stacked, _⟩ := visitNeighbors_spec (neighbors current) visited stack
          rw [stacked]
          simp only [List.mem_append, List.mem_cons] at member ⊢
          tauto

/-- A search among finitely many nodes ends. -/
theorem searchComponent_ends {fuel : Nat} {nodes : List Node}
    (inside : ∀ node, ∀ neighbor ∈ neighbors node, neighbor ∈ nodes)
    (searching : Searching neighbors before stack visited component)
    (subset : component ++ stack ⊆ nodes) (enough : nodes.length ≤ fuel + component.length) :
    searchComponent neighbors fuel stack visited component ≠ none := by
  induction fuel generalizing stack visited component with
  | zero =>
      have short := (List.subperm_of_subset searching.nodup subset).length_le
      cases stack with
      | nil => simp [searchComponent]
      | cons =>
          rw [List.length_append, List.length_cons] at short
          omega
  | succ fuel ih =>
      cases stack with
      | nil => simp [searchComponent]
      | cons current stack =>
          refine ih searching.round (fun node member => ?_) ?_
          · obtain ⟨found, spec, stacked, _⟩ := visitNeighbors_spec (neighbors current) visited stack
            rw [stacked] at member
            by_cases new : node ∈ found
            · exact inside current node (spec.inside new)
            · apply subset
              simp only [List.mem_append, List.mem_cons] at member ⊢
              tauto
          · rw [List.length_append, List.length_singleton]
            omega

/-! ### All components -/

/-- The neighbors of the nodes are among them. -/
def Closed (neighbors : Node → List Node) (nodes : List Node) : Prop :=
  ∀ node ∈ nodes, ∀ neighbor ∈ neighbors node, neighbor ∈ nodes

/-- The components contain their neighbors, and every start is visited or in one of them. -/
structure Components (neighbors : Node → List Node) (starts visited : List Node)
    (components : List (List Node)) : Prop where
  closed : ∀ component ∈ components, Closed neighbors component
  nodup : ∀ component ∈ components, component.Nodup
  covers : ∀ start ∈ starts, start ∈ visited ∨ ∃ component ∈ components, start ∈ component

omit [DecidableEq Node] in
/-- A component that was searched behind a closed set is closed. -/
theorem Searching.closed (symmetric : ∀ node, ∀ neighbor ∈ neighbors node,
      node ∈ neighbors neighbor) (beforeClosed : Closed neighbors before)
    (ended : Searching neighbors before [] visited component) :
    Closed neighbors component ∧ Closed neighbors visited := by
  have inside : Closed neighbors component := by
    intro node member neighbor adjacent
    have known := (ended.marked neighbor).mp (ended.explored node member neighbor adjacent)
    rw [List.append_nil] at known
    rcases known with old | new
    · -- An older component would contain the node as well.
      have back := beforeClosed neighbor old node (symmetric node neighbor adjacent)
      exact absurd back (ended.fresh node (List.mem_append_left _ member))
    · exact new
  refine ⟨inside, fun node member neighbor adjacent => ?_⟩
  rw [ended.marked, List.append_nil] at member ⊢
  rcases member with old | new
  · exact .inl (beforeClosed node old neighbor adjacent)
  · exact .inr (inside node new neighbor adjacent)

theorem searchComponents_spec (symmetric : ∀ node, ∀ neighbor ∈ neighbors node,
      node ∈ neighbors neighbor) {fuel : Nat} {starts : List Node} {components : List (List Node)}
    (closed : Closed neighbors visited)
    (searched : searchComponents neighbors fuel starts visited = some components) :
    Components neighbors starts visited components := by
  induction starts generalizing visited components with
  | nil =>
      cases searched
      exact ⟨by simp, by simp, by simp⟩
  | cons start rest ih =>
      rw [searchComponents] at searched
      split at searched
      · rename_i old
        obtain ⟨inside, nodup, covers⟩ := ih closed searched
        refine ⟨inside, nodup, fun other member => ?_⟩
        rcases List.mem_cons.mp member with rfl | later
        · exact .inl old
        · exact covers other later
      · rename_i new
        obtain ⟨⟨visited', component⟩, found, later⟩ := Option.bind_eq_some_iff.mp searched
        obtain ⟨components, others, rfl⟩ := Option.map_eq_some_iff.mp later
        obtain ⟨ended, kept⟩ := searchComponent_spec (.start new) found
        obtain ⟨inside, closed'⟩ := ended.closed symmetric closed
        obtain ⟨closedOthers, nodupOthers, covers⟩ := ih closed' others
        refine ⟨?_, ?_, fun other member => ?_⟩
        · exact List.forall_mem_cons.mpr ⟨inside, closedOthers⟩
        · exact List.forall_mem_cons.mpr ⟨by simpa using ended.nodup, nodupOthers⟩
        · rcases List.mem_cons.mp member with rfl | later
          · exact .inr ⟨component, List.mem_cons_self, kept (by simp)⟩
          · rcases covers other later with old | ⟨found, among, member⟩
            · rw [ended.marked, List.append_nil] at old
              exact old.imp_right fun inside => ⟨component, List.mem_cons_self, inside⟩
            · exact .inr ⟨found, List.mem_cons_of_mem _ among, member⟩

theorem searchComponents_ends {fuel : Nat} {nodes starts : List Node}
    (inside : ∀ node, ∀ neighbor ∈ neighbors node, neighbor ∈ nodes) (subset : starts ⊆ nodes)
    (enough : nodes.length ≤ fuel) (visited : List Node) :
    searchComponents neighbors fuel starts visited ≠ none := by
  induction starts generalizing visited with
  | nil => simp [searchComponents]
  | cons start rest ih =>
      obtain ⟨first, others⟩ := List.cons_subset.mp subset
      rw [searchComponents]
      split
      · exact ih others visited
      · rename_i new
        have ends := searchComponent_ends inside (Searching.start new)
          (by simpa using first) (by simpa using enough)
        cases found : searchComponent neighbors fuel [start] (visited ++ [start]) [] with
        | none => exact absurd found ends
        | some result => simpa using ih others result.1

/-! ### Division into components -/

/-- The nodes are joined by neighbors that follow each other. -/
def Reaches (neighbors : Node → List Node) : Node → Node → Prop :=
  Relation.ReflTransGen fun node neighbor => neighbor ∈ neighbors node

omit [DecidableEq Node] in
theorem Reaches.symm (symmetric : ∀ node, ∀ neighbor ∈ neighbors node, node ∈ neighbors neighbor)
    {first second : Node} (reaches : Reaches neighbors first second) :
    Reaches neighbors second first := by
  induction reaches with
  | refl => exact .refl
  | tail _ step ih => exact .head (symmetric _ _ step) ih

/-- A search finds what its stack reaches only. -/
theorem searchComponent_reaches {fuel : Nat} {visited' component' : List Node} {root : Node}
    (reached : ∀ node ∈ component ++ stack, Reaches neighbors root node)
    (searched : searchComponent neighbors fuel stack visited component =
      some (visited', component')) : ∀ node ∈ component', Reaches neighbors root node := by
  induction fuel generalizing stack visited component with
  | zero =>
      cases stack with
      | nil =>
          cases searched
          simpa using reached
      | cons => cases searched
  | succ fuel ih =>
      cases stack with
      | nil =>
          cases searched
          simpa using reached
      | cons current stack =>
          refine ih (fun node member => ?_) searched
          obtain ⟨found, spec, stacked, _⟩ := visitNeighbors_spec (neighbors current) visited stack
          have here : Reaches neighbors root current := reached current (by simp)
          rw [stacked] at member
          by_cases new : node ∈ found
          · exact here.tail (spec.inside new)
          · apply reached
            simp only [List.mem_append, List.mem_cons] at member ⊢
            tauto

/-- The components are joined and apart, and an earlier one has a node before a later one. -/
structure Division (neighbors : Node → List Node) (before : Node → Node → Prop)
    (visited : List Node) (components : List (List Node)) : Prop where
  joined : ∀ component ∈ components, ∃ root ∈ component, ∀ node ∈ component,
    Reaches neighbors root node
  fresh : ∀ component ∈ components, ∀ node ∈ component, node ∉ visited
  apart : components.Pairwise List.Disjoint
  ordered : components.Pairwise fun first second => ∃ root ∈ first, ∀ node ∈ second, before root node

/-- The searches divide the nodes that they have not visited, in the order of the starts. -/
theorem searchComponents_division {before : Node → Node → Prop} {fuel : Nat}
    {nodes starts : List Node} {components : List (List Node)}
    (inside : ∀ node, ∀ neighbor ∈ neighbors node, neighbor ∈ nodes) (subset : starts ⊆ nodes)
    (known : ∀ node ∈ nodes, node ∈ visited ∨ node ∈ starts) (sorted : starts.Pairwise before)
    (searched : searchComponents neighbors fuel starts visited = some components) :
    Division neighbors before visited components ∧ ∀ component ∈ components, component ⊆ nodes := by
  induction starts generalizing visited components with
  | nil =>
      cases searched
      exact ⟨⟨by simp, by simp, .nil, .nil⟩, by simp⟩
  | cons start rest ih =>
      obtain ⟨below, sorted⟩ := List.pairwise_cons.mp sorted
      obtain ⟨startInside, subset⟩ := List.cons_subset.mp subset
      rw [searchComponents] at searched
      split at searched
      · rename_i old
        apply ih subset (fun node member => ?_) sorted searched
        rcases known node member with visited | found
        · exact .inl visited
        · rcases List.mem_cons.mp found with rfl | later
          · exact .inl old
          · exact .inr later
      · rename_i new
        obtain ⟨⟨visited', component⟩, found, later⟩ := Option.bind_eq_some_iff.mp searched
        obtain ⟨components, others, rfl⟩ := Option.map_eq_some_iff.mp later
        obtain ⟨ended, kept⟩ := searchComponent_spec (.start new) found
        have root : start ∈ component := kept (by simp)
        have marked : ∀ node, node ∈ visited' ↔ node ∈ visited ∨ node ∈ component := by
          simpa using ended.marked
        have reached := searchComponent_reaches (fun node member => by
          rw [List.nil_append, List.mem_singleton] at member
          subst member
          exact Relation.ReflTransGen.refl) found
        have within_ : component ⊆ nodes := by
          intro node member
          rcases Relation.ReflTransGen.cases_tail (reached node member) with rfl | ⟨last, _, step⟩
          · exact startInside
          · exact inside last node step
        obtain ⟨division, inNodes⟩ := ih subset (fun node member => by
          rw [marked]
          rcases known node member with old | among
          · exact .inl (.inl old)
          · rcases List.mem_cons.mp among with rfl | later
            · exact .inl (.inr root)
            · exact .inr later) sorted others
        have later : ∀ other ∈ components, ∀ node ∈ other, node ∉ visited ∧ node ∉ component := by
          intro other among node member
          have unseen := division.fresh other among node member
          rw [marked, not_or] at unseen
          exact unseen
        refine ⟨⟨?_, ?_, ?_, ?_⟩, List.forall_mem_cons.mpr ⟨within_, inNodes⟩⟩
        · exact List.forall_mem_cons.mpr ⟨⟨start, root, reached⟩, division.joined⟩
        · refine List.forall_mem_cons.mpr ⟨fun node member => ?_, fun other among node member =>
            (later other among node member).1⟩
          exact ended.fresh node (List.mem_append_left _ member)
        · refine List.pairwise_cons.mpr ⟨fun other among node here there => ?_, division.apart⟩
          exact (later other among node there).2 here
        · refine List.pairwise_cons.mpr ⟨fun other among => ⟨start, root, fun node member => ?_⟩,
            division.ordered⟩
          -- A node of a later component is not visited, so it is a later start.
          obtain ⟨notVisited, notHere⟩ := later other among node member
          have start_ := (known node (inNodes other among member)).resolve_left notVisited
          rcases List.mem_cons.mp start_ with rfl | inRest
          · exact absurd root notHere
          · exact below node inRest

omit [DecidableEq Node] in
/-- A closed component contains what its nodes reach. -/
theorem Closed.reaches {nodes : List Node} (closed : Closed neighbors nodes) {first second : Node}
    (member : first ∈ nodes) (reaches : Reaches neighbors first second) : second ∈ nodes := by
  induction reaches with
  | refl => exact member
  | tail _ step ih => exact closed _ ih _ step

end Library
