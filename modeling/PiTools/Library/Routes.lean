import Mathlib.Data.List.Chain
import Mathlib.Data.List.Nodup
import Mathlib.Data.List.Perm.Subperm
import Mathlib.Logic.Relation

/-
This file follows a function that names at most one successor of each node.
-/

namespace Library

variable {Node : Type}

/-- The second node is the successor of the first one. -/
def Follows (next : Node → Option Node) (node other : Node) : Prop := next node = some other

/-- A route lists the nodes up to one without a successor. -/
inductive Leads (next : Node → Option Node) : Node → List Node → Prop
  | last {node : Node} (ends : next node = none) : Leads next node [node]
  | step {node other : Node} {route : List Node} (follows : next node = some other)
      (later : Leads next other route) : Leads next node (node :: route)

/-- The walk lists its nodes when it ends within the given number of steps. -/
def walk (next : Node → Option Node) : Nat → Node → Option (List Node)
  | 0, _ => none
  | fuel + 1, node =>
      match next node with
      | none => some [node]
      | some other => (walk next fuel other).map fun route => node :: route

/-- The climb ends without a successor or returns to a node of its path. -/
def climb [DecidableEq Node] (next : Node → Option Node) :
    Nat → List Node → Node → Option (Except (List Node) Unit)
  | 0, _, _ => none
  | fuel + 1, path, node =>
      if node ∈ path then some (.error (path.dropWhile fun other => other ≠ node))
      else
        match next node with
        | some other => climb next fuel (path ++ [node]) other
        | none => some (.ok ())

variable {next : Node → Option Node} {start node : Node} {route : List Node}

/-! ### Routes -/

theorem Leads.unique {other : List Node} (first : Leads next node route)
    (second : Leads next node other) : route = other := by
  induction first generalizing other with
  | last ends =>
      cases second with
      | last => rfl
      | step follows =>
          rw [ends] at follows
          cases follows
  | step follows _ ih =>
      cases second with
      | last ends =>
          rw [ends] at follows
          cases follows
      | step follows' later =>
          rw [follows] at follows'
          cases follows'
          rw [ih later]

theorem Leads.mem_start (leads : Leads next node route) : node ∈ route := by
  cases leads <;> exact List.mem_cons_self

/-- Every node of a route has the rest of the route as its own. -/
theorem Leads.rest (leads : Leads next start route) (member : node ∈ route) :
    ∃ rest, rest <:+ route ∧ Leads next node rest := by
  induction leads with
  | last ends =>
      rw [List.mem_singleton] at member
      subst member
      exact ⟨_, List.suffix_rfl, .last ends⟩
  | step follows later ih =>
      rcases List.mem_cons.mp member with rfl | inside
      · exact ⟨_, List.suffix_rfl, .step follows later⟩
      · obtain ⟨rest, suffix, leads⟩ := ih inside
        exact ⟨rest, suffix.trans (List.suffix_cons _ _), leads⟩

/-- A route visits no node twice. -/
theorem Leads.nodup (leads : Leads next start route) : route.Nodup := by
  induction leads with
  | last => exact List.nodup_singleton _
  | @step node other route follows later ih =>
      refine List.nodup_cons.mpr ⟨fun again => ?_, ih⟩
      obtain ⟨rest, suffix, leads⟩ := later.rest again
      have same := leads.unique (.step follows later)
      have short := suffix.length_le
      rw [same, List.length_cons] at short
      omega

/-- A route contains the successors of its nodes. -/
theorem Leads.closed (leads : Leads next start route) {other : Node} (member : node ∈ route)
    (follows : next node = some other) : other ∈ route := by
  obtain ⟨rest, suffix, later⟩ := leads.rest member
  cases later with
  | last ends =>
      rw [ends] at follows
      cases follows
  | step follows' later =>
      rw [follows] at follows'
      cases follows'
      exact suffix.subset (List.mem_cons_of_mem _ later.mem_start)

/-- What the successors keep holds along the route. -/
theorem Leads.all (leads : Leads next start route) {holds : Node → Prop} (first : holds start)
    (kept : ∀ node other, holds node → next node = some other → holds other) :
    ∀ node ∈ route, holds node := by
  induction leads with
  | last => simpa using first
  | step follows _ ih =>
      intro node member
      rcases List.mem_cons.mp member with rfl | later
      · exact first
      · exact ih (kept _ _ first follows) node later

theorem Leads.isChain (leads : Leads next start route) : route.IsChain (Follows next) := by
  induction leads with
  | last => exact List.isChain_singleton _
  | step follows later ih =>
      cases later with
      | last => exact List.isChain_pair.mpr follows
      | step => exact ih.cons_cons follows

/-- A successor in several steps has a shorter route. -/
theorem Leads.shorter {other : Node} (later : Relation.TransGen (Follows next) node other)
    (leads : Leads next node route) :
    ∃ rest, Leads next other rest ∧ rest.length < route.length := by
  induction later using Relation.TransGen.head_induction_on generalizing route with
  | single follows =>
      cases leads with
      | last ends => cases ends.symm.trans follows
      | step follows' leads =>
          cases follows'.symm.trans follows
          exact ⟨_, leads, Nat.lt_succ_self _⟩
  | head follows _ ih =>
      cases leads with
      | last ends => cases ends.symm.trans follows
      | step follows' leads =>
          cases follows'.symm.trans follows
          obtain ⟨rest, found, less⟩ := ih leads
          exact ⟨rest, found, Nat.lt_succ_of_lt less⟩

/-- A node on a cycle has no route. -/
theorem Leads.acyclic (leads : Leads next node route) :
    ¬ Relation.TransGen (Follows next) node node := by
  intro cycle
  obtain ⟨rest, found, less⟩ := leads.shorter cycle
  rw [found.unique leads] at less
  exact Nat.lt_irrefl _ less

/-- A route reaches every node from which the inverse function leads back to its start. -/
theorem Leads.covers {back : Node → Option Node} (leads : Leads next start route)
    {rest : List Node} (returns : Leads back node rest)
    (forth : ∀ node ∈ rest, ∀ other, back node = some other → next other = some node)
    (only : ∀ node ∈ rest, back node = none → node = start) : node ∈ route := by
  induction returns with
  | last ends =>
      rw [only _ (List.mem_singleton_self _) ends]
      exact leads.mem_start
  | step follows _ ih =>
      refine leads.closed (ih (fun node member => forth node (.tail _ member))
        fun node member => only node (.tail _ member)) ?_
      exact forth _ (.head _) _ follows

/-- A walk ends exactly when there is a route that is short enough. -/
theorem walk_eq_some {fuel : Nat} :
    walk next fuel node = some route ↔ Leads next node route ∧ route.length ≤ fuel := by
  induction fuel generalizing node route with
  | zero =>
      simp only [walk, reduceCtorEq, false_iff, not_and]
      rintro (_ | _) short <;> simp at short
  | succ fuel ih =>
      simp only [walk]
      split
      · rename_i ends
        constructor
        · intro same
          cases same
          exact ⟨.last ends, by simp⟩
        · rintro ⟨leads, _⟩
          rw [leads.unique (.last ends)]
      · rename_i other follows
        rw [Option.map_eq_some_iff]
        constructor
        · rintro ⟨rest, walked, rfl⟩
          obtain ⟨leads, short⟩ := ih.mp walked
          exact ⟨.step follows leads, Nat.succ_le_succ short⟩
        · rintro ⟨leads, short⟩
          cases leads with
          | last ends => cases ends.symm.trans follows
          | step follows' later =>
              cases follows'.symm.trans follows
              exact ⟨_, ih.mpr ⟨later, Nat.le_of_succ_le_succ short⟩, rfl⟩

/-! ### Climbs -/

variable [DecidableEq Node]

/-- A climb that ends without a successor has found a route. -/
theorem climb_ok {fuel : Nat} {path : List Node} (climbed : climb next fuel path node = some (.ok ())) :
    ∃ route, Leads next node route := by
  induction fuel generalizing path node with
  | zero => cases climbed
  | succ fuel ih =>
      simp only [climb] at climbed
      split at climbed
      · cases climbed
      · split at climbed
        · rename_i other follows
          obtain ⟨route, leads⟩ := ih climbed
          exact ⟨_, .step follows leads⟩
        · rename_i ends
          exact ⟨_, .last ends⟩

/-- A climb that returns to its path has found a cycle. -/
theorem climb_error {fuel : Nat} {path cycle : List Node}
    (before : ∀ earlier ∈ path, Relation.TransGen (Follows next) earlier node)
    (climbed : climb next fuel path node = some (.error cycle)) :
    ∃ node, Relation.TransGen (Follows next) node node := by
  induction fuel generalizing path node with
  | zero => cases climbed
  | succ fuel ih =>
      simp only [climb] at climbed
      split at climbed
      · rename_i again
        exact ⟨node, before node again⟩
      · split at climbed
        · rename_i other follows
          refine ih (fun earlier member => ?_) climbed
          rcases List.mem_append.mp member with old | last
          · exact (before earlier old).tail follows
          · rw [List.mem_singleton] at last
            subst last
            exact .single follows
        · cases climbed

/-- A climb through finitely many nodes ends. -/
theorem climb_ends {fuel : Nat} {path nodes : List Node}
    (inside : ∀ node other, next node = some other → node ∈ nodes) (distinct : path.Nodup)
    (subset : path ⊆ nodes) (enough : nodes.length < fuel + path.length) :
    climb next fuel path node ≠ none := by
  induction fuel generalizing path node with
  | zero =>
      have short := (List.subperm_of_subset distinct subset).length_le
      omega
  | succ fuel ih =>
      simp only [climb]
      split
      · simp
      · rename_i fresh
        split
        · rename_i other follows
          apply ih
          · exact distinct.append (List.nodup_singleton _)
              (List.disjoint_singleton.mpr fresh)
          · exact List.append_subset.mpr
              ⟨subset, by simpa using inside node other follows⟩
          · rw [List.length_append, List.length_singleton]
            omega
        · simp

/-- Without cycles every node has a route. -/
theorem leads_of_acyclic {nodes : List Node}
    (inside : ∀ node other, next node = some other → node ∈ nodes)
    (acyclic : ∀ node, ¬ Relation.TransGen (Follows next) node node) (node : Node) :
    ∃ route, Leads next node route := by
  cases climbed : climb next (nodes.length + 1) [] node with
  | none =>
      exact absurd climbed (climb_ends inside List.nodup_nil (List.nil_subset _) (Nat.lt_succ_self _))
  | some outcome =>
      cases outcome with
      | ok => exact climb_ok climbed
      | error cycle =>
          obtain ⟨node, found⟩ := climb_error (by simp) climbed
          exact absurd found (acyclic node)

end Library
