import Mathlib.Data.List.Nodup
import Mathlib.Logic.Relation

/-!
Depth-first order. `DepthFirst` says in which order a search visits the nodes of a graph that goes
down from a new node at once, and passes over a node that it has begun before, whether or not it is
done with it. There is only one such order, nothing is in it twice, and from one node it holds what
can be reached from there.
-/

namespace ScriptLoader

variable {α : Type}

/-- A search through `todo`, from left to right, visits the nodes in `order`; those in `seen` have
been begun before. From each node the search goes on to `next`, before it goes to the right. -/
inductive DepthFirst (next : α → List α) : (seen todo order : List α) → Prop
  | done (seen : List α) : DepthFirst next seen [] []
  | again {node : α} {seen rest order : List α} (old : node ∈ seen)
      (later : DepthFirst next seen rest order) : DepthFirst next seen (node :: rest) order
  | visit {node : α} {seen rest below order : List α} (new : node ∉ seen)
      (inside : DepthFirst next (node :: seen) (next node) below)
      (later : DepthFirst next (below ++ node :: seen) rest order) :
      DepthFirst next seen (node :: rest) (node :: (below ++ order))

abbrev Leads (next : α → List α) : α → α → Prop :=
  Relation.ReflTransGen fun node goal => goal ∈ next node

namespace DepthFirst

variable {next : α → List α} {seen todo order order' : List α} {node root : α}

/-- There is only one order. -/
theorem unique (h : DepthFirst next seen todo order) (h' : DepthFirst next seen todo order') :
    order = order' := by
  induction h generalizing order' with
  | done seen =>
      cases h'
      rfl
  | again old later ih =>
      cases h' with
      | again old' later' => exact ih later'
      | visit new' inside' later' => exact (new' old).elim
  | visit new inside later ihinside ihlater =>
      cases h' with
      | again old' later' => exact (new old').elim
      | visit new' inside' later' =>
          obtain rfl := ihinside inside'
          rw [ihlater later']

/-- What is visited was not seen before. -/
theorem not_mem_seen (h : DepthFirst next seen todo order) (hmem : node ∈ order) :
    node ∉ seen := by
  induction h with
  | done seen => cases hmem
  | again old later ih => exact ih hmem
  | visit new inside later ihinside ihlater =>
      intro hseen
      rcases List.mem_cons.mp hmem with rfl | hmem
      · exact new hseen
      · rcases List.mem_append.mp hmem with hmem | hmem
        · exact ihinside hmem (List.mem_cons_of_mem _ hseen)
        · exact ihlater hmem (List.mem_append_right _ (List.mem_cons_of_mem _ hseen))

theorem nodup (h : DepthFirst next seen todo order) : order.Nodup := by
  induction h with
  | done seen => exact List.nodup_nil
  | again old later ih => exact ih
  | @visit node seen rest below order new inside later ihinside ihlater =>
      rw [List.nodup_cons]
      constructor
      · intro hmem
        rcases List.mem_append.mp hmem with hmem | hmem
        · exact inside.not_mem_seen hmem List.mem_cons_self
        · exact later.not_mem_seen hmem (List.mem_append_right _ List.mem_cons_self)
      · refine ihinside.append ihlater fun other hbelow horder => ?_
        exact later.not_mem_seen horder (List.mem_append_left _ hbelow)

/-- What has been begun before the search goes to the right is visited below, or was seen before. -/
theorem mem_or_mem_of_begun {below : List α} {top : α} (h : node ∈ below ++ top :: seen) :
    node ∈ top :: (below ++ order) ∨ node ∈ seen := by
  rcases List.mem_append.mp h with h | h
  · exact .inl (List.mem_cons_of_mem _ (List.mem_append_left _ h))
  · rcases List.mem_cons.mp h with rfl | h
    · exact .inl List.mem_cons_self
    · exact .inr h

/-- Nothing is left to do. -/
theorem covers (h : DepthFirst next seen todo order) (hmem : node ∈ todo) :
    node ∈ order ∨ node ∈ seen := by
  induction h with
  | done seen => cases hmem
  | again old later ih =>
      rcases List.mem_cons.mp hmem with rfl | hmem
      · exact .inr old
      · exact ih hmem
  | visit new inside later ihinside ihlater =>
      rcases List.mem_cons.mp hmem with rfl | hmem
      · exact .inl List.mem_cons_self
      · rcases ihlater hmem with h | h
        · exact .inl (List.mem_cons_of_mem _ (List.mem_append_right _ h))
        · exact mem_or_mem_of_begun h

/-- Where a visited node leads to has been visited as well, or was seen before. -/
theorem closed (h : DepthFirst next seen todo order) (hmem : node ∈ order) {goal : α}
    (hgoal : goal ∈ next node) : goal ∈ order ∨ goal ∈ seen := by
  induction h with
  | done seen => cases hmem
  | again old later ih => exact ih hmem
  | visit new inside later ihinside ihlater =>
      rcases List.mem_cons.mp hmem with rfl | hmem
      · exact mem_or_mem_of_begun (List.mem_append.mpr (inside.covers hgoal))
      · rcases List.mem_append.mp hmem with hmem | hmem
        · exact mem_or_mem_of_begun (List.mem_append.mpr (ihinside hmem))
        · rcases ihlater hmem with h | h
          · exact .inl (List.mem_cons_of_mem _ (List.mem_append_right _ h))
          · exact mem_or_mem_of_begun h

/-- A node that is visited can be reached from one that was to be done. -/
theorem reachable (h : DepthFirst next seen todo order) (hmem : node ∈ order) :
    ∃ first ∈ todo, Leads next first node := by
  induction h with
  | done seen => cases hmem
  | again old later ih =>
      obtain ⟨first, hfirst, hpath⟩ := ih hmem
      exact ⟨first, List.mem_cons_of_mem _ hfirst, hpath⟩
  | @visit top seen rest below order new inside later ihinside ihlater =>
      rcases List.mem_cons.mp hmem with rfl | hmem
      · exact ⟨node, List.mem_cons_self, .refl⟩
      · rcases List.mem_append.mp hmem with hmem | hmem
        · obtain ⟨first, hfirst, hpath⟩ := ihinside hmem
          exact ⟨top, List.mem_cons_self, .head hfirst hpath⟩
        · obtain ⟨first, hfirst, hpath⟩ := ihlater hmem
          exact ⟨first, List.mem_cons_of_mem _ hfirst, hpath⟩

/-- A search from one node visits what can be reached from it. -/
theorem mem_iff (h : DepthFirst next [] [root] order) :
    node ∈ order ↔ Leads next root node := by
  constructor
  · intro hmem
    obtain ⟨first, hfirst, hpath⟩ := h.reachable hmem
    rwa [List.mem_singleton.mp hfirst] at hpath
  · intro hpath
    -- the visited nodes are closed under the edges, so a path cannot leave them
    have hin {goal : α} (hgoal : goal ∈ order ∨ goal ∈ ([] : List α)) : goal ∈ order :=
      hgoal.resolve_right List.not_mem_nil
    induction hpath with
    | refl => exact hin (h.covers List.mem_cons_self)
    | tail _ edge ih => exact hin (h.closed ih edge)

end DepthFirst

end ScriptLoader
