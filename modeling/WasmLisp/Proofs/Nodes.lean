import Mathlib
import WasmLisp.CompUnit

/-!
# Nodes below a node

* `Node.flatten_subset`: what is below a node that is below another is below that other.
* `Node.mem_flattenAll` and `Node.flattenAll_append`: the nodes of several trees.
-/

namespace WasmLisp.Node

/-- The nodes in a list are those in its members, in order. -/
theorem flattenAll_eq_flatMap (ns : List Node) : flattenAll ns = ns.flatMap flatten := by
  induction ns with
  | nil => rfl
  | cons n ns ih => rw [flattenAll, ih, List.flatMap_cons]

/-- A node in a list is one in a member of it. -/
theorem mem_flattenAll {m : Node} {ns : List Node} :
    m ∈ flattenAll ns ↔ ∃ n ∈ ns, m ∈ n.flatten := by
  rw [flattenAll_eq_flatMap, List.mem_flatMap]

/-- The nodes in two lists are those in one and then those in the other. -/
theorem flattenAll_append (ns ms : List Node) :
    flattenAll (ns ++ ms) = flattenAll ns ++ flattenAll ms := by
  simp only [flattenAll_eq_flatMap, List.flatMap_append]

/-- All nodes in a member are nodes in the list. -/
theorem flatten_subset_flattenAll {n : Node} {ns : List Node} (h : n ∈ ns) :
    n.flatten ⊆ flattenAll ns := fun _ hm => mem_flattenAll.2 ⟨n, h, hm⟩

mutual

/-- A node below another has all its nodes below it. -/
theorem flatten_subset {m : Node} : ∀ {n : Node}, m ∈ n.flatten → m.flatten ⊆ n.flatten
  | .absent, h => by simp only [flatten, List.not_mem_nil] at h
  | .const _, h | .localVar _, h | .varRef _ _, h | .foreignGet _, h | .defGlobal _ _, h => by
    simp only [flatten, List.mem_singleton] at h
    subst h
    exact List.Subset.refl _
  | .bindVar ns name init, h | .foreignSet name init, h | .defn ns name ps init, h => by
    rw [flatten, List.mem_cons] at h
    rcases h with rfl | h
    · exact List.Subset.refl _
    · rw [flatten]
      exact List.subset_cons_of_subset _ (flatten_subset h)
  | .invoke ns name args, h | .foreignCall name args, h | .prim op args, h | .seq args, h => by
    rw [flatten, List.mem_cons] at h
    rcases h with rfl | h
    · exact List.Subset.refl _
    · rw [flatten]
      exact List.subset_cons_of_subset _ (flatten_subset_all h)
  | .ifElse c t e, h => by
    rw [flatten, List.mem_cons, List.mem_append, List.mem_append] at h
    rcases h with rfl | (h | h) | h
    · exact List.Subset.refl _
    · have := flatten_subset h
      grind [flatten]
    · have := flatten_subset h
      grind [flatten]
    · have := flatten_subset h
      grind [flatten]
  | .letIn bs body, h => by
    rw [flatten, List.mem_cons, List.mem_append] at h
    rcases h with rfl | h | h
    · exact List.Subset.refl _
    · have := flatten_subset_bindings h
      grind [flatten]
    · have := flatten_subset h
      grind [flatten]

/-- All nodes in a node of a list are nodes in the list. -/
theorem flatten_subset_all {m : Node} :
    ∀ {ns : List Node}, m ∈ flattenAll ns → m.flatten ⊆ flattenAll ns
  | [], h => by simp only [flattenAll, List.not_mem_nil] at h
  | n :: ns, h => by
    rw [flattenAll, List.mem_append] at h
    rw [flattenAll]
    rcases h with h | h
    · exact List.subset_append_of_subset_left _ (flatten_subset h)
    · exact List.subset_append_of_subset_right _ (flatten_subset_all h)

/-- So are those in a node of the values of bindings. -/
theorem flatten_subset_bindings {m : Node} :
    ∀ {bs : List (String × Node)}, m ∈ flattenBindings bs → m.flatten ⊆ flattenBindings bs
  | [], h => by simp only [flattenBindings, List.not_mem_nil] at h
  | (_, n) :: bs, h => by
    rw [flattenBindings, List.mem_append] at h
    rw [flattenBindings]
    rcases h with h | h
    · exact List.subset_append_of_subset_left _ (flatten_subset h)
    · exact List.subset_append_of_subset_right _ (flatten_subset_bindings h)

end

end WasmLisp.Node
