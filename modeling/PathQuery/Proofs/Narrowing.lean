import Mathlib
import PathQuery.Proofs.Location

/-!
# Recursive descent inside a document

The search of a value inside a document is one block of the search of the document: by induction on
the location of the value, each child on the way to it being searched at one stretch. Every result
of a traversal stands inside the document, so a recursive descent that comes after other segments
finds nothing that it does not find alone.
-/
namespace PathQuery

namespace Value

theorem under_infix_of_mem_children {v c : Value} (key : String) (h : c ∈ v.children) :
    c.under key <:+: v.under key := by
  have hchildren : c.under key <:+: v.children.flatMap (under key) :=
    List.infix_flatMap_of_mem h (under key)
  rw [under_eq key v]
  exact hchildren.trans (List.suffix_append _ _).isInfix

theorem under_infix_of_at? {v w : Value} {location : List Nat} (key : String)
    (h : v.at? location = some w) : w.under key <:+: v.under key := by
  induction location generalizing v with
  | nil =>
    obtain rfl : v = w := by simpa using h
    exact List.infix_refl _
  | cons i rest ih =>
    rw [at?_cons] at h
    obtain ⟨c, hc, hw⟩ := Option.bind_eq_some_iff.mp h
    exact (ih hw).trans (under_infix_of_mem_children key (List.mem_of_getElem? hc))

end Value

namespace Evaluation

theorem exists_location_of_mem_sweep {segments : List Segment} {document v : Value}
    (h : v ∈ sweep segments [document]) : ∃ location, document.at? location = some v := by
  obtain ⟨locations, hplaces⟩ := exists_places segments document
  have hmem : some v ∈ locations.map document.at? := by
    rw [hplaces.values]
    exact List.mem_map_of_mem h
  obtain ⟨location, -, hat⟩ := List.mem_map.mp hmem
  exact ⟨location, hat⟩

theorem sweep_recursive (segments : List Segment) (key : String) (document : Value) :
    sweep (segments ++ [.recursive key]) [document] =
      (sweep segments [document]).flatMap (Value.under key) := by
  rw [sweep_append]
  exact List.flatMap_congr fun v _ => Value.search_eq_under key v

/-- The search of a value that stands in a document is a contiguous block of the search of the
document, and a recursive descent behind other segments finds values of that search only. -/
theorem search_narrows (document : Value) (key : String) :
    (∀ location v, document.at? location = some v → v.search key <:+: document.search key) ∧
    ∀ (trace : Bool) (segments : List Segment),
      ∀ v ∈ (traverse trace (segments ++ [.recursive key]) [document]).value,
        v ∈ (traverse trace [.recursive key] [document]).value := by
  refine ⟨?_, ?_⟩
  · intro location v hat
    rw [Value.search_eq_under, Value.search_eq_under]
    exact Value.under_infix_of_at? key hat
  · intro trace segments v hv
    have halone : sweep [.recursive key] [document] = document.under key := by
      simpa [sweep] using sweep_recursive [] key document
    rw [traverse_value, sweep_recursive] at hv
    rw [traverse_value, halone]
    obtain ⟨w, hw, hv⟩ := List.mem_flatMap.mp hv
    obtain ⟨location, hat⟩ := exists_location_of_mem_sweep hw
    exact (Value.under_infix_of_at? key hat).subset hv

theorem search_narrows_inner :
    let inner := Value.list [.object [("k", .int 1)], .object [("k", .int 2)]]
    let document := Value.object [("k", .int 0), ("a", inner), ("b", .object [("k", .int 3)])]
    document.at? [1] = some inner ∧ inner.search "k" <:+: document.search "k" ∧
    inner.search "k" = [.int 1, .int 2] ∧
    document.search "k" = [.int 0, .int 1, .int 2, .int 3] ∧
    Value.int 2 ∈ (traverse true [.child "a", .recursive "k"] [document]).value ∧
    Value.int 2 ∈ (traverse true [.recursive "k"] [document]).value := by
  intro inner document
  have hat : document.at? [1] = some inner := by decide +kernel
  have hmem : Value.int 2 ∈ (traverse true [.child "a", .recursive "k"] [document]).value := by
    decide +kernel
  obtain ⟨hblock, hfound⟩ := search_narrows document "k"
  exact ⟨hat, hblock [1] inner hat, by decide +kernel, by decide +kernel, hmem,
    hfound true [.child "a"] (.int 2) hmem⟩

end Evaluation
end PathQuery
