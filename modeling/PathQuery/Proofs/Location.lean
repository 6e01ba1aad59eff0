import Mathlib
import PathQuery.Proofs.Search
import PathQuery.Proofs.Traversal

/-!
# Locations of results

A location leads from a document to a value inside it by the positions of children. Every result of
a traversal stands at a location: without recursive descent the locations are as long as the path
and in document order, and one recursive descent still visits no location twice.
-/
namespace PathQuery
namespace Value

def at? : Value → List Nat → Option Value
  | v, [] => some v
  | v, i :: rest => v.children[i]?.bind fun c => at? c rest

@[simp] theorem at?_nil (v : Value) : v.at? [] = some v := by simp [at?]

theorem at?_cons (v : Value) (i : Nat) (rest : List Nat) :
    v.at? (i :: rest) = v.children[i]?.bind fun c => c.at? rest := by simp [at?]

theorem at?_singleton (v : Value) (i : Nat) : v.at? [i] = v.children[i]? := by
  simp [at?_cons]

theorem at?_append (v : Value) (front back : List Nat) :
    v.at? (front ++ back) = (v.at? front).bind fun w => w.at? back := by
  induction front generalizing v with
  | nil => simp
  | cons i rest ih => simp only [List.cons_append, at?_cons, ih, Option.bind_assoc]

/-- The position of a key among the entries of an object. -/
def position? (v : Value) (key : String) : Option Nat :=
  match v with
  | object entries => entries.findIdx? fun e => key == e.1
  | _ => none

theorem lookup_eq_getElem? (key : String) (entries : List (String × Value)) :
    entries.lookup key =
      (entries.findIdx? fun e => key == e.1).bind fun i => (entries.map Prod.snd)[i]? := by
  induction entries with
  | nil => rfl
  | cons e rest ih =>
    rw [List.lookup_cons, List.findIdx?_cons, ih]
    cases key == e.1 with
    | true => rfl
    | false => simp [Option.bind_map]

theorem get?_eq_bind_position? (v : Value) (key : String) :
    v.get? key = (v.position? key).bind fun i => v.children[i]? := by
  cases v with
  | object entries => exact lookup_eq_getElem? key entries
  | _ => rfl

theorem getElem?_of_position? {v : Value} {key : String} {i : Nat} (h : v.position? key = some i) :
    ∃ w, v.children[i]? = some w := by
  cases v with
  | object entries =>
    obtain ⟨hi, -⟩ := List.findIdx?_eq_some_iff_getElem.mp h
    exact ⟨entries[i].2, by simp [children, hi]⟩
  | _ => exact absurd h (by simp [position?])

theorem mem_children_of_get? {v w : Value} {key : String} (h : v.get? key = some w) :
    w ∈ v.children := by
  rw [get?_eq_bind_position?] at h
  obtain ⟨i, -, hi⟩ := Option.bind_eq_some_iff.mp h
  exact List.mem_of_getElem? hi

theorem at?_of_mem_zipIdx {v : Value} {e : Value × Nat} (h : e ∈ v.children.zipIdx)
    (rest : List Nat) : v.at? (e.2 :: rest) = e.1.at? rest := by
  rw [at?_cons, List.mem_zipIdx_iff_getElem?.mp h, Option.bind_some]

/-- The locations of the values under a key at any depth, in the order of `under`. -/
def locationsUnder (key : String) (v : Value) : List (List Nat) :=
  (v.position? key).toList.map (fun i => [i]) ++
    v.children.zipIdx.attach.flatMap fun e =>
      (locationsUnder key e.1.1).map (e.1.2 :: ·)
termination_by v.size
decreasing_by exact size_lt_of_mem_children (List.fst_mem_of_mem_zipIdx e.2)

theorem locationsUnder_eq (key : String) (v : Value) :
    v.locationsUnder key = (v.position? key).toList.map (fun i => [i]) ++
      v.children.zipIdx.flatMap fun e => (e.1.locationsUnder key).map (e.2 :: ·) := by
  let below := fun e : Value × Nat => (e.1.locationsUnder key).map (e.2 :: ·)
  rw [locationsUnder, List.flatMap_subtype (g := below) (fun _ _ => rfl), List.unattach_attach]

theorem map_at?_own (key : String) (v : Value) :
    ((v.position? key).toList.map fun i => [i]).map v.at? = (v.get? key).toList.map some := by
  rw [get?_eq_bind_position?]
  cases h : v.position? key with
  | none => rfl
  | some i =>
    obtain ⟨w, hw⟩ := getElem?_of_position? h
    simp [at?_singleton, hw]

theorem map_at?_locationsUnder (key : String) (v : Value) :
    (v.locationsUnder key).map v.at? = (v.under key).map some := by
  induction v using childrenInduction with
  | step v ih =>
    have hbelow : (v.children.zipIdx.flatMap fun e =>
        (e.1.locationsUnder key).map (e.2 :: ·)).map v.at? =
        (v.children.flatMap (under key)).map some := by
      calc (v.children.zipIdx.flatMap fun e =>
            (e.1.locationsUnder key).map (e.2 :: ·)).map v.at?
          = v.children.zipIdx.flatMap fun e => (e.1.under key).map some := by
            rw [List.map_flatMap]
            refine List.flatMap_congr fun e he => ?_
            rw [← ih e.1 (List.fst_mem_of_mem_zipIdx he), List.map_map]
            exact List.map_congr_left fun l _ => at?_of_mem_zipIdx he l
        _ = (v.children.zipIdx.map Prod.fst).flatMap fun c => (c.under key).map some := by
            rw [List.flatMap_map]
        _ = (v.children.flatMap (under key)).map some := by
            rw [List.zipIdx_map_fst, List.map_flatMap]
    rw [locationsUnder_eq, under_eq, List.map_append, List.map_append, map_at?_own, hbelow]

theorem nil_notMem_locationsUnder (key : String) (v : Value) : [] ∉ v.locationsUnder key := by
  rw [locationsUnder_eq]
  simp

theorem pairwise_zipIdx (items : List Value) :
    items.zipIdx.Pairwise fun a b => a.2 < b.2 := by
  rw [← List.pairwise_map (f := Prod.snd), List.zipIdx_map_snd]
  exact List.pairwise_lt_range'

/-- No location is visited twice: a value's own entry has the shorter location, and locations below
different children begin differently. -/
theorem nodup_locationsUnder (key : String) (v : Value) : (v.locationsUnder key).Nodup := by
  induction v using childrenInduction with
  | step v ih =>
    rw [locationsUnder_eq, List.nodup_append]
    refine ⟨?_, ?_, ?_⟩
    · cases v.position? key <;> simp
    · refine List.pairwise_flatMap.mpr ⟨?_, ?_⟩
      · intro e he
        exact (ih e.1 (List.fst_mem_of_mem_zipIdx he)).map (List.cons_injective)
      · apply (pairwise_zipIdx v.children).imp
        intro a b hab l hl m hm h
        obtain ⟨l', -, rfl⟩ := List.mem_map.mp hl
        obtain ⟨m', -, rfl⟩ := List.mem_map.mp hm
        have := (List.cons_eq_cons.mp h).1
        omega
    · intro l hl m hm h
      obtain ⟨i, -, rfl⟩ := List.mem_map.mp hl
      obtain ⟨e, -, hm⟩ := List.mem_flatMap.mp hm
      obtain ⟨m', hm', rfl⟩ := List.mem_map.mp hm
      obtain ⟨-, rfl⟩ := List.cons_eq_cons.mp h
      exact nil_notMem_locationsUnder key e.1 hm'

end Value

namespace Segment

theorem members_sublist_children (v : Value) : v.members.Sublist v.children := by
  cases v <;> simp [Value.members, Value.children]

theorem toList_get?_sublist (v : Value) (name : String) :
    (v.get? name).toList.Sublist v.children := by
  cases h : v.get? name with
  | none => exact List.nil_sublist _
  | some w => exact List.singleton_sublist.mpr (Value.mem_children_of_get? h)

/-- Every segment but recursive descent selects some of the children, in their order. -/
theorem select_sublist_children {s : Segment} (h : s.kind ≠ .recursive) (v : Value) :
    (s.select v).value.Sublist v.children := by
  have hm := members_sublist_children v
  cases s with
  | child name => exact toList_get?_sublist v name
  | recursive name => exact absurd rfl h
  | wildcard => exact List.Sublist.refl _
  | index position =>
    refine List.Sublist.trans ?_ hm
    cases hp : v.members[position]? with
    | none => simp [select, hp]
    | some w => simpa [select, hp] using List.mem_of_getElem? hp
  | slice start stop =>
    exact ((List.drop_sublist _ _).trans (List.take_sublist _ _)).trans hm
  | key name => exact toList_get?_sublist v name
  | filter expression =>
    simp only [select, Logged.filter_value]
    exact List.filter_sublist.trans hm

theorem exists_positions {v : Value} {values : List Value} (h : values.Sublist v.children) :
    ∃ positions : List Nat, positions.Pairwise (· < ·) ∧
      (positions.map fun i => [i]).map v.at? = values.map some := by
  rw [← List.zipIdx_map_fst 0 v.children] at h
  obtain ⟨picked, hp, rfl⟩ := List.sublist_map_iff.mp h
  refine ⟨picked.map Prod.snd, ?_, ?_⟩
  · exact List.pairwise_map.mpr ((Value.pairwise_zipIdx v.children).sublist hp)
  · simp only [List.map_map]
    refine List.map_congr_left fun e he => ?_
    have hat := Value.at?_of_mem_zipIdx (hp.subset he) []
    simpa using hat

theorem exists_locations (s : Segment) (v : Value) :
    ∃ locations : List (List Nat), locations.map v.at? = (s.select v).value.map some ∧
      locations.Nodup ∧ (s.kind ≠ .recursive → ∃ positions : List Nat,
        positions.Pairwise (· < ·) ∧ locations = positions.map fun i => [i]) := by
  by_cases hs : s.kind = .recursive
  · cases s with
    | recursive name =>
      refine ⟨v.locationsUnder name, ?_, v.nodup_locationsUnder name, fun h => absurd hs h⟩
      rw [v.map_at?_locationsUnder name, ← Value.search_eq_under]
      rfl
    | _ => exact absurd hs (by simp [kind])
  · obtain ⟨positions, hp, hat⟩ := exists_positions (select_sublist_children hs v)
    refine ⟨positions.map fun i => [i], hat, ?_, fun _ => ⟨positions, hp, rfl⟩⟩
    exact List.pairwise_map.mpr (hp.imp fun hab h => hab.ne (List.singleton_inj.mp h))

end Segment

namespace Evaluation

/-- The locations inside the value at a location, seen from the document. -/
def extend (v : Value) (inside : Value → List (List Nat)) (l : List Nat) : List (List Nat) :=
  ((v.at? l).elim [] inside).map (l ++ ·)

theorem mem_extend {v : Value} {inside : Value → List (List Nat)} {l m : List Nat} :
    m ∈ extend v inside l ↔ ∃ w, v.at? l = some w ∧ ∃ rest ∈ inside w, l ++ rest = m := by
  unfold extend
  cases v.at? l <;> simp

theorem pairwise_extend {R : List Nat → List Nat → Prop} {v : Value}
    {inside : Value → List (List Nat)} {l : List Nat} (hR : ∀ a b, R a b → R (l ++ a) (l ++ b))
    (h : ∀ w, (inside w).Pairwise R) : (extend v inside l).Pairwise R := by
  unfold extend
  cases v.at? l with
  | none => simp
  | some w => exact List.pairwise_map.mpr ((h w).imp fun hab => hR _ _ hab)

theorem map_at?_extend {v : Value} {locations : List (List Nat)} {values : List Value}
    (hv : locations.map v.at? = values.map some) {inside : Value → List (List Nat)}
    {found : Value → List Value} (hf : ∀ w, (inside w).map w.at? = (found w).map some) :
    (locations.flatMap (extend v inside)).map v.at? = (values.flatMap found).map some := by
  have hone : ∀ l, (extend v inside l).map v.at? = ((v.at? l).elim [] found).map some := by
    intro l
    unfold extend
    cases hl : v.at? l with
    | none => rfl
    | some w =>
      rw [Option.elim_some, Option.elim_some, ← hf w, List.map_map]
      refine List.map_congr_left fun m _ => ?_
      rw [Function.comp_apply, Value.at?_append, hl, Option.bind_some]
  calc (locations.flatMap (extend v inside)).map v.at?
      = (locations.map v.at?).flatMap fun o => (o.elim [] found).map some := by
        simp only [List.map_flatMap, hone, List.flatMap_map]
    _ = values.flatMap fun w => (found w).map some := by
        rw [hv, List.flatMap_map]
        rfl
    _ = (values.flatMap found).map some := (List.map_flatMap).symm

/-- What is known of the locations at which segments select inside a value. -/
structure Places (segments : List Segment) (v : Value) (locations : List (List Nat)) : Prop where
  values : locations.map v.at? = (sweep segments [v]).map some
  ordered : (∀ s ∈ segments, s.kind ≠ .recursive) →
    (∀ l ∈ locations, l.length = segments.length) ∧ locations.Pairwise (· < ·)
  distinct : segments.countP (·.kind = .recursive) = 1 → locations.Nodup

theorem Places.nodup_of_ordered {segments : List Segment} {v : Value} {locations : List (List Nat)}
    (h : Places segments v locations) (hs : ∀ s ∈ segments, s.kind ≠ .recursive) :
    locations.Nodup := (h.ordered hs).2.imp fun hab => ne_of_lt hab

theorem ordered_extend {rest : List Segment} {v : Value} {inside : Value → List (List Nat)}
    (h : ∀ w, (∀ l ∈ inside w, l.length = rest.length) ∧ (inside w).Pairwise (· < ·))
    {positions : List Nat} (hp : positions.Pairwise (· < ·)) :
    (∀ l ∈ (positions.map fun i => [i]).flatMap (extend v inside), l.length = rest.length + 1) ∧
      ((positions.map fun i => [i]).flatMap (extend v inside)).Pairwise (· < ·) := by
  constructor
  · intro l hl
    obtain ⟨k, hk, hl⟩ := List.mem_flatMap.mp hl
    obtain ⟨i, -, rfl⟩ := List.mem_map.mp hk
    obtain ⟨w, -, m, hm, rfl⟩ := mem_extend.mp hl
    rw [List.singleton_append, List.length_cons, (h w).1 m hm]
  · rw [List.flatMap_map]
    refine List.pairwise_flatMap.mpr ⟨?_, hp.imp ?_⟩
    · intro i _
      exact pairwise_extend (fun a b hab => List.cons_lt_cons_iff.mpr (Or.inr ⟨rfl, hab⟩))
        fun w => (h w).2
    · intro i j hij l hl m hm
      obtain ⟨-, -, l', -, rfl⟩ := mem_extend.mp hl
      obtain ⟨-, -, m', -, rfl⟩ := mem_extend.mp hm
      exact List.cons_lt_cons_iff.mpr (Or.inl hij)

/-- Extended locations are distinct when what is added never hides the difference of two
locations. -/
theorem nodup_extend {v : Value} {inside : Value → List (List Nat)} {locations : List (List Nat)}
    (hl : locations.Nodup) (hi : ∀ w, (inside w).Nodup)
    (hcancel : ∀ l ∈ locations, ∀ k ∈ locations, ∀ w x, ∀ a ∈ inside w, ∀ b ∈ inside x,
      l ++ a = k ++ b → l = k) :
    (locations.flatMap (extend v inside)).Nodup := by
  refine List.pairwise_flatMap.mpr ⟨?_, ?_⟩
  · intro l _
    exact pairwise_extend (fun a b hab h => hab (List.append_cancel_left h)) hi
  · refine List.Pairwise.imp_of_mem ?_ hl
    intro l k hlm hkm hne a ha b hb hab
    obtain ⟨w, -, a', ha', rfl⟩ := mem_extend.mp ha
    obtain ⟨x, -, b', hb', rfl⟩ := mem_extend.mp hb
    exact hne (hcancel l hlm k hkm w x a' ha' b' hb' hab)

/-- A run: every list of segments selects at locations, by induction from the first segment on. -/
theorem exists_places (segments : List Segment) (v : Value) :
    ∃ locations, Places segments v locations := by
  induction segments generalizing v with
  | nil => exact ⟨[[]], by simp [sweep], by simp, by simp⟩
  | cons s rest ih =>
    choose inside hinside using ih
    obtain ⟨locations, hat, hnodup, hflat⟩ := s.exists_locations v
    refine ⟨locations.flatMap (extend v inside), ?_, ?_, ?_⟩
    · rw [map_at?_extend hat fun w => (hinside w).values, sweep_cons, List.flatMap_singleton,
        ← sweep_eq_flatMap]
    · intro hs
      have hrest : ∀ t ∈ rest, t.kind ≠ .recursive := fun t ht => hs t (by simp [ht])
      obtain ⟨positions, hp, rfl⟩ := hflat (hs s (by simp))
      exact ordered_extend (fun w => (hinside w).ordered hrest) hp
    · intro hcount
      by_cases hs : s.kind = .recursive
      · -- No segment is recursive any more, so everything added has one length.
        have hzero : rest.countP (·.kind = .recursive) = 0 := by simpa [hs] using hcount
        have hrest : ∀ t ∈ rest, t.kind ≠ .recursive := by
          simpa [List.countP_eq_zero] using hzero
        apply nodup_extend hnodup (fun w => (hinside w).nodup_of_ordered hrest)
        intro l _ k _ w x a ha b hb hab
        have hlength := (((hinside w).ordered hrest).1 a ha).trans
          (((hinside x).ordered hrest).1 b hb).symm
        exact (List.append_inj' hab hlength).1
      · obtain ⟨positions, -, rfl⟩ := hflat hs
        have hone : rest.countP (·.kind = .recursive) = 1 := by simpa [hs] using hcount
        apply nodup_extend hnodup (fun w => (hinside w).distinct hone)
        intro l hl k hk w x a _ b _ hab
        obtain ⟨i, -, rfl⟩ := List.mem_map.mp hl
        obtain ⟨j, -, rfl⟩ := List.mem_map.mp hk
        exact (List.append_inj hab rfl).1

/-- The results of a traversal stand at locations of the document. Without recursive descent these are
as long as the path and strictly increase in document order; with one recursive descent they are
distinct. -/
theorem traverse_locations (trace : Bool) (document : Value) (segments : List Segment) :
    ∃ locations : List (List Nat),
      locations.map document.at? = (traverse trace segments [document]).value.map some ∧
      ((∀ s ∈ segments, s.kind ≠ .recursive) →
        (∀ l ∈ locations, l.length = segments.length) ∧ locations.Pairwise (· < ·)) ∧
      (segments.countP (·.kind = .recursive) = 1 → locations.Nodup) := by
  obtain ⟨locations, h⟩ := exists_places segments document
  rw [traverse_value]
  exact ⟨locations, h.values, h.ordered, h.distinct⟩

end Evaluation
end PathQuery
