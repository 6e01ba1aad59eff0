import Mathlib
import PathQuery.Proofs.Admission
import PathQuery.Proofs.ComparisonOrder
import PathQuery.Proofs.Location
import PathQuery.Proofs.Outcome

/-!
# The order of entries

Two documents that differ by the order of the entries of their objects give the same results, in
another order and with entries in another order inside them. Working sets correspond as multisets up
to such differences; one segment keeps this, and so do all segments of a path.
-/
namespace PathQuery

section Related

variable {α β : Type} {R : α → β → Prop}

theorem rel_of_forall₂ {xs : List α} {ys : List β} (h : List.Forall₂ R xs ys) :
    Multiset.Rel R ↑xs ↑ys := by
  induction h with
  | nil => exact Multiset.Rel.zero
  | cons hab _ ih => exact Multiset.Rel.cons hab ih

theorem exists_forall₂_of_rel {xs : List α} {ys : List β} (h : Multiset.Rel R ↑xs ↑ys) :
    ∃ permuted, permuted.Perm xs ∧ List.Forall₂ R permuted ys := by
  induction ys generalizing xs with
  | nil =>
    have hnil : (xs : Multiset α) = 0 := Multiset.rel_zero_right.mp h
    exact ⟨[], by simpa using hnil, List.Forall₂.nil⟩
  | cons b ys ih =>
    rw [← Multiset.cons_coe] at h
    obtain ⟨a, rest, hab, hrest, heq⟩ := Multiset.rel_cons_right.mp h
    obtain ⟨others, rfl⟩ := Quot.exists_rep rest
    obtain ⟨permuted, hperm, hrelated⟩ := ih hrest
    have hxs : (a :: others).Perm xs := Multiset.coe_eq_coe.mp heq.symm
    exact ⟨a :: permuted, (hperm.cons a).trans hxs, List.Forall₂.cons hab hrelated⟩

theorem rel_and_left {p : α → Prop} {o : Option α} {o' : Option β} (h : Option.Rel R o o')
    (hp : ∀ a, o = some a → p a) : Option.Rel (fun a b => p a ∧ R a b) o o' := by
  cases h with
  | some hab => exact Option.Rel.some ⟨hp _ rfl, hab⟩
  | none => exact Option.Rel.none

theorem rel_toList {o : Option α} {p : Option β} (h : Option.Rel R o p) :
    List.Forall₂ R o.toList p.toList := by
  cases h with
  | some hab => exact List.Forall₂.cons hab List.Forall₂.nil
  | none => exact List.Forall₂.nil

theorem forall₂_getElem? {xs : List α} {ys : List β} (h : List.Forall₂ R xs ys) (i : Nat) :
    List.Forall₂ R xs[i]?.toList ys[i]?.toList := by
  rw [← List.head?_drop, ← List.head?_drop, ← List.take_one, ← List.take_one]
  exact List.forall₂_take 1 (List.forall₂_drop i h)

end Related

namespace Value

/-- The keys of an object; any other value has none. -/
def keys : Value → List String
  | object entries => entries.map Prod.fst
  | _ => []

/-- Whether the keys of every object in a value are distinct. -/
inductive DistinctKeys : Value → Prop
  | intro {v : Value} (own : v.keys.Nodup) (below : ∀ c ∈ v.children, c.DistinctKeys) :
    DistinctKeys v

/-- Whether two values agree up to the order of the entries of objects, at every depth. -/
inductive Reordered : Value → Value → Prop
  | refl (v : Value) : Reordered v v
  | list {xs ys : List Value} (members : List.Forall₂ Reordered xs ys) :
    Reordered (list xs) (list ys)
  | tuple {xs ys : List Value} (members : List.Forall₂ Reordered xs ys) :
    Reordered (tuple xs) (tuple ys)
  | object {xs permuted ys : List (String × Value)} (order : xs.Perm permuted)
    (keys : permuted.map Prod.fst = ys.map Prod.fst)
    (values : List.Forall₂ Reordered (permuted.map Prod.snd) (ys.map Prod.snd)) :
    Reordered (object xs) (object ys)

theorem lookup_eq_some_iff_mem {key : String} {v : Value} {entries : List (String × Value)}
    (h : (entries.map Prod.fst).Nodup) : entries.lookup key = some v ↔ (key, v) ∈ entries := by
  induction entries with
  | nil => simp
  | cons e rest ih =>
    obtain ⟨other, w⟩ := e
    rw [List.map_cons, List.nodup_cons] at h
    rw [List.lookup_cons]
    by_cases hkey : key = other
    · subst hkey
      have hrest : (key, v) ∉ rest := by
        intro hv
        have hmem : key ∈ rest.map Prod.fst := List.mem_map_of_mem (f := Prod.fst) hv
        exact h.1 hmem
      simp [hrest, eq_comm]
    · have hfalse : (key == other) = false := beq_false_of_ne hkey
      simp [hfalse, hkey, ih h.2]

theorem lookup_eq_of_perm {xs ys : List (String × Value)} (h : xs.Perm ys)
    (hkeys : (xs.map Prod.fst).Nodup) (key : String) : xs.lookup key = ys.lookup key := by
  have hkeys' : (ys.map Prod.fst).Nodup := (h.map Prod.fst).nodup hkeys
  apply Option.ext
  intro v
  rw [lookup_eq_some_iff_mem hkeys, lookup_eq_some_iff_mem hkeys', h.mem_iff]

theorem rel_lookup {R : Value → Value → Prop} {xs ys : List (String × Value)}
    (hkeys : xs.map Prod.fst = ys.map Prod.fst)
    (hvalues : List.Forall₂ R (xs.map Prod.snd) (ys.map Prod.snd)) (key : String) :
    Option.Rel R (xs.lookup key) (ys.lookup key) := by
  induction xs generalizing ys with
  | nil =>
    cases ys with
    | nil => exact Option.Rel.none
    | cons f ys => exact absurd hkeys (by simp)
  | cons e xs ih =>
    cases ys with
    | nil => exact absurd hkeys (by simp)
    | cons f ys =>
      obtain ⟨hkey, hkeys⟩ := List.cons.inj hkeys
      obtain ⟨hvalue, hvalues⟩ := List.forall₂_cons.mp hvalues
      rw [List.lookup_cons, List.lookup_cons, ← hkey]
      cases key == e.1 with
      | true => exact Option.Rel.some hvalue
      | false => exact ih hkeys hvalues

namespace Reordered

variable {v w : Value}

theorem isObject (h : v.Reordered w) : v.isObject = w.isObject := by
  cases h <;> rfl

theorem members (h : v.Reordered w) : List.Forall₂ Reordered v.members w.members := by
  cases h with
  | refl => exact List.forall₂_same.mpr fun c _ => refl c
  | list hmembers => exact hmembers
  | tuple hmembers => exact hmembers
  | object order keys values => exact List.Forall₂.nil

theorem children (h : v.Reordered w) :
    Multiset.Rel Reordered (v.children : Multiset Value) w.children := by
  cases h with
  | refl => exact Multiset.rel_refl_of_refl_on fun c _ => refl c
  | list hmembers => exact rel_of_forall₂ hmembers
  | tuple hmembers => exact rel_of_forall₂ hmembers
  | @object xs permuted ys order keys values =>
    have horder : (xs.map Prod.snd : Multiset Value) = permuted.map Prod.snd :=
      Multiset.coe_eq_coe.mpr (order.map Prod.snd)
    simp only [Value.children]
    rw [horder]
    exact rel_of_forall₂ values

theorem get? (h : v.Reordered w) (hkeys : v.keys.Nodup) (key : String) :
    Option.Rel Reordered (v.get? key) (w.get? key) := by
  cases h with
  | refl =>
    cases v.get? key with
    | none => exact Option.Rel.none
    | some c => exact Option.Rel.some (refl c)
  | list hmembers => exact Option.Rel.none
  | tuple hmembers => exact Option.Rel.none
  | object order keys values =>
    simp only [Value.get?]
    rw [lookup_eq_of_perm order hkeys]
    exact rel_lookup keys values key

/-- The inside of a property value is no matter for a comparison. -/
theorem satisfies (h : v.Reordered w) (c : Comparison) (l : Literal) :
    l.satisfies c (some v) = l.satisfies c (some w) := by
  cases h with
  | refl => rfl
  | list hmembers => exact Literal.satisfies_congr_container (Or.inl rfl) (Or.inl rfl) c l
  | tuple hmembers => exact Literal.satisfies_congr_container (Or.inl rfl) (Or.inl rfl) c l
  | object order keys values =>
    exact Literal.satisfies_congr_container (Or.inr rfl) (Or.inr rfl) c l

end Reordered

theorem DistinctKeys.keys {v : Value} (h : v.DistinctKeys) : v.keys.Nodup := by
  cases h with
  | intro own below => exact own

theorem DistinctKeys.of_mem_children {v c : Value} (h : v.DistinctKeys) (hc : c ∈ v.children) :
    c.DistinctKeys := by
  cases h with
  | intro own below => exact below c hc

/-- A value with distinct keys, and one that agrees with it up to the order of entries. -/
def Rearranged (v w : Value) : Prop := v.DistinctKeys ∧ v.Reordered w

namespace Rearranged

variable {v w : Value}

theorem members (h : v.Rearranged w) : List.Forall₂ Rearranged v.members w.members := by
  have hdistinct : ∀ c ∈ v.members, c.DistinctKeys :=
    fun c hc => h.1.of_mem_children ((Segment.members_sublist_children v).subset hc)
  exact (List.forall₂_and_left _ _).mpr ⟨hdistinct, h.2.members⟩

theorem children (h : v.Rearranged w) :
    Multiset.Rel Rearranged (v.children : Multiset Value) w.children :=
  h.2.children.mono fun _ hc _ _ hcd => ⟨h.1.of_mem_children hc, hcd⟩

theorem get? (h : v.Rearranged w) (key : String) :
    Option.Rel Rearranged (v.get? key) (w.get? key) :=
  rel_and_left (h.2.get? h.1.keys key) fun _ hc => h.1.of_mem_children (mem_children_of_get? hc)

theorem holds (h : v.Rearranged w) (c : Condition) : c.holds v = c.holds w := by
  have hrel := h.get? c.property
  rw [Condition.holds, Condition.holds]
  generalize v.get? c.property = actual, w.get? c.property = other at hrel
  cases hrel with
  | none => rfl
  | some hcd => exact hcd.2.satisfies c.comparison c.literal

theorem admits (h : v.Rearranged w) (expression : String) :
    Condition.admits expression v = Condition.admits expression w :=
  Condition.admits_congr h.2.isObject h.holds expression

theorem under (h : v.Rearranged w) (key : String) :
    Multiset.Rel Rearranged (v.under key : Multiset Value) (w.under key) := by
  induction v using childrenInduction generalizing w with
  | step v ih =>
    have hown := rel_of_forall₂ (rel_toList (h.get? key))
    have hbelow : Multiset.Rel Rearranged ((v.children : Multiset Value).bind fun c => c.under key)
        ((w.children : Multiset Value).bind fun c => c.under key) := by
      have hchildren := h.children.mono fun c hc d _ hcd => ih c (Multiset.mem_coe.mp hc) hcd
      exact Multiset.rel_bind (fun _ _ hcd => hcd) hchildren
    rw [under_eq, under_eq, ← Multiset.coe_add, ← Multiset.coe_add, ← Multiset.coe_bind,
      ← Multiset.coe_bind]
    exact hown.add hbelow

theorem slice {xs ys : List Value} (h : List.Forall₂ Rearranged xs ys) (start stop : Option Int) :
    List.Forall₂ Rearranged (Value.slice start stop xs) (Value.slice start stop ys) := by
  rw [Value.slice, Value.slice, h.length_eq]
  exact List.forall₂_drop _ (List.forall₂_take _ h)

end Rearranged
end Value

/-- One step: a segment selects corresponding values from corresponding items. -/
theorem Segment.rel_select (s : Segment) {v w : Value} (h : v.Rearranged w) :
    Multiset.Rel Value.Rearranged ((s.select v).value : Multiset Value) (s.select w).value := by
  cases s with
  | child name => exact rel_of_forall₂ (rel_toList (h.get? name))
  | recursive name =>
    simp only [select, Value.search_eq_under]
    exact h.under name
  | wildcard => exact h.children
  | index position => exact rel_of_forall₂ (forall₂_getElem? h.members position)
  | slice start stop => exact rel_of_forall₂ (Value.Rearranged.slice h.members start stop)
  | key name => exact rel_of_forall₂ (rel_toList (h.get? name))
  | filter expression =>
    simp only [select, Logged.filter_value]
    apply rel_of_forall₂
    refine List.rel_filter ?_ h.members
    intro c d hcd
    simp only [hcd.admits expression]

namespace Evaluation

/-- A run: segments keep working sets in correspondence, by induction from the first segment on. -/
theorem rel_sweep (segments : List Segment) {current other : List Value}
    (h : Multiset.Rel Value.Rearranged (current : Multiset Value) other) :
    Multiset.Rel Value.Rearranged (sweep segments current : Multiset Value)
      (sweep segments other) := by
  induction segments generalizing current other with
  | nil => exact h
  | cons s rest ih =>
    rw [sweep_cons, sweep_cons]
    apply ih
    rw [← Multiset.coe_bind, ← Multiset.coe_bind]
    exact Multiset.rel_bind (fun _ _ hvw => s.rel_select hvw) h

theorem rel_property {document reordered : Value} (h : document.Rearranged reordered)
    (name : String) :
    message? (property reordered name) = message? (property document name) ∧
      Multiset.Rel Value.Rearranged (results (property document name) : Multiset Value)
        (results (property reordered name)) := by
  have hrel := h.get? name
  rw [property, property]
  generalize document.get? name = o, reordered.get? name = o' at hrel
  cases hrel with
  | none => exact ⟨rfl, Multiset.Rel.zero⟩
  | some hvw => exact ⟨rfl, rel_of_forall₂ (List.Forall₂.cons hvw List.Forall₂.nil)⟩

theorem rel_evaluate (trace : Bool) {document reordered : Value}
    (h : document.Rearranged reordered) (path : String) :
    message? (evaluate trace reordered path).value = message? (evaluate trace document path).value ∧
      Multiset.Rel Value.Rearranged (results (evaluate trace document path).value : Multiset Value)
        (results (evaluate trace reordered path).value) := by
  have hroot : Multiset.Rel Value.Rearranged ([document] : Multiset Value) [reordered] :=
    rel_of_forall₂ (List.Forall₂.cons h List.Forall₂.nil)
  rw [evaluate_eq_attemptText, evaluate_eq_attemptText, attemptText_eq, attemptText_eq]
  split_ifs
  · exact ⟨rfl, Multiset.Rel.zero⟩
  · exact ⟨rfl, hroot⟩
  · exact rel_property h _
  · simp only [Logged.map, traverse_value]
    exact ⟨rfl, rel_sweep _ hroot⟩

/-- The order of entries changes only the order of results. Documents that agree up to the order of
the entries of objects have the same error under every path and equally many results, and the
results of the one can be permuted so that each agrees in this way with its counterpart. -/
theorem evaluate_reordered (trace : Bool) {document reordered : Value}
    (hkeys : document.DistinctKeys) (h : document.Reordered reordered) (path : String) :
    let result := (evaluate trace document path).value
    let other := (evaluate trace reordered path).value
    message? other = message? result ∧ (results other).length = (results result).length ∧
      ∃ permuted, permuted.Perm (results result) ∧
        List.Forall₂ Value.Reordered permuted (results other) := by
  intro result other
  obtain ⟨hmessage, hrel⟩ := rel_evaluate trace ⟨hkeys, h⟩ path
  have hreordered : Multiset.Rel Value.Reordered (results result : Multiset Value)
      (results other) := hrel.mono fun _ _ _ _ hvw => hvw.2
  exact ⟨hmessage, (Multiset.card_eq_card_of_rel hrel).symm, exists_forall₂_of_rel hreordered⟩

theorem evaluate_reordered_nested :
    let inner := Value.object [("x", .int 1), ("y", .int 2)]
    let document := Value.object [("a", inner), ("b", .list [.int 3])]
    let reordered :=
      Value.object [("b", .list [.int 3]), ("a", .object [("y", .int 2), ("x", .int 1)])]
    document.DistinctKeys ∧ document.Reordered reordered ∧
    message? (evaluate true reordered "$.*.*").value =
      message? (evaluate true document "$.*.*").value ∧
    (results (evaluate true reordered "$.*.*").value).length =
      (results (evaluate true document "$.*.*").value).length ∧
    ∃ permuted, permuted.Perm (results (evaluate true document "$.*.*").value) ∧
      List.Forall₂ Value.Reordered permuted (results (evaluate true reordered "$.*.*").value) := by
  intro inner document reordered
  have hint : ∀ n, (Value.int n).DistinctKeys :=
    fun n => .intro List.nodup_nil (by simp [Value.int, Value.children])
  have hinner : inner.DistinctKeys := by
    refine .intro (by decide) ?_
    simp [inner, Value.children, hint]
  have hlist : (Value.list [.int 3]).DistinctKeys := by
    refine .intro List.nodup_nil ?_
    simp [Value.children, hint]
  have hkeys : document.DistinctKeys := by
    refine .intro (by decide) ?_
    simp [document, Value.children, hinner, hlist]
  have hswapped : inner.Reordered (.object [("y", .int 2), ("x", .int 1)]) :=
    .object (.swap _ _ _) rfl (List.forall₂_same.mpr fun c _ => .refl c)
  have h : document.Reordered reordered :=
    .object (.swap _ _ _) rfl (.cons (.refl _) (.cons hswapped .nil))
  exact ⟨hkeys, h, evaluate_reordered true hkeys h "$.*.*"⟩

end Evaluation
end PathQuery
