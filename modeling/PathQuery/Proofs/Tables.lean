import Mathlib
import PathQuery.Settings.Origin

/-!
# Tables

A table that is filled from entries holds every name once, in the order of first appearance, with what
its last entry is defined as. So the last name of a kind in the table is the one of the decisive entry
of that kind, and other kinds of names have no part in it.
-/
namespace PathQuery.Settings

namespace Table
variable {α β : Type}

/-! ## Names of one kind -/

theorem filter_define_of_pos {p : List Char → Bool} {name : List Char} (h : p name = true) (a : α)
    (t : Table α) :
    (t.define name a).filter (fun e => p e.1) = define name a (t.filter fun e => p e.1) := by
  induction t with
  | nil => simp [define, h]
  | cons e rest ih =>
    by_cases he : e.1 = name
    · simp [define, he, h]
    · cases hp : p e.1 <;> simp [define, he, hp, ih]

theorem filter_define_of_neg {p : List Char → Bool} {name : List Char} (h : p name = false) (a : α)
    (t : Table α) : (t.define name a).filter (fun e => p e.1) = t.filter fun e => p e.1 := by
  induction t with
  | nil => simp [define, h]
  | cons e rest ih =>
    by_cases he : e.1 = name
    · simp [define, he, h]
    · simp [define, he, ih, List.filter_cons]

theorem fill_append_singleton (value : Table β → α → β) (entries : List (List Char × α))
    (e : List Char × α) :
    fill value (entries ++ [e]) =
      (fill value entries).define e.1 (value (fill value entries) e.2) := by
  simp [fill]

theorem ofList_append_singleton (entries : List (List Char × α)) (e : List Char × α) :
    ofList (entries ++ [e]) = (ofList entries).define e.1 e.2 :=
  fill_append_singleton _ entries e

/-- Definitions of names of one kind are made in the same way without those of other names. -/
theorem filter_ofList (p : List Char → Bool) (entries : List (List Char × α)) :
    (ofList entries).filter (fun e => p e.1) = ofList (entries.filter fun e => p e.1) := by
  induction entries using List.reverseRecOn with
  | nil => rfl
  | append_singleton front e ih =>
    rw [ofList_append_singleton, List.filter_append]
    cases hp : p e.1 with
    | true =>
      have hlast : [e].filter (fun e => p e.1) = [e] := by simp [hp]
      rw [filter_define_of_pos hp, ih, hlast, ofList_append_singleton]
    | false => simp [filter_define_of_neg hp, ih, hp]

theorem findLast?_filter {p q : List Char → Bool} (h : ∀ name, q name = true → p name = true)
    (t : Table α) : findLast? q (t.filter fun e => p e.1) = t.findLast? q := by
  rw [findLast?, findLast?, ← List.filter_reverse, List.find?_filter]
  congr 2
  funext e
  cases hq : q e.1 with
  | true => simp [h _ hq]
  | false => simp

/-! ## What a table holds -/

theorem map_fst_define (name : List Char) (a : α) (t : Table α) :
    (t.define name a).map Prod.fst =
      if name ∈ t.map Prod.fst then t.map Prod.fst else t.map Prod.fst ++ [name] := by
  induction t with
  | nil => simp [define]
  | cons e rest ih =>
    by_cases he : e.1 = name
    · simp [define, he]
    · have hne : name ≠ e.1 := fun h => he h.symm
      simp only [define, he, if_false, List.map_cons, ih, List.mem_cons, hne, false_or]
      split <;> rfl

/-- A name is defined only once, so an entry of that name is the one just defined. -/
theorem mem_define {name : List Char} {a : α} {t : Table α} (ht : (t.map Prod.fst).Nodup)
    {e : List Char × α} (h : e ∈ t.define name a) : e = (name, a) ∨ e.1 ≠ name ∧ e ∈ t := by
  induction t with
  | nil => exact Or.inl (by simpa [define] using h)
  | cons d rest ih =>
    obtain ⟨hd, hrest⟩ := List.nodup_cons.mp ht
    by_cases hname : d.1 = name
    · rw [define, if_pos hname] at h
      rcases List.mem_cons.mp h with h | h
      · exact Or.inl h
      · have hne : e.1 ≠ name := by
          rw [← hname]
          exact fun he => hd (he ▸ List.mem_map_of_mem h)
        exact Or.inr ⟨hne, List.mem_cons_of_mem _ h⟩
    · rw [define, if_neg hname] at h
      rcases List.mem_cons.mp h with rfl | h
      · exact Or.inr ⟨hname, List.mem_cons_self⟩
      · exact (ih hrest h).imp_right fun h => ⟨h.1, List.mem_cons_of_mem _ h.2⟩

section
variable (value : Table β → α → β)

theorem mem_map_fst_fill {entries : List (List Char × α)} {name : List Char} :
    name ∈ (fill value entries).map Prod.fst ↔ name ∈ entries.map Prod.fst := by
  induction entries using List.reverseRecOn with
  | nil => rfl
  | append_singleton front e ih =>
    rw [fill_append_singleton, map_fst_define, List.map_append, List.mem_append, ← ih]
    split
    · rename_i h
      constructor
      · exact Or.inl
      · rintro (hn | hn)
        · exact hn
        · rw [List.mem_singleton.mp hn]
          exact h
    · rw [List.mem_append]
      rfl

/-- Names stand in a table in the order in which they first appear. -/
theorem pairwise_fill (entries : List (List Char × α)) :
    ((fill value entries).map Prod.fst).Pairwise fun first second =>
      (entries.map Prod.fst).idxOf first < (entries.map Prod.fst).idxOf second := by
  induction entries using List.reverseRecOn with
  | nil => exact List.Pairwise.nil
  | append_singleton front e ih =>
    have hidx : ∀ name ∈ (fill value front).map Prod.fst,
        ((front ++ [e]).map Prod.fst).idxOf name = (front.map Prod.fst).idxOf name := by
      intro name hname
      rw [List.map_append, List.idxOf_append_of_mem ((mem_map_fst_fill value).mp hname)]
    have hfront : ((fill value front).map Prod.fst).Pairwise fun first second =>
        ((front ++ [e]).map Prod.fst).idxOf first < ((front ++ [e]).map Prod.fst).idxOf second := by
      refine ih.imp_of_mem fun hf hs h => ?_
      rwa [hidx _ hf, hidx _ hs]
    rw [fill_append_singleton, map_fst_define]
    split
    · exact hfront
    · rename_i hnew
      refine List.pairwise_append.mpr ⟨hfront, List.pairwise_singleton _ _, ?_⟩
      intro name hname other hother
      rw [List.mem_singleton.mp hother, hidx name hname, List.map_append,
        List.idxOf_append_of_notMem (mt (mem_map_fst_fill value).mpr hnew)]
      have hlt := List.idxOf_lt_length_of_mem ((mem_map_fst_fill value).mp hname)
      simpa using hlt

theorem nodup_fill (entries : List (List Char × α)) :
    ((fill value entries).map Prod.fst).Nodup :=
  (pairwise_fill value entries).imp fun h heq => h.ne (by rw [heq])

theorem exists_of_mem_fill {entries : List (List Char × α)} {name : List Char} {b : β}
    (h : (name, b) ∈ fill value entries) :
    ∃ front a back, entries = front ++ (name, a) :: back ∧ (∀ e ∈ back, e.1 ≠ name) ∧
      value (fill value front) a = b := by
  induction entries using List.reverseRecOn with
  | nil => cases h
  | append_singleton init e ih =>
    rw [fill_append_singleton] at h
    rcases mem_define (nodup_fill value init) h with he | ⟨hne, hmem⟩
    · obtain ⟨rfl, rfl⟩ := Prod.mk.inj he
      exact ⟨init, e.2, [], rfl, by simp, rfl⟩
    · obtain ⟨front, a, back, rfl, hlast, hb⟩ := ih hmem
      refine ⟨front, a, back ++ [e], by simp, ?_, hb⟩
      intro d hd
      rcases List.mem_append.mp hd with hd | hd
      · exact hlast d hd
      · rw [List.mem_singleton.mp hd]
        exact Ne.symm hne

end

end Table

/-! ## The decisive entry -/

section
variable {α β : Type} {kind : List Char → Bool} {entries : List (List Char × α)}

theorem Decisive.mem {front back : List (List Char × α)} {name : List Char} {a : α}
    (h : Decisive kind entries front name a back) : (name, a) ∈ entries := by
  rw [h.split]
  exact List.mem_append_right _ List.mem_cons_self

theorem length_le_of_split {front front' back back' : List (List Char × α)} {name : List Char}
    {a a' : α} (h : front ++ (name, a) :: back = front' ++ (name, a') :: back')
    (hlast : ∀ e ∈ back, e.1 ≠ name) : front'.length ≤ front.length := by
  rcases List.append_eq_append_iff.mp h with ⟨inner, hfront, hback⟩ | ⟨inner, hfront, -⟩
  · cases inner with
    | nil => simp [hfront]
    | cons e rest =>
      obtain ⟨-, hback⟩ := List.cons.inj hback
      exact absurd rfl (hlast (name, a') (by simp [hback]))
  · simp [hfront]

/-- A name is last at one place only. -/
theorem eq_of_split {front front' back back' : List (List Char × α)} {name : List Char} {a a' : α}
    (h : front ++ (name, a) :: back = front' ++ (name, a') :: back')
    (hlast : ∀ e ∈ back, e.1 ≠ name) (hlast' : ∀ e ∈ back', e.1 ≠ name) :
    front = front' ∧ a = a' := by
  have hlength : front.length = front'.length :=
    Nat.le_antisymm (length_le_of_split h.symm hlast') (length_le_of_split h hlast)
  obtain ⟨hfront, hrest⟩ := List.append_inj h hlength
  obtain ⟨he, -⟩ := List.cons.inj hrest
  exact ⟨hfront, (Prod.mk.inj he).2⟩

theorem Decisive.unique {front front' back back' : List (List Char × α)} {name name' : List Char}
    {a a' : α} (h : Decisive kind entries front name a back)
    (h' : Decisive kind entries front' name' a' back') : front = front' ∧ a = a' := by
  have hidx := Nat.le_antisymm (h'.latest _ h.mem h.ofKind) (h.latest _ h'.mem h'.ofKind)
  obtain rfl : name = name' := by
    exact (List.idxOf_inj (List.mem_map_of_mem h.mem)).mp hidx
  exact eq_of_split (h.split.symm.trans h'.split) h.last h'.last

/-- In a table whose names stand in the order of `names`, no name of a kind comes behind the last entry
of the kind. -/
theorem idxOf_le_of_last {names : List (List Char)} {t before behind : List (List Char × β)}
    {name : List Char} {b : β} (hsplit : t = before ++ (name, b) :: behind)
    (hpairs : (t.map Prod.fst).Pairwise fun first second => names.idxOf first < names.idxOf second)
    (hbehind : ∀ e ∈ behind, kind e.1 = false) {other : List Char} (hother : other ∈ t.map Prod.fst)
    (hkind : kind other = true) : names.idxOf other ≤ names.idxOf name := by
  rw [hsplit, List.map_append, List.map_cons] at hpairs hother
  rcases List.mem_append.mp hother with hbefore | hrest
  · exact ((List.pairwise_append.mp hpairs).2.2 _ hbefore _ List.mem_cons_self).le
  · rcases List.mem_cons.mp hrest with rfl | hrest
    · exact le_rfl
    · obtain ⟨e, he, rfl⟩ := List.mem_map.mp hrest
      exact absurd hkind (by simp [hbehind e he])

theorem pairwise_idxOf {names : List (List Char)} (h : names.Nodup) :
    names.Pairwise fun first second => names.idxOf first < names.idxOf second := by
  rw [List.pairwise_iff_getElem]
  intro i j hi hj hij
  rwa [h.idxOf_getElem i hi, h.idxOf_getElem j hj]

/-- Where no name is repeated, the decisive entry is simply the last of the kind. -/
theorem decisive_iff_of_nodup (hnames : (entries.map Prod.fst).Nodup)
    {front back : List (List Char × α)} {name : List Char} {a : α} :
    Decisive kind entries front name a back ↔
      entries = front ++ (name, a) :: back ∧ kind name = true ∧ ∀ e ∈ back, kind e.1 = false := by
  have hpairs := pairwise_idxOf hnames
  constructor
  · intro h
    refine ⟨h.split, h.ofKind, fun e he => ?_⟩
    by_contra hkind
    have hlatest := h.latest e (by simp [h.split, he]) (by simpa using hkind)
    have hbehind : [name, e.1].Sublist (entries.map Prod.fst) := by
      rw [h.split, List.map_append, List.map_cons]
      have hback : [e.1].Sublist (back.map Prod.fst) :=
        List.singleton_sublist.mpr (List.mem_map_of_mem he)
      exact (hback.cons_cons name).trans (List.sublist_append_right _ _)
    have horder := hpairs.sublist hbehind
    exact absurd (List.pairwise_pair.mp horder) hlatest.not_gt
  · rintro ⟨hsplit, hkind, hback⟩
    refine ⟨hsplit, hkind, fun e he hname => ?_, fun e he hk => ?_⟩
    · exact absurd hkind (by simp [← hname, hback e he])
    · exact idxOf_le_of_last hsplit hpairs hback (List.mem_map_of_mem he) hk

/-- The last entry of a kind in a table comes from the decisive entry. -/
theorem exists_decisive {value : Table β → α → β} {b : β}
    (h : (Table.fill value entries).findLast? kind = some b) :
    ∃ front name a back, Decisive kind entries front name a back ∧
      value (Table.fill value front) a = b := by
  obtain ⟨⟨name, c⟩, hfind, rfl⟩ := Option.map_eq_some_iff.mp h
  obtain ⟨hkind, behind, before, hsplit, hbehind⟩ := List.find?_eq_some_iff_append.mp hfind
  have htable : Table.fill value entries = before.reverse ++ (name, c) :: behind.reverse := by
    simpa using congrArg List.reverse hsplit
  have hmem : (name, c) ∈ Table.fill value entries := by simp [htable]
  obtain ⟨front, a, back, hentries, hlast, hb⟩ := Table.exists_of_mem_fill value hmem
  refine ⟨front, name, a, back, ⟨hentries, hkind, hlast, fun e he hk => ?_⟩, hb⟩
  have hname : e.1 ∈ (Table.fill value entries).map Prod.fst :=
    (Table.mem_map_fst_fill value).mpr (List.mem_map_of_mem he)
  exact idxOf_le_of_last htable (Table.pairwise_fill value entries) (by simpa using hbehind) hname hk

theorem findLast?_fill_eq_none_iff {value : Table β → α → β} :
    (Table.fill value entries).findLast? kind = none ↔ ∀ e ∈ entries, kind e.1 = false := by
  have hnames : (∀ name ∈ (Table.fill value entries).map Prod.fst, kind name = false) ↔
      ∀ name ∈ entries.map Prod.fst, kind name = false :=
    forall_congr' fun name => imp_congr_left (Table.mem_map_fst_fill value)
  rw [List.forall_mem_map, List.forall_mem_map] at hnames
  rw [← hnames]
  simp [Table.findLast?]

theorem findLast?_fill_eq_some_iff {value : Table β → α → β} {b : β} :
    (Table.fill value entries).findLast? kind = some b ↔
      ∃ front name a back, Decisive kind entries front name a back ∧
        value (Table.fill value front) a = b := by
  refine ⟨exists_decisive, ?_⟩
  rintro ⟨front, name, a, back, hdecisive, rfl⟩
  cases hlast : (Table.fill value entries).findLast? kind with
  | none =>
    have hnone := findLast?_fill_eq_none_iff.mp hlast _ hdecisive.mem
    simp [hdecisive.ofKind] at hnone
  | some c =>
    obtain ⟨front', name', a', back', hdecisive', rfl⟩ := exists_decisive hlast
    obtain ⟨rfl, rfl⟩ := hdecisive.unique hdecisive'
    rfl

end

/-! ## Environments and files -/

section
variable {kind : List Char → Bool}

theorem findLast?_known_eq_none_iff {environment : List (String × String)} :
    (known environment).findLast? kind = none ↔ ∀ e ∈ bindings environment, kind e.1 = false := by
  rw [known, Table.ofList, findLast?_fill_eq_none_iff]

theorem findLast?_known_eq_some_iff {environment : List (String × String)} {text : List Char} :
    (known environment).findLast? kind = some text ↔
      ∃ front name back, Decisive kind (bindings environment) front name text back := by
  rw [known, Table.ofList, findLast?_fill_eq_some_iff]
  constructor
  · rintro ⟨front, name, a, back, hdecisive, rfl⟩
    exact ⟨front, name, back, hdecisive⟩
  · rintro ⟨front, name, back, hdecisive⟩
    exact ⟨front, name, text, back, hdecisive, rfl⟩

theorem findLast?_resolve_eq_none_iff {environment : Table (List Char)}
    {definitions : List Dotenv.Definition} :
    (resolve environment definitions).findLast? kind = none ↔ ∀ d ∈ definitions, kind d.1 = false :=
  findLast?_fill_eq_none_iff

theorem findLast?_resolve_eq_some_iff {environment : Table (List Char)}
    {definitions : List Dotenv.Definition} {result : Option (List Char)} :
    (resolve environment definitions).findLast? kind = some result ↔
      ∃ front name value back, Decisive kind definitions front name value back ∧
        value.map (expand (lookUp environment (resolve environment front))) = result :=
  findLast?_fill_eq_some_iff

end

end PathQuery.Settings
