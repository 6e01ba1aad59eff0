import Mathlib
import PathQuery.Settings.Environment

/-!
# Files without references

A reference begins with a dollar sign. A value that is read from a file has no characters but those of the
file and those that escapes stand for, and none of these is a dollar sign. So a file without one defines
values without references, and to resolve them is to take them as they are.
-/
namespace PathQuery.Settings

theorem expand_of_notMem (look : List Char → Option (Option (List Char))) {s : List Char}
    (h : '$' ∉ s) : expand look s = s := by
  induction s with
  | nil => rw [expand]
  | cons c s ih =>
    have hc : c ≠ '$' := fun hc => h (by simp [hc])
    have hs : '$' ∉ s := fun hs => h (List.mem_cons_of_mem c hs)
    rw [expand, if_neg fun href => hc href.1, ih hs]

namespace Dotenv
open Text

/-- Whether a reading holds no dollar sign: neither what it has read, as a property says, nor what is
left behind it. -/
def Reading.IsPlain {α : Type} (plain : α → Prop) (r : Reading α) : Prop :=
  match r with
  | .ok (a, tail) => plain a ∧ '$' ∉ tail
  | .error stop => '$' ∉ stop

theorem notMem_dropWhile {s : List Char} (h : '$' ∉ s) (p : Char → Bool) : '$' ∉ s.dropWhile p :=
  mt (List.dropWhile_sublist p).mem h

theorem notMem_takeWhile {s : List Char} (h : '$' ∉ s) (p : Char → Bool) : '$' ∉ s.takeWhile p :=
  mt (List.takeWhile_sublist p).mem h

theorem notMem_trim {s : List Char} (h : '$' ∉ s) (p : Char → Bool) : '$' ∉ trim p s := by
  intro ht
  have hd : '$' ∈ (s.dropWhile p).reverse :=
    (List.dropWhile_sublist p).mem (List.mem_reverse.mp ht)
  exact notMem_dropWhile h p (List.mem_reverse.mp hd)

theorem notMem_dropMark {s : List Char} (h : '$' ∉ s) : '$' ∉ dropMark s := by
  unfold dropMark
  split
  · exact fun hs => h (List.mem_cons_of_mem _ hs)
  · exact h

theorem notMem_unifyLines {s : List Char} (h : '$' ∉ s) : '$' ∉ unifyLines s := by
  fun_induction unifyLines s with
  | case1 s ih => simp_all
  | case2 s _ ih => simp_all
  | case3 c s _ _ ih => simp_all
  | case4 => exact h

theorem notMem_dropExport {s : List Char} (h : '$' ∉ s) : '$' ∉ dropExport s := by
  simp only [dropExport]
  split
  · exact notMem_dropWhile (mt List.mem_of_mem_drop h) _
  · exact h

theorem readPlainKey_isPlain {s : List Char} (h : '$' ∉ s) :
    (readPlainKey s).IsPlain fun _ => True := by
  unfold readPlainKey
  split
  · exact h
  · exact ⟨trivial, notMem_dropWhile h _⟩

theorem readKey_isPlain {s : List Char} (h : '$' ∉ s) : (readKey s).IsPlain fun _ => True := by
  have htail : '$' ∉ s.tail := mt List.mem_of_mem_tail h
  unfold readKey
  split
  · dsimp only
    split
    · exact h
    · exact ⟨trivial, mt List.mem_of_mem_tail (notMem_dropWhile htail _)⟩
  · exact readPlainKey_isPlain h

/-! ## Values -/

theorem eq_append_of_splitQuoted {mark : Char} {s : List Char} {p : List Char × List Char}
    (h : splitQuoted mark s = some p) : s = p.1 ++ mark :: p.2 := by
  fun_induction splitQuoted mark s generalizing p with
  | case1 => cases h
  | case2 s =>
    cases h
    rfl
  | case3 => cases h
  | case4 d t _ ih =>
    obtain ⟨q, hq, rfl⟩ := Option.map_eq_some_iff.mp h
    rw [ih hq]
    rfl
  | case5 c s _ _ ih =>
    obtain ⟨q, hq, rfl⟩ := Option.map_eq_some_iff.mp h
    rw [ih hq]
    rfl

theorem notMem_unescape {escapes : List (Char × Char)} (he : ∀ e ∈ escapes, e.2 ≠ '$')
    {s : List Char} (h : '$' ∉ s) : '$' ∉ unescape escapes s := by
  fun_induction unescape escapes s with
  | case1 => exact h
  | case2 => exact h
  | case3 d t e hd ih =>
    obtain ⟨front, back, hsplit, -⟩ := List.lookup_eq_some_iff.mp hd
    have hne : e ≠ '$' := he (d, e) (by simp [hsplit])
    simp_all [eq_comm]
  | case4 d t hd ih => simp_all
  | case5 c s hc ih => simp_all

theorem ne_dollar_of_mem_escapes {mark : Char} : ∀ e ∈ escapes mark, e.2 ≠ '$' := by
  unfold escapes
  split <;> decide

theorem readQuoted_isPlain {mark : Char} {s : List Char} (h : '$' ∉ mark :: s) :
    (readQuoted mark s).IsPlain ('$' ∉ ·) := by
  unfold readQuoted
  split
  · rename_i p hp
    have hs : '$' ∉ p.1 ++ mark :: p.2 := by
      rw [← eq_append_of_splitQuoted hp]
      exact fun hs => h (List.mem_cons_of_mem mark hs)
    refine ⟨notMem_unescape ne_dollar_of_mem_escapes fun hc => ?_, fun hc => ?_⟩
    · exact hs (List.mem_append_left _ hc)
    · exact hs (List.mem_append_right _ (List.mem_cons_of_mem mark hc))
  · exact h

theorem beforeNote_sublist (s : List Char) : (beforeNote s).Sublist s := by
  induction s with
  | nil => exact List.Sublist.refl _
  | cons c s ih =>
    rw [beforeNote]
    split
    · exact List.nil_sublist _
    · exact ih.cons_cons c

theorem readPlain_isPlain {s : List Char} (h : '$' ∉ s) : (readPlain s).IsPlain ('$' ∉ ·) :=
  ⟨notMem_trim (mt (beforeNote_sublist _).mem (notMem_takeWhile h _)) _, notMem_dropWhile h _⟩

theorem readContent_isPlain {s : List Char} (h : '$' ∉ s) : (readContent s).IsPlain ('$' ∉ ·) := by
  have hs : '$' ∉ skipInline s := notMem_dropWhile h _
  unfold readContent
  split
  · exact readPlain_isPlain h
  · rename_i c rest hr
    split
    · exact readQuoted_isPlain (hr ▸ hs)
    · exact readPlain_isPlain h

theorem readValue_isPlain {s : List Char} (h : '$' ∉ s) :
    (readValue s).IsPlain fun value => ∀ t ∈ value, '$' ∉ t := by
  unfold readValue
  split
  · rename_i rest
    have hrest := readContent_isPlain (s := rest) fun hr => h (List.mem_cons_of_mem _ hr)
    split
    · rename_i content tail hc
      rw [hc] at hrest
      exact ⟨by simpa using hrest.1, hrest.2⟩
    · rename_i stop hc
      rw [hc] at hrest
      exact hrest
  · exact ⟨by simp, h⟩

/-! ## Definitions -/

theorem notMem_dropNote {s : List Char} (h : '$' ∉ s) : '$' ∉ dropNote s := by
  unfold dropNote
  split
  · exact notMem_dropWhile h _
  · exact h

theorem notMem_of_readLineEnd {s tail : List Char} (h : '$' ∉ s) (ht : readLineEnd s = .ok tail) :
    '$' ∉ tail := by
  have hs : '$' ∉ skipInline s := notMem_dropWhile h _
  unfold readLineEnd at ht
  split at ht
  · cases ht
    exact List.not_mem_nil
  · rename_i rest hr
    cases ht
    rw [hr] at hs
    exact fun hc => hs (List.mem_cons_of_mem _ hc)
  · cases ht

theorem readDefinition_isPlain {s : List Char} (h : '$' ∉ s) :
    (readDefinition s).IsPlain fun d => ∀ t ∈ d.2, '$' ∉ t := by
  have hkey := readKey_isPlain h
  unfold readDefinition
  split
  · rename_i stop hk
    rw [hk] at hkey
    exact hkey
  · rename_i key afterKey hk
    rw [hk] at hkey
    have hvalue := readValue_isPlain (notMem_dropWhile hkey.2 isInlineBlank)
    split
    · rename_i stop hv
      rw [skipInline] at hv
      rw [hv] at hvalue
      exact hvalue
    · rename_i value afterValue hv
      rw [skipInline] at hv
      rw [hv] at hvalue
      have hend : '$' ∉ dropNote afterValue := notMem_dropNote hvalue.2
      split
      · rename_i stop he
        rw [readLineEnd_error he]
        exact hend
      · rename_i tail he
        exact ⟨hvalue.1, notMem_of_readLineEnd hend he⟩

theorem notMem_of_mem_definitions {s : List Char} (h : '$' ∉ s) :
    ∀ d ∈ definitions s, ∀ t ∈ d.2, '$' ∉ t := by
  fun_induction definitions s with
  | case1 => simp
  | case2 s c rest hs d tail hd ih =>
    have hfront : '$' ∉ c :: rest := hs ▸ notMem_dropWhile h isBlank
    have hplain := readDefinition_isPlain (notMem_dropExport hfront)
    rw [hd] at hplain
    intro e he
    rcases List.mem_cons.mp he with rfl | he
    · exact hplain.1
    · exact ih hplain.2 e he
  | case3 s c rest hs stop hd ih =>
    have hfront : '$' ∉ c :: rest := hs ▸ notMem_dropWhile h isBlank
    have hplain := readDefinition_isPlain (notMem_dropExport hfront)
    rw [hd] at hplain
    exact ih (mt List.mem_of_mem_drop (notMem_dropWhile hplain _))

/-- A reader that finds a dollar sign in a value only where the file has one. -/
def Reader.AddsNoReference (read : Reader) : Prop :=
  ∀ s : String, '$' ∉ s.toList → ∀ d ∈ read s, ∀ t ∈ d.2, '$' ∉ t

theorem addsNoReference_ofText : Reader.AddsNoReference ofText :=
  fun _ h => notMem_of_mem_definitions (notMem_unifyLines (notMem_dropMark h))

end Dotenv

theorem map_expand_of_notMem (look : List Char → Option (Option (List Char)))
    {value : Option (List Char)} (h : ∀ t ∈ value, '$' ∉ t) : value.map (expand look) = value := by
  cases value with
  | none => rfl
  | some t => rw [Option.map_some, expand_of_notMem look (h t rfl)]

/-- Values without references are resolved as they are, whatever the environment is. -/
theorem resolve_of_notMem (environment : Table (List Char)) {definitions : List Dotenv.Definition}
    (h : ∀ d ∈ definitions, ∀ t ∈ d.2, '$' ∉ t) :
    resolve environment definitions = Table.ofList definitions := by
  rw [resolve, Table.ofList, Table.fill, Table.fill]
  refine List.foldl_ext _ _ _ fun above d hd => ?_
  rw [map_expand_of_notMem _ (h d hd)]

end PathQuery.Settings
