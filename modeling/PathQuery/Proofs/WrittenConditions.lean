import Mathlib
import PathQuery.Proofs.Admission
import PathQuery.Proofs.RoundTrip

/-!
# Conditions written out

A comparison of a property with a literal is written between the mark and the parentheses of a
filter, with a space on either side of the operator. Whatever the text of the literal is, nothing in
it is taken for another comparison or for a longer operator: the expression is read as the property,
the operator and the literal that it was made of. A filter without brackets and colons in it is the
only segment of the path that holds it.
-/
namespace PathQuery

theorem Value.isObject_of_get? {v w : Value} {key : String} (h : v.get? key = some w) :
    v.isObject = true := by
  cases v with
  | object entries => rfl
  | _ => exact absurd h (by simp [get?])

namespace Literal
open Text

/-- The literal between two quotes: a number where it reads as one, and the text itself otherwise. -/
theorem read_enclosed {opening closing : Char} (ho : isQuote opening = true)
    (hc : isQuote closing = true) (s : List Char) :
    read (opening :: (s ++ [closing])) =
      ((Number.read? s).map number).getD (text (String.ofList s)) := by
  have htrim := trim_enclosed (isBlank_of_isQuote ho) (isBlank_of_isQuote hc) s
  simp only [read, htrim, stripQuotes_enclosed ho hc]
  cases Number.read? s <;> rfl

end Literal

namespace Condition
open Text

/-- A name as conditions have them: ASCII letters, digits and underscores, at least one. -/
def IsWord (name : String) : Prop := name ≠ "" ∧ ∀ c ∈ name.toList, isWordChar c = true

def written (property : String) (o : Comparison) (literal : String) : String :=
  "?(@." ++ property ++ " " ++ o.symbol ++ " " ++ literal ++ ")"

theorem toList_written (property : String) (o : Comparison) (literal : String) :
    (written property o literal).toList = '?' :: '(' :: '@' :: '.' :: (property.toList ++
      ([' '] ++ (o.symbol.toList ++ ' ' :: (literal.toList ++ [')'])))) := by
  simp [written]

theorem notMem_written {property literal : String} (hp : IsWord property) {o : Comparison}
    {c : Char} (hword : isWordChar c = false) (hl : c ∉ literal.toList)
    (hc : c ∉ "?(@. )".toList ++ o.symbol.toList) : c ∉ (written property o literal).toList := by
  have hproperty : c ∉ property.toList := by
    intro hmem
    rw [hp.2 c hmem] at hword
    exact absurd hword (by decide)
  have hmarks : c ≠ '?' ∧ c ≠ '(' ∧ c ≠ '@' ∧ c ≠ '.' ∧ c ≠ ' ' ∧ c ≠ ')' ∧
      c ∉ o.symbol.toList := by simpa using hc
  obtain ⟨hmark, hopen, hat, hdot, hspace, hclose, hsymbol⟩ := hmarks
  simp [toList_written, hmark, hopen, hat, hdot, hspace, hclose, hsymbol, hproperty, hl]

theorem body_written (property : String) (o : Comparison) (literal : String) :
    body (written property o literal).toList = '@' :: '.' :: (property.toList ++
      ([' '] ++ (o.symbol.toList ++ ' ' :: literal.toList))) := by
  have hinner : '@' :: '.' :: (property.toList ++
      ([' '] ++ (o.symbol.toList ++ ' ' :: (literal.toList ++ [')'])))) =
      '@' :: '.' :: (property.toList ++ ([' '] ++ (o.symbol.toList ++ ' ' :: literal.toList))) ++
        [')'] := by simp
  rw [toList_written, body, hinner, List.getLast?_concat, if_pos rfl,
    List.dropLast_concat]

theorem space_notMem_symbol (o : Comparison) : ' ' ∉ o.symbol.toList := by
  have hall : ∀ o ∈ Comparison.all, ' ' ∉ o.symbol.toList := by decide
  exact hall o o.mem_all

/-- An operator in front of a space is not the beginning of a longer one. -/
theorem symbol_length_le_of_space {o o' : Comparison} {rest rest' : List Char}
    (h : o.symbol.toList ++ ' ' :: rest = o'.symbol.toList ++ rest') :
    o'.symbol.length ≤ o.symbol.length := by
  simp only [← String.length_toList]
  rcases List.append_eq_append_iff.mp h with ⟨more, hmore, hspace⟩ | ⟨more, hmore, -⟩
  · cases more with
    | nil => rw [hmore, List.append_nil]
    | cons c more =>
      obtain rfl : ' ' = c := (List.cons.inj hspace).1
      exact absurd (by simp [hmore]) (space_notMem_symbol o')
  · rw [hmore, List.length_append]
    omega

/-- The place at which the comparison of an expression is written. -/
theorem written_body {property : String} (hp : IsWord property) (o : Comparison)
    (literal : String) :
    Written (body (written property o literal).toList) property.toList [' '] o
      (' ' :: literal.toList) := by
  obtain ⟨c, tail, hsymbol, -, hblank⟩ := head_of_mem_operators (symbol_mem_operators o)
  constructor
  · exact body_written property o literal
  · exact fun he => hp.1 (String.toList_eq_nil_iff.mp he)
  · exact hp.2
  · simp [isWordChar]
  · simp [isAsciiBlank, inRanges]
  · simpa [hsymbol] using hblank
  · exact ⟨' ', by simp, by decide⟩

theorem preferred_body {property : String} (hp : IsWord property) (o : Comparison)
    (literal : String) :
    Preferred (body (written property o literal).toList) property.toList o
      (' ' :: literal.toList) := by
  have hwritten := written_body hp o literal
  refine ⟨⟨[' '], hwritten⟩, ?_⟩
  rcases symbol_length o with hone | htwo
  · right
    intro word blanks o' rest hw
    obtain ⟨tail, htail, -, -, hoperator, -⟩ := written_iff.mp ⟨_, hwritten⟩
    obtain ⟨tail', htail', -, -, hoperator', -⟩ := written_iff.mp ⟨_, hw⟩
    obtain rfl : tail = tail' := by simpa using htail.symm.trans htail'
    have hle := symbol_length_le_of_space (hoperator.symm.trans hoperator')
    have hlength := symbol_length o'
    omega
  · exact Or.inl htwo

theorem literalText_eq_self {s : List Char} (hblank : ∀ c ∈ s.head?, isAsciiBlank c = false)
    (hfeed : '\n' ∉ s) : literalText s = s := by
  have hdrop : s.dropWhile isAsciiBlank = s := by
    cases s with
    | nil => rfl
    | cons c s => rw [List.dropWhile_cons_of_neg (by simpa using hblank)]
  rw [literalText, hdrop, List.takeWhile_eq_self_iff]
  intro c hc
  have hne : c ≠ '\n' := fun he => hfeed (he ▸ hc)
  simpa using hne

theorem literalText_enclosed {opening closing : Char} (ho : isQuote opening = true)
    (hc : isQuote closing = true) {s : List Char} (hs : '\n' ∉ s) :
    literalText (opening :: (s ++ [closing])) = opening :: (s ++ [closing]) := by
  have hnot : ∀ c, isQuote c = true → '\n' ≠ c := by
    rintro c hquote rfl
    exact absurd hquote (by decide)
  apply literalText_eq_self
  · simpa using isAsciiBlank_eq_false (isBlank_of_isQuote ho)
  · simp [hs, hnot opening ho, hnot closing hc]

theorem read_written {property : String} (hp : IsWord property) (o : Comparison)
    (literal : String) :
    read (written property o literal) =
      .ok ⟨property, o, Literal.read (literalText literal.toList)⟩ := by
  refine read_eq_ok_iff.mpr ⟨[], _, property.toList, o, ' ' :: literal.toList, rfl, ?_,
    preferred_body hp o literal, ?_⟩
  · exact fun _ _ _ _ => Nat.zero_le _
  · have hspace : literalText (' ' :: literal.toList) = literalText literal.toList := rfl
    rw [hspace, String.ofList_toList]

/-- An object is admitted by a written condition when its property satisfies the comparison. -/
theorem admits_written_object {property : String} (hp : IsWord property) (o : Comparison)
    (literal : String) {item : Value} (ho : item.isObject = true) :
    (admits (written property o literal) item).value =
      (Literal.read (literalText literal.toList)).satisfies o (item.get? property) := by
  rw [admits_of_read (read_written hp o literal), ho, holds, Bool.not_true, Bool.false_or]

theorem admits_written {property : String} (hp : IsWord property) (o : Comparison)
    (literal : String) {item v : Value} (hv : item.get? property = some v) :
    (admits (written property o literal) item).value =
      (Literal.read (literalText literal.toList)).satisfies o (some v) := by
  rw [admits_written_object hp o literal (Value.isObject_of_get? hv), hv]

end Condition

namespace Evaluation
open Text PathQuery.Path

/-- The path of a single filter. -/
theorem evaluate_filter {expression : String} (hmark : expression.toList.head? = some '?')
    (hbracket : ']' ∉ expression.toList) (hcolon : ':' ∉ expression.toList) (trace : Bool)
    (document : Value) :
    (evaluate trace document ("$[" ++ expression ++ "]")).value =
      .ok (document.members.filter fun item => (Condition.admits expression item).value) := by
  have hpath : "$[" ++ expression ++ "]" = ofTokens [.bracket expression.toList] := by
    rw [← String.toList_inj, toList_ofTokens]
    simp [Token.text]
  have hne : expression.toList ≠ [] := by
    intro he
    rw [he] at hmark
    exact absurd hmark (by simp)
  have hw : ∀ t ∈ [Token.bracket expression.toList], t.WellFormed := by
    intro t ht
    rw [List.mem_singleton.mp ht]
    exact ⟨hne, hbracket⟩
  have hend : ∀ c ∈ (ofTokens ([] ++ [.bracket expression.toList])).toList.getLast?,
      isBlank c = false := by
    rw [getLast?_ofTokens_concat]
    exact Token.isBlank_of_getLast?_bracket _
  rw [hpath, evaluate_ofTokens_value hw hend, List.map_singleton, Segment.ofToken,
    Segment.ofContent_mark hmark hcolon, String.ofList_toList, sweep_cons, List.flatMap_singleton]
  exact congrArg Except.ok (Logged.filter_value _ _)

end Evaluation
end PathQuery
