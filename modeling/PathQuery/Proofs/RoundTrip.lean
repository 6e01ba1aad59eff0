import Mathlib
import PathQuery.Proofs.Backtracking
import PathQuery.Proofs.Composition
import PathQuery.Proofs.NumberText

/-!
# Paths read back what they write

The segments that some path is read as are described by their fields alone. Each of them is written
as one token that is read as this segment again, and tokens that stand side by side do not merge, so
paths and lists of such segments correspond.
-/
namespace PathQuery

namespace Segment
open Number Text

/-- Whether a segment is read from some token. -/
def Representable : Segment → Prop
  | child name => Token.IsName name.toList ∧ name ≠ "*"
  | recursive name => Token.IsName name.toList
  | wildcard => True
  | index position => IsExact position
  | slice start stop => (∀ n ∈ start, IsExact n.natAbs) ∧ ∀ n ∈ stop, IsExact n.natAbs
  | key name => ']' ∉ name.toList ∧ ':' ∉ name.toList
  | filter expression =>
    expression.toList.head? = some '?' ∧ ']' ∉ expression.toList ∧ ':' ∉ expression.toList

instance : DecidablePred Representable
  | child _ => inferInstanceAs (Decidable (_ ∧ _))
  | recursive _ => inferInstanceAs (Decidable (Token.IsName _))
  | wildcard => inferInstanceAs (Decidable True)
  | index _ => inferInstanceAs (Decidable (IsExact _))
  | slice _ _ => inferInstanceAs (Decidable (_ ∧ _))
  | key _ => inferInstanceAs (Decidable (_ ∧ _))
  | filter _ => inferInstanceAs (Decidable (_ ∧ _ ∧ _))

/-! ## Content in brackets -/

theorem ne_star_of_isDigits {content : List Char} (h : isDigits content = true) :
    content ≠ ['*'] := by
  rintro rfl
  exact absurd h (by decide)

theorem isDigits_eq_false_of_mem {content : List Char} {c : Char} (hc : c ∈ content)
    (h : c.isDigit = false) : isDigits content = false := by
  rw [Bool.eq_false_iff]
  intro hdigits
  rw [mem_isDigit_of_isDigits hdigits c hc] at h
  exact absurd h (by decide)

theorem ofContent_digits {content : List Char} (h : isDigits content = true) :
    ofContent content = index (saturatedValue content) := by
  rw [ofContent, if_neg (ne_star_of_isDigits h), if_pos h]

theorem ofContent_colon {content : List Char} (h : ':' ∈ content) :
    ofContent content =
      slice (readBound? (splitColons content).1) (readBound? (splitColons content).2) := by
  have hstar : content ≠ ['*'] := by
    rintro rfl
    exact absurd h (by decide)
  have hdigits : isDigits content = false := isDigits_eq_false_of_mem h (by decide)
  rw [ofContent, if_neg hstar, hdigits, if_neg (by decide), if_pos (by simpa using h)]

theorem ofContent_mark {content : List Char} (h : content.head? = some '?') (hc : ':' ∉ content) :
    ofContent content = filter (String.ofList content) := by
  have hmem : '?' ∈ content := List.mem_of_head? h
  have hstar : content ≠ ['*'] := by
    rintro rfl
    exact absurd h (by decide)
  have hdigits : isDigits content = false := isDigits_eq_false_of_mem hmem (by decide)
  rw [ofContent, if_neg hstar, hdigits, if_neg (by decide), if_neg (by simpa using hc), if_pos h]

theorem ofContent_quoted {name : List Char} (h : ':' ∉ name) :
    ofContent (apostrophe :: name ++ [apostrophe]) = key (String.ofList name) := by
  have hstar : apostrophe :: name ++ [apostrophe] ≠ ['*'] := by simp
  have hdigits : isDigits (apostrophe :: name ++ [apostrophe]) = false :=
    isDigits_eq_false_of_mem (c := apostrophe) (by simp) (by decide)
  have hcolon : ':' ≠ apostrophe := by decide
  have hmark : (apostrophe :: name ++ [apostrophe]).head? ≠ some '?' := by
    simp [show apostrophe ≠ '?' by decide]
  rw [ofContent, if_neg hstar, hdigits, if_neg (by decide), if_neg (by simp [h, hcolon]),
    if_neg hmark, List.cons_append, stripQuotes_enclosed (by decide) (by decide)]

/-! ## Bounds of a slice -/

theorem readBound?_sign_append (negative : Bool) {digits : List Char} (h : isDigits digits = true) :
    readBound? ((if negative then ['-'] else []) ++ digits) =
      some (applySign negative (saturatedValue digits)) := by
  have hd := mem_isDigit_of_isDigits h
  have hall : digits.takeWhile Char.isDigit = digits := List.takeWhile_eq_self_iff.mpr hd
  cases negative with
  | true =>
    have hblank : isBlank '-' = false := by decide
    simp [readBound?, hblank, splitSign, hall]
  | false =>
    cases digits with
    | nil => exact absurd h (by decide)
    | cons c rest =>
      have hblank : isBlank c = false := isBlank_of_isDigit (hd c (by simp))
      simp only [Bool.false_eq_true, if_false, List.nil_append, readBound?, List.isEmpty_cons,
        List.dropWhile_cons, hblank, splitSign_digits hd, hall]

theorem readBound?_boundText {bound : Option Int} (h : ∀ n ∈ bound, IsExact n.natAbs) :
    readBound? (boundText bound) = bound := by
  cases bound with
  | none => rfl
  | some n =>
    have hsign := readBound?_sign_append (decide (n < 0)) (isDigits_toDigits n.natAbs)
    simp only [decide_eq_true_eq, saturatedValue_toDigits (h n rfl)] at hsign
    rw [boundText, integerText, hsign, applySign_natAbs]

theorem isExact_of_mem_readBound? {s : List Char} : ∀ n ∈ readBound? s, IsExact n.natAbs := by
  intro n hn
  unfold readBound? at hn
  split at hn
  · exact absurd hn (by simp)
  · have hd : ∀ c ∈ (splitSign (s.dropWhile isBlank)).2.takeWhile Char.isDigit, c.isDigit = true :=
      fun c hc => List.mem_takeWhile_imp hc
    have hexact := isExact_saturatedValue hd
    simp only [Option.mem_def, Option.some.injEq] at hn
    subst hn
    unfold applySign
    split <;> simpa using hexact

theorem isDigit_or_minus_of_mem_boundText {bound : Option Int} {c : Char}
    (h : c ∈ boundText bound) : c.isDigit = true ∨ c = '-' := by
  cases bound with
  | none => exact absurd h (by simp [boundText])
  | some n => exact isDigit_or_minus_of_mem_integerText h

theorem notMem_boundText {bound : Option Int} {c : Char} (hd : c.isDigit = false) (hm : c ≠ '-') :
    c ∉ boundText bound := by
  intro h
  rcases isDigit_or_minus_of_mem_boundText h with h | h
  · rw [h] at hd
    exact absurd hd (by decide)
  · exact hm h

theorem splitColons_append_append {start stop rest : List Char} (hstart : ':' ∉ start)
    (hstop : ':' ∉ stop) (hrest : ∀ c ∈ rest.head?, c = ':') :
    splitColons (start ++ ':' :: (stop ++ rest)) = (start, stop) := by
  have hfree : ∀ {s : List Char}, ':' ∉ s → ∀ c ∈ s, (c != ':') = true := by
    intro s hs c hc
    have hne : c ≠ ':' := fun he => hs (he ▸ hc)
    simpa using hne
  have hcolon : ∀ c ∈ (':' :: (stop ++ rest)).head?, (c != ':') = false := by simp
  have hend : ∀ c ∈ rest.head?, (c != ':') = false := by simpa using hrest
  obtain ⟨htake, hdrop⟩ := takeWhile_of_longest (hfree hstart) hcolon
  rw [splitColons, htake, hdrop, List.drop_one, List.tail_cons,
    (takeWhile_of_longest (hfree hstop) hend).1]

theorem splitColons_append {start stop : List Char} (hstart : ':' ∉ start) (hstop : ':' ∉ stop) :
    splitColons (start ++ ':' :: stop) = (start, stop) := by
  have hnone : ∀ c ∈ ([] : List Char).head?, c = ':' := by simp
  simpa using splitColons_append_append hstart hstop hnone

/-! ## Segments and tokens -/

theorem wellFormed_token {s : Segment} (h : s.Representable) : s.token.WellFormed := by
  cases s with
  | child name => exact h.1
  | recursive name => exact h
  | wildcard => exact ⟨by simp, by simp⟩
  | index position =>
    refine ⟨Nat.toDigits_ne_nil, fun hc => ?_⟩
    exact absurd (mem_isDigit_of_isDigits (isDigits_toDigits position) _ hc) (by decide)
  | slice start stop =>
    refine ⟨by simp, ?_⟩
    have hstart : ']' ∉ boundText start := notMem_boundText (by decide) (by decide)
    have hstop : ']' ∉ boundText stop := notMem_boundText (by decide) (by decide)
    simp [hstart, hstop]
  | key name => exact ⟨by simp, by simpa [apostrophe] using h.1⟩
  | filter expression =>
    refine ⟨fun he => ?_, h.2.1⟩
    have hhead := h.1
    rw [he] at hhead
    exact absurd hhead (by simp)

theorem ofToken_token {s : Segment} (h : s.Representable) : ofToken s.token = s := by
  cases s with
  | child name =>
    have hstar : name.toList ≠ ['*'] := by
      intro he
      exact h.2 (by rw [← String.ofList_toList (s := name), he])
    rw [token, ofToken, if_neg hstar, String.ofList_toList]
  | recursive name => rw [token, ofToken, String.ofList_toList]
  | wildcard => rfl
  | index position =>
    rw [token, ofToken, ofContent_digits (isDigits_toDigits position), saturatedValue_toDigits h]
  | slice start stop =>
    have hstart : ':' ∉ boundText start := notMem_boundText (by decide) (by decide)
    have hstop : ':' ∉ boundText stop := notMem_boundText (by decide) (by decide)
    rw [token, ofToken, ofContent_colon (by simp), splitColons_append hstart hstop,
      readBound?_boundText h.1, readBound?_boundText h.2]
  | key name => rw [token, ofToken, ofContent_quoted h.2, String.ofList_toList]
  | filter expression =>
    rw [token, ofToken, ofContent_mark h.1 h.2.2, String.ofList_toList]

theorem representable_ofContent {content : List Char} (h : Token.IsContent content) :
    (ofContent content).Representable := by
  unfold ofContent
  split_ifs with hstar hdigits hcolon hmark
  · trivial
  · exact isExact_saturatedValue (mem_isDigit_of_isDigits hdigits)
  · exact ⟨isExact_of_mem_readBound?, isExact_of_mem_readBound?⟩
  · simp only [Representable, String.toList_ofList]
    exact ⟨hmark, h.2, by simpa using hcolon⟩
  · simp only [Representable, String.toList_ofList]
    exact ⟨fun hc => h.2 (mem_of_mem_stripQuotes hc),
      fun hc => hcolon (by simpa using mem_of_mem_stripQuotes hc)⟩

theorem representable_ofToken {t : Token} (h : t.WellFormed) : (ofToken t).Representable := by
  cases t with
  | bracket content => exact representable_ofContent h
  | dots name =>
    have hn : Token.IsName name := h
    simpa [ofToken, Representable] using hn
  | dot name =>
    have hn : Token.IsName name := h
    by_cases hstar : name = ['*']
    · simp [ofToken, hstar, Representable]
    · simp only [ofToken, if_neg hstar, Representable, String.toList_ofList]
      refine ⟨hn, fun he => hstar ?_⟩
      rw [← String.toList_ofList (l := name), he]
      rfl

end Segment

namespace Path

theorem render_eq_flatMap_text (segments : List Segment) :
    render segments = (segments.map Segment.token).flatMap Token.text := by
  rw [render, List.flatMap_map]

theorem segments_render {written : List Segment} (h : ∀ s ∈ written, s.Representable) :
    segments (render written) = written := by
  have hw : ∀ t ∈ written.map Segment.token, t.WellFormed := by
    intro t ht
    obtain ⟨s, hs, rfl⟩ := List.mem_map.mp ht
    exact Segment.wellFormed_token (h s hs)
  have hback : written.map (Segment.ofToken ∘ Segment.token) = written.map id :=
    List.map_congr_left fun s hs => Segment.ofToken_token (h s hs)
  rw [render_eq_flatMap_text, segments_flatMap_text hw, List.map_map, hback, List.map_id]

theorem representable_of_mem_segments {path : List Char} :
    ∀ s ∈ segments path, s.Representable := by
  intro s hs
  obtain ⟨t, ht, rfl⟩ := List.mem_map.mp hs
  exact Segment.representable_ofToken (Token.wellFormed_of_mem_scan t ht)

/-- Representable segments are read back from their text, and every path is read as such
segments. -/
theorem parse_render :
    (∀ written : List Segment, (∀ s ∈ written, s.Representable) →
      parse (render written) = .ok written) ∧
    ∀ path : List Char, ∃ read, parse path = .ok read ∧ (∀ s ∈ read, s.Representable) ∧
      parse (render read) = .ok read := by
  have hback : ∀ written : List Segment, (∀ s ∈ written, s.Representable) →
      parse (render written) = .ok written := by
    intro written h
    rw [parse_eq, segments_render h]
  refine ⟨hback, fun path => ⟨segments path, parse_eq path, representable_of_mem_segments, ?_⟩⟩
  exact hback _ representable_of_mem_segments

theorem parse_render_kinds :
    let written : List Segment := [.child "a b", .recursive "*", .wildcard,
      .index 9223372036854775807, .slice (some (-5)) none, .key "'", .filter "?(@.a == 1)"]
    (∀ s ∈ written, s.Representable) ∧ parse (render written) = .ok written := by
  intro written
  have h : ∀ s ∈ written, s.Representable := by decide +kernel
  exact ⟨h, parse_render.1 written h⟩

example : String.ofList (render [.child "a b", .recursive "*", .slice (some (-5)) none, .key "'"]) =
    ".a b..*[-5:][''']" := by decide +kernel

end Path
end PathQuery
