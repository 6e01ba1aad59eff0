import Mathlib
import PathQuery.Proofs.Outcome

/-!
# Composition of paths

The text of a path made of tokens can be continued by any text in which a token begins at once. The
continued path selects what the continuation selects from the results of the first path, in order.
-/
namespace PathQuery

theorem Token.EndsName.trimEnd {s : List Char} (h : Token.EndsName s) :
    Token.EndsName (Text.trimEnd Text.isBlank s) := by
  cases s with
  | nil => trivial
  | cons c rest =>
    have hc : Text.isBlank c = false := by rcases h with rfl | rfl <;> decide
    rw [Text.trimEnd_cons hc]
    exact h

theorem Token.isBlank_of_getLast?_bracket (content : List Char) :
    ∀ c ∈ (Token.bracket content).text.getLast?, Text.isBlank c = false := by
  intro c hc
  obtain rfl : ']' = c := by
    simpa [Token.text, List.getLast?_cons] using hc
  decide

theorem Token.endsName_of_head? {s : List Char} (h : s.head? = some '.' ∨ s.head? = some '[') :
    Token.EndsName s := by
  cases s with
  | nil => trivial
  | cons c rest => simpa [Token.EndsName] using h

namespace Path
open Text

def ofTokens (ts : List Token) : String := String.ofList ('$' :: ts.flatMap Token.text)

theorem toList_ofTokens (ts : List Token) :
    (ofTokens ts).toList = '$' :: ts.flatMap Token.text := String.toList_ofList

theorem toList_ofTokens_append (ts : List Token) (back : String) :
    (ofTokens ts ++ back).toList = '$' :: (ts.flatMap Token.text ++ back.toList) := by
  rw [String.toList_append, toList_ofTokens, List.cons_append]

theorem dropSigil_of_endsName {s : List Char} (h : Token.EndsName s) : dropSigil s '@' = s := by
  cases s with
  | nil => rfl
  | cons c rest => rcases h with rfl | rfl <;> rfl

theorem trim_dollar (s : List Char) : trim isBlank ('$' :: s) = '$' :: trimEnd isBlank s :=
  trim_cons (by decide) s

/-- After a dollar sign, what begins with a token or is empty is only trimmed at its end. -/
theorem normalize_dollar {s : List Char} (h : Token.EndsName s) :
    normalize ('$' :: s) = trimEnd isBlank s := by
  have hd : dropSigil ('$' :: trimEnd isBlank s) '$' = trimEnd isBlank s := rfl
  simp only [normalize, sigils, trim_dollar, List.foldl_cons, List.foldl_nil, hd,
    dropSigil_of_endsName h.trimEnd]

theorem normalize_ofTokens {ts : List Token}
    (hend : ∀ c ∈ (ofTokens ts).toList.getLast?, isBlank c = false) :
    normalize (ofTokens ts).toList = ts.flatMap Token.text := by
  have hnil : Token.EndsName [] := trivial
  have h : Token.EndsName (ts.flatMap Token.text) := by
    simpa using Token.endsName_flatMap_text_append ts hnil
  rw [toList_ofTokens] at hend ⊢
  rw [normalize_dollar h, trimEnd_eq_self]
  intro c hc
  apply hend c
  rw [List.getLast?_cons, Option.mem_def.mp hc]
  rfl

theorem normalize_ofTokens_append (ts : List Token) {back : List Char}
    (hback : Token.EndsName back) (hne : trimEnd isBlank back ≠ []) :
    normalize ((ofTokens ts).toList ++ back) = ts.flatMap Token.text ++ trimEnd isBlank back := by
  rw [toList_ofTokens, List.cons_append,
    normalize_dollar (Token.endsName_flatMap_text_append ts hback), trimEnd_append hne]

/-- Here the tokens do not end in a blank, so what follows them may be blank or empty. -/
theorem normalize_ofTokens_append_of_endsName {ts : List Token}
    (hend : ∀ c ∈ (ofTokens ts).toList.getLast?, isBlank c = false) {back : List Char}
    (hback : Token.EndsName back) :
    normalize ((ofTokens ts).toList ++ back) = ts.flatMap Token.text ++ trimEnd isBlank back := by
  cases back with
  | nil => rw [List.append_nil, normalize_ofTokens hend, trimEnd_eq_self (by simp), List.append_nil]
  | cons c rest =>
    have hc : isBlank c = false := by rcases hback with rfl | rfl <;> decide
    refine normalize_ofTokens_append ts hback ?_
    rw [trimEnd_cons hc]
    exact List.cons_ne_nil _ _

theorem getLast?_ofTokens_concat (ts : List Token) (t : Token) :
    (ofTokens (ts ++ [t])).toList.getLast? = t.text.getLast? := by
  have hne : t.text ≠ [] := List.length_pos_iff.mp t.text_length_pos
  have htext : (ofTokens (ts ++ [t])).toList = ('$' :: ts.flatMap Token.text) ++ t.text := by
    simp [toList_ofTokens]
  rw [htext, List.getLast?_append_of_ne_nil _ hne]

theorem segments_flatMap_text_append {ts : List Token} (hw : ∀ t ∈ ts, t.WellFormed)
    {rest : List Char} (hr : Token.EndsName rest) :
    segments (ts.flatMap Token.text ++ rest) = ts.map Segment.ofToken ++ segments rest := by
  rw [segments, Token.scan_flatMap_text_append hw hr, List.map_append, segments]

theorem segments_flatMap_text {ts : List Token} (hw : ∀ t ∈ ts, t.WellFormed) :
    segments (ts.flatMap Token.text) = ts.map Segment.ofToken := by
  have hnil : Token.EndsName [] := trivial
  have h := segments_flatMap_text_append hw hnil
  rw [List.append_nil] at h
  rw [h, segments, Token.scan_nil, List.map_nil, List.append_nil]

end Path

namespace Evaluation
open Text PathQuery.Path

/-- A path that begins with a dollar sign selects by its segments, unless it names a property. -/
theorem evaluate_dollar_value {trace : Bool} {document : Value} {path : String} {rest : List Char}
    (hp : path.toList = '$' :: rest)
    (h : normalize path.toList = [] ∨ segments (normalize path.toList) ≠ []) :
    (evaluate trace document path).value =
      .ok (sweep (segments (normalize path.toList)) [document]) := by
  have ht : trim isBlank path.toList ≠ [] := by
    rw [hp, trim_dollar]
    exact List.cons_ne_nil _ _
  rw [evaluate_eq_attemptText, attemptText_eq, if_neg ht]
  by_cases hn : normalize path.toList = []
  · rw [if_pos hn, hn, segments, Token.scan_nil]
    rfl
  · have hs : Token.scan (normalize path.toList) ≠ [] :=
      fun he => h.resolve_left hn (segments_eq_nil.mpr he)
    rw [if_neg hn, if_neg hs]
    exact congrArg Except.ok (traverse_value _ _ _)

/-- The segments of a path are those of the tokens in front and of what is left behind them. Only a
path that is not empty and has no token at all would name a property. -/
theorem evaluate_tokens_value {trace : Bool} {document : Value} {path : String} {rest : List Char}
    (hp : path.toList = '$' :: rest) {ts : List Token} (hw : ∀ t ∈ ts, t.WellFormed)
    {back : List Char} (hback : Token.EndsName back)
    (hn : normalize path.toList = ts.flatMap Token.text ++ back)
    (hsome : ts = [] → back = [] ∨ Token.scan back ≠ []) :
    (evaluate trace document path).value =
      .ok (sweep (ts.map Segment.ofToken ++ segments back) [document]) := by
  have hs := segments_flatMap_text_append hw hback
  rw [evaluate_dollar_value hp, hn, hs]
  rw [hn, hs]
  cases ts with
  | nil =>
    refine (hsome rfl).imp id fun hscan => ?_
    exact fun h => hscan (segments_eq_nil.mp h)
  | cons t ts => exact Or.inr (by simp)

theorem evaluate_ofTokens_value {trace : Bool} {document : Value} {ts : List Token}
    (hw : ∀ t ∈ ts, t.WellFormed)
    (hend : ∀ c ∈ (ofTokens ts).toList.getLast?, isBlank c = false) :
    (evaluate trace document (ofTokens ts)).value =
      .ok (sweep (ts.map Segment.ofToken) [document]) := by
  have hnil : Token.EndsName [] := trivial
  have hn : normalize (ofTokens ts).toList = ts.flatMap Token.text ++ [] := by
    rw [normalize_ofTokens hend, List.append_nil]
  rw [evaluate_tokens_value (toList_ofTokens ts) hw hnil hn fun _ => Or.inl rfl, segments,
    Token.scan_nil, List.map_nil, List.append_nil]

theorem evaluate_ofTokens_append_value {trace : Bool} {document : Value} {ts : List Token}
    (hw : ∀ t ∈ ts, t.WellFormed) {back : String} (hback : Token.EndsName back.toList)
    (htokens : Token.scan (trimEnd isBlank back.toList) ≠ []) :
    (evaluate trace document (ofTokens ts ++ back)).value =
      .ok (sweep (ts.map Segment.ofToken ++ segments (trimEnd isBlank back.toList))
        [document]) := by
  have hne : trimEnd isBlank back.toList ≠ [] := by
    intro h
    exact htokens (by rw [h, Token.scan_nil])
  have hn : normalize (ofTokens ts ++ back).toList =
      ts.flatMap Token.text ++ trimEnd isBlank back.toList := by
    rw [String.toList_append, normalize_ofTokens_append ts hback hne]
  exact evaluate_tokens_value (toList_ofTokens_append ts back) hw hback.trimEnd hn
    fun _ => Or.inr htokens

/-- A path made of tokens that does not end in a blank, continued by a text in which a token begins at
once, selects what the continuation selects from each of its results. -/
theorem evaluate_ofTokens_append (trace : Bool) (document : Value) {ts : List Token}
    (hw : ∀ t ∈ ts, t.WellFormed)
    (hend : ∀ c ∈ (ofTokens ts).toList.getLast?, isBlank c = false) {back : String}
    (hback : back.toList.head? = some '.' ∨ back.toList.head? = some '[')
    (htokens : Token.scan (trimEnd isBlank back.toList) ≠ []) :
    (evaluate trace document (ofTokens ts ++ back)).value =
      .ok ((results (evaluate trace document (ofTokens ts)).value).flatMap fun v =>
        results (evaluate trace v ("$" ++ back)).value) := by
  have hends : Token.EndsName back.toList := Token.endsName_of_head? hback
  have hroot : ∀ v, (evaluate trace v ("$" ++ back)).value =
      .ok (sweep (segments (trimEnd isBlank back.toList)) [v]) := by
    intro v
    have hnone : ∀ t ∈ ([] : List Token), t.WellFormed := by simp
    exact evaluate_ofTokens_append_value hnone hends htokens
  rw [evaluate_ofTokens_append_value hw hends htokens, evaluate_ofTokens_value hw hend]
  simp only [results, hroot, sweep_append]
  rw [sweep_eq_flatMap]

theorem evaluate_ofTokens_append_names :
    let document := Value.list [.object [("a b", .list [.object [("c", .int 1)], .object []])],
      .object [("a b", .object [("c", .int 2)])]]
    let ts : List Token := [.bracket ['*'], .dot ['a', ' ', 'b']]
    (∀ t ∈ ts, t.WellFormed) ∧ (∀ c ∈ (ofTokens ts).toList.getLast?, isBlank c = false) ∧
    ("..c.[ ".toList.head? = some '.' ∨ "..c.[ ".toList.head? = some '[') ∧
    Token.scan (trimEnd isBlank "..c.[ ".toList) ≠ [] ∧
    (evaluate true document (ofTokens ts ++ "..c.[ ")).value =
      .ok ((results (evaluate true document (ofTokens ts)).value).flatMap fun v =>
        results (evaluate true v ("$" ++ "..c.[ ")).value) := by
  intro document ts
  have hw : ∀ t ∈ ts, t.WellFormed := by decide
  have hend : ∀ c ∈ (ofTokens ts).toList.getLast?, isBlank c = false := by
    intro c hc
    rw [toList_ofTokens] at hc
    have hb : some 'b' = some c := hc
    cases hb
    decide
  have hback : "..c.[ ".toList.head? = some '.' ∨ "..c.[ ".toList.head? = some '[' := by
    decide +kernel
  have htokens : Token.scan (trimEnd isBlank "..c.[ ".toList) ≠ [] := by decide +kernel
  exact ⟨hw, hend, hback, htokens, evaluate_ofTokens_append true document hw hend hback htokens⟩

end Evaluation
end PathQuery
