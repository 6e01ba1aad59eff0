import Mathlib
import PathQuery.Proofs.RoundTrip

/-!
# The spellings of a key

A key is written after a dot, between quotes in brackets or, for an entry of the document itself, as
the whole path. Within a path the first two are one token each and select alike, whatever stands
before and behind them. The whole path is a property of the document, which is what the key after
one dot selects, but a key that is missing is an error there and no result here.
-/
namespace PathQuery
open Text

/-- A key that every spelling can hold. -/
structure IsKey (name : String) : Prop where
  ne_empty : name ≠ ""
  ne_star : name ≠ "*"
  no_dot : '.' ∉ name.toList
  no_opening : '[' ∉ name.toList
  no_closing : ']' ∉ name.toList
  no_colon : ':' ∉ name.toList
  front : ∀ c ∈ name.toList.head?, isBlank c = false
  back : ∀ c ∈ name.toList.getLast?, isBlank c = false

namespace IsKey

variable {name : String}

theorem isName (h : IsKey name) : Token.IsName name.toList :=
  ⟨fun he => h.ne_empty (String.toList_eq_nil_iff.mp he), h.no_dot, h.no_opening⟩

theorem representable_child (h : IsKey name) : (Segment.child name).Representable :=
  ⟨h.isName, h.ne_star⟩

theorem representable_key (h : IsKey name) : (Segment.key name).Representable :=
  ⟨h.no_closing, h.no_colon⟩

theorem isBlank_of_getLast?_child (h : IsKey name) :
    ∀ c ∈ (Segment.child name).token.text.getLast?, isBlank c = false := by
  have htext : (Segment.child name).token.text = ['.'] ++ name.toList := rfl
  rw [htext, List.getLast?_append_of_ne_nil _ h.isName.1]
  exact h.back

end IsKey

namespace Evaluation
open PathQuery.Path

/-- A path selects by a segment that is written in it, whatever follows. -/
theorem evaluate_token_append_value {trace : Bool} {document : Value} {ts : List Token}
    (hw : ∀ t ∈ ts, t.WellFormed) {s : Segment} (hs : s.Representable)
    (hlast : ∀ c ∈ s.token.text.getLast?, isBlank c = false) {back : String}
    (hback : Token.EndsName back.toList) :
    (evaluate trace document (ofTokens (ts ++ [s.token]) ++ back)).value =
      .ok (sweep (ts.map Segment.ofToken ++ s :: segments (trimEnd isBlank back.toList))
        [document]) := by
  have hall : ∀ t ∈ ts ++ [s.token], t.WellFormed := by
    intro t ht
    rcases List.mem_append.mp ht with ht | ht
    · exact hw t ht
    · rw [List.mem_singleton.mp ht]
      exact Segment.wellFormed_token hs
  -- Nothing is trimmed off the token, even when what follows it is empty.
  have hend : ∀ c ∈ (ofTokens (ts ++ [s.token])).toList.getLast?, isBlank c = false := by
    rw [getLast?_ofTokens_concat]
    exact hlast
  have hn : normalize (ofTokens (ts ++ [s.token]) ++ back).toList =
      (ts ++ [s.token]).flatMap Token.text ++ trimEnd isBlank back.toList := by
    rw [String.toList_append, normalize_ofTokens_append_of_endsName hend hback]
  have hsome : ts ++ [s.token] ≠ [] := by simp
  rw [evaluate_tokens_value (toList_ofTokens_append _ back) hall hback.trimEnd hn
    fun h => absurd h hsome, List.map_append, List.map_singleton, Segment.ofToken_token hs,
    List.append_assoc, List.singleton_append]

/-- A child and a key of one name select alike. -/
theorem sweep_child_eq_sweep_key (front back : List Segment) (name : String)
    (current : List Value) :
    sweep (front ++ .child name :: back) current = sweep (front ++ .key name :: back) current := by
  rw [sweep_append, sweep_append, sweep_cons, sweep_cons]
  rfl

theorem evaluate_bare_value {trace : Bool} {document : Value} {name : String} (h : IsKey name)
    (hsigil : name.toList.head? ≠ some '$' ∧ name.toList.head? ≠ some '@') :
    (evaluate trace document name).value = property document name := by
  have htrim : trim isBlank name.toList = name.toList := trim_eq_self_of_ends h.front h.back
  have hn : normalize name.toList = name.toList := by
    simp [Path.normalize, sigils, htrim, dropSigil, hsigil.1, hsigil.2]
  have hscan : Token.scan name.toList = [] := Token.scan_eq_nil h.isName.isNameChar
  rw [evaluate_eq_attemptText, attemptText_eq, htrim, hn, if_neg h.isName.1, if_neg h.isName.1,
    if_pos hscan, String.ofList_toList]

theorem evaluate_dotted_value {trace : Bool} {document : Value} {name : String} (h : IsKey name) :
    (evaluate trace document ("$." ++ name)).value = .ok (document.get? name).toList := by
  have hpath : "$." ++ name = ofTokens ([] ++ [(Segment.child name).token]) ++ "" := by
    rw [← String.toList_inj]
    simp [toList_ofTokens, Segment.token, Token.text]
  have hnone : ∀ t ∈ ([] : List Token), t.WellFormed := by simp
  have hempty : Token.EndsName "".toList := by simp [Token.EndsName]
  rw [hpath, evaluate_token_append_value hnone h.representable_child h.isBlank_of_getLast?_child
    hempty]
  simp [trimEnd, segments, sweep, Segment.select]

/-- The spellings of a key agree. After a dot and between quotes in brackets it selects the same
values wherever it stands in a path. Alone it is the property of the document that it selects after
a dollar sign and a dot, and an error exactly when that selects nothing. -/
theorem key_spellings_agree {name : String} (h : IsKey name) (trace : Bool) (document : Value) :
    (∀ ts : List Token, (∀ t ∈ ts, t.WellFormed) → ∀ back : String,
      back = "" ∨ back.toList.head? = some '.' ∨ back.toList.head? = some '[' →
      (evaluate trace document (ofTokens ts ++ "." ++ name ++ back)).value =
        (evaluate trace document (ofTokens ts ++ "['" ++ name ++ "']" ++ back)).value) ∧
    (name.toList.head? ≠ some '$' ∧ name.toList.head? ≠ some '@' →
      (∀ v, (evaluate trace document ("$." ++ name)).value = .ok [v] ↔
        (evaluate trace document name).value = .ok [v]) ∧
      ((evaluate trace document ("$." ++ name)).value = .ok [] ↔
        message? (evaluate trace document name).value =
          some ("Property '" ++ name ++ "' not found")) ∧
      ((evaluate trace document ("$." ++ name)).value = .ok [] ∨
        ∃ v, (evaluate trace document ("$." ++ name)).value = .ok [v])) := by
  refine ⟨?_, ?_⟩
  · intro ts hw back hback
    have hends : Token.EndsName back.toList := by
      rcases hback with rfl | hhead
      · trivial
      · exact Token.endsName_of_head? hhead
    have hdotted : ofTokens ts ++ "." ++ name ++ back =
        ofTokens (ts ++ [(Segment.child name).token]) ++ back := by
      rw [← String.toList_inj]
      simp [toList_ofTokens, Segment.token, Token.text]
    have hquoted : ofTokens ts ++ "['" ++ name ++ "']" ++ back =
        ofTokens (ts ++ [(Segment.key name).token]) ++ back := by
      rw [← String.toList_inj]
      simp [toList_ofTokens, Segment.token, Token.text, apostrophe]
    rw [hdotted, hquoted,
      evaluate_token_append_value hw h.representable_child h.isBlank_of_getLast?_child hends,
      evaluate_token_append_value hw h.representable_key (Token.isBlank_of_getLast?_bracket _) hends,
      sweep_child_eq_sweep_key]
  · intro hsigil
    rw [evaluate_dotted_value h, evaluate_bare_value h hsigil]
    cases hv : document.get? name with
    | none =>
      have hmessage : message? (property document name) =
          some ("Property '" ++ name ++ "' not found") :=
        message?_eq_some_iff.mpr ⟨_, property_of_none hv, rfl⟩
      refine ⟨?_, ⟨fun _ => hmessage, fun _ => rfl⟩, Or.inl rfl⟩
      simp [property_of_none hv]
    | some v =>
      have hmessage : message? (property document name) = none := by
        rw [property_of_some hv, message?]
      refine ⟨?_, ?_, Or.inr ⟨v, rfl⟩⟩
      · simp [property_of_some hv]
      · simp [hmessage]

theorem key_spellings_agree_quoted :
    let name := "'7 ?"
    let document := Value.object [("a", .list [.object [(name, .object [("b", .int 1)])]]),
      (name, .int 2)]
    let ts : List Token := [.dots ['a'], .bracket ['0']]
    IsKey name ∧ (∀ t ∈ ts, t.WellFormed) ∧ "..b[ ".toList.head? = some '.' ∧
    (evaluate true document (ofTokens ts ++ "." ++ name ++ "..b[ ")).value =
      (evaluate true document (ofTokens ts ++ "['" ++ name ++ "']" ++ "..b[ ")).value ∧
    (evaluate true document (ofTokens ts ++ "['" ++ name ++ "']" ++ "..b[ ")).value =
      .ok [.int 1] ∧
    (name.toList.head? ≠ some '$' ∧ name.toList.head? ≠ some '@') ∧
    (evaluate true document ("$." ++ name)).value = .ok [.int 2] ∧
    (evaluate true document name).value = .ok [.int 2] := by
  intro name document ts
  have hletters : name.toList = [apostrophe, '7', ' ', '?'] := by simp [name, apostrophe]
  have h : IsKey name := by constructor <;> simp [name, hletters] <;> decide
  have hw : ∀ t ∈ ts, t.WellFormed := by decide
  have hback : "..b[ ".toList.head? = some '.' := by decide +kernel
  have hsigil : name.toList.head? ≠ some '$' ∧ name.toList.head? ≠ some '@' := by
    decide +kernel
  have hdotted : (evaluate true document ("$." ++ name)).value = .ok [.int 2] := by decide +kernel
  obtain ⟨htokens, halone⟩ := key_spellings_agree h true document
  exact ⟨h, hw, hback, htokens ts hw "..b[ " (Or.inr (Or.inl hback)), by decide +kernel, hsigil,
    hdotted, ((halone hsigil).1 (.int 2)).mp hdotted⟩

end Evaluation
end PathQuery
