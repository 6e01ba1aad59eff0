import Mathlib
import PathQuery.Condition.Admission
import PathQuery.Proofs.ConditionGrammar

/-!
# Filters that never fail

Putting a condition together and applying it to an item never fails, whatever the texts and values
are. An item is turned away only by a condition that it does not satisfy, and the only record says
that no condition is stated.
-/
namespace PathQuery.Condition

theorem verdict_eq (c : Condition) (item : Value) : c.verdict item = .ok (c.holds item) := by
  rcases c with ⟨property, o, literal⟩
  rcases o with _ | _ | i
  · rfl
  · rfl
  · have hequal : i.symbol ≠ "==" := by cases i <;> decide
    have hunequal : i.symbol ≠ "!=" := by cases i <;> decide
    have hread : Inequality.read i.symbol = .ok i := by
      rw [Inequality.read, Inequality.ofSymbol?_symbol]
    simp only [verdict, Comparison.symbol, verdictBy, if_neg hequal, if_neg hunequal, hread,
      Except.map, holds, Literal.satisfies]

theorem mentionsItem_iff {s : List Char} : mentionsItem s = true ↔ ['@', '.'] <:+: s := by
  fun_induction mentionsItem s with
  | case1 rest => exact ⟨fun _ => ⟨[], rest, rfl⟩, fun _ => rfl⟩
  | case2 => simp
  | case3 c rest hnot ih =>
    rw [ih, List.infix_cons_iff]
    refine ⟨Or.inr, fun h => h.resolve_left ?_⟩
    rintro ⟨more, he⟩
    obtain ⟨rfl, rfl⟩ := List.cons.inj he
    exact hnot more rfl rfl

theorem mentionsItem_of_viable {front s : List Char} (h : Viable s) :
    mentionsItem (front ++ s) = true := by
  obtain ⟨word, blanks, o, rest, hw⟩ := h
  rw [mentionsItem_iff, hw.text_eq]
  exact ⟨front, word ++ (blanks ++ (o.symbol.toList ++ rest)), by simp⟩

/-- No filter fails: a condition that is read gives a verdict, and without one the item is admitted. -/
theorem attempt_eq (expression : String) (item : Value) :
    attempt expression item =
      if mentionsItem (body expression.toList) && item.isObject then
        match read expression with
        | .ok c => ⟨.ok (c.holds item), []⟩
        | .error _ => ⟨.ok true,
            [ignored (.unsupportedFilter (String.ofList (body expression.toList)))]⟩
      else ⟨.ok true, []⟩ := by
  unfold attempt
  cases hsearch : search? (body expression.toList) with
  | none => rw [read_eq_error hsearch]
  | some parts =>
    obtain ⟨front, s, word, o, rest, -, -, -, hread⟩ := read_of_search? hsearch
    simp only [hread, verdict_eq]

theorem attempt_ne_error (expression : String) (item : Value) (fault : Fault) :
    (attempt expression item).value ≠ .error fault := by
  rw [attempt_eq]
  split
  · split <;> simp
  · simp

/-- The records of a filter stand as they were made: none is added for a failure. -/
theorem admits_of_attempt {expression : String} {item : Value} {admitted : Bool}
    (h : (attempt expression item).value = .ok admitted) :
    admits expression item = ⟨admitted, (attempt expression item).records⟩ := by
  unfold admits recordFailure
  rw [h]

/-- The check that comes first never hides an expression that states a condition. -/
theorem mentionsItem_of_read {expression : String} {c : Condition} (h : read expression = .ok c) :
    mentionsItem (body expression.toList) = true := by
  obtain ⟨front, s, word, o, rest, hs, -, hpreferred, -⟩ := read_eq_ok_iff.mp h
  rw [hs]
  exact mentionsItem_of_viable hpreferred.viable

theorem admits_of_read {expression : String} {c : Condition} (h : read expression = .ok c)
    (item : Value) :
    admits expression item = ⟨!item.isObject || c.holds item, []⟩ := by
  have hattempt : attempt expression item = ⟨.ok (!item.isObject || c.holds item), []⟩ := by
    rw [attempt_eq, mentionsItem_of_read h, Bool.true_and, h]
    cases item.isObject <;> rfl
  rw [admits_of_attempt (congrArg Logged.value hattempt), hattempt]

theorem admits_of_read_error {expression : String} {fault : Fault}
    (h : read expression = .error fault) (item : Value) :
    admits expression item =
      ⟨true, if mentionsItem (body expression.toList) && item.isObject then
        [ignored (.unsupportedFilter (String.ofList (body expression.toList)))] else []⟩ := by
  have hattempt : attempt expression item =
      ⟨.ok true, if mentionsItem (body expression.toList) && item.isObject then
        [ignored (.unsupportedFilter (String.ofList (body expression.toList)))] else []⟩ := by
    rw [attempt_eq, h]
    split <;> rfl
  rw [admits_of_attempt (congrArg Logged.value hattempt), hattempt]

/-- A filter does not tell apart two objects, or two values that are none, of which every condition
holds alike. -/
theorem admits_congr {v w : Value} (hobject : v.isObject = w.isObject)
    (hholds : ∀ c : Condition, c.holds v = c.holds w) (expression : String) :
    admits expression v = admits expression w := by
  cases hread : read expression with
  | ok c => rw [admits_of_read hread, admits_of_read hread, hobject, hholds]
  | error fault => rw [admits_of_read_error hread, admits_of_read_error hread, hobject]

theorem ignored_unsupportedFilter (text : String) :
    ignored (.unsupportedFilter text) = ⟨.debug, "jsonpath_tester.filters",
      "filter passes everything: unsupported filter expression " ++ Text.quoted text, false⟩ := by
  have hmessage : "filter passes everything: unsupported filter expression " =
      "filter passes everything: " ++ "unsupported filter expression " := by decide
  rw [hmessage, String.append_assoc]
  rfl

/-- The complete outcome of a filter. An item is turned away exactly when it is an object and has the
verdict of a condition against it; no fault is ever recorded as a failure, and the only record is the
one about an expression that mentions a property and states no condition. -/
theorem admits_outcome (expression : String) (item : Value) :
    let text := body expression.toList
    let result := admits expression item
    (result.value = false ↔
      item.isObject = true ∧ ∃ c, read expression = .ok c ∧ c.verdict item = .ok false) ∧
    (∀ fault, (attempt expression item).value ≠ .error fault) ∧
    (item.isObject = true ∧ ['@', '.'] <:+: text ∧ (∃ fault, read expression = .error fault) →
      result.records = [⟨.debug, "jsonpath_tester.filters",
        "filter passes everything: unsupported filter expression " ++
          Text.quoted (String.ofList text), false⟩]) ∧
    (¬ (item.isObject = true ∧ ['@', '.'] <:+: text ∧ ∃ fault, read expression = .error fault) →
      result.records = []) := by
  intro text result
  refine ⟨?_, attempt_ne_error expression item, ?_, ?_⟩
  · cases hread : read expression with
    | ok c =>
      have hresult : result = ⟨!item.isObject || c.holds item, []⟩ := admits_of_read hread item
      simp [hresult, verdict_eq]
    | error fault =>
      have hresult : result.value = true := congrArg Logged.value (admits_of_read_error hread item)
      simp [hresult]
  · rintro ⟨hobject, hinfix, fault, hread⟩
    have hmentions : mentionsItem (body expression.toList) = true := mentionsItem_iff.mpr hinfix
    have hresult := congrArg Logged.records (admits_of_read_error hread item)
    rw [hmentions, hobject, if_pos (by decide), ignored_unsupportedFilter] at hresult
    exact hresult
  · intro hnot
    cases hread : read expression with
    | ok c => exact congrArg Logged.records (admits_of_read hread item)
    | error fault =>
      have hresult := congrArg Logged.records (admits_of_read_error hread item)
      rw [if_neg] at hresult
      · exact hresult
      · intro hc
        rw [Bool.and_eq_true, mentionsItem_iff] at hc
        exact hnot ⟨hc.2, hc.1, fault, hread⟩

end PathQuery.Condition
