import Mathlib
import PathQuery.Proofs.Reading
import PathQuery.Proofs.Traversal

/-!
# The outcome of an evaluation

The text of a path decides between four answers, and the only fault among them is a property that is
not found. No token is refused and no filter fails, so no fault is ever recorded.
-/
namespace PathQuery.Evaluation
open Text PathQuery.Path

/-- The four answers of an evaluation, with their records. -/
theorem attemptText_eq (trace : Bool) (document : Value) (path : List Char) :
    attemptText trace document path =
      if trim isBlank path = [] then ⟨.ok [], []⟩
      else if normalize path = [] then ⟨.ok [document], []⟩
      else if Token.scan (normalize path) = [] then
        ⟨property document (String.ofList (normalize path)), []⟩
      else (traverse trace (segments (normalize path)) [document]).map .ok := by
  unfold attemptText
  by_cases ht : trim isBlank path = []
  · simp [ht]
  by_cases hs : isSigil (trim isBlank path) = true
  · simp [ht, hs, normalize_of_isSigil hs]
  simp only [List.isEmpty_iff, ht, if_false, hs, normalize_trim, parse_eq]
  by_cases hn : normalize path = []
  · -- Both sigils and nothing else: there is no segment, and the working set stays as it began.
    simp [hn, segments, traverse, trim_nil, Logged.map]
  by_cases hscan : Token.scan (normalize path) = []
  · have htrim := trim_normalize_ne_nil hn
    simp [hn, hscan, segments_eq_nil.mpr hscan, htrim]
  · have hsegments : segments (normalize path) ≠ [] := fun h => hscan (segments_eq_nil.mp h)
    simp [hn, hscan, hsegments]

theorem property_of_some {document v : Value} {name : String} (h : document.get? name = some v) :
    property document name = .ok [v] := by
  rw [property, h]

theorem property_of_none {document : Value} {name : String} (h : document.get? name = none) :
    property document name = .error (.propertyNotFound name) := by
  rw [property, h]

theorem attemptText_eq_error_iff {trace : Bool} {document : Value} {path : List Char}
    {fault : Fault} :
    (attemptText trace document path).value = .error fault ↔
      (normalize path ≠ [] ∧ Token.scan (normalize path) = [] ∧
        document.get? (String.ofList (normalize path)) = none) ∧
      fault = .propertyNotFound (String.ofList (normalize path)) := by
  rw [attemptText_eq]
  by_cases hn : normalize path = []
  · have hok : ∀ b : Logged Outcome, b.value = .ok [document] → ¬ (if trim isBlank path = [] then
        (⟨.ok [], []⟩ : Logged Outcome) else b).value = .error fault := by
      intro b hb
      split <;> simp [hb]
    simp [hn, hok]
  have ht := trim_ne_nil_of_normalize hn
  by_cases hscan : Token.scan (normalize path) = []
  · cases hv : document.get? (String.ofList (normalize path)) with
    | none => simp [ht, hn, hscan, property_of_none hv, eq_comm]
    | some v => simp [ht, hn, hscan, property_of_some hv]
  · simp [ht, hn, hscan, Logged.map]

/-- The record of a fault is never made. -/
theorem evaluate_eq_attemptText (trace : Bool) (document : Value) (path : String) :
    evaluate trace document path = attemptText trace document path.toList := by
  unfold evaluate evaluateAny recordFault attempt
  dsimp only
  split
  · rfl
  · rfl
  · rename_i fault hnot hf
    exact absurd (attemptText_eq_error_iff.mp hf).2 (hnot _)

/-- All records of an evaluation are made by the segments of its path. -/
theorem attemptText_records (trace : Bool) (document : Value) (path : List Char) :
    (attemptText trace document path).records =
      (traverse trace (segments (normalize path)) [document]).records := by
  rw [attemptText_eq]
  by_cases hscan : Token.scan (normalize path) = []
  · rw [segments_eq_nil.mpr hscan]
    split_ifs <;> rfl
  · have hn : normalize path ≠ [] := by
      intro h
      exact hscan (by rw [h, Token.scan_nil])
    rw [if_neg (trim_ne_nil_of_normalize hn), if_neg hn, if_neg hscan]
    rfl

theorem level_of_mem_attemptText {trace : Bool} {document : Value} {path : List Char} {r : Record}
    (h : r ∈ (attemptText trace document path).records) : r.level = .debug := by
  rw [attemptText_records] at h
  exact (isRoutine_of_mem_traverse h).level

theorem message?_eq_some_iff {outcome : Outcome} {m : String} :
    message? outcome = some m ↔ ∃ fault, outcome = .error fault ∧ fault.message = m := by
  cases outcome <;> simp [message?]

theorem results_of_message? {outcome : Outcome} (h : message? outcome ≠ none) :
    results outcome = [] := by
  cases outcome with
  | ok values => exact absurd rfl h
  | error fault => rfl

/-- The complete outcome of an evaluation. A message says that a property is missing and comes
without results; no fault reaches the handler that records it, and no record is a warning. -/
theorem evaluate_outcome (trace : Bool) (document : Value) (path : String) :
    let trimmed := trim isBlank path.toList
    let rest := dropSigil (dropSigil trimmed '$') '@'
    let result := evaluate trace document path
    (result.value =
      if trimmed = [] then .ok []
      else if rest = [] then .ok [document]
      else if Token.scan rest = [] then
        match document.get? (String.ofList rest) with
        | some v => .ok [v]
        | none => .error (.propertyNotFound (String.ofList rest))
      else .ok (sweep ((Token.scan rest).map Segment.ofToken) [document])) ∧
    (∀ m, message? result.value = some m ↔
      (rest ≠ [] ∧ Token.scan rest = [] ∧ document.get? (String.ofList rest) = none) ∧
        m = "Property '" ++ String.ofList rest ++ "' not found") ∧
    (message? result.value ≠ none → results result.value = []) ∧
    (∀ fault, (attempt trace document (.text path)).value = .error fault →
      fault = .propertyNotFound (String.ofList rest)) ∧
    ∀ r ∈ result.records, r.level = .debug := by
  intro trimmed rest result
  have hresult : result = attemptText trace document path.toList :=
    evaluate_eq_attemptText trace document path
  refine ⟨?_, ?_, results_of_message?, ?_, ?_⟩
  · rw [hresult, attemptText_eq]
    change Logged.value (if trimmed = [] then _ else if rest = [] then _ else
      if Token.scan rest = [] then _ else _) = _
    split_ifs
    · rfl
    · rfl
    · rfl
    · exact congrArg Except.ok (traverse_value _ _ _)
  · intro m
    rw [message?_eq_some_iff, hresult]
    constructor
    · rintro ⟨fault, hf, rfl⟩
      obtain ⟨hmissing, rfl⟩ := attemptText_eq_error_iff.mp hf
      exact ⟨hmissing, rfl⟩
    · rintro ⟨hmissing, rfl⟩
      exact ⟨_, attemptText_eq_error_iff.mpr ⟨hmissing, rfl⟩, rfl⟩
  · intro fault hf
    exact (attemptText_eq_error_iff.mp hf).2
  · intro r hr
    rw [hresult] at hr
    exact level_of_mem_attemptText hr

end PathQuery.Evaluation
