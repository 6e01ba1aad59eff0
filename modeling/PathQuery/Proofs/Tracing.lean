import Mathlib
import PathQuery.Proofs.Outcome
import PathQuery.Proofs.SharedLevel

/-!
# Tracing

Tracing and the levels of loggers change what is recorded and never what is selected. The trace counts
what an evaluation of the first segments alone selects, segment by segment, up to the first that
selects nothing.
-/
namespace PathQuery

namespace Evaluation
open Text PathQuery.Path

/-- The records of the segment at a place of a path: those of its filters, and behind them its
trace. -/
def recordsAt (trace : Bool) (segments : List Segment) (current : List Value) (e : Segment × Nat) :
    List Record :=
  (Logged.flatMap e.1.select (sweep (segments.take e.2) current)).records ++
    if trace then [traced e.1 (sweep (segments.take (e.2 + 1)) current).length] else []

theorem recordsAt_false (segments : List Segment) (current : List Value) :
    recordsAt false segments current = fun e =>
      (Logged.flatMap e.1.select (sweep (segments.take e.2) current)).records :=
  funext fun _ => List.append_nil _

theorem recordsAt_true (segments : List Segment) (current : List Value) :
    recordsAt true segments current = fun e =>
      (Logged.flatMap e.1.select (sweep (segments.take e.2) current)).records ++
        [⟨.debug, "jsonpath_tester.engine", "segment " ++ e.1.text ++ " -> " ++
          toString (sweep (segments.take (e.2 + 1)) current).length ++ " match(es)", false⟩] := rfl

/-- A traversal applies the segments up to the first that selects nothing, and has their records
in order. -/
theorem exists_traverse_records (segments : List Segment) (current : List Value) :
    ∃ k ≤ segments.length,
      (∀ i, 0 < i → i < k → sweep (segments.take i) current ≠ []) ∧
      (k = segments.length ∨ sweep (segments.take k) current = []) ∧
      ∀ trace, (traverse trace segments current).records =
        (segments.take k).zipIdx.flatMap (recordsAt trace segments current) := by
  induction segments generalizing current with
  | nil => exact ⟨0, le_rfl, by simp, by simp, fun trace => rfl⟩
  | cons s rest ih =>
    set next := current.flatMap fun item => (s.select item).value with hnext
    have hfirst : ∀ trace,
        recordsAt trace (s :: rest) current (s, 0) = stepRecords trace s current := by
      intro trace
      simp [recordsAt, stepRecords, sweep]
    by_cases hempty : next = []
    · refine ⟨1, by simp, by omega, Or.inr hempty, ?_⟩
      intro trace
      simp [traverse_cons, ← hnext, hempty, hfirst]
    · obtain ⟨k, hk, hbefore, hend, hrecords⟩ := ih next
      refine ⟨k + 1, by simpa using hk, ?_, hend.imp (congrArg (· + 1)) id, ?_⟩
      · intro i hi hik
        obtain ⟨j, rfl⟩ := Nat.exists_eq_succ_of_ne_zero hi.ne'
        cases j with
        | zero => exact hempty
        | succ j => exact hbefore (j + 1) (by omega) (by omega)
      · -- One segment further on, a place and the prefix in front of it are both longer by one.
        intro trace
        have hshift : ∀ e : Segment × Nat,
            recordsAt trace (s :: rest) current (e.1, e.2 + 1) = recordsAt trace rest next e :=
          fun e => rfl
        simp [traverse_cons, ← hnext, hempty, hrecords, List.zipIdx_succ, List.flatMap_map, hfirst,
          hshift]

theorem evaluate_records (trace : Bool) (document : Value) (path : String) :
    (evaluate trace document path).records =
      (traverse trace (segments (normalize path.toList)) [document]).records := by
  rw [evaluate_eq_attemptText, attemptText_records]

theorem evaluate_records_of_scan {path : String} (h : Token.scan (normalize path.toList) = [])
    (trace : Bool) (document : Value) : (evaluate trace document path).records = [] := by
  rw [evaluate_records, segments_eq_nil.mpr h]
  rfl

theorem evaluate_value_eq (trace other : Bool) (document : Value) (path : String) :
    (evaluate trace document path).value = (evaluate other document path).value := by
  rw [evaluate_eq_attemptText, evaluate_eq_attemptText, attemptText_eq, attemptText_eq]
  split_ifs
  · rfl
  · rfl
  · rfl
  · simp only [Logged.map, traverse_value]

theorem isRoutine_of_mem_evaluate {trace : Bool} {document : Value} {path : String} {r : Record}
    (h : r ∈ (evaluate trace document path).records) : r.IsRoutine := by
  rw [evaluate_records] at h
  exact isRoutine_of_mem_traverse h

end Evaluation

namespace Session
open Text Evaluation

theorem evaluate_value (s : Session) (document : Value) (path : String) :
    (s.evaluate document (.text path)).value =
      (Evaluation.evaluate s.settings.traceSegments document path).value := rfl

theorem effective_of_isRoutine {s : Session} (h : s.loggers.TopOnly) {r : Record}
    (hr : r.IsRoutine) : s.loggers.effective r.logger = s.effectiveLevel none := by
  have hunder : Loggers.topDot <+: r.logger.toList ∧ ¬ Loggers.topDots <+: r.logger.toList := by
    rcases hr.logger with hl | hl
    · rw [hl]
      decide +kernel
    · rw [hl]
      decide +kernel
  exact h.effective_eq hunder.1 hunder.2

theorem evaluate_kept {s : Session} (h : s.loggers.TopOnly) (document : Value) (path : String) :
    (s.evaluate document (.text path)).records =
      (Evaluation.evaluate s.settings.traceSegments document path).records.filter
        fun r => (s.effectiveLevel none).severity ≤ r.level.severity := by
  apply List.filter_congr
  intro r hr
  rw [keeps, effective_of_isRoutine h (isRoutine_of_mem_evaluate hr), Record.passes]

/-- Tracing and levels leave the answer alone, and the trace is faithful. The first `k` segments of
the path are applied, up to the first that selects nothing; behind the records of its filters the
trace of each has the number of values that it and the segments in front of it select together. A
session passes on the records that its effective level lets through, in order. -/
theorem evaluate_traced (document : Value) (path : String) :
    ∃ segments, Path.parse (Path.normalize path.toList) = .ok segments ∧
      let selected := fun i => (traverse false (segments.take i) [document]).value
      let filtered := fun e : Segment × Nat =>
        (Logged.flatMap e.1.select (selected e.2)).records
      (∀ s t : Session,
        (s.evaluate document (.text path)).value = (t.evaluate document (.text path)).value) ∧
      (∃ k ≤ segments.length,
        (∀ i, 0 < i → i < k → (selected i).length ≠ 0) ∧
        (k = segments.length ∨ (selected k).length = 0) ∧
        (Evaluation.evaluate false document path).records =
          (segments.take k).zipIdx.flatMap filtered ∧
        (Evaluation.evaluate true document path).records =
          (segments.take k).zipIdx.flatMap fun e => filtered e ++
            [⟨.debug, "jsonpath_tester.engine", "segment " ++ e.1.text ++ " -> " ++
              toString (selected (e.2 + 1)).length ++ " match(es)", false⟩]) ∧
      (trim isBlank path.toList = [] ∨ Path.normalize path.toList = [] ∨
          Token.scan (Path.normalize path.toList) = [] →
        ∀ trace, (Evaluation.evaluate trace document path).records = []) ∧
      ∀ steps,
        let s := initial.after steps
        (s.evaluate document (.text path)).records =
          (Evaluation.evaluate s.settings.traceSegments document path).records.filter
            fun r => (s.effectiveLevel none).severity ≤ r.level.severity := by
  refine ⟨Path.segments (Path.normalize path.toList), Path.parse_eq _, ?_⟩
  intro selected filtered
  have hselected : selected = fun i =>
      sweep ((Path.segments (Path.normalize path.toList)).take i) [document] :=
    funext fun i => traverse_value _ _ _
  refine ⟨?_, ?_, ?_, ?_⟩
  · intro s t
    rw [evaluate_value, evaluate_value]
    exact evaluate_value_eq _ _ document path
  · obtain ⟨k, hk, hbefore, hend, hrecords⟩ :=
      exists_traverse_records (Path.segments (Path.normalize path.toList)) [document]
    refine ⟨k, hk, ?_, ?_, ?_, ?_⟩
    · intro i hi hik
      rw [hselected]
      exact mt List.length_eq_zero_iff.mp (hbefore i hi hik)
    · rw [hselected]
      exact hend.imp_right List.length_eq_zero_iff.mpr
    · rw [evaluate_records, hrecords, recordsAt_false]
      simp only [filtered, hselected]
    · rw [evaluate_records, hrecords, recordsAt_true]
      simp only [filtered, hselected]
  · intro h trace
    apply evaluate_records_of_scan
    rcases h with hblank | hsigils | hbare
    · have hn : Path.normalize path.toList = [] :=
        by_contra fun hne => Path.trim_ne_nil_of_normalize hne hblank
      rw [hn, Token.scan_nil]
    · rw [hsigils, Token.scan_nil]
    · exact hbare
  · intro steps
    exact evaluate_kept (topOnly_after topOnly_initial steps) document path

example :
    (Evaluation.evaluate true (.object [("a", .list [.object []])])
      "$.a[?(@.b ~ 1)].c.d").records.map Record.logger =
        [Evaluation.loggerName, Condition.loggerName, Evaluation.loggerName,
          Evaluation.loggerName] := by
  decide +kernel

end Session
end PathQuery
