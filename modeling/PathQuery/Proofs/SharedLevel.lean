import Mathlib
import PathQuery.Proofs.Steps

/-!
# The level that loggers share

Only the top logger is ever given a level of its own. So every logger is effective at the level of the
top logger if that stands above it, and at the level of the root otherwise. The top logger stands above
every name that has one dot behind the top name; behind a second dot a logger can miss it.
-/
namespace PathQuery

namespace Loggers

/-- What a full name begins with when two dots stand behind the top name. -/
def topDots : List Char := topDot ++ ['.']

theorem reverse_topDot : topDot.reverse = '.' :: topName.toList.reverse := by
  simp [topDot]

theorem reverse_topDots : topDots.reverse = '.' :: topDot.reverse := by
  simp [topDots]

theorem has_ask (loggers : Loggers) (name other : String) :
    (loggers.ask name).has other = (loggers.has other || name == other) := by
  cases hhas : loggers.has name with
  | true =>
    rw [ask, hhas, if_pos rfl]
    by_cases hn : name = other
    · simp [← hn, hhas]
    · simp [hn]
  | false =>
    rw [ask, hhas, if_neg (by decide), has, List.any_cons, Bool.or_comm]
    rfl

/-! ## Which loggers stand above a name -/

theorem above_eq_nil (loggers : Loggers) {s : List Char} (h : '.' ∉ s) : loggers.above s = [] := by
  induction s with
  | nil => rfl
  | cons c s ih =>
    rw [above_cons loggers (fun hc => h (by simp [hc]))]
    exact ih fun hs => h (List.mem_cons_of_mem c hs)

/-- Only shorter names are looked for above a name. -/
theorem above_congr {loggers other : Loggers} {s : List Char}
    (h : ∀ name : String, name.length < s.length → loggers.has name = other.has name) :
    loggers.above s = other.above s := by
  induction s using List.twoStepInduction with
  | nil => rfl
  | singleton c =>
    by_cases hc : c = '.'
    · rw [hc]
      rfl
    · rw [above_cons _ hc, above_cons _ hc]
      rfl
  | cons_cons c d s ih ih₁ =>
    have hlater := ih₁ d fun name hn => h name (by simp at hn ⊢; omega)
    have hlast := ih fun name hn => h name (by simp; omega)
    by_cases hc : c = '.'
    · rw [hc, above_dot _ (by simp), above_dot _ (by simp), hlater, List.tail_cons, hlast,
        h _ (by simp)]
    · rw [above_cons _ hc, above_cons _ hc, hlater]

/-- One dot behind the top name is never passed over. -/
theorem topName_mem_above {loggers : Loggers} (htop : loggers.has topName = true) {front : List Char}
    (hfront : ¬ ['.'] <:+ front) : topName ∈ loggers.above (front ++ topDot.reverse) := by
  have hdot : topName ∈ loggers.above topDot.reverse := by
    rw [reverse_topDot, above_dot loggers (by decide), List.reverse_reverse, String.ofList_toList,
      if_pos htop]
    exact List.mem_cons_self
  induction front using List.twoStepInduction with
  | nil => exact hdot
  | singleton c =>
    have hc : c ≠ '.' := by
      rintro rfl
      exact hfront (List.suffix_refl _)
    rw [List.singleton_append, above_cons loggers hc]
    exact hdot
  | cons_cons c d s ih ih₁ =>
    have hlater : topName ∈ loggers.above (d :: s ++ topDot.reverse) :=
      ih₁ d fun hd => hfront (hd.trans (List.suffix_cons c _))
    have hlast : topName ∈ loggers.above (s ++ topDot.reverse) :=
      ih fun hs => hfront (hs.trans ((List.suffix_cons d s).trans (List.suffix_cons c _)))
    rw [List.cons_append]
    by_cases hc : c = '.'
    · rw [hc, above_dot loggers (by simp)]
      split
      · exact List.mem_cons_of_mem _ hlater
      · exact hlast
    · rw [above_cons loggers hc]
      exact hlater

theorem topName_ne_of_topDots (front : List Char) :
    topName ≠ String.ofList (front ++ topDots.reverse).reverse := by
  intro h
  have hl := congrArg String.length h
  have htop : topName.length = 15 := by decide +kernel
  have hdots : topDots.length = 17 := by decide +kernel
  simp [htop, hdots] at hl
  omega

/-- Where the name with two dots has a logger and the one with a single dot has none, the search for the
top logger always ends in front of the second dot and passes over the first. -/
theorem topName_notMem_above {loggers : Loggers}
    (hone : loggers.has (String.ofList topDot) = false)
    (htwo : loggers.has (String.ofList topDots) = true) (front : List Char) :
    topName ∉ loggers.above (front ++ topDots.reverse) := by
  have hdots : loggers.above topDots.reverse = [] := by
    rw [reverse_topDots, above_dot loggers (by decide), List.reverse_reverse, hone, if_neg (by decide),
      reverse_topDot, List.tail_cons]
    exact above_eq_nil loggers (by decide +kernel)
  induction front using List.twoStepInduction with
  | nil => simp [hdots]
  | singleton c =>
    rw [List.singleton_append]
    by_cases hc : c = '.'
    · rw [hc, above_dot loggers (by decide), List.reverse_reverse, htwo, if_pos rfl, hdots,
        List.mem_singleton]
      simpa using topName_ne_of_topDots []
    · rw [above_cons loggers hc, hdots]
      exact List.not_mem_nil
  | cons_cons c d s ih ih₁ =>
    rw [List.cons_append]
    by_cases hc : c = '.'
    · rw [hc, above_dot loggers (by simp)]
      split
      · rw [List.mem_cons, not_or]
        exact ⟨topName_ne_of_topDots (d :: s), ih₁ d⟩
      · exact ih
    · rw [above_cons loggers hc]
      exact ih₁ d

/-! ## The levels of all loggers -/

/-- No logger but the top logger has a level of its own. -/
def TopOnly (loggers : Loggers) : Prop := ∀ name, name ≠ topName → loggers.own name = .unset

theorem TopOnly.set {loggers : Loggers} (h : TopOnly loggers) (t : Threshold) :
    TopOnly (loggers.set topName t) := by
  intro name hn
  rw [own_set_of_ne hn]
  exact h name hn

theorem TopOnly.ask {loggers : Loggers} (h : TopOnly loggers) (name : String) :
    TopOnly (loggers.ask name) := by
  intro other hn
  rw [own_ask]
  exact h other hn

theorem firstLevel_of_unset {loggers : Loggers} {names : List String}
    (h : ∀ name ∈ names, loggers.own name = .unset) : loggers.firstLevel names = rootLevel := by
  induction names with
  | nil => rfl
  | cons name rest ih =>
    rw [firstLevel, h name (by simp)]
    exact ih fun other ho => h other (List.mem_cons_of_mem name ho)

theorem effective_topName (loggers : Loggers) :
    loggers.effective topName =
      match loggers.own topName with
      | .atLeast l => l
      | .unset => rootLevel := by
  have hnone : loggers.above topName.toList.reverse = [] := above_eq_nil loggers (by decide +kernel)
  rw [effective, lineage, hnone, firstLevel]
  rfl

theorem TopOnly.firstLevel_eq {loggers : Loggers} (h : TopOnly loggers) {names : List String}
    (hmem : topName ∈ names) : loggers.firstLevel names = loggers.effective topName := by
  rw [effective_topName]
  induction names with
  | nil => cases hmem
  | cons name rest ih =>
    by_cases hn : name = topName
    · rw [hn, firstLevel]
      cases ht : loggers.own topName with
      | atLeast l => rfl
      | unset =>
        refine firstLevel_of_unset fun other _ => ?_
        by_cases ho : other = topName
        · rw [ho, ht]
        · exact h other ho
    · rw [firstLevel, h name hn]
      exact ih ((List.mem_cons.mp hmem).resolve_left (Ne.symm hn))

theorem TopOnly.effective_eq_rootLevel {loggers : Loggers} (h : TopOnly loggers) {name : String}
    (hn : topName ∉ loggers.lineage name) : loggers.effective name = rootLevel :=
  firstLevel_of_unset fun other ho => h other (ne_of_mem_of_not_mem ho hn)

theorem TopOnly.effective_cases {loggers : Loggers} (h : TopOnly loggers) (name : String) :
    loggers.effective name = loggers.effective topName ∨ loggers.effective name = rootLevel := by
  by_cases hn : topName ∈ loggers.lineage name
  · exact Or.inl (h.firstLevel_eq hn)
  · exact Or.inr (h.effective_eq_rootLevel hn)

theorem TopOnly.effective_eq {loggers : Loggers} (h : TopOnly loggers) {name : String}
    (hname : topDot <+: name.toList) (hdots : ¬ topDots <+: name.toList) :
    loggers.effective name = loggers.effective topName := by
  obtain ⟨back, hb⟩ := hname
  cases htop : loggers.has topName with
  | false =>
    -- Nothing has a level of its own then.
    have hunset : ∀ other, loggers.own other = .unset := by
      intro other
      by_cases ho : other = topName
      · rw [ho, own_of_not_has htop]
      · exact h other ho
    rw [effective, effective, firstLevel_of_unset fun other _ => hunset other,
      firstLevel_of_unset fun other _ => hunset other]
  | true =>
    have hback : ¬ ['.'] <:+ back.reverse := by
      intro hs
      have hprefix : ['.'] <+: back := List.reverse_suffix.mp hs
      exact hdots (by rw [← hb]; exact (List.prefix_append_right_inj topDot).mpr hprefix)
    refine h.firstLevel_eq (List.mem_cons_of_mem _ ?_)
    rw [← hb, List.reverse_append]
    exact topName_mem_above htop hback

theorem effective_ask (loggers : Loggers) (name : String) :
    (loggers.ask name).effective name = loggers.effective name := by
  have habove : (loggers.ask name).above name.toList.reverse = loggers.above name.toList.reverse := by
    refine above_congr fun other ho => ?_
    have hne : name ≠ other := by
      rintro rfl
      rw [List.length_reverse, String.length_toList] at ho
      exact absurd ho (Nat.lt_irrefl _)
    simp [has_ask, hne]
  have hlevel : ∀ names, (loggers.ask name).firstLevel names = loggers.firstLevel names := by
    intro names
    induction names with
    | nil => rfl
    | cons other rest ih => rw [firstLevel, firstLevel, own_ask, ih]
  rw [effective, effective, hlevel, lineage, lineage, habove]

/-! ## Full names -/

theorem fullName_of_prefix {name : String} (h : topDot <+: name.toList) :
    fullName (some name) = name := by
  have hne : ¬ (name = "" ∨ name = topName) := by
    rintro (rfl | rfl)
    · exact absurd h (by decide +kernel)
    · exact absurd h (by decide +kernel)
  rw [fullName, if_neg hne, if_pos (List.isPrefixOf_iff_prefix.mpr h)]

theorem fullName_cases (name : Option String) :
    fullName name = topName ∨ topDot <+: (fullName name).toList := by
  cases name with
  | none => exact Or.inl rfl
  | some s =>
    rw [fullName]
    split_ifs with hs hp
    · exact Or.inl rfl
    · exact Or.inr (List.isPrefixOf_iff_prefix.mp hp)
    · rw [String.toList_ofList]
      exact Or.inr (List.prefix_append _ _)

theorem fullName_fullName (name : Option String) :
    fullName (some (fullName name)) = fullName name := by
  rcases fullName_cases name with h | h
  · rw [h]
    decide +kernel
  · exact fullName_of_prefix h

end Loggers

namespace Session
open Loggers

theorem topOnly_step {s : Session} (h : s.loggers.TopOnly) (x : Step) :
    (s.step x).1.loggers.TopOnly := by
  have hmove := s.move_step x
  generalize s.step x = outcome at hmove
  cases hmove with
  | configured level label t ht => exact h.set t
  | named name effective => exact h.ask _
  | _ => exact h

theorem topOnly_after {s : Session} (h : s.loggers.TopOnly) (steps : List Step) :
    (s.after steps).loggers.TopOnly := by
  induction steps generalizing s with
  | nil => exact h
  | cons x rest ih =>
    rw [after_cons]
    exact ih (topOnly_step h x)

theorem topOnly_initial : initial.loggers.TopOnly := by
  intro name _
  simp only [initial, initialLoggers, own, List.map_cons, List.map_nil, List.lookup_cons]
  split
  · rfl
  · split
    · rfl
    · split <;> rfl

theorem answer_getLogger (s : Session) (name : Option String) :
    (s.step (.getLogger name)).2 = .ok (.logger (fullName name) (s.effectiveLevel name)) := by
  rw [step, getLogger, effectiveLevel, effectiveLevel, effective_ask]

theorem effectiveLevel_none (s : Session) :
    s.effectiveLevel none =
      match s.loggers.own topName with
      | .atLeast l => l
      | .unset => rootLevel := effective_topName s.loggers

theorem effectiveLevel_eq {s : Session} (h : s.loggers.TopOnly) {name : Option String}
    (hdots : ¬ topDots <+: (fullName name).toList) : s.effectiveLevel name = s.effectiveLevel none := by
  rw [effectiveLevel, effectiveLevel]
  rcases fullName_cases name with hname | hname
  · rw [hname]
    rfl
  · exact h.effective_eq hname hdots

/-- A session in which every logger behind two dots has lost the level of the top logger. -/
def detaching : List Step :=
  [.configure (some "DEBUG") none, .getLogger (some (String.ofList topDots))]

theorem effectiveLevel_detaching {name : Option String} (h : topDots <+: (fullName name).toList) :
    (initial.after detaching).effectiveLevel name = .warning := by
  obtain ⟨back, hb⟩ := h
  refine (topOnly_after topOnly_initial detaching).effective_eq_rootLevel ?_
  have hone : (initial.after detaching).loggers.has (String.ofList topDot) = false := by
    decide +kernel
  have htwo : (initial.after detaching).loggers.has (String.ofList topDots) = true := by
    decide +kernel
  rw [lineage, List.mem_cons, not_or]
  constructor
  · simpa [hb] using topName_ne_of_topDots back.reverse
  · rw [← hb, List.reverse_append]
    exact topName_notMem_above hone htwo back.reverse

/-- The loggers of a session. A name leads to the top logger or to one whose name begins with the top
name and a dot, and the name of a logger leads to that logger again, at the level that the logger is
effective at. The top logger is effective at its own level, or else at that of the root. Any other is
effective at one of these two, and it shares the level of the top logger in every session exactly when
no second dot stands behind the top name. -/
theorem logger_levels (name : Option String) :
    let full := fullName name
    (full = "jsonpath_tester" ∨ "jsonpath_tester.".toList <+: full.toList) ∧
    fullName (some full) = full ∧
    (∀ steps,
      let s := initial.after steps
      (s.step (.getLogger name)).2 = .ok (.logger full (s.effectiveLevel name)) ∧
      ((s.step (.getLogger name)).1.step (.getLogger (some full))).2 =
        (s.step (.getLogger name)).2 ∧
      (s.effectiveLevel none =
        match s.loggers.own "jsonpath_tester" with
        | .atLeast l => l
        | .unset => .warning) ∧
      (s.effectiveLevel name = s.effectiveLevel none ∨ s.effectiveLevel name = .warning)) ∧
    ((∀ steps, (initial.after steps).effectiveLevel name = (initial.after steps).effectiveLevel none) ↔
      ¬ "jsonpath_tester..".toList <+: full.toList) := by
  intro full
  have hdot : "jsonpath_tester.".toList = topDot := by decide +kernel
  have hdots : "jsonpath_tester..".toList = topDots := by decide +kernel
  have hfull : fullName (some full) = full := fullName_fullName name
  rw [hdot, hdots]
  refine ⟨fullName_cases name, hfull, ?_, ?_, ?_⟩
  · intro steps s
    have htop : s.loggers.TopOnly := topOnly_after topOnly_initial steps
    refine ⟨answer_getLogger s name, ?_, effectiveLevel_none s, htop.effective_cases full⟩
    have hasked : (s.step (.getLogger name)).1.effectiveLevel (some full) = s.effectiveLevel name := by
      rw [effectiveLevel, hfull]
      exact effective_ask s.loggers full
    rw [answer_getLogger, answer_getLogger, hfull, hasked]
  · intro h hprefix
    have hlevel := h detaching
    rw [effectiveLevel_detaching hprefix] at hlevel
    exact absurd hlevel (by decide +kernel)
  · intro h steps
    exact effectiveLevel_eq (topOnly_after topOnly_initial steps) h

/-- Behind a second dot the level of the top logger is lost. -/
theorem level_lost_behind_dots :
    let s := initial.after [.configure (some "DEBUG") none]
    s.effectiveLevel none = .debug ∧
      (s.step (.getLogger (some ".x"))).2 = .ok (.logger "jsonpath_tester..x" .warning) := by
  decide +kernel

end Session
end PathQuery
