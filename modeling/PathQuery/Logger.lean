import PathQuery.Record

/-! # Loggers

Loggers are arranged by their dotted names, and a logger comes into being when it is asked for. One
with a level of its own is effective at that level; any other takes the level of the nearest logger
above it that has one, and in the end that of the root. All loggers asked for have the top logger's
name, with a dot behind it or alone. -/

namespace PathQuery

/-- A level of its own, or none. -/
inductive Threshold
  | unset
  | atLeast (l : Level)
  deriving DecidableEq, Repr

namespace Threshold

def name : Threshold → String
  | unset => "NOTSET"
  | atLeast l => l.name

/-- The names by which a threshold is set, with two older spellings. -/
def ofName? (s : String) : Option Threshold :=
  if s = "NOTSET" then some unset
  else if s = "WARN" then some (atLeast .warning)
  else if s = "FATAL" then some (atLeast .critical)
  else (Level.ofName? s).map atLeast

theorem ofName?_name (t : Threshold) : ofName? t.name = some t := by
  rcases t with _ | l
  · decide
  · cases l <;> decide

end Threshold

/-- The loggers that exist, by name, each with a level of its own or none. -/
abbrev Loggers := List (String × Threshold)

namespace Loggers

def topName : String := "jsonpath_tester"

def topDot : List Char := topName.toList ++ ['.']

def rootLevel : Level := .warning

def fullName : Option String → String
  | none => topName
  | some s =>
    if s = "" ∨ s = topName then topName
    else if topDot.isPrefixOf s.toList then s
    else String.ofList (topDot ++ s.toList)

def has (loggers : Loggers) (name : String) : Bool := loggers.any (·.1 == name)

/-- A logger that is asked for exists from then on, first without a level of its own. -/
def ask (loggers : Loggers) (name : String) : Loggers :=
  if loggers.has name then loggers else (name, .unset) :: loggers

/-- The loggers above a name, the nearest first; the name is given in reverse. What stands in front
of a dot names a logger above, if there is one of that name. If there is none, the character in
front of the dot is passed over, so that of two dots side by side the first counts for nothing. -/
def above (loggers : Loggers) : List Char → List String
  | '.' :: c :: s =>
    if loggers.has (String.ofList (c :: s).reverse) then
      String.ofList (c :: s).reverse :: above loggers (c :: s)
    else above loggers s
  | _ :: s => above loggers s
  | [] => []

/-- A logger's name and the names of the loggers above it, the nearest first. -/
def lineage (loggers : Loggers) (name : String) : List String :=
  name :: loggers.above name.toList.reverse

def own (loggers : Loggers) (name : String) : Threshold := (loggers.lookup name).getD .unset

def set (loggers : Loggers) (name : String) (t : Threshold) : Loggers :=
  (name, t) :: loggers.filter (·.1 != name)

/-- The level of the first name that has one of its own. -/
def firstLevel (loggers : Loggers) : List String → Level
  | [] => rootLevel
  | name :: rest =>
    match loggers.own name with
    | .atLeast l => l
    | .unset => firstLevel loggers rest

def effective (loggers : Loggers) (name : String) : Level := loggers.firstLevel (loggers.lineage name)

theorem above_dot (loggers : Loggers) {s : List Char} (h : s ≠ []) :
    loggers.above ('.' :: s) =
      if loggers.has (String.ofList s.reverse) then
        String.ofList s.reverse :: loggers.above s
      else loggers.above s.tail := by
  cases s with
  | nil => exact absurd rfl h
  | cons c s => simp only [above, List.tail_cons]

theorem above_cons (loggers : Loggers) {c : Char} (h : c ≠ '.') (s : List Char) :
    loggers.above (c :: s) = loggers.above s := by
  rw [above]
  intro d t hc
  exact absurd hc h

theorem own_set (loggers : Loggers) (name : String) (t : Threshold) :
    (loggers.set name t).own name = t := by
  simp [own, set]

theorem own_set_of_ne {loggers : Loggers} {name other : String} (h : other ≠ name)
    (t : Threshold) : (loggers.set name t).own other = loggers.own other := by
  have hother : (loggers.filter (·.1 != name)).lookup other = loggers.lookup other := by
    induction loggers with
    | nil => rfl
    | cons e rest ih =>
      obtain ⟨first, level⟩ := e
      by_cases hf : first = name
      · simp [hf, List.lookup_cons, beq_false_of_ne h, ih]
      · simp [hf, List.lookup_cons, ih]
  rw [own, set, List.lookup_cons, beq_false_of_ne h, own, hother]

theorem own_of_not_has {loggers : Loggers} {name : String} (h : loggers.has name = false) :
    loggers.own name = .unset := by
  have hnone : loggers.lookup name = none := by
    rw [List.lookup_eq_none_iff]
    intro e he
    have hne : e.1 ≠ name := by simpa using List.any_eq_false.mp h e he
    exact bne_iff_ne.mpr hne.symm
  rw [own, hnone]
  rfl

theorem own_ask (loggers : Loggers) (name other : String) :
    (loggers.ask name).own other = loggers.own other := by
  cases hhas : loggers.has name with
  | true => rw [ask, hhas, if_pos rfl]
  | false =>
    rw [ask, hhas, if_neg (by decide)]
    by_cases hn : other = name
    · rw [hn, own_of_not_has hhas]
      simp [own]
    · rw [own, List.lookup_cons, beq_false_of_ne hn]
      rfl

end Loggers
end PathQuery
