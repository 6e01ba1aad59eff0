/-! # Issues found by validation

An issue is a complaint about the part of the input at a location. Validation goes on after an issue
where it can, so a failed validation lists every issue, in order. -/

namespace PathQuery

inductive Complaint
  | notAList
  | notAnObject
  | kindMissing
  | kindUnknown
  | fieldMissing
  | fieldUnknown
  | fieldForbidden
  | notAText
  | notAnInteger
  | unreadableInteger
  | oversizedInteger
  | fractionalNumber
  | infiniteNumber
  | negativeNumber
  | notAFloat
  | notAChoice
  | notABoolean
  | unreadableBoolean
  deriving DecidableEq, Repr

def Complaint.code : Complaint → String
  | notAList => "list_type"
  | notAnObject => "model_attributes_type"
  | kindMissing => "union_tag_not_found"
  | kindUnknown => "union_tag_invalid"
  | fieldMissing => "missing"
  | fieldUnknown => "no_such_attribute"
  | fieldForbidden => "extra_forbidden"
  | notAText => "string_type"
  | notAnInteger => "int_type"
  | unreadableInteger => "int_parsing"
  | oversizedInteger => "int_parsing_size"
  | fractionalNumber => "int_from_float"
  | infiniteNumber => "finite_number"
  | negativeNumber => "greater_than_equal"
  | notAFloat => "float_type"
  | notAChoice => "literal_error"
  | notABoolean => "bool_type"
  | unreadableBoolean => "bool_parsing"

structure Issue where
  location : List String
  complaint : Complaint
  deriving DecidableEq, Repr

namespace Issue

def text (i : Issue) : String := ".".intercalate i.location ++ ": " ++ i.complaint.code

/-- The same issue seen from outside a part of the input. -/
def within (step : String) (i : Issue) : Issue := ⟨step :: i.location, i.complaint⟩

end Issue

/-- The outcome of a validation: a value, or all the issues that stand in its way. -/
inductive Checked (α : Type)
  | valid (a : α)
  | invalid (issues : List Issue)
  deriving DecidableEq, Repr

namespace Checked

def complain {α : Type} (location : List String) (c : Complaint) : Checked α :=
  invalid [⟨location, c⟩]

def issues {α : Type} : Checked α → List Issue
  | valid _ => []
  | invalid is => is

def map {α β : Type} (f : α → β) : Checked α → Checked β
  | valid a => valid (f a)
  | invalid is => invalid is

/-- Both outcomes; the issues of the first come before those of the second. -/
def both {α β : Type} (x : Checked α) (y : Checked β) : Checked (α × β) :=
  match x, y with
  | valid a, valid b => valid (a, b)
  | x, y => invalid (x.issues ++ y.issues)

def within {α : Type} (step : String) : Checked α → Checked α
  | valid a => valid a
  | invalid is => invalid (is.map (Issue.within step))

def failed {α : Type} : Checked α → Bool
  | valid _ => false
  | invalid _ => true

/-- A failed validation has something to complain about. -/
def Explained {α : Type} (x : Checked α) : Prop := x.failed = true → x.issues ≠ []

section
variable {α β : Type}

@[simp] theorem issues_map (f : α → β) (x : Checked α) : (x.map f).issues = x.issues := by
  cases x <;> rfl

@[simp] theorem issues_both (x : Checked α) (y : Checked β) :
    (x.both y).issues = x.issues ++ y.issues := by
  cases x <;> cases y <;> simp [both, issues]

@[simp] theorem issues_within (step : String) (x : Checked α) :
    (x.within step).issues = x.issues.map (Issue.within step) := by
  cases x <;> rfl

@[simp] theorem failed_map (f : α → β) (x : Checked α) : (x.map f).failed = x.failed := by
  cases x <;> rfl

@[simp] theorem failed_both (x : Checked α) (y : Checked β) :
    (x.both y).failed = (x.failed || y.failed) := by
  cases x <;> cases y <;> rfl

@[simp] theorem failed_within (step : String) (x : Checked α) :
    (x.within step).failed = x.failed := by
  cases x <;> rfl

@[simp] theorem map_eq_valid_iff {f : α → β} {x : Checked α} {b : β} :
    x.map f = valid b ↔ ∃ a, x = valid a ∧ f a = b := by
  cases x <;> simp [map]

@[simp] theorem both_eq_valid_iff {x : Checked α} {y : Checked β} {p : α × β} :
    x.both y = valid p ↔ x = valid p.1 ∧ y = valid p.2 := by
  cases x <;> cases y <;> simp [both, Prod.ext_iff]

@[simp] theorem within_eq_valid_iff {step : String} {x : Checked α} {a : α} :
    x.within step = valid a ↔ x = valid a := by
  cases x <;> simp [within]

theorem explained_valid (a : α) : (valid a).Explained := nofun

theorem explained_complain (location : List String) (c : Complaint) :
    (complain location c : Checked α).Explained := fun _ => by simp [complain, issues]

theorem Explained.map {x : Checked α} (h : x.Explained) (f : α → β) : (x.map f).Explained := by
  simpa [Explained] using h

theorem Explained.within {x : Checked α} (h : x.Explained) (step : String) :
    (x.within step).Explained := by
  simpa [Explained] using h

theorem Explained.both {x : Checked α} {y : Checked β} (hx : x.Explained) (hy : y.Explained) :
    (x.both y).Explained := by
  intro h
  rw [issues_both]
  rcases Bool.or_eq_true_iff.mp ((failed_both x y).symm.trans h) with h | h
  · exact List.append_ne_nil_of_left_ne_nil (hx h) _
  · exact List.append_ne_nil_of_right_ne_nil _ (hy h)

end

end Checked
end PathQuery
