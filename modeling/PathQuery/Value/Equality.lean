import PathQuery.Value

/-! # Equality of values

Two values are equal when they are of the same kind and agree part by part; a list never equals a
tuple, and objects with the same entries in another order differ. -/

namespace PathQuery.Value

mutual

def same : Value → Value → Bool
  | null, null => true
  | bool a, bool b => a == b
  | number m, number n => m == n
  | text s, text t => s == t
  | list xs, list ys => sameAll xs ys
  | tuple xs, tuple ys => sameAll xs ys
  | object xs, object ys => sameEntries xs ys
  | _, _ => false

def sameAll : List Value → List Value → Bool
  | [], [] => true
  | x :: xs, y :: ys => x.same y && sameAll xs ys
  | _, _ => false

def sameEntries : List (String × Value) → List (String × Value) → Bool
  | [], [] => true
  | (k, x) :: xs, (l, y) :: ys => k == l && x.same y && sameEntries xs ys
  | _, _ => false

end

mutual

theorem same_iff : ∀ a b : Value, a.same b = true ↔ a = b
  | null, b => by cases b <;> simp [same]
  | bool a, b => by cases b <;> simp [same]
  | number m, b => by cases b <;> simp [same]
  | text s, b => by cases b <;> simp [same]
  | list xs, b => by cases b <;> simp [same, sameAll_iff xs]
  | tuple xs, b => by cases b <;> simp [same, sameAll_iff xs]
  | object xs, b => by cases b <;> simp [same, sameEntries_iff xs]

theorem sameAll_iff : ∀ xs ys : List Value, sameAll xs ys = true ↔ xs = ys
  | [], ys => by cases ys <;> simp [sameAll]
  | x :: xs, [] => by simp [sameAll]
  | x :: xs, y :: ys => by simp [sameAll, same_iff x y, sameAll_iff xs ys]

theorem sameEntries_iff : ∀ xs ys : List (String × Value), sameEntries xs ys = true ↔ xs = ys
  | [], ys => by cases ys <;> simp [sameEntries]
  | x :: xs, [] => by simp [sameEntries]
  | (k, x) :: xs, (l, y) :: ys => by
    simp [sameEntries, same_iff x y, sameEntries_iff xs ys]

end

instance : DecidableEq Value := fun a b => decidable_of_iff _ (same_iff a b)

end PathQuery.Value
