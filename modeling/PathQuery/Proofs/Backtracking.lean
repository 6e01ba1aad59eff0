import Mathlib
import PathQuery.Text.Backtracking

/-!
# Matching with backtracking

A match that offers the runs of a class one after the other fails exactly when every run is refused.
When the longest run is taken, or every shorter one is refused, backtracking changes nothing.
-/
namespace PathQuery.Text

variable {α : Type} {p : Char → Bool} {s : List Char} {next : List Char → List Char → Option α}

theorem giveBack_eq_none_iff {run rest : List Char} :
    giveBack next run rest = none ↔
      ∀ front back, run.reverse = front ++ back → next front (back ++ rest) = none := by
  induction run generalizing rest with
  | nil =>
    constructor
    · intro h front back he
      obtain ⟨rfl, rfl⟩ := List.append_eq_nil_iff.mp he.symm
      exact h
    · intro h
      exact h [] [] rfl
  | cons c run ih =>
    rw [giveBack, Option.orElse_eq_none, ih]
    constructor
    · rintro ⟨hlong, hshort⟩ front back he
      rcases List.eq_nil_or_concat back with rfl | ⟨back, d, rfl⟩
      · rw [List.append_nil] at he
        rw [← he]
        exact hlong
      · have hsplit : run.reverse ++ [c] = (front ++ back) ++ [d] := by
          simpa using he
        obtain ⟨hfront, hd⟩ := List.append_inj' hsplit rfl
        cases hd
        simpa using hshort front back hfront
    · intro h
      refine ⟨by simpa using h (c :: run).reverse [] (by simp), fun front back he => ?_⟩
      simpa using h front (back ++ [c]) (by simp [he])

theorem exists_of_giveBack {run rest : List Char} {a : α} (h : giveBack next run rest = some a) :
    ∃ front back, run.reverse = front ++ back ∧ next front (back ++ rest) = some a := by
  induction run generalizing rest with
  | nil => exact ⟨[], [], rfl, h⟩
  | cons c run ih =>
    rw [giveBack, Option.orElse_eq_orElse, Option.orElse_eq_or, Option.or_eq_some_iff] at h
    rcases h with hlong | ⟨-, hshort⟩
    · exact ⟨(c :: run).reverse, [], by simp, hlong⟩
    · obtain ⟨front, back, he, ha⟩ := ih hshort
      exact ⟨front, back ++ [c], by simp [he], by simpa using ha⟩

theorem takeWhile_of_longest {run rest : List Char} (h : ∀ c ∈ run, p c = true)
    (hrest : ∀ c ∈ rest.head?, p c = false) :
    (run ++ rest).takeWhile p = run ∧ (run ++ rest).dropWhile p = rest := by
  rw [List.takeWhile_append_of_pos h, List.dropWhile_append_of_pos h]
  cases rest with
  | nil => simp
  | cons c rest =>
    have hc : p c = false := hrest c rfl
    simp [hc]

theorem eq_false_of_mem_head?_dropWhile (p : Char → Bool) (s : List Char) :
    ∀ c ∈ (s.dropWhile p).head?, p c = false := by
  intro c hc
  have hnot := List.head?_dropWhile_not p s
  rw [Option.mem_def.mp hc] at hnot
  simpa using hnot

theorem takeRun_eq_none_iff :
    takeRun p s next = none ↔
      ∀ run rest, s = run ++ rest → (∀ c ∈ run, p c = true) → next run rest = none := by
  rw [takeRun, giveBack_eq_none_iff, List.reverse_reverse]
  constructor
  · rintro h run rest rfl hrun
    have hnext := h run (rest.takeWhile p) (List.takeWhile_append_of_pos hrun)
    rwa [List.dropWhile_append_of_pos hrun, List.takeWhile_append_dropWhile] at hnext
  · intro h front back he
    refine h front _ ?_ fun c hc => ?_
    · rw [← List.append_assoc, ← he, List.takeWhile_append_dropWhile]
    · exact List.mem_takeWhile_imp (he ▸ List.mem_append_left back hc)

theorem exists_of_takeRun {a : α} (h : takeRun p s next = some a) :
    ∃ run rest, s = run ++ rest ∧ (∀ c ∈ run, p c = true) ∧ next run rest = some a := by
  obtain ⟨front, back, he, ha⟩ := exists_of_giveBack h
  rw [List.reverse_reverse] at he
  refine ⟨front, _, ?_, fun c hc => ?_, ha⟩
  · rw [← List.append_assoc, ← he, List.takeWhile_append_dropWhile]
  · exact List.mem_takeWhile_imp (he ▸ List.mem_append_left back hc)

theorem takeRun_of_longest {a : α} (h : next (s.takeWhile p) (s.dropWhile p) = some a) :
    takeRun p s next = some a := by
  unfold takeRun
  cases hrun : (s.takeWhile p).reverse with
  | nil =>
    rw [List.reverse_eq_nil_iff] at hrun
    rwa [hrun] at h
  | cons c run =>
    have hlong : (c :: run).reverse = s.takeWhile p := by rw [← hrun, List.reverse_reverse]
    rw [giveBack, hlong, h, Option.orElse_eq_orElse, Option.orElse_eq_or, Option.some_or]

/-- Where no run that could be longer is taken, only the longest is. -/
theorem takeRun_of_refused
    (h : ∀ run c rest, s = run ++ c :: rest → p c = true → next run (c :: rest) = none) :
    takeRun p s next = next (s.takeWhile p) (s.dropWhile p) := by
  cases hlong : next (s.takeWhile p) (s.dropWhile p) with
  | some a => exact takeRun_of_longest hlong
  | none =>
    refine takeRun_eq_none_iff.mpr fun run rest he hrun => ?_
    subst he
    rw [List.takeWhile_append_of_pos hrun, List.dropWhile_append_of_pos hrun] at hlong
    cases rest with
    | nil => simpa using hlong
    | cons c rest =>
      cases hc : p c with
      | true => exact h run c rest rfl hc
      | false => simpa [hc] using hlong

/-- A run that nothing refuses is the longest. -/
theorem takeSome_some (f : List Char → List Char → α) :
    takeSome p s (fun run rest => some (f run rest)) =
      if s.takeWhile p = [] then none else some (f (s.takeWhile p) (s.dropWhile p)) := by
  unfold takeSome
  split
  · rename_i hnil
    refine takeRun_eq_none_iff.mpr fun run rest he hrun => ?_
    subst he
    rw [List.takeWhile_append_of_pos hrun] at hnil
    rw [(List.append_eq_nil_iff.mp hnil).1]
    rfl
  · rename_i hne
    exact takeRun_of_longest (by simp [hne])

theorem takeExactly_eq_some_iff {piece : List Char} {following : List Char → Option α} {a : α} :
    takeExactly piece s following = some a ↔
      ∃ rest, s = piece ++ rest ∧ following rest = some a := by
  unfold takeExactly
  split
  · rename_i hp
    obtain ⟨rest, rfl⟩ := List.isPrefixOf_iff_prefix.mp hp
    simp
  · rename_i hp
    constructor
    · intro h
      exact absurd h (by simp)
    · rintro ⟨rest, rfl, -⟩
      exact absurd (List.isPrefixOf_iff_prefix.mpr (List.prefix_append _ _)) hp

theorem takeExactly_append (piece rest : List Char) (following : List Char → Option α) :
    takeExactly piece (piece ++ rest) following = following rest := by
  rw [takeExactly, if_pos (List.isPrefixOf_iff_prefix.mpr (List.prefix_append _ _)), List.drop_left]

end PathQuery.Text
