import Mathlib
import PathQuery.Proofs.Reading
import PathQuery.Segment.Validation

/-!
# Segments as values

Every segment is read back from its form as a value, so whatever a list is validated as, its form as a
value is validated as the same again. The members of a list are validated apart from each other: the list
fails when one of them does, and its issues are those of its members, each at the place of its member.
-/
namespace PathQuery.Segment

/-! ## One segment -/

theorem map_fst_fields (s : Segment) : s.fields.map Prod.fst = s.kind.fieldNames := by
  cases s <;> rfl

theorem refuseOthers_of_known {entries : List (String × Value)} {known : List String}
    (h : ∀ e ∈ entries, e.1 ∈ known) : refuseOthers entries known = .valid () := by
  have hnone : (entries.filter fun e => !known.contains e.1) = [] := by
    rw [List.filter_eq_nil_iff]
    intro e he
    simp [h e he]
  rw [refuseOthers, hnone]

theorem refuseOthers_entries (s : Segment) :
    refuseOthers s.entries ("kind" :: s.kind.fieldNames) = .valid () := by
  apply refuseOthers_of_known
  intro e he
  rcases List.mem_cons.mp he with rfl | he
  · exact List.mem_cons_self
  · rw [← map_fst_fields]
    exact List.mem_cons_of_mem _ (List.mem_map_of_mem he)

theorem readPosition_int (position : Nat) :
    readPosition (some (.int position)) = .valid position := by
  have hn : ¬ (position : Int) < 0 := by omega
  simp [readPosition, Value.int, readInteger, natural, hn]

theorem readLimit_boundValue (bound : Option Int) :
    readLimit (some (boundValue bound)) = .valid bound := by
  cases bound <;> rfl

theorem readField_of_lookup {α : Type} {entries : List (String × Value)} {name : String} {v : Value}
    (h : entries.lookup name = some v) {read : Option Value → Checked α} {a : α}
    (hv : read (some v) = .valid a) : readField entries name read = .valid a := by
  rw [readField, h, hv]
  rfl

theorem readFields_entries (s : Segment) : s.kind.readFields s.entries = .valid s := by
  cases s with
  | wildcard => rfl
  | index position =>
    simp only [kind, Kind.readFields, Checked.map_eq_valid_iff]
    exact ⟨position, readField_of_lookup rfl (readPosition_int position), rfl⟩
  | slice start stop =>
    simp only [kind, Kind.readFields, Checked.map_eq_valid_iff, Checked.both_eq_valid_iff]
    exact ⟨(start, stop), ⟨readField_of_lookup rfl (readLimit_boundValue start),
      readField_of_lookup rfl (readLimit_boundValue stop)⟩, rfl⟩
  | child name | recursive name | key name | filter name =>
    simp only [kind, Kind.readFields, Checked.map_eq_valid_iff]
    exact ⟨name, readField_of_lookup rfl rfl, rfl⟩

theorem ofValue_toValue (s : Segment) : ofValue s.toValue = .valid s := by
  have hkind : s.entries.lookup "kind" = some (.text s.kind.name) := rfl
  have hboth := Checked.both_eq_valid_iff (p := (s, ())).mpr
    ⟨readFields_entries s, refuseOthers_entries s⟩
  rw [toValue, ofValue, ofEntries, hkind]
  simp only [Kind.ofName?_name, Kind.read, Checked.within_eq_valid_iff]
  exact Checked.map_eq_valid_iff.mpr ⟨(s, ()), hboth, rfl⟩

/-! ## Every failure is explained -/

theorem explained_readText (v : Option Value) : (readText v).Explained := by
  unfold readText
  split
  · exact Checked.explained_complain _ _
  · exact Checked.explained_valid _
  · exact Checked.explained_complain _ _

theorem explained_readInteger (v : Value) : (readInteger v).Explained := by
  unfold readInteger readFloat
  split
  · exact Checked.explained_valid _
  · exact Checked.explained_valid _
  · split
    · exact Checked.explained_valid _
    · exact Checked.explained_complain _ _
  · split
    · exact Checked.explained_valid _
    · exact Checked.explained_complain _ _
  · exact Checked.explained_complain _ _

theorem explained_natural {x : Checked Int} (h : x.Explained) : (natural x).Explained := by
  cases x with
  | invalid issues => exact h
  | valid n =>
    rw [natural]
    split
    · exact Checked.explained_complain _ _
    · exact Checked.explained_valid _

theorem explained_readPosition (v : Option Value) : (readPosition v).Explained := by
  cases v with
  | none => exact Checked.explained_complain _ _
  | some v => exact explained_natural (explained_readInteger v)

theorem explained_readLimit (v : Option Value) : (readLimit v).Explained := by
  unfold readLimit
  split
  · exact Checked.explained_valid _
  · exact Checked.explained_valid _
  · exact (explained_readInteger _).map _

theorem explained_refuseOthers (entries : List (String × Value)) (known : List String) :
    (refuseOthers entries known).Explained := by
  unfold refuseOthers
  cases entries.filter fun e => !known.contains e.1 with
  | nil => exact Checked.explained_valid _
  | cons e others =>
    intro _
    simp [Checked.issues]

theorem explained_readFields (entries : List (String × Value)) (k : Kind) :
    (k.readFields entries).Explained := by
  cases k with
  | wildcard => exact Checked.explained_valid _
  | index => exact ((explained_readPosition _).within _).map _
  | slice => exact (((explained_readLimit _).within _).both ((explained_readLimit _).within _)).map _
  | child | recursive | key | filter => exact ((explained_readText _).within _).map _

theorem explained_ofValue (v : Value) : (ofValue v).Explained := by
  unfold ofValue ofEntries
  split
  · split
    · exact Checked.explained_complain _ _
    · split
      · exact (((explained_readFields _ _).both (explained_refuseOthers _ _)).map _).within _
      · exact Checked.explained_complain _ _
    · exact Checked.explained_complain _ _
  · exact Checked.explained_complain _ _

/-! ## Lists of segments -/

theorem ofValues_eq_valid_iff {position : Nat} {items : List Value} {segments : List Segment} :
    ofValues position items = .valid segments ↔
      List.Forall₂ (fun v s => ofValue v = .valid s) items segments := by
  induction items generalizing position segments with
  | nil => simp [ofValues, eq_comm]
  | cons v rest ih =>
    simp only [ofValues, Checked.map_eq_valid_iff, Checked.both_eq_valid_iff,
      Checked.within_eq_valid_iff, ih, List.forall₂_cons_left_iff]
    constructor
    · rintro ⟨⟨s, others⟩, ⟨hs, hothers⟩, rfl⟩
      exact ⟨s, others, hs, hothers, rfl⟩
    · rintro ⟨s, others, hs, hothers, rfl⟩
      exact ⟨(s, others), ⟨hs, hothers⟩, rfl⟩

theorem failed_ofValues (position : Nat) (items : List Value) :
    (ofValues position items).failed = items.any fun v => (ofValue v).failed := by
  induction items generalizing position with
  | nil => rfl
  | cons v rest ih => simp [ofValues, ih]

theorem issues_ofValues (position : Nat) (items : List Value) :
    (ofValues position items).issues =
      (items.zipIdx position).flatMap fun e =>
        (ofValue e.1).issues.map (Issue.within (toString e.2)) := by
  induction items generalizing position with
  | nil => rfl
  | cons v rest ih => simp [ofValues, ih, List.zipIdx_cons]

theorem listOfValue_of_isSequence {v : Value} (h : v.isSequence = true) :
    listOfValue v = ofValues 0 v.members := by
  rw [listOfValue, if_pos h]

theorem isSequence_of_listOfValue {v : Value} {segments : List Segment}
    (h : listOfValue v = .valid segments) : v.isSequence = true := by
  unfold listOfValue at h
  split at h
  · assumption
  · cases h

theorem listOfValue_map_toValue (segments : List Segment) :
    listOfValue (.list (segments.map toValue)) = .valid segments := by
  rw [listOfValue_of_isSequence rfl, ofValues_eq_valid_iff, Value.members, List.forall₂_map_left_iff,
    List.forall₂_same]
  exact fun s _ => ofValue_toValue s

/-- Lists of segments and values correspond. The form of any segments as values is validated as these
segments, those that a path is read as among them, so a second validation changes nothing about what the
first has made of its input. A list is validated member by member: it fails exactly when a member fails by
itself, a member that fails has issues, and the issues of the list are those of its members, in order and
each headed by the place of its member. -/
theorem listOfValue_round_trip :
    (∀ segments : List Segment,
      listOfValue (.list (segments.map toValue)) = .valid segments) ∧
    (∀ path : List Char, ∃ segments, Path.parse path = .ok segments ∧
      listOfValue (.list (segments.map toValue)) = .valid segments) ∧
    (∀ (v : Value) (segments : List Segment), listOfValue v = .valid segments →
      v.isSequence = true ∧
      List.Forall₂ (fun x s => ofValue x = .valid s) v.members segments ∧
      listOfValue (.list (segments.map toValue)) = .valid segments) ∧
    (∀ v : Value, v.isSequence = true →
      ((listOfValue v).failed = true ↔ ∃ x ∈ v.members, (ofValue x).failed = true) ∧
      (listOfValue v).issues = v.members.zipIdx.flatMap fun e =>
        (ofValue e.1).issues.map (Issue.within (toString e.2))) ∧
    ∀ v : Value, (ofValue v).failed = true → (ofValue v).issues ≠ [] := by
  refine ⟨listOfValue_map_toValue, ?_, ?_, ?_, explained_ofValue⟩
  · intro path
    exact ⟨Path.segments path, Path.parse_eq path, listOfValue_map_toValue _⟩
  · intro v segments h
    have hs : v.isSequence = true := isSequence_of_listOfValue h
    rw [listOfValue_of_isSequence hs] at h
    exact ⟨hs, ofValues_eq_valid_iff.mp h, listOfValue_map_toValue segments⟩
  · intro v hs
    rw [listOfValue_of_isSequence hs, failed_ofValues, List.any_eq_true]
    exact ⟨Iff.rfl, issues_ofValues 0 v.members⟩

theorem listOfValue_round_trip_coerced :
    let v := Value.tuple [.object [("end", .text "+07"), ("kind", .text "slice"), ("start", .bool true)],
      .object [("index", .float (.finite false 1024 0)), ("kind", .text "index")]]
    let segments := [slice (some 1) (some 7), index 2]
    v.isSequence = true ∧ listOfValue v = .valid segments ∧
      listOfValue (.list (segments.map toValue)) = .valid segments := by
  intro v segments
  have h : listOfValue v = .valid segments := by decide +kernel
  exact ⟨rfl, h, (listOfValue_round_trip.2.2.1 v segments h).2.2⟩

example :
    listOfValue (.list [.object [("kind", .text "index"), ("at", .null), ("index", .int (-1))], .null,
      .object [("name", .text ""), ("kind", .text "key")], .object []]) =
      .invalid [⟨["0", "index", "index"], .negativeNumber⟩, ⟨["0", "index", "at"], .fieldForbidden⟩,
        ⟨["1"], .notAnObject⟩, ⟨["3"], .kindMissing⟩] := by
  decide +kernel

end PathQuery.Segment
