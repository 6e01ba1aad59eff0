import PathQuery.Text.Quoted

/-! # Files of variable definitions

A file defines variables one after the other, each by a name, an equals sign and a value, with
`export` allowed in front. A name without an equals sign has no value. A quoted value may run over
several lines and has escapes; any other value ends with its line or with a note, which is a number
sign after a blank. Where no definition can be read, the rest of the line is skipped.

This is one reader of such files. Loading takes any, and what is proved of it holds of any that makes no
references up. -/

namespace PathQuery.Settings.Dotenv
open Text

def dropMark : List Char → List Char
  | '\ufeff' :: s => s
  | s => s

/-- Every line ends in a single line feed. -/
def unifyLines : List Char → List Char
  | '\r' :: '\n' :: s => '\n' :: unifyLines s
  | '\r' :: s => '\n' :: unifyLines s
  | c :: s => c :: unifyLines s
  | [] => []

def isLineChar (c : Char) : Bool := c != '\n'

def skipLine (s : List Char) : List Char := (s.dropWhile isLineChar).drop 1

def skipInline (s : List Char) : List Char := s.dropWhile isInlineBlank

def exportWord : List Char := ['e', 'x', 'p', 'o', 'r', 't']

/-- Drop the word `export` when a blank follows it on its line. -/
def dropExport (s : List Char) : List Char :=
  let rest := s.drop exportWord.length
  if exportWord.isPrefixOf s && rest.head?.any isInlineBlank then skipInline rest else s

/-- Either a part of the text with what follows it, or the place where none can be read. -/
abbrev Reading (α : Type) := Except (List Char) (α × List Char)

def isKeyChar (c : Char) : Bool := c != '=' && c != '#' && !isBlank c

def readPlainKey (s : List Char) : Reading (List Char) :=
  if (s.takeWhile isKeyChar).isEmpty then .error s
  else .ok (s.takeWhile isKeyChar, s.dropWhile isKeyChar)

/-- A variable name, plain or between apostrophes. -/
def readKey (s : List Char) : Reading (List Char) :=
  if s.head? = some apostrophe then
    let content := s.tail.takeWhile (· != apostrophe)
    if content.isEmpty || (s.tail.dropWhile (· != apostrophe)).isEmpty then .error s
    else .ok (content, (s.tail.dropWhile (· != apostrophe)).tail)
  else readPlainKey s

/-- The text up to the closing mark, with what follows it. A backslash takes the next character with
it, whichever that is: a mark behind one backslash does not close and a mark behind two does. Where no
mark closes, nothing is quoted and no shorter text is tried. -/
def splitQuoted (mark : Char) : List Char → Option (List Char × List Char)
  | [] => none
  | c :: s =>
    if c = mark then some ([], s)
    else if c = backslash then
      match s with
      | [] => none
      | d :: t => (splitQuoted mark t).map fun p => (c :: d :: p.1, p.2)
    else (splitQuoted mark s).map fun p => (c :: p.1, p.2)

/-- Replace each escape by the character it stands for; a backslash in front of any other character
is kept. -/
def unescape (escapes : List (Char × Char)) : List Char → List Char
  | [] => []
  | c :: s =>
    if c = backslash then
      match s with
      | [] => [c]
      | d :: t =>
        match escapes.lookup d with
        | some e => e :: unescape escapes t
        | none => c :: unescape escapes (d :: t)
    else c :: unescape escapes s

def escapes (mark : Char) : List (Char × Char) :=
  if mark = quotationMark then
    [(backslash, backslash), (apostrophe, apostrophe), (quotationMark, quotationMark),
      ('a', '\x07'), ('b', '\x08'), ('f', '\x0c'), ('n', '\n'), ('r', '\r'), ('t', '\t'),
      ('v', '\x0b')]
  else [(backslash, backslash), (apostrophe, apostrophe)]

def readQuoted (mark : Char) (s : List Char) : Reading (List Char) :=
  match splitQuoted mark s with
  | some p => .ok (unescape (escapes mark) p.1, p.2)
  | none => .error (mark :: s)

/-- A line up to the blanks in front of the first note. -/
def beforeNote : List Char → List Char
  | [] => []
  | c :: s => if isBlank c && (s.dropWhile isBlank).head? = some '#' then [] else c :: beforeNote s

/-- A value that runs to the end of its line or to a note. -/
def readPlain (s : List Char) : Reading (List Char) :=
  .ok (trim isBlank (beforeNote (s.takeWhile isLineChar)), s.dropWhile isLineChar)

/-- What stands behind the equals sign. The blanks in front of a plain value belong to its line, so a
number sign behind them begins a note and leaves the value empty. -/
def readContent (s : List Char) : Reading (List Char) :=
  match skipInline s with
  | [] => readPlain s
  | c :: rest => if isQuote c then readQuoted c rest else readPlain s

/-- The value after a name, absent without an equals sign. -/
def readValue (s : List Char) : Reading (Option (List Char)) :=
  match s with
  | '=' :: rest =>
    match readContent rest with
    | .ok (content, tail) => .ok (some content, tail)
    | .error stop => .error stop
  | _ => .ok (none, s)

def dropNote (s : List Char) : List Char :=
  if (skipInline s).head? = some '#' then s.dropWhile isLineChar else s

/-- Only blanks may be left on the line. -/
def readLineEnd (s : List Char) : Except (List Char) (List Char) :=
  match skipInline s with
  | [] => .ok []
  | '\n' :: rest => .ok rest
  | _ => .error s

abbrev Definition := List Char × Option (List Char)

def readDefinition (s : List Char) : Reading Definition :=
  match readKey s with
  | .error stop => .error stop
  | .ok (key, afterKey) =>
    match readValue (skipInline afterKey) with
    | .error stop => .error stop
    | .ok (value, afterValue) =>
      match readLineEnd (dropNote afterValue) with
      | .error stop => .error stop
      | .ok tail => .ok ((key, value), tail)

theorem length_dropWhile_le (p : Char → Bool) (s : List Char) :
    (s.dropWhile p).length ≤ s.length := (List.dropWhile_sublist p).length_le

theorem dropExport_length_le (s : List Char) : (dropExport s).length ≤ s.length := by
  have h := length_dropWhile_le isInlineBlank (s.drop exportWord.length)
  simp only [List.length_drop] at h
  simp only [dropExport, skipInline]
  split <;> omega

/-- What is left after a reading, and where a failed one stopped, is part of the text. -/
def Reading.Within {α : Type} (r : Reading α) (n : Nat) : Prop :=
  match r with
  | .ok (_, tail) => tail.length ≤ n
  | .error stop => stop.length ≤ n

theorem readPlainKey_length {s key tail : List Char} (h : readPlainKey s = .ok (key, tail)) :
    tail.length < s.length := by
  unfold readPlainKey at h
  split at h
  · simp at h
  · rename_i hne
    simp only [Except.ok.injEq, Prod.mk.injEq] at h
    obtain ⟨rfl, rfl⟩ := h
    have hl := congrArg List.length (List.takeWhile_append_dropWhile (p := isKeyChar) (l := s))
    have hp : 0 < (s.takeWhile isKeyChar).length := by
      cases hs : s.takeWhile isKeyChar <;> simp_all
    simp only [List.length_append] at hl
    omega

theorem readKey_length {s key tail : List Char} (h : readKey s = .ok (key, tail)) :
    tail.length < s.length := by
  unfold readKey at h
  split at h
  · dsimp only at h
    split at h
    · simp at h
    · rename_i hq _
      simp only [Except.ok.injEq, Prod.mk.injEq] at h
      obtain ⟨-, rfl⟩ := h
      have hd := length_dropWhile_le (· != apostrophe) s.tail
      have hs : 0 < s.length := by cases s <;> simp_all
      simp only [List.length_tail] at hd ⊢
      omega
  · exact readPlainKey_length h

theorem readKey_error {s stop : List Char} (h : readKey s = .error stop) : stop = s := by
  unfold readKey readPlainKey at h
  grind

theorem splitQuoted_length {mark : Char} {s : List Char} {p : List Char × List Char}
    (h : splitQuoted mark s = some p) : p.2.length ≤ s.length := by
  fun_induction splitQuoted mark s generalizing p with
  | case1 => simp at h
  | case2 =>
    obtain rfl := Option.some.inj h
    simp
  | case3 => simp at h
  | case4 d t _ ih =>
    obtain ⟨q, hq, rfl⟩ := Option.map_eq_some_iff.1 h
    have := ih hq
    simp only [List.length_cons]
    omega
  | case5 c s _ _ ih =>
    obtain ⟨q, hq, rfl⟩ := Option.map_eq_some_iff.1 h
    have := ih hq
    simp only [List.length_cons]
    omega

theorem readQuoted_within (mark : Char) (s : List Char) :
    (readQuoted mark s).Within (s.length + 1) := by
  unfold readQuoted
  split
  · rename_i p hp
    exact Nat.le_succ_of_le (splitQuoted_length hp)
  · simp [Reading.Within]

theorem readPlain_within (s : List Char) : (readPlain s).Within s.length :=
  length_dropWhile_le _ _

theorem readContent_within (s : List Char) : (readContent s).Within s.length := by
  have hs : (skipInline s).length ≤ s.length := length_dropWhile_le _ _
  unfold readContent
  split
  · exact readPlain_within s
  · rename_i c rest hr
    have hq := readQuoted_within c rest
    rw [hr] at hs
    simp only [List.length_cons] at hs
    split
    · revert hq
      cases readQuoted c rest <;> simp only [Reading.Within] <;> omega
    · exact readPlain_within s

theorem readValue_within (s : List Char) : (readValue s).Within s.length := by
  unfold readValue
  split
  · rename_i rest
    have hc := readContent_within rest
    split <;> simp_all only [Reading.Within, List.length_cons] <;> omega
  · simp [Reading.Within]

theorem dropNote_length_le (s : List Char) : (dropNote s).length ≤ s.length := by
  unfold dropNote
  split
  · exact length_dropWhile_le _ _
  · exact Nat.le_refl _

theorem readLineEnd_length {s tail : List Char} (h : readLineEnd s = .ok tail) :
    tail.length ≤ s.length := by
  have hs : (skipInline s).length ≤ s.length := length_dropWhile_le _ _
  unfold readLineEnd at h
  grind

theorem readLineEnd_error {s stop : List Char} (h : readLineEnd s = .error stop) : stop = s := by
  unfold readLineEnd at h
  grind

theorem readDefinition_length {s tail : List Char} {d : Definition}
    (h : readDefinition s = .ok (d, tail)) : tail.length < s.length := by
  unfold readDefinition at h
  split at h
  · simp at h
  · rename_i key afterKey hk
    have h₁ := readKey_length hk
    have h₂ : (skipInline afterKey).length ≤ afterKey.length := length_dropWhile_le _ _
    have h₃ := readValue_within (skipInline afterKey)
    split at h
    · simp at h
    · rename_i value afterValue hv
      rw [hv] at h₃
      have h₄ := dropNote_length_le afterValue
      split at h
      · simp at h
      · rename_i rest he
        have h₅ := readLineEnd_length he
        simp only [Except.ok.injEq, Prod.mk.injEq] at h
        simp only [Reading.Within] at h₃
        obtain ⟨-, rfl⟩ := h
        omega

theorem readDefinition_error {s stop : List Char} (h : readDefinition s = .error stop) :
    stop.length ≤ s.length := by
  unfold readDefinition at h
  split at h
  · rename_i hk
    have he := readKey_error hk
    simp only [Except.error.injEq] at h
    subst he h
    exact Nat.le_refl _
  · rename_i key afterKey hk
    have h₁ := readKey_length hk
    have h₂ : (skipInline afterKey).length ≤ afterKey.length := length_dropWhile_le _ _
    have h₃ := readValue_within (skipInline afterKey)
    split at h
    · rename_i hv
      rw [hv] at h₃
      simp only [Except.error.injEq] at h
      simp only [Reading.Within] at h₃
      rw [← h]
      omega
    · rename_i value afterValue hv
      rw [hv] at h₃
      have h₄ := dropNote_length_le afterValue
      split at h
      · rename_i he
        simp only [Except.error.injEq] at h
        simp only [Reading.Within] at h₃
        rw [← h, readLineEnd_error he]
        omega
      · simp at h

theorem skipLine_length (s : List Char) : (skipLine s).length ≤ s.length - 1 := by
  have h := length_dropWhile_le isLineChar s
  simp only [skipLine, List.length_drop]
  omega

/-- The definitions of a text whose lines end in line feeds, in order. -/
def definitions (s : List Char) : List Definition :=
  match _h : s.dropWhile isBlank with
  | [] => []
  | c :: rest =>
    match _hd : readDefinition (dropExport (c :: rest)) with
    | .ok (d, tail) => d :: definitions tail
    | .error stop => definitions (skipLine stop)
termination_by s.length
decreasing_by
  all_goals
    have h₁ := length_dropWhile_le isBlank s
    have h₂ := dropExport_length_le (c :: rest)
    rw [_h] at h₁
    simp only [List.length_cons] at h₁ h₂
  · have h₃ := readDefinition_length _hd
    omega
  · have h₃ := readDefinition_error _hd
    have h₄ := skipLine_length stop
    omega

/-- What finds the definitions in the text of a file. -/
abbrev Reader := String → List Definition

def ofText : Reader := fun s => definitions (unifyLines (dropMark s.toList))

end PathQuery.Settings.Dotenv
