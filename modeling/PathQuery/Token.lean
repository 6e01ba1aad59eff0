/-! # Tokens of a path

A path is cut into tokens of three shapes: content in brackets, a name after one dot and a name
after two. A name runs to the next dot or opening bracket, content to the next closing bracket, and
neither is empty. Characters at which no token begins are skipped. -/

namespace PathQuery

inductive Token
  | bracket (content : List Char)
  | dots (name : List Char)
  | dot (name : List Char)
  deriving DecidableEq, Repr

namespace Token

def text : Token → List Char
  | bracket content => '[' :: content ++ [']']
  | dots name => '.' :: '.' :: name
  | dot name => '.' :: name

def isNameChar (c : Char) : Bool := c != '.' && c != '['

def isContentChar (c : Char) : Bool := c != ']'

/-- A name at the front of a text, with what follows it. -/
def takeName? (make : List Char → Token) (s : List Char) : Option (Token × List Char) :=
  match s.takeWhile isNameChar with
  | [] => none
  | c :: name => some (make (c :: name), s.dropWhile isNameChar)

/-- Content up to a closing bracket, with what follows the bracket. -/
def takeContent? (s : List Char) : Option (Token × List Char) :=
  match s.takeWhile isContentChar, s.dropWhile isContentChar with
  | c :: content, _ :: tail => some (bracket (c :: content), tail)
  | _, _ => none

/-- The token at the front of a text, with what follows it. -/
def next? : List Char → Option (Token × List Char)
  | '[' :: s => takeContent? s
  | '.' :: '.' :: s => takeName? dots s
  | '.' :: s => takeName? dot s
  | _ => none

theorem eq_append_of_takeName? {make : List Char → Token} {s tail : List Char} {t : Token}
    (h : takeName? make s = some (t, tail)) : ∃ name, t = make name ∧ s = name ++ tail := by
  unfold takeName? at h
  split at h
  · simp at h
  · rename_i c name hs
    simp only [Option.some.injEq, Prod.mk.injEq] at h
    obtain ⟨rfl, rfl⟩ := h
    exact ⟨c :: name, rfl, by rw [← hs, List.takeWhile_append_dropWhile]⟩

theorem head_dropWhile {p : Char → Bool} {s tail : List Char} {c : Char}
    (h : s.dropWhile p = c :: tail) : p c = false := by
  induction s with
  | nil => simp at h
  | cons a s ih =>
    rw [List.dropWhile_cons] at h
    split at h
    · exact ih h
    · simp_all

theorem eq_append_of_takeContent? {s tail : List Char} {t : Token}
    (h : takeContent? s = some (t, tail)) :
    ∃ content, t = bracket content ∧ s = content ++ ']' :: tail := by
  unfold takeContent? at h
  split at h
  · rename_i c content d rest hs hd
    simp only [Option.some.injEq, Prod.mk.injEq] at h
    obtain ⟨rfl, rfl⟩ := h
    have hd' : d = ']' := by simpa [isContentChar] using head_dropWhile hd
    exact ⟨c :: content, rfl, by rw [← hs, ← hd', ← hd, List.takeWhile_append_dropWhile]⟩
  · simp at h

theorem eq_append_of_next? {s tail : List Char} {t : Token} (h : next? s = some (t, tail)) :
    s = t.text ++ tail := by
  unfold next? at h
  split at h
  · obtain ⟨content, rfl, rfl⟩ := eq_append_of_takeContent? h
    simp [text]
  · obtain ⟨name, rfl, rfl⟩ := eq_append_of_takeName? h
    simp [text]
  · obtain ⟨name, rfl, rfl⟩ := eq_append_of_takeName? h
    simp [text]
  · simp at h

theorem text_length_pos (t : Token) : 0 < t.text.length := by cases t <;> simp [text]

theorem next?_shorter {s tail : List Char} {t : Token} (h : next? s = some (t, tail)) :
    tail.length < s.length := by
  have hp := t.text_length_pos
  have hl := congrArg List.length (eq_append_of_next? h)
  simp only [List.length_append] at hl
  omega

def scan : List Char → List Token
  | [] => []
  | c :: rest =>
    match _h : next? (c :: rest) with
    | some (token, tail) => token :: scan tail
    | none => scan rest
termination_by s => s.length
decreasing_by
  · exact next?_shorter _h
  · simp

/-- Read one token that fills a text. The name or content may be anything, also empty, and the last
character after an opening bracket is taken to be the closing one. -/
def ofText? : List Char → Option Token
  | '.' :: '.' :: name => some (dots name)
  | '[' :: s => some (bracket s.dropLast)
  | '.' :: name => some (dot name)
  | _ => none

end Token
end PathQuery
