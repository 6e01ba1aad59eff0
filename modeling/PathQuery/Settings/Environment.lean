import PathQuery.Settings
import PathQuery.Settings.Dotenv

/-! # Settings from the environment

Each field is looked up under a fixed word followed by its name, in any case of letters: first
among the environment variables, then among the definitions of a file. A field that neither
defines, and one that the file names without a value, keeps its initial value. In the values of the
file a name in braces behind a dollar sign stands for the value of that variable, by the
definitions above it or else by the environment. -/

namespace PathQuery.Settings

/-- Named values in order of first definition. -/
abbrev Table (α : Type) := List (List Char × α)

namespace Table

/-- Define a name, in its old place if it has one. -/
def define {α : Type} (name : List Char) (a : α) : Table α → Table α
  | [] => [(name, a)]
  | e :: rest => if e.1 = name then (name, a) :: rest else e :: define name a rest

/-- Define the names of entries one after the other. What an entry is defined as may depend on the
definitions above it. -/
def fill {α β : Type} (value : Table β → α → β) (entries : List (List Char × α)) : Table β :=
  entries.foldl (fun above e => above.define e.1 (value above e.2)) []

def ofList {α : Type} (entries : List (List Char × α)) : Table α := fill (fun _ a => a) entries

/-- The value of the last name that a property holds of. -/
def findLast? {α : Type} (p : List Char → Bool) (t : Table α) : Option α :=
  (t.reverse.find? fun e => p e.1).map Prod.snd

end Table

/-- The Kelvin sign is the one letter outside the ASCII range with a small letter inside it. -/
def toSmall (c : Char) : Char := if c = '\u212a' then 'k' else c.toLower

def nameStem : List Char := "jsonpath_tester_".toList

def Field.isNamedBy (f : Field) (name : List Char) : Bool :=
  name.map toSmall == nameStem ++ f.name.toList

/-- A reference to a variable, behind its dollar sign and brace: its name, the value in its absence
and what follows it. -/
def takeReference? (s : List Char) : Option (List Char × List Char × List Char) :=
  let name := s.takeWhile fun c => c != '\x7d' && c != ':'
  match s.dropWhile fun c => c != '\x7d' && c != ':' with
  | '\x7d' :: rest => some (name, [], rest)
  | ':' :: '-' :: rest =>
    match rest.dropWhile (· != '\x7d') with
    | [] => none
    | _ :: tail => some (name, rest.takeWhile (· != '\x7d'), tail)
  | _ => none

theorem takeReference?_length {s name absent tail : List Char}
    (h : takeReference? s = some (name, absent, tail)) : tail.length < s.length := by
  have h₁ := Dotenv.length_dropWhile_le (fun c => c != '\x7d' && c != ':') s
  unfold takeReference? at h
  dsimp only at h
  split at h
  · rename_i rest hr
    rw [hr] at h₁
    simp only [Option.some.injEq, Prod.mk.injEq] at h
    obtain ⟨-, -, rfl⟩ := h
    simp only [List.length_cons] at h₁
    omega
  · rename_i rest hr
    rw [hr] at h₁
    have h₂ := Dotenv.length_dropWhile_le (· != '\x7d') rest
    split at h
    · simp at h
    · rename_i d tail' ht
      rw [ht] at h₂
      simp only [Option.some.injEq, Prod.mk.injEq] at h
      obtain ⟨-, -, rfl⟩ := h
      simp only [List.length_cons] at h₁ h₂
      omega
  · simp at h

/-- Replace every reference by what a look-up says of its name: nothing known, or a value that may
be absent. -/
def expand (look : List Char → Option (Option (List Char))) : List Char → List Char
  | [] => []
  | c :: s =>
    if c = '$' ∧ s.head? = some '\x7b' then
      match _h : takeReference? s.tail with
      | some (name, absent, tail) => ((look name).getD (some absent)).getD [] ++ expand look tail
      | none => c :: expand look s
    else c :: expand look s
termination_by s => s.length
decreasing_by
  · have h₁ := takeReference?_length _h
    simp only [List.length_tail, List.length_cons] at h₁ ⊢
    omega
  all_goals simp

/-- What a name stands for: the definitions above override the environment. -/
def lookUp (environment : Table (List Char)) (above : Table (Option (List Char)))
    (name : List Char) : Option (Option (List Char)) :=
  (above.lookup name).or ((environment.lookup name).map some)

/-- Resolve definitions one after the other, each by those above it. -/
def resolve (environment : Table (List Char)) (definitions : List Dotenv.Definition) :
    Table (Option (List Char)) :=
  Table.fill (fun above value => value.map (expand (lookUp environment above))) definitions

def bindings (environment : List (String × String)) : List (List Char × List Char) :=
  environment.map fun e => (e.1.toList, e.2.toList)

/-- What the environment knows: each name with the last value that it is given. -/
def known (environment : List (String × String)) : Table (List Char) :=
  Table.ofList (bindings environment)

def definitions (read : Dotenv.Reader) (file : Option String) : List Dotenv.Definition :=
  (file.map read).getD []

structure Sources where
  environment : Table (List Char)
  file : Table (Option (List Char))

def Sources.ofTexts (read : Dotenv.Reader) (environment : List (String × String))
    (file : Option String) : Sources :=
  ⟨known environment, resolve (known environment) (definitions read file)⟩

def Sources.text? (sources : Sources) (f : Field) : Option (List Char) :=
  (sources.environment.findLast? f.isNamedBy).or
    (sources.file.findLast? f.isNamedBy).join

/-- A field read from the text the sources give it, or else its initial value. -/
def Sources.read {α : Type} (sources : Sources) (f : Field) (reader : Value → Checked α)
    (default : α) : Checked α :=
  match sources.text? f with
  | some s => (reader (.text (String.ofList s))).within f.name
  | none => .valid default

def Sources.settings (sources : Sources) : Checked Settings :=
  ((sources.read .logLevel readLevel initial.logLevel).both
    ((sources.read .richTracebacks readFlag initial.richTracebacks).both
      (sources.read .traceSegments readFlag initial.traceSegments))).map
    fun p => ⟨p.1, p.2.1, p.2.2⟩

/-- Load settings from an environment and from the definitions that a reader finds in a file. -/
def loadBy (read : Dotenv.Reader) (environment : List (String × String)) (file : Option String) :
    Checked Settings :=
  (Sources.ofTexts read environment file).settings

def load : List (String × String) → Option String → Checked Settings := loadBy Dotenv.ofText

end PathQuery.Settings
