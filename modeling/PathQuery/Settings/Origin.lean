import PathQuery.Settings.Environment

/-! # Where settings come from

What a field is loaded as, said of the variables of the environment and the definitions of the file
themselves. A variable that names the field comes before every definition, and a field that neither
gives a text keeps its initial value. Where several entries name the field, in different spellings or
in the same, one of them is decisive. -/

namespace PathQuery.Settings

/-- The entry that is decisive for names of one kind, with the entries in front of it and behind it. It
is the last of its name, and no name of the kind is first found behind the place where its own is. -/
structure Decisive {α : Type} (kind : List Char → Bool) (entries front : List (List Char × α))
    (name : List Char) (a : α) (back : List (List Char × α)) : Prop where
  split : entries = front ++ (name, a) :: back
  ofKind : kind name = true
  last : ∀ e ∈ back, e.1 ≠ name
  latest : ∀ e ∈ entries, kind e.1 = true →
    (entries.map Prod.fst).idxOf e.1 ≤ (entries.map Prod.fst).idxOf name

/-- The text that a field is given, if it is given one: by a variable, or by a definition, which may
also name the field without a value. The references in a definition are replaced by what stands above
it or in the environment. -/
inductive Gives (read : Dotenv.Reader) (environment : List (String × String))
    (file : Option String) (f : Field) : Option (List Char) → Prop
  | byVariable {front : List (List Char × List Char)} {name text : List Char}
    {back : List (List Char × List Char)}
    (decisive : Decisive f.isNamedBy (bindings environment) front name text back) :
    Gives read environment file f (some text)
  | byDefinition {front : List Dotenv.Definition} {name : List Char} {value : Option (List Char)}
    {back : List Dotenv.Definition}
    (unset : ∀ e ∈ bindings environment, f.isNamedBy e.1 = false)
    (decisive : Decisive f.isNamedBy (definitions read file) front name value back) :
    Gives read environment file f
      (value.map (expand (lookUp (known environment) (resolve (known environment) front))))
  | byNothing (unset : ∀ e ∈ bindings environment, f.isNamedBy e.1 = false)
    (undefined : ∀ d ∈ definitions read file, f.isNamedBy d.1 = false) :
    Gives read environment file f none

/-- Which text a field reads as which value: a level by its name, a flag by a word for yes or no in any
case. -/
inductive Field.Reads : Field → String → Value → Prop
  | level (l : Level) : Reads .logLevel l.name (.text l.name)
  | yes {f : Field} {word : String} (flag : f ≠ .logLevel)
    (h : word.map Char.toLower ∈ yesWords) : Reads f word (.bool true)
  | no {f : Field} {word : String} (flag : f ≠ .logLevel)
    (h : word.map Char.toLower ∈ noWords) : Reads f word (.bool false)

/-- The complaint about a text that a field cannot read. -/
def Field.complaint : Field → Complaint
  | logLevel => .notAChoice
  | richTracebacks | traceSegments => .unreadableBoolean

/-- What a field is resolved as: the value that the text it is given is read as, one issue if the text
cannot be read, and without a text the initial value. -/
inductive Resolves (read : Dotenv.Reader) (environment : List (String × String))
    (file : Option String) (f : Field) : Checked Value → Prop
  | accepted {s : List Char} {v : Value} (given : Gives read environment file f (some s))
    (h : f.Reads (String.ofList s) v) : Resolves read environment file f (.valid v)
  | refused {s : List Char} (given : Gives read environment file f (some s))
    (h : ∀ v, ¬ f.Reads (String.ofList s) v) :
    Resolves read environment file f (.invalid [⟨[f.name], f.complaint⟩])
  | unnamed (given : Gives read environment file f none) :
    Resolves read environment file f (.valid (initial.value f))

end PathQuery.Settings
