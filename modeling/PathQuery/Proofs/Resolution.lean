import Mathlib
import PathQuery.Proofs.Definitions
import PathQuery.Proofs.Tables

/-!
# Settings are resolved field by field

Loading resolves every field by itself, from a variable, from a definition or as its initial value, and
lists the issues of the fields that are refused, in order. Variables of other names have no part in it
unless the file refers to them, and the file none in a field that a variable names. All of this holds
whatever reader finds the definitions in the file, as long as it makes no references up.
-/
namespace PathQuery

theorem Checked.map_within {α β : Type} (step : String) (x : Checked α) (g : α → β) :
    (x.within step).map g = (x.map g).within step := by
  cases x <;> rfl

theorem Checked.map_injective {α β : Type} {g : α → β} (hg : Function.Injective g) :
    Function.Injective (Checked.map g) := by
  intro x y h
  cases x with
  | valid a =>
    cases y with
    | valid b => rw [hg (Checked.valid.inj h)]
    | invalid issues => cases h
  | invalid issues =>
    cases y with
    | valid b => cases h
    | invalid issues' => rw [Checked.invalid.inj h]

namespace Settings

/-! ## Reading a text -/

theorem level_name_of_ofName? {word : String} {l : Level} (h : Level.ofName? word = some l) :
    l.name = word := by
  simpa using List.find?_some h

/-- What a text is read as for a field. -/
def Field.readWord (f : Field) (word : String) : Checked Value :=
  match f with
  | logLevel => ((readLevel (.text word)).map fun l => .text l.name).within f.name
  | richTracebacks | traceSegments => ((readFlag (.text word)).map .bool).within f.name

theorem notMem_noWords_of_mem {word : String} (h : word ∈ yesWords) : word ∉ noWords := by
  revert h word
  decide

theorem Field.Reads.readWord_eq {f : Field} {word : String} {v : Value} (h : f.Reads word v) :
    f.readWord word = .valid v := by
  cases h with
  | level l => simp only [readWord, readLevel, Level.ofName?_name, Checked.map, Checked.within]
  | yes flag hyes =>
    cases f with
    | logLevel => exact absurd rfl flag
    | richTracebacks | traceSegments =>
      simp [readWord, readFlag, flagOfText?, hyes, checkFlag, Checked.map, Checked.within]
  | no flag hno =>
    have hyes : word.map Char.toLower ∉ yesWords := fun h => notMem_noWords_of_mem h hno
    cases f with
    | logLevel => exact absurd rfl flag
    | richTracebacks | traceSegments =>
      simp [readWord, readFlag, flagOfText?, hyes, hno, checkFlag, Checked.map, Checked.within]

theorem Field.readWord_of_not_reads {f : Field} {word : String} (h : ∀ v, ¬ f.Reads word v) :
    f.readWord word = .invalid [⟨[f.name], f.complaint⟩] := by
  cases f with
  | logLevel =>
    cases hl : Level.ofName? word with
    | some l =>
      obtain rfl := level_name_of_ofName? hl
      exact absurd (.level l) (h _)
    | none => simp only [readWord, readLevel, hl]; rfl
  | richTracebacks | traceSegments =>
    have hyes : word.map Char.toLower ∉ yesWords := fun hyes => h _ (.yes (by decide) hyes)
    have hno : word.map Char.toLower ∉ noWords := fun hno => h _ (.no (by decide) hno)
    simp only [readWord, readFlag, flagOfText?, List.contains_iff_mem, hyes, hno, if_false]
    rfl

theorem Field.readWord_cases (f : Field) (word : String) :
    (∃ v, f.Reads word v ∧ f.readWord word = .valid v) ∨
      (∀ v, ¬ f.Reads word v) ∧ f.readWord word = .invalid [⟨[f.name], f.complaint⟩] := by
  by_cases h : ∃ v, f.Reads word v
  · obtain ⟨v, hv⟩ := h
    exact Or.inl ⟨v, hv, hv.readWord_eq⟩
  · exact Or.inr ⟨not_exists.mp h, readWord_of_not_reads (not_exists.mp h)⟩

/-! ## The text of a field -/

theorem Field.mem_all (f : Field) : f ∈ Field.all := by cases f <;> decide

/-- Whether some field is looked up under a name. -/
def isFieldName (name : List Char) : Bool := Field.all.any fun f => f.isNamedBy name

def namesField (e : String × String) : Bool := isFieldName e.1.toList

theorem isFieldName_of_isNamedBy {f : Field} {name : List Char} (h : f.isNamedBy name = true) :
    isFieldName name = true :=
  List.any_eq_true.mpr ⟨f, f.mem_all, h⟩

section
variable {read : Dotenv.Reader} {environment other : List (String × String)} {file : Option String}
  {f : Field}

/-- A field is given what a variable or else a definition of its name says. -/
theorem gives_iff {given : Option (List Char)} :
    Gives read environment file f given ↔ (Sources.ofTexts read environment file).text? f = given := by
  simp only [Sources.text?, Sources.ofTexts]
  constructor
  · intro h
    cases h with
    | byVariable decisive =>
      rw [findLast?_known_eq_some_iff.mpr ⟨_, _, _, decisive⟩, Option.some_or]
    | byDefinition unset decisive =>
      rw [findLast?_known_eq_none_iff.mpr unset,
        findLast?_resolve_eq_some_iff.mpr ⟨_, _, _, _, decisive, rfl⟩]
      rfl
    | byNothing unset undefined =>
      rw [findLast?_known_eq_none_iff.mpr unset, findLast?_resolve_eq_none_iff.mpr undefined]
      rfl
  · rintro rfl
    cases hknown : (known environment).findLast? f.isNamedBy with
    | some text =>
      obtain ⟨front, name, back, decisive⟩ := findLast?_known_eq_some_iff.mp hknown
      exact .byVariable decisive
    | none =>
      have unset := findLast?_known_eq_none_iff.mp hknown
      cases hfile : (resolve (known environment) (definitions read file)).findLast? f.isNamedBy with
      | some value =>
        obtain ⟨front, name, a, back, decisive, rfl⟩ := findLast?_resolve_eq_some_iff.mp hfile
        exact .byDefinition unset decisive
      | none => exact .byNothing unset (findLast?_resolve_eq_none_iff.mp hfile)

theorem text?_of_defined (h : ∃ e ∈ environment, f.isNamedBy e.1.toList = true)
    (file file' : Option String) :
    (Sources.ofTexts read environment file).text? f =
      (Sources.ofTexts read environment file').text? f := by
  have hknown : (known environment).findLast? f.isNamedBy ≠ none := by
    intro hnone
    obtain ⟨e, he, hf⟩ := h
    have hfalse := findLast?_known_eq_none_iff.mp hnone _ (List.mem_map_of_mem he)
    simp [hf] at hfalse
  obtain ⟨text, htext⟩ := Option.ne_none_iff_exists'.mp hknown
  simp only [Sources.text?, Sources.ofTexts, htext, Option.some_or]

theorem findLast?_known (environment : List (String × String)) (f : Field) :
    (known (environment.filter namesField)).findLast? f.isNamedBy =
      (known environment).findLast? f.isNamedBy := by
  have hmap : bindings (environment.filter namesField) =
      (bindings environment).filter fun e => isFieldName e.1 := by
    rw [bindings, bindings, List.filter_map]
    rfl
  rw [known, hmap, ← Table.filter_ofList isFieldName,
    Table.findLast?_filter fun _ => isFieldName_of_isNamedBy]
  rfl

theorem definitions_isPlain (hread : read.AddsNoReference) (h : ∀ text ∈ file, '$' ∉ text.toList) :
    ∀ d ∈ definitions read file, ∀ t ∈ d.2, '$' ∉ t := by
  cases file with
  | none => simp [definitions]
  | some text => exact hread text (h text rfl)

/-- A file without references is read without the environment. -/
theorem file_ofTexts (hread : read.AddsNoReference) (h : ∀ text ∈ file, '$' ∉ text.toList)
    (environment : List (String × String)) :
    (Sources.ofTexts read environment file).file = Table.ofList (definitions read file) :=
  resolve_of_notMem _ (definitions_isPlain hread h)

theorem gives_of_decisive (hread : read.AddsNoReference) (h : ∀ text ∈ file, '$' ∉ text.toList)
    (unset : ∀ e ∈ bindings environment, f.isNamedBy e.1 = false) {front back : List Dotenv.Definition}
    {name : List Char} {value : Option (List Char)}
    (decisive : Decisive f.isNamedBy (definitions read file) front name value back) :
    Gives read environment file f value := by
  have hvalue : value.map (expand (lookUp (known environment) (resolve (known environment) front))) =
      value :=
    map_expand_of_notMem _ (definitions_isPlain hread h _ decisive.mem)
  rw [← hvalue]
  exact .byDefinition unset decisive

theorem text?_congr (hread : read.AddsNoReference) (hfile : ∀ text ∈ file, '$' ∉ text.toList)
    (h : other.filter namesField = environment.filter namesField) (f : Field) :
    (Sources.ofTexts read other file).text? f = (Sources.ofTexts read environment file).text? f := by
  have hknown : (known other).findLast? f.isNamedBy = (known environment).findLast? f.isNamedBy := by
    rw [← findLast?_known, h, findLast?_known]
  rw [Sources.text?, Sources.text?, file_ofTexts hread hfile, file_ofTexts hread hfile]
  simp only [Sources.ofTexts, hknown]

/-! ## Fields and the whole -/

/-- What a field is resolved as, from the text that the sources have for it. -/
def resolved (read : Dotenv.Reader) (environment : List (String × String)) (file : Option String)
    (f : Field) : Checked Value :=
  match (Sources.ofTexts read environment file).text? f with
  | some s => f.readWord (String.ofList s)
  | none => .valid (initial.value f)

theorem resolves_iff {r : Checked Value} :
    Resolves read environment file f r ↔ resolved read environment file f = r := by
  constructor
  · intro h
    cases h with
    | accepted given h => simp only [resolved, gives_iff.mp given, h.readWord_eq]
    | refused given h => simp only [resolved, gives_iff.mp given, Field.readWord_of_not_reads h]
    | unnamed given => simp only [resolved, gives_iff.mp given]
  · rintro rfl
    unfold resolved
    split
    · rename_i s hs
      rcases f.readWord_cases (String.ofList s) with ⟨v, hv, hr⟩ | ⟨hnone, hr⟩
      · rw [hr]
        exact .accepted (gives_iff.mpr hs) hv
      · rw [hr]
        exact .refused (gives_iff.mpr hs) hnone
    · rename_i hnone
      exact .unnamed (gives_iff.mpr hnone)

theorem resolved_congr {environment' : List (String × String)} {file' : Option String}
    (h : (Sources.ofTexts read environment file).text? f =
      (Sources.ofTexts read environment' file').text? f) :
    resolved read environment file f = resolved read environment' file' f := by
  rw [resolved, resolved, h]

theorem load_congr {environment' : List (String × String)} {file' : Option String}
    (h : ∀ f, (Sources.ofTexts read environment file).text? f =
      (Sources.ofTexts read environment' file').text? f) :
    loadBy read environment file = loadBy read environment' file' := by
  simp only [loadBy, Sources.settings, Sources.read, h]

end

theorem map_read {α : Type} (sources : Sources) (f : Field) (reader : Value → Checked α) (default : α)
    (g : α → Value) :
    (sources.read f reader default).map g =
      match sources.text? f with
      | some s => ((reader (.text (String.ofList s))).map g).within f.name
      | none => .valid (g default) := by
  unfold Sources.read
  cases sources.text? f with
  | some s => exact Checked.map_within _ _ _
  | none => rfl

section
variable (read : Dotenv.Reader) (environment : List (String × String)) (file : Option String)

theorem resolved_logLevel :
    resolved read environment file .logLevel =
      ((Sources.ofTexts read environment file).read .logLevel readLevel initial.logLevel).map
        fun l => .text l.name :=
  (map_read _ _ _ _ _).symm

theorem resolved_richTracebacks :
    resolved read environment file .richTracebacks =
      ((Sources.ofTexts read environment file).read .richTracebacks readFlag
        initial.richTracebacks).map .bool :=
  (map_read _ _ _ _ _).symm

theorem resolved_traceSegments :
    resolved read environment file .traceSegments =
      ((Sources.ofTexts read environment file).read .traceSegments readFlag
        initial.traceSegments).map .bool :=
  (map_read _ _ _ _ _).symm

theorem failed_load :
    (loadBy read environment file).failed =
      Field.all.any fun f => (resolved read environment file f).failed := by
  simp [loadBy, Sources.settings, Field.all, resolved_logLevel, resolved_richTracebacks,
    resolved_traceSegments]

theorem issues_load :
    (loadBy read environment file).issues =
      Field.all.flatMap fun f => (resolved read environment file f).issues := by
  simp [loadBy, Sources.settings, Field.all, resolved_logLevel, resolved_richTracebacks,
    resolved_traceSegments]

end

theorem level_text_injective : Function.Injective fun l : Level => Value.text l.name := by
  intro l m h
  have hl := Level.ofName?_name l
  rw [Value.text.inj h, Level.ofName?_name] at hl
  exact (Option.some.inj hl).symm

theorem load_eq_valid_iff {read : Dotenv.Reader} {environment : List (String × String)}
    {file : Option String} {s : Settings} :
    loadBy read environment file = .valid s ↔
      ∀ f, resolved read environment file f = .valid (s.value f) := by
  constructor
  · intro h f
    simp only [loadBy, Sources.settings, Checked.map_eq_valid_iff, Checked.both_eq_valid_iff] at h
    obtain ⟨p, ⟨hlevel, htracebacks, htrace⟩, rfl⟩ := h
    cases f with
    | logLevel =>
      rw [resolved_logLevel, hlevel]
      rfl
    | richTracebacks =>
      rw [resolved_richTracebacks, htracebacks]
      rfl
    | traceSegments =>
      rw [resolved_traceSegments, htrace]
      rfl
  · intro h
    have hlevel : (Sources.ofTexts read environment file).read .logLevel readLevel
        initial.logLevel = .valid s.logLevel :=
      Checked.map_injective level_text_injective
        ((resolved_logLevel read environment file).symm.trans (h .logLevel))
    have htracebacks : (Sources.ofTexts read environment file).read .richTracebacks readFlag
        initial.richTracebacks = .valid s.richTracebacks :=
      Checked.map_injective (fun _ _ => Value.bool.inj)
        ((resolved_richTracebacks read environment file).symm.trans (h .richTracebacks))
    have htrace : (Sources.ofTexts read environment file).read .traceSegments readFlag
        initial.traceSegments = .valid s.traceSegments :=
      Checked.map_injective (fun _ _ => Value.bool.inj)
        ((resolved_traceSegments read environment file).symm.trans (h .traceSegments))
    rw [loadBy, Sources.settings, hlevel, htracebacks, htrace]
    rfl

/-- A field is refused with one issue, which is about the field. -/
theorem issues_resolved (read : Dotenv.Reader) (environment : List (String × String))
    (file : Option String) (f : Field) :
    (resolved read environment file f).issues =
      if (resolved read environment file f).failed then [⟨[f.name], f.complaint⟩] else [] := by
  unfold resolved
  split
  · rename_i s hs
    rcases f.readWord_cases (String.ofList s) with ⟨v, -, hr⟩ | ⟨-, hr⟩
    · simp only [hr]
      rfl
    · simp only [hr]
      rfl
  · rfl

theorem issues_load_eq_map (read : Dotenv.Reader) (environment : List (String × String))
    (file : Option String) :
    (loadBy read environment file).issues =
      (Field.all.filter fun f => (resolved read environment file f).failed).map
        fun f => ⟨[f.name], f.complaint⟩ := by
  rw [issues_load]
  simp only [issues_resolved]
  generalize Field.all = fields
  induction fields with
  | nil => rfl
  | cons f rest ih =>
    rw [List.flatMap_cons, ih]
    cases hf : (resolved read environment file f).failed <;> simp [hf]

theorem failed_resolved_iff {read : Dotenv.Reader} {environment : List (String × String)}
    {file : Option String} {f : Field} :
    (resolved read environment file f).failed = true ↔
      ∃ issues, Resolves read environment file f (.invalid issues) := by
  simp only [resolves_iff]
  cases resolved read environment file f <;> simp [Checked.failed]

/-- Sources and names do not leak, whatever reader finds the definitions in a file. When the file has no
dollar sign, environments with the same variables for fields, in order, load the same, so variables of
other names can be put in anywhere. A field that the environment defines is resolved in the same way
with any other file, and if it defines all fields the whole is loaded in the same way. Without dollar
signs a definition gives its value as it stands. Every field is resolved in one way, as a value or as
issues. Settings are loaded when every field is resolved as a value, and hold these values; loading
fails exactly when a field is refused, and then lists one issue for each field that is refused, in the
order of the fields. -/
theorem load_isolated {read : Dotenv.Reader} (hread : read.AddsNoReference)
    (environment : List (String × String)) (file : Option String) :
    (∀ other : List (String × String), (∀ text ∈ file, '$' ∉ text.toList) →
      other.filter namesField = environment.filter namesField →
        loadBy read other file = loadBy read environment file) ∧
    (∀ f : Field, (∃ e ∈ environment, f.isNamedBy e.1.toList = true) →
      ∀ (other : Option String) (r : Checked Value),
        Resolves read environment other f r ↔ Resolves read environment file f r) ∧
    ((∀ f : Field, ∃ e ∈ environment, f.isNamedBy e.1.toList = true) → ∀ other : Option String,
      loadBy read environment other = loadBy read environment file) ∧
    ((∀ text ∈ file, '$' ∉ text.toList) → ∀ (f : Field) (front : List Dotenv.Definition)
      (name : List Char) (value : Option (List Char)) (back : List Dotenv.Definition),
      (∀ e ∈ bindings environment, f.isNamedBy e.1 = false) →
        Decisive f.isNamedBy (definitions read file) front name value back →
          Gives read environment file f value) ∧
    (∀ f : Field, ∃! r, Resolves read environment file f r) ∧
    (∀ s, loadBy read environment file = .valid s ↔
      ∀ f, Resolves read environment file f (.valid (s.value f))) ∧
    ((loadBy read environment file).failed = true ↔
      ∃ f issues, Resolves read environment file f (.invalid issues)) ∧
    ∃ refused : List Field, refused.Sublist Field.all ∧
      (∀ f, f ∈ refused ↔ ∃ issues, Resolves read environment file f (.invalid issues)) ∧
      (loadBy read environment file).issues = refused.map fun f => ⟨[f.name], f.complaint⟩ := by
  refine ⟨?_, ?_, ?_, ?_, ?_, ?_, ?_, ?_⟩
  · intro other hfile h
    exact load_congr (text?_congr hread hfile h)
  · intro f hf other r
    rw [resolves_iff, resolves_iff, resolved_congr (text?_of_defined hf other file)]
  · intro hall other
    exact load_congr fun f => text?_of_defined (hall f) other file
  · intro hfile f front name value back unset decisive
    exact gives_of_decisive hread hfile unset decisive
  · intro f
    exact ⟨_, resolves_iff.mpr rfl, fun r hr => (resolves_iff.mp hr).symm⟩
  · intro s
    simp only [resolves_iff]
    exact load_eq_valid_iff
  · simp only [failed_load, List.any_eq_true, failed_resolved_iff, Field.mem_all, true_and]
  · refine ⟨_, List.filter_sublist, fun f => ?_, issues_load_eq_map _ _ _⟩
    rw [List.mem_filter, failed_resolved_iff]
    exact and_iff_right (Field.mem_all f)

/-- Two variables that are refused come before the file, and to an empty environment the file gives its
level. -/
theorem load_isolated_three :
    let environment := [("JSONPATH_TESTER_LOG_LEVEL", "loud"), ("Jsonpath_Tester_Trace_Segments", "Yes"),
      ("jsonpath_tester_rich_tracebacks", "2")]
    let other := ("LOG_LEVEL", "INFO") :: ("JSONPATH_TESTER_LOG_LEVEL_", "INFO") :: environment
    let file := some "# no level\nexport JSONPATH_TESTER_LOG_LEVEL = 'INFO' # here\n="
    let file' := some "JSONPATH_TESTER_LOG_LEVEL=$\x7bLOG_LEVEL\x7d"
    Dotenv.Reader.AddsNoReference Dotenv.ofText ∧ (∀ text ∈ file, '$' ∉ text.toList) ∧
      other.filter namesField = environment.filter namesField ∧
      (∀ f : Field, ∃ e ∈ environment, f.isNamedBy e.1.toList = true) ∧
      load other file = load environment file ∧
      (∀ r, Resolves Dotenv.ofText environment file' .logLevel r ↔
        Resolves Dotenv.ofText environment file .logLevel r) ∧
      load environment file' = load environment file ∧
      Decisive Field.logLevel.isNamedBy (definitions Dotenv.ofText file) []
        "JSONPATH_TESTER_LOG_LEVEL".toList (some "INFO".toList) [] ∧
      Gives Dotenv.ofText [] file .logLevel (some "INFO".toList) ∧
      Resolves Dotenv.ofText environment file .traceSegments (.valid (.bool true)) ∧
      (load environment file).failed = true ∧
      load environment file = .invalid [⟨["log_level"], .notAChoice⟩,
        ⟨["rich_tracebacks"], .unreadableBoolean⟩] := by
  intro environment other file file'
  have hfile : ∀ text ∈ file, '$' ∉ text.toList := by
    intro text ht
    rw [← Option.some.inj ht]
    decide +kernel
  have hother : other.filter namesField = environment.filter namesField := by decide +kernel
  have hall : ∀ f : Field, ∃ e ∈ environment, f.isNamedBy e.1.toList = true := by
    intro f
    cases f <;> decide +kernel
  have hdecisive : Decisive Field.logLevel.isNamedBy (definitions Dotenv.ofText file) []
      "JSONPATH_TESTER_LOG_LEVEL".toList (some "INFO".toList) [] :=
    (decisive_iff_of_nodup (by decide +kernel)).mpr
      ⟨by decide +kernel, by decide +kernel, by simp⟩
  have hlevel : Resolves Dotenv.ofText environment file .logLevel
      (.invalid [⟨["log_level"], .notAChoice⟩]) := resolves_iff.mpr (by decide +kernel)
  obtain ⟨hleak, hfield, hwhole, -, -, -, hfailed, -⟩ :=
    load_isolated Dotenv.addsNoReference_ofText environment file
  obtain ⟨-, -, -, hgives, -⟩ := load_isolated Dotenv.addsNoReference_ofText [] file
  exact ⟨Dotenv.addsNoReference_ofText, hfile, hother, hall, hleak other hfile hother,
    hfield .logLevel (hall .logLevel) file', hwhole hall file', hdecisive,
    hgives hfile .logLevel _ _ _ _ (by simp [bindings]) hdecisive,
    resolves_iff.mpr (by decide +kernel), hfailed.mpr ⟨_, _, hlevel⟩, by decide +kernel⟩

/-- A reference brings another variable in. Of two spellings, the one that is found later counts,
with its last value. -/
example :
    let file := some "JSONPATH_TESTER_LOG_LEVEL=$\x7bLEVEL\x7d"
    load [("LEVEL", "ERROR")] file = .valid ⟨.error, false, false⟩ ∧
      load [] file = .invalid [⟨["log_level"], .notAChoice⟩] ∧
      load [] (some ("jsonpath_tester_log_level=INFO\nJSONPATH_TESTER_LOG_LEVEL=DEBUG\n" ++
        "JSONPATH_TESTER_LOG_LEVEL=ERROR\njsonpath_tester_log_level=CRITICAL")) =
          .valid ⟨.error, false, false⟩ := by
  decide +kernel

end Settings
end PathQuery
