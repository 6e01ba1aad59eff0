import Mathlib
import PathQuery.Condition.Reading
import PathQuery.Proofs.Backtracking
import PathQuery.Proofs.Trimming

/-!
# The grammar of conditions

A comparison is written at a place of a text in at most two ways, which differ in the length of the
operator. The search finds the first place where one is written and reads it with the longer
operator. Neither the word nor the blanks are ever shortened by backtracking; an operator of two
characters is given up only when no literal is left behind it.
-/
namespace PathQuery

theorem Comparison.mem_all (o : Comparison) : o ∈ all := by
  rcases o with _ | _ | i
  · decide
  · decide
  · cases i <;> decide

namespace Condition
open Text

/-- A text that begins with a comparison: an at sign and a dot, the longest word, the longest run of
blanks, an operator, and something besides line feeds. -/
structure Written (s word blanks : List Char) (o : Comparison) (rest : List Char) : Prop where
  text_eq : s = '@' :: '.' :: (word ++ (blanks ++ (o.symbol.toList ++ rest)))
  word_ne_nil : word ≠ []
  word_run : ∀ c ∈ word, isWordChar c = true
  word_longest : ∀ c ∈ (blanks ++ (o.symbol.toList ++ rest)).head?, isWordChar c = false
  blanks_run : ∀ c ∈ blanks, isAsciiBlank c = true
  blanks_longest : ∀ c ∈ (o.symbol.toList ++ rest).head?, isAsciiBlank c = false
  leaves_literal : ∃ c ∈ rest, c ≠ '\n'

def Viable (s : List Char) : Prop := ∃ word blanks o rest, Written s word blanks o rest

/-- A comparison is read with an operator of two characters, or with one character when no comparison
with two is written there. -/
def Preferred (s word : List Char) (o : Comparison) (rest : List Char) : Prop :=
  (∃ blanks, Written s word blanks o rest) ∧
    (o.symbol.length = 2 ∨
      ∀ word' blanks' o' rest', Written s word' blanks' o' rest' → o'.symbol.length = 1)

/-- Whether nothing is written in a text before a place with `front` in front of it. -/
def IsFirst (text front : List Char) : Prop :=
  ∀ front' s, text = front' ++ s → Viable s → front.length ≤ front'.length

/-! ## Operators -/

theorem symbol_mem_operators (o : Comparison) : o.symbol.toList ∈ operators := by
  have hall : ∀ o ∈ Comparison.all, o.symbol.toList ∈ operators := by decide
  exact hall o o.mem_all

theorem exists_symbol_of_mem_operators {symbol : List Char} (h : symbol ∈ operators) :
    ∃ o : Comparison, symbol = o.symbol.toList := by
  have hall : ∀ piece ∈ operators, ∃ o ∈ Comparison.all, piece = o.symbol.toList := by decide
  obtain ⟨o, -, ho⟩ := hall symbol h
  exact ⟨o, ho⟩

theorem symbol_length (o : Comparison) : o.symbol.length = 1 ∨ o.symbol.length = 2 := by
  have hall : ∀ o ∈ Comparison.all, o.symbol.length = 1 ∨ o.symbol.length = 2 := by decide
  exact hall o o.mem_all

theorem symbol_injective {o o' : Comparison} (h : o.symbol.toList = o'.symbol.toList) : o = o' := by
  have hs := congrArg Comparison.ofSymbol? (String.toList_inj.mp h)
  rwa [Comparison.ofSymbol?_symbol, Comparison.ofSymbol?_symbol, Option.some.injEq] at hs

theorem operators_pairwise : operators.Pairwise fun a b => b.length ≤ a.length := by decide

/-- A longer operator is offered before a shorter one. -/
theorem mem_of_symbol_length_lt {longer shorter : List (List Char)} {o o' : Comparison}
    (hsplit : operators = longer ++ o.symbol.toList :: shorter)
    (hlength : o.symbol.length < o'.symbol.length) : o'.symbol.toList ∈ longer := by
  have hmem := symbol_mem_operators o'
  have hpair := operators_pairwise
  rw [hsplit] at hmem hpair
  refine (List.mem_append.mp hmem).resolve_right fun hm => ?_
  have hle : o'.symbol.toList.length ≤ o.symbol.toList.length := by
    rcases List.mem_cons.mp hm with hm | hm
    · rw [hm]
    · exact (List.pairwise_cons.mp (List.pairwise_append.mp hpair).2.1).1 _ hm
  simp only [String.length_toList] at hle
  omega

theorem isAsciiBlank_of_isWordChar {c : Char} (h : isWordChar c = true) :
    isAsciiBlank c = false := by
  have hc : 0x20 < c.toNat ∧ c.toNat < 0x80 := by
    rw [isWordChar, Bool.or_eq_true, beq_iff_eq] at h
    rcases h with h | rfl
    · exact toNat_of_isAlphanum h
    · decide
  exact isAsciiBlank_eq_false (isBlank_of_toNat hc.1 hc.2)

theorem head_of_mem_operators {symbol : List Char} (h : symbol ∈ operators) :
    ∃ c tail, symbol = c :: tail ∧ isWordChar c = false ∧ isAsciiBlank c = false := by
  simp only [operators, List.mem_cons, List.not_mem_nil, or_false] at h
  rcases h with rfl | rfl | rfl | rfl | rfl | rfl <;> exact ⟨_, _, rfl, by decide, by decide⟩

/-- Neither a word nor blanks can be shortened in front of an operator. -/
theorem takeOneOf_operators_eq_none {α : Type} {c : Char} {rest : List Char}
    {next : List Char → List Char → Option α}
    (h : isWordChar c = true ∨ isAsciiBlank c = true) :
    takeOneOf operators (c :: rest) next = none := by
  refine List.findSome?_eq_none_iff.mpr fun symbol hs => ?_
  obtain ⟨d, tail, rfl, hword, hblank⟩ := head_of_mem_operators hs
  rw [takeExactly, if_neg]
  intro hp
  obtain ⟨more, he⟩ := List.isPrefixOf_iff_prefix.mp hp
  cases he
  simp [hword, hblank] at h

/-! ## The literal -/

theorem read_of_blank {s : List Char} (h : ∀ c ∈ s, isAsciiBlank c = true) :
    Literal.read s = .text "" := by
  have htrim : trim isBlank s = [] := by
    have hall : ∀ c ∈ s, isBlank c = true := fun c hc => isBlank_of_isAsciiBlank (h c hc)
    rw [trim, List.dropWhile_eq_nil_iff.mpr hall]
    rfl
  rw [Literal.read, htrim]
  rfl

/-- The text of the literal behind an operator: the rest of the line after blanks. -/
def literalText (rest : List Char) : List Char :=
  (rest.dropWhile isAsciiBlank).takeWhile (· != '\n')

variable {α : Type}

/-- The pieces of a comparison behind its operator. -/
def takeLiteral (make : List Char → α) (s : List Char) : Option α :=
  takeRun isAsciiBlank s fun _ s => takeSome (· != '\n') s fun literal _ => some (make literal)

theorem takeLiteral_eq_none_iff {make : List Char → α} {s : List Char} :
    takeLiteral make s = none ↔ ¬ ∃ c ∈ s, c ≠ '\n' := by
  simp only [takeLiteral, takeRun_eq_none_iff, takeSome_some (fun literal _ => make literal),
    ite_eq_left_iff, reduceCtorEq, imp_false, not_not]
  constructor
  · rintro h ⟨c, hc, hne⟩
    -- The line feeds in front are blanks, and behind them begins a literal.
    have hrun : ∀ d ∈ s.takeWhile (· == '\n'), isAsciiBlank d = true := by
      intro d hd
      have hfeed : d = '\n' := by simpa using List.mem_takeWhile_imp hd
      rw [hfeed]
      decide
    have hnil := h _ _ List.takeWhile_append_dropWhile.symm hrun
    cases hrest : s.dropWhile (· == '\n') with
    | nil =>
      have hfeed : c = '\n' := by simpa using List.dropWhile_eq_nil_iff.mp hrest c hc
      exact hne hfeed
    | cons d rest =>
      have hd : (d == '\n') = false := Token.head_dropWhile (p := (· == '\n')) hrest
      simp [hrest, bne, hd] at hnil
  · rintro h run rest rfl -
    have hfeed : ∀ c ∈ run ++ rest, c = '\n' := by simpa using h
    cases rest with
    | nil => rfl
    | cons d rest => simp [hfeed d (by simp)]

theorem takeLiteral_eq_some {make : List Char → α} {s : List Char} {a : α}
    (h : takeLiteral make s = some a) :
    (∃ c ∈ s, c ≠ '\n') ∧
      ∃ literal, a = make literal ∧ Literal.read literal = Literal.read (literalText s) := by
  have hleaves : ∃ c ∈ s, c ≠ '\n' := by
    by_contra hnot
    rw [takeLiteral_eq_none_iff.mpr hnot] at h
    exact absurd h (by simp)
  refine ⟨hleaves, ?_⟩
  have hsome : ∀ s : List Char, takeSome (· != '\n') s (fun literal _ => some (make literal)) =
      if s.takeWhile (· != '\n') = [] then none
      else some (make (s.takeWhile (· != '\n'))) :=
    fun s => takeSome_some fun literal _ => make literal
  unfold takeLiteral at h
  simp only [hsome] at h
  cases hrest : s.dropWhile isAsciiBlank with
  | cons c rest =>
    have hc : isAsciiBlank c = false := Token.head_dropWhile hrest
    have hfeed : (c != '\n') = true := by
      rw [bne_iff_ne]
      rintro rfl
      exact absurd hc (by decide)
    have hlong : takeRun isAsciiBlank s (fun _ s =>
        if s.takeWhile (· != '\n') = [] then none else some (make (s.takeWhile (· != '\n')))) =
        some (make (literalText s)) :=
      takeRun_of_longest (by simp [literalText, hrest, hfeed])
    rw [hlong] at h
    exact ⟨literalText s, (Option.some.inj h).symm, rfl⟩
  | nil =>
    -- Only blanks are left, so the literal is a run of them.
    have hblank : ∀ c ∈ s, isAsciiBlank c = true := List.dropWhile_eq_nil_iff.mp hrest
    obtain ⟨run, rest, rfl, -, ha⟩ := exists_of_takeRun h
    split at ha
    · exact absurd ha (by simp)
    · refine ⟨_, (Option.some.inj ha).symm, ?_⟩
      have hempty : literalText (run ++ rest) = [] := by rw [literalText, hrest]; rfl
      rw [hempty, read_of_blank (s := []) (by simp)]
      refine read_of_blank fun c hc => hblank c ?_
      exact List.mem_append_right run (List.takeWhile_subset _ hc)

/-! ## One place -/

theorem written_iff {s word : List Char} {o : Comparison} {rest : List Char} :
    (∃ blanks, Written s word blanks o rest) ↔
      ∃ tail, s = '@' :: '.' :: tail ∧ tail.takeWhile isWordChar = word ∧ word ≠ [] ∧
        (tail.dropWhile isWordChar).dropWhile isAsciiBlank = o.symbol.toList ++ rest ∧
        ∃ c ∈ rest, c ≠ '\n' := by
  constructor
  · rintro ⟨blanks, h⟩
    obtain ⟨hword, hafter⟩ := takeWhile_of_longest h.word_run h.word_longest
    obtain ⟨-, hoperator⟩ := takeWhile_of_longest h.blanks_run h.blanks_longest
    exact ⟨_, h.text_eq, hword, h.word_ne_nil, by rw [hafter, hoperator], h.leaves_literal⟩
  · rintro ⟨tail, rfl, rfl, hne, hoperator, hleaves⟩
    refine ⟨(tail.dropWhile isWordChar).takeWhile isAsciiBlank, ?_, hne, ?_, ?_, ?_, ?_, hleaves⟩
    · rw [← hoperator, List.takeWhile_append_dropWhile, List.takeWhile_append_dropWhile]
    · exact fun c hc => List.mem_takeWhile_imp hc
    · rw [← hoperator, List.takeWhile_append_dropWhile]
      exact eq_false_of_mem_head?_dropWhile _ _
    · exact fun c hc => List.mem_takeWhile_imp hc
    · rw [← hoperator]
      exact eq_false_of_mem_head?_dropWhile _ _

/-- The match behind the at sign and the dot, without backtracking over the word and the blanks. -/
def afterMark (tail : List Char) : Option Parts :=
  if tail.takeWhile isWordChar = [] then none
  else takeOneOf operators ((tail.dropWhile isWordChar).dropWhile isAsciiBlank) fun symbol rest =>
    takeLiteral (fun literal => ⟨tail.takeWhile isWordChar, symbol, literal⟩) rest

theorem atFront?_eq (s : List Char) : atFront? s = takeExactly ['@', '.'] s afterMark := by
  have hblanks : ∀ (tail : List Char) (next : List Char → List Char → Option Parts),
      takeRun isAsciiBlank tail (fun _ s => takeOneOf operators s next) =
        takeOneOf operators (tail.dropWhile isAsciiBlank) next := by
    intro tail next
    exact takeRun_of_refused fun run c rest _ hc => takeOneOf_operators_eq_none (Or.inr hc)
  unfold atFront?
  simp only [hblanks]
  congr 1
  funext tail
  rw [takeSome, takeRun_of_refused]
  · simp only [List.isEmpty_iff]
    rfl
  · intro run c rest _ hc
    have hblank := isAsciiBlank_of_isWordChar hc
    rw [List.dropWhile_cons_of_neg (by simp [hblank])]
    split
    · rfl
    · exact takeOneOf_operators_eq_none (Or.inl hc)

theorem not_viable_of_atFront? {s : List Char} (h : atFront? s = none) : ¬ Viable s := by
  rintro ⟨word, blanks, o, rest, hw⟩
  obtain ⟨tail, rfl, rfl, hne, hoperator, hleaves⟩ := written_iff.mp ⟨blanks, hw⟩
  have hmark : atFront? ('@' :: '.' :: tail) = afterMark tail := by
    rw [atFront?_eq]
    exact takeExactly_append ['@', '.'] tail afterMark
  rw [hmark, afterMark, if_neg hne, hoperator] at h
  have hnone := List.findSome?_eq_none_iff.mp h _ (symbol_mem_operators o)
  rw [takeExactly_append] at hnone
  exact takeLiteral_eq_none_iff.mp hnone hleaves

theorem preferred_of_atFront? {s : List Char} {parts : Parts} (h : atFront? s = some parts) :
    ∃ o rest, Preferred s parts.property o rest ∧ parts.symbol = o.symbol.toList ∧
      Literal.read parts.literal = Literal.read (literalText rest) := by
  rw [atFront?_eq] at h
  obtain ⟨tail, hs, htail⟩ := takeExactly_eq_some_iff.mp h
  unfold afterMark at htail
  split at htail
  · exact absurd htail (by simp)
  rename_i hne
  obtain ⟨longer, symbol, shorter, hsplit, htake, hrefused⟩ := List.findSome?_eq_some_iff.mp htail
  obtain ⟨rest, hoperator, hliteral⟩ := takeExactly_eq_some_iff.mp htake
  obtain ⟨o, rfl⟩ := exists_symbol_of_mem_operators (hsplit ▸ by simp : symbol ∈ operators)
  obtain ⟨hleaves, literal, rfl, hread⟩ := takeLiteral_eq_some hliteral
  refine ⟨o, rest, ⟨written_iff.mpr ⟨tail, hs, rfl, hne, hoperator, hleaves⟩, ?_⟩, rfl, hread⟩
  rcases symbol_length o with hone | htwo
  · -- An operator of two characters was offered before this one, and refused.
    refine Or.inr fun word' blanks' o' rest' hw => ?_
    obtain ⟨tail', hs', -, -, hoperator', hleaves'⟩ := written_iff.mp ⟨blanks', hw⟩
    obtain rfl : tail = tail' := by simpa using hs.symm.trans hs'
    refine (symbol_length o').resolve_right fun htwo => ?_
    have hlonger : o'.symbol.toList ∈ longer := mem_of_symbol_length_lt hsplit (by omega)
    have hnone := hrefused _ hlonger
    rw [hoperator', takeExactly_append] at hnone
    exact takeLiteral_eq_none_iff.mp hnone hleaves'
  · exact Or.inl htwo

theorem Preferred.unique {s word word' rest rest' : List Char} {o o' : Comparison}
    (h : Preferred s word o rest) (h' : Preferred s word' o' rest') :
    word = word' ∧ o = o' ∧ rest = rest' := by
  obtain ⟨⟨blanks, hw⟩, hlong⟩ := h
  obtain ⟨⟨blanks', hw'⟩, hlong'⟩ := h'
  obtain ⟨tail, rfl, rfl, -, hoperator, -⟩ := written_iff.mp ⟨blanks, hw⟩
  obtain ⟨tail', he, rfl, -, hoperator', -⟩ := written_iff.mp ⟨blanks', hw'⟩
  cases he
  have hlength : o.symbol.length = o'.symbol.length := by
    rcases hlong with htwo | hone
    · rcases hlong' with htwo' | hone'
      · rw [htwo, htwo']
      · have := hone' _ _ _ _ hw
        omega
    · have hone' := hone _ _ _ _ hw'
      rcases hlong' with htwo' | hall
      · omega
      · rw [hall _ _ _ _ hw, hone']
  obtain ⟨hsymbol, hrest⟩ := List.append_inj (hoperator.symm.trans hoperator')
    (by rw [String.length_toList, String.length_toList, hlength])
  exact ⟨rfl, symbol_injective hsymbol, hrest⟩

/-! ## The search -/

theorem not_viable_nil : ¬ Viable [] := by
  rintro ⟨word, blanks, o, rest, hw⟩
  exact absurd hw.text_eq (by simp)

theorem not_viable_of_search? {text : List Char} (h : search? text = none) :
    ∀ front s, text = front ++ s → ¬ Viable s := by
  induction text with
  | nil =>
    intro front s he
    rw [(List.append_eq_nil_iff.mp he.symm).2]
    exact not_viable_nil
  | cons c text ih =>
    rw [search?, Option.orElse_eq_none] at h
    intro front s he
    cases front with
    | nil =>
      rw [List.nil_append] at he
      exact he ▸ not_viable_of_atFront? h.1
    | cons d front => exact ih h.2 front s (List.cons.inj he).2

theorem isFirst_of_search? {text : List Char} {parts : Parts} (h : search? text = some parts) :
    ∃ front s, text = front ++ s ∧ IsFirst text front ∧ atFront? s = some parts := by
  induction text with
  | nil => exact absurd h (by simp [search?])
  | cons c text ih =>
    rw [search?, Option.orElse_eq_orElse, Option.orElse_eq_or, Option.or_eq_some_iff] at h
    rcases h with h | ⟨hnone, h⟩
    · exact ⟨[], c :: text, rfl, fun _ _ _ _ => Nat.zero_le _, h⟩
    · obtain ⟨front, s, rfl, hfirst, hs⟩ := ih h
      refine ⟨c :: front, s, rfl, ?_, hs⟩
      intro front' s' he hv
      cases front' with
      | nil =>
        rw [List.nil_append] at he
        exact absurd hv (he ▸ not_viable_of_atFront? hnone)
      | cons d front' =>
        have hle := hfirst front' s' (List.cons.inj he).2 hv
        simpa using hle

theorem IsFirst.unique {text front front' s s' : List Char} (h : IsFirst text front)
    (h' : IsFirst text front') (hs : text = front ++ s) (hs' : text = front' ++ s') (hv : Viable s)
    (hv' : Viable s') : s = s' := by
  have hle := h front' s' hs' hv'
  have hge := h' front s hs hv
  exact (List.append_inj (hs.symm.trans hs') (by omega)).2

/-! ## Reading -/

theorem ofFields_symbol (property : String) (o : Comparison) (l : Literal) :
    ofFields property o.symbol l.toValue = .valid ⟨property, o, l⟩ := by
  have ho : readOperator o.symbol = .valid o := by
    rw [readOperator, Comparison.ofSymbol?_symbol]
  have hl : readLiteralField l.toValue = .valid l := by cases l <;> rfl
  rw [ofFields, ho, hl]
  rfl

theorem ofParts_of_symbol {parts : Parts} {o : Comparison} (h : parts.symbol = o.symbol.toList) :
    ofParts parts = .ok ⟨String.ofList parts.property, o, Literal.read parts.literal⟩ := by
  rw [ofParts, h, String.ofList_toList, ofFields_symbol]

/-- What is read from an expression: the preferred comparison at the first place of its body where one
is written. -/
theorem read_of_search? {expression : String} {parts : Parts}
    (h : search? (body expression.toList) = some parts) :
    ∃ front s word o rest, body expression.toList = front ++ s ∧
      IsFirst (body expression.toList) front ∧ Preferred s word o rest ∧
      read expression = .ok ⟨String.ofList word, o, Literal.read (literalText rest)⟩ := by
  obtain ⟨front, s, hs, hfirst, hat⟩ := isFirst_of_search? h
  obtain ⟨o, rest, hpreferred, hsymbol, hread⟩ := preferred_of_atFront? hat
  refine ⟨front, s, _, o, rest, hs, hfirst, hpreferred, ?_⟩
  simp only [read, h, ofParts_of_symbol hsymbol, hread]

theorem read_eq_error {expression : String} (h : search? (body expression.toList) = none) :
    read expression = .error (.unsupportedFilter (String.ofList (body expression.toList))) := by
  simp only [read, h]

theorem Preferred.viable {s word rest : List Char} {o : Comparison} (h : Preferred s word o rest) :
    Viable s := by
  obtain ⟨⟨blanks, hw⟩, -⟩ := h
  exact ⟨word, blanks, o, rest, hw⟩

theorem read_eq_error_iff {expression : String} {fault : Fault} :
    read expression = .error fault ↔
      (∀ front s, body expression.toList = front ++ s → ¬ Viable s) ∧
        fault = .unsupportedFilter (String.ofList (body expression.toList)) := by
  cases hsearch : search? (body expression.toList) with
  | none =>
    rw [read_eq_error hsearch]
    constructor
    · intro h
      cases h
      exact ⟨not_viable_of_search? hsearch, rfl⟩
    · rintro ⟨-, rfl⟩
      rfl
  | some parts =>
    obtain ⟨front, s, word, o, rest, hs, -, hpreferred, hread⟩ := read_of_search? hsearch
    rw [hread]
    constructor
    · intro h
      exact absurd h (by simp)
    · rintro ⟨hnone, -⟩
      exact absurd hpreferred.viable (hnone front s hs)

theorem read_eq_ok_iff {expression : String} {c : Condition} :
    read expression = .ok c ↔
      ∃ front s word o rest, body expression.toList = front ++ s ∧
        IsFirst (body expression.toList) front ∧ Preferred s word o rest ∧
        c = ⟨String.ofList word, o, Literal.read (literalText rest)⟩ := by
  cases hsearch : search? (body expression.toList) with
  | none =>
    rw [read_eq_error hsearch]
    constructor
    · intro h
      exact absurd h (by simp)
    · rintro ⟨front, s, word, o, rest, hs, -, hpreferred, -⟩
      exact absurd hpreferred.viable (not_viable_of_search? hsearch front s hs)
  | some parts =>
    obtain ⟨front, s, word, o, rest, hs, hfirst, hpreferred, hread⟩ := read_of_search? hsearch
    rw [hread]
    constructor
    · intro h
      exact ⟨front, s, word, o, rest, hs, hfirst, hpreferred, (Except.ok.inj h).symm⟩
    · rintro ⟨front', s', word', o', rest', hs', hfirst', hpreferred', rfl⟩
      obtain rfl := hfirst.unique hfirst' hs hs' hpreferred.viable hpreferred'.viable
      obtain ⟨rfl, rfl, rfl⟩ := hpreferred.unique hpreferred'
      rfl

theorem read_literalText_of_blank {rest : List Char} (h : ∀ c ∈ rest, isAsciiBlank c = true) :
    Literal.read (literalText rest) = .text "" := by
  have hempty : rest.dropWhile isAsciiBlank = [] := List.dropWhile_eq_nil_iff.mpr h
  rw [literalText, hempty]
  exact read_of_blank (by simp)

/-- Reading accepts exactly the expressions in whose body a comparison is written, and reads the
preferred one at the first place. -/
theorem read_eq_iff (expression : String) :
    let text := body expression.toList
    (∀ fault, read expression = .error fault ↔
      (∀ front s, text = front ++ s → ¬ Viable s) ∧
        fault = .unsupportedFilter (String.ofList text)) ∧
    (∀ c, read expression = .ok c ↔
      ∃ front s word o rest, text = front ++ s ∧ IsFirst text front ∧ Preferred s word o rest ∧
        c = ⟨String.ofList word, o,
          Literal.read ((rest.dropWhile isAsciiBlank).takeWhile (· != '\n'))⟩) ∧
    ∀ rest : List Char, (∀ c ∈ rest, isAsciiBlank c = true) →
      Literal.read ((rest.dropWhile isAsciiBlank).takeWhile (· != '\n')) = .text "" :=
  ⟨fun _ => read_eq_error_iff, fun _ => read_eq_ok_iff, fun _ => read_literalText_of_blank⟩

/-- An operator at the end gives up its second character to the literal, and what is written after
the first comparison belongs to its literal. -/
example : read "?(@. @.a >=)" = .ok ⟨"a", .inequality .greater, .text "="⟩ ∧
    read "?(@.a<\t\n1 @.b == 2)" = .ok ⟨"a", .inequality .less, .text "1 @.b == 2"⟩ := by
  decide +kernel

end Condition
end PathQuery
