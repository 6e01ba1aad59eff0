import Mathlib
import PathQuery.Token

/-!
# The grammar of the scanner

`scan` is the only way to cut a text into gaps and tokens when every name runs as far as it can and
no token begins inside a gap. The token that `next?` finds is characterized first, then one step of
the scanner, and from these the concatenation law and the unique cut of a text.
-/
namespace PathQuery.Token

/-- A name is not empty and holds no character at which a name ends. -/
def IsName (name : List Char) : Prop := name ≠ [] ∧ '.' ∉ name ∧ '[' ∉ name

def IsContent (content : List Char) : Prop := content ≠ [] ∧ ']' ∉ content

def WellFormed : Token → Prop
  | bracket content => IsContent content
  | dots name => IsName name
  | dot name => IsName name

instance : DecidablePred IsName := fun _ => inferInstanceAs (Decidable (_ ∧ _))

instance : DecidablePred IsContent := fun _ => inferInstanceAs (Decidable (_ ∧ _))

instance : DecidablePred WellFormed
  | bracket _ => inferInstanceAs (Decidable (IsContent _))
  | dots _ => inferInstanceAs (Decidable (IsName _))
  | dot _ => inferInstanceAs (Decidable (IsName _))

/-- Whether a name in front of a text ends where the text begins. -/
def EndsName : List Char → Prop
  | [] => True
  | c :: _ => c = '.' ∨ c = '['

instance : DecidablePred EndsName
  | [] => inferInstanceAs (Decidable True)
  | _ :: _ => inferInstanceAs (Decidable (_ ∨ _))

/-- Whether a token in front of a text is as long as it can be. Only names can be longer. -/
def StopsBefore : Token → List Char → Prop
  | bracket _, _ => True
  | dots _, rest => EndsName rest
  | dot _, rest => EndsName rest

def Begins (s : List Char) : Prop := ∃ t : Token, t.WellFormed ∧ t.text <+: s

theorem isNameChar_eq_true {c : Char} : isNameChar c = true ↔ c ≠ '.' ∧ c ≠ '[' := by
  simp [isNameChar]

theorem IsName.isNameChar {name : List Char} (h : IsName name) :
    ∀ c ∈ name, isNameChar c = true := by
  intro c hc
  refine isNameChar_eq_true.mpr ⟨?_, ?_⟩
  · rintro rfl
    exact h.2.1 hc
  · rintro rfl
    exact h.2.2 hc

theorem isName_of_isNameChar {name : List Char} (hne : name ≠ [])
    (h : ∀ c ∈ name, Token.isNameChar c = true) : IsName name :=
  ⟨hne, fun hc => (isNameChar_eq_true.mp (h _ hc)).1 rfl,
    fun hc => (isNameChar_eq_true.mp (h _ hc)).2 rfl⟩

theorem EndsName.takeWhile {rest : List Char} (h : EndsName rest) :
    rest.takeWhile Token.isNameChar = [] := by
  cases rest with
  | nil => rfl
  | cons c rest => rcases h with rfl | rfl <;> rfl

theorem EndsName.dropWhile {rest : List Char} (h : EndsName rest) :
    rest.dropWhile Token.isNameChar = rest := by
  cases rest with
  | nil => rfl
  | cons c rest => rcases h with rfl | rfl <;> rfl

theorem endsName_dropWhile (s : List Char) : EndsName (s.dropWhile Token.isNameChar) := by
  cases h : s.dropWhile Token.isNameChar with
  | nil => trivial
  | cons c rest =>
    have hc := head_dropWhile h
    by_cases hd : c = '.'
    · exact Or.inl hd
    · by_cases hb : c = '['
      · exact Or.inr hb
      · rw [isNameChar_eq_true.mpr ⟨hd, hb⟩] at hc
        exact absurd hc (by decide)

theorem takeName?_append {make : List Char → Token} {name rest : List Char} (hn : IsName name)
    (hr : EndsName rest) : takeName? make (name ++ rest) = some (make name, rest) := by
  have ht : (name ++ rest).takeWhile Token.isNameChar = name := by
    rw [List.takeWhile_append_of_pos hn.isNameChar, hr.takeWhile, List.append_nil]
  have hd : (name ++ rest).dropWhile Token.isNameChar = rest := by
    rw [List.dropWhile_append_of_pos hn.isNameChar, hr.dropWhile]
  unfold takeName?
  rw [ht, hd]
  cases name with
  | nil => exact absurd rfl hn.1
  | cons c name => rfl

theorem takeName?_eq_some {make : List Char → Token} {s tail : List Char} {t : Token} :
    takeName? make s = some (t, tail) ↔
      ∃ name, IsName name ∧ EndsName tail ∧ t = make name ∧ s = name ++ tail := by
  constructor
  · intro h
    have hall : ∀ c ∈ s.takeWhile Token.isNameChar, Token.isNameChar c = true :=
      fun c hc => List.mem_takeWhile_imp hc
    unfold takeName? at h
    split at h
    · exact absurd h (by simp)
    · rename_i c name hs
      simp only [Option.some.injEq, Prod.mk.injEq] at h
      obtain ⟨rfl, rfl⟩ := h
      rw [hs] at hall
      exact ⟨c :: name, isName_of_isNameChar (by simp) hall, endsName_dropWhile s, rfl,
        by rw [← hs, List.takeWhile_append_dropWhile]⟩
  · rintro ⟨name, hn, hr, rfl, rfl⟩
    exact takeName?_append hn hr

theorem IsContent.isContentChar {content : List Char} (h : IsContent content) :
    ∀ c ∈ content, isContentChar c = true := by
  intro c hc
  have hne : c ≠ ']' := fun he => h.2 (he ▸ hc)
  simpa [Token.isContentChar] using hne

theorem takeContent?_append {content : List Char} (h : IsContent content) (rest : List Char) :
    takeContent? (content ++ ']' :: rest) = some (bracket content, rest) := by
  have hend : isContentChar ']' = false := by decide
  have ht : (content ++ ']' :: rest).takeWhile Token.isContentChar = content := by
    rw [List.takeWhile_append_of_pos h.isContentChar, List.takeWhile_cons, hend]
    simp
  have hd : (content ++ ']' :: rest).dropWhile Token.isContentChar = ']' :: rest := by
    rw [List.dropWhile_append_of_pos h.isContentChar, List.dropWhile_cons, hend]
    simp
  unfold takeContent?
  rw [ht, hd]
  cases content with
  | nil => exact absurd rfl h.1
  | cons c content => rfl

theorem takeContent?_eq_some {s tail : List Char} {t : Token} :
    takeContent? s = some (t, tail) ↔
      ∃ content, IsContent content ∧ t = bracket content ∧ s = content ++ ']' :: tail := by
  constructor
  · intro h
    have hall : ∀ c ∈ s.takeWhile Token.isContentChar, Token.isContentChar c = true :=
      fun c hc => List.mem_takeWhile_imp hc
    obtain ⟨content, rfl, hs⟩ := eq_append_of_takeContent? h
    unfold takeContent? at h
    split at h
    · rename_i c rest _ _ ht _
      simp only [Option.some.injEq, Prod.mk.injEq, bracket.injEq] at h
      obtain ⟨rfl, -⟩ := h
      rw [ht] at hall
      have hfree : ']' ∉ c :: rest := fun hc => absurd (hall _ hc) (by decide)
      exact ⟨c :: rest, ⟨by simp, hfree⟩, rfl, hs⟩
    · exact absurd h (by simp)
  · rintro ⟨content, hc, rfl, rfl⟩
    exact takeContent?_append hc tail

/-- The token at the front of a text is well formed and as long as it can be. -/
theorem next?_eq_some_iff {s tail : List Char} {t : Token} :
    next? s = some (t, tail) ↔ t.WellFormed ∧ t.StopsBefore tail ∧ s = t.text ++ tail := by
  constructor
  · intro h
    unfold next? at h
    split at h
    · obtain ⟨content, hc, rfl, rfl⟩ := takeContent?_eq_some.mp h
      exact ⟨hc, trivial, by simp [text]⟩
    · obtain ⟨name, hn, hr, rfl, rfl⟩ := takeName?_eq_some.mp h
      exact ⟨hn, hr, rfl⟩
    · obtain ⟨name, hn, hr, rfl, rfl⟩ := takeName?_eq_some.mp h
      exact ⟨hn, hr, rfl⟩
    · exact absurd h (by simp)
  · rintro ⟨hw, hs, rfl⟩
    cases t with
    | bracket content => simpa [text, next?] using takeContent?_append hw tail
    | dots name => exact takeName?_append hw hs
    | dot name =>
      have hn : IsName name := hw
      cases name with
      | nil => exact absurd rfl hn.1
      | cons c name =>
        have hc : c ≠ '.' := (isNameChar_eq_true.mp (hn.isNameChar c (by simp))).1
        have hnext : next? ('.' :: ((c :: name) ++ tail)) = takeName? dot ((c :: name) ++ tail) := by
          simp [next?, hc]
        exact hnext.trans (takeName?_append hn hs)

theorem begins_of_next? {s tail : List Char} {t : Token} (h : next? s = some (t, tail)) :
    Begins s := by
  obtain ⟨hw, -, rfl⟩ := next?_eq_some_iff.mp h
  exact ⟨t, hw, List.prefix_append _ _⟩

/-- A name at the front of a text extends to one that runs as far as it can. -/
theorem IsName.extend {name : List Char} (h : IsName name) (rest : List Char) :
    ∃ longer tail, IsName longer ∧ EndsName tail ∧ name ++ rest = longer ++ tail := by
  have hall : ∀ c ∈ name ++ rest.takeWhile Token.isNameChar, Token.isNameChar c = true := by
    intro c hc
    rcases List.mem_append.mp hc with hc | hc
    · exact h.isNameChar c hc
    · exact List.mem_takeWhile_imp hc
  refine ⟨name ++ rest.takeWhile Token.isNameChar, rest.dropWhile Token.isNameChar, ?_,
    endsName_dropWhile rest, ?_⟩
  · exact isName_of_isNameChar (by simp [h.1]) hall
  · rw [List.append_assoc, List.takeWhile_append_dropWhile]

theorem next?_isSome_of_begins {s : List Char} (h : Begins s) : ∃ r, next? s = some r := by
  obtain ⟨t, hw, rest, rfl⟩ := h
  cases t with
  | bracket content => exact ⟨(bracket content, rest), next?_eq_some_iff.mpr ⟨hw, trivial, rfl⟩⟩
  | dots name =>
    obtain ⟨longer, tail, hn, hr, he⟩ := IsName.extend hw rest
    exact ⟨(dots longer, tail), next?_eq_some_iff.mpr ⟨hn, hr, by simp [text, he]⟩⟩
  | dot name =>
    obtain ⟨longer, tail, hn, hr, he⟩ := IsName.extend hw rest
    exact ⟨(dot longer, tail), next?_eq_some_iff.mpr ⟨hn, hr, by simp [text, he]⟩⟩

theorem next?_eq_none_iff {s : List Char} : next? s = none ↔ ¬ Begins s := by
  constructor
  · intro h hb
    obtain ⟨r, hr⟩ := next?_isSome_of_begins hb
    rw [h] at hr
    exact absurd hr (by simp)
  · intro h
    cases hn : next? s with
    | none => rfl
    | some r => exact absurd (begins_of_next? hn) h

theorem Begins.ne_nil {s : List Char} (h : Begins s) : s ≠ [] := by
  obtain ⟨r, hr⟩ := next?_isSome_of_begins h
  rintro rfl
  exact absurd hr (by simp [next?])

@[simp] theorem scan_nil : scan [] = [] := by rw [scan]

theorem scan_of_next? {s tail : List Char} {t : Token} (h : next? s = some (t, tail)) :
    scan s = t :: scan tail := by
  cases s with
  | nil => exact absurd h (by simp [next?])
  | cons c s =>
    rw [scan]
    split
    · rename_i token rest hn
      rw [h] at hn
      cases hn
      rfl
    · rename_i hn
      rw [h] at hn
      exact absurd hn (by simp)

theorem scan_text_append {t : Token} {rest : List Char} (hw : t.WellFormed)
    (hr : t.StopsBefore rest) : scan (t.text ++ rest) = t :: scan rest :=
  scan_of_next? (next?_eq_some_iff.mpr ⟨hw, hr, rfl⟩)

theorem wellFormed_of_mem_scan {s : List Char} : ∀ t ∈ scan s, t.WellFormed := by
  fun_induction scan s with
  | case1 => simp
  | case2 c rest t tail h ih =>
    intro u hu
    rcases List.mem_cons.mp hu with rfl | hu
    · exact (next?_eq_some_iff.mp h).1
    · exact ih u hu
  | case3 c rest h ih => exact ih

theorem scan_eq_nil {s : List Char} (h : ∀ c ∈ s, Token.isNameChar c = true) : scan s = [] := by
  fun_induction scan s with
  | case1 => rfl
  | case2 c rest t tail hnext ih =>
    obtain ⟨d, hd, hname⟩ : ∃ d ∈ t.text, Token.isNameChar d = false := by
      cases t with
      | bracket content => exact ⟨'[', by simp [text], by decide⟩
      | dots name => exact ⟨'.', by simp [text], by decide⟩
      | dot name => exact ⟨'.', by simp [text], by decide⟩
    have htext := eq_append_of_next? hnext
    rw [h d (by rw [htext]; exact List.mem_append_left _ hd)] at hname
    exact absurd hname (by decide)
  | case3 c rest hnext ih => exact ih fun d hd => h d (List.mem_cons_of_mem c hd)

theorem endsName_text (t : Token) (rest : List Char) : EndsName (t.text ++ rest) := by
  cases t with
  | bracket content => exact Or.inr rfl
  | dots name => exact Or.inl rfl
  | dot name => exact Or.inl rfl

theorem EndsName.stopsBefore {rest : List Char} (h : EndsName rest) (t : Token) :
    t.StopsBefore rest := by
  cases t with
  | bracket content => trivial
  | dots name => exact h
  | dot name => exact h

theorem endsName_flatMap_text_append (ts : List Token) {rest : List Char} (hr : EndsName rest) :
    EndsName (ts.flatMap text ++ rest) := by
  cases ts with
  | nil => exact hr
  | cons t ts => simpa using endsName_text t (ts.flatMap text ++ rest)

/-- No token runs over the end of the one in front of it, so tokens are found again in front of a text
that the last of them does not run into. -/
theorem scan_flatMap_text_append_of_stops {ts : List Token} (hw : ∀ t ∈ ts, t.WellFormed)
    {rest : List Char} (hr : ∀ t ∈ ts.getLast?, t.StopsBefore rest) :
    scan (ts.flatMap text ++ rest) = ts ++ scan rest := by
  induction ts with
  | nil => rfl
  | cons t ts ih =>
    have hts : ∀ u ∈ ts, u.WellFormed := fun u hu => hw u (by simp [hu])
    have hstop : t.StopsBefore (ts.flatMap text ++ rest) := by
      cases ts with
      | nil => exact hr t rfl
      | cons u us =>
        rw [List.flatMap_cons, List.append_assoc]
        exact (endsName_text u _).stopsBefore t
    have hlast : ∀ u ∈ ts.getLast?, u.StopsBefore rest := by
      intro u hu
      apply hr u
      rw [List.getLast?_cons, Option.mem_def.mp hu]
      rfl
    rw [List.flatMap_cons, List.append_assoc, scan_text_append (hw t (by simp)) hstop, ih hts hlast]
    rfl

theorem scan_flatMap_text_append {ts : List Token} (hw : ∀ t ∈ ts, t.WellFormed) {rest : List Char}
    (hr : EndsName rest) : scan (ts.flatMap text ++ rest) = ts ++ scan rest :=
  scan_flatMap_text_append_of_stops hw fun t _ => hr.stopsBefore t

/-- A token that is found in front of a text does not run into it. -/
theorem stopsBefore_of_scan {t : Token} {rest : List Char} (hw : t.WellFormed)
    (h : scan (t.text ++ rest) = t :: scan rest) : t.StopsBefore rest := by
  obtain ⟨⟨u, tail⟩, hnext⟩ := next?_isSome_of_begins ⟨t, hw, List.prefix_append t.text rest⟩
  obtain ⟨-, hstop, htext⟩ := next?_eq_some_iff.mp hnext
  obtain ⟨rfl, -⟩ := List.cons.inj (h.symm.trans (scan_of_next? hnext))
  rwa [List.append_cancel_left htext]

theorem stopsBefore_of_scan_flatMap {ts : List Token} (hw : ∀ t ∈ ts, t.WellFormed)
    {rest : List Char} (h : scan (ts.flatMap text ++ rest) = ts ++ scan rest) :
    ∀ t ∈ ts.getLast?, t.StopsBefore rest := by
  induction ts with
  | nil => simp
  | cons t ts ih =>
    have hts : ∀ u ∈ ts, u.WellFormed := fun u hu => hw u (by simp [hu])
    rw [List.flatMap_cons, List.append_assoc] at h
    cases ts with
    | nil =>
      rintro u ⟨⟩
      exact stopsBefore_of_scan (hw t (by simp)) h
    | cons u us =>
      have hstop : t.StopsBefore ((u :: us).flatMap text ++ rest) := by
        rw [List.flatMap_cons, List.append_assoc]
        exact (endsName_text u _).stopsBefore t
      rw [scan_text_append (hw t (by simp)) hstop] at h
      rw [List.getLast?_cons_cons]
      exact ih hts (List.cons.inj h).2

theorem stopsBefore_getLast?_iff {ts : List Token} {rest : List Char} :
    (∀ t ∈ ts.getLast?, t.StopsBefore rest) ↔
      ts = [] ∨ EndsName rest ∨ ∃ content, ts.getLast? = some (bracket content) := by
  cases hlast : ts.getLast? with
  | none => simp [List.getLast?_eq_none_iff.mp hlast]
  | some t =>
    have hne : ts ≠ [] := by
      rintro rfl
      cases hlast
    cases t <;> simp [hne, StopsBefore]

/-- Tokens joined to a text are found again in front of what follows exactly when that ends a name or
the last token is in brackets. In particular the tokens of a text, joined, have no other tokens. -/
theorem scan_join :
    (∀ (ts : List Token) (rest : List Char), (∀ t ∈ ts, t.WellFormed) →
      (scan (ts.flatMap text ++ rest) = ts ++ scan rest ↔
        ts = [] ∨ EndsName rest ∨ ∃ content, ts.getLast? = some (bracket content))) ∧
    ∀ s : List Char, scan ((scan s).flatMap text) = scan s := by
  constructor
  · intro ts rest hw
    rw [← stopsBefore_getLast?_iff]
    exact ⟨stopsBefore_of_scan_flatMap hw, scan_flatMap_text_append_of_stops hw⟩
  · intro s
    have hnil : EndsName [] := trivial
    have h := scan_flatMap_text_append (wellFormed_of_mem_scan (s := s)) hnil
    simpa using h

theorem scan_join_bracket :
    let ts : List Token := [.dot ['a', ']'], .dots ['b'], .bracket ['[', '.']]
    (∀ t ∈ ts, t.WellFormed) ∧ scan (ts.flatMap text ++ "x.]..".toList) = ts ++ scan "x.]..".toList := by
  intro ts
  have hw : ∀ t ∈ ts, t.WellFormed := by decide
  exact ⟨hw, (scan_join.1 ts _ hw).mpr (Or.inr (Or.inr ⟨['[', '.'], rfl⟩))⟩

/-! ## Cutting a text -/

/-- A text in pieces: a gap, then a token, and so on up to the last gap. -/
inductive Cut
  | last (gap : List Char)
  | token (gap token : List Char) (rest : Cut)
  deriving DecidableEq, Repr

namespace Cut

def text : Cut → List Char
  | last gap => gap
  | token gap t rest => gap ++ t ++ rest.text

def tokens : Cut → List (List Char)
  | last _ => []
  | token _ t rest => t :: rest.tokens

/-- Whether no token begins at any character of a gap, `rest` being what follows the gap. -/
def IsGap (gap rest : List Char) : Prop := ∀ s, s <:+ gap → s ≠ [] → ¬ Begins (s ++ rest)

/-- Whether a text is a token of one of the shapes, and no longer one as a name that goes on. -/
def IsToken (t rest : List Char) : Prop :=
  ∃ u : Token, u.WellFormed ∧ u.StopsBefore rest ∧ t = u.text

def Valid : Cut → Prop
  | last gap => IsGap gap []
  | token gap t rest => IsGap gap (t ++ rest.text) ∧ IsToken t rest.text ∧ rest.Valid

def push (c : Char) : Cut → Cut
  | last gap => last (c :: gap)
  | token gap t rest => token (c :: gap) t rest

@[simp] theorem push_text (c : Char) (d : Cut) : (d.push c).text = c :: d.text := by
  cases d <;> rfl

@[simp] theorem push_tokens (c : Char) (d : Cut) : (d.push c).tokens = d.tokens := by
  cases d <;> rfl

theorem isGap_nil (rest : List Char) : IsGap [] rest := by
  intro s hs hne
  exact absurd (List.suffix_nil.mp hs) hne

theorem IsGap.cons {c : Char} {gap rest : List Char} (hc : ¬ Begins (c :: gap ++ rest))
    (h : IsGap gap rest) : IsGap (c :: gap) rest := by
  intro s hs hne
  rcases List.suffix_cons_iff.mp hs with rfl | hs
  · exact hc
  · exact h s hs hne

theorem Valid.push {c : Char} {d : Cut} (hc : ¬ Begins (c :: d.text)) (h : d.Valid) :
    (d.push c).Valid := by
  cases d with
  | last gap => exact IsGap.cons (by simpa [text] using hc) h
  | token gap t rest =>
    exact ⟨IsGap.cons (by simpa [text, List.append_assoc] using hc) h.1, h.2⟩

theorem exists_valid (s : List Char) :
    ∃ d : Cut, d.text = s ∧ d.Valid ∧ d.tokens = (scan s).map Token.text := by
  fun_induction scan s with
  | case1 => exact ⟨last [], rfl, isGap_nil [], rfl⟩
  | case2 c rest t tail h ih =>
    obtain ⟨d, rfl, hv, ht⟩ := ih
    obtain ⟨hw, hr, hs⟩ := next?_eq_some_iff.mp h
    exact ⟨token [] t.text d, by simp [text, hs], ⟨isGap_nil _, ⟨t, hw, hr, rfl⟩, hv⟩,
      by simp [tokens, ht]⟩
  | case3 c rest h ih =>
    obtain ⟨d, rfl, hv, ht⟩ := ih
    exact ⟨d.push c, by simp, hv.push (next?_eq_none_iff.mp h), by simp [ht]⟩

theorem begins_of_isToken {t rest : List Char} (h : IsToken t rest) : Begins (t ++ rest) := by
  obtain ⟨u, hw, -, rfl⟩ := h
  exact ⟨u, hw, List.prefix_append _ _⟩

theorem IsGap.prefix_of_eq {gap gap' t rest rest' : List Char} (hg : IsGap gap rest)
    (ht : IsToken t rest') (h : gap ++ rest = gap' ++ (t ++ rest')) : gap <+: gap' := by
  rcases List.append_eq_append_iff.mp h with ⟨s, rfl, -⟩ | ⟨s, rfl, hs⟩
  · exact List.prefix_append _ _
  · cases s with
    | nil => simp
    | cons c s =>
      have hb : Begins (c :: s ++ rest) := hs ▸ begins_of_isToken ht
      exact absurd hb (hg (c :: s) (List.suffix_append _ _) (by simp))

theorem IsToken.unique {t t' rest rest' : List Char} (h : IsToken t rest) (h' : IsToken t' rest')
    (he : t ++ rest = t' ++ rest') : t = t' ∧ rest = rest' := by
  obtain ⟨u, hw, hr, rfl⟩ := h
  obtain ⟨u', hw', hr', rfl⟩ := h'
  have hn : next? (u.text ++ rest) = some (u, rest) := next?_eq_some_iff.mpr ⟨hw, hr, rfl⟩
  have hn' : next? (u.text ++ rest) = some (u', rest') := next?_eq_some_iff.mpr ⟨hw', hr', he⟩
  rw [hn] at hn'
  cases hn'
  exact ⟨rfl, rfl⟩

theorem IsGap.ne_append_token {gap gap' t rest : List Char} (hg : IsGap gap [])
    (ht : IsToken t rest) : gap ≠ gap' ++ (t ++ rest) := by
  intro h
  have hb := begins_of_isToken ht
  exact hg (t ++ rest) ⟨gap', h.symm⟩ hb.ne_nil (by simpa using hb)

/-- Two cuts of one text agree: neither of their first gaps is longer, hence their first tokens stand
at one place. -/
theorem Valid.unique {d e : Cut} (hd : d.Valid) (he : e.Valid) (h : d.text = e.text) : d = e := by
  induction d generalizing e with
  | last gap =>
    cases e with
    | last gap' => exact congrArg last h
    | token gap' t' rest' =>
      exact absurd (by simpa [text] using h) (IsGap.ne_append_token hd he.2.1)
  | token gap t rest ih =>
    cases e with
    | last gap' => exact absurd (by simpa [text] using h.symm) (IsGap.ne_append_token he hd.2.1)
    | token gap' t' rest' =>
      have hg : gap ++ (t ++ rest.text) = gap' ++ (t' ++ rest'.text) := by
        simpa [text, List.append_assoc] using h
      have hle := (hd.1.prefix_of_eq he.2.1 hg).length_le
      have hge := (he.1.prefix_of_eq hd.2.1 hg.symm).length_le
      obtain ⟨rfl, hrest⟩ := List.append_inj hg (by omega)
      obtain ⟨rfl, htext⟩ := hd.2.1.unique he.2.1 hrest
      rw [ih hd.2.2 he.2.2 htext]

end Cut

/-- Every text has exactly one cut, and the scanner returns the tokens of that cut. -/
theorem existsUnique_cut_scan (s : List Char) :
    (∃! d : Cut, d.text = s ∧ d.Valid) ∧
      ∃ d : Cut, d.text = s ∧ d.Valid ∧ d.tokens = (scan s).map text := by
  obtain ⟨d, htext, hvalid, htokens⟩ := Cut.exists_valid s
  refine ⟨⟨d, ⟨htext, hvalid⟩, ?_⟩, d, htext, hvalid, htokens⟩
  rintro e ⟨he, hve⟩
  exact hve.unique hvalid (he.trans htext.symm)

/-- Empty and unclosed brackets and a dot without a name are skipped. -/
example : scan "a[]..b.[[c]x]..[d".toList = [dots ['b'], bracket ['[', 'c']] := by
  decide +kernel

end PathQuery.Token
