import Mathlib.Data.List.TakeWhile
import Schematic.Formula.Reading
import Schematic.Proofs.Token.Scan

/-!
# The lexical grammar

What the lexemes of a text are, said without reading it: a sign; a letter, where letters are
variables; a run of letters that no letter comes before or follows, where words are read; and the
end. A word is `AND`, `OR` or `NOT` in either case, or else names the variable of its first letter.

Main result: a text that has no stray character is read as its lexemes with their places, and one
that has is refused at the first (`tokenize_follows_lexical_grammar`).
-/

namespace Schematic.Lexer

variable {spelling : Spelling} {c : Char} {text : List Char}

/-! ### Lexemes -/

/-- The token that a word is, in either case. -/
inductive Word : List Char → Token.Kind → Prop where
  /-- The conjunction sign as a word. -/
  | and {letters : List Char} : letters.map Char.toUpper = ['A', 'N', 'D'] → Word letters .and
  /-- The disjunction sign as a word. -/
  | or {letters : List Char} : letters.map Char.toUpper = ['O', 'R'] → Word letters .or
  /-- The negation sign as a word. -/
  | not {letters : List Char} : letters.map Char.toUpper = ['N', 'O', 'T'] → Word letters .not
  /-- Any other word is the variable of its first letter. -/
  | named {first : Char} {more : List Char} :
    (first :: more).map Char.toUpper ≠ ['A', 'N', 'D'] →
    (first :: more).map Char.toUpper ≠ ['O', 'R'] →
    (first :: more).map Char.toUpper ≠ ['N', 'O', 'T'] →
    Word (first :: more) (.identifier first.toUpper)

/-- After the characters before it, a lexeme of the kind starts. -/
inductive Lexeme (spelling : Spelling) (before : List Char) : List Char → Token.Kind → Prop where
  /-- A sign. -/
  | sign {c : Char} {after : List Char} {kind : Token.Kind} :
    Sign c kind → Lexeme spelling before (c :: after) kind
  /-- A letter, where letters are variables. -/
  | letter {c : Char} {after : List Char} : spelling = .symbolic → c.isAlpha = true →
    Lexeme spelling before (c :: after) (.identifier c.toUpper)
  /-- A run of letters that no letter comes before or follows, where words are read. -/
  | word {letters after : List Char} {kind : Token.Kind} : spelling = .keywords →
    (∀ c ∈ letters, c.isAlpha = true) → (∀ c ∈ before.getLast?, c.isAlpha = false) →
    NoLetter after → Word letters kind → Lexeme spelling before (letters ++ after) kind
  /-- The end of the text. -/
  | ending : Lexeme spelling before [] .endOfInput

theorem Word.ne_nil {letters : List Char} {kind : Token.Kind} (h : Word letters kind) :
    letters ≠ [] := by
  rintro rfl
  cases h <;> contradiction

theorem word_iff {first : Char} {more : List Char} {kind : Token.Kind} :
    Word (first :: more) kind ↔ word first more = kind := by
  constructor
  · intro h
    unfold word
    cases h with
    | and h =>
      rw [h]
      rfl
    | or h =>
      rw [h]
      rfl
    | not h =>
      rw [h]
      rfl
    | named hand hor hnot =>
      split
      · next heq => exact absurd heq hand
      · next heq => exact absurd heq hor
      · next heq => exact absurd heq hnot
      · rfl
  · intro h
    unfold word at h
    split at h
    · next heq => exact h ▸ .and heq
    · next heq => exact h ▸ .or heq
    · next heq => exact h ▸ .not heq
    · next hand hor hnot => exact h ▸ .named hand hor hnot

/-- The characters end in a letter. -/
def endsInLetter (before : List Char) : Bool := before.getLast?.any Char.isAlpha

theorem endsInLetter_eq_false_iff {before : List Char} :
    endsInLetter before = false ↔ ∀ c ∈ before.getLast?, c.isAlpha = false := by
  rw [endsInLetter]
  cases before.getLast? <;> simp

theorem endsInLetter_concat (before : List Char) (c : Char) :
    endsInLetter (before ++ [c]) = c.isAlpha := by
  rw [endsInLetter, List.getLast?_concat, Option.any_some]

/-- What is scanned at a character is the lexeme that starts there. -/
theorem lexeme_cons_iff {before : List Char} {kind : Token.Kind} :
    Lexeme spelling before (c :: text) kind ↔
      kindAt? spelling (endsInLetter before) c text = some kind := by
  constructor
  · intro h
    generalize hrest : c :: text = rest at h
    cases h with
    | sign hsign =>
      cases hrest
      exact kindAt?_of_sign hsign _ _
    | letter hspelling halpha =>
      cases hrest
      subst hspelling
      exact kindAt?_of_isAlpha halpha _ _
    | @word letters after _ hspelling hletters hbefore hafter hword =>
      cases letters with
      | nil => exact absurd rfl hword.ne_nil
      | cons first more =>
        rw [List.cons_append, List.cons.injEq] at hrest
        obtain ⟨rfl, rfl⟩ := hrest
        subst hspelling
        obtain ⟨hfirst, hmore⟩ := List.forall_mem_cons.1 hletters
        rw [kindAt?_of_isAlpha hfirst, endsInLetter_eq_false_iff.2 hbefore, letterKind?,
          takeWhile_append_of_noLetter more hafter, List.takeWhile_eq_self_iff.2 hmore,
          word_iff.1 hword]
        rfl
    | ending => cases hrest
  · intro h
    cases hsign : sign? c with
    | some sign =>
      have hc := sign?_eq_some_iff.1 hsign
      rw [kindAt?_of_sign hc] at h
      cases h
      exact .sign hc
    | none =>
      rw [kindAt?, hsign, Option.none_or, Option.ite_none_right_eq_some] at h
      obtain ⟨halpha, h⟩ := h
      cases spelling with
      | symbolic =>
        cases h
        exact .letter rfl halpha
      | keywords =>
        rw [letterKind?, Option.ite_none_left_eq_some, Bool.not_eq_true,
          endsInLetter_eq_false_iff, Option.some.injEq, ← word_iff] at h
        have hletters : ∀ d ∈ c :: text.takeWhile Char.isAlpha, d.isAlpha = true :=
          List.forall_mem_cons.2 ⟨halpha, List.all_eq_true.1 List.all_takeWhile⟩
        have hlexeme := Lexeme.word rfl hletters h.1 (noLetter_dropWhile text) h.2
        rwa [List.cons_append, List.takeWhile_append_dropWhile] at hlexeme

/-! ### The tokens of a text -/

/-- The tokens are the lexemes of the text, in order, with their places; the last one is the end,
and no other one is. -/
structure Lexed (spelling : Spelling) (text : List Char) (tokens : List Token) : Prop where
  /-- The tokens stand in the order of their places. -/
  ordered : tokens.Pairwise fun token later => token.position < later.position
  /-- There is a token for every lexeme, behind as many characters as its position says, and no
  other one. -/
  mem_iff {token : Token} : token ∈ tokens ↔ ∃ before after, text = before ++ after ∧
    token.position = before.length ∧ Lexeme spelling before after token.kind
  /-- The end comes last, behind all characters. -/
  ends : ∃ init, tokens = init ++ [⟨.endOfInput, text.length⟩] ∧
    ∀ token ∈ init, token.kind ≠ .endOfInput

theorem kindAt?_ne_endOfInput (inWord : Bool) (c : Char) (text : List Char) :
    kindAt? spelling inWord c text ≠ some .endOfInput := by
  intro h
  rw [kindAt?, Option.or_eq_some_iff] at h
  rcases h with hsign | ⟨-, h⟩
  · exact sign?_ne_endOfInput c hsign
  · rw [Option.ite_none_right_eq_some] at h
    cases spelling with
    | symbolic => cases h.2
    | keywords =>
      rw [letterKind?, Option.ite_none_left_eq_some, Option.some.injEq] at h
      exact word_ne_endOfInput c _ h.2.2

/-- The token of the kind at a place, if there is one. -/
def tokenAt (position : Nat) (kind? : Option Token.Kind) : List Token :=
  (kind?.map (⟨·, position⟩)).toList

theorem mem_tokenAt_iff {position : Nat} {kind? : Option Token.Kind} {token : Token} :
    token ∈ tokenAt position kind? ↔ token.position = position ∧ kind? = some token.kind := by
  obtain ⟨kind, place⟩ := token
  cases kind? <;> simp [tokenAt, and_comm, eq_comm]

/-- A scan that succeeds meets no stray character, and has a token for what starts at the first
one. -/
theorem scan_cons_eq_ok_iff {inWord : Bool} {position : Nat} {tokens : List Token} :
    scan spelling inWord position (c :: text) = .ok tokens ↔
      ¬ Stray c ∧ ∃ later, scan spelling c.isAlpha (position + 1) text = .ok later ∧
        tokens = tokenAt position (kindAt? spelling inWord c text) ++ later := by
  by_cases hc : Stray c
  · simp [scan, hc]
  · cases hkind : kindAt? spelling inWord c text with
    | none => simp [scan_cons_of_none hc hkind, hc, tokenAt]
    | some kind =>
      rw [scan_cons_of_kind hc hkind]
      cases scan spelling c.isAlpha (position + 1) text <;> simp [hc, tokenAt, eq_comm]

theorem lexeme_nil_iff {before : List Char} {kind : Token.Kind} :
    Lexeme spelling before [] kind ↔ kind = .endOfInput := by
  constructor
  · intro h
    generalize hrest : ([] : List Char) = rest at h
    cases h with
    | sign => cases hrest
    | letter => cases hrest
    | word _ _ _ _ hword => exact absurd (List.append_eq_nil_iff.1 hrest.symm).1 hword.ne_nil
    | ending => rfl
  · rintro rfl
    exact .ending

/-- The tokens of a scan are the lexemes of what is scanned. -/
theorem mem_scan_iff (before : List Char) {tokens : List Token}
    (h : scan spelling (endsInLetter before) before.length text = .ok tokens) {token : Token} :
    token ∈ tokens ↔ ∃ inside after, text = inside ++ after ∧
      token.position = (before ++ inside).length ∧
      Lexeme spelling (before ++ inside) after token.kind := by
  induction text generalizing before tokens with
  | nil =>
    obtain ⟨kind, position⟩ := token
    cases h
    simp [lexeme_nil_iff, and_comm]
  | cons c text ih =>
    obtain ⟨-, later, hlater, rfl⟩ := scan_cons_eq_ok_iff.1 h
    have hlength : before.length + 1 = (before ++ [c]).length := by simp
    rw [← endsInLetter_concat before c, hlength] at hlater
    -- A lexeme starts at the first character or behind it.
    rw [List.mem_append, ih _ hlater, mem_tokenAt_iff, ← lexeme_cons_iff]
    constructor
    · rintro (⟨hposition, hlexeme⟩ | ⟨inside, after, rfl, hposition, hlexeme⟩)
      · exact ⟨[], c :: text, rfl, by simpa using hposition, by simpa using hlexeme⟩
      · exact ⟨c :: inside, after, rfl, by simpa using hposition, by simpa using hlexeme⟩
    · rintro ⟨inside, after, hsplit, hposition, hlexeme⟩
      cases inside with
      | nil =>
        rw [List.nil_append] at hsplit
        subst hsplit
        exact .inl ⟨by simpa using hposition, by simpa using hlexeme⟩
      | cons d inside =>
        rw [List.cons_append, List.cons.injEq] at hsplit
        obtain ⟨rfl, rfl⟩ := hsplit
        exact .inr ⟨inside, after, rfl, by simpa using hposition, by simpa using hlexeme⟩

theorem le_position_of_mem_scan {inWord : Bool} {position : Nat} {tokens : List Token}
    (h : scan spelling inWord position text = .ok tokens) {token : Token} (hmem : token ∈ tokens) :
    position ≤ token.position := by
  induction text generalizing inWord position tokens with
  | nil =>
    cases h
    rw [List.mem_singleton.1 hmem]
  | cons c text ih =>
    obtain ⟨-, later, hlater, rfl⟩ := scan_cons_eq_ok_iff.1 h
    rcases List.mem_append.1 hmem with hfirst | hmem
    · exact (mem_tokenAt_iff.1 hfirst).1.ge
    · exact Nat.le_of_succ_le (ih hlater hmem)

theorem pairwise_scan {inWord : Bool} {position : Nat} {tokens : List Token}
    (h : scan spelling inWord position text = .ok tokens) :
    tokens.Pairwise fun token later => token.position < later.position := by
  induction text generalizing inWord position tokens with
  | nil =>
    cases h
    exact List.pairwise_singleton _ _
  | cons c text ih =>
    obtain ⟨-, later, hlater, rfl⟩ := scan_cons_eq_ok_iff.1 h
    cases kindAt? spelling inWord c text with
    | none => exact ih hlater
    | some kind => exact List.pairwise_cons.2 ⟨fun _ => le_position_of_mem_scan hlater, ih hlater⟩

theorem exists_scan_eq_concat {inWord : Bool} {position : Nat} {tokens : List Token}
    (h : scan spelling inWord position text = .ok tokens) :
    ∃ init, tokens = init ++ [⟨.endOfInput, position + text.length⟩] ∧
      ∀ token ∈ init, token.kind ≠ .endOfInput := by
  induction text generalizing inWord position tokens with
  | nil =>
    cases h
    exact ⟨[], rfl, by simp⟩
  | cons c text ih =>
    obtain ⟨-, later, hlater, rfl⟩ := scan_cons_eq_ok_iff.1 h
    obtain ⟨init, rfl, hinit⟩ := ih hlater
    refine ⟨tokenAt position (kindAt? spelling inWord c text) ++ init, ?_, ?_⟩
    · rw [List.append_assoc, List.length_cons, Nat.add_right_comm, Nat.add_assoc]
    · refine List.forall_mem_append.2 ⟨fun token hfirst => ?_, hinit⟩
      intro hend
      exact kindAt?_ne_endOfInput inWord c text (hend ▸ (mem_tokenAt_iff.1 hfirst).2)

/-- A text without a stray character is scanned to the end. -/
theorem exists_scan_eq_ok (h : ∀ c ∈ text, ¬ Stray c) (inWord : Bool) (position : Nat) :
    ∃ tokens, scan spelling inWord position text = .ok tokens := by
  cases hscan : scan spelling inWord position text with
  | ok tokens => exact ⟨tokens, rfl⟩
  | error error =>
    obtain ⟨i, c, hfirst, -⟩ := scan_eq_error_iff.1 hscan
    exact absurd hfirst.stray (h c (List.mem_of_getElem? hfirst.here))

theorem lexed_of_scan {tokens : List Token} (h : scan spelling false 0 text = .ok tokens) :
    Lexed spelling text tokens where
  ordered := pairwise_scan h
  mem_iff := mem_scan_iff [] h
  ends := by simpa using exists_scan_eq_concat h

end Schematic.Lexer

namespace Schematic

open Lexer

theorem tokenize_eq_scan (text : String) (spelling : Spelling) :
    tokenize text spelling = scan spelling false 0 text.toList :=
  tokens_eq_scan spelling text.toList 0

/-- The first stray character, and nothing else, is an error, whichever the spelling. -/
theorem tokenize_eq_error_iff {text : String} {spelling : Spelling} {error : Error} :
    tokenize text spelling = .error error ↔
      ∃ position c, FirstStray text.toList position c ∧ error = .strayCharacter position c := by
  rw [tokenize_eq_scan, scan_eq_error_iff]
  simp only [Nat.zero_add]

/-- **A text is cut into its lexemes**: reading tokens fails if and only if the text has a stray
character, and reports the first one, whichever the spelling; reading a formula reports it too.
Otherwise there is one token for every lexeme of the text, in order, and the end behind them. -/
theorem tokenize_follows_lexical_grammar (text : String) (spelling : Spelling) :
    ((∃ error, tokenize text spelling = .error error) ↔ ∃ c ∈ text.toList, Stray c) ∧
    (∀ error, tokenize text spelling = .error error ↔
      ∃ position c, FirstStray text.toList position c ∧ error = .strayCharacter position c) ∧
    (∀ error other, tokenize text spelling = .error error →
      tokenize text other = .error error ∧ Formula.read text other = .error error) ∧
    ((∀ c ∈ text.toList, ¬ Stray c) →
      ∃ tokens, tokenize text spelling = .ok tokens ∧ Lexed spelling text.toList tokens) := by
  have hfails : ∀ other error, tokenize text other = .error error ↔
      ∃ position c, FirstStray text.toList position c ∧ error = .strayCharacter position c := by
    intro other error
    rw [tokenize_eq_scan, scan_eq_error_iff]
    simp only [Nat.zero_add]
  refine ⟨?_, hfails spelling, fun error other h => ?_, fun h => ?_⟩
  · simp only [hfails spelling, ← exists_firstStray_iff]
    constructor
    · rintro ⟨-, position, c, hfirst, -⟩
      exact ⟨position, c, hfirst⟩
    · rintro ⟨position, c, hfirst⟩
      exact ⟨_, position, c, hfirst, rfl⟩
  · have hother := (hfails other error).2 ((hfails spelling error).1 h)
    exact ⟨hother, by rw [Formula.read, hother]; rfl⟩
  · obtain ⟨tokens, hscan⟩ := exists_scan_eq_ok h false 0
    exact ⟨tokens, (tokenize_eq_scan text spelling).trans hscan, lexed_of_scan hscan⟩

/-- A word that only begins with `AND` is a variable. -/
example : tokenize "x AND andy" .keywords = .ok [⟨.identifier 'X', 0⟩, ⟨.and, 2⟩,
    ⟨.identifier 'A', 6⟩, ⟨.endOfInput, 10⟩] := by
  rw [tokenize_eq_scan]
  rfl

end Schematic
