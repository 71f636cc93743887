import Mathlib.Data.List.Chain
import Schematic.Token.Lexer

/-!
# The tokens of a text

How the tokens of a text follow from its first character: a blank is skipped, a lexeme is a token
before those of the rest, and any other character stops the lexer.

Main result: where no two letters stand side by side, every character that is no blank is a token
of its own in either spelling (`tokens_eq_glyphs`).
-/

namespace Schematic.Lexer

/-! ### From one token to all -/

theorem tokens_of_next_error {lexer after : Lexer} {error : Error}
    (h : lexer.next = (.error error, after)) : lexer.tokens = .error error := by
  rw [tokens]
  split
  · next h' =>
    rw [h] at h'
    cases h'
    rfl
  · next h' =>
    rw [h] at h'
    cases h'

theorem tokens_of_next_end {lexer after : Lexer} {token : Token}
    (h : lexer.next = (.ok token, after)) (hend : token.kind = .endOfInput) :
    lexer.tokens = .ok [token] := by
  rw [tokens]
  split
  · next h' =>
    rw [h] at h'
    cases h'
  · next h' =>
    rw [h] at h'
    cases h'
    rw [dif_pos hend]

theorem tokens_of_next_token {lexer after : Lexer} {token : Token}
    (h : lexer.next = (.ok token, after)) (hend : token.kind ≠ .endOfInput) :
    lexer.tokens = (token :: ·) <$> after.tokens := by
  rw [tokens]
  split
  · next h' =>
    rw [h] at h'
    cases h'
  · next h' =>
    rw [h] at h'
    cases h'
    rw [dif_neg hend]

/-- The tokens from a place on depend on the next token alone. -/
theorem tokens_congr {lexer other : Lexer} (h : lexer.next = other.next) :
    lexer.tokens = other.tokens := by
  obtain ⟨⟨result, after⟩, hnext⟩ : ∃ answer, other.next = answer := ⟨_, rfl⟩
  rw [hnext] at h
  cases result with
  | error error => rw [tokens_of_next_error h, tokens_of_next_error hnext]
  | ok token =>
    by_cases hend : token.kind = .endOfInput
    · rw [tokens_of_next_end h hend, tokens_of_next_end hnext hend]
    · rw [tokens_of_next_token h hend, tokens_of_next_token hnext hend]

/-! ### From the first character to the first token -/

theorem sign?_ne_endOfInput (c : Char) : sign? c ≠ some .endOfInput := by
  unfold sign?
  split <;> simp

theorem word_ne_endOfInput (first : Char) (more : List Char) : word first more ≠ .endOfInput := by
  unfold word
  split <;> simp [named]

theorem lexeme?_ne_endOfInput {spelling : Spelling} {first : Char} {text : List Char}
    {length : Nat} : lexeme? spelling first text ≠ some (.endOfInput, length) := by
  unfold lexeme?
  split
  · next hsign =>
    rintro ⟨⟩
    exact sign?_ne_endOfInput first hsign
  · split
    · split
      · simp [named]
      · simp [word_ne_endOfInput]
    · simp

variable (spelling : Spelling) (position : Nat)

@[simp] theorem tokens_nil : (⟨spelling, [], position⟩ : Lexer).tokens =
    .ok [⟨.endOfInput, position⟩] :=
  tokens_of_next_end rfl rfl

theorem skipBlanks_cons_of_isBlank {c : Char} (h : Text.isBlank c = true) (text : List Char) :
    (⟨spelling, c :: text, position⟩ : Lexer).skipBlanks =
      (⟨spelling, text, position + 1⟩ : Lexer).skipBlanks := by
  simp only [skipBlanks, advance, List.takeWhile_cons, h, if_true, List.length_cons,
    List.drop_succ_cons]
  congr 1
  omega

/-- A blank is skipped. -/
theorem next_cons_of_isBlank {c : Char} (h : Text.isBlank c = true) (text : List Char) :
    (⟨spelling, c :: text, position⟩ : Lexer).next =
      (⟨spelling, text, position + 1⟩ : Lexer).next := by
  rw [next, next, skipBlanks_cons_of_isBlank spelling position h]

theorem tokens_cons_of_isBlank {c : Char} (h : Text.isBlank c = true) (text : List Char) :
    (⟨spelling, c :: text, position⟩ : Lexer).tokens =
      (⟨spelling, text, position + 1⟩ : Lexer).tokens :=
  tokens_congr (next_cons_of_isBlank spelling position h text)

/-- A text of blanks has no token but its end. -/
theorem tokens_of_blanks {text : List Char} (h : ∀ c ∈ text, Text.isBlank c = true) :
    (⟨spelling, text, position⟩ : Lexer).tokens = .ok [⟨.endOfInput, position + text.length⟩] := by
  induction text generalizing position with
  | nil => exact tokens_nil spelling position
  | cons c text ih =>
    obtain ⟨hc, htext⟩ := List.forall_mem_cons.1 h
    rw [tokens_cons_of_isBlank spelling position hc, ih _ htext, List.length_cons, Nat.add_assoc,
      Nat.add_comm 1]

theorem skipBlanks_cons_of_not_isBlank {c : Char} (h : Text.isBlank c = false) (text : List Char) :
    (⟨spelling, c :: text, position⟩ : Lexer).skipBlanks = ⟨spelling, c :: text, position⟩ := by
  simp [skipBlanks, advance, h]

/-- A lexeme is read as one token. -/
theorem next_cons_of_lexeme {c : Char} {text : List Char} {kind : Token.Kind} {length : Nat}
    (hblank : Text.isBlank c = false) (h : lexeme? spelling c text = some (kind, length)) :
    (⟨spelling, c :: text, position⟩ : Lexer).next =
      (.ok ⟨kind, position⟩, ⟨spelling, (c :: text).drop length, position + length⟩) := by
  rw [next, skipBlanks_cons_of_not_isBlank spelling position hblank]
  simp only [h]
  rfl

/-- A character that starts no lexeme is left where it stands. -/
theorem next_cons_of_no_lexeme {c : Char} {text : List Char}
    (hblank : Text.isBlank c = false) (h : lexeme? spelling c text = none) :
    (⟨spelling, c :: text, position⟩ : Lexer).next =
      (.error (.strayCharacter position c), ⟨spelling, c :: text, position⟩) := by
  rw [next, skipBlanks_cons_of_not_isBlank spelling position hblank]
  simp only [h]

/-- A lexeme is a token. -/
theorem tokens_cons_of_lexeme {c : Char} {text : List Char} {kind : Token.Kind} {length : Nat}
    (hblank : Text.isBlank c = false) (h : lexeme? spelling c text = some (kind, length)) :
    (⟨spelling, c :: text, position⟩ : Lexer).tokens =
      (⟨kind, position⟩ :: ·) <$>
        (⟨spelling, (c :: text).drop length, position + length⟩ : Lexer).tokens := by
  apply tokens_of_next_token (next_cons_of_lexeme spelling position hblank h)
  rintro rfl
  exact lexeme?_ne_endOfInput h

/-! ### Tokens of one character -/

/-- The token that a character is on its own. -/
def glyph? (c : Char) : Option Token.Kind :=
  (sign? c).or (if c.isAlpha then some (named c) else none)

theorem isBlank_eq_false_of_glyph? {c : Char} {kind : Token.Kind} (h : glyph? c = some kind) :
    Text.isBlank c = false := by
  by_cases halpha : c.isAlpha = true
  · exact Text.isBlank_eq_false_of_isAlpha halpha
  · simp only [glyph?, halpha, Bool.false_eq_true, if_false, Option.or_none] at h
    unfold sign? at h
    split at h <;> first | decide | cases h

/-- A blank is no token. -/
theorem glyph?_eq_none_of_isBlank {c : Char} (h : Text.isBlank c = true) : glyph? c = none := by
  cases hglyph : glyph? c with
  | none => rfl
  | some kind => rw [isBlank_eq_false_of_glyph? hglyph] at h; cases h

/-- No letter follows. -/
def NoLetter (text : List Char) : Prop := ∀ c ∈ text.head?, c.isAlpha = false

theorem noLetter_nil : NoLetter [] := nofun

theorem noLetter_cons {c : Char} (h : c.isAlpha = false) (text : List Char) :
    NoLetter (c :: text) := by
  intro first hfirst
  cases hfirst
  exact h

theorem takeWhile_of_noLetter {text : List Char} (h : NoLetter text) :
    text.takeWhile Char.isAlpha = [] := by
  cases text with
  | nil => rfl
  | cons c text => simp [h c rfl]

/-- A letter is a token of its own where no other letter follows, and a sign is one anyway. -/
theorem lexeme?_of_glyph? {c : Char} {kind : Token.Kind} {text : List Char}
    (h : glyph? c = some kind) (hnext : c.isAlpha = true → NoLetter text) :
    lexeme? spelling c text = some (kind, 1) := by
  unfold glyph? at h
  unfold lexeme?
  cases hsign : sign? c with
  | some sign =>
    rw [hsign] at h
    cases h
    rfl
  | none =>
    simp only [hsign, Option.none_or, Option.ite_none_right_eq_some] at h
    obtain ⟨halpha, h⟩ := h
    cases h
    rw [if_pos halpha]
    cases spelling with
    | symbolic => rfl
    | keywords =>
      have hmore := takeWhile_of_noLetter (hnext halpha)
      simp [hmore, word]

/-- The characters of a text as tokens, one by one, and the end. -/
def glyphs (position : Nat) : List Char → List Token
  | [] => [⟨.endOfInput, position⟩]
  | c :: text =>
    match glyph? c with
    | some kind => ⟨kind, position⟩ :: glyphs (position + 1) text
    | none => glyphs (position + 1) text

theorem kinds_glyphs (text : List Char) :
    (glyphs position text).map (·.kind) = text.filterMap glyph? ++ [.endOfInput] := by
  induction text generalizing position with
  | nil => rfl
  | cons c text ih => cases h : glyph? c <;> simp [glyphs, h, ih]

/-! ### Plain texts -/

/-- No two letters stand side by side. -/
def LettersApart (text : List Char) : Prop :=
  text.IsChain fun c next => ¬ (c.isAlpha = true ∧ next.isAlpha = true)

theorem LettersApart.tail {text : List Char} {c : Char} (h : LettersApart (c :: text)) :
    LettersApart text :=
  List.IsChain.tail h

/-- Where letters stand apart, none follows a letter. -/
theorem LettersApart.noLetter {text : List Char} {c : Char} (h : LettersApart (c :: text))
    (hc : c.isAlpha = true) : NoLetter text := by
  intro next hnext
  cases text with
  | nil => cases hnext
  | cons other text =>
    cases hnext
    simpa [hc] using (List.isChain_cons_cons.1 h).1

/-- Every character is a blank or a token of its own, and no two letters stand side by side. -/
def Plain (text : List Char) : Prop :=
  (∀ c ∈ text, Text.isBlank c = true ∨ (glyph? c).isSome = true) ∧
    text.IsChain fun c next => ¬ (c.isAlpha = true ∧ next.isAlpha = true)

theorem plain_nil : Plain [] := ⟨by simp, .nil⟩

/-- Plain texts stay plain with a character between them that is no letter. -/
theorem Plain.append_cons {left right : List Char} {c : Char} (hleft : Plain left)
    (hright : Plain right) (hc : Text.isBlank c = true ∨ (glyph? c).isSome = true)
    (hletter : c.isAlpha = false) : Plain (left ++ c :: right) := by
  refine ⟨?_, ?_⟩
  · exact List.forall_mem_append.2 ⟨hleft.1, List.forall_mem_cons.2 ⟨hc, hright.1⟩⟩
  · refine List.isChain_append.2 ⟨hleft.2, ?_, ?_⟩
    · cases right with
      | nil => exact List.isChain_singleton c
      | cons next right => exact List.isChain_cons_cons.2 ⟨by simp [hletter], hright.2⟩
    · intro last _ first hfirst
      cases hfirst
      simp [hletter]

theorem Plain.cons {text : List Char} {c : Char} (htext : Plain text)
    (hc : Text.isBlank c = true ∨ (glyph? c).isSome = true) (hletter : c.isAlpha = false) :
    Plain (c :: text) :=
  plain_nil.append_cons htext hc hletter

theorem Plain.tail {text : List Char} {c : Char} (h : Plain (c :: text)) : Plain text :=
  ⟨fun other hother => h.1 other (List.mem_cons_of_mem c hother), h.2.tail⟩

/-- In a plain text no letter follows a letter. -/
theorem Plain.noLetter {text : List Char} {c : Char} (h : Plain (c :: text))
    (hc : c.isAlpha = true) : NoLetter text :=
  LettersApart.noLetter h.2 hc

/-- The tokens of a plain text are its characters but for the blanks, in either spelling. -/
theorem tokens_eq_glyphs {text : List Char} (h : Plain text) :
    (⟨spelling, text, position⟩ : Lexer).tokens = .ok (glyphs position text) := by
  induction text generalizing position with
  | nil => exact tokens_nil spelling position
  | cons c text ih =>
    have hrest := ih (position + 1) h.tail
    rcases h.1 c (by simp) with hblank | hglyph
    · rw [tokens_cons_of_isBlank spelling position hblank, hrest, glyphs,
        glyph?_eq_none_of_isBlank hblank]
    · obtain ⟨kind, hkind⟩ := Option.isSome_iff_exists.1 hglyph
      rw [tokens_cons_of_lexeme spelling position (isBlank_eq_false_of_glyph? hkind)
          (lexeme?_of_glyph? spelling hkind h.noLetter),
        List.drop_succ_cons, List.drop_zero, hrest, glyphs, hkind]
      rfl

end Schematic.Lexer
