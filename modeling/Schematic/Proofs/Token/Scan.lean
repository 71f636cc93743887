import Schematic.Proofs.Token.Lexemes

/-!
# Reading a text character by character

The lexer reads a word at once and goes on behind it. A scan goes over the text one character at a
time and needs to know only whether a letter comes before: at a letter inside a word no token
starts. It is the plain recursion that facts about all tokens of a text are proved by.

Main results: the lexer finds what the scan finds (`tokens_eq_scan`); a scan fails exactly at the
first stray character (`scan_eq_error_iff`).
-/

namespace Schematic.Lexer

/-! ### Characters -/

/-- A character that is no blank, no letter and no sign. -/
def Stray (c : Char) : Prop :=
  Text.isBlank c = false ∧ c.isAlpha = false ∧ c ∉ ['!', '.', '+', '(', ')']

instance : DecidablePred Stray := fun _ => inferInstanceAs (Decidable (_ ∧ _))

/-- The signs, and the tokens that they are. -/
inductive Sign : Char → Token.Kind → Prop where
  /-- The negation sign. -/
  | not : Sign '!' .not
  /-- The conjunction sign. -/
  | and : Sign '.' .and
  /-- The disjunction sign. -/
  | or : Sign '+' .or
  /-- An opening parenthesis. -/
  | openParen : Sign '(' .openParen
  /-- A closing parenthesis. -/
  | closeParen : Sign ')' .closeParen

theorem sign?_eq_some_iff {c : Char} {kind : Token.Kind} : sign? c = some kind ↔ Sign c kind := by
  constructor
  · intro h
    unfold sign? at h
    split at h <;> cases h <;> constructor
  · rintro ⟨⟩ <;> rfl

theorem sign?_eq_none_iff {c : Char} : sign? c = none ↔ c ∉ ['!', '.', '+', '(', ')'] := by
  unfold sign?
  split <;> simp_all

/-- A sign is no letter. -/
theorem Sign.isAlpha {c : Char} {kind : Token.Kind} (h : Sign c kind) : c.isAlpha = false := by
  cases h <;> rfl

/-! ### One character at a time -/

/-- The token that starts with a letter, if one does: a word starts where no letter comes before. -/
def letterKind? (inWord : Bool) (c : Char) (text : List Char) : Spelling → Option Token.Kind
  | .symbolic => some (named c)
  | .keywords => if inWord then none else some (word c (text.takeWhile Char.isAlpha))

/-- The token that starts with a character, if one does. -/
def kindAt? (spelling : Spelling) (inWord : Bool) (c : Char) (text : List Char) :
    Option Token.Kind :=
  (sign? c).or (if c.isAlpha then letterKind? inWord c text spelling else none)

/-- The tokens of a text, character by character; it is known whether a letter comes before. -/
def scan (spelling : Spelling) (inWord : Bool) (position : Nat) :
    List Char → Except Error (List Token)
  | [] => .ok [⟨.endOfInput, position⟩]
  | c :: text =>
    if Stray c then .error (.strayCharacter position c)
    else
      match kindAt? spelling inWord c text with
      | some kind => (⟨kind, position⟩ :: ·) <$> scan spelling c.isAlpha (position + 1) text
      | none => scan spelling c.isAlpha (position + 1) text

variable {spelling : Spelling} {c : Char} {text : List Char}

theorem Sign.not_stray {kind : Token.Kind} (h : Sign c kind) : ¬ Stray c := by
  intro hstray
  have hsign := sign?_eq_some_iff.2 h
  rw [sign?_eq_none_iff.2 hstray.2.2] at hsign
  cases hsign

theorem not_stray_of_isAlpha (h : c.isAlpha = true) : ¬ Stray c := by
  intro hstray
  rw [hstray.2.1] at h
  cases h

theorem not_stray_of_isBlank (h : Text.isBlank c = true) : ¬ Stray c := by
  intro hstray
  rw [hstray.1] at h
  cases h

theorem kindAt?_of_sign {kind : Token.Kind} (h : Sign c kind) (inWord : Bool) (text : List Char) :
    kindAt? spelling inWord c text = some kind := by
  rw [kindAt?, sign?_eq_some_iff.2 h, Option.some_or]

theorem sign?_eq_none_of_isAlpha (h : c.isAlpha = true) : sign? c = none := by
  cases hsign : sign? c with
  | none => rfl
  | some kind =>
    rw [(sign?_eq_some_iff.1 hsign).isAlpha] at h
    cases h

theorem kindAt?_of_isAlpha (h : c.isAlpha = true) (inWord : Bool) (text : List Char) :
    kindAt? spelling inWord c text = letterKind? inWord c text spelling := by
  rw [kindAt?, sign?_eq_none_of_isAlpha h, Option.none_or, if_pos h]

theorem isAlpha_of_isBlank (h : Text.isBlank c = true) : c.isAlpha = false := by
  cases halpha : c.isAlpha with
  | false => rfl
  | true =>
    rw [Text.isBlank_eq_false_of_isAlpha halpha] at h
    cases h

theorem kindAt?_of_isBlank (h : Text.isBlank c = true) (inWord : Bool) (text : List Char) :
    kindAt? spelling inWord c text = none := by
  have hsign : sign? c = none := (Option.or_eq_none_iff.1 (glyph?_eq_none_of_isBlank h)).1
  rw [kindAt?, hsign, isAlpha_of_isBlank h]
  rfl

theorem scan_cons_of_kind {kind : Token.Kind} {inWord : Bool} (hstray : ¬ Stray c)
    (h : kindAt? spelling inWord c text = some kind) (position : Nat) :
    scan spelling inWord position (c :: text) =
      (⟨kind, position⟩ :: ·) <$> scan spelling c.isAlpha (position + 1) text := by
  rw [scan, if_neg hstray, h]

theorem scan_cons_of_none {inWord : Bool} (hstray : ¬ Stray c)
    (h : kindAt? spelling inWord c text = none) (position : Nat) :
    scan spelling inWord position (c :: text) = scan spelling c.isAlpha (position + 1) text := by
  rw [scan, if_neg hstray, h]

/-- Whether a letter comes before does not matter where none follows, or where words are not
read. -/
theorem scan_inWord (h : spelling = .symbolic ∨ NoLetter text) (inWord : Bool) (position : Nat) :
    scan spelling inWord position text = scan spelling false position text := by
  cases text with
  | nil => rfl
  | cons c text =>
    have hkind : kindAt? spelling inWord c text = kindAt? spelling false c text := by
      rcases h with rfl | h
      · rfl
      · rw [kindAt?, kindAt?, h c rfl]
        rfl
    rw [scan, scan, hkind]

/-- Inside a word no other one starts. -/
theorem scan_letters {letters : List Char} (h : ∀ c ∈ letters, c.isAlpha = true)
    (after : List Char) (position : Nat) :
    scan .keywords true position (letters ++ after) =
      scan .keywords true (position + letters.length) after := by
  induction letters generalizing position with
  | nil => rfl
  | cons c letters ih =>
    obtain ⟨hc, hletters⟩ := List.forall_mem_cons.1 h
    rw [List.cons_append, scan_cons_of_none (not_stray_of_isAlpha hc)
      (kindAt?_of_isAlpha hc true _), hc, ih hletters, List.length_cons]
    congr 1
    omega

theorem noLetter_dropWhile (text : List Char) : NoLetter (text.dropWhile Char.isAlpha) := by
  have hhead := List.head?_dropWhile_not Char.isAlpha text
  intro c hc
  rwa [Option.mem_def.1 hc] at hhead

theorem takeWhile_append_of_noLetter (text : List Char) {more : List Char} (h : NoLetter more) :
    (text ++ more).takeWhile Char.isAlpha = text.takeWhile Char.isAlpha := by
  induction text with
  | nil => exact takeWhile_of_noLetter h
  | cons c text ih => simp only [List.cons_append, List.takeWhile_cons, ih]

theorem drop_length_takeWhile (text : List Char) :
    text.drop (text.takeWhile Char.isAlpha).length = text.dropWhile Char.isAlpha := by
  calc text.drop (text.takeWhile Char.isAlpha).length
      = (text.takeWhile Char.isAlpha ++ text.dropWhile Char.isAlpha).drop
          (text.takeWhile Char.isAlpha).length := by rw [List.takeWhile_append_dropWhile]
    _ = text.dropWhile Char.isAlpha := List.drop_left

/-- The scan reads a lexeme as one token and goes on behind it. -/
theorem scan_cons_of_lexeme {kind : Token.Kind} {length : Nat}
    (h : lexeme? spelling c text = some (kind, length)) (position : Nat) :
    scan spelling false position (c :: text) =
      (⟨kind, position⟩ :: ·) <$>
        scan spelling false (position + length) ((c :: text).drop length) := by
  cases hsign : sign? c with
  | some sign =>
    have hc := sign?_eq_some_iff.1 hsign
    simp only [lexeme?, hsign, Option.some.injEq, Prod.mk.injEq] at h
    obtain ⟨rfl, rfl⟩ := h
    rw [scan_cons_of_kind hc.not_stray (kindAt?_of_sign hc false text), hc.isAlpha]
    rfl
  | none =>
    simp only [lexeme?, hsign, Option.ite_none_right_eq_some] at h
    obtain ⟨halpha, h⟩ := h
    have hstray := not_stray_of_isAlpha halpha
    cases spelling with
    | symbolic =>
      cases h
      rw [scan_cons_of_kind hstray (kindAt?_of_isAlpha halpha false text), scan_inWord (.inl rfl)]
      rfl
    | keywords =>
      cases h
      -- The lexer goes on behind the word, and the scan gets there letter by letter.
      have hletters : ∀ d ∈ text.takeWhile Char.isAlpha, d.isAlpha = true :=
        List.all_eq_true.1 List.all_takeWhile
      have hscan := scan_letters hletters (text.dropWhile Char.isAlpha) (position + 1)
      rw [List.takeWhile_append_dropWhile, scan_inWord (.inr (noLetter_dropWhile text))] at hscan
      rw [scan_cons_of_kind hstray (kindAt?_of_isAlpha halpha false text), halpha, hscan,
        List.drop_succ_cons, drop_length_takeWhile, Nat.add_right_comm, Nat.add_assoc]

theorem lexeme?_eq_none_iff : lexeme? spelling c text = none ↔
    sign? c = none ∧ c.isAlpha = false := by
  unfold lexeme?
  cases sign? c with
  | some kind => simp
  | none => cases spelling <;> simp

/-- A stray character stops the lexer. -/
theorem next_cons_of_stray (h : Stray c) (text : List Char) (position : Nat) :
    (⟨spelling, c :: text, position⟩ : Lexer).next =
      (.error (.strayCharacter position c), ⟨spelling, c :: text, position⟩) := by
  obtain ⟨hblank, halpha, hsign⟩ := h
  have hlexeme : lexeme? spelling c text = none :=
    lexeme?_eq_none_iff.2 ⟨sign?_eq_none_iff.2 hsign, halpha⟩
  exact next_cons_of_no_lexeme spelling position hblank hlexeme

/-- The lexer reads a text as it is scanned character by character. -/
theorem tokens_eq_scan (spelling : Spelling) (text : List Char) (position : Nat) :
    (⟨spelling, text, position⟩ : Lexer).tokens = scan spelling false position text := by
  induction hlength : text.length using Nat.strongRecOn generalizing text position with
  | ind n ih =>
    subst hlength
    cases text with
    | nil => exact tokens_nil spelling position
    | cons c text =>
      by_cases hblank : Text.isBlank c = true
      · rw [tokens_cons_of_isBlank spelling position hblank, ih _ (by simp) _ _ rfl,
          scan_cons_of_none (not_stray_of_isBlank hblank) (kindAt?_of_isBlank hblank false text),
          isAlpha_of_isBlank hblank]
      · rw [Bool.not_eq_true] at hblank
        cases hlexeme : lexeme? spelling c text with
        | some lexeme =>
          have hpos := pos_of_lexeme?_eq_some hlexeme
          rw [tokens_cons_of_lexeme spelling position hblank hlexeme, scan_cons_of_lexeme hlexeme,
            ih _ (by simp; omega) _ _ rfl]
        | none =>
          obtain ⟨hsign, halpha⟩ := lexeme?_eq_none_iff.1 hlexeme
          have hstray : Stray c := ⟨hblank, halpha, sign?_eq_none_iff.1 hsign⟩
          rw [tokens_of_next_error (next_cons_of_stray hstray text position), scan, if_pos hstray]

/-! ### Stray characters -/

/-- The first stray character of a text. -/
structure FirstStray (text : List Char) (position : Nat) (c : Char) : Prop where
  /-- The text has the character at the position. -/
  here : text[position]? = some c
  /-- It is stray. -/
  stray : Stray c
  /-- No character before it is. -/
  first {i : Nat} {d : Char} : i < position → text[i]? = some d → ¬ Stray d

theorem firstStray_cons_of_stray (h : Stray c) {position : Nat} {d : Char} :
    FirstStray (c :: text) position d ↔ position = 0 ∧ d = c := by
  constructor
  · intro hfirst
    have hzero : position = 0 := by
      by_contra hne
      exact hfirst.first (Nat.pos_of_ne_zero hne) List.getElem?_cons_zero h
    subst hzero
    exact ⟨rfl, (Option.some.inj hfirst.here).symm⟩
  · rintro ⟨rfl, rfl⟩
    exact ⟨rfl, h, fun hlt => absurd hlt (Nat.not_lt_zero _)⟩

theorem firstStray_cons_of_not_stray (h : ¬ Stray c) {position : Nat} {d : Char} :
    FirstStray (c :: text) position d ↔
      ∃ later, position = later + 1 ∧ FirstStray text later d := by
  constructor
  · intro hfirst
    cases position with
    | zero =>
      obtain rfl := Option.some.inj hfirst.here
      exact absurd hfirst.stray h
    | succ later =>
      exact ⟨later, rfl, hfirst.here, hfirst.stray, fun hlt hat =>
        hfirst.first (Nat.succ_lt_succ hlt) hat⟩
  · rintro ⟨later, rfl, hfirst⟩
    refine ⟨hfirst.here, hfirst.stray, fun {i d} hlt hat => ?_⟩
    cases i with
    | zero =>
      obtain rfl := Option.some.inj hat
      exact h
    | succ i => exact hfirst.first (Nat.lt_of_succ_lt_succ hlt) hat

/-- A text with a stray character has a first one. -/
theorem exists_firstStray_iff :
    (∃ position c, FirstStray text position c) ↔ ∃ c ∈ text, Stray c := by
  constructor
  · rintro ⟨position, c, hfirst⟩
    exact ⟨c, List.mem_of_getElem? hfirst.here, hfirst.stray⟩
  · rintro ⟨d, hd, hstray⟩
    induction text with
    | nil => cases hd
    | cons c text ih =>
      by_cases hc : Stray c
      · exact ⟨0, c, (firstStray_cons_of_stray hc).2 ⟨rfl, rfl⟩⟩
      · rcases List.mem_cons.1 hd with rfl | hd
        · exact absurd hstray hc
        · obtain ⟨position, e, hfirst⟩ := ih hd
          exact ⟨position + 1, e, (firstStray_cons_of_not_stray hc).2 ⟨position, rfl, hfirst⟩⟩

/-- The first stray character, and nothing else, makes a scan fail. -/
theorem scan_eq_error_iff {inWord : Bool} {position : Nat} {error : Error} :
    scan spelling inWord position text = .error error ↔
      ∃ i c, FirstStray text i c ∧ error = .strayCharacter (position + i) c := by
  induction text generalizing inWord position with
  | nil =>
    constructor
    · nofun
    · rintro ⟨i, c, hfirst, -⟩
      cases hfirst.here
  | cons c text ih =>
    by_cases hc : Stray c
    · simp only [scan, if_pos hc, firstStray_cons_of_stray hc, Except.error.injEq]
      constructor
      · rintro rfl
        exact ⟨0, c, ⟨rfl, rfl⟩, rfl⟩
      · rintro ⟨i, d, ⟨rfl, rfl⟩, rfl⟩
        rfl
    · have hrest : scan spelling inWord position (c :: text) = .error error ↔
          scan spelling c.isAlpha (position + 1) text = .error error := by
        cases hkind : kindAt? spelling inWord c text with
        | none => rw [scan_cons_of_none hc hkind]
        | some kind =>
          rw [scan_cons_of_kind hc hkind]
          cases scan spelling c.isAlpha (position + 1) text <;> simp
      rw [hrest, ih]
      simp only [firstStray_cons_of_not_stray hc]
      constructor
      · rintro ⟨i, d, hfirst, rfl⟩
        exact ⟨i + 1, d, ⟨i, rfl, hfirst⟩, by rw [Nat.add_right_comm, Nat.add_assoc]⟩
      · rintro ⟨-, d, ⟨i, rfl, hfirst⟩, rfl⟩
        exact ⟨i, d, hfirst, by rw [Nat.add_right_comm, Nat.add_assoc]⟩

end Schematic.Lexer
