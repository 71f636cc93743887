import Schematic.Error
import Schematic.Text.Blank
import Schematic.Token

/-!
# Reading tokens

A lexer stands at a place in a text and reads one token at a time. Blanks between tokens
are skipped; each of `!`, `.`, `+`, `(` and `)` is a token. Letters are read in one of two
spellings: `symbolic`, where each letter is a variable, or `keywords`, where a run of letters
is one word, an operator if it is `AND`, `OR` or `NOT` in either case and else the variable of
its first letter.

At the end of the text the lexer reads the end token again and again, and at a character that
starts no token it fails again and again: neither takes anything off the text.
-/

namespace Schematic

/-- How letters are read. -/
inductive Spelling where
  /-- Each letter is a variable. -/
  | symbolic
  /-- A run of letters is an operator or a variable. -/
  | keywords
  deriving DecidableEq, Repr

instance : Inhabited Spelling := ⟨.keywords⟩

/-- A place in a text. -/
structure Lexer where
  /-- How letters are read. -/
  spelling : Spelling
  /-- The text from here on. -/
  rest : List Char
  /-- How many characters have been read. -/
  position : Nat
  deriving DecidableEq, Repr

namespace Lexer

/-! ### Lexemes -/

/-- The token that a sign is. -/
def sign? : Char → Option Token.Kind
  | '!' => some .not
  | '.' => some .and
  | '+' => some .or
  | '(' => some .openParen
  | ')' => some .closeParen
  | _ => none

/-- The variable that a letter names, whichever its case. -/
def named (letter : Char) : Token.Kind := .identifier letter.toUpper

/-- The token that a word is: an operator, or the variable of its first letter. -/
def word (first : Char) (more : List Char) : Token.Kind :=
  match (first :: more).map Char.toUpper with
  | ['A', 'N', 'D'] => .and
  | ['O', 'R'] => .or
  | ['N', 'O', 'T'] => .not
  | _ => named first

/-- The token that starts with `first` and may go on in `text`, and its length. -/
def lexeme? (spelling : Spelling) (first : Char) (text : List Char) :
    Option (Token.Kind × Nat) :=
  match sign? first with
  | some kind => some (kind, 1)
  | none =>
    if first.isAlpha then
      match spelling with
      | .symbolic => some (named first, 1)
      | .keywords =>
        let more := text.takeWhile Char.isAlpha
        some (word first more, more.length + 1)
    else none

theorem pos_of_lexeme?_eq_some {spelling : Spelling} {first : Char} {text : List Char}
    {kind : Token.Kind} {length : Nat} (h : lexeme? spelling first text = some (kind, length)) :
    0 < length := by
  unfold lexeme? at h
  split at h
  · simp only [Option.some.injEq, Prod.mk.injEq] at h
    omega
  · split at h
    · split at h <;> simp only [Option.some.injEq, Prod.mk.injEq] at h <;> omega
    · simp at h

/-! ### One token at a time -/

/-- A lexer at the start of a text. -/
def ofString (text : String) (spelling : Spelling) : Lexer := ⟨spelling, text.toList, 0⟩

/-- The lexer `count` characters further on. -/
def advance (lexer : Lexer) (count : Nat) : Lexer :=
  { lexer with rest := lexer.rest.drop count, position := lexer.position + count }

/-- The lexer behind the blanks it stands before. -/
def skipBlanks (lexer : Lexer) : Lexer :=
  lexer.advance (lexer.rest.takeWhile Text.isBlank).length

/-- Reads the next token. The lexer returned stands behind it. -/
def next (lexer : Lexer) : Except Error Token × Lexer :=
  let start := lexer.skipBlanks
  match start.rest with
  | [] => (.ok ⟨.endOfInput, start.position⟩, start)
  | c :: text =>
    match lexeme? start.spelling c text with
    | some (kind, length) => (.ok ⟨kind, start.position⟩, start.advance length)
    | none => (.error (.strayCharacter start.position c), start)

theorem length_rest_advance (lexer : Lexer) (count : Nat) :
    (lexer.advance count).rest.length = lexer.rest.length - count := by
  simp [advance]

/-- A token other than the end takes something off the text. -/
theorem length_rest_lt_of_next {lexer after : Lexer} {token : Token}
    (h : lexer.next = (.ok token, after)) (hend : token.kind ≠ .endOfInput) :
    after.rest.length < lexer.rest.length := by
  unfold next at h
  simp only at h
  split at h
  · simp only [Prod.mk.injEq, Except.ok.injEq] at h
    exact absurd (by rw [← h.1]) hend
  · rename_i c text hrest
    split at h
    · rename_i kind length hlex
      simp only [Prod.mk.injEq, Except.ok.injEq] at h
      have hpos := pos_of_lexeme?_eq_some hlex
      have hle : lexer.skipBlanks.rest.length ≤ lexer.rest.length := by
        rw [skipBlanks, length_rest_advance]; omega
      rw [← h.2, length_rest_advance]
      have : lexer.skipBlanks.rest.length = text.length + 1 := by rw [hrest]; rfl
      omega
    · simp at h

/-! ### The whole text -/

/-- Every token from here on, the end included, or the first error. -/
def tokens (lexer : Lexer) : Except Error (List Token) :=
  match h : lexer.next with
  | (.error error, _) => .error error
  | (.ok token, after) =>
    if hend : token.kind = .endOfInput then .ok [token]
    else
      have := length_rest_lt_of_next h hend
      (token :: ·) <$> after.tokens
termination_by lexer.rest.length

end Lexer

/-- The tokens of a text, the end included. -/
def tokenize (text : String) (spelling : Spelling) : Except Error (List Token) :=
  (Lexer.ofString text spelling).tokens

end Schematic
