import Schematic.Proofs.Parser.Machine
import Schematic.Proofs.Token.Lexical
import Schematic.Text.Letter

/-!
# Letter case and blanks

The tokens of a text do not depend on the case of its letters, nor on its blanks, but that a blank
between two letters of a word would make two words of it. Blanks are put into a text everywhere at
once, some before each character and some at the end (`spread`); a position then moves by as many
characters as were put in before it.

Main result: letters in another case, and blanks put in outside words, leave tokens, errors and
formula as they are, but that positions move with the blanks (`insensitive_to_case_and_blanks`).
-/

namespace Schematic

/-! ### Moved positions -/

/-- The token at another position. -/
def Token.move (place : Nat → Nat) (token : Token) : Token :=
  { token with position := place token.position }

/-- The error at another position, if it has one. -/
def Error.move (place : Nat → Nat) : Error → Error
  | strayCharacter position character => .strayCharacter (place position) character
  | unexpectedToken position expected found => .unexpectedToken (place position) expected found
  | nestingTooDeep position limit => .nestingTooDeep (place position) limit
  | error => error

/-- The tokens, or the error, at other positions. -/
def moved (place : Nat → Nat) : Except Error (List Token) → Except Error (List Token)
  | .ok tokens => .ok (tokens.map (Token.move place))
  | .error error => .error (error.move place)

theorem moved_cons (place : Nat → Nat) (token : Token) (result : Except Error (List Token)) :
    moved place ((token :: ·) <$> result) = (token.move place :: ·) <$> moved place result := by
  cases result <;> rfl

namespace Parser

/-- A run over tokens that have an end goes by their kinds, and its fault moves with them. -/
theorem run_map_move (place : Nat → Nat) {limit endPosition other : Nat} {state : State}
    {tokens : List Token} (hend : ∃ token ∈ tokens, token.kind = .endOfInput) :
    (run limit other state (tokens.map (Token.move place))).1.mapError Fault.toError =
      ((run limit endPosition state tokens).1.mapError Fault.toError).mapError
        (Error.move place) := by
  induction tokens generalizing state with
  | nil =>
    obtain ⟨token, hmem, -⟩ := hend
    cases hmem
  | cons token tokens ih =>
    have hkind : (token.move place).kind = token.kind := rfl
    rw [List.map_cons, run, run, hkind]
    cases hstep : state.step limit token.kind with
    | shift next =>
      have hne := (State.step_eq_shift_iff.1 hstep).ne_endOfInput
      obtain ⟨final, hmem, hfinal⟩ := hend
      rcases List.mem_cons.1 hmem with rfl | hmem
      · exact absurd hfinal hne
      · exact ih ⟨final, hmem, hfinal⟩
    | accept f => rfl
    | refuse wanted => rfl
    | overflow => rfl

end Parser

namespace Lexer

variable {spelling : Spelling} {text other : List Char} {c d : Char} {inWord : Bool}

/-! ### Letter case -/

theorem word_congr {more others : List Char}
    (h : (c :: more).map Char.toUpper = (d :: others).map Char.toUpper) :
    word c more = word d others := by
  have hnamed : named c = named d := by rw [named, named, (List.cons.inj h).1]
  rw [word, word, h, hnamed]

theorem map_toUpper_takeWhile (text : List Char) :
    (text.takeWhile Char.isAlpha).map Char.toUpper =
      (text.map Char.toUpper).takeWhile Char.isAlpha := by
  have hcomp : Char.isAlpha ∘ Char.toUpper = Char.isAlpha := funext Text.isAlpha_toUpper
  rw [List.takeWhile_map, hcomp]

/-- Characters that differ in case alone are the same one, or both are letters. -/
theorem eq_or_isAlpha_of_toUpper_eq (h : c.toUpper = d.toUpper) :
    c = d ∨ c.isAlpha = true ∧ d.isAlpha = true := by
  have hsame : c.isAlpha = d.isAlpha := by rw [← Text.isAlpha_toUpper c, h, Text.isAlpha_toUpper]
  cases hc : c.isAlpha with
  | true => exact .inr ⟨rfl, hsame.symm.trans hc⟩
  | false =>
    rw [Text.toUpper_of_isAlpha_eq_false hc,
      Text.toUpper_of_isAlpha_eq_false (hsame.symm.trans hc)] at h
    exact .inl h

/-- What starts at a character does not depend on the case of the letters. -/
theorem kindAt?_of_map_toUpper_eq (hc : c.toUpper = d.toUpper)
    (htext : text.map Char.toUpper = other.map Char.toUpper) :
    kindAt? spelling inWord c text = kindAt? spelling inWord d other := by
  have hletter : letterKind? inWord c text spelling = letterKind? inWord d other spelling := by
    cases spelling with
    | symbolic => rw [letterKind?, letterKind?, named, named, hc]
    | keywords =>
      have hword :
        word c (text.takeWhile Char.isAlpha) = word d (other.takeWhile Char.isAlpha) := by
        apply word_congr
        rw [List.map_cons, List.map_cons, hc, map_toUpper_takeWhile, htext, map_toUpper_takeWhile]
      rw [letterKind?, letterKind?, hword]
  rcases eq_or_isAlpha_of_toUpper_eq hc with rfl | ⟨hc, hd⟩
  · rw [kindAt?, kindAt?, hletter]
  · rw [kindAt?_of_isAlpha hc, kindAt?_of_isAlpha hd, hletter]

/-- Nor does anything else that is scanned. -/
theorem scan_of_map_toUpper_eq (h : text.map Char.toUpper = other.map Char.toUpper)
    (position : Nat) :
    scan spelling inWord position text = scan spelling inWord position other := by
  induction text generalizing other inWord position with
  | nil => rw [List.map_eq_nil_iff.1 h.symm]
  | cons c text ih =>
    cases other with
    | nil => cases h
    | cons d other =>
      obtain ⟨hc, htext⟩ := List.cons.inj h
      have hkind : kindAt? spelling inWord c text = kindAt? spelling inWord d other :=
        kindAt?_of_map_toUpper_eq hc htext
      rcases eq_or_isAlpha_of_toUpper_eq hc with rfl | ⟨hc, hd⟩
      · rw [scan, scan, hkind, ih htext]
      · rw [scan, scan, if_neg (not_stray_of_isAlpha hc), if_neg (not_stray_of_isAlpha hd), hkind,
          hc, hd, ih htext]

/-! ### Blanks put in -/

/-- The text with blanks put in: those of `gaps i` before its character of number `i`, or at the
end if there is none. -/
def spread (gaps : Nat → List Char) : List Char → List Char
  | [] => gaps 0
  | c :: text => gaps 0 ++ c :: spread (fun i => gaps (i + 1)) text

/-- How many characters are put in before the one at a position. -/
def insertedBefore (gaps : Nat → List Char) : Nat → Nat
  | 0 => (gaps 0).length
  | position + 1 => insertedBefore gaps position + (gaps (position + 1)).length

/-- Blanks are put in, and none between two letters where words are read. -/
structure SpacesOut (spelling : Spelling) (gaps : Nat → List Char) (text : List Char) : Prop where
  /-- What is put in are blanks. -/
  isBlank : ∀ i, ∀ c ∈ gaps i, Text.isBlank c = true
  /-- Words stay together where they are read. -/
  keepsWords {i : Nat} {c d : Char} : spelling = .keywords → text[i]? = some c →
    text[i + 1]? = some d → c.isAlpha = true → d.isAlpha = true → gaps (i + 1) = []

theorem insertedBefore_succ (gaps : Nat → List Char) (position : Nat) :
    insertedBefore gaps (position + 1) =
      (gaps 0).length + insertedBefore (fun i => gaps (i + 1)) position := by
  induction position with
  | zero => rfl
  | succ position ih => rw [insertedBefore, ih, Nat.add_assoc, insertedBefore]

variable {gaps : Nat → List Char}

theorem SpacesOut.tail (h : SpacesOut spelling gaps (c :: text)) :
    SpacesOut spelling (fun i => gaps (i + 1)) text :=
  ⟨fun i => h.isBlank (i + 1), fun hspelling hc hd => h.keepsWords hspelling hc hd⟩

/-- Behind a letter no other one follows or nothing is put in, where words are read. -/
theorem SpacesOut.head (h : SpacesOut .keywords gaps (c :: text)) (hc : c.isAlpha = true) :
    NoLetter text ∨ gaps 1 = [] := by
  cases text with
  | nil => exact .inl noLetter_nil
  | cons d text =>
    cases hd : d.isAlpha with
    | true => exact .inr (h.keepsWords (i := 0) rfl rfl rfl hc hd)
    | false => exact .inl (noLetter_cons hd text)

theorem noLetter_append {blanks : List Char} (h : ∀ c ∈ blanks, Text.isBlank c = true)
    (htext : NoLetter text) : NoLetter (blanks ++ text) := by
  cases blanks with
  | nil => exact htext
  | cons c blanks => exact noLetter_cons (isAlpha_of_isBlank (h c (List.mem_cons_self ..))) _

theorem SpacesOut.noLetter (hgaps : SpacesOut spelling gaps text) (h : NoLetter text) :
    NoLetter (spread gaps text) := by
  cases text with
  | nil => simpa [spread] using noLetter_append (hgaps.isBlank 0) h
  | cons c text => exact noLetter_append (hgaps.isBlank 0) h

/-- The letters that a text starts with stay together, unless blanks come before them. -/
theorem SpacesOut.takeWhile (hgaps : SpacesOut .keywords gaps text)
    (hstart : NoLetter text ∨ gaps 0 = []) :
    (spread gaps text).takeWhile Char.isAlpha = text.takeWhile Char.isAlpha := by
  induction text generalizing gaps with
  | nil => exact takeWhile_of_noLetter (hgaps.noLetter noLetter_nil)
  | cons c text ih =>
    rcases hstart with hletter | hgap
    · rw [takeWhile_of_noLetter (hgaps.noLetter hletter), takeWhile_of_noLetter hletter]
    · rw [spread, hgap, List.nil_append, List.takeWhile_cons, List.takeWhile_cons]
      cases hc : c.isAlpha with
      | false => rfl
      | true => rw [ih hgaps.tail (hgaps.head hc)]

/-- Blanks are skipped, and no word goes on behind them. -/
theorem scan_blanks_append {blanks : List Char} (h : ∀ c ∈ blanks, Text.isBlank c = true)
    (position : Nat) :
    scan spelling inWord position (blanks ++ text) =
      scan spelling (inWord && blanks.isEmpty) (position + blanks.length) text := by
  induction blanks generalizing inWord position with
  | nil => simp
  | cons c blanks ih =>
    obtain ⟨hc, hblanks⟩ := List.forall_mem_cons.1 h
    rw [List.cons_append, scan_cons_of_none (not_stray_of_isBlank hc) (kindAt?_of_isBlank hc _ _),
      isAlpha_of_isBlank hc, ih hblanks, List.length_cons, Nat.add_right_comm, Nat.add_assoc]
    simp

/-- Inside a word nothing is put in before the next letter. -/
def Together (spelling : Spelling) (gaps : Nat → List Char) (inWord : Bool) (text : List Char) :
    Prop :=
  spelling = .keywords → inWord = true → NoLetter text ∨ gaps 0 = []

/-- The token that starts at a character is the same when blanks are put in. -/
theorem SpacesOut.kindAt?_eq (hgaps : SpacesOut spelling gaps (c :: text))
    (hstart : Together spelling gaps inWord (c :: text)) :
    kindAt? spelling (inWord && (gaps 0).isEmpty) c (spread (fun i => gaps (i + 1)) text) =
      kindAt? spelling inWord c text := by
  cases halpha : c.isAlpha with
  | false => rw [kindAt?, kindAt?, halpha]; rfl
  | true =>
    rw [kindAt?_of_isAlpha halpha, kindAt?_of_isAlpha halpha]
    cases spelling with
    | symbolic => rfl
    | keywords =>
      have hword : (inWord && (gaps 0).isEmpty) = inWord := by
        cases inWord with
        | false => rfl
        | true =>
          rcases hstart rfl rfl with hletter | hgap
          · rw [hletter c rfl] at halpha
            cases halpha
          · rw [hgap]
            rfl
      rw [letterKind?, letterKind?, hword, hgaps.tail.takeWhile (hgaps.head halpha)]

/-- Blanks put in outside words move positions, and change nothing else that is scanned. -/
theorem SpacesOut.scan_eq (hgaps : SpacesOut spelling gaps text)
    (hstart : Together spelling gaps inWord text) (place : Nat → Nat) {position start : Nat}
    (hplace : ∀ i, place (position + i) = start + i + insertedBefore gaps i) :
    scan spelling inWord start (spread gaps text) =
      moved place (scan spelling inWord position text) := by
  induction text generalizing gaps inWord position start with
  | nil =>
    have hhere : start + (gaps 0).length = place position := (hplace 0).symm
    rw [spread, ← List.append_nil (gaps 0), scan_blanks_append (hgaps.isBlank 0), hhere]
    rfl
  | cons c text ih =>
    have hhere : start + (gaps 0).length = place position := (hplace 0).symm
    have hlater : Together spelling (fun i => gaps (i + 1)) c.isAlpha text := by
      rintro rfl hc
      exact hgaps.head hc
    have hnext : ∀ i, place (position + 1 + i) =
        place position + 1 + i + insertedBefore (fun i => gaps (i + 1)) i := by
      intro i
      have hnext := hplace (i + 1)
      rw [insertedBefore_succ] at hnext
      rw [Nat.add_assoc, Nat.add_comm 1 i, hnext]
      omega
    have hrest :
        scan spelling c.isAlpha (place position + 1) (spread (fun i => gaps (i + 1)) text) =
        moved place (scan spelling c.isAlpha (position + 1) text) :=
      ih hgaps.tail hlater hnext
    rw [spread, scan_blanks_append (hgaps.isBlank 0), scan, scan, hgaps.kindAt?_eq hstart, hhere,
      hrest]
    by_cases hstray : Stray c
    · rw [if_pos hstray, if_pos hstray]
      rfl
    · rw [if_neg hstray, if_neg hstray]
      cases kindAt? spelling inWord c text with
      | none => rfl
      | some kind => exact (moved_cons place ⟨kind, position⟩ _).symm

end Lexer

open Lexer

theorem tokenize_of_map_toUpper_eq {text other : String}
    (h : other.toList.map Char.toUpper = text.toList.map Char.toUpper) (spelling : Spelling) :
    tokenize other spelling = tokenize text spelling := by
  rw [tokenize_eq_scan, tokenize_eq_scan, scan_of_map_toUpper_eq h]

theorem tokenize_spread {text : String} {spelling : Spelling} {gaps : Nat → List Char}
    (h : SpacesOut spelling gaps text.toList) :
    tokenize (String.ofList (spread gaps text.toList)) spelling =
      moved (fun position => position + insertedBefore gaps position) (tokenize text spelling) := by
  rw [tokenize_eq_scan, tokenize_eq_scan, String.toList_ofList]
  refine h.scan_eq (fun _ hword => absurd hword Bool.false_ne_true) _ fun i => ?_
  rw [Nat.zero_add]

/-- Tokens at other positions are the same formula, or have the same fault at another position. -/
theorem Formula.read_of_moved {text other : String} {spelling : Spelling} {place : Nat → Nat}
    (h : tokenize other spelling = moved place (tokenize text spelling)) :
    Formula.read other spelling = (Formula.read text spelling).mapError (Error.move place) := by
  rw [Formula.read, Formula.read, h]
  cases htokens : tokenize text spelling with
  | error error => rfl
  | ok tokens =>
    rw [tokenize_eq_scan] at htokens
    obtain ⟨init, rfl, -⟩ := exists_scan_eq_concat htokens
    exact Parser.run_map_move place ⟨_, List.mem_append_right _ (List.mem_singleton.2 rfl), rfl⟩

/-- **Letter case and blanks mean nothing but that blanks end words**: letters in another case
leave the tokens, the error and the formula of a text as they are. Blanks put in at any places,
but where words are read not between two letters, leave them as they are too, except that every
position grows by the number of characters put in before it. -/
theorem insensitive_to_case_and_blanks (text : String) (spelling : Spelling) :
    (∀ other : String, other.toList.map Char.toUpper = text.toList.map Char.toUpper →
      tokenize other spelling = tokenize text spelling ∧
      Formula.read other spelling = Formula.read text spelling) ∧
    (∀ gaps : Nat → List Char, SpacesOut spelling gaps text.toList →
      tokenize (String.ofList (spread gaps text.toList)) spelling =
        moved (fun position => position + insertedBefore gaps position)
          (tokenize text spelling) ∧
      Formula.read (String.ofList (spread gaps text.toList)) spelling =
        (Formula.read text spelling).mapError
          (Error.move fun position => position + insertedBefore gaps position)) := by
  refine ⟨fun other h => ?_, fun gaps h => ?_⟩
  · have htokens := tokenize_of_map_toUpper_eq h spelling
    exact ⟨htokens, by rw [Formula.read, htokens, Formula.read]⟩
  · have htokens := tokenize_spread h
    exact ⟨htokens, Formula.read_of_moved htokens⟩

end Schematic
