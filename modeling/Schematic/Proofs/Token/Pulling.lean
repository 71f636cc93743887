import Schematic.Proofs.Token.Lexical

/-!
# Pulling tokens one by one

A caller may ask a lexer for one token at a time, and at any moment for all that are left. A lexer
yields some tokens and then one last answer, the end or an error, which it repeats forever
(`Yields`). What follows a text and starts with no letter leaves the tokens of the text as they are
(`Yields.append`), so a stray character only puts an error in place of the end of the text before
it.

Main result: pulled one by one, the tokens are those of reading the whole text at once, and what is
left is read as if nothing had been pulled (`pulled_as_tokenized`).
-/

namespace Schematic.Lexer

/-! ### Calls -/

/-- The lexer after so many calls for one token. -/
def afterCalls (lexer : Lexer) : Nat → Lexer
  | 0 => lexer
  | count + 1 => lexer.next.2.afterCalls count

/-- What a call for one token is answered when so many came before it. -/
def answer (lexer : Lexer) (count : Nat) : Except Error Token := (lexer.afterCalls count).next.1

/-- An answer that takes nothing off the text. -/
inductive Final : Except Error Token → Prop where
  /-- The end of the text. -/
  | ending (position : Nat) : Final (.ok ⟨.endOfInput, position⟩)
  /-- An error. -/
  | error (error : Error) : Final (.error error)

/-- The lexer yields the tokens, and then the last answer again and again. -/
inductive Yields : Lexer → List Token → Except Error Token → Prop where
  /-- The last answer comes at once, and leaves the lexer where it is given again. -/
  | last {lexer after : Lexer} {last : Except Error Token} : Final last →
    lexer.next = (last, after) → after.next = (last, after) → Yields lexer [] last
  /-- Another token comes first. -/
  | token {lexer after : Lexer} {token : Token} {tokens : List Token}
    {last : Except Error Token} : token.kind ≠ .endOfInput → lexer.next = (.ok token, after) →
    Yields after tokens last → Yields lexer (token :: tokens) last

variable {lexer after : Lexer} {tokens : List Token} {last : Except Error Token}

/-! ### Every lexer yields something -/

theorem skipBlanks_skipBlanks (lexer : Lexer) :
    lexer.skipBlanks.skipBlanks = lexer.skipBlanks := by
  obtain ⟨spelling, text, position⟩ := lexer
  induction text generalizing position with
  | nil => rfl
  | cons c text ih =>
    cases hblank : Text.isBlank c with
    | true => rw [skipBlanks_cons_of_isBlank spelling position hblank, ih]
    | false =>
      have hself := skipBlanks_cons_of_not_isBlank spelling position hblank text
      rw [hself, hself]

theorem next_skipBlanks (lexer : Lexer) : lexer.skipBlanks.next = lexer.next := by
  rw [next, next, skipBlanks_skipBlanks]

/-- A last answer takes off the blanks before it only. -/
theorem eq_skipBlanks_of_final (h : lexer.next = (last, after)) (hlast : Final last) :
    after = lexer.skipBlanks := by
  unfold next at h
  simp only at h
  split at h
  · cases h
    rfl
  · split at h
    · next hlexeme =>
      cases h
      cases hlast
      exact absurd hlexeme lexeme?_ne_endOfInput
    · cases h
      rfl

/-- After a last answer the next one is the same. -/
theorem next_of_final (h : lexer.next = (last, after)) (hlast : Final last) :
    after.next = (last, after) := by
  rw [← h, eq_skipBlanks_of_final h hlast, next_skipBlanks]

theorem exists_yields (lexer : Lexer) : ∃ tokens last, lexer.Yields tokens last := by
  fun_induction Lexer.tokens lexer with
  | case1 lexer error after hnext =>
    exact ⟨[], _, .last (.error error) hnext (next_of_final hnext (.error error))⟩
  | case2 lexer token after hnext hend =>
    obtain ⟨kind, position⟩ := token
    cases hend
    exact ⟨[], _, .last (.ending position) hnext (next_of_final hnext (.ending position))⟩
  | case3 lexer token after hnext hend hlt ih =>
    obtain ⟨tokens, last, hyields⟩ := ih
    exact ⟨token :: tokens, last, .token hend hnext hyields⟩

/-- What a lexer yields is settled by its next answer. -/
theorem Yields.of_next_eq {other : Lexer} (h : lexer.Yields tokens last)
    (hnext : other.next = lexer.next) : other.Yields tokens last := by
  cases h with
  | last hlast hfirst hstays => exact .last hlast (hnext.trans hfirst) hstays
  | token hend hfirst hafter => exact .token hend (hnext.trans hfirst) hafter

/-! ### What is yielded -/

theorem Yields.final (h : lexer.Yields tokens last) : Final last := by
  induction h with
  | last hlast => exact hlast
  | token _ _ _ ih => exact ih

/-- The tokens of the rest are those yielded, and the last answer makes them end or fail. -/
theorem Yields.tokens_eq (h : lexer.Yields tokens last) :
    lexer.tokens = (fun ending => tokens ++ [ending]) <$> last := by
  induction h with
  | last hlast hnext =>
    cases hlast with
    | ending => exact tokens_of_next_end hnext rfl
    | error => exact tokens_of_next_error hnext
  | @token _ _ token tokens last hend hnext _ ih =>
    rw [tokens_of_next_token hnext hend, ih]
    cases last <;> rfl

/-- Calls take tokens away one by one, and leave the last answer. -/
theorem Yields.afterCalls (h : lexer.Yields tokens last) (count : Nat) :
    (lexer.afterCalls count).Yields (tokens.drop count) last := by
  induction count generalizing lexer tokens with
  | zero => exact h
  | succ count ih =>
    cases h with
    | last hlast hnext hstays =>
      rw [Lexer.afterCalls, hnext, List.drop_nil]
      simpa using ih (.last hlast hstays hstays)
    | token _ hnext hafter =>
      rw [Lexer.afterCalls, hnext]
      exact ih hafter

theorem Yields.fst_next (h : lexer.Yields tokens last) :
    lexer.next.1 = tokens.head?.elim last .ok := by
  cases h with
  | last _ hnext => rw [hnext]; rfl
  | token _ hnext => rw [hnext]; rfl

/-- Each call is answered with its token, and later ones with the last answer. -/
theorem Yields.answer_eq (h : lexer.Yields tokens last) (count : Nat) :
    lexer.answer count = tokens[count]?.elim last .ok := by
  rw [answer, (h.afterCalls count).fst_next, List.head?_drop]

/-! ### Text that follows -/

section Append

variable {spelling : Spelling} {position : Nat} {text more : List Char}

theorem spelling_next (lexer : Lexer) : lexer.next.2.spelling = lexer.spelling := by
  unfold next
  simp only
  split
  · rfl
  · split <;> rfl

theorem exists_blanks (text : List Char) : ∃ blanks rest, text = blanks ++ rest ∧
    (∀ c ∈ blanks, Text.isBlank c = true) ∧ ∀ c ∈ rest.head?, Text.isBlank c = false := by
  refine ⟨text.takeWhile Text.isBlank, text.dropWhile Text.isBlank,
    List.takeWhile_append_dropWhile.symm, List.all_eq_true.1 List.all_takeWhile, ?_⟩
  intro c hc
  have hhead := List.head?_dropWhile_not Text.isBlank text
  rwa [Option.mem_def.1 hc] at hhead

theorem next_blanks_append {blanks : List Char} (h : ∀ c ∈ blanks, Text.isBlank c = true) :
    (⟨spelling, blanks ++ text, position⟩ : Lexer).next =
      (⟨spelling, text, position + blanks.length⟩ : Lexer).next := by
  induction blanks generalizing position with
  | nil => rfl
  | cons c blanks ih =>
    obtain ⟨hc, hblanks⟩ := List.forall_mem_cons.1 h
    rw [List.cons_append, next_cons_of_isBlank spelling position hc, ih hblanks,
      List.length_cons, Nat.add_right_comm, Nat.add_assoc]

theorem lexeme?_append (hmore : NoLetter more) (c : Char) :
    lexeme? spelling c (text ++ more) = lexeme? spelling c text := by
  simp only [lexeme?, takeWhile_append_of_noLetter _ hmore]

theorem length_le_of_lexeme? {c : Char} {kind : Token.Kind} {length : Nat}
    (h : lexeme? spelling c text = some (kind, length)) : length ≤ (c :: text).length := by
  have htake : (text.takeWhile Char.isAlpha).length ≤ text.length :=
    (List.takeWhile_sublist _).length_le
  rw [List.length_cons]
  unfold lexeme? at h
  split at h
  · cases h
    omega
  · rw [Option.ite_none_right_eq_some] at h
    cases spelling <;> cases h.2 <;> omega

/-- The lexer with more text behind its own. -/
def extend (lexer : Lexer) (more : List Char) : Lexer := { lexer with rest := lexer.rest ++ more }

/-- A token is read the same whatever follows its text and starts with no letter. -/
theorem next_extend_of_token {token : Token} (hmore : NoLetter more)
    (h : lexer.next = (.ok token, after)) (hend : token.kind ≠ .endOfInput) :
    (lexer.extend more).next = (.ok token, after.extend more) := by
  obtain ⟨spelling, text, position⟩ := lexer
  obtain ⟨blanks, rest, rfl, hblanks, hrest⟩ := exists_blanks text
  rw [next_blanks_append hblanks] at h
  rw [extend, List.append_assoc, next_blanks_append hblanks]
  cases rest with
  | nil =>
    cases h
    exact absurd rfl hend
  | cons c rest =>
    have hblank := hrest c rfl
    cases hlexeme : lexeme? spelling c rest with
    | none =>
      rw [next_cons_of_no_lexeme _ _ hblank hlexeme] at h
      cases h
    | some lexeme =>
      rw [next_cons_of_lexeme _ _ hblank hlexeme] at h
      cases h
      rw [List.cons_append, next_cons_of_lexeme _ _ hblank
        ((lexeme?_append hmore c).trans hlexeme), ← List.cons_append,
        List.drop_append_of_le_length (length_le_of_lexeme? hlexeme)]
      rfl

/-- Where a text has ended, what follows it is read. -/
theorem next_extend_of_ending {ending : Nat}
    (h : lexer.next = (.ok ⟨.endOfInput, ending⟩, after)) (more : List Char) :
    (lexer.extend more).next = (⟨lexer.spelling, more, ending⟩ : Lexer).next := by
  obtain ⟨spelling, text, position⟩ := lexer
  obtain ⟨blanks, rest, rfl, hblanks, hrest⟩ := exists_blanks text
  rw [next_blanks_append hblanks] at h
  rw [extend, List.append_assoc, next_blanks_append hblanks]
  cases rest with
  | nil =>
    cases h
    rfl
  | cons c rest =>
    have hblank := hrest c rfl
    cases hlexeme : lexeme? spelling c rest with
    | none =>
      rw [next_cons_of_no_lexeme _ _ hblank hlexeme] at h
      cases h
    | some lexeme =>
      obtain ⟨kind, length⟩ := lexeme
      rw [next_cons_of_lexeme _ _ hblank hlexeme] at h
      cases h
      exact absurd hlexeme lexeme?_ne_endOfInput

/-- What follows a text and starts with no letter is read behind the tokens of the text. -/
theorem Yields.extend {later : List Token} {ending : Nat} (hmore : NoLetter more)
    (h : lexer.Yields tokens (.ok ⟨.endOfInput, ending⟩))
    (hlater : (⟨lexer.spelling, more, ending⟩ : Lexer).Yields later last) :
    (lexer.extend more).Yields (tokens ++ later) last := by
  generalize hfinal : (.ok ⟨.endOfInput, ending⟩ : Except Error Token) = final at h
  induction h with
  | last _ hnext _ =>
    subst hfinal
    exact hlater.of_next_eq (next_extend_of_ending hnext more)
  | @token lexer after _ _ _ hend hnext _ ih =>
    have hspelling : after.spelling = lexer.spelling := by rw [← spelling_next lexer, hnext]
    exact .token hend (next_extend_of_token hmore hnext hend) (ih (hspelling ▸ hlater) hfinal)

end Append

/-- A stray character makes the lexer fail behind the tokens of the text before it. -/
theorem Yields.extend_stray {ending : Nat} {c : Char} (hc : Stray c) (text : List Char)
    (h : lexer.Yields tokens (.ok ⟨.endOfInput, ending⟩)) :
    (lexer.extend (c :: text)).Yields tokens (.error (.strayCharacter ending c)) := by
  have hnext : (⟨lexer.spelling, c :: text, ending⟩ : Lexer).next =
      (.error (.strayCharacter ending c), ⟨lexer.spelling, c :: text, ending⟩) :=
    next_cons_of_stray hc text ending
  have hlast := Yields.last (.error _) hnext hnext
  simpa using h.extend (noLetter_cons hc.2.1 text) hlast

/-! ### Whole texts -/

/-- A lexer that reads the rest without an error yields all tokens but the end. -/
theorem exists_yields_of_tokens (h : lexer.tokens = .ok tokens) : ∃ before ending,
    tokens = before ++ [⟨.endOfInput, ending⟩] ∧
      lexer.Yields before (.ok ⟨.endOfInput, ending⟩) := by
  obtain ⟨before, last, hyields⟩ := lexer.exists_yields
  have htokens := hyields.tokens_eq
  rw [h] at htokens
  cases hyields.final with
  | ending position => exact ⟨before, position, Except.ok.inj htokens, hyields⟩
  | error error => cases htokens

theorem getElem?_concat_min {α : Type} (items : List α) (last : α) (index : Nat) :
    (items ++ [last])[min index items.length]? = some (items[index]?.getD last) := by
  rcases Nat.lt_or_ge index items.length with hlt | hge
  · rw [Nat.min_eq_left hlt.le, List.getElem?_append_left hlt, List.getElem?_eq_getElem hlt]
    rfl
  · rw [Nat.min_eq_right hge, List.getElem?_concat_length, List.getElem?_eq_none hge]
    rfl

theorem drop_concat_min {α : Type} (items : List α) (last : α) (index : Nat) :
    (items ++ [last]).drop (min index items.length) = items.drop index ++ [last] := by
  rcases Nat.le_total index items.length with hle | hge
  · rw [Nat.min_eq_left hle, List.drop_append_of_le_length hle]
  · rw [Nat.min_eq_right hge, List.drop_left, List.drop_eq_nil_of_le hge, List.nil_append]

/-- The text falls into what stands before its first stray character, that one and the rest. -/
theorem FirstStray.split {text : List Char} {position : Nat} {c : Char}
    (h : FirstStray text position c) :
    text = text.take position ++ c :: text.drop (position + 1) ∧
      (text.take position).length = position ∧ ∀ d ∈ text.take position, ¬ Stray d := by
  obtain ⟨hlt, hc⟩ := List.getElem?_eq_some_iff.1 h.here
  refine ⟨?_, List.length_take_of_le hlt.le, fun d hd => ?_⟩
  · rw [← hc, ← List.drop_eq_getElem_cons hlt, List.take_append_drop]
  · obtain ⟨i, hi⟩ := List.mem_iff_getElem?.1 hd
    rw [List.getElem?_take, Option.ite_none_right_eq_some] at hi
    exact h.first hi.1 hi.2

/-- A lexer before a text with a stray character yields the tokens of the text before the first
one, and then fails forever. -/
theorem FirstStray.exists_yields {text : List Char} {position : Nat} {c : Char}
    (h : FirstStray text position c) (spelling : Spelling) : ∃ before,
      (⟨spelling, text.take position, 0⟩ : Lexer).tokens =
        .ok (before ++ [⟨.endOfInput, position⟩]) ∧
      (∀ token ∈ before, token.kind ≠ .endOfInput) ∧
      (⟨spelling, text, 0⟩ : Lexer).Yields before (.error (.strayCharacter position c)) := by
  obtain ⟨hsplit, hlength, hclean⟩ := h.split
  obtain ⟨tokens, hscan⟩ : ∃ tokens, scan spelling false 0 (text.take position) = .ok tokens :=
    exists_scan_eq_ok hclean false 0
  obtain ⟨init, rfl, hinit⟩ := exists_scan_eq_concat hscan
  rw [← tokens_eq_scan, Nat.zero_add, hlength] at hscan
  obtain ⟨before, ending, hconcat, hyields⟩ := exists_yields_of_tokens hscan
  obtain ⟨rfl, hend⟩ := List.append_inj' hconcat rfl
  cases hend
  refine ⟨init, hscan, hinit, ?_⟩
  have hlexer := hyields.extend_stray h.stray (text.drop (position + 1))
  rwa [Lexer.extend, ← hsplit] at hlexer

end Schematic.Lexer

namespace Schematic

open Lexer

/-- **Tokens pulled one by one are those of the whole text.** Where the text has tokens, call after
call answers them in order and then the last one, the end, forever. Where it has an error, call
after call answers the tokens before the stray character and then the error forever. In both cases
what is left after any number of calls is read as what is left of the whole text. -/
theorem pulled_as_tokenized (text : String) (spelling : Spelling) :
    (∀ tokens, tokenize text spelling = .ok tokens → ∀ count,
      tokens[min count (tokens.length - 1)]?.map .ok =
        some ((Lexer.ofString text spelling).answer count) ∧
      ((Lexer.ofString text spelling).afterCalls count).tokens =
        .ok (tokens.drop (min count (tokens.length - 1)))) ∧
    (∀ error, tokenize text spelling = .error error → ∃ position c before,
      FirstStray text.toList position c ∧ error = .strayCharacter position c ∧
      tokenize (String.ofList (text.toList.take position)) spelling =
        .ok (before ++ [⟨.endOfInput, position⟩]) ∧
      (∀ token ∈ before, token.kind ≠ .endOfInput) ∧
      ∀ count,
        (Lexer.ofString text spelling).answer count = before[count]?.elim (.error error) .ok ∧
        ((Lexer.ofString text spelling).afterCalls count).tokens = .error error) := by
  constructor
  · intro tokens htokens
    obtain ⟨before, ending, rfl, hyields⟩ := exists_yields_of_tokens htokens
    refine fun count => ⟨?_, ?_⟩
    · rw [hyields.answer_eq, List.length_append, List.length_singleton, Nat.add_sub_cancel,
        getElem?_concat_min]
      cases before[count]? <;> rfl
    · rw [(hyields.afterCalls count).tokens_eq, List.length_append, List.length_singleton,
        Nat.add_sub_cancel,
        drop_concat_min]
      rfl
  · intro error herror
    obtain ⟨position, c, hfirst, rfl⟩ := tokenize_eq_error_iff.1 herror
    obtain ⟨before, hbefore, hend, hyields⟩ := hfirst.exists_yields spelling
    refine ⟨position, c, before, hfirst, rfl, ?_, hend, fun count => ⟨?_, ?_⟩⟩
    · rw [tokenize, Lexer.ofString, String.toList_ofList, hbefore]
    · exact hyields.answer_eq count
    · exact (hyields.afterCalls count).tokens_eq

end Schematic
