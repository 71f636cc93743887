import Schematic.Proofs.Formula.PreOrder
import Schematic.Proofs.Formula.RoundTrip
import Schematic.Text.Letter

/-!
# What is read is well-formed

The variables that the lexer finds are capital letters (`Lexer.isUpper_of_mem_tokens`), and every
chain of the grammar has two operands or more. So a formula that has been read is well-formed
(`Formula.wellFormed_of_read`), and a variable occurs in it in upper case or not at all
(`Formula.WellFormed.any_leaves_iff`). Its canonical text takes no more levels than the text that
was read, so it reads back (`Formula.canonical_text_of_read`).
-/

namespace Schematic

open Grammar

/-! ### The variables of a text -/

namespace Lexer

theorem isUpper_of_word {first name : Char} {more : List Char} (hfirst : first.isAlpha = true)
    (h : word first more = .identifier name) : name.isUpper = true := by
  unfold word at h
  split at h
  case h_4 =>
    cases h
    exact Text.isUpper_toUpper hfirst
  all_goals cases h

theorem isUpper_of_lexeme? {spelling : Spelling} {first name : Char} {text : List Char}
    {length : Nat} (h : lexeme? spelling first text = some (.identifier name, length)) :
    name.isUpper = true := by
  unfold lexeme? at h
  split at h
  · next kind hsign =>
    cases h
    unfold sign? at hsign
    split at hsign <;> cases hsign
  · next =>
    rw [Option.ite_none_right_eq_some] at h
    obtain ⟨hfirst, h⟩ := h
    cases spelling with
    | symbolic =>
      cases h
      exact Text.isUpper_toUpper hfirst
    | keywords => exact isUpper_of_word hfirst (congrArg Prod.fst (Option.some.inj h))

theorem isUpper_of_next {lexer after : Lexer} {token : Token} {name : Char}
    (h : lexer.next = (.ok token, after)) (hname : token.kind = .identifier name) :
    name.isUpper = true := by
  unfold next at h
  simp only at h
  split at h
  · cases h
    cases hname
  · split at h
    · next hlexeme =>
      cases h
      cases hname
      exact isUpper_of_lexeme? hlexeme
    · cases h

/-- The variables of a text are capital letters, whichever their case. -/
theorem isUpper_of_mem_tokens {lexer : Lexer} {tokens : List Token} (h : lexer.tokens = .ok tokens)
    {token : Token} (htoken : token ∈ tokens) {name : Char}
    (hname : token.kind = .identifier name) :
    name.isUpper = true := by
  fun_induction Lexer.tokens lexer generalizing tokens with
  | case1 lexer error after hnext => cases h
  | case2 lexer first after hnext hend =>
    cases h
    obtain rfl := List.mem_singleton.1 htoken
    cases hend.symm.trans hname
  | case3 lexer first after hnext hend hlt ih =>
    obtain ⟨rest, hrest, rfl⟩ : ∃ rest, after.tokens = .ok rest ∧ first :: rest = tokens := by
      cases hafter : after.tokens with
      | error error =>
        rw [hafter] at h
        cases h
      | ok rest =>
        rw [hafter] at h
        exact ⟨rest, rfl, Except.ok.inj h⟩
    rcases List.mem_cons.1 htoken with rfl | htoken
    · exact isUpper_of_next hnext hname
    · exact ih hrest htoken

end Lexer

/-! ### The formula of a text -/

namespace Grammar

theorem mem_joined {sign kind : Token.Kind} {parts : List (List Token.Kind × Formula)}
    {part : List Token.Kind × Formula} (hpart : part ∈ parts) (h : kind ∈ part.1) :
    kind ∈ joined sign parts := by
  induction parts with
  | nil => cases hpart
  | cons first parts ih =>
    cases parts with
    | nil =>
      obtain rfl := List.mem_singleton.1 hpart
      rwa [joined_singleton]
    | cons next parts =>
      rw [joined_cons_cons, List.mem_append, List.mem_cons]
      rcases List.mem_cons.1 hpart with rfl | hpart
      · exact .inl h
      · exact .inr (.inr (ih hpart))

/-- A phrase in capital letters denotes a well-formed formula. -/
theorem Derives.wellFormed {phrase : Phrase} {levels : Nat} {kinds : List Token.Kind} {f : Formula}
    (h : Derives phrase levels kinds f)
    (hnames : ∀ name, .identifier name ∈ kinds → name.isUpper = true) : f.WellFormed := by
  induction h with
  | identifier name =>
    have hname := hnames name (List.mem_singleton.2 rfl)
    rw [Text.toUpper_of_isUpper hname]
    exact .var hname
  | parens _ ih => exact ih fun name hname => hnames name (by simp [hname])
  | primary _ ih => exact ih hnames
  | not _ ih => exact .not (ih fun name hname => hnames name (by simp [hname]))
  | factor _ ih => exact ih hnames
  | and parts hlen _ ih =>
    refine .and (by simpa using hlen) fun f hf => ?_
    obtain ⟨part, hpart, rfl⟩ := List.mem_map.1 hf
    exact ih part hpart fun name hname => hnames name (mem_joined hpart hname)
  | term _ ih => exact ih hnames
  | or parts hlen _ ih =>
    refine .or (by simpa using hlen) fun f hf => ?_
    obtain ⟨part, hpart, rfl⟩ := List.mem_map.1 hf
    exact ih part hpart fun name hname => hnames name (mem_joined hpart hname)

end Grammar

namespace Formula

theorem read_eq_ok_iff {text : String} {spelling : Spelling} {f : Formula} :
    read text spelling = .ok f ↔ ∃ tokens, tokenize text spelling = .ok tokens ∧
      ofTokens tokens Parser.defaultLimit = .ok f := by
  rw [read]
  cases htokens : tokenize text spelling with
  | error error => simp [bind, Except.bind]
  | ok tokens =>
    cases hf : ofTokens tokens Parser.defaultLimit with
    | error fault => simp [bind, Except.bind, Except.mapError, hf]
    | ok g => simp [bind, Except.bind, Except.mapError, hf]

/-- A formula that has been read is well-formed. -/
theorem wellFormed_of_read {text : String} {spelling : Spelling} {f : Formula}
    (h : read text spelling = .ok f) : f.WellFormed := by
  obtain ⟨tokens, htokens, hf⟩ := read_eq_ok_iff.1 h
  refine (Parser.ofTokens_eq_ok_iff_derives.1 hf).wellFormed fun name hname => ?_
  obtain ⟨token, htoken, hkind⟩ := List.mem_map.1 (List.takeWhile_subset _ hname)
  exact Lexer.isUpper_of_mem_tokens htokens htoken hkind

/-- A text of blanks is no formula. -/
theorem isAllBlank_eq_false_of_read {text : String} {spelling : Spelling} {f : Formula}
    (h : read text spelling = .ok f) : Text.isAllBlank text = false := by
  rw [Bool.eq_false_iff]
  intro hblank
  obtain ⟨tokens, htokens, hf⟩ := read_eq_ok_iff.1 h
  have hend : tokenize text spelling = .ok [⟨.endOfInput, 0 + text.toList.length⟩] :=
    Lexer.tokens_of_blanks spelling 0 (List.all_eq_true.1 hblank)
  obtain rfl := Except.ok.inj (hend.symm.trans htokens)
  cases hf

/-! ### The names of well-formed formulas -/

theorem WellFormed.of_mem_operands {f g : Formula} (h : f.WellFormed) (hg : g ∈ f.operands) :
    g.WellFormed := by
  cases h with
  | var _ => cases hg
  | not hoperand => exact List.mem_singleton.1 hg ▸ hoperand
  | and _ hoperands => exact hoperands g hg
  | or _ hoperands => exact hoperands g hg

theorem WellFormed.of_mem_preOrder {f part : Formula} (h : f.WellFormed)
    (hpart : part ∈ f.preOrder) : part.WellFormed := by
  induction f using inductionOnOperands with
  | step f ih =>
    rw [preOrder_eq, List.mem_cons, List.mem_flatMap] at hpart
    rcases hpart with rfl | ⟨operand, hoperand, hpart⟩
    · exact h
    · exact ih operand hoperand (h.of_mem_operands hoperand) hpart

/-- The leaves are in upper case. -/
theorem WellFormed.toUpper_of_mem_leaves {f : Formula} (h : f.WellFormed) {name : Char}
    (hname : name ∈ f.leaves) : name.toUpper = name := by
  obtain ⟨part, hpart, hvar⟩ := List.mem_filterMap.1 hname
  cases h.of_mem_preOrder hpart with
  | var hupper =>
    cases hvar
    exact Text.toUpper_of_isUpper hupper
  | not _ => cases hvar
  | and _ _ => cases hvar
  | or _ _ => cases hvar

/-- A variable occurs in a well-formed formula in upper case only. -/
theorem WellFormed.any_leaves_iff {f : Formula} (h : f.WellFormed) {name : Char} :
    f.leaves.any (·.toUpper = name.toUpper) = true ↔ name.toUpper ∈ f.variableNames := by
  rw [List.any_eq_true, mem_variableNames]
  constructor
  · rintro ⟨leaf, hleaf, hname⟩
    rwa [← of_decide_eq_true hname, h.toUpper_of_mem_leaves hleaf]
  · intro hname
    exact ⟨name.toUpper, hname, decide_eq_true (Text.toUpper_toUpper name)⟩

/-! ### The canonical text of what is read -/

/-- However many parentheses a text has, its formula keeps to the limit without the needless
ones. -/
theorem nesting_le_of_read {text : String} {spelling : Spelling} {f : Formula}
    (h : read text spelling = .ok f) : f.nesting ≤ Parser.defaultLimit := by
  obtain ⟨tokens, -, hf⟩ := read_eq_ok_iff.1 h
  exact nesting_le_of_derives (Parser.ofTokens_eq_ok_iff_derives.1 hf)

theorem WellFormed.read_text {f : Formula} (hf : f.WellFormed)
    (h : f.nesting ≤ Parser.defaultLimit) (spelling : Spelling) :
    read f.text spelling = .ok f := by
  obtain ⟨tokens, htokens, hkinds⟩ := hf.tokenize_text spelling
  exact read_eq_ok_iff.2 ⟨tokens, htokens, ofTokens_of_nesting_le hf hkinds h⟩

/-- **What has been read has a canonical text**: the formula is well-formed and keeps to the limit
of nesting, its canonical text reads back as the same formula in either spelling, and to print what
has been read back gives the same text again. -/
theorem canonical_text_of_read {text : String} {spelling : Spelling} {f : Formula}
    (h : read text spelling = .ok f) :
    f.WellFormed ∧ f.nesting ≤ Parser.defaultLimit ∧
      ∀ other : Spelling, read f.text other = .ok f ∧
        (read f.text other).map Formula.text = .ok f.text := by
  have hf := wellFormed_of_read h
  have hnesting := nesting_le_of_read h
  refine ⟨hf, hnesting, fun other => ?_⟩
  have hback := hf.read_text hnesting other
  refine ⟨hback, ?_⟩
  rw [hback]
  rfl

/-- Words and needless parentheses do not get into the canonical text. -/
theorem canonical_text_of_read_words :
    let f := Formula.or [.and [.var 'A', .or [.var 'B', .var 'C']], .not (.not (.var 'A'))]
    read "((alpha) AND ((b OR c))) or not (not (A))" .keywords = .ok f ∧
      f.text = "A.(B + C) + !!A" ∧ f.WellFormed ∧ read f.text .symbolic = .ok f := by
  intro f
  have hread : read "((alpha) AND ((b OR c))) or not (not (A))" .keywords = .ok f := by
    decide +kernel
  obtain ⟨hf, -, hback⟩ := canonical_text_of_read hread
  exact ⟨hread, by decide, hf, (hback .symbolic).1⟩

end Formula

end Schematic
