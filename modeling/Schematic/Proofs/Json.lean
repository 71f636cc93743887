import Mathlib.Data.List.Forall2
import Schematic.Json

/-!
# The text of a document tells the document

If the characters of a string are written so that each can be read back, the string's text ends
where its closing quote stands (`Readable.quote_append_inj`). A number ends where no character of a
number follows (`append_inj_of_numeric`). The first character of a value's text tells its kind
(`exists_chars_eq_cons`), and no value's text runs on into what follows it. So two documents with
the same text are equal, if their real numbers are written legibly (`eq_of_chars_eq`). The usual
escapes can be read back (`readable_escape`).
-/

namespace Schematic.Json

/-! ### Strings -/

/-- How characters are written in strings: so that the text tells the character and where its text
ends, and is never taken for the quote that closes the string. -/
structure Readable (char : Char → List Char) : Prop where
  /-- The text tells the character, whatever comes next. -/
  append_inj {c d : Char} {text rest : List Char} :
    char c ++ text = char d ++ rest → c = d ∧ text = rest
  /-- No character's text begins as a closing quote does. -/
  append_ne (c : Char) (text rest : List Char) : char c ++ text ≠ '"' :: rest

/-- A string's text ends at its closing quote. -/
theorem Readable.quote_append_inj {char : Char → List Char} (hchar : Readable char)
    {a b : String} {rest others : List Char}
    (h : quote a char ++ rest = quote b char ++ others) : a = b ∧ rest = others := by
  have hlists : ∀ cs ds : List Char, cs.flatMap char ++ '"' :: rest =
      ds.flatMap char ++ '"' :: others → cs = ds ∧ rest = others := by
    intro cs
    induction cs with
    | nil =>
      intro ds hds
      cases ds with
      | nil => exact ⟨rfl, (List.cons.inj hds).2⟩
      | cons d ds =>
        rw [List.flatMap_cons, List.append_assoc] at hds
        exact (hchar.append_ne _ _ _ hds.symm).elim
    | cons c cs ih =>
      intro ds hds
      cases ds with
      | nil =>
        rw [List.flatMap_cons, List.append_assoc] at hds
        exact (hchar.append_ne _ _ _ hds).elim
      | cons d ds =>
        simp only [List.flatMap_cons, List.append_assoc] at hds
        obtain ⟨rfl, hrest⟩ := hchar.append_inj hds
        obtain ⟨rfl, hothers⟩ := ih ds hrest
        exact ⟨rfl, hothers⟩
  simp only [quote, List.cons_append, List.append_assoc, List.cons.injEq, true_and,
    List.nil_append] at h
  obtain ⟨hcs, hrest⟩ := hlists _ _ h
  exact ⟨String.toList_inj.1 hcs, hrest⟩

/-! ### The usual escapes -/

/-- The value of a digit of base sixteen. -/
def hexValue (c : Char) : Nat :=
  if c.isDigit then c.toNat - '0'.toNat else c.toNat - 'a'.toNat + 10

/-- The first character that a string's text stands for, and the text behind it. -/
def unescape : List Char → Char × List Char
  | '\\' :: 'b' :: text => ('\x08', text)
  | '\\' :: 't' :: text => ('\t', text)
  | '\\' :: 'n' :: text => ('\n', text)
  | '\\' :: 'f' :: text => ('\x0c', text)
  | '\\' :: 'r' :: text => ('\r', text)
  | '\\' :: 'u' :: '0' :: '0' :: high :: low :: text =>
    (Char.ofNat (16 * hexValue high + hexValue low), text)
  | '\\' :: c :: text => (c, text)
  | c :: text => (c, text)
  | [] => ('"', [])

theorem hexValue_hexDigit : ∀ n < 16, hexValue (hexDigit n) = n := by decide

/-- A character is read back from its text, whatever comes next. -/
theorem unescape_append (c : Char) (text : List Char) :
    unescape (escape c ++ text) = (c, text) := by
  have hcontrol : c.toNat < 0x20 → Char.ofNat
      (16 * hexValue (hexDigit (c.toNat / 16)) + hexValue (hexDigit (c.toNat % 16))) = c := by
    intro h
    rw [hexValue_hexDigit _ (by omega), hexValue_hexDigit _ (by omega), Nat.div_add_mod,
      Char.ofNat_toNat]
  unfold escape
  repeat' split
  all_goals simp_all [unescape]

theorem readable_escape : Readable escape where
  append_inj {c d text rest} h := by
    have hread := congrArg unescape h
    rw [unescape_append, unescape_append] at hread
    exact Prod.mk.inj hread
  append_ne c text rest := by
    unfold escape
    repeat' split
    all_goals simp_all

/-! ### Numbers -/

/-- A character that numbers are written with. -/
def isNumeric (c : Char) : Bool := c.isDigit || ['-', '+', '.', 'e', 'E'].contains c

/-- The text does not run on with a number. -/
def Delimited (text : List Char) : Prop := ∀ c ∈ text.head?, isNumeric c = false

theorem takeWhile_append_of_head? {p : Char → Bool} {text rest : List Char}
    (htext : ∀ c ∈ text, p c = true) (hrest : ∀ c ∈ rest.head?, p c = false) :
    (text ++ rest).takeWhile p = text := by
  rw [List.takeWhile_append_of_pos htext]
  cases rest with
  | nil => rw [List.takeWhile_nil, List.append_nil]
  | cons c rest => rw [List.takeWhile_cons_of_neg (by simp [hrest c rfl]), List.append_nil]

/-- A number ends where no character of a number follows. -/
theorem append_inj_of_numeric {number other rest others : List Char}
    (hnumber : ∀ c ∈ number, isNumeric c = true) (hother : ∀ c ∈ other, isNumeric c = true)
    (hrest : Delimited rest) (hothers : Delimited others)
    (h : number ++ rest = other ++ others) : number = other ∧ rest = others := by
  have hsame : number = other := by
    rw [← takeWhile_append_of_head? hnumber hrest, h, takeWhile_append_of_head? hother hothers]
  subst hsame
  exact ⟨rfl, List.append_cancel_left h⟩

theorem isDigit_of_mem_repr {n : Nat} {c : Char} (h : c ∈ (Nat.repr n).toList) :
    c.isDigit = true := by
  rw [Nat.toList_repr] at h
  exact Nat.isDigit_of_mem_toDigits (by decide) (by decide) h

/-- How real numbers are written: with the characters of numbers, never as a natural number is, and
different ones differently. -/
structure Legible {α : Type} (real : α → Option (List Char)) : Prop where
  /-- All characters belong to numbers. -/
  numeric {x : α} {text : List Char} : real x = some text → ∀ c ∈ text, isNumeric c = true
  /-- Some character is not a digit. -/
  fractional {x : α} {text : List Char} : real x = some text → ∃ c ∈ text, c.isDigit = false
  /-- The text tells the number. -/
  injective {x y : α} {text : List Char} : real x = some text → real y = some text → x = y

variable {α : Type} {char : Char → List Char} {real : α → Option (List Char)}

/-! ### Lists of texts -/

/-- If every item of a list relates to one thing only, the list relates to that of these things. -/
theorem forall₂_iff_eq_map {β γ : Type} {Relates : β → γ → Prop} {f : β → γ} {xs : List β}
    (h : ∀ x ∈ xs, ∀ y, Relates x y ↔ y = f x) {ys : List γ} :
    List.Forall₂ Relates xs ys ↔ ys = xs.map f := by
  induction xs generalizing ys with
  | nil => simp
  | cons x xs ih =>
    rw [List.forall_mem_cons] at h
    rw [List.forall₂_cons_left_iff, List.map_cons]
    simp only [h.1, ih h.2]
    simp

/-- What follows the first text of a list: a comma and the other texts, or what comes behind the
list. -/
def continuation (texts : List (List Char)) (rest : List Char) : List Char :=
  if texts = [] then rest else ',' :: ([','].intercalate texts ++ rest)

theorem intercalate_cons_append (text : List Char) (texts : List (List Char)) (rest : List Char) :
    [','].intercalate (text :: texts) ++ rest = text ++ continuation texts rest := by
  cases texts <;> simp [continuation, List.intercalate]

theorem delimited_cons {c : Char} (h : isNumeric c = false) (rest : List Char) :
    Delimited (c :: rest) := by
  rintro _ ⟨⟩
  exact h

/-- A list of texts, none of which runs on into what follows it or begins as the list ends, tells
its items. -/
theorem intercalate_append_inj {β : Type} {text : β → List Char} {close : Char}
    (hclose : isNumeric close = false) (hcomma : ',' ≠ close) {items others : List β}
    {rest more : List Char}
    (hitems : ∀ item ∈ items, ∀ rest more, text item ++ rest ≠ close :: more)
    (hothers : ∀ other ∈ others, ∀ rest more, text other ++ rest ≠ close :: more)
    (htext : ∀ item ∈ items, ∀ other ∈ others, ∀ rest more, Delimited rest → Delimited more →
      text item ++ rest = text other ++ more → item = other ∧ rest = more)
    (h : [','].intercalate (items.map text) ++ close :: rest =
      [','].intercalate (others.map text) ++ close :: more) : items = others ∧ rest = more := by
  have hcontinuation : ∀ items rest,
      Delimited (continuation ((items : List β).map text) (close :: rest)) := by
    intro items rest
    rw [continuation]
    split
    · exact delimited_cons hclose rest
    · exact delimited_cons (by decide) _
  induction items generalizing others with
  | nil =>
    cases others with
    | nil => exact ⟨rfl, (List.cons.inj h).2⟩
    | cons other others =>
      rw [List.map_cons, intercalate_cons_append] at h
      exact (hothers _ List.mem_cons_self _ _ h.symm).elim
  | cons item items ih =>
    cases others with
    | nil =>
      rw [List.map_cons, intercalate_cons_append] at h
      exact (hitems _ List.mem_cons_self _ _ h).elim
    | cons other others =>
      rw [List.map_cons, intercalate_cons_append, List.map_cons, intercalate_cons_append] at h
      obtain ⟨rfl, hnext⟩ := htext item List.mem_cons_self other List.mem_cons_self _ _
        (hcontinuation items rest) (hcontinuation others more) h
      cases items with
      | nil =>
        cases others with
        | nil => exact ⟨rfl, (List.cons.inj hnext).2⟩
        | cons second others => exact absurd (List.cons.inj hnext).1.symm hcomma
      | cons second items =>
        cases others with
        | nil => exact absurd (List.cons.inj hnext).1 hcomma
        | cons third others =>
          obtain ⟨heq, hrest⟩ := ih (List.forall_mem_cons.1 hitems).2
            (List.forall_mem_cons.1 hothers).2
            (fun item hitem other hother =>
              htext item (List.mem_cons_of_mem _ hitem) other (List.mem_cons_of_mem _ hother))
            (List.cons.inj hnext).2
          exact ⟨by rw [heq], hrest⟩

/-! ### Documents -/

/-- The text of a field. -/
def fieldText (char : Char → List Char) (real : α → Option (List Char))
    (field : String × Json α) : List Char :=
  quote field.1 char ++ ':' :: field.2.chars char real

theorem itemChars_eq_intercalate (items : List (Json α)) :
    itemChars char real items = [','].intercalate (items.map (chars char real)) := by
  induction items with
  | nil => rfl
  | cons item items ih =>
    cases items with
    | nil => simp [itemChars]
    | cons next items => simp [itemChars, ih, List.intercalate]

theorem fieldChars_eq_intercalate (fields : List (String × Json α)) :
    fieldChars char real fields = [','].intercalate (fields.map (fieldText char real)) := by
  induction fields with
  | nil => rfl
  | cons field fields ih =>
    cases fields with
    | nil => simp [fieldChars, fieldText]
    | cons next fields => simp [fieldChars, fieldText, ih, List.intercalate]

/-- Every real number of a document has a text. -/
inductive Written (real : α → Option (List Char)) : Json α → Prop where
  /-- Nothing. -/
  | null : Written real .null
  /-- A natural number. -/
  | natural (n : Nat) : Written real (.natural n)
  /-- A real number that has a text. -/
  | real {x : α} {text : List Char} : real x = some text → Written real (.real x)
  /-- A text. -/
  | string (text : String) : Written real (.string text)
  /-- A list of such values. -/
  | array {items : List (Json α)} :
    (∀ item ∈ items, Written real item) → Written real (.array items)
  /-- Such values under names. -/
  | object {fields : List (String × Json α)} :
    (∀ field ∈ fields, Written real field.2) → Written real (.object fields)

/-- What a value's text begins as. -/
inductive Kind where
  /-- The word for nothing. -/
  | null
  /-- A number. -/
  | number
  /-- A string. -/
  | string
  /-- A list. -/
  | array
  /-- A record. -/
  | object
  deriving DecidableEq

/-- The kind of a value. -/
def kind : Json α → Kind
  | null => .null
  | natural _ | .real _ => .number
  | string _ => .string
  | array _ => .array
  | object _ => .object

/-- The kind of value that a character begins. -/
def kindAt (c : Char) : Option Kind :=
  if c = 'n' then some .null
  else if isNumeric c then some .number
  else if c = '"' then some .string
  else if c = '[' then some .array
  else if c = '{' then some .object
  else none

/-- A value's text begins with a character that tells its kind. -/
theorem Written.exists_chars_eq_cons {a : Json α} (hreal : Legible real) (h : a.Written real) :
    ∃ c text, a.chars char real = c :: text ∧ kindAt c = some a.kind := by
  have hnumber : ∀ number : List Char, number ≠ [] → (∀ c ∈ number, isNumeric c = true) →
      ∃ c text, number = c :: text ∧ kindAt c = some .number := by
    intro number hne hnumeric
    obtain ⟨c, text, rfl⟩ := List.exists_cons_of_ne_nil hne
    have hc := hnumeric c List.mem_cons_self
    have hn : c ≠ 'n' := by
      rintro rfl
      revert hc
      decide
    exact ⟨c, text, rfl, by rw [kindAt, if_neg hn, if_pos hc]⟩
  cases h with
  | null => exact ⟨'n', _, rfl, rfl⟩
  | natural n =>
    rw [chars]
    refine hnumber _ ?_ fun c hc => ?_
    · rw [Nat.toList_repr]
      exact Nat.toDigits_ne_nil
    · rw [isNumeric, isDigit_of_mem_repr hc, Bool.true_or]
  | @real x text htext =>
    obtain ⟨c, hc, -⟩ := hreal.fractional htext
    rw [chars, htext]
    exact hnumber text (List.ne_nil_of_mem hc) (hreal.numeric htext)
  | string text => exact ⟨'"', _, rfl, rfl⟩
  | array items => exact ⟨'[', _, rfl, rfl⟩
  | object fields => exact ⟨'{', _, rfl, rfl⟩

/-- No value's text begins as a list or a record ends. -/
theorem Written.chars_append_ne {a : Json α} (hreal : Legible real) (h : a.Written real)
    {close : Char} (hclose : kindAt close = none) (rest more : List Char) :
    a.chars char real ++ rest ≠ close :: more := by
  obtain ⟨c, text, htext, hc⟩ := h.exists_chars_eq_cons hreal
  rw [htext, List.cons_append]
  rintro ⟨⟩
  rw [hclose] at hc
  cases hc

/-- The text of a number has no other characters than numbers have. -/
theorem Written.isNumeric_of_mem_chars {a : Json α} (hreal : Legible real) (h : a.Written real)
    (hkind : a.kind = .number) : ∀ c ∈ a.chars char real, isNumeric c = true := by
  cases h with
  | natural n =>
    intro c hc
    rw [chars] at hc
    rw [isNumeric, isDigit_of_mem_repr hc, Bool.true_or]
  | real htext =>
    rw [chars, htext]
    exact hreal.numeric htext
  | null | string | array | object => cases hkind

/-- The text of a number tells the number, and whether it is natural or real. -/
theorem Written.eq_of_chars_eq_of_kind {a b : Json α} (hreal : Legible real) (ha : a.Written real)
    (hb : b.Written real) (hkind : a.kind = .number) (hother : b.kind = .number)
    (h : a.chars char real = b.chars char real) : a = b := by
  have hmixed : ∀ {n : Nat} {x : α} {text : List Char}, real x = some text →
      (Nat.repr n).toList ≠ text := by
    rintro n x _ htext rfl
    obtain ⟨c, hc, hdigit⟩ := hreal.fractional htext
    rw [isDigit_of_mem_repr hc] at hdigit
    cases hdigit
  cases ha with
  | natural n =>
    cases hb with
    | natural m =>
      rw [chars, chars, Nat.toList_repr, Nat.toList_repr] at h
      rw [← @Nat.ofDigitChars_ten_toDigits n, h, Nat.ofDigitChars_ten_toDigits]
    | real htext =>
      rw [chars, chars, htext] at h
      exact absurd h (hmixed htext)
    | null | string | array | object => cases hother
  | real htext =>
    cases hb with
    | natural m =>
      rw [chars, chars, htext] at h
      exact absurd h.symm (hmixed htext)
    | real hsecond =>
      rw [chars, chars, htext, hsecond] at h
      obtain rfl : _ = _ := h
      rw [hreal.injective htext hsecond]
    | null | string | array | object => cases hother
  | null | string | array | object => cases hkind

/-- The text of a value ends where the value does. -/
theorem Written.chars_append_inj {a b : Json α} (hchar : Readable char) (hreal : Legible real)
    (ha : a.Written real) (hb : b.Written real) {rest more : List Char} (hrest : Delimited rest)
    (hmore : Delimited more)
    (h : a.chars char real ++ rest = b.chars char real ++ more) : a = b ∧ rest = more := by
  have hkind : ∀ {a b : Json α}, a.Written real → b.Written real → ∀ {rest more},
      a.chars char real ++ rest = b.chars char real ++ more → a.kind = b.kind := by
    intro a b ha hb rest more h
    obtain ⟨c, text, htext, hc⟩ := ha.exists_chars_eq_cons hreal
    obtain ⟨d, other, hother, hd⟩ := hb.exists_chars_eq_cons hreal
    rw [htext, hother, List.cons_append, List.cons_append, List.cons.injEq] at h
    rw [← h.1, hc] at hd
    exact Option.some.inj hd
  have hnumber : ∀ {a b : Json α}, a.kind = .number → a.Written real → b.Written real →
      ∀ {rest more}, Delimited rest → Delimited more →
      a.chars char real ++ rest = b.chars char real ++ more → a = b ∧ rest = more := by
    intro a b hnumber ha hb rest more hrest hmore h
    have hother := (hkind ha hb h).symm.trans hnumber
    obtain ⟨hchars, hmore⟩ := append_inj_of_numeric (ha.isNumeric_of_mem_chars hreal hnumber)
      (hb.isNumeric_of_mem_chars hreal hother) hrest hmore h
    exact ⟨ha.eq_of_chars_eq_of_kind hreal hb hnumber hother hchars, hmore⟩
  induction ha generalizing b rest more with
  | null =>
    have hnull := hkind .null hb h
    cases hb <;> cases hnull
    exact ⟨rfl, List.append_cancel_left h⟩
  | natural n => exact hnumber rfl (.natural n) hb hrest hmore h
  | real htext => exact hnumber rfl (.real htext) hb hrest hmore h
  | string text =>
    have hstring := hkind (.string text) hb h
    cases hb <;> cases hstring
    obtain ⟨rfl, hrest⟩ := hchar.quote_append_inj h
    exact ⟨rfl, hrest⟩
  | array hitems ih =>
    have harray := hkind (.array hitems) hb h
    cases hb <;> cases harray
    next items hothers =>
      simp only [chars, itemChars_eq_intercalate, List.cons_append, List.append_assoc,
        List.nil_append, List.cons.injEq, true_and] at h
      obtain ⟨rfl, hrest⟩ := intercalate_append_inj (by decide) (by decide)
        (fun item hitem => (hitems item hitem).chars_append_ne hreal (by decide))
        (fun item hitem => (hothers item hitem).chars_append_ne hreal (by decide))
        (fun item hitem other hother rest more hrest hmore heq =>
          ih item hitem (hothers other hother) hrest hmore heq) h
      exact ⟨rfl, hrest⟩
  | object hfields ih =>
    have hobject := hkind (.object hfields) hb h
    cases hb <;> cases hobject
    next fields hothers =>
      simp only [chars, fieldChars_eq_intercalate, List.cons_append, List.append_assoc,
        List.nil_append, List.cons.injEq, true_and] at h
      obtain ⟨rfl, hrest⟩ := intercalate_append_inj (by decide) (by decide)
        (fun field hfield rest more => by simp [fieldText, quote])
        (fun field hfield rest more => by simp [fieldText, quote])
        (fun field hfield other hother rest more hrest hmore heq => by
          simp only [fieldText, List.append_assoc, List.cons_append] at heq
          obtain ⟨hname, hvalue⟩ := hchar.quote_append_inj heq
          obtain ⟨hfields, hrest⟩ := ih field hfield (hothers other hother) hrest hmore
            (List.cons.inj hvalue).2
          exact ⟨Prod.ext hname hfields, hrest⟩) h
      exact ⟨rfl, hrest⟩

/-- A document whose strings and real numbers can be read back can be told from its text. -/
theorem Written.eq_of_chars_eq {a b : Json α} (hchar : Readable char) (hreal : Legible real)
    (ha : a.Written real) (hb : b.Written real)
    (h : a.chars char real = b.chars char real) : a = b := by
  have hend : Delimited [] := by rintro c ⟨⟩
  rw [← List.append_nil (a.chars char real), ← List.append_nil (b.chars char real)] at h
  exact (ha.chars_append_inj hchar hreal hb hend hend h).1

end Schematic.Json
