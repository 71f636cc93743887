import Mathlib
import Schematic.Proofs.Switches
import Schematic.Proofs.Text.Trimming
import Schematic.Switches.Pair
import Schematic.Text.Letter

/-!
# The texts that set a switch

A text sets a switch if it is a letter, an equals sign and a word for a value, with any blanks
before and behind each of the three (`Sets`). Cutting the text at its first equals sign, trimming
both parts and folding the case of the second one reads these texts and refuses all others
(`readPair_follows_grammar`).
-/

namespace Schematic

open Text (Blanks)

/-! ### The grammar -/

namespace Switches

/-- The words for a value. -/
def words : Bool → List String
  | true => ["1", "true", "on"]
  | false => ["0", "false", "off"]

/-- The text is the word, with each letter in either case. -/
def Spells (text : List Char) (word : String) : Prop :=
  List.Forall₂ (fun c letter => c = letter ∨ c = letter.toUpper) text word.toList

/-- The text sets the switch to the value. -/
inductive Sets : List Char → Char → Bool → Prop where
  /-- A letter, which names the switch in either case, an equals sign and a word for the value, with
  blanks around each of them. -/
  | pair {first second third last text : List Char} {letter : Char} {word : String} {value : Bool} :
    letter.isAlpha = true → word ∈ words value → Spells text word →
    Blanks first → Blanks second → Blanks third → Blanks last →
      Sets (first ++ [letter] ++ second ++ '=' :: (third ++ text ++ last)) letter.toUpper value

variable {text : List Char} {name : Char} {value : Bool}

/-! ### The name -/

/-- A text names a switch if it is a letter between blanks. -/
theorem name?_eq_some_iff :
    name? text = some name ↔ ∃ before after letter, Blanks before ∧ Blanks after ∧
      letter.isAlpha = true ∧ letter.toUpper = name ∧ text = before ++ [letter] ++ after := by
  have htrim : name? text = some name ↔
      ∃ letter, Text.trim text = [letter] ∧ letter.isAlpha = true ∧ letter.toUpper = name := by
    rw [name?]
    split
    · next letter htext => simp [htext]
    · next hother => simpa using fun letter htext => (hother letter htext).elim
  rw [htrim]
  constructor
  · rintro ⟨letter, htext, halpha, hname⟩
    obtain ⟨before, after, hbefore, hafter, heq⟩ := Text.exists_blanks_around text
    exact ⟨before, after, letter, hbefore, hafter, halpha, hname, htext ▸ heq⟩
  · rintro ⟨before, after, letter, hbefore, hafter, halpha, hname, rfl⟩
    refine ⟨letter, Text.trim_append hbefore ?_ hafter, halpha, hname⟩
    exact List.forall_mem_singleton.2 (Text.isBlank_eq_false_of_isAlpha halpha)

/-! ### The value -/

/-- A character that is no capital letter is what its two cases are folded to. -/
theorem toLower_eq_iff {c letter : Char} (h : letter.isUpper = false) :
    c.toLower = letter ↔ c = letter ∨ c = letter.toUpper := by
  constructor
  · rintro rfl
    cases hupper : c.isUpper with
    | true => exact .inr (by rw [Char.toUpper_toLower_eq_toUpper, Text.toUpper_of_isUpper hupper])
    | false => exact .inl (Char.toLower_eq_of_not_isUpper (by simp [hupper])).symm
  · have hself : letter.toLower = letter := Char.toLower_eq_of_not_isUpper (by simp [h])
    rintro (rfl | rfl)
    · exact hself
    · rw [Char.toLower_toUpper_eq_toLower, hself]

/-- Folding the case gives a word without capital letters if the text is that word. -/
theorem map_toLower_eq_iff {word : String} (h : ∀ letter ∈ word.toList, letter.isUpper = false) :
    text.map Char.toLower = word.toList ↔ Spells text word := by
  rw [Spells]
  generalize word.toList = letters at h ⊢
  induction letters generalizing text with
  | nil => rw [List.map_eq_nil_iff, List.forall₂_nil_right_iff]
  | cons letter letters ih =>
    obtain ⟨hletter, hletters⟩ := List.forall_mem_cons.1 h
    rw [List.map_eq_cons_iff, List.forall₂_cons_right_iff]
    simp only [toLower_eq_iff hletter, ih hletters]
    grind

/-- The words have no capital letters and no blanks, also if they are spelled in capitals. -/
theorem letters_of_mem_words {word : String} (h : word ∈ words value) :
    ∀ letter ∈ word.toList, letter.isUpper = false ∧
      Text.isBlank letter = false ∧ Text.isBlank letter.toUpper = false := by
  cases value <;> simp only [words, List.mem_cons, List.not_mem_nil, or_false] at h <;>
    rcases h with rfl | rfl | rfl <;> simp <;> decide

/-- What spells a word has no blanks. -/
theorem isBlank_of_spells {word : String} (hword : word ∈ words value) (h : Spells text word) :
    ∀ c ∈ text, Text.isBlank c = false := by
  have hletters := letters_of_mem_words hword
  rw [Spells] at h
  generalize word.toList = letters at h hletters
  induction h with
  | nil => exact List.forall_mem_nil _
  | cons hcase _ ih =>
    obtain ⟨⟨-, hlower, hupper⟩, hrest⟩ := List.forall_mem_cons.1 hletters
    refine List.forall_mem_cons.2 ⟨?_, ih hrest⟩
    rcases hcase with rfl | rfl
    · exact hlower
    · exact hupper

/-- A text names a value if it is a word for it between blanks. -/
theorem value?_eq_some_iff :
    value? text = some value ↔ ∃ before after middle word, Blanks before ∧ Blanks after ∧
      word ∈ words value ∧ Spells middle word ∧ text = before ++ middle ++ after := by
  have hfolded : value? text = some value ↔
      String.ofList ((Text.trim text).map Char.toLower) ∈ words value := by
    rw [value?]
    cases value <;> split <;> simp_all [words]
  have hspelled : ∀ word ∈ words value,
      (Text.trim text).map Char.toLower = word.toList ↔ Spells (Text.trim text) word :=
    fun word hword => map_toLower_eq_iff fun letter hletter =>
      (letters_of_mem_words hword letter hletter).1
  have htrim : value? text = some value ↔
      ∃ word ∈ words value, Spells (Text.trim text) word := by
    rw [hfolded]
    constructor
    · intro hword
      exact ⟨_, hword, (hspelled _ hword).1 String.toList_ofList.symm⟩
    · rintro ⟨word, hword, hspells⟩
      rwa [(hspelled word hword).2 hspells, String.ofList_toList]
  rw [htrim]
  constructor
  · rintro ⟨word, hword, hspells⟩
    obtain ⟨before, after, hbefore, hafter, heq⟩ := Text.exists_blanks_around text
    exact ⟨before, after, _, word, hbefore, hafter, hword, hspells, heq⟩
  · rintro ⟨before, after, middle, word, hbefore, hafter, hword, hspells, rfl⟩
    refine ⟨word, hword, ?_⟩
    rwa [Text.trim_append hbefore (isBlank_of_spells hword hspells) hafter]

/-! ### The first equals sign -/

/-- A text is cut at its first equals sign. -/
theorem pair?_append {left right : List Char} (hleft : '=' ∉ left) :
    pair? (left ++ '=' :: right) =
      (name? left).bind fun name => (value? right).map fun value => (name, value) := by
  have hother : ∀ c ∈ left, decide (c ≠ '=') = true := by
    intro c hc
    simpa using ne_of_mem_of_not_mem hc hleft
  have hkept : (left ++ '=' :: right).takeWhile (· ≠ '=') = left := by
    rw [List.takeWhile_append_of_pos hother, List.takeWhile_cons_of_neg (by simp), List.append_nil]
  have hrest : (left ++ '=' :: right).dropWhile (· ≠ '=') = '=' :: right := by
    rw [List.dropWhile_append_of_pos hother, List.dropWhile_cons_of_neg (by simp)]
  simp only [pair?, hkept, hrest]
  cases name? left <;> cases value? right <;> rfl

/-- A text without an equals sign sets nothing. -/
theorem pair?_eq_none_of_notMem (h : '=' ∉ text) : pair? text = none := by
  have hrest : text.dropWhile (· ≠ '=') = [] := by
    rw [List.dropWhile_eq_nil_iff]
    intro c hc
    simpa using ne_of_mem_of_not_mem hc h
  simp only [pair?, hrest]

/-- What stands before the first equals sign names the switch, and what stands behind it the
value. -/
theorem pair?_eq_some_iff :
    pair? text = some (name, value) ↔ ∃ left right, text = left ++ '=' :: right ∧ '=' ∉ left ∧
      name? left = some name ∧ value? right = some value := by
  constructor
  · intro h
    by_cases hsign : '=' ∈ text
    · obtain ⟨left, right, rfl, hleft⟩ := List.eq_append_cons_of_mem hsign
      rw [pair?_append hleft] at h
      simp only [Option.bind_eq_some_iff, Option.map_eq_some_iff, Prod.mk.injEq] at h
      obtain ⟨_, hname, _, hvalue, rfl, rfl⟩ := h
      exact ⟨left, right, rfl, hleft, hname, hvalue⟩
    · rw [pair?_eq_none_of_notMem hsign] at h
      cases h
  · rintro ⟨left, right, rfl, hleft, hname, hvalue⟩
    rw [pair?_append hleft, hname, hvalue]
    rfl

/-! ### Reading -/

theorem sign_notMem_of_blanks (h : Blanks text) : '=' ∉ text := by
  intro hsign
  have hblank := h _ hsign
  revert hblank
  decide

/-- The texts that are read are those of the grammar. -/
theorem pair?_eq_some_iff_sets : pair? text = some (name, value) ↔ Sets text name value := by
  rw [pair?_eq_some_iff]
  constructor
  · rintro ⟨left, right, rfl, -, hname, hvalue⟩
    obtain ⟨first, second, letter, hfirst, hsecond, halpha, rfl, rfl⟩ := name?_eq_some_iff.1 hname
    obtain ⟨third, last, text, word, hthird, hlast, hword, hspells, rfl⟩ :=
      value?_eq_some_iff.1 hvalue
    exact .pair halpha hword hspells hfirst hsecond hthird hlast
  · rintro ⟨halpha, hword, hspells, hfirst, hsecond, hthird, hlast⟩
    refine ⟨_, _, rfl, ?_, name?_eq_some_iff.2 ⟨_, _, _, hfirst, hsecond, halpha, rfl, rfl⟩,
      value?_eq_some_iff.2 ⟨_, _, _, _, hthird, hlast, hword, hspells, rfl⟩⟩
    rw [List.mem_append, List.mem_append, List.mem_singleton]
    rintro ((hsign | rfl) | hsign)
    · exact sign_notMem_of_blanks hfirst hsign
    · revert halpha
      decide
    · exact sign_notMem_of_blanks hsecond hsign

theorem Sets.toUpper_name (h : Sets text name value) : name.toUpper = name := by
  cases h
  exact Text.toUpper_toUpper _

/-- A text gives one switch one value. -/
theorem Sets.unique {other : Char} {otherValue : Bool} (h : Sets text name value)
    (hother : Sets text other otherValue) : other = name ∧ otherValue = value := by
  rw [← pair?_eq_some_iff_sets] at h hother
  rw [h] at hother
  cases hother
  exact ⟨rfl, rfl⟩

theorem readPair_eq_ok_iff {text : String} {pair : Char × Bool} :
    readPair text = .ok pair ↔ Sets text.toList pair.1 pair.2 := by
  rw [← pair?_eq_some_iff_sets, readPair]
  cases pair? text.toList <;> simp

theorem readPair_eq_error_iff {text : String} {error : Error} :
    readPair text = .error error ↔
      error = .invalidAssignment text ∧ ∀ name value, ¬ Sets text.toList name value := by
  simp only [← pair?_eq_some_iff_sets, readPair]
  cases pair? text.toList <;> simp [Prod.ext_iff, eq_comm]

/-- **The texts that are read are those of the grammar, with the switch and the value that it gives
them, and every other text is refused with an error that shows it.** -/
theorem readPair_follows_grammar (text : String) :
    (∀ name value, readPair text = .ok (name, value) ↔ Sets text.toList name value) ∧
      ∀ error, readPair text = .error error ↔
        error = .invalidAssignment text ∧ ∀ name value, ¬ Sets text.toList name value := by
  exact ⟨fun name value => readPair_eq_ok_iff, fun error => readPair_eq_error_iff⟩

/-! ### Several texts -/

/-- The text is the first one that sets no switch. -/
inductive FirstRefused (refused : String) : List String → Prop where
  /-- It comes first. -/
  | here {texts : List String} : (∀ name value, ¬ Sets refused.toList name value) →
    FirstRefused refused (refused :: texts)
  /-- It comes behind one that sets a switch. -/
  | later {text : String} {texts : List String} {name : Char} {value : Bool} :
    Sets text.toList name value → FirstRefused refused texts → FirstRefused refused (text :: texts)

/-- The last of the texts that set the switch, in either case, gives it the value. -/
inductive LastSet (name : Char) (value : Bool) : List String → Prop where
  /-- The first text gives the value, and no other one sets the switch. -/
  | here {text : String} {texts : List String} : Sets text.toList name.toUpper value →
    (∀ later ∈ texts, ∀ other, ¬ Sets later.toList name.toUpper other) →
    LastSet name value (text :: texts)
  /-- The last text that sets the switch comes later. -/
  | later {text : String} {texts : List String} :
    LastSet name value texts → LastSet name value (text :: texts)

/-- Several texts are read if each of them is. -/
theorem mapM_readPair_eq_ok_iff {texts : List String} {pairs : List (Char × Bool)} :
    texts.mapM readPair = .ok pairs ↔
      List.Forall₂ (fun text pair => Sets text.toList pair.1 pair.2) texts pairs := by
  simp only [← readPair_eq_ok_iff]
  induction texts generalizing pairs with
  | nil => simp [pure, Except.pure, eq_comm]
  | cons text texts ih =>
    rw [List.mapM_cons, List.forall₂_cons_left_iff]
    simp only [← ih]
    cases readPair text with
    | error error => simp [bind, Except.bind]
    | ok pair => cases texts.mapM readPair <;> simp [bind, Except.bind, pure, Except.pure, eq_comm]

/-- The first text that is refused is the error. -/
theorem mapM_readPair_eq_error_iff {texts : List String} {error : Error} :
    texts.mapM readPair = .error error ↔
      ∃ text, FirstRefused text texts ∧ error = .invalidAssignment text := by
  induction texts with
  | nil =>
    constructor
    · intro h
      cases h
    · rintro ⟨-, ⟨⟩, -⟩
  | cons text texts ih =>
    rw [List.mapM_cons]
    cases hfirst : readPair text with
    | error other =>
      obtain ⟨rfl, hnone⟩ := readPair_eq_error_iff.1 hfirst
      constructor
      · rintro ⟨⟩
        exact ⟨text, .here hnone, rfl⟩
      · rintro ⟨refused, (- | ⟨hsets, -⟩), rfl⟩
        · rfl
        · exact absurd hsets (hnone _ _)
    | ok pair =>
      have hsets : Sets text.toList pair.1 pair.2 := readPair_eq_ok_iff.1 hfirst
      have hrest : (Except.ok pair >>= fun pair => texts.mapM readPair >>= fun pairs =>
          pure (pair :: pairs)) = .error error ↔ texts.mapM readPair = .error error := by
        cases texts.mapM readPair <;> simp [bind, Except.bind, pure, Except.pure]
      rw [hrest, ih]
      constructor
      · rintro ⟨refused, hrefused, rfl⟩
        exact ⟨refused, .later hsets hrefused, rfl⟩
      · rintro ⟨refused, (hnone | ⟨-, hrefused⟩), rfl⟩
        · exact absurd hsets (hnone _ _)
        · exact ⟨refused, hrefused, rfl⟩

theorem lastSet_cons_iff {text : String} {texts : List String} :
    LastSet name value (text :: texts) ↔ LastSet name value texts ∨
      Sets text.toList name.toUpper value ∧
        ∀ later ∈ texts, ∀ other, ¬ Sets later.toList name.toUpper other := by
  constructor
  · rintro (⟨hsets, hnone⟩ | hlater)
    · exact .inr ⟨hsets, hnone⟩
    · exact .inl hlater
  · rintro (hlater | ⟨hsets, hnone⟩)
    · exact .later hlater
    · exact .here hsets hnone

/-- Pairs that are stored one after the other leave the value of the last one with the name, and the
value that is there if there is none. -/
theorem get?_foldl_set {texts : List String} {pairs : List (Char × Bool)}
    (h : List.Forall₂ (fun text pair => Sets text.toList pair.1 pair.2) texts pairs)
    (switches : Switches) :
    (pairs.foldl (fun switches pair => switches.set pair.1 pair.2) switches).get? name =
        some value ↔
      LastSet name value texts ∨
        (∀ text ∈ texts, ∀ other, ¬ Sets text.toList name.toUpper other) ∧
          switches.get? name = some value := by
  induction h generalizing switches with
  | nil =>
    rw [List.foldl_nil]
    constructor
    · intro hvalue
      exact .inr ⟨List.forall_mem_nil _, hvalue⟩
    · rintro (⟨⟨⟩⟩ | ⟨-, hvalue⟩)
      exact hvalue
  | @cons text pair texts pairs hsets _ ih =>
    rw [List.foldl_cons, ih, get?_set, hsets.toUpper_name, lastSet_cons_iff, List.forall_mem_cons,
      or_assoc]
    apply or_congr_right
    by_cases hname : name.toUpper = pair.1
    · have hgiven : Sets text.toList name.toUpper pair.2 := by rwa [hname]
      have hvalue : Sets text.toList name.toUpper value ↔ pair.2 = value := by
        constructor
        · intro hother
          exact (hother.unique hgiven).2
        · rintro rfl
          exact hgiven
      have hsome : ¬ ∀ other, ¬ Sets text.toList name.toUpper other := fun hnone =>
        hnone pair.2 hgiven
      simp only [hvalue, hsome, if_pos hname, Option.some.injEq, false_and, or_false, and_comm]
    · have hnone : ∀ other, ¬ Sets text.toList name.toUpper other := by
        intro other hother
        exact hname (hsets.unique hother).1
      simp only [hnone, if_neg hname, false_and, false_or, not_false_eq_true, implies_true,
        true_and]

/-- The table of the pairs that texts name has the value of the last one for every switch. -/
theorem get?_ofList_eq_some_iff {texts : List String} {pairs : List (Char × Bool)}
    (h : texts.mapM readPair = .ok pairs) :
    (ofList pairs).get? name = some value ↔ LastSet name value texts := by
  rw [ofList, get?_foldl_set (mapM_readPair_eq_ok_iff.1 h)]
  simp [empty, get?]

end Switches

end Schematic
