import CaliforniaPoker.Card.Reading
import CaliforniaPoker.Proofs.Text.Words
import Mathlib.Data.List.Forall2

/-!
# What card lists say

A list of cards is a text whose words are cards, each of them a spelling of its rank followed by one
of its suit; a list of entries may have asterisks for wilds among them. This file states which words
stand for which cards without reference to a reader, and shows that the readers accept exactly the
lists of such words: they return what the words stand for, in order, or complain about the first
word that stands for nothing. So a list can be written in any of the spellings, with any blanks
between its words and around them, and is read as it was meant.

## Main definitions

* `Rank.spellings`, `Suit.spellings`: the characters that stand for a rank and for a suit.
* `IsCardText`, `IsEntryText`: the words that stand for a card and for an entry.
* `IsReader`: a reader of single texts that trims them and cites those it refuses.
* `IsReading`: the outcome of reading words one after another.

## Main results

* `Rank.ofChar?_eq_some_iff`, `Suit.ofChar?_eq_some_iff`: a character is read as what it spells.
* `IsReader.isReading_mapM`: words are read until the first one that stands for nothing.
* `readHandCards_grammar`: the texts that are lists, and what is read from them.
* `readHandCards_handCardsText`, `readCards_cardsText`: a line of a list is read as the list.
-/

namespace CaliforniaPoker

/-! ### Spellings of ranks and suits -/

/-- The characters that stand for a rank. -/
def Rank.spellings : Rank → List Char
  | two => ['2']
  | three => ['3']
  | four => ['4']
  | five => ['5']
  | six => ['6']
  | seven => ['7']
  | eight => ['8']
  | nine => ['9']
  | ten => ['T', 't']
  | jack => ['J', 'j']
  | queen => ['Q', 'q']
  | king => ['K', 'k']
  | ace => ['A', 'a']

/-- The characters that stand for a suit. -/
def Suit.spellings : Suit → List Char
  | spades => ['♠', 'S', 's']
  | hearts => ['♥', 'H', 'h']
  | diamonds => ['♦', 'D', 'd']
  | clubs => ['♣', 'C', 'c']

theorem Rank.symbol_mem_spellings (r : Rank) : r.symbol ∈ r.spellings := by cases r <;> decide

theorem Suit.symbol_mem_spellings (s : Suit) : s.symbol ∈ s.spellings := by cases s <;> decide

theorem Rank.isBlank_of_mem_spellings (r : Rank) : ∀ c ∈ r.spellings, isBlank c = false := by
  cases r <;> simp [spellings, isBlank]

theorem Suit.isBlank_of_mem_spellings (s : Suit) : ∀ c ∈ s.spellings, isBlank c = false := by
  cases s <;> simp [spellings, isBlank]

/-- A character in upper case is the one it was, or that one in lower case. -/
theorem eq_or_eq_toLower_of_toUpper_eq {c upper : Char} (h : c.toUpper = upper) :
    c = upper ∨ c = upper.toLower := by
  subst h
  delta Char.toUpper
  split_ifs with hlower
  · right
    have hupper : 'A'.val ≤ c.val + ('A'.val - 'a'.val) ∧
        c.val + ('A'.val - 'a'.val) ≤ 'Z'.val := by grind
    delta Char.toLower
    rw [dif_pos hupper]
    apply Char.ext
    change c.val = c.val + ('A'.val - 'a'.val) + ('a'.val - 'A'.val)
    grind
  · exact .inl rfl

/-- A character is read as a rank if it spells the rank. -/
theorem Rank.ofChar?_eq_some_iff {c : Char} {r : Rank} :
    ofChar? c = some r ↔ c ∈ r.spellings := by
  constructor
  · intro h
    have hsymbol : c.toUpper = r.symbol := by
      unfold ofChar? at h
      split at h <;> cases h <;> assumption
    rcases eq_or_eq_toLower_of_toUpper_eq hsymbol with rfl | rfl
    · exact r.symbol_mem_spellings
    · cases r <;> decide
  · revert c
    cases r <;> simp [spellings, ofChar?]

/-- A character is read as a suit if it spells the suit. -/
theorem Suit.ofChar?_eq_some_iff {c : Char} {s : Suit} :
    ofChar? c = some s ↔ c ∈ s.spellings := by
  constructor
  · intro h
    unfold ofChar? at h
    split at h <;> cases h <;> decide
  · revert c
    cases s <;> simp [spellings, ofChar?]

/-! ### Texts of cards and entries -/

/-- The words that stand for a card: a spelling of its rank, then one of its suit. -/
def IsCardText (run : List Char) (card : Card) : Prop :=
  ∃ rank ∈ card.rank.spellings, ∃ suit ∈ card.suit.spellings, run = [rank, suit]

/-- The words that stand for an entry: those of its card, or the asterisk for a wild. -/
def IsEntryText (run : List Char) : HandCard → Prop
  | .natural card => IsCardText run card
  | .wild => run = ['*']

variable {run : List Char} {runs : List (List Char)} {card : Card} {entry : HandCard}

theorem IsCardText.isWord (h : IsCardText run card) : IsWord run := by
  obtain ⟨rank, hrank, suit, hsuit, rfl⟩ := h
  refine ⟨List.cons_ne_nil rank [suit],
    List.forall_mem_cons.mpr ⟨?_, List.forall_mem_singleton.mpr ?_⟩⟩
  · exact card.rank.isBlank_of_mem_spellings rank hrank
  · exact card.suit.isBlank_of_mem_spellings suit hsuit

theorem IsEntryText.isWord (h : IsEntryText run entry) : IsWord run := by
  cases entry with
  | natural card => exact IsCardText.isWord h
  | wild =>
    obtain rfl := h
    simp [IsWord, isBlank]

theorem not_isCardText_asterisk : ¬ IsCardText ['*'] card := by
  rintro ⟨rank, -, suit, -, h⟩
  cases h

/-- The text by which a card is shown stands for it. -/
theorem isCardText_text (card : Card) : IsCardText card.text.toList card :=
  ⟨card.rank.symbol, card.rank.symbol_mem_spellings, card.suit.symbol,
    card.suit.symbol_mem_spellings, by rw [Card.text, String.toList_ofList]⟩

theorem isEntryText_text (entry : HandCard) : IsEntryText entry.text.toList entry := by
  cases entry with
  | natural card => exact isCardText_text card
  | wild => rfl

theorem Card.ofChars?_eq_some_iff : Card.ofChars? run = some card ↔ IsCardText run card := by
  constructor
  · intro h
    unfold Card.ofChars? at h
    split at h
    · next r s =>
      split at h
      · next rank suit hrank hsuit =>
        obtain rfl := Option.some.inj h
        exact ⟨r, Rank.ofChar?_eq_some_iff.mp hrank, s, Suit.ofChar?_eq_some_iff.mp hsuit, rfl⟩
      · cases h
    · cases h
  · rintro ⟨r, hr, s, hs, rfl⟩
    rw [Card.ofChars?, Rank.ofChar?_eq_some_iff.mpr hr, Suit.ofChar?_eq_some_iff.mpr hs]

/-! ### Readers of single texts -/

section Readers

variable {α : Type}

/-- A reader takes a text for what the text stands for without the blanks around it. A text that
stands for nothing is cited as it was given. -/
structure IsReader (isText : List Char → α → Prop) (read : String → Except CardDefect α) :
    Prop where
  isWord {run : List Char} {value : α} (h : isText run value) : IsWord run
  ok_iff {text : String} {value : α} : read text = .ok value ↔ isText (trim text.toList) value
  defect_eq {text : String} {defect : CardDefect} (h : read text = .error defect) :
    defect = .unreadable text

/-- The outcome of reading words one after another: what all of them stand for, or the citation of
the first one that stands for nothing. -/
structure IsReading (isText : List Char → α → Prop) (runs : List (List Char))
    (outcome : Except CardDefect (List α)) : Prop where
  ok_iff (values : List α) : outcome = .ok values ↔ List.Forall₂ isText runs values
  error_iff (defect : CardDefect) : outcome = .error defect ↔
    ∃ before run after, runs = before ++ run :: after ∧
      (∀ earlier ∈ before, ∃ value, isText earlier value) ∧ (∀ value, ¬ isText run value) ∧
      defect = .unreadable (String.ofList run)

end Readers

theorem Card.isReader_read : IsReader IsCardText Card.read where
  isWord := IsCardText.isWord
  ok_iff {text card} := by
    rw [← Card.ofChars?_eq_some_iff, Card.read]
    split <;> simp_all
  defect_eq {text defect} h := by
    rw [Card.read] at h
    split at h
    · cases h
    · exact (Except.error.inj h).symm

theorem HandCard.isReader_read : IsReader IsEntryText HandCard.read where
  isWord := IsEntryText.isWord
  ok_iff {text entry} := by
    rw [HandCard.read]
    split_ifs with hwild
    · rw [hwild]
      cases entry with
      | natural card => simp [IsEntryText, not_isCardText_asterisk]
      | wild => simp [IsEntryText]
    · cases entry with
      | natural card =>
        rw [IsEntryText, ← Card.isReader_read.ok_iff]
        cases Card.read text <;> simp [Except.map]
      | wild =>
        rw [IsEntryText, iff_false_right hwild]
        cases Card.read text <;> simp [Except.map]
  defect_eq {text defect} h := by
    rw [HandCard.read] at h
    split_ifs at h
    cases hread : Card.read text with
    | ok card =>
      rw [hread] at h
      cases h
    | error defect' =>
      rw [hread] at h
      obtain rfl := Except.error.inj h
      exact Card.isReader_read.defect_eq hread

/-! ### Readers of lists -/

section Lists

variable {ε α β : Type} {f : α → Except ε β} {xs : List α}

/-- A list is mapped to the list of what each of its elements is mapped to. -/
theorem mapM_eq_ok_iff_forall₂ {ys : List β} :
    xs.mapM f = .ok ys ↔ List.Forall₂ (fun x y => f x = .ok y) xs ys := by
  induction xs generalizing ys with
  | nil => simp [pure, Except.pure, eq_comm]
  | cons x xs ih =>
    rw [List.mapM_cons, List.forall₂_cons_left_iff]
    cases hx : f x with
    | error e => simp [bind, Except.bind]
    | ok y =>
      cases hxs : xs.mapM f with
      | error e => simp [bind, Except.bind, ← ih, hxs]
      | ok rest => simp [bind, Except.bind, pure, Except.pure, ← ih, hxs, eq_comm]

/-- The element that comes after elements with a property is the first one, or the first one has the
property and the element is in the rest. -/
theorem exists_split_cons_iff {p q : α → Prop} {x : α} :
    (∃ before y after, x :: xs = before ++ y :: after ∧ (∀ a ∈ before, p a) ∧ q y) ↔
      q x ∨ p x ∧ ∃ before y after, xs = before ++ y :: after ∧ (∀ a ∈ before, p a) ∧ q y := by
  constructor
  · rintro ⟨before, y, after, hsplit, hbefore, hy⟩
    cases before with
    | nil =>
      obtain ⟨rfl, -⟩ := List.cons.inj hsplit
      exact .inl hy
    | cons b before =>
      obtain ⟨rfl, rfl⟩ := List.cons.inj hsplit
      obtain ⟨hx, hbefore⟩ := List.forall_mem_cons.mp hbefore
      exact .inr ⟨hx, before, y, after, rfl, hbefore, hy⟩
  · rintro (hx | ⟨hx, before, y, after, rfl, hbefore, hy⟩)
    · exact ⟨[], x, xs, rfl, nofun, hx⟩
    · exact ⟨x :: before, y, after, rfl, List.forall_mem_cons.mpr ⟨hx, hbefore⟩, hy⟩

/-- Mapping a list fails at its first element that fails. -/
theorem mapM_eq_error_iff {e : ε} :
    xs.mapM f = .error e ↔ ∃ before x after, xs = before ++ x :: after ∧
      (∀ a ∈ before, ∃ b, f a = .ok b) ∧ f x = .error e := by
  induction xs with
  | nil => simp [pure, Except.pure]
  | cons x xs ih =>
    rw [List.mapM_cons, exists_split_cons_iff, ← ih]
    cases f x with
    | error e' => simp [bind, Except.bind]
    | ok y => cases xs.mapM f <;> simp [bind, Except.bind, pure, Except.pure]

end Lists

namespace IsReader

variable {α : Type} {isText : List Char → α → Prop} {read : String → Except CardDefect α}
  {values : List α} {core : List Char} {text : String}

theorem ok_iff_of_isWord (h : IsReader isText read) (hrun : IsWord run) {value : α} :
    read (String.ofList run) = .ok value ↔ isText run value := by
  rw [h.ok_iff, String.toList_ofList, trim_eq_of_padded hrun.2 (Padded.refl run)]

theorem error_iff_of_isWord (h : IsReader isText read) (hrun : IsWord run)
    {defect : CardDefect} : read (String.ofList run) = .error defect ↔
      (∀ value, ¬ isText run value) ∧ defect = .unreadable (String.ofList run) := by
  constructor
  · intro herror
    refine ⟨fun value hvalue => ?_, h.defect_eq herror⟩
    rw [(h.ok_iff_of_isWord hrun).mpr hvalue] at herror
    cases herror
  · rintro ⟨hnone, rfl⟩
    cases hread : read (String.ofList run) with
    | ok value => exact absurd ((h.ok_iff_of_isWord hrun).mp hread) (hnone value)
    | error defect => rw [h.defect_eq hread]

/-- Words are read until the first one that stands for nothing. -/
theorem isReading_mapM (h : IsReader isText read) (hruns : ∀ run ∈ runs, IsWord run) :
    IsReading isText runs (runs.mapM fun run => read (String.ofList run)) where
  ok_iff values := by
    rw [mapM_eq_ok_iff_forall₂]
    constructor
    · intro hread
      exact ((List.forall₂_and_left _ _).mpr ⟨hruns, hread⟩).imp fun _ _ ⟨hrun, hvalue⟩ =>
        (h.ok_iff_of_isWord hrun).mp hvalue
    · intro hvalues
      exact hvalues.imp fun _ _ hvalue => (h.ok_iff_of_isWord (h.isWord hvalue)).mpr hvalue
  error_iff defect := by
    rw [mapM_eq_error_iff]
    constructor
    · rintro ⟨before, run, after, rfl, hbefore, hrun⟩
      obtain ⟨hnone, rfl⟩ := (h.error_iff_of_isWord (hruns run (by simp))).mp hrun
      refine ⟨before, run, after, rfl, fun earlier hearlier => ?_, hnone, rfl⟩
      obtain ⟨value, hvalue⟩ := hbefore earlier hearlier
      exact ⟨value,
        (h.ok_iff_of_isWord (hruns earlier (List.mem_append_left _ hearlier))).mp hvalue⟩
    · rintro ⟨before, run, after, rfl, hbefore, hnone, rfl⟩
      refine ⟨before, run, after, rfl, fun earlier hearlier => ?_,
        (h.error_iff_of_isWord (hruns run (by simp))).mpr ⟨hnone, rfl⟩⟩
      obtain ⟨value, hvalue⟩ := hbefore earlier hearlier
      exact ⟨value, (h.ok_iff_of_isWord (h.isWord hvalue)).mpr hvalue⟩

/-- Words that stand for some values are read as these, however they are separated. -/
theorem mapM_words_eq_ok (h : IsReader isText read) (hvalues : List.Forall₂ isText runs values)
    (hjoined : IsJoined runs core) (hpadded : Padded core text.toList) :
    (words text.toList).mapM (fun run => read (String.ofList run)) = .ok values := by
  have hruns : ∀ run ∈ runs, IsWord run :=
    ((List.forall₂_and_left _ _).mp
      (hvalues.imp fun _ _ hvalue => ⟨h.isWord hvalue, hvalue⟩)).1
  rw [(hjoined.isSplit hruns hpadded).words_eq]
  exact ((h.isReading_mapM hruns).ok_iff values).mpr hvalues

/-- Values shown in one line are read back from it. -/
theorem mapM_words_intercalate (h : IsReader isText read) {shown : α → String}
    (hshown : ∀ value, isText (shown value).toList value) (values : List α) :
    (words (" ".intercalate (values.map shown)).toList).mapM
      (fun run => read (String.ofList run)) = .ok values := by
  have hvalues : List.Forall₂ isText ((values.map shown).map String.toList) values := by
    rw [List.map_map, List.forall₂_map_left_iff, List.forall₂_same]
    exact fun value _ => hshown value
  refine h.mapM_words_eq_ok hvalues (isJoined_intercalate _) ?_
  rw [String.toList_intercalate]
  exact Padded.refl _

end IsReader

theorem isReading_readCards (text : String) :
    IsReading IsCardText (words text.toList) (readCards text) :=
  Card.isReader_read.isReading_mapM (isSplit_words text.toList).isWord

theorem isReading_readHandCards (text : String) :
    IsReading IsEntryText (words text.toList) (readHandCards text) :=
  HandCard.isReader_read.isReading_mapM (isSplit_words text.toList).isWord

/-- **The grammar of card lists.** A text has one decomposition into words,
and each reader returns what all of them stand for or cites the first one that stands for nothing.
Conversely, words that stand for some entries are read as these with any blanks between them and
around them; the text by which an entry is shown is such a word. -/
theorem readHandCards_grammar (text : String) :
    (∃ runs, (∀ runs', IsSplit text.toList runs' ↔ runs' = runs) ∧
      IsReading IsEntryText runs (readHandCards text) ∧
      IsReading IsCardText runs (readCards text)) ∧
    (∀ runs core, IsJoined runs core → Padded core text.toList →
      (∀ entries, List.Forall₂ IsEntryText runs entries → readHandCards text = .ok entries) ∧
      ∀ cards, List.Forall₂ IsCardText runs cards → readCards text = .ok cards) ∧
    (∀ entry : HandCard, IsEntryText entry.text.toList entry) ∧
    ∀ card : Card, IsCardText card.text.toList card := by
  refine ⟨⟨words text.toList, fun runs' => ?_, isReading_readHandCards text,
    isReading_readCards text⟩, fun runs core hjoined hpadded => ⟨fun entries hentries => ?_,
    fun cards hcards => ?_⟩, isEntryText_text, isCardText_text⟩
  · rw [← words_eq_iff, eq_comm]
  · exact HandCard.isReader_read.mapM_words_eq_ok hentries hjoined hpadded
  · exact Card.isReader_read.mapM_words_eq_ok hcards hjoined hpadded

/-- A text in which a tab and a line break separate the words. -/
theorem readHandCards_grammar_broken :
    readHandCards " tS\t*\n9♥ " = .ok
      [.natural { suit := .spades, rank := .ten }, .wild,
        .natural { suit := .hearts, rank := .nine }] := by
  have hjoined : IsJoined [['t', 'S'], ['*'], ['9', '♥']]
      (['t', 'S'] ++ ['\t'] ++ (['*'] ++ ['\n'] ++ ['9', '♥'])) :=
    .cons (by decide) (List.forall_mem_singleton.mpr rfl)
      (.cons (by decide) (List.forall_mem_singleton.mpr rfl) (.single _))
  refine ((readHandCards_grammar " tS\t*\n9♥ ").2.1 _ _ hjoined
    ⟨[' '], [' '], by decide, List.forall_mem_singleton.mpr rfl,
      List.forall_mem_singleton.mpr rfl⟩).1 _ ?_
  simp [IsEntryText, IsCardText, Rank.spellings, Suit.spellings]

/-- The line by which a list of entries is shown is read as the list. -/
theorem readHandCards_handCardsText (entries : List HandCard) :
    readHandCards (handCardsText entries) = .ok entries :=
  HandCard.isReader_read.mapM_words_intercalate isEntryText_text entries

theorem readCards_cardsText (cards : List Card) : readCards (cardsText cards) = .ok cards :=
  Card.isReader_read.mapM_words_intercalate isCardText_text cards

end CaliforniaPoker
