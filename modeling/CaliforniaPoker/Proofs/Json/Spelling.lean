import CaliforniaPoker.Proofs.Json.Scalar

/-!
# The texts from which JSON values are read

A value is written as a sequence of tokens: its brackets, commas, colons, literals and numbers. A
text of the value has these tokens in order, with blanks between them at will. This file shows that
a value is read from every text of its tokens, its compact text among them, and that a value with
one sequence of tokens only, such as an array of integers, is read from no other text.

## Main definitions

* `tokens`: the tokens of a value.
* `Spells`, `IsTextOf`: the texts that have given tokens.
* `OneSpelling`: the value is only read from texts of its tokens.

## Main results

* `parse?_of_isTextOf`: a value is read from the texts of its tokens.
* `parse?_render`: a value is read from its compact text.
* `oneSpelling_int`, `oneSpelling_array`: integers have one spelling, and so have arrays of values
  that have one.
* `OneSpelling.parse?_iff_isTextOf`: such a value is read from the texts of its tokens only.
-/

namespace CaliforniaPoker.Json

/-! ### Tokens -/

mutual

/-- The tokens of a value. -/
def tokens : Json → List (List Char)
  | null => [renderChars null]
  | bool value => [renderChars (bool value)]
  | int value => [value.repr.toList]
  | inexact => [renderChars inexact]
  | string text => [renderString text]
  | array items => ['['] :: (itemTokens items ++ [[']']])
  | object fields => ['{'] :: (fieldTokens fields ++ [['}']])

/-- The tokens of the items of an array. -/
def itemTokens : List Json → List (List Char)
  | [] => []
  | [item] => tokens item
  | item :: rest => tokens item ++ [','] :: itemTokens rest

/-- The tokens of the fields of an object. -/
def fieldTokens : List (Option String × Json) → List (List Char)
  | [] => []
  | [(name, value)] => renderString name :: [':'] :: tokens value
  | (name, value) :: rest =>
    renderString name :: [':'] :: (tokens value ++ [','] :: fieldTokens rest)

end

theorem itemTokens_cons_cons (item next : Json) (rest : List Json) :
    itemTokens (item :: next :: rest) = tokens item ++ [','] :: itemTokens (next :: rest) := rfl

theorem fieldTokens_cons_cons (name : Option String) (value : Json)
    (next : Option String × Json) (rest : List (Option String × Json)) :
    fieldTokens ((name, value) :: next :: rest) =
      renderString name :: [':'] :: (tokens value ++ [','] :: fieldTokens (next :: rest)) := rfl

/-- The tokens of items have a comma between those of one item and those of the next. -/
theorem itemTokens_eq_intercalate (items : List Json) :
    itemTokens items = [[',']].intercalate (items.map tokens) := by
  induction items with
  | nil => rfl
  | cons item items ih =>
    cases items with
    | nil => simp [itemTokens]
    | cons next rest =>
      rw [itemTokens_cons_cons, ih]
      simp [List.intercalate_cons_cons]

mutual

/-- The compact form of a value has its tokens one behind the other. -/
theorem flatten_tokens (j : Json) : (tokens j).flatten = renderChars j := by
  cases j with
  | array items => simp [tokens, renderChars, flatten_itemTokens items]
  | object fields => simp [tokens, renderChars, flatten_fieldTokens fields]
  | null | bool | int | inexact | string => exact List.append_nil _

theorem flatten_itemTokens (items : List Json) :
    (itemTokens items).flatten = renderItems items := by
  match items with
  | [] => rfl
  | [item] => rw [itemTokens, renderItems, flatten_tokens item]
  | item :: next :: rest =>
    simp [itemTokens_cons_cons, renderItems, flatten_tokens item, flatten_itemTokens (next :: rest)]

theorem flatten_fieldTokens (fields : List (Option String × Json)) :
    (fieldTokens fields).flatten = renderFields fields := by
  match fields with
  | [] => rfl
  | [(name, value)] => simp [fieldTokens, renderFields, flatten_tokens value]
  | (name, value) :: next :: rest =>
    simp [fieldTokens_cons_cons, renderFields, flatten_tokens value,
      flatten_fieldTokens (next :: rest)]

end

/-- A value begins with a character that is neither blank nor a closing bracket. -/
theorem exists_tokens_eq (j : Json) : ∃ c cs tail, tokens j = (c :: cs) :: tail ∧
    isBlank c = false ∧ c ≠ ']' := by
  cases j with
  | int v =>
    obtain ⟨c, cs, hv, hc⟩ := exists_toList_repr_eq v
    exact ⟨c, cs, [], by rw [tokens, hv], isBlank_of_startsNumber hc, ne_of_startsNumber hc rfl⟩
  | bool b => cases b <;> exact ⟨_, _, _, rfl, by decide⟩
  | string text =>
    obtain ⟨body, hbody, -⟩ := readString_renderString text
    exact ⟨_, _, _, by rw [tokens, hbody], by decide⟩
  | null | inexact | array | object => exact ⟨_, _, _, rfl, by decide⟩

theorem exists_itemTokens_eq {items : List Json} (hne : items ≠ []) :
    ∃ c cs tail, itemTokens items ++ [[']']] = (c :: cs) :: tail ∧
      isBlank c = false ∧ c ≠ ']' := by
  match items with
  | [item] =>
    obtain ⟨c, cs, tail, hitem, hc, hbracket⟩ := exists_tokens_eq item
    exact ⟨c, cs, _, by rw [itemTokens, hitem]; rfl, hc, hbracket⟩
  | item :: next :: items =>
    obtain ⟨c, cs, tail, hitem, hc, hbracket⟩ := exists_tokens_eq item
    exact ⟨c, cs, _, by rw [itemTokens_cons_cons, hitem]; rfl, hc, hbracket⟩

theorem exists_fieldTokens_eq {fields : List (Option String × Json)} (hne : fields ≠ []) :
    ∃ cs tail, fieldTokens fields ++ [['}']] = ('\x22' :: cs) :: tail := by
  match fields with
  | [(name, value)] =>
    obtain ⟨body, hbody, -⟩ := readString_renderString name
    exact ⟨body, _, by rw [fieldTokens, hbody]; rfl⟩
  | (name, value) :: next :: fields =>
    obtain ⟨body, hbody, -⟩ := readString_renderString name
    exact ⟨body, _, by rw [fieldTokens_cons_cons, hbody]; rfl⟩

/-! ### Texts of tokens -/

/-- A text has the given tokens in order, each with blanks before it or none. -/
inductive Spells : List (List Char) → List Char → Prop where
  | nil : Spells [] []
  | cons {blanks token text : List Char} {tokens : List (List Char)}
      (hblanks : ∀ c ∈ blanks, isBlank c = true) (h : Spells tokens text) :
      Spells (token :: tokens) (blanks ++ (token ++ text))

/-- A text has the given tokens, with blanks between and around them or none. -/
def IsTextOf (tokens : List (List Char)) (text : List Char) : Prop :=
  ∃ body after, text = body ++ after ∧ Spells tokens body ∧ ∀ c ∈ after, isBlank c = true

theorem spells_nil_iff {text : List Char} : Spells [] text ↔ text = [] :=
  ⟨fun h => by cases h; rfl, fun h => h ▸ .nil⟩

theorem spells_cons_iff {token text : List Char} {tokens : List (List Char)} :
    Spells (token :: tokens) text ↔ ∃ blanks tail, text = blanks ++ (token ++ tail) ∧
      (∀ c ∈ blanks, isBlank c = true) ∧ Spells tokens tail := by
  constructor
  · rintro (_ | ⟨hblanks, h⟩)
    exact ⟨_, _, rfl, hblanks, h⟩
  · rintro ⟨_, _, rfl, hblanks, h⟩
    exact .cons hblanks h

theorem spells_flatten (tokens : List (List Char)) : Spells tokens tokens.flatten := by
  induction tokens with
  | nil => exact .nil
  | cons token tokens ih =>
    rw [spells_cons_iff]
    exact ⟨[], _, rfl, nofun, ih⟩

theorem spells_append_iff {first second : List (List Char)} {text : List Char} :
    Spells (first ++ second) text ↔
      ∃ a b, text = a ++ b ∧ Spells first a ∧ Spells second b := by
  induction first generalizing text with
  | nil => simp [spells_nil_iff]
  | cons token first ih =>
    rw [List.cons_append, spells_cons_iff]
    constructor
    · rintro ⟨blanks, tail, rfl, hblanks, h⟩
      obtain ⟨a, b, rfl, ha, hb⟩ := ih.mp h
      exact ⟨_, b, by simp, .cons hblanks ha, hb⟩
    · rintro ⟨_, b, rfl, ha, hb⟩
      obtain ⟨blanks, a, rfl, hblanks, ha⟩ := spells_cons_iff.mp ha
      exact ⟨blanks, a ++ b, by simp, hblanks, ih.mpr ⟨a, b, rfl, ha, hb⟩⟩

theorem Spells.blanks_append {blanks text : List Char} {tokens : List (List Char)}
    (hblanks : ∀ c ∈ blanks, isBlank c = true) (h : Spells tokens text) (hne : tokens ≠ []) :
    Spells tokens (blanks ++ text) := by
  obtain ⟨token, tokens, rfl⟩ := List.exists_cons_of_ne_nil hne
  obtain ⟨blanks', tail, rfl, hblanks', h⟩ := spells_cons_iff.mp h
  rw [← List.append_assoc]
  exact .cons (List.forall_mem_append.mpr ⟨hblanks, hblanks'⟩) h

theorem Spells.length_pos {c : Char} {cs text : List Char} {tokens : List (List Char)}
    (h : Spells ((c :: cs) :: tokens) text) : 0 < text.length := by
  obtain ⟨blanks, tail, rfl, -, -⟩ := spells_cons_iff.mp h
  simp only [List.length_append, List.length_cons]
  omega

/-- Behind the blanks the text goes on with its first token. -/
theorem Spells.exists_skipBlanks {c : Char} {cs text : List Char} {tokens : List (List Char)}
    (h : Spells ((c :: cs) :: tokens) text) (hc : isBlank c = false) :
    ∃ tail, Spells tokens tail ∧ cs.length + tail.length < text.length ∧
      ∀ rest, skipBlanks (text ++ rest) = c :: (cs ++ (tail ++ rest)) := by
  obtain ⟨blanks, tail, rfl, hblanks, h⟩ := spells_cons_iff.mp h
  refine ⟨tail, h, by simp only [List.length_append, List.length_cons]; omega, fun rest => ?_⟩
  rw [skipBlanks, List.append_assoc, List.dropWhile_append_of_pos hblanks, List.append_assoc,
    List.cons_append, List.dropWhile_cons_of_neg (by simp [hc])]

theorem Spells.skipBlanks_append {c : Char} {cs text : List Char} (h : Spells [c :: cs] text)
    (hc : isBlank c = false) (rest : List Char) :
    skipBlanks (text ++ rest) = c :: (cs ++ rest) := by
  obtain ⟨tail, htail, -, hskip⟩ := h.exists_skipBlanks hc
  rw [hskip, spells_nil_iff.mp htail, List.nil_append]

theorem Spells.exists_cons_skipBlanks {c : Char} {cs text : List Char} {tokens : List (List Char)}
    (h : Spells ((c :: cs) :: tokens) text) (hc : isBlank c = false) :
    ∃ tail, Spells ((c :: cs) :: tokens) (c :: tail) ∧ tail.length < text.length ∧
      ∀ rest, skipBlanks (text ++ rest) = c :: (tail ++ rest) := by
  obtain ⟨tail, htail, hlt, hskip⟩ := h.exists_skipBlanks hc
  refine ⟨cs ++ tail, spells_cons_iff.mpr ⟨[], tail, rfl, nofun, htail⟩, ?_, fun rest => ?_⟩
  · rw [List.length_append]
    exact hlt
  · rw [hskip, List.append_assoc]

theorem continuesNumber_of_isBlank {c : Char} (h : isBlank c = true) :
    continuesNumber c = false := by
  simp only [isBlank, Bool.or_eq_true, beq_iff_eq] at h
  rcases h with ((rfl | rfl) | rfl) | rfl <;> decide

theorem EndsNumber.blanks_append {blanks rest : List Char}
    (hblanks : ∀ c ∈ blanks, isBlank c = true) (h : EndsNumber rest) :
    EndsNumber (blanks ++ rest) := by
  cases blanks with
  | nil => exact h
  | cons c blanks =>
    exact endsNumber_cons.mpr (continuesNumber_of_isBlank (hblanks c List.mem_cons_self))

theorem Spells.endsNumber {c : Char} {cs text : List Char} {tokens : List (List Char)}
    (h : Spells ((c :: cs) :: tokens) text) (hc : continuesNumber c = false) (rest : List Char) :
    EndsNumber (text ++ rest) := by
  obtain ⟨blanks, tail, rfl, hblanks, -⟩ := spells_cons_iff.mp h
  rw [List.append_assoc]
  exact EndsNumber.blanks_append hblanks (endsNumber_cons.mpr hc)

/-! ### Reading a text of the tokens -/

/-- With so many steps values, items and fields are read from all texts of their tokens that have no
more characters. A value must not be continued by what follows it, in case it ends in a number. -/
structure ReadsTokens (steps : Nat) : Prop where
  value {j : Json} {text rest : List Char} (h : Spells (tokens j) text) (hrest : EndsNumber rest)
    (hsteps : text.length ≤ steps) : readValue steps (text ++ rest) = some (j, rest)
  items {items : List Json} {text : List Char} (hne : items ≠ [])
    (h : Spells (itemTokens items ++ [[']']]) text) (hsteps : text.length ≤ steps)
    (rest : List Char) : readItems steps (text ++ rest) = some (items, rest)
  fields {fields : List (Option String × Json)} {text : List Char} (hne : fields ≠ [])
    (h : Spells (fieldTokens fields ++ [['}']]) text) (hsteps : text.length ≤ steps)
    (rest : List Char) : readFields steps (text ++ rest) = some (fields, rest)

theorem ReadsTokens.items_succ {steps : Nat} (ih : ReadsTokens steps) {items : List Json}
    {text : List Char} (hne : items ≠ []) (h : Spells (itemTokens items ++ [[']']]) text)
    (hsteps : text.length ≤ steps + 1) (rest : List Char) :
    readItems (steps + 1) (text ++ rest) = some (items, rest) := by
  match items with
  | [item] =>
    obtain ⟨a, b, rfl, ha, hb⟩ := spells_append_iff.mp h
    obtain ⟨tail, htail, hlt, hskip⟩ := hb.exists_skipBlanks (by decide)
    obtain rfl := spells_nil_iff.mp htail
    simp only [List.length_append] at hsteps hlt
    rw [readItems, List.append_assoc, ih.value ha (hb.endsNumber (by decide) rest) (by omega)]
    simp [hskip]
  | item :: next :: items =>
    rw [itemTokens_cons_cons, List.append_assoc, List.cons_append] at h
    obtain ⟨a, b, rfl, ha, hb⟩ := spells_append_iff.mp h
    obtain ⟨tail, htail, hlt, hskip⟩ := hb.exists_skipBlanks (by decide)
    simp only [List.length_append] at hsteps hlt
    rw [readItems, List.append_assoc, ih.value ha (hb.endsNumber (by decide) rest) (by omega)]
    simp [hskip, ih.items (List.cons_ne_nil _ _) htail (by omega)]

/-- The name and the colon of a field are read, and its value comes next. -/
theorem Spells.exists_field {name : Option String} {tokens : List (List Char)} {text : List Char}
    (h : Spells (renderString name :: [':'] :: tokens) text) :
    ∃ tail, Spells tokens tail ∧ tail.length + 1 < text.length ∧ ∀ rest, ∃ body after,
      skipBlanks (text ++ rest) = '\x22' :: body ∧ readString body = some (name, after) ∧
        skipBlanks after = ':' :: (tail ++ rest) := by
  obtain ⟨body, hname, hread⟩ := readString_renderString name
  rw [hname] at h
  obtain ⟨after, hafter, hlt, hskip⟩ := h.exists_skipBlanks (by decide)
  obtain ⟨tail, htail, hlt', hskip'⟩ := hafter.exists_skipBlanks (by decide)
  rw [List.length_nil] at hlt'
  exact ⟨tail, htail, by omega, fun rest => ⟨_, _, hskip rest, hread _, hskip' rest⟩⟩

theorem ReadsTokens.fields_succ {steps : Nat} (ih : ReadsTokens steps)
    {fields : List (Option String × Json)} {text : List Char} (hne : fields ≠ [])
    (h : Spells (fieldTokens fields ++ [['}']]) text) (hsteps : text.length ≤ steps + 1)
    (rest : List Char) :
    readFields (steps + 1) (text ++ rest) = some (fields, rest) := by
  match fields with
  | [(name, value)] =>
    obtain ⟨tail, htail, hlt, hfield⟩ := h.exists_field
    obtain ⟨a, b, rfl, ha, hb⟩ := spells_append_iff.mp htail
    obtain ⟨tail, htail, hlt', hskip⟩ := hb.exists_skipBlanks (by decide)
    obtain rfl := spells_nil_iff.mp htail
    obtain ⟨body, after, hname, hread, hcolon⟩ := hfield rest
    rw [List.append_assoc] at hcolon
    simp only [List.length_append] at hlt
    have hvalue := ih.value ha (hb.endsNumber (by decide) rest) (by omega)
    rw [readFields, hname]
    simp [hread, hcolon, hvalue, hskip]
  | (name, value) :: next :: fields =>
    rw [fieldTokens_cons_cons, List.cons_append, List.cons_append, List.append_assoc,
      List.cons_append] at h
    obtain ⟨tail, htail, hlt, hfield⟩ := h.exists_field
    obtain ⟨a, b, rfl, ha, hb⟩ := spells_append_iff.mp htail
    obtain ⟨tail, htail, hlt', hskip⟩ := hb.exists_skipBlanks (by decide)
    obtain ⟨body, after, hname, hread, hcolon⟩ := hfield rest
    rw [List.append_assoc] at hcolon
    simp only [List.length_append] at hlt
    have hvalue := ih.value ha (hb.endsNumber (by decide) rest) (by omega)
    have hfields := ih.fields (List.cons_ne_nil _ _) htail (by omega) rest
    rw [readFields, hname]
    simp [hread, hcolon, hvalue, hskip, hfields]

theorem readValue_of_startsNumber {steps : Nat} {cs tail : List Char} {c : Char}
    (h : skipBlanks cs = c :: tail) (hc : startsNumber c = true) :
    readValue (steps + 1) cs = readNumber (c :: tail) := by
  rw [readValue, h]
  split
  case h_7 => rfl
  all_goals
    next heq =>
      cases heq
      exact absurd hc (by decide)

theorem readValue_of_items {steps : Nat} {cs inner tail : List Char} {c : Char}
    (h : skipBlanks cs = '[' :: inner) (hinner : skipBlanks inner = c :: tail) (hc : c ≠ ']') :
    readValue (steps + 1) cs =
      (readItems steps (c :: tail)).map fun (items, rest) => (array items, rest) := by
  rw [readValue, h]
  simp only [hinner]
  split
  · next heq =>
    cases heq
    exact absurd rfl hc
  · rfl

theorem readValue_of_fields {steps : Nat} {cs inner tail : List Char} {c : Char}
    (h : skipBlanks cs = '{' :: inner) (hinner : skipBlanks inner = c :: tail) (hc : c ≠ '}') :
    readValue (steps + 1) cs =
      (readFields steps (c :: tail)).map fun (fields, rest) => (object fields, rest) := by
  rw [readValue, h]
  simp only [hinner]
  split
  · next heq =>
    cases heq
    exact absurd rfl hc
  · rfl

theorem ReadsTokens.value_succ {steps : Nat} (ih : ReadsTokens steps) {j : Json}
    {text rest : List Char} (h : Spells (tokens j) text) (hrest : EndsNumber rest)
    (hsteps : text.length ≤ steps + 1) : readValue (steps + 1) (text ++ rest) = some (j, rest) := by
  cases j with
  | null =>
    rw [readValue, h.skipBlanks_append (by decide)]
    rfl
  | bool value =>
    cases value <;> rw [readValue, h.skipBlanks_append (by decide)] <;> rfl
  | int v =>
    obtain ⟨c, cs, hv, hc⟩ := exists_toList_repr_eq v
    rw [tokens, hv] at h
    rw [readValue_of_startsNumber (h.skipBlanks_append (isBlank_of_startsNumber hc) rest) hc,
      ← List.cons_append, ← hv]
    exact readNumber_eq_some_int_iff.mpr ⟨rfl, hrest⟩
  | inexact =>
    rw [readValue, h.skipBlanks_append (by decide)]
    exact readNumber_minus_zero hrest
  | string text =>
    obtain ⟨body, hbody, hread⟩ := readString_renderString text
    rw [tokens, hbody] at h
    rw [readValue, h.skipBlanks_append (by decide)]
    simp [hread]
  | array items =>
    obtain ⟨inner, hinner, hlt, hskip⟩ := h.exists_skipBlanks (by decide)
    rw [List.length_nil, Nat.zero_add] at hlt
    by_cases hne : items = []
    · subst hne
      have hclose := Spells.skipBlanks_append hinner (by decide) rest
      rw [readValue, hskip]
      simp [hclose]
    · obtain ⟨c, cs, tail, htokens, hc, hbracket⟩ := exists_itemTokens_eq hne
      rw [htokens] at hinner
      obtain ⟨tail, htail, hlt', hskip'⟩ := hinner.exists_cons_skipBlanks hc
      rw [← htokens] at htail
      rw [readValue_of_items (hskip rest) (hskip' rest) hbracket, ← List.cons_append,
        ih.items hne htail (by rw [List.length_cons]; omega)]
      rfl
  | object fields =>
    obtain ⟨inner, hinner, hlt, hskip⟩ := h.exists_skipBlanks (by decide)
    rw [List.length_nil, Nat.zero_add] at hlt
    by_cases hne : fields = []
    · subst hne
      have hclose := Spells.skipBlanks_append hinner (by decide) rest
      rw [readValue, hskip]
      simp [hclose]
    · obtain ⟨cs, tail, htokens⟩ := exists_fieldTokens_eq hne
      rw [htokens] at hinner
      obtain ⟨tail, htail, hlt', hskip'⟩ := hinner.exists_cons_skipBlanks (by decide)
      rw [← htokens] at htail
      rw [readValue_of_fields (hskip rest) (hskip' rest) (by decide), ← List.cons_append,
        ih.fields hne htail (by rw [List.length_cons]; omega)]
      rfl

/-- As many steps as a text has characters are enough to read it. -/
theorem readsTokens (steps : Nat) : ReadsTokens steps := by
  induction steps with
  | zero =>
    -- there is a token, and it is not empty, so that the text has characters
    constructor
    · intro j text rest h _ hsteps
      obtain ⟨c, cs, tail, htokens, -⟩ := exists_tokens_eq j
      exact absurd hsteps (htokens ▸ h).length_pos.not_ge
    · intro items text hne h hsteps
      obtain ⟨c, cs, tail, htokens, -⟩ := exists_itemTokens_eq hne
      exact absurd hsteps (htokens ▸ h).length_pos.not_ge
    · intro fields text hne h hsteps
      obtain ⟨cs, tail, htokens⟩ := exists_fieldTokens_eq hne
      exact absurd hsteps (htokens ▸ h).length_pos.not_ge
  | succ steps ih => exact ⟨ih.value_succ, ih.items_succ, ih.fields_succ⟩

theorem parse?_eq_some_iff {text : String} {j : Json} :
    parse? text = some j ↔ ∃ rest,
      readValue (2 * text.toList.length + 2) text.toList = some (j, rest) ∧
        ∀ c ∈ rest, isBlank c = true := by
  have hblank (rest : List Char) : skipBlanks rest = [] ↔ ∀ c ∈ rest, isBlank c = true :=
    List.dropWhile_eq_nil_iff
  rw [parse?]
  constructor
  · intro h
    split at h
    · next value rest hread =>
      split_ifs at h with hrest
      obtain rfl := Option.some.inj h
      exact ⟨rest, hread, (hblank rest).mp hrest⟩
    · cases h
  · rintro ⟨rest, hread, hrest⟩
    simp [hread, (hblank rest).mpr hrest]

/-- **A value is read from every text of its tokens.** -/
theorem parse?_of_isTextOf {j : Json} {text : String} (h : IsTextOf (tokens j) text.toList) :
    parse? text = some j := by
  obtain ⟨body, after, htext, hbody, hafter⟩ := h
  refine parse?_eq_some_iff.mpr ⟨after, ?_, hafter⟩
  have hends : EndsNumber (after ++ []) := EndsNumber.blanks_append hafter nofun
  rw [List.append_nil] at hends
  rw [htext]
  exact (readsTokens _).value hbody hends (by rw [List.length_append]; omega)

/-- **A value is read from its compact text.** -/
theorem parse?_render (j : Json) : parse? j.render = some j := by
  refine parse?_of_isTextOf ⟨_, [], (List.append_nil _).symm, ?_, nofun⟩
  rw [render, String.toList_ofList, ← flatten_tokens]
  exact spells_flatten _

/-! ### Values with one spelling -/

/-- A text has the given tokens in front of the rest. -/
def SpellsBefore (tokens : List (List Char)) (cs rest : List Char) : Prop :=
  ∃ text, cs = text ++ rest ∧ Spells tokens text

/-- A value is only read from texts of its tokens. -/
def OneSpelling (j : Json) : Prop :=
  ∀ (steps : Nat) (cs rest : List Char), readValue steps cs = some (j, rest) →
    SpellsBefore (tokens j) cs rest

theorem exists_blanks_append_skipBlanks (cs : List Char) :
    ∃ blanks, cs = blanks ++ skipBlanks cs ∧ ∀ c ∈ blanks, isBlank c = true :=
  ⟨_, List.takeWhile_append_dropWhile.symm, fun _ => List.mem_takeWhile_imp⟩

theorem spellsBefore_nil (rest : List Char) : SpellsBefore [] rest rest := ⟨[], rfl, .nil⟩

theorem SpellsBefore.cons {token cs middle rest : List Char} {tokens : List (List Char)}
    (h : SpellsBefore tokens middle rest) (hskip : skipBlanks cs = token ++ middle) :
    SpellsBefore (token :: tokens) cs rest := by
  obtain ⟨text, rfl, htext⟩ := h
  obtain ⟨blanks, hcs, hblanks⟩ := exists_blanks_append_skipBlanks cs
  exact ⟨blanks ++ (token ++ text), by rw [hcs, hskip]; simp, .cons hblanks htext⟩

theorem SpellsBefore.append {cs middle rest : List Char} {first second : List (List Char)}
    (hfirst : SpellsBefore first cs middle) (hsecond : SpellsBefore second middle rest) :
    SpellsBefore (first ++ second) cs rest := by
  obtain ⟨a, rfl, ha⟩ := hfirst
  obtain ⟨b, rfl, hb⟩ := hsecond
  exact ⟨a ++ b, by simp, spells_append_iff.mpr ⟨a, b, rfl, ha, hb⟩⟩

theorem SpellsBefore.of_skipBlanks {cs rest : List Char} {tokens : List (List Char)}
    (h : SpellsBefore tokens (skipBlanks cs) rest) (hne : tokens ≠ []) :
    SpellsBefore tokens cs rest := by
  obtain ⟨text, htext, h⟩ := h
  obtain ⟨blanks, hcs, hblanks⟩ := exists_blanks_append_skipBlanks cs
  exact ⟨blanks ++ text, by rw [hcs, htext, List.append_assoc], h.blanks_append hblanks hne⟩

/-- An integer has been read as a number, and an array by its brackets and items. -/
theorem of_readValue {steps : Nat} {cs rest : List Char} {j : Json}
    (h : readValue (steps + 1) cs = some (j, rest)) :
    match j with
    | int v => readNumber (skipBlanks cs) = some (int v, rest)
    | array items => ∃ inner, skipBlanks cs = '[' :: inner ∧
        (items = [] ∧ skipBlanks inner = ']' :: rest ∨
          readItems steps (skipBlanks inner) = some (items, rest))
    | _ => True := by
  unfold readValue at h
  split at h
  case h_1 | h_2 | h_3 =>
    cases h
    trivial
  case h_4 =>
    obtain ⟨_, -, ⟨⟩⟩ := Option.map_eq_some_iff.mp h
    trivial
  case h_5 inner hskip =>
    split at h
    · next hclose =>
      cases h
      exact ⟨inner, hskip, .inl ⟨rfl, hclose⟩⟩
    · obtain ⟨⟨items, rest⟩, hitems, ⟨⟩⟩ := Option.map_eq_some_iff.mp h
      exact ⟨inner, hskip, .inr hitems⟩
  case h_6 =>
    split at h
    · cases h
      trivial
    · obtain ⟨_, -, ⟨⟩⟩ := Option.map_eq_some_iff.mp h
      trivial
  case h_7 =>
    obtain ⟨v, rfl⟩ | rfl := eq_of_readNumber h
    · exact h
    · trivial

theorem oneSpelling_int (v : Int) : OneSpelling (int v) := by
  intro steps cs rest h
  cases steps with
  | zero => cases h
  | succ steps =>
    obtain ⟨hskip, -⟩ := readNumber_eq_some_int_iff.mp (of_readValue h)
    exact (spellsBefore_nil rest).cons hskip

theorem ne_nil_of_readItems {steps : Nat} {cs rest : List Char} {items : List Json}
    (h : readItems steps cs = some (items, rest)) : items ≠ [] := by
  cases steps with
  | zero => cases h
  | succ steps =>
    rw [readItems, Option.bind_eq_bind, Option.bind_eq_some_iff] at h
    obtain ⟨⟨item, middle⟩, -, h⟩ := h
    dsimp only at h
    split at h
    · obtain ⟨_, -, ⟨⟩⟩ := Option.bind_eq_some_iff.mp h
      exact List.cons_ne_nil _ _
    · cases h
      exact List.cons_ne_nil _ _
    · cases h

theorem spellsBefore_of_readItems {steps : Nat} {cs rest : List Char} {items : List Json}
    (hitems : ∀ item ∈ items, OneSpelling item) (h : readItems steps cs = some (items, rest)) :
    SpellsBefore (itemTokens items ++ [[']']]) cs rest := by
  induction steps generalizing cs items with
  | zero => cases h
  | succ steps ih =>
    rw [readItems, Option.bind_eq_bind, Option.bind_eq_some_iff] at h
    obtain ⟨⟨item, middle⟩, hitem, h⟩ := h
    dsimp only at h
    split at h
    · next after hcomma =>
      obtain ⟨⟨more, rest⟩, hmore, ⟨⟩⟩ := Option.bind_eq_some_iff.mp h
      obtain ⟨hone, hrest⟩ := List.forall_mem_cons.mp hitems
      obtain ⟨next, more, rfl⟩ := List.exists_cons_of_ne_nil (ne_nil_of_readItems hmore)
      rw [itemTokens_cons_cons, List.append_assoc]
      exact (hone _ _ _ hitem).append ((ih hrest hmore).cons hcomma)
    · next hclose =>
      cases h
      exact (hitems item List.mem_cons_self _ _ _ hitem).append
        ((spellsBefore_nil _).cons hclose)
    · cases h

theorem oneSpelling_array {items : List Json} (hitems : ∀ item ∈ items, OneSpelling item) :
    OneSpelling (array items) := by
  intro steps cs rest h
  cases steps with
  | zero => cases h
  | succ steps =>
    obtain ⟨inner, hskip, ⟨rfl, hclose⟩ | hread⟩ := of_readValue h
    · have hempty : SpellsBefore [[']']] inner rest := (spellsBefore_nil rest).cons hclose
      exact hempty.cons hskip
    · exact ((spellsBefore_of_readItems hitems hread).of_skipBlanks (by simp)).cons hskip

/-- **A value with one spelling is read from the texts of its tokens** and from no others. -/
theorem OneSpelling.parse?_iff_isTextOf {j : Json} (h : OneSpelling j) {text : String} :
    parse? text = some j ↔ IsTextOf (tokens j) text.toList := by
  refine ⟨fun hparse => ?_, parse?_of_isTextOf⟩
  obtain ⟨rest, hread, hrest⟩ := parse?_eq_some_iff.mp hparse
  obtain ⟨body, htext, hbody⟩ := h _ _ _ hread
  exact ⟨body, rest, htext, hbody, hrest⟩

end CaliforniaPoker.Json
