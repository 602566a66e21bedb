import CaliforniaPoker.Proofs.Text.Numeral

/-!
# The words of a text

A text falls into words in one way only: its words are the runs of characters that are not blank,
each of them bounded on both sides by a blank or by an end of the text. This file states that
decomposition as a relation and shows that `words` computes it. Conversely, words that are written
one after another with blanks between them are the words of the text that arises.

## Main definitions

* `IsWord`: a non-empty run without a blank.
* `IsSplit`: the decomposition of a text into its words and the blanks around them.
* `IsJoined`: words one after another, with blanks between two.

## Main results

* `words_eq_iff`: the words of a text are those of its decomposition.
* `IsJoined.isSplit`: joined words are the words of the text, whatever blanks are put around it.
-/

namespace CaliforniaPoker

/-! ### Decompositions -/

/-- A non-empty run of characters that are not blank. -/
def IsWord (run : List Char) : Prop := run ≠ [] ∧ ∀ c ∈ run, isBlank c = false

/-- The decomposition of a text into its maximal runs of characters that are not blank: a run begins
after some blanks, or at the beginning, and goes on until a blank or the end. -/
inductive IsSplit : List Char → List (List Char) → Prop
  | blanks {gap : List Char} (hgap : ∀ c ∈ gap, isBlank c = true) : IsSplit gap []
  | run {gap run rest : List Char} {runs : List (List Char)}
      (hgap : ∀ c ∈ gap, isBlank c = true) (hrun : IsWord run)
      (hend : ∀ c ∈ rest.head?, isBlank c = true) (h : IsSplit rest runs) :
      IsSplit (gap ++ run ++ rest) (run :: runs)

variable {cs gap run rest core text : List Char} {runs : List (List Char)}

theorem IsSplit.blank_cons {c : Char} (hc : isBlank c = true) (h : IsSplit cs runs) :
    IsSplit (c :: cs) runs := by
  cases h with
  | blanks hgap => exact .blanks (List.forall_mem_cons.mpr ⟨hc, hgap⟩)
  | run hgap hrun hend h => exact .run (List.forall_mem_cons.mpr ⟨hc, hgap⟩) hrun hend h

/-- A character that is not blank continues the first word, or is one if a blank follows. -/
theorem IsSplit.exists_cons {c : Char} (hc : isBlank c = false) (h : IsSplit cs runs) :
    ∃ runs', IsSplit (c :: cs) runs' := by
  have hsingle : IsWord [c] := ⟨List.cons_ne_nil c [], List.forall_mem_singleton.mpr hc⟩
  have hnone : ∀ c ∈ ([] : List Char), isBlank c = true := List.forall_mem_nil _
  cases h with
  | blanks hgap =>
    exact ⟨[[c]], .run hnone hsingle (fun d hd => hgap d (List.mem_of_mem_head? hd)) (.blanks hgap)⟩
  | @run gap run rest runs hgap hrun hend h =>
    cases gap with
    | nil =>
      have hlonger : IsWord (c :: run) :=
        ⟨List.cons_ne_nil c run, List.forall_mem_cons.mpr ⟨hc, hrun.2⟩⟩
      exact ⟨(c :: run) :: runs, .run hnone hlonger hend h⟩
    | cons d gap =>
      have hd : ∀ d' ∈ ((d :: gap) ++ run ++ rest).head?, isBlank d' = true := by
        rintro _ ⟨⟩
        exact hgap d List.mem_cons_self
      exact ⟨[c] :: run :: runs, .run hnone hsingle hd (.run hgap hrun hend h)⟩

theorem exists_isSplit (cs : List Char) : ∃ runs, IsSplit cs runs := by
  induction cs with
  | nil => exact ⟨[], .blanks (List.forall_mem_nil _)⟩
  | cons c cs ih =>
    obtain ⟨runs, h⟩ := ih
    cases hc : isBlank c with
    | true => exact ⟨runs, h.blank_cons hc⟩
    | false => exact h.exists_cons hc

theorem IsSplit.isWord (h : IsSplit cs runs) : ∀ run ∈ runs, IsWord run := by
  induction h with
  | blanks => exact List.forall_mem_nil _
  | run _ hrun _ _ ih => exact List.forall_mem_cons.mpr ⟨hrun, ih⟩

/-! ### Splitting a text -/

theorem words_nil : words [] = [] := rfl

theorem words_blanks_append (hgap : ∀ c ∈ gap, isBlank c = true) (cs : List Char) :
    words (gap ++ cs) = words cs := by
  induction gap with
  | nil => rfl
  | cons c gap ih =>
    obtain ⟨hc, hgap⟩ := List.forall_mem_cons.mp hgap
    rw [List.cons_append, words.eq_def]
    simp only [hc, if_true, ih hgap]

/-- A word up to a blank or to the end of the text is split off. -/
theorem words_word_append (hrun : IsWord run) (hend : ∀ c ∈ rest.head?, isBlank c = true) :
    words (run ++ rest) = run :: words rest := by
  obtain ⟨hne, hrun⟩ := hrun
  induction run with
  | nil => exact absurd rfl hne
  | cons c run ih =>
    obtain ⟨hc, hrun⟩ := List.forall_mem_cons.mp hrun
    rw [List.cons_append, words.eq_def]
    cases run with
    | nil =>
      cases rest with
      | nil => simp [hc, words_nil]
      | cons d rest => simp [hc, hend d rfl]
    | cons d run =>
      have hd := hrun d List.mem_cons_self
      simp only [List.cons_append] at ih ⊢
      simp [hc, hd, ih (List.cons_ne_nil d run) hrun]

theorem IsSplit.words_eq (h : IsSplit cs runs) : words cs = runs := by
  induction h with
  | @blanks gap hgap => rw [← List.append_nil gap, words_blanks_append hgap, words_nil]
  | run hgap hrun hend _ ih =>
    rw [List.append_assoc, words_blanks_append hgap, words_word_append hrun hend, ih]

theorem isSplit_words (cs : List Char) : IsSplit cs (words cs) := by
  obtain ⟨runs, hsplit⟩ := exists_isSplit cs
  rwa [hsplit.words_eq]

/-- The words of a text are those of its decomposition. -/
theorem words_eq_iff : words cs = runs ↔ IsSplit cs runs :=
  ⟨fun h => h ▸ isSplit_words cs, IsSplit.words_eq⟩

/-! ### Joining words -/

/-- Words one after another, with one or more blanks between two of them. -/
inductive IsJoined : List (List Char) → List Char → Prop
  | nil : IsJoined [] []
  | single (run : List Char) : IsJoined [run] run
  | cons {run gap next text : List Char} {runs : List (List Char)} (hne : gap ≠ [])
      (hgap : ∀ c ∈ gap, isBlank c = true)
      (h : IsJoined (next :: runs) text) : IsJoined (run :: next :: runs) (run ++ gap ++ text)

/-- Joined words are the words of the text, whatever blanks are put around it. -/
theorem IsJoined.isSplit (h : IsJoined runs core) (hruns : ∀ run ∈ runs, IsWord run)
    (hpadded : Padded core text) : IsSplit text runs := by
  obtain ⟨before, after, rfl, hbefore, hafter⟩ := hpadded
  induction h generalizing before with
  | nil =>
    refine .blanks fun c hc => ?_
    rw [List.append_nil] at hc
    exact (List.mem_append.mp hc).elim (hbefore c) (hafter c)
  | single run =>
    have hend : ∀ c ∈ after.head?, isBlank c = true := fun c hc =>
      hafter c (List.mem_of_mem_head? hc)
    exact .run hbefore (hruns run List.mem_cons_self) hend (.blanks hafter)
  | @cons run gap next core runs hne hgap h ih =>
    obtain ⟨hrun, hruns⟩ := List.forall_mem_cons.mp hruns
    have hend : ∀ c ∈ (gap ++ core ++ after).head?, isBlank c = true := fun c hc => by
      rw [List.append_assoc, List.head?_append_of_ne_nil _ hne] at hc
      exact hgap c (List.mem_of_mem_head? hc)
    have hsplit : IsSplit (before ++ run ++ (gap ++ core ++ after)) (run :: next :: runs) :=
      .run hbefore hrun hend (ih hruns gap hgap)
    simpa only [List.append_assoc] using hsplit

/-- Words with a space between two are joined. -/
theorem isJoined_intercalate (runs : List (List Char)) :
    IsJoined runs ([' '].intercalate runs) := by
  induction runs with
  | nil => exact .nil
  | cons run runs ih =>
    cases runs with
    | nil => simpa using IsJoined.single run
    | cons next runs =>
      have hgap : ∀ c ∈ [' '], isBlank c = true := List.forall_mem_singleton.mpr rfl
      have hjoined : IsJoined (run :: next :: runs)
          (run ++ [' '] ++ [' '].intercalate (next :: runs)) :=
        .cons (List.cons_ne_nil ' ' []) hgap ih
      rwa [← List.intercalate_cons_cons] at hjoined

end CaliforniaPoker
