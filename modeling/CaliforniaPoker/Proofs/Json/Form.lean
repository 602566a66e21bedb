import CaliforniaPoker.Json.WeightForm
import CaliforniaPoker.Peer.Result
import CaliforniaPoker.Proofs.Discard
import CaliforniaPoker.Proofs.Json.Spelling
import CaliforniaPoker.Proofs.Text.Numeral

/-!
# Public values are read back from their JSON texts

Reading inverts writing on two levels. A JSON value is read back from its compact text, and a value
of a public type is read back from its JSON value, whether its constructors are written as names,
its fields as an object, or its elements as an array. Together they give that every public value is
read back from its text with all of its fields. Positions have to be below `2 ^ 64`.

## Main results

* `ofJsonText?_jsonText`: what is read back from its JSON is read back from its text.
* `public_ofJsonText?_jsonText`: cards, hands, values, choices, results and weights are read back.
-/

namespace CaliforniaPoker

/-- What is read back from its JSON is read back from its text. -/
theorem ofJsonText?_jsonText {α : Type} [JsonForm α] {a : α} (h : ofJson? (toJson a) = some a) :
    ofJsonText? (jsonText a) = some a := by
  rw [ofJsonText?, jsonText, Json.parse?_render, Option.bind_some, h]

/-- A record is read once one of its fields has been read. -/
theorem bind_of_ofJson? {α β : Type} [JsonForm α] {j : Json} {a : α} {f : α → Option β} {b : β}
    (ha : ofJson? j = some a) (hf : f a = some b) : (ofJson? j).bind f = some b := by
  rw [ha, Option.bind_some, hf]

/-! ### Numbers, lists and options -/

theorem ofJson?_toJson_byte (b : UInt8) : ofJson? (toJson b) = some b := Numeral.byte?_toNat b

/-- A byte is only read from its own JSON. -/
theorem ofJson?_eq_some_byte_iff {j : Json} {b : UInt8} : ofJson? j = some b ↔ j = toJson b := by
  constructor
  · intro h
    cases j with
    | int n => exact congrArg Json.int (Numeral.byte?_eq_some_iff.mp h).symm
    | _ => cases h
  · rintro rfl
    exact ofJson?_toJson_byte b

theorem ofJson?_toJson_int32 (w : Int32) : ofJson? (toJson w) = some w := Numeral.int32?_toInt w

theorem ofJson?_toJson_position {i : Nat} (h : i < UInt64.size) : ofJson? (toJson i) = some i :=
  Numeral.index?_natCast h

theorem ofJson?_toJson_list {α : Type} [JsonForm α] {as : List α}
    (h : ∀ a ∈ as, ofJson? (toJson a) = some a) : ofJson? (toJson as) = some as := by
  change (as.map toJson).mapM ofJson? = some as
  induction as with
  | nil => rfl
  | cons a as ih =>
    obtain ⟨ha, has⟩ := List.forall_mem_cons.mp h
    rw [List.map_cons, List.mapM_cons, ha, ih has]
    rfl

theorem ofJson?_toJson_option {α : Type} [JsonForm α] {a? : Option α}
    (h : ∀ a ∈ a?, ofJson? (toJson a) = some a ∧ toJson a ≠ .null) :
    ofJson? (toJson a?) = some a? := by
  cases a? with
  | none => rfl
  | some a =>
    obtain ⟨ha, hnull⟩ := h a rfl
    change instJsonFormOption.ofJson? (toJson a) = some (some a)
    unfold instJsonFormOption
    dsimp only
    split
    · contradiction
    · rw [ha]
      rfl

/-! ### Cards and hands -/

theorem ofJson?_toJson_suit (s : Suit) : ofJson? (toJson s) = some s := by
  cases s <;> rfl

theorem ofJson?_toJson_rank (r : Rank) : ofJson? (toJson r) = some r := by
  cases r <;> rfl

theorem ofJson?_toJson_card (c : Card) : ofJson? (toJson c) = some c :=
  bind_of_ofJson? (ofJson?_toJson_suit c.suit) <| bind_of_ofJson? (ofJson?_toJson_rank c.rank) rfl

theorem ofJson?_toJson_handCard (e : HandCard) : ofJson? (toJson e) = some e := by
  cases e with
  | wild => rfl
  | natural card => exact Option.map_eq_some_iff.mpr ⟨card, ofJson?_toJson_card card, rfl⟩

theorem ofJson?_toJson_category (c : Category) : ofJson? (toJson c) = some c := by
  cases c <;> rfl

/-- A value is read back with its representative, by which values are not told apart. -/
theorem ofJson?_toJson_handRank (h : HandRank) : ofJson? (toJson h) = some h := by
  have htiebreakers : ofJson? (toJson h.tiebreakers) = some h.tiebreakers :=
    ofJson?_toJson_list fun r _ => ofJson?_toJson_rank r
  have hrepresentative : ofJson? (toJson h.representative) = some h.representative :=
    ofJson?_toJson_option fun c _ => ⟨ofJson?_toJson_card c, nofun⟩
  exact bind_of_ofJson? (ofJson?_toJson_category h.category) <| bind_of_ofJson? htiebreakers <|
    bind_of_ofJson? hrepresentative rfl

theorem ofJson?_toJson_bestHand {b : BestHand} (h : ∀ i ∈ b.indices, i < UInt64.size) :
    ofJson? (toJson b) = some b := by
  have hindices : ofJson? (toJson b.indices) = some b.indices :=
    ofJson?_toJson_list fun i hi => ofJson?_toJson_position (h i hi)
  have hcards : ofJson? (toJson b.cards) = some b.cards :=
    ofJson?_toJson_list fun e _ => ofJson?_toJson_handCard e
  exact bind_of_ofJson? hindices <| bind_of_ofJson? hcards <|
    bind_of_ofJson? (ofJson?_toJson_handRank b.rank) rfl

/-- A discard set passes the check that the list of its positions is put to. -/
theorem ofJson?_toJson_discardChoice (d : DiscardChoice) : ofJson? (toJson d) = some d := by
  have hindices : ofJson? (toJson d.indices) = some d.indices :=
    ofJson?_toJson_list fun i hi =>
      ofJson?_toJson_position ((d.below i hi).trans (by decide))
  exact bind_of_ofJson? hindices (congrArg Except.toOption d.ofIndices_indices)

/-! ### Results for the peer -/

/-- Positions that are left out are none when they are read. -/
theorem ofJson?_toJson_peerResult {r : PeerResult} (h : ∀ i ∈ r.indices, i < UInt64.size) :
    ofJson? (toJson r) = some r := by
  obtain ⟨category, tiebreakers, indices⟩ := r
  have htiebreakers : ofJson? (toJson tiebreakers) = some tiebreakers :=
    ofJson?_toJson_list fun b _ => ofJson?_toJson_byte b
  cases indices with
  | nil => exact bind_of_ofJson? (ofJson?_toJson_byte category) <| bind_of_ofJson? htiebreakers rfl
  | cons i indices =>
    have hindices : ofJson? (toJson (i :: indices)) = some (i :: indices) :=
      ofJson?_toJson_list fun i hi => ofJson?_toJson_position (h i hi)
    exact bind_of_ofJson? (ofJson?_toJson_byte category) <| bind_of_ofJson? htiebreakers <|
      bind_of_ofJson? hindices rfl

/-- A result without positions does not mention them. -/
example : jsonText (PeerResult.mk 9 [12] []) =
    "\x7b\"category\":9,\"tiebreakers\":[12]\x7d" := by decide +kernel

/-! ### Weights -/

theorem ofJson?_toJson_positionWeights (p : PositionWeights) : ofJson? (toJson p) = some p := by
  have hlist : ofJson? (toJson p.toList) = some p.toList :=
    ofJson?_toJson_list fun w _ => ofJson?_toJson_int32 w
  exact bind_of_ofJson? hlist p.ofList?_toList

theorem ofJson?_toJson_weights (w : Weights) : ofJson? (toJson w) = some w := by
  have hbonus (b : Bonus) : ofJson? (toJson (w.bonus b)) = some (w.bonus b) :=
    ofJson?_toJson_int32 (w.bonus b)
  refine bind_of_ofJson? (hbonus .trips) <| bind_of_ofJson? (hbonus .pair) <|
    bind_of_ofJson? (hbonus .twoPair) <| bind_of_ofJson? (hbonus .fourSuited) <|
    bind_of_ofJson? (hbonus .threeSuited) <| bind_of_ofJson? (hbonus .runOfFour) <|
    bind_of_ofJson? (hbonus .runOfThree) <| bind_of_ofJson? (hbonus .runOfTwo) <|
    bind_of_ofJson? (ofJson?_toJson_positionWeights w.positions) ?_
  have heq {bonus : Bonus → Int32} (h : ∀ b, bonus b = w.bonus b) :
      some ({ bonus, positions := w.positions } : Weights) = some w := by
    rw [funext h]
  exact heq fun b => by cases b <;> rfl

/-! ### Texts -/

/-- **Public values are read back from their JSON texts**, with every field as it was. A value of a
hand keeps its representative, and a result whose positions are left out comes back without any. -/
theorem public_ofJsonText?_jsonText :
    (∀ c : Card, ofJsonText? (jsonText c) = some c) ∧
    (∀ e : HandCard, ofJsonText? (jsonText e) = some e) ∧
    (∀ h : HandRank, ofJsonText? (jsonText h) = some h) ∧
    (∀ b : BestHand, (∀ i ∈ b.indices, i < UInt64.size) → ofJsonText? (jsonText b) = some b) ∧
    (∀ d : DiscardChoice, ofJsonText? (jsonText d) = some d) ∧
    (∀ r : PeerResult, (∀ i ∈ r.indices, i < UInt64.size) → ofJsonText? (jsonText r) = some r) ∧
    ∀ w : Weights, ofJsonText? (jsonText w) = some w :=
  ⟨fun c => ofJsonText?_jsonText (ofJson?_toJson_card c),
    fun e => ofJsonText?_jsonText (ofJson?_toJson_handCard e),
    fun h => ofJsonText?_jsonText (ofJson?_toJson_handRank h),
    fun _ h => ofJsonText?_jsonText (ofJson?_toJson_bestHand h),
    fun d => ofJsonText?_jsonText (ofJson?_toJson_discardChoice d),
    fun _ h => ofJsonText?_jsonText (ofJson?_toJson_peerResult h),
    fun w => ofJsonText?_jsonText (ofJson?_toJson_weights w)⟩

/-- A hand of five wilds and the result for it are read back. -/
theorem public_ofJsonText?_jsonText_wilds :
    (∀ i ∈ [0, 1, 2, 3, 7], i < UInt64.size) ∧
      ofJsonText? (jsonText (BestHand.mk [0, 1, 2, 3, 7] (List.replicate 5 HandCard.wild)
          (HandRank.mk .royalFlush [] none))) =
        some (BestHand.mk [0, 1, 2, 3, 7] (List.replicate 5 HandCard.wild)
          (HandRank.mk .royalFlush [] none)) ∧
      ofJsonText? (jsonText (PeerResult.mk 9 [] [0, 1, 2, 3, 7])) =
        some (PeerResult.mk 9 [] [0, 1, 2, 3, 7]) := by
  have hindices : ∀ i ∈ [0, 1, 2, 3, 7], i < UInt64.size := by decide
  obtain ⟨-, -, -, hbest, -, hresult, -⟩ := public_ofJsonText?_jsonText
  exact ⟨hindices, hbest _ hindices, hresult _ hindices⟩

end CaliforniaPoker
