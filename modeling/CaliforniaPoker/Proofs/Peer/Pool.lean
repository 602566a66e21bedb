import CaliforniaPoker.Peer.Card
import CaliforniaPoker.Proofs.Json.Form
import CaliforniaPoker.Proofs.Weights.Text

/-!
# Pools from the peer

The peer sends a pool as a list of pairs of indices, in JSON. This file states on its own which
lists of pairs name cards and which texts are lists of pairs, and shows that a pool is read from
exactly these: writing and reading invert each other, a pair that names no card is only complained
about in a text that is a list of pairs as a whole, and any other text is malformed.

## Main definitions

* `PeerCard.IsValid`: the indices of a pair are those of a rank and a suit.
* `IsFirstInvalid`: the first pair of a list that names no card.
* `IsPairsText`: the text is a list of pairs, with blanks in it or none.

## Main results

* `decodePool_eq_ok_iff`, `decodePool_eq_error_iff`: what decoding a list of pairs comes to.
* `ofJsonText?_eq_some_iff_isPairsText`: pairs are read from the texts of them and no others.
* `peerPools_round_trip`: pools survive being written and read, and reading fails cleanly.
-/

namespace CaliforniaPoker

/-! ### Pairs of indices -/

/-- The indices of a pair are those of a rank and a suit. -/
def PeerCard.IsValid (p : PeerCard) : Prop := p.rank ≤ 12 ∧ p.suit ≤ 3

instance : DecidablePred PeerCard.IsValid := fun p =>
  inferInstanceAs (Decidable (p.rank ≤ 12 ∧ p.suit ≤ 3))

theorem Card.toCard_toPeer (c : Card) : c.toPeer.toCard = .ok c := by
  obtain ⟨suit, rank⟩ := c
  cases suit <;> cases rank <;> rfl

theorem Card.isValid_toPeer (c : Card) : c.toPeer.IsValid := by
  obtain ⟨suit, rank⟩ := c
  cases suit <;> cases rank <;> decide

namespace PeerCard

variable {p : PeerCard}

/-- A valid pair is that of a card. -/
theorem IsValid.exists_toPeer_eq (h : p.IsValid) : ∃ c : Card, c.toPeer = p := by
  have hranks : ∀ k < 13, ∃ r ∈ Rank.all, r.value = k + 2 := by decide
  have hsuits : ∀ k < 4, ∃ s ∈ Suit.all, s.value = k + 1 := by decide
  obtain ⟨hrank, hsuit⟩ := h
  rw [UInt8.le_iff_toNat_le] at hrank hsuit
  obtain ⟨r, -, hr⟩ := hranks p.rank.toNat (Nat.lt_succ_of_le hrank)
  obtain ⟨s, -, hs⟩ := hsuits p.suit.toNat (Nat.lt_succ_of_le hsuit)
  refine ⟨⟨s, r⟩, ?_⟩
  rw [Card.toPeer, hr, hs, Nat.add_sub_cancel, Nat.add_sub_cancel, UInt8.ofNat_toNat,
    UInt8.ofNat_toNat]

theorem toCard_of_not_isValid (h : ¬ p.IsValid) :
    p.toCard = .error (.peerIndexOutOfRange p.rank p.suit) := by
  rw [toCard, if_pos]
  rw [IsValid, not_and_or, UInt8.not_le, UInt8.not_le] at h
  exact h

end PeerCard

/-! ### Lists of pairs -/

/-- The first pair of a list that names no card. -/
def IsFirstInvalid (pairs : List PeerCard) (p : PeerCard) : Prop :=
  ∃ before after, pairs = before ++ p :: after ∧ (∀ q ∈ before, q.IsValid) ∧ ¬ p.IsValid

theorem decodePool_cons_of_not_isValid {p : PeerCard} (hp : ¬ p.IsValid) (pairs : List PeerCard) :
    decodePool (p :: pairs) = .error (.peerIndexOutOfRange p.rank p.suit) := by
  rw [decodePool, List.mapM_cons, PeerCard.toCard_of_not_isValid hp]
  rfl

/-- The pairs of cards are decoded one after the other, until the pairs behind them come. -/
theorem decodePool_encodePool_append (pool : List Card) (pairs : List PeerCard) :
    decodePool (encodePool pool ++ pairs) = (decodePool pairs).map (pool ++ ·) := by
  induction pool with
  | nil =>
    change decodePool pairs = (decodePool pairs).map _
    cases decodePool pairs <;> rfl
  | cons c pool ih =>
    rw [encodePool, List.map_cons, List.cons_append, decodePool, List.mapM_cons, c.toCard_toPeer,
      ← encodePool, ← decodePool, ih]
    cases decodePool pairs <;> rfl

theorem decodePool_encodePool (pool : List Card) : decodePool (encodePool pool) = .ok pool := by
  rw [← List.append_nil (encodePool pool), decodePool_encodePool_append]
  exact congrArg Except.ok pool.append_nil

/-- The lists of valid pairs are the pairs of the pools. -/
theorem exists_encodePool_eq_iff {pairs : List PeerCard} :
    (∃ pool, encodePool pool = pairs) ↔ ∀ p ∈ pairs, p.IsValid := by
  constructor
  · rintro ⟨pool, rfl⟩ p hp
    obtain ⟨c, -, rfl⟩ := List.mem_map.mp hp
    exact c.isValid_toPeer
  · intro h
    induction pairs with
    | nil => exact ⟨[], rfl⟩
    | cons p pairs ih =>
      obtain ⟨hp, hpairs⟩ := List.forall_mem_cons.mp h
      obtain ⟨c, rfl⟩ := hp.exists_toPeer_eq
      obtain ⟨pool, rfl⟩ := ih hpairs
      exact ⟨c :: pool, rfl⟩

theorem IsFirstInvalid.decodePool_eq {pairs : List PeerCard} {p : PeerCard}
    (h : IsFirstInvalid pairs p) :
    decodePool pairs = .error (.peerIndexOutOfRange p.rank p.suit) := by
  obtain ⟨before, after, rfl, hbefore, hp⟩ := h
  obtain ⟨pool, rfl⟩ := exists_encodePool_eq_iff.mpr hbefore
  rw [decodePool_encodePool_append, decodePool_cons_of_not_isValid hp]
  rfl

/-- If not all pairs name cards, there is a first one that does not. -/
theorem exists_isFirstInvalid {pairs : List PeerCard} (h : ¬ ∀ p ∈ pairs, p.IsValid) :
    ∃ p, IsFirstInvalid pairs p := by
  induction pairs with
  | nil => exact absurd nofun h
  | cons p pairs ih =>
    by_cases hp : p.IsValid
    · obtain ⟨q, before, after, rfl, hbefore, hq⟩ :=
        ih fun hall => h (List.forall_mem_cons.mpr ⟨hp, hall⟩)
      exact ⟨q, p :: before, after, rfl, List.forall_mem_cons.mpr ⟨hp, hbefore⟩, hq⟩
    · exact ⟨p, [], pairs, rfl, nofun, hp⟩

/-- Decoding a list of pairs gives the pool whose pairs they are. -/
theorem decodePool_eq_ok_iff {pairs : List PeerCard} {pool : List Card} :
    decodePool pairs = .ok pool ↔ encodePool pool = pairs := by
  constructor
  · intro h
    by_cases hvalid : ∀ p ∈ pairs, p.IsValid
    · obtain ⟨pool', rfl⟩ := exists_encodePool_eq_iff.mpr hvalid
      rw [decodePool_encodePool] at h
      rw [Except.ok.inj h]
    · obtain ⟨p, hp⟩ := exists_isFirstInvalid hvalid
      rw [hp.decodePool_eq] at h
      cases h
  · rintro rfl
    exact decodePool_encodePool pool

/-- Decoding a list of pairs fails for the first pair that names no card. -/
theorem decodePool_eq_error_iff {pairs : List PeerCard} {e : CardDefect} :
    decodePool pairs = .error e ↔
      ∃ p, IsFirstInvalid pairs p ∧ e = .peerIndexOutOfRange p.rank p.suit := by
  constructor
  · intro h
    by_cases hvalid : ∀ p ∈ pairs, p.IsValid
    · obtain ⟨pool, rfl⟩ := exists_encodePool_eq_iff.mpr hvalid
      rw [decodePool_encodePool] at h
      cases h
    · obtain ⟨p, hp⟩ := exists_isFirstInvalid hvalid
      rw [hp.decodePool_eq] at h
      exact ⟨p, hp, (Except.error.inj h).symm⟩
  · rintro ⟨p, hp, rfl⟩
    exact hp.decodePool_eq

/-! ### Texts of lists of pairs -/

/-- The tokens of a pair: its two indices in brackets, with a comma between them. -/
def PeerCard.tokens (p : PeerCard) : List (List Char) :=
  [['['], p.rank.toNat.repr.toList, [','], p.suit.toNat.repr.toList, [']']]

/-- The tokens of a list of pairs: the pairs in brackets, with commas between them. -/
def pairsTokens (pairs : List PeerCard) : List (List Char) :=
  ['['] :: ([[',']].intercalate (pairs.map PeerCard.tokens) ++ [[']']])

/-- The text is a list of pairs, with blanks between and around its tokens or none. -/
def IsPairsText (text : String) (pairs : List PeerCard) : Prop :=
  Json.IsTextOf (pairsTokens pairs) text.toList

theorem tokens_toJson_pairs (pairs : List PeerCard) :
    (toJson pairs).tokens = pairsTokens pairs := by
  change ['['] :: (Json.itemTokens (pairs.map toJson) ++ [[']']]) = _
  rw [Json.itemTokens_eq_intercalate, List.map_map]
  rfl

/-- The text of a list of pairs has their tokens one behind the other. -/
theorem toList_jsonText_pairs (pairs : List PeerCard) :
    (jsonText pairs).toList = (pairsTokens pairs).flatten := by
  rw [jsonText, Json.render, String.toList_ofList, ← Json.flatten_tokens, tokens_toJson_pairs]

theorem isPairsText_jsonText (pairs : List PeerCard) : IsPairsText (jsonText pairs) pairs :=
  ⟨_, [], by rw [toList_jsonText_pairs, List.append_nil], Json.spells_flatten _, nofun⟩

/-- A list of pairs is an array of arrays of integers, which is only read from its own texts. -/
theorem oneSpelling_toJson_pairs (pairs : List PeerCard) : Json.OneSpelling (toJson pairs) := by
  refine Json.oneSpelling_array fun item hitem => ?_
  obtain ⟨p, -, rfl⟩ := List.mem_map.mp hitem
  refine Json.oneSpelling_array fun index hindex => ?_
  rcases List.mem_pair.mp hindex with rfl | rfl <;> exact Json.oneSpelling_int _

/-- A pair is only read from its own JSON. -/
theorem ofJson?_eq_some_pair_iff {j : Json} {p : PeerCard} :
    ofJson? j = some p ↔ j = toJson p := by
  constructor
  · intro h
    unfold ofJson? instJsonFormPeerCard at h
    dsimp only at h
    split at h
    · next rank suit =>
      obtain ⟨r, hr, h⟩ := Option.bind_eq_some_iff.mp h
      obtain ⟨s, hs, ⟨⟩⟩ := Option.bind_eq_some_iff.mp h
      rw [ofJson?_eq_some_byte_iff.mp hr, ofJson?_eq_some_byte_iff.mp hs]
      rfl
    · cases h
  · rintro rfl
    exact bind_of_ofJson? (ofJson?_toJson_byte p.rank) <|
      bind_of_ofJson? (ofJson?_toJson_byte p.suit) rfl

/-- A list of pairs is only read from its own JSON. -/
theorem ofJson?_eq_some_pairs_iff {j : Json} {pairs : List PeerCard} :
    ofJson? j = some pairs ↔ j = toJson pairs := by
  constructor
  · intro h
    cases j with
    | array items =>
      have hitems : List.Forall₂ (fun item p => item = toJson p) items pairs :=
        (mapM_eq_some_iff_forall₂.mp h).imp fun _ _ => ofJson?_eq_some_pair_iff.mp
      rw [← List.forall₂_map_right_iff, List.forall₂_eq_eq_eq] at hitems
      exact congrArg Json.array hitems
    | _ => cases h
  · rintro rfl
    exact ofJson?_toJson_list fun p _ => ofJson?_eq_some_pair_iff.mpr rfl

/-- **Pairs are read from the texts of them** and from no others. -/
theorem ofJsonText?_eq_some_iff_isPairsText {text : String} {pairs : List PeerCard} :
    ofJsonText? text = some pairs ↔ IsPairsText text pairs := by
  rw [ofJsonText?, Option.bind_eq_some_iff, IsPairsText, ← tokens_toJson_pairs,
    ← (oneSpelling_toJson_pairs pairs).parse?_iff_isTextOf]
  constructor
  · rintro ⟨j, hparse, hpairs⟩
    rwa [← ofJson?_eq_some_pairs_iff.mp hpairs]
  · exact fun hparse => ⟨_, hparse, ofJson?_eq_some_pairs_iff.mpr rfl⟩

/-- A text that breaks off gives no pairs, though the first one is complete and out of range. -/
example : (ofJsonText? "[[13,4],[0,0]" : Option (List PeerCard)) = none := by decide +kernel

/-! ### Reading pools -/

variable {text : String} {pairs : List PeerCard}

theorem readPeerPool_of_isPairsText (h : IsPairsText text pairs) :
    readPeerPool text = decodePool pairs := by
  rw [readPeerPool, ofJsonText?_eq_some_iff_isPairsText.mpr h]

theorem readPeerPool_of_not_isPairsText (h : ∀ pairs, ¬ IsPairsText text pairs) :
    readPeerPool text = .error .malformedPool := by
  have hnone : (ofJsonText? text : Option (List PeerCard)) = none :=
    Option.eq_none_iff_forall_ne_some.mpr fun pairs hpairs =>
      h pairs (ofJsonText?_eq_some_iff_isPairsText.mp hpairs)
  rw [readPeerPool, hnone]

theorem decodePool_ne_malformedPool : decodePool pairs ≠ .error .malformedPool := by
  intro h
  obtain ⟨p, -, ⟨⟩⟩ := decodePool_eq_error_iff.mp h

/-- A text is malformed for the peer's pools exactly when it is no list of pairs. -/
theorem readPeerPool_eq_malformedPool_iff :
    readPeerPool text = .error .malformedPool ↔ ∀ pairs, ¬ IsPairsText text pairs := by
  refine ⟨fun h pairs hpairs => ?_, readPeerPool_of_not_isPairsText⟩
  rw [readPeerPool_of_isPairsText hpairs] at h
  exact decodePool_ne_malformedPool h

/-- An index is complained about exactly when the text is a list of pairs whose first pair that
names no card has it. -/
theorem readPeerPool_eq_peerIndexOutOfRange_iff {rank suit : UInt8} :
    readPeerPool text = .error (.peerIndexOutOfRange rank suit) ↔
      ∃ pairs, IsPairsText text pairs ∧ IsFirstInvalid pairs ⟨rank, suit⟩ := by
  constructor
  · intro h
    by_cases hpairs : ∃ pairs, IsPairsText text pairs
    · obtain ⟨pairs, hpairs⟩ := hpairs
      rw [readPeerPool_of_isPairsText hpairs] at h
      obtain ⟨p, hp, ⟨⟩⟩ := decodePool_eq_error_iff.mp h
      exact ⟨pairs, hpairs, hp⟩
    · rw [readPeerPool_of_not_isPairsText (not_exists.mp hpairs)] at h
      cases h
  · rintro ⟨pairs, hpairs, hp⟩
    rw [readPeerPool_of_isPairsText hpairs, hp.decodePool_eq]

/-- **Pools of the peer survive being written and read, and reading them fails cleanly.** Encoding
a pool and decoding it again gives the pool, as pairs and as JSON text, which is the pairs without
blanks. A list of pairs is decoded exactly when all indices are in range, to the pool that has these
pairs; otherwise the first pair out of range is complained about. A text is read as the list of
pairs that it is, and no index is complained about in a text that is none. -/
theorem peerPools_round_trip :
    (∀ pool : List Card, decodePool (encodePool pool) = .ok pool ∧
      (jsonText (encodePool pool)).toList = (pairsTokens (encodePool pool)).flatten ∧
      readPeerPool (jsonText (encodePool pool)) = .ok pool) ∧
    (∀ pairs : List PeerCard,
      ((∃ pool, decodePool pairs = .ok pool) ↔ ∀ p ∈ pairs, p.rank ≤ 12 ∧ p.suit ≤ 3) ∧
      (∀ pool, decodePool pairs = .ok pool → encodePool pool = pairs) ∧
      ∀ e, decodePool pairs = .error e ↔
        ∃ p, IsFirstInvalid pairs p ∧ e = .peerIndexOutOfRange p.rank p.suit) ∧
    ∀ text : String,
      (∀ pairs, IsPairsText text pairs → readPeerPool text = decodePool pairs) ∧
      (∀ rank suit, readPeerPool text = .error (.peerIndexOutOfRange rank suit) ↔
        ∃ pairs, IsPairsText text pairs ∧ IsFirstInvalid pairs ⟨rank, suit⟩) ∧
      (readPeerPool text = .error .malformedPool ↔ ∀ pairs, ¬ IsPairsText text pairs) := by
  refine ⟨fun pool => ⟨decodePool_encodePool pool, toList_jsonText_pairs _, ?_⟩,
    fun pairs => ⟨?_, ?_, ?_⟩, fun text => ?_⟩
  · rw [readPeerPool_of_isPairsText (isPairsText_jsonText _), decodePool_encodePool]
  · simp only [decodePool_eq_ok_iff, exists_encodePool_eq_iff, PeerCard.IsValid]
  · exact fun _ => decodePool_eq_ok_iff.mp
  · exact fun _ => decodePool_eq_error_iff
  · exact ⟨fun _ => readPeerPool_of_isPairsText,
      fun _ _ => readPeerPool_eq_peerIndexOutOfRange_iff, readPeerPool_eq_malformedPool_iff⟩

/-- A pair out of range is complained about in a text with blanks. -/
theorem peerPools_round_trip_blanks :
    IsPairsText "[[12, 0],\n [13,4 ]] " [⟨12, 0⟩, ⟨13, 4⟩] ∧
      readPeerPool "[[12, 0],\n [13,4 ]] " = .error (.peerIndexOutOfRange 13 4) := by
  have htext : IsPairsText "[[12, 0],\n [13,4 ]] " [⟨12, 0⟩, ⟨13, 4⟩] :=
    ofJsonText?_eq_some_iff_isPairsText.mp (by decide +kernel)
  obtain ⟨-, hdecode, hread⟩ := peerPools_round_trip
  refine ⟨htext, ?_⟩
  rw [(hread _).1 _ htext]
  exact ((hdecode _).2.2 _).mpr ⟨⟨13, 4⟩, ⟨[⟨12, 0⟩], [], rfl, by decide, by decide⟩, rfl⟩

end CaliforniaPoker
