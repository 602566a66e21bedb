import CaliforniaPoker.Proofs.Exchange
import CaliforniaPoker.Proofs.Hand.Order
import CaliforniaPoker.Proofs.Recorded
import CaliforniaPoker.Round

/-!
# Neither seat has an advantage

In a round the first player decides first, is served first at the exchange and is named first at the
showdown. This file shows that nothing depends on it. What a player comes to is the same relation
for both seats: it follows from the player's own pool, its own decisions and the cards that it
receives. So a round in which players and pools change places succeeds when the other one does, and
its report is the mirror image.

## Main definitions

* `SeatReport.IsPlayedBy`: what a player comes to with a pool and the cards that it receives.
* `RoundReport.swap`: the report of a round seen from the other side of the table.

## Main results

* `showdown_swap`: the showdown from the other side.
* `playPools_eq_ok_iff`: a round succeeds with a report when both seats are played as it says.
* `playPools_swap`: exchanging the players and their pools mirrors the report.
-/

namespace CaliforniaPoker

variable {first second : Player} {firstPool secondPool : List Card} {report : RoundReport}

/-! ### The other side of the table -/

@[simp] theorem Winner.swap_swap (w : Winner) : w.swap.swap = w := by cases w <;> rfl

/-- The showdown from the other side: the same hand wins. -/
theorem showdown_swap (a b : HandRank) : showdown b a = (showdown a b).swap := by
  rw [showdown, showdown, HandRank.compare_swap a b]
  cases compare a b <;> rfl

/-- The report of a round seen from the other side of the table. -/
def RoundReport.swap (report : RoundReport) : RoundReport where
  first := report.second
  second := report.first
  winner := report.winner.swap

@[simp] theorem RoundReport.swap_swap (report : RoundReport) : report.swap.swap = report := by
  rw [swap, swap, Winner.swap_swap]

/-! ### What happens at a seat -/

/-- What a player comes to when it is dealt a pool of eight cards and receives some cards for those
that it hands over: its decisions, and its cards by ascending deck id. -/
structure SeatReport.IsPlayedBy (seat : SeatReport) (player : Player) (pool received : List Card) :
    Prop where
  dealt_eq : seat.dealt = pool
  discards_eq : (player.chooseDiscards pool).outcome = .ok seat.discards
  length_eq : pool.length = poolSize
  final_eq : seat.final = Card.sortById (seat.discards.kept pool ++ received)
  hand_eq : (player.chooseHand seat.final).outcome = .ok seat.hand

/-- A round succeeds with a report exactly when both seats are played as it says, each of them
receiving what the other one hands over, and the winner is that of the showdown. -/
theorem playPools_eq_ok_iff : (playPools first second firstPool secondPool).outcome = .ok report ↔
    report.first.IsPlayedBy first firstPool (report.second.discards.discarded secondPool) ∧
      report.second.IsPlayedBy second secondPool (report.first.discards.discarded firstPool) ∧
      report.winner = showdown report.first.hand.rank report.second.hand.rank := by
  simp only [playPools, Recorded.outcome_bind_eq_ok_iff, Recorded.outcome_ofExcept,
    Recorded.outcome_record, Recorded.outcome_pure]
  constructor
  · rintro ⟨firstDiscards, hfirstDiscards, secondDiscards, hsecondDiscards,
      ⟨firstFinal, secondFinal⟩, hexchange, firstHand, hfirstHand, secondHand, hsecondHand, -, -,
      hreport⟩
    obtain ⟨⟨hfirst, hfirstFinal⟩, hsecond, hsecondFinal⟩ := exchange_eq_ok_iff.mp hexchange
    obtain rfl := Except.ok.inj hreport
    exact ⟨⟨rfl, hfirstDiscards, hfirst, hfirstFinal, hfirstHand⟩,
      ⟨rfl, hsecondDiscards, hsecond, hsecondFinal, hsecondHand⟩, rfl⟩
  · rintro ⟨hfirst, hsecond, hwinner⟩
    refine ⟨_, hfirst.discards_eq, _, hsecond.discards_eq,
      (report.first.final, report.second.final),
      exchange_eq_ok_iff.mpr ⟨⟨hfirst.length_eq, hfirst.final_eq⟩, hsecond.length_eq,
        hsecond.final_eq⟩,
      _, hfirst.hand_eq, _, hsecond.hand_eq, (), trivial, ?_⟩
    rw [← hfirst.dealt_eq, ← hsecond.dealt_eq, ← hwinner]

/-- A report is that of a round when its mirror image is that of the round in which the players and
their pools change places. -/
theorem playPools_of_swap
    (hok : (playPools second first secondPool firstPool).outcome = .ok report.swap) :
    (playPools first second firstPool secondPool).outcome = .ok report := by
  obtain ⟨hsecond, hfirst, hwinner⟩ := playPools_eq_ok_iff.mp hok
  refine playPools_eq_ok_iff.mpr ⟨hfirst, hsecond, ?_⟩
  calc report.winner = report.swap.winner.swap := (Winner.swap_swap _).symm
    _ = (showdown report.second.hand.rank report.first.hand.rank).swap := by rw [hwinner]; rfl
    _ = showdown report.first.hand.rank report.second.hand.rank := (showdown_swap _ _).symm

/-- **Neither seat has an advantage.** Whoever the players are, when they and their pools change
places, the round succeeds exactly when it did before, and its report is the mirror image: what
happened to one player happened to the other, the first player wins where the second did, and the
pot is split where it was. -/
theorem playPools_swap (first second : Player) (firstPool secondPool : List Card) :
    ((∃ report, (playPools second first secondPool firstPool).outcome = .ok report) ↔
      ∃ report, (playPools first second firstPool secondPool).outcome = .ok report) ∧
    ∀ report, (playPools second first secondPool firstPool).outcome = .ok report.swap ↔
      (playPools first second firstPool secondPool).outcome = .ok report := by
  have hiff (report : RoundReport) :
      (playPools second first secondPool firstPool).outcome = .ok report.swap ↔
        (playPools first second firstPool secondPool).outcome = .ok report := by
    refine ⟨playPools_of_swap, fun hok => playPools_of_swap ?_⟩
    rwa [report.swap_swap]
  refine ⟨⟨fun ⟨report, hok⟩ => ⟨report.swap, (hiff _).mp ?_⟩,
    fun ⟨report, hok⟩ => ⟨report.swap, (hiff _).mpr hok⟩⟩, hiff⟩
  rwa [report.swap_swap]

end CaliforniaPoker
