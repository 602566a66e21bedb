import CaliforniaPoker.Card.Reading
import CaliforniaPoker.Json.WeightForm
import CaliforniaPoker.Peer.Card
import CaliforniaPoker.Peer.Result
import CaliforniaPoker.Proofs.Hand.Ruled
import CaliforniaPoker.Proofs.Pool
import CaliforniaPoker.Table
import CaliforniaPoker.Proofs.Hand.Image
import CaliforniaPoker.Proofs.Peer.Order
import CaliforniaPoker.Proofs.Deck
import CaliforniaPoker.Proofs.Exchange
import CaliforniaPoker.Proofs.ExchangeBack
import CaliforniaPoker.Proofs.Round
import CaliforniaPoker.Proofs.Table
import CaliforniaPoker.Proofs.Renaming
import CaliforniaPoker.Proofs.Seats
import CaliforniaPoker.Proofs.Shuffles
import CaliforniaPoker.Proofs.Weights.Loading
import CaliforniaPoker.Proofs.SelectedPositions
import CaliforniaPoker.Proofs.Json.Scalar
import CaliforniaPoker.Proofs.Json.Spelling
import CaliforniaPoker.Proofs.Json.Form
import CaliforniaPoker.Proofs.Peer.Pool
import CaliforniaPoker.Proofs.Enumeration
import CaliforniaPoker.Proofs.LargerPool
import CaliforniaPoker.Proofs.Refusal
import CaliforniaPoker.Proofs.RoundRefusal
import CaliforniaPoker.Proofs.Text.Words
import CaliforniaPoker.Proofs.Card.Reading
import CaliforniaPoker.Proofs.ThreeOfAKind
import CaliforniaPoker.Proofs.Hand.Description
import CaliforniaPoker.Proofs.DiscardForms
import CaliforniaPoker.Proofs.DiscardRenaming
import CaliforniaPoker.Proofs.Binomial
import CaliforniaPoker.Proofs.EnumeratedSearch
import CaliforniaPoker.Proofs.WeightRatios
import CaliforniaPoker.Proofs.Weights.FirstFault
import CaliforniaPoker.Proofs.Weights.Overrides
import CaliforniaPoker.Proofs.Hand.GreatestGrouping
import CaliforniaPoker.Proofs.Hand.Outcome
import CaliforniaPoker.Proofs.Showdown
import CaliforniaPoker.Proofs.DecisionLog
