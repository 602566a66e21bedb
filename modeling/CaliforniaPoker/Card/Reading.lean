import CaliforniaPoker.Card.HandCard
import CaliforniaPoker.Text.Blank

/-!
# Reading cards

A card is typed as its rank followed by its suit, and a wild as an asterisk; lists of them are
separated by blanks. Blanks around a single card are ignored, but an error cites the text as it was
given.
-/

namespace CaliforniaPoker

/-- The card that exactly these characters stand for. -/
def Card.ofChars? : List Char → Option Card
  | [r, s] =>
    match Rank.ofChar? r, Suit.ofChar? s with
    | some rank, some suit => some { suit, rank }
    | _, _ => none
  | _ => none

/-- The card that a text stands for. -/
def Card.read (text : String) : Except CardDefect Card :=
  match Card.ofChars? (trim text.toList) with
  | some card => .ok card
  | none => .error (.unreadable text)

/-- The natural card or the wild that a text stands for. -/
def HandCard.read (text : String) : Except CardDefect HandCard :=
  if trim text.toList = ['*'] then .ok .wild else (Card.read text).map .natural

/-- The cards of a list, or the defect of the first word that is no card. -/
def readCards (text : String) : Except CardDefect (List Card) :=
  (words text.toList).mapM fun word => Card.read (String.ofList word)

/-- The entries of a list, or the defect of the first word that is no entry. -/
def readHandCards (text : String) : Except CardDefect (List HandCard) :=
  (words text.toList).mapM fun word => HandCard.read (String.ofList word)

end CaliforniaPoker
