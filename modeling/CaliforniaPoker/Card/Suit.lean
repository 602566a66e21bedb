import CaliforniaPoker.Card.Defect

/-!
# Suits

The four suits, with their values 1 to 4, their symbols and their letters.
-/

namespace CaliforniaPoker

/-- A suit. -/
inductive Suit where
  | spades
  | hearts
  | diamonds
  | clubs
  deriving DecidableEq

namespace Suit

/-- The suits by ascending value. -/
def all : List Suit := [spades, hearts, diamonds, clubs]

/-- The value of a suit, 1 to 4. -/
def value : Suit → Nat
  | spades => 1
  | hearts => 2
  | diamonds => 3
  | clubs => 4

instance : Ord Suit := ⟨compareOn value⟩

/-- The suit with a given value. -/
def ofValue : Nat → Except CardDefect Suit
  | 1 => .ok spades
  | 2 => .ok hearts
  | 3 => .ok diamonds
  | 4 => .ok clubs
  | v => .error (.suitOutOfRange v)

/-- The symbol by which a suit is shown. -/
def symbol : Suit → Char
  | spades => '♠'
  | hearts => '♥'
  | diamonds => '♦'
  | clubs => '♣'

/-- The letter by which a suit may be typed. -/
def letter : Suit → Char
  | spades => 's'
  | hearts => 'h'
  | diamonds => 'd'
  | clubs => 'c'

/-- The suit that a character stands for: its symbol, or its letter in either case. -/
def ofChar? : Char → Option Suit
  | 's' | 'S' | '♠' => some spades
  | 'h' | 'H' | '♥' => some hearts
  | 'd' | 'D' | '♦' => some diamonds
  | 'c' | 'C' | '♣' => some clubs
  | _ => none

/-- The English name of a suit. -/
def name : Suit → String
  | spades => "Spades"
  | hearts => "Hearts"
  | diamonds => "Diamonds"
  | clubs => "Clubs"

/-- The text of a suit, its symbol. -/
def text (s : Suit) : String := String.singleton s.symbol

theorem mem_all (s : Suit) : s ∈ all := by cases s <;> decide

theorem ofValue_value (s : Suit) : ofValue s.value = .ok s := by cases s <;> rfl

end Suit

end CaliforniaPoker
