import CaliforniaPoker.Card.Defect

/-!
# Ranks

The thirteen ranks from two to ace, with their values 2 to 14, their symbols and their names.
-/

namespace CaliforniaPoker

/-- A rank. -/
inductive Rank where
  | two
  | three
  | four
  | five
  | six
  | seven
  | eight
  | nine
  | ten
  | jack
  | queen
  | king
  | ace
  deriving DecidableEq

namespace Rank

/-- The ranks in ascending order. -/
def all : List Rank :=
  [two, three, four, five, six, seven, eight, nine, ten, jack, queen, king, ace]

/-- The ranks in descending order. -/
def descending : List Rank :=
  [ace, king, queen, jack, ten, nine, eight, seven, six, five, four, three, two]

/-- The value of a rank, 2 to 14. -/
def value : Rank → Nat
  | two => 2
  | three => 3
  | four => 4
  | five => 5
  | six => 6
  | seven => 7
  | eight => 8
  | nine => 9
  | ten => 10
  | jack => 11
  | queen => 12
  | king => 13
  | ace => 14

instance : Ord Rank := ⟨compareOn value⟩

instance : LT Rank := ⟨fun a b => a.value < b.value⟩

instance (a b : Rank) : Decidable (a < b) := inferInstanceAs (Decidable (a.value < b.value))

/-- The rank with a given value. -/
def ofValue : Nat → Except CardDefect Rank
  | 2 => .ok two
  | 3 => .ok three
  | 4 => .ok four
  | 5 => .ok five
  | 6 => .ok six
  | 7 => .ok seven
  | 8 => .ok eight
  | 9 => .ok nine
  | 10 => .ok ten
  | 11 => .ok jack
  | 12 => .ok queen
  | 13 => .ok king
  | 14 => .ok ace
  | v => .error (.rankOutOfRange v)

/-- The character by which a rank is shown. -/
def symbol : Rank → Char
  | two => '2'
  | three => '3'
  | four => '4'
  | five => '5'
  | six => '6'
  | seven => '7'
  | eight => '8'
  | nine => '9'
  | ten => 'T'
  | jack => 'J'
  | queen => 'Q'
  | king => 'K'
  | ace => 'A'

/-- The rank that a character stands for: its symbol, a letter in either case. -/
def ofChar? (c : Char) : Option Rank :=
  match c.toUpper with
  | '2' => some two
  | '3' => some three
  | '4' => some four
  | '5' => some five
  | '6' => some six
  | '7' => some seven
  | '8' => some eight
  | '9' => some nine
  | 'T' => some ten
  | 'J' => some jack
  | 'Q' => some queen
  | 'K' => some king
  | 'A' => some ace
  | _ => none

/-- The English name of a rank. -/
def name : Rank → String
  | two => "Two"
  | three => "Three"
  | four => "Four"
  | five => "Five"
  | six => "Six"
  | seven => "Seven"
  | eight => "Eight"
  | nine => "Nine"
  | ten => "Ten"
  | jack => "Jack"
  | queen => "Queen"
  | king => "King"
  | ace => "Ace"

/-- The English name of several cards of a rank. -/
def plural : Rank → String
  | six => "Sixes"
  | r => r.name ++ "s"

/-- The text of a rank, its symbol. -/
def text (r : Rank) : String := String.singleton r.symbol

theorem mem_all (r : Rank) : r ∈ all := by cases r <;> decide

theorem mem_descending (r : Rank) : r ∈ descending := by cases r <;> decide

theorem ofValue_value (r : Rank) : ofValue r.value = .ok r := by cases r <;> rfl

end Rank

end CaliforniaPoker
