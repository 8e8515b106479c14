import Mathlib.Data.Int.Order.Basic
import Mathlib.Order.Basic
import Mathlib.Order.Defs.Unbundled
import Mathlib.Order.Lattice

/-!
# Scalar types and wire enumerations

Identifiers are natural numbers and quantities are integers, so that no
computation of the engine wraps.  A price keeps its 64-bit mantissa, because the
null price and the price limits of the wire format are values of that type.

An enumeration whose values come off the wire by a cast has one more constructor
than the source lists: the cast accepts every byte, and a byte outside the list
stays what it was.
-/

namespace SimCme

abbrev OrderId := Nat

/-- Client order ids are byte strings. -/
abbrev ClOrdId := List UInt8

abbrev SecurityId := Int

/-- Nanoseconds since the epoch. -/
abbrev Timestamp := Nat

abbrev SessionUuid := Nat

/-- Fixed-point price: {lit}`mantissa * 10^-9`. -/
structure Price where
  mantissa : Int64
deriving DecidableEq, Repr

namespace Price

theorem toInt_injective :
    Function.Injective fun p : Price => p.mantissa.toInt := by
  rintro ⟨a⟩ ⟨b⟩ hab
  exact congrArg Price.mk (Int64.toInt_inj.mp hab)

/-- Prices compare by their mantissas. -/
instance : LinearOrder Price :=
  LinearOrder.lift' (fun p => p.mantissa.toInt) toInt_injective

/-- The null price, {lit}`INT64_MAX`. -/
def null : Price :=
  ⟨Int64.maxValue⟩

/-- Whether a price is the null price. -/
def isNull (p : Price) : Bool :=
  p.mantissa == Int64.maxValue

instance : Inhabited Price :=
  ⟨⟨0⟩⟩

end Price

/-- A floating-point number of the configuration.  Numbers of the configuration are only
compared. -/
inductive Double where
  | finite (x : Rat)
  | posInf
  | negInf
  | nan
deriving DecidableEq, Repr

namespace Double

/-- The comparison {lit}`<`, false of everything that is not a number. -/
def lt : Double → Double → Bool
  | .finite x, .finite y => x < y
  | .negInf, .finite _ => true
  | .negInf, .posInf => true
  | .finite _, .posInf => true
  | _, _ => false

/-- The comparison {lit}`<=`, false of everything that is not a number. -/
def le (x y : Double) : Bool :=
  x.lt y || (x = y && x ≠ .nan)

end Double

inductive Side where
  | buy
  | sell
  | unlisted (code : UInt8)
deriving DecidableEq, Repr

/-- The cast from the wire byte. -/
def Side.ofCode (code : UInt8) : Side :=
  if code = 1 then .buy
  else if code = 2 then .sell
  else .unlisted code

/-- The cast to the wire byte. -/
def Side.code : Side → UInt8
  | .buy => 1
  | .sell => 2
  | .unlisted code => code

/-- One of the two listed sides. -/
def Side.Listed (s : Side) : Prop :=
  s = .buy ∨ s = .sell

instance (s : Side) : Decidable s.Listed :=
  inferInstanceAs (Decidable (s = .buy ∨ s = .sell))

inductive OrderType where
  | market
  | limit
  | stopLimit
  | stopMarket
  | unlisted (code : UInt8)
deriving DecidableEq, Repr

/-- The cast from the wire byte. -/
def OrderType.ofCode (code : UInt8) : OrderType :=
  if code = 1 then .market
  else if code = 2 then .limit
  else if code = 3 then .stopLimit
  else if code = 4 then .stopMarket
  else .unlisted code

/-- The cast to the wire byte. -/
def OrderType.code : OrderType → UInt8
  | .market => 1
  | .limit => 2
  | .stopLimit => 3
  | .stopMarket => 4
  | .unlisted code => code

inductive TimeInForce where
  | day
  | gtc
  | ioc
  | fok
  | gtd
  | unlisted (code : UInt8)
deriving DecidableEq, Repr

/-- The cast from the wire byte. -/
def TimeInForce.ofCode (code : UInt8) : TimeInForce :=
  if code = 0 then .day
  else if code = 1 then .gtc
  else if code = 3 then .ioc
  else if code = 4 then .fok
  else if code = 6 then .gtd
  else .unlisted code

/-- The cast to the wire byte. -/
def TimeInForce.code : TimeInForce → UInt8
  | .day => 0
  | .gtc => 1
  | .ioc => 3
  | .fok => 4
  | .gtd => 6
  | .unlisted code => code

inductive OrdStatus where
  | new
  | partiallyFilled
  | filled
  | canceled
  | replaced
  | rejected
deriving DecidableEq, Repr

inductive MDUpdateAction where
  | new
  | change
  | delete
  | deleteThru
  | deleteFrom
  | overlay
deriving DecidableEq, Repr

inductive SecurityTradingStatus where
  | preOpen
  | open
  | halt
  | close
deriving DecidableEq, Repr

/-! ## The two halves of a book

The engine tests {lit}`side == Side::Buy` and takes the other branch for every
other value.  A {lit}`BookSide` names the branch.
-/

inductive BookSide where
  | bid
  | ask
deriving DecidableEq, Repr

namespace BookSide

/-- The opposite half. -/
def opposite : BookSide → BookSide
  | .bid => .ask
  | .ask => .bid

/-- The side written into the updates of this half. -/
def side : BookSide → Side
  | .bid => .buy
  | .ask => .sell

/-- Iteration order of the half's level map: bids descend and asks ascend. -/
def Better : BookSide → Price → Price → Prop
  | .bid, p, q => q < p
  | .ask, p, q => p < q

instance decidableBetter (s : BookSide) : DecidableRel s.Better :=
  match s with
  | .bid => fun p q => inferInstanceAs (Decidable (q < p))
  | .ask => fun p q => inferInstanceAs (Decidable (p < q))

instance strictTotalBetter (s : BookSide) : IsStrictTotalOrder Price s.Better where
  irrefl p := by
    cases s <;> exact lt_irrefl p
  trans p q r := by
    cases s with
    | bid => exact fun hqp hrq => lt_trans hrq hqp
    | ask => exact lt_trans
  trichotomous p q := by
    cases s with
    | bid =>
        intro hqp hpq
        exact le_antisymm (not_lt.mp hqp) (not_lt.mp hpq)
    | ask =>
        intro hpq hqp
        exact le_antisymm (not_lt.mp hqp) (not_lt.mp hpq)

@[simp]
theorem opposite_ne (s : BookSide) : s.opposite ≠ s := by
  cases s <;> decide

/-- Of two halves, one is the given one or its opposite. -/
@[simp]
theorem opposite_opposite (s : BookSide) : s.opposite.opposite = s := by
  cases s <;> rfl

theorem eq_or_eq_opposite (s s' : BookSide) : s' = s ∨ s' = s.opposite := by
  cases s <;> cases s' <;> decide

end BookSide

/-- The branch {lit}`side == Side::Buy` selects. -/
def Side.bookSide (s : Side) : BookSide :=
  if s = .buy then .bid else .ask

@[simp]
theorem Side.bookSide_side (s : BookSide) : s.side.bookSide = s := by
  cases s <;> rfl

/-- A listed side is the side of the half it selects. -/
theorem Side.Listed.eq_side {s : Side} (hs : s.Listed) : s.bookSide.side = s := by
  rcases hs with rfl | rfl <;> rfl

end SimCme
