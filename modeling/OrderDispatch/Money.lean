import OrderDispatch.Number.Decimal
import OrderDispatch.Order.Basic

/-!
# Prices

The check of the amounts of an item, and the totals of an order. Totals are computed in decimals:
the price of an order is the sum of price times quantity, ten percent of it go to the platform and
eighty to the provider.
-/

namespace OrderDispatch

/-! ## Amounts of an item -/

/-- What is wrong with an amount. -/
inductive InvalidAmount where
  | notFinite (field : String) (value : Float)
  | negative (field : String) (value : Float)
deriving DecidableEq

/-- The text about a wrong amount. -/
def InvalidAmount.message : InvalidAmount → String
  | .notFinite field value =>
    field ++ " must be a finite number, got " ++ Binary64.plainText value
  | .negative field value =>
    field ++ " must be non-negative, got " ++ Binary64.plainText value

/-- Checks that an amount is a number and not below zero. -/
def checkAmount (field : String) (value : Float) : Except InvalidAmount Unit :=
  if !Binary64.isFinite value then .error (.notFinite field value)
  else if value < 0 then .error (.negative field value)
  else .ok ()

/-- Checks the price and then the quantity of an item. -/
def OrderItem.check (item : OrderItem) : Except InvalidAmount Unit := do
  checkAmount "price" item.price
  checkAmount "quantity" item.quantity

/-! ## Totals -/

/-- The three amounts of an order. -/
structure Totals where
  price : Float
  platformFee : Float
  providerFee : Float
deriving DecidableEq

namespace Totals

/-- The share of the platform, ten percent. -/
def platformRate : Decimal := ⟨false, 10, 2⟩

/-- The share of the provider, eighty percent. -/
def providerRate : Decimal := ⟨false, 80, 2⟩

/-- The price of an item times its quantity. -/
def itemTotal (item : OrderItem) : Except Overflow Decimal :=
  (Decimal.ofFloat item.price).mul (Decimal.ofFloat item.quantity)

/-- The price of all items, added up one by one. -/
def decimalTotal (items : List OrderItem) : Except Overflow Decimal :=
  items.foldlM (fun total item => do total.add (← itemTotal item)) Decimal.zero

/-- The amounts that follow from the total. -/
def ofTotal (total : Decimal) : Except Overflow Totals := do
  let platform ← total.mul platformRate
  let provider ← total.mul providerRate
  return ⟨total.toFloat, platform.toFloat, provider.toFloat⟩

/-- The amounts of an order with these items. -/
def ofItems (items : List OrderItem) : Except Overflow Totals := do
  ofTotal (← decimalTotal items)

end Totals

end OrderDispatch
