import OrderDispatch.Json.Shape

/-!
# Kinds of orders and of payment
-/

namespace OrderDispatch

/-- What is ordered. -/
inductive OrderKind where
  | ride
  | foodDelivery
  | packageDelivery
  | groceryDelivery
  | serviceBooking
deriving DecidableEq, Repr, Inhabited

namespace OrderKind

/-- Every kind of order. -/
def all : List OrderKind := [ride, foodDelivery, packageDelivery, groceryDelivery, serviceBooking]

/-- The name of a kind of order. -/
def name : OrderKind → String
  | ride => "RIDE"
  | foodDelivery => "FOOD_DELIVERY"
  | packageDelivery => "PACKAGE_DELIVERY"
  | groceryDelivery => "GROCERY_DELIVERY"
  | serviceBooking => "SERVICE_BOOKING"

/-- The service that a provider must offer for an order of this kind. -/
def serviceType : OrderKind → String
  | ride => "ride"
  | foodDelivery => "food_delivery"
  | packageDelivery => "package_delivery"
  | groceryDelivery => "grocery_delivery"
  | serviceBooking => "service_booking"

/-- The kind of order with exactly this name. -/
def ofName? (s : String) : Option OrderKind := all.find? (·.name == s)

instance : Coded OrderKind where
  shape := .choice (all.map name)
  encode k := .text k.name
  decode? j := j.text?.bind ofName?

end OrderKind

/-- How an order is paid. -/
inductive PaymentMethod where
  | creditCard
  | debitCard
  | digitalWallet
  | cash
  | crypto
deriving DecidableEq, Repr, Inhabited

namespace PaymentMethod

/-- Every payment method. -/
def all : List PaymentMethod := [creditCard, debitCard, digitalWallet, cash, crypto]

/-- The name of a payment method. -/
def name : PaymentMethod → String
  | creditCard => "CREDIT_CARD"
  | debitCard => "DEBIT_CARD"
  | digitalWallet => "DIGITAL_WALLET"
  | cash => "CASH"
  | crypto => "CRYPTO"

/-- The payment method with exactly this name. -/
def ofName? (s : String) : Option PaymentMethod := all.find? (·.name == s)

instance : Coded PaymentMethod where
  shape := .choice (all.map name)
  encode m := .text m.name
  decode? j := j.text?.bind ofName?

end PaymentMethod

end OrderDispatch
