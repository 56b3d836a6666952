import Warboard.Board.World
import Warboard.Change.Reader

namespace Warboard

/-- How many of each unit type are bought. -/
abbrev Purchase := Table UInt32

namespace Purchase

def add (p : Purchase) (unit : String) (n : UInt32) : Checked Purchase := do
  return p.insert unit (← addQuantity (p.getD unit 0) n)

/-- The purchase that a text of the engine names; none if it names nothing. -/
def ofText (t : Text) : Checked (Option Purchase) := do
  let p ← (Change.productions t).foldlM (fun p (unit, n) => p.add unit n) (∅ : Purchase)
  return if p.isEmpty then none else some p

/-- Unit types without a cost are free. -/
def price (catalog : Catalog) (p : Purchase) : Checked Int64 :=
  p.toList.foldlM (fun total (unit, n) => do
    addAmount total (← multiplyAmount ((catalog.cost unit).getD 0) n.toUInt64.toInt64)) 0

end Purchase

/-- A unit type for sale. -/
structure Offer where
  unit : String
  cost : Int64
  deriving DecidableEq, Repr

def Catalog.offers (c : Catalog) : List Offer :=
  (c.purchasable.filter fun (_, cost) => 0 < cost).map fun (unit, cost) => ⟨unit, cost⟩

/-- Units picked so far and what they cost together. -/
structure Basket where
  purchase : Purchase
  cost : Int64
  deriving DecidableEq

namespace Basket

def empty : Basket := ⟨∅, 0⟩

def add (b : Basket) (o : Offer) : Checked Basket := do
  return ⟨← b.purchase.add o.unit 1, ← addAmount b.cost o.cost⟩

/-- All baskets with `n` more units, none from before the first offer left, and for the budget at
most. Those with more of an earlier offer come first. -/
def fill : List Offer → (n : Nat) → (budget : Int) → Basket → Checked (List Basket)
  | _, 0, _, b => .ok [b]
  | [], _ + 1, _, _ => .ok []
  | o :: offers, n + 1, budget, b => do
    let here ← if o.cost.toInt ≤ budget then do
        fill (o :: offers) n (budget - o.cost.toInt) (← b.add o)
      else .ok []
    return here ++ (← fill offers (n + 1) budget b)
termination_by offers n => offers.length + n

end Basket

structure PurchaseMove where
  purchase : Purchase
  cost : Int64
  /-- Where the units can be placed. -/
  placeIn : List String
  deriving DecidableEq

def Board.factories (b : Board) (player : String) : List TerritoryId :=
  (b.territories.zipIdx.filter fun (t, _) =>
    t.units.any fun s => s.key = ⟨"factory", player⟩ && 0 < s.quantity).map Prod.snd

def Board.factoryNames (b : Board) (player : String) : List String :=
  (b.factories player).map b.nameOf

namespace PurchaseMove

variable (w : World) (player : String)

/-- The move that buys the units, whether the player can pay for them or not. -/
def ofPurchase (p : Purchase) : Checked PurchaseMove := do
  return ⟨p, ← p.price w.catalog, w.board.factoryNames player⟩

/-- All ways to spend the balance or a part of it, those with fewer units first. A player without a
factory buys nothing. -/
def legal : Checked (List PurchaseMove) :=
  let placeIn := w.board.factoryNames player
  let budget := (w.board.balanceOf player).toInt
  match placeIn, (w.catalog.offers.map fun o => o.cost.toInt).min? with
  | _ :: _, some cheapest => do
    let sizes := (List.range (budget / cheapest).toNat).map (· + 1)
    let baskets ← sizes.mapM fun n => Basket.fill w.catalog.offers n budget .empty
    return baskets.flatten.map fun b => ⟨b.purchase, b.cost, placeIn⟩
  | _, _ => .ok []

end PurchaseMove

end Warboard
