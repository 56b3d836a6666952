import Warboard.Json.Parser
import Warboard.Map.Format
import Warboard.Moves.Purchase
import Warboard.Training.Directory

namespace Warboard

/-- The text that stands for a purchase in the dictionary. -/
def Purchase.key (p : Purchase) : String :=
  String.ofList ((p.toJson fun n => .ofNat n.toNat).render .spaced)

/-- The numbers of all purchases that were ever legal. A number is never used again. -/
structure Dictionary where
  /-- The file of the dictionary; one without a file is never written. -/
  home : Option String
  ids : Table UInt32
  nextId : UInt32
  /-- Has it changed since it was written last? -/
  dirty : Bool
  deriving DecidableEq

namespace Dictionary

def inMemory : Dictionary := ⟨none, ∅, 0, false⟩

/-- Content that cannot be read counts as none. -/
def read (content : Option (List UInt8)) : Table UInt32 :=
  (content >>= Text.ofOctets >>= Json.parse >>= Table.ofJson Json.uint32?).getD ∅

/-- The number after all numbers of the table, and no less than its size. -/
def firstFree (ids : Table UInt32) : Checked UInt32 :=
  ids.values.foldlM (fun n id => do return max n (← addQuantity id 1)) (UInt32.ofNat ids.size)

def load (home : String) (content : Option (List UInt8)) : Checked Dictionary := do
  let ids := read content
  return ⟨some home, ids, ← firstFree ids, false⟩

variable (d : Dictionary)

/-- The number of the key, which is the next free one if the key is new. -/
def idFor (key : String) : Checked (UInt32 × Dictionary) :=
  match d.ids[key]? with
  | some id => .ok (id, d)
  | none => do
    let nextId ← addQuantity d.nextId 1
    return (d.nextId, { d with ids := d.ids.insert key d.nextId, nextId := nextId, dirty := true })

/-- The numbers of the keys, in order. -/
def idsFor : List String → Dictionary → Checked (List UInt32 × Dictionary)
  | [], d => .ok ([], d)
  | key :: keys, d => do
    let (id, d) ← d.idFor key
    let (ids, d) ← idsFor keys d
    return (id :: ids, d)

/-- Gives each key a number. Was any of them new? -/
def register (keys : List String) : Checked (Bool × Dictionary) := do
  let (_, d') ← idsFor keys d
  return (d.ids.size < d'.ids.size, d')

def render : Text := (d.ids.toJson fun n => .ofNat n.toNat).render .lines

/-- Writes the dictionary if it has changed. None if that fails. -/
def save (dir : Directory) : Option (Dictionary × Directory) :=
  if d.dirty then
    match d.home with
    | some home => do
      return ({ d with dirty := false }, ← dir.write home (.octets (Text.toOctets d.render)))
    | none => some ({ d with dirty := false }, dir)
  else some (d, dir)

end Dictionary

end Warboard
