import Warboard.Proofs.Json.Real
import Warboard.Proofs.Moves.Action
import Warboard.Training.Record

namespace Warboard

def Text.readSingle (t : Text) : Option Float32 := (readReal t).map Single.ofFloat

section

variable (read : Text → Option Float32)

/-- A number; `read` reads its spelling. -/
def Json.float32? : Json → Option Float32
  | .number lexeme => read lexeme
  | _ => none

def Features.ofJson (j : Json) : Option Features := do
  let [some territories, some adjacency, some phase] ←
    j.columns ["node_features", "adjacency", "global_features"] | none
  return ⟨← territories.list? (Json.list? (Json.float32? read)),
    ← adjacency.list? (Json.list? (Json.float32? read)), ← phase.list? (Json.float32? read)⟩

def PurchaseRecord.ofJson (j : Json) : Option PurchaseRecord := do
  let [some round, some player, some delegate, some before, some after, some state, some legal,
    some chosen] ← j.columns ["round", "player", "delegate", "pu_before_move", "pu_after_move",
      "state", "legal_moves", "chosen_move"] | none
  return ⟨← round.string?, ← player.string?, ← Phase.ofJson delegate, ← before.int64?,
    ← after.int64?, ← Features.ofJson read state, ← legal.list? Json.uint32?, ← chosen.uint32?⟩

def PurchaseRecord.ofLine (t : Text) : Option PurchaseRecord := Json.parse t >>= ofJson read

/-- Can the reader read every finite number that is written? -/
def ReadsFinite : Prop := ∀ x : Float32, x.isFinite = true → (read (Text.ofFloat32 x)).isSome = true

end

variable {read : Text → Option Float32}

theorem readsFinite_readSingle : ReadsFinite Text.readSingle := by
  intro x _
  obtain ⟨y, hy⟩ := Json.readReal_ofFloat32 x
  rw [Text.readSingle, hy]
  rfl

namespace Json

theorem isSome_float32? (hread : ReadsFinite read) (x : Float32) :
    ((ofFloat32 x).float32? read).isSome = x.isFinite := by
  rw [ofFloat32]
  cases hx : x.isFinite with
  | true => exact hread x hx
  | false => rfl

theorem isSome_mapM {α β : Type} {f : α → Option β} {xs : List α} :
    (xs.mapM f).isSome = true ↔ ∀ x ∈ xs, (f x).isSome = true := by
  induction xs with
  | nil => simp
  | cons x xs ih =>
      rw [List.mapM_cons, List.forall_mem_cons, ← ih]
      cases f x <;> cases xs.mapM f <;> simp

theorem isSome_list? {α β : Type} {f : Json → Option β} {g : α → Json} {xs : List α} :
    ((Json.array (xs.map g)).list? f).isSome = true ↔ ∀ x ∈ xs, (f (g x)).isSome = true := by
  rw [list?, isSome_mapM, List.forall_mem_map]

theorem any_const {α : Type} (o : Option α) (b : Bool) : o.any (fun _ => b) = (o.isSome && b) := by
  cases o <;> simp

theorem written_ofFloat32 (x : Float32) : Written (ofFloat32 x) := by
  rw [ofFloat32]
  split
  · exact .number (isNumeral_ofFloat32 x)
  · exact .null

end Json

open Json

namespace Features

/-- All numbers are finite. -/
structure Finite (f : Features) : Prop where
  territories : ∀ row ∈ f.territories, ∀ x ∈ row, x.isFinite = true
  adjacency : ∀ row ∈ f.adjacency, ∀ x ∈ row, x.isFinite = true
  phase : ∀ x ∈ f.phase, x.isFinite = true

theorem written_toJson (f : Features) : Written f.toJson := by
  have hrow (xs : List Float32) : Written (.array (xs.map Json.ofFloat32)) :=
    written_array written_ofFloat32 xs
  exact written_record_of_forall ⟨written_array hrow _, written_array hrow _, hrow _⟩

theorem isSome_ofJson (hread : ReadsFinite read) (f : Features) :
    (ofJson read f.toJson).isSome = true ↔ f.Finite := by
  have hrow (xs : List Float32) : ((Json.array (xs.map Json.ofFloat32)).list?
      (float32? read)).isSome = true ↔ ∀ x ∈ xs, x.isFinite = true := by
    simp only [isSome_list?, isSome_float32? hread]
  have hrows (rows : List (List Float32)) : ((Json.array (rows.map fun xs =>
      Json.array (xs.map Json.ofFloat32))).list? (list? (float32? read))).isSome = true ↔
      ∀ xs ∈ rows, ∀ x ∈ xs, x.isFinite = true := by
    simp only [isSome_list?, hrow]
  have hfinite : f.Finite ↔ (∀ xs ∈ f.territories, ∀ x ∈ xs, x.isFinite = true) ∧
      (∀ xs ∈ f.adjacency, ∀ x ∈ xs, x.isFinite = true) ∧ ∀ x ∈ f.phase, x.isFinite = true :=
    ⟨fun h => ⟨h.territories, h.adjacency, h.phase⟩, fun h => ⟨h.1, h.2.1, h.2.2⟩⟩
  rw [hfinite, ← hrows, ← hrows, ← hrow, ofJson, toJson, columns_record]
  simp [column, Option.isSome_bind, any_const]

end Features

namespace PurchaseRecord

theorem written_toJson (r : PurchaseRecord) : Written r.toJson :=
  written_record_of_forall ⟨written_ofText _, written_ofText _, written_ofText _, written_ofInt _,
    written_ofInt _, r.state.written_toJson, written_array (fun _ => written_ofNat _) _,
    written_ofNat _⟩

theorem isSome_ofJson (hread : ReadsFinite read) (r : PurchaseRecord) :
    (ofJson read r.toJson).isSome = true ↔ r.state.Finite := by
  -- All columns but the state are read back as they were written.
  have hlegal : (Json.array (r.legalMoves.map fun n => Json.ofNat n.toNat)).list? uint32? =
      some r.legalMoves := list?_array uint32?_ofNat _
  rw [← Features.isSome_ofJson hread, ofJson, toJson, columns_record]
  simp [column, string?_ofString, Phase.ofJson_toJson, int64?_ofInt, hlegal, uint32?_ofNat,
    Option.isSome_bind]

/-- A row of a dataset can be read back if and only if all numbers in it are finite. -/
theorem isSome_ofLine (hread : ReadsFinite read) (r : PurchaseRecord) :
    (ofLine read r.toLine).isSome = true ↔ r.state.Finite := by
  rw [ofLine, toLine, parse_render Spacing.compact_isBlank r.written_toJson]
  exact isSome_ofJson hread r

end PurchaseRecord

end Warboard
