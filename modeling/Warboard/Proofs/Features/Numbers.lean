import Warboard.Proofs.Features.Layout
import Warboard.Proofs.Game.Marks
import Warboard.Proofs.Rounding.Sum
import Warboard.Proofs.Training.Row

namespace Warboard

open Checked Single

/-- The sum that the average movement of the units is taken of. -/
def Territory.moved (t : Territory) : Float32 :=
  (t.units.map fun s => ofFloat s.marks.alreadyMoved).foldl (· + ·) 0

/-- The movement that the event sets for units. -/
def Change.Event.movement? : Event → Option Float
  | .property _ name value _ => if name = "alreadyMoved" then Text.readReal value.toList else none
  | _ => none

/-- The movements that the lines set for units. -/
def Change.movements (lines : List Text) : List Float :=
  (lines.flatMap leaves).filterMap Event.movement?

theorem Single.atMost_zero (n : Nat) : AtMost n 0 := .zero .positive

namespace Features

variable {values : List Float32} {w : World} {t : Territory} {f : Features} {phase : Phase}

theorem atMost_flag (b : Bool) : AtMost (2 ^ 251) (flag b) := by
  cases b with
  | false => exact atMost_zero _
  | true =>
      exact (atMost_ofBits (w := 0x3F800000) (c := 127) (by decide) (by decide)).mono
        (Nat.pow_le_pow_right (by decide) (by decide))

theorem isFinite_flag (b : Bool) : (flag b).isFinite = true := (atMost_flag b).isFinite

theorem isFinite_mean (values : List Float32) :
    (mean values).isFinite = (values.foldl (· + ·) 0).isFinite := by
  cases values with
  | nil => rfl
  | cons x values => exact isFinite_div_ofNat (Nat.succ_pos _) _

theorem isFinite_sum (h : ∀ x ∈ values, AtMost (2 ^ 251) x) :
    (values.foldl (· + ·) 0).isFinite = true :=
  ((atMost_zero _).foldl_add (k := 276) (by decide) le_rfl h).isFinite

theorem isFinite_mean_map {α : Type} {g : α → Float32} (h : ∀ a, AtMost (2 ^ 251) (g a))
    (xs : List α) : (mean (xs.map g)).isFinite = true := by
  rw [isFinite_mean]
  exact isFinite_sum (List.forall_mem_map.2 fun a _ => h a)

theorem atMost_int32 (n : Int32) : AtMost (2 ^ 251) (ofInt n.toInt) := by
  have hlow := n.minValue_le_toInt
  have hhigh := n.toInt_le
  have hbound : n.toInt.natAbs < 2 ^ 33 := by
    change -2147483648 ≤ n.toInt at hlow
    change n.toInt ≤ 2147483647 at hhigh
    omega
  exact (atMost_ofInt hbound).mono (Nat.pow_le_pow_right (by decide) (by decide))

theorem isFinite_count (n : UInt32) : (ofInt n.toNat).isFinite = true := by
  have hn := n.toNat_lt
  exact (atMost_ofInt (by omega)).isFinite

theorem isFinite_row {r : List Float32} (h : row w t = .ok r) :
    (∀ x ∈ r, x.isFinite = true) ↔ t.moved.isFinite = true := by
  obtain ⟨total, -, h⟩ := bind_eq_ok_iff.mp h
  cases h
  -- All but the movements are flags, a count, or averages of numbers with few digits.
  rw [List.forall_mem_append, List.forall_mem_map, Territory.moved, ← isFinite_mean]
  simp only [List.forall_mem_cons, List.not_mem_nil, false_imp_iff, implies_true, and_true,
    isFinite_flag, isFinite_count, true_and,
    isFinite_mean_map fun s : Stack => atMost_flag s.marks.wasInCombat,
    isFinite_mean_map fun r : UnitRule => atMost_int32 r.attack,
    isFinite_mean_map fun r : UnitRule => atMost_int32 r.defense]

theorem isFinite_rows {ts : List Territory} {rows : List (List Float32)}
    (h : List.Forall₂ (fun t r => row w t = .ok r) ts rows) :
    (∀ r ∈ rows, ∀ x ∈ r, x.isFinite = true) ↔ ∀ t ∈ ts, t.moved.isFinite = true := by
  induction h with
  | nil => simp
  | cons hr _ ih => rw [List.forall_mem_cons, List.forall_mem_cons, isFinite_row hr, ih]

/-- Only the movements can be other than finite. -/
theorem finite_iff (h : ofWorld w phase = .ok f) :
    f.Finite ↔ ∀ t ∈ w.board.territories, t.moved.isFinite = true := by
  obtain ⟨rows, hrows, h⟩ := bind_eq_ok_iff.mp h
  cases h
  rw [← isFinite_rows (mapM_eq_ok_iff.1 hrows)]
  refine ⟨Finite.territories, fun h => ⟨h, ?_, ?_⟩⟩
  · exact List.forall_mem_map.2 fun t _ => List.forall_mem_map.2 fun i _ => isFinite_flag _
  · exact List.forall_mem_map.2 fun p _ => isFinite_flag _

/-- A movement so small that any number of them can be added. -/
def Small (m : Marks) : Prop := AtMost (2 ^ 251) (ofFloat m.alreadyMoved)

theorem small_fresh : Small .fresh := by
  have hzero : ofFloat Marks.fresh.alreadyMoved = 0 := by decide
  rw [Small, hzero]
  exact atMost_zero _

theorem admitted_of_movement? {event : Change.Event}
    (h : ∀ x ∈ event.movement?, AtMost (2 ^ 251) (ofFloat x)) : event.Admitted Small := by
  cases event with
  | property key name value old =>
      intro m hm
      simp only [Change.Event.movement?] at h
      rw [Marks.set]
      split
      · exact hm
      · split
        · rename_i hname
          rw [if_pos hname] at h
          split
          · rename_i x hx
            exact h x hx
          · exact small_fresh
        · exact hm
  | _ => trivial

theorem isFinite_moved (h : ∀ s ∈ t.units, Small s.marks) : t.moved.isFinite = true :=
  isFinite_sum (List.forall_mem_map.2 h)

/-- All numbers are finite if and only if in each territory the sum of the movements is. It is if no
movement that was read is above `2 ^ 102`, which is `2 ^ 251` times the least number, and it is not if
a movement is infinite or no number. A row with these features can be read back if and only if all
numbers are finite. -/
theorem finite_ofWorld {r : MapRecord} {lines : List Text} {g : Game}
    {read : Text → Option Float32} (hw : World.ofRecord r = .ok w)
    (h : (Game.ofWorld w).applyAll lines = .ok g) (hf : ofWorld g.world phase = .ok f)
    (hread : ReadsFinite read) :
    (f.Finite ↔ ∀ t ∈ g.world.board.territories, t.moved.isFinite = true) ∧
      ((∀ x ∈ Change.movements lines, AtMost (2 ^ 251) (ofFloat x)) → f.Finite) ∧
      (f.Finite → ∀ t ∈ g.world.board.territories, ∀ s ∈ t.units,
        (ofFloat s.marks.alreadyMoved).isFinite = true) ∧
      ∀ p : PurchaseRecord, p.state = f →
        ((PurchaseRecord.ofLine read p.toLine).isSome = true ↔ f.Finite) := by
  refine ⟨finite_iff hf, fun hsmall => (finite_iff hf).2 fun t ht => ?_, fun hfin t ht => ?_, ?_⟩
  · have hmarked := Game.applyAll_marked hw small_fresh (fun event hevent =>
      admitted_of_movement? fun x hx => hsmall x (List.mem_filterMap.2 ⟨event, hevent, hx⟩)) h
    exact isFinite_moved (hmarked t ht)
  · obtain ⟨-, hall⟩ := isFinite_of_foldl_add ((finite_iff hf).1 hfin t ht)
    exact List.forall_mem_map.1 hall
  · rintro p rfl
    exact p.isSome_ofLine hread

def barracks : MapRecord := outpost.placeUnits "Ural" "infantry" "Red" 1

/-- Red takes the territory, and its infantry there has moved. -/
def march (moved : String) : List Text :=
  ["Red takes Ural from Neutral".toList,
    ("Property change, unit:infantry owned by Red property:alreadyMoved newValue:" ++ moved ++
      " oldValue:0").toList]

theorem finite_ofWorld_march : ∃ w g f, World.ofRecord barracks = .ok w ∧
    (Game.ofWorld w).applyAll (march "2") = .ok g ∧ ofWorld g.world .purchase = .ok f ∧
    ReadsFinite Text.readSingle ∧ f.Finite ∧
    (PurchaseRecord.ofLine Text.readSingle
      (PurchaseRecord.toLine ⟨"1", "Red", .purchase, 1, 1, f, [0], 0⟩)).isSome = true := by
  have hsums : (do
      let w ← World.ofRecord barracks
      let g ← (Game.ofWorld w).applyAll (march "2")
      let _ ← ofWorld g.world .purchase
      return g.world.board.territories.map Territory.moved) = (.ok [2] : Checked _) := by
    decide +kernel
  obtain ⟨w, hw, hsums⟩ := bind_eq_ok_iff.mp hsums
  obtain ⟨g, hg, hsums⟩ := bind_eq_ok_iff.mp hsums
  obtain ⟨f, hf, hsums⟩ := bind_eq_ok_iff.mp hsums
  simp only [pure, Except.pure, Except.ok.injEq] at hsums
  obtain ⟨hfinite, -, -, hrow⟩ := finite_ofWorld hw hg hf readsFinite_readSingle
  have hmoved : ∀ t ∈ g.world.board.territories, t.moved.isFinite = true := by
    rw [← List.forall_mem_map (P := fun x : Float32 => x.isFinite = true), hsums]
    decide
  exact ⟨w, g, f, hw, hg, hf, readsFinite_readSingle, hfinite.2 hmoved,
    (hrow _ rfl).2 (hfinite.2 hmoved)⟩

/-- The name of the non-number is taken for a movement. A row of such a game has null for the average,
and cannot be read back. -/
theorem not_finite_ofWorld_march : ∃ w g f, World.ofRecord barracks = .ok w ∧
    (Game.ofWorld w).applyAll (march "NaN") = .ok g ∧ ofWorld g.world .purchase = .ok f ∧
    ¬ f.Finite ∧ ∀ p : PurchaseRecord, p.state = f →
      PurchaseRecord.ofLine Text.readSingle p.toLine = none := by
  have hsums : (do
      let w ← World.ofRecord barracks
      let g ← (Game.ofWorld w).applyAll (march "NaN")
      let _ ← ofWorld g.world .purchase
      return g.world.board.territories.map fun t => t.moved.isFinite) =
      (.ok [false] : Checked _) := by
    decide +kernel
  obtain ⟨w, hw, hsums⟩ := bind_eq_ok_iff.mp hsums
  obtain ⟨g, hg, hsums⟩ := bind_eq_ok_iff.mp hsums
  obtain ⟨f, hf, hsums⟩ := bind_eq_ok_iff.mp hsums
  simp only [pure, Except.pure, Except.ok.injEq] at hsums
  have hinfinite : ¬ f.Finite := by
    rw [finite_iff hf, ← List.forall_mem_map (P := fun b => b = true), hsums]
    decide
  refine ⟨w, g, f, hw, hg, hf, hinfinite, ?_⟩
  rintro p rfl
  rw [← Option.not_isSome_iff_eq_none, p.isSome_ofLine readsFinite_readSingle]
  exact hinfinite

end Features

end Warboard
