import Warboard.Proofs.Board.Amend
import Warboard.Proofs.Board.Invariant

namespace Warboard

open Checked

namespace Board

variable {b b' : Board} {names cities : List String} {i j : TerritoryId} {op : Operation}

def crowns (b : Board) : List Bool := b.territories.map Territory.victoryCity

theorem SameGround.crowns_eq (h : SameGround b b') : b'.crowns = b.crowns := by
  have hcrowns := congrArg (List.map fun site => site.2.2) h
  rw [List.map_map, List.map_map] at hcrowns
  exact hcrowns

theorem crowns_relink (f : Std.ExtTreeSet TerritoryId → TerritoryId → Std.ExtTreeSet TerritoryId) :
    (b.relink f i j).crowns = b.crowns := by
  refine (map_updateTerritory ?_).trans (map_updateTerritory ?_)
  · exact fun _ => rfl
  · exact fun _ => rfl

theorem crowns_connect {origin target : String} (h : b.connect origin target = some b') :
    b'.crowns = b.crowns := by
  obtain ⟨i, j, -, -, rfl⟩ := connect_eq_some_iff.1 h
  exact crowns_relink _

theorem crowns_disconnect {origin target : String} (h : b.disconnect origin target = some b') :
    b'.crowns = b.crowns := by
  obtain ⟨i, j, -, rfl⟩ := disconnect_eq_some_iff.1 h
  exact crowns_relink _

theorem crowns_perform (h : b.perform op = .ok b') : b'.crowns = b.crowns := by
  have hgetD {c : Option Board} (hc : ∀ b' ∈ c, b'.crowns = b.crowns) :
      (c.getD b).crowns = b.crowns :=
    getD_keeps (P := fun b' => b'.crowns = b.crowns) rfl hc
  -- An operation on connections leaves all else of the ground as it is.
  cases hlink : op.isLink with
  | false => exact (sameGround_perform hlink h).crowns_eq
  | true =>
      cases op with
      | connect => cases h; exact hgetD fun _ hc => crowns_connect hc
      | disconnect => cases h; exact hgetD fun _ hc => crowns_disconnect hc
      | _ => cases hlink

/-- The victory cities are the territories that the names lead to. -/
def Crowned (cities : List String) (b : Board) : Prop :=
  ∀ i t, b.territories[i]? = some t → t.victoryCity = (cities.filterMap b.locate).contains i

theorem Crowned.perform (hb : b.Sound names) (h : b.Crowned cities) (hop : b.perform op = .ok b') :
    b'.Crowned cities := by
  intro i t' ht'
  have hi : b'.crowns[i]? = b.crowns[i]? := congrArg (·[i]?) (crowns_perform hop)
  rw [crowns, crowns, List.getElem?_map, List.getElem?_map, ht', Option.map_some, eq_comm,
    Option.map_eq_some_iff] at hi
  obtain ⟨t, ht, hcrown⟩ := hi
  have hlocate : b'.locate = b.locate := funext (hb.locate_eq (hb.perform hop))
  rw [← hcrown, h i t ht, hlocate]

theorem withCities_crowned (h : true ∉ b.crowns) (cities : List String) :
    (b.withCities cities).Crowned cities := by
  have hlocate : (b.withCities cities).locate = b.locate := by
    funext name
    rw [withCities_eq_amend]
    refine locate_amend ?_ name
    exact fun _ _ => rfl
  intro i t' ht'
  rw [withCities_eq_amend, getElem?_amend, Option.map_eq_some_iff] at ht'
  obtain ⟨t, ht, rfl⟩ := ht'
  have hplain : t.victoryCity = false :=
    Bool.eq_false_iff.2 fun htrue => h (List.mem_map.2 ⟨t, List.mem_of_getElem? ht, htrue⟩)
  rw [hplain, Bool.or_false, hlocate]

theorem ofRecord_crowned {r : MapRecord} (h : ofRecord r = .ok b) :
    b.Crowned r.victoryCities := by
  obtain ⟨c, hc, rfl⟩ := exists_ofRecord_eq (P := fun b => true ∉ b.crowns) (by simp [crowns, bare])
    (fun _ _ _ _ _ hb hb' => (sameGround_addUnits hb').crowns_eq ▸ hb)
    (fun _ _ _ _ hb hb' => crowns_connect hb' ▸ hb) h
  exact withCities_crowned hc r.victoryCities

end Board

theorem World.after_crowned {r : MapRecord} {ops : List World.Operation} {w : World}
    (h : World.after r ops = .ok w) : w.board.Crowned r.victoryCities := by
  have hboth := World.after_keeps (P := fun b => b.Sound r.territories ∧ b.Crowned r.victoryCities)
    (fun _ hb => ⟨Board.ofRecord_sound hb, Board.ofRecord_crowned hb⟩)
    (fun _ _ _ _ _ _ hb hb' => ⟨hb.1.perform hb', hb.2.perform hb.1 hb'⟩) h
  exact hboth.1.2

end Warboard
