import Warboard.Proofs.Change.Production
import Warboard.Proofs.Moves.Price

namespace Warboard.Purchase

open Checked

/-- How many of a unit type the entries name together. -/
def amount (unit : String) (entries : List (String × UInt32)) : Nat :=
  (entries.map fun (u, n) => if u = unit then n.toNat else 0).sum

variable {entries entries' : List (String × UInt32)} {p p' : Purchase} {text : Text}

theorem amount_cons (unit : String) (e : String × UInt32) (entries : List (String × UInt32)) :
    amount unit (e :: entries) = (if e.1 = unit then e.2.toNat else 0) + amount unit entries := rfl

theorem amount_perm (h : entries'.Perm entries) (unit : String) :
    amount unit entries' = amount unit entries :=
  (h.map _).sum_eq

theorem amount_le (unit : String) (entries : List (String × UInt32)) :
    amount unit entries ≤ (entries.map fun e => e.2.toNat).sum := by
  apply List.sum_le_sum
  rintro ⟨u, n⟩ -
  dsimp only
  split <;> omega

theorem exists_of_amount_ne_zero {unit : String} (h : amount unit entries ≠ 0) :
    ∃ e ∈ entries, e.1 = unit := by
  by_contra hnone
  apply h
  apply List.sum_eq_zero
  intro k hk
  obtain ⟨e, he, rfl⟩ := List.mem_map.1 hk
  exact if_neg fun hunit => hnone ⟨e, he, hunit⟩

theorem getD_of_foldlM (h : entries.foldlM (fun p (unit, n) => p.add unit n) p = .ok p')
    (unit : String) : (p'.getD unit 0).toNat = (p.getD unit 0).toNat + amount unit entries := by
  induction entries generalizing p with
  | nil =>
      cases h
      rfl
  | cons e entries ih =>
      obtain ⟨q, hadd, h⟩ := bind_eq_ok_iff.mp h
      rw [ih h, getD_of_add hadd, amount_cons, Nat.add_assoc]

theorem mem_foldlM (h : entries.foldlM (fun p (unit, n) => p.add unit n) p = .ok p')
    {unit : String} : unit ∈ p' ↔ unit ∈ p ∨ ∃ e ∈ entries, e.1 = unit := by
  induction entries generalizing p with
  | nil =>
      cases h
      simp
  | cons e entries ih =>
      obtain ⟨q, hadd, h⟩ := bind_eq_ok_iff.mp h
      obtain ⟨total, -, hadd⟩ := bind_eq_ok_iff.mp hadd
      cases hadd
      rw [ih h, Std.ExtTreeMap.mem_insert, compare_eq_iff_eq]
      simp only [List.exists_mem_cons_iff, or_assoc, or_left_comm]

/-- The purchase has the units that the entries name and no others, each as often as they name it
together. -/
structure Tallies (entries : List (String × UInt32)) (p : Purchase) : Prop where
  mem_iff : ∀ unit, unit ∈ p ↔ ∃ e ∈ entries, e.1 = unit
  count_eq : ∀ unit, (p.getD unit 0).toNat = amount unit entries

namespace Tallies

theorem perm (h : Tallies entries p) (hperm : entries'.Perm entries) : Tallies entries' p where
  mem_iff unit := by simp only [h.mem_iff, hperm.mem_iff]
  count_eq unit := by rw [h.count_eq, amount_perm hperm]

theorem unique (h : Tallies entries p) (h' : Tallies entries p') : p = p' := by
  apply Std.ExtTreeMap.ext_getElem?
  intro unit
  by_cases hunit : unit ∈ p
  · have hunit' : unit ∈ p' := (h'.mem_iff unit).2 ((h.mem_iff unit).1 hunit)
    have hcount : p[unit]? = some (p.getD unit 0) := Std.ExtTreeMap.getElem?_eq_some_getD hunit
    have hcount' : p'[unit]? = some (p'.getD unit 0) := Std.ExtTreeMap.getElem?_eq_some_getD hunit'
    rw [hcount, hcount', Option.some.injEq, ← UInt32.toNat_inj, h.count_eq, h'.count_eq]
  · have hunit' : unit ∉ p' := fun hmem => hunit ((h.mem_iff unit).2 ((h'.mem_iff unit).1 hmem))
    rw [Std.ExtTreeMap.getElem?_eq_none hunit, Std.ExtTreeMap.getElem?_eq_none hunit']

theorem eq_empty_iff (h : Tallies entries p) : p = ∅ ↔ entries = [] := by
  constructor
  · rintro rfl
    rw [List.eq_nil_iff_forall_not_mem]
    exact fun e he => Std.ExtTreeMap.not_mem_empty ((h.mem_iff e.1).2 ⟨e, he, rfl⟩)
  · rintro rfl
    rw [Std.ExtTreeMap.eq_empty_iff_forall_not_mem]
    intro unit hunit
    obtain ⟨e, he, -⟩ := (h.mem_iff unit).1 hunit
    exact List.not_mem_nil he

end Tallies

theorem tallies_of_foldlM
    (h : entries.foldlM (fun p (unit, n) => p.add unit n) (∅ : Purchase) = .ok p) :
    Tallies entries p where
  mem_iff unit := by rw [mem_foldlM h, or_iff_right Std.ExtTreeMap.not_mem_empty]
  count_eq unit := by
    rw [getD_of_foldlM h, Std.ExtTreeMap.getD_empty, UInt32.toNat_zero, Nat.zero_add]

/-- What a text names is read as one purchase, or as none if the text names nothing. -/
theorem ofText_of_summable (h : Summable text) : ∃ p, Tallies (Change.productions text) p ∧
    ofText text = .ok (if Change.productions text = [] then none else some p) := by
  obtain ⟨made, hmade⟩ := exists_ofText_iff.2 h
  rw [hmade]
  obtain ⟨p, hp, hmade⟩ := bind_eq_ok_iff.mp hmade
  have htallies := tallies_of_foldlM hp
  cases hmade
  refine ⟨p, htallies, ?_⟩
  simp only [Std.ExtTreeMap.isEmpty_iff, htallies.eq_empty_iff]

theorem Tallies.ofText_eq (h : Tallies (Change.productions text) p) :
    ofText text = .ok (if Change.productions text = [] then none else some p) := by
  have hsummable : Summable text := fun unit =>
    (h.count_eq unit).symm.trans_lt (p.getD unit 0).toNat_lt_size
  obtain ⟨q, hq, htext⟩ := ofText_of_summable hsummable
  rw [htext, hq.unique h]

/-- The echo of a purchase is read as the sum of what it mentions, in whatever order it does, and an
empty one as no purchase. -/
theorem ofText_mentions {ms : List Change.Mention}
    (h : ∀ unit, amount unit (ms.map Change.Mention.entry) < UInt32.size) :
    ∃ p, Tallies (ms.map Change.Mention.entry) p ∧ ∀ ms', ms'.Perm ms →
      ofText (Change.echo ms') = .ok (if ms = [] then none else some p) := by
  have hsummable : Summable (Change.echo ms) := fun unit => by
    rw [Change.productions_echo]
    exact h unit
  obtain ⟨p, hp, -⟩ := ofText_of_summable hsummable
  rw [Change.productions_echo] at hp
  refine ⟨p, hp, fun ms' hperm => ?_⟩
  have hp' : Tallies (Change.productions (Change.echo ms')) p := by
    rw [Change.productions_echo]
    exact hp.perm (hperm.map _)
  have hnil : ms' = [] ↔ ms = [] := by
    rw [← List.length_eq_zero_iff, hperm.length_eq, List.length_eq_zero_iff]
  rw [hp'.ofText_eq]
  simp only [Change.productions_echo, List.map_eq_nil_iff, hnil]

/-- One unit type in two spellings, and another between them. -/
def muster : List Change.Mention :=
  [⟨.ofString "Infantry" (by decide), 4294967290⟩, ⟨.ofString "aaGun" (by decide), 0⟩,
    ⟨.ofString "INFANTRY" (by decide), 5⟩]

theorem ofText_mentions_muster : String.ofList (Change.echo muster) =
      "ProductionRule:buyInfantry -> 4294967290 ProductionRule:buyaaGun -> 0 " ++
        "ProductionRule:buyINFANTRY -> 5" ∧
    (∀ unit, amount unit (muster.map Change.Mention.entry) < UInt32.size) ∧
    ∃ p : Purchase, p.toList = [("aagun", 0), ("infantry", 4294967295)] ∧
      ∀ ms, ms.Perm muster → ofText (Change.echo ms) = .ok (some p) := by
  have hsum (unit : String) : amount unit (muster.map Change.Mention.entry) < UInt32.size :=
    (amount_le unit _).trans_lt (by decide +kernel)
  obtain ⟨p, -, hread⟩ := ofText_mentions hsum
  have htable : (ofText (Change.echo muster)).toOption.join.map (·.toList) =
      some [("aagun", 0), ("infantry", 4294967295)] := by
    decide +kernel
  rw [hread muster (.refl muster)] at htable
  exact ⟨by decide +kernel, hsum, p, Option.some.inj htable, hread⟩

end Warboard.Purchase
