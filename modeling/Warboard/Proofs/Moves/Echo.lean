import Warboard.Map.Builder
import Warboard.Proofs.Moves.Listing
import Warboard.Proofs.Moves.Tally
import Warboard.Proofs.Text.LetterCase

namespace Warboard

open Text Checked

/-- The name of a unit type is got back from the name of the rule that yields it. -/
structure Legible (unit : String) : Prop where
  nonempty : capitalize unit.toList ≠ []
  word : ∀ c ∈ capitalize unit.toList, isWord c = true
  lower_eq : lower (capitalize unit.toList) = unit.toList

theorem Legible.of_plain {unit : String} (hne : unit.toList ≠ [])
    (h : ∀ c ∈ unit.toList, c ∈ plain) : Legible unit where
  nonempty := fun hnone => hne (by rw [← lower_capitalize h, hnone]; rfl)
  word := isWord_of_mem_capitalize h
  lower_eq := lower_capitalize h

namespace Purchase

/-- A unit type and how many of it were bought, as the engine says it. -/
def wording (entry : String × UInt32) : Text :=
  "ProductionRule:".toList ++ ((MapRecord.ruleName entry.1).toList ++
    (" -> ".toList ++ digits entry.2.toNat))

theorem wording_def (entry : String × UInt32) : wording entry = "ProductionRule:buy".toList ++
    (capitalize entry.1.toList ++ (" -> ".toList ++ digits entry.2.toNat)) := by
  have hrule : (MapRecord.ruleName entry.1).toList = "buy".toList ++ capitalize entry.1.toList := by
    simp [MapRecord.ruleName]
  have hlead : "ProductionRule:buy".toList = "ProductionRule:".toList ++ "buy".toList := by decide
  rw [hlead, List.append_assoc, ← List.append_assoc "buy".toList, ← hrule]
  rfl

/-- The echo of a purchase. It can name a unit type more than once. -/
def echo (entries : List (String × UInt32)) : Text := [' '].intercalate (entries.map wording)

theorem exists_mentions {entries : List (String × UInt32)} (h : ∀ e ∈ entries, Legible e.1) :
    ∃ ms : List Change.Mention, ms.map Change.Mention.render = entries.map wording ∧
      ms.map Change.Mention.entry = entries := by
  induction entries with
  | nil => exact ⟨[], rfl, rfl⟩
  | cons e entries ih =>
      obtain ⟨he, hrest⟩ := List.forall_mem_cons.1 h
      obtain ⟨ms, hrender, hentry⟩ := ih hrest
      refine ⟨⟨⟨capitalize e.1.toList, he.nonempty, he.word⟩, e.2⟩ :: ms, ?_, ?_⟩
      · rw [List.map_cons, List.map_cons, hrender, Change.Mention.render_def, wording_def]
      · rw [List.map_cons, hentry, Change.Mention.entry, he.lower_eq, String.ofList_toList]

theorem productions_echo {entries : List (String × UInt32)} (h : ∀ e ∈ entries, Legible e.1) :
    Change.productions (echo entries) = entries := by
  obtain ⟨ms, hrender, hentries⟩ := exists_mentions h
  rw [echo, ← hrender, ← Change.echo, Change.productions_echo, hentries]

/-- A text that names the units of a purchase, together as many of each as are bought, is read as
that purchase. -/
theorem ofText_eq_some {text : Text} {p : Purchase} (hp : p.Proper) (hne : p ≠ ∅)
    (hmem : ∀ e ∈ Change.productions text, e.1 ∈ p)
    (hsum : ∀ unit, amount unit (Change.productions text) = (p.getD unit 0).toNat) :
    ofText text = .ok (some p) := by
  have htallies : Tallies (Change.productions text) p := by
    refine ⟨fun unit => ⟨fun hunit => ?_, ?_⟩, fun unit => (hsum unit).symm⟩
    · apply exists_of_amount_ne_zero
      intro hzero
      rw [hsum, ← UInt32.toNat_zero, UInt32.toNat_inj] at hzero
      exact hp unit (hzero ▸ Std.ExtTreeMap.getElem?_eq_some_getD hunit)
    · rintro ⟨e, he, rfl⟩
      exact hmem e he
  rw [htallies.ofText_eq, if_neg (mt htallies.eq_empty_iff.2 hne)]

end Purchase

namespace PurchaseMove

variable {w : World} {player : String} {moves : List PurchaseMove} {m : PurchaseMove}

theorem purchase_ne_empty_of_legal (h : legal w player = .ok moves) (hm : m ∈ moves) :
    m.purchase ≠ ∅ := by
  intro hempty
  apply (affordable_of_legal h hm).nonempty
  rw [hempty]
  rfl

/-- A listed purchase is read off every echo of it, in which its units stand in any order and each
as often as one likes. -/
theorem ofText_echo (h : legal w player = .ok moves) (hm : m ∈ moves)
    {entries : List (String × UInt32)} (hlegible : ∀ e ∈ entries, Legible e.1)
    (hbought : ∀ e ∈ entries, e.1 ∈ m.purchase)
    (hamount : ∀ unit, Purchase.amount unit entries = (m.purchase.getD unit 0).toNat) :
    Purchase.ofText (Purchase.echo entries) = .ok (some m.purchase) := by
  apply Purchase.ofText_eq_some (proper_of_legal h hm) (purchase_ne_empty_of_legal h hm) <;>
    rwa [Purchase.productions_echo hlegible]

end PurchaseMove

end Warboard
