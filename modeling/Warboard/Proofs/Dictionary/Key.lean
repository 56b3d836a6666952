import Warboard.Proofs.Dictionary.Numbering
import Warboard.Proofs.Json.Table

namespace Warboard.Purchase

/-- One entry for each unit type, in name order. -/
def entries (p : Purchase) : List (Text × Json) :=
  p.toList.map fun (unit, n) => (Json.escape unit.toList, .ofNat n.toNat)

theorem toJson_eq (p : Purchase) : (p.toJson fun n => .ofNat n.toNat) = .object p.entries := by
  rw [Table.toJson, Json.record, List.map_map]
  rfl

theorem parse_key_entries (p : Purchase) : Json.parse p.key.toList = some (.object p.entries) := by
  have hwritten := Table.written_toJson (fun n : UInt32 => Json.written_ofNat n.toNat) p
  rw [key, String.toList_ofList, Json.parse_render Json.Spacing.spaced_isBlank hwritten, toJson_eq]

/-- The text that stands for a purchase says how many of each unit it buys. -/
theorem parse_key (p : Purchase) :
    Json.parse p.key.toList >>= Table.ofJson Json.uint32? = some p := by
  rw [key, String.toList_ofList]
  exact Table.parse_render_toJson (fun n => Json.written_ofNat n.toNat) Json.uint32?_ofNat
    Json.Spacing.spaced_isBlank p

theorem key_injective : Function.Injective key := fun p q h => by
  have hsome : some p = some q := by rw [← parse_key p, h, parse_key q]
  exact Option.some.inj hsome

/-- Whatever the names of the units, the text that stands for a purchase is a document that says
what the purchase is. So another purchase has another text, and keeps its own entry of any dictionary
when this one is numbered; it never gets the number, either, if that is new. -/
theorem key_identifies (p : Purchase) :
    Json.parse p.key.toList = some (.object p.entries) ∧
    Json.parse p.key.toList >>= Table.ofJson Json.uint32? = some p ∧
    ∀ q : Purchase, q ≠ p → q.key ≠ p.key ∧
      ∀ (d d' : Dictionary) (id : UInt32), d.idFor p.key = .ok (id, d') →
        d'.ids[p.key]? = some id ∧ d'.ids[q.key]? = d.ids[q.key]? ∧
        (Dictionary.IsNext d.ids d.nextId → d.ids[p.key]? = none → d'.ids[q.key]? ≠ some id) := by
  refine ⟨parse_key_entries p, parse_key p, fun q hq => ?_⟩
  have hkey : q.key ≠ p.key := fun h => hq (key_injective h)
  refine ⟨hkey, fun d d' id h => ?_⟩
  have hadds := Dictionary.idFor_adds h
  have hnot : q.key ∉ Dictionary.newKeys d.ids [p.key] := fun hmem =>
    hkey (List.mem_singleton.1 (Dictionary.mem_newKeys.1 hmem).1)
  have hid := Dictionary.idFor_eq_some h
  refine ⟨hid, hadds.kept _ hnot, fun hnext hnew hsame => ?_⟩
  exact hkey (hadds.unique hnext hnew hid hsame)

/-- One of `a` and two of `b`. -/
def mixed : Purchase := (∅ : Purchase).insert "a" 1 |>.insert "b" 2

/-- Two of a unit whose name is made to look like the end of one entry and the start of another. -/
def forged : Purchase := (∅ : Purchase).insert "a\": 1, \"b" 2

theorem key_identifies_forged : forged ≠ mixed ∧
    mixed.key = "\x7b\"a\": 1, \"b\": 2\x7d" ∧
    forged.key = "\x7b\"a\\\": 1, \\\"b\": 2\x7d" ∧
    Json.parse mixed.key.toList >>= Table.ofJson Json.uint32? = some mixed ∧
    forged.key ≠ mixed.key ∧
    ∃ id d, Dictionary.inMemory.idFor mixed.key = .ok (id, d) ∧ d.ids[mixed.key]? = some id ∧
      d.ids[forged.key]? = none := by
  have hne : forged ≠ mixed := by decide +kernel
  obtain ⟨-, hparse, hother⟩ := key_identifies mixed
  obtain ⟨hkey, hentry⟩ := hother forged hne
  obtain ⟨hid, hkept, -⟩ := hentry .inMemory _ _ rfl
  exact ⟨hne, by decide +kernel, by decide +kernel, hparse, hkey, _, _, rfl, hid, hkept⟩

end Warboard.Purchase
