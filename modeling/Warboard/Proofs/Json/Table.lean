import Warboard.Map.Format
import Warboard.Proofs.Json.RoundTrip
import Warboard.Proofs.Table

namespace Warboard

namespace Json

open Text

theorem written_ofText (t : Text) : Written (ofText t) := .string t

theorem written_ofInt (n : Int) : Written (ofInt n) := .number (isNumeral_signedDigits n)

theorem written_ofNat (n : Nat) : Written (ofNat n) := .number (isNumeral_digits n)

theorem written_record {entries : List (String × Json)} (h : ∀ e ∈ entries, Written e.2) :
    Written (record entries) := by
  refine .object ?_ ?_
  · intro e he
    obtain ⟨⟨key, j⟩, -, rfl⟩ := List.mem_map.1 he
    exact ⟨key.toList, rfl⟩
  · intro e he
    obtain ⟨⟨key, j⟩, hmem, rfl⟩ := List.mem_map.1 he
    exact h _ hmem

/-- Entries that are listed one by one. -/
theorem written_record_of_forall {entries : List (String × Json)}
    (h : entries.Forall fun e => Written e.2) : Written (record entries) :=
  written_record (List.forall_iff_forall_mem.1 h)

theorem written_ofString (s : String) : Written (ofString s) := written_ofText s.toList

theorem written_entries {α : Type} {f : α → Json} (h : ∀ a, Written (f a))
    (es : List (String × α)) : Written (record (es.map fun (key, a) => (key, f a))) := by
  apply written_record
  intro e he
  obtain ⟨⟨key, a⟩, -, rfl⟩ := List.mem_map.1 he
  exact h a

theorem string?_ofString (s : String) : (ofString s).string? = some s := by
  rw [ofString, ofText, string?, unescape_escape]
  exact congrArg some String.ofList_toList

theorem int?_ofInt (n : Int) : (ofInt n).int? = some n := by
  have hzero : signedDigits n ≠ ['-', '0'] := by
    rw [signedDigits]
    split
    · intro h
      exact digits_head_ne_zero (by omega) [] (List.cons.inj h).2
    · exact digits_head_ne_minus _ _
  rw [ofInt, int?, if_neg hzero, readInt_signedDigits]

theorem ofInt_natCast (n : Nat) : ofInt n = ofNat n := by
  rw [ofInt, ofNat, signedDigits, if_neg (by omega), Int.natAbs_natCast]

theorem below?_ofNat {size n : Nat} (h : n < size) : (ofNat n).below? size = some n := by
  rw [below?, ← ofInt_natCast, int?_ofInt]
  simp [h]

theorem uint16?_ofNat (n : UInt16) : (ofNat n.toNat).uint16? = some n := by
  rw [uint16?, below?_ofNat n.toNat_lt_size]
  exact congrArg some (UInt16.ofNat_toNat)

theorem uint32?_ofNat (n : UInt32) : (ofNat n.toNat).uint32? = some n := by
  rw [uint32?, below?_ofNat n.toNat_lt_size]
  exact congrArg some (UInt32.ofNat_toNat)

theorem uint64?_ofNat (n : UInt64) : (ofNat n.toNat).uint64? = some n := by
  rw [uint64?, below?_ofNat n.toNat_lt_size]
  exact congrArg some (UInt64.ofNat_toNat)

/-- The entries of a record are read back in order. -/
theorem entries?_record {α : Type} {f : α → Json} {g : Json → Option α}
    (h : ∀ a, g (f a) = some a) (entries : List (String × α)) :
    (record (entries.map fun (key, a) => (key, f a))).entries? g = some entries := by
  rw [record, entries?]
  induction entries with
  | nil => rfl
  | cons e entries ih =>
      rw [List.map_cons, List.map_cons, List.mapM_cons, ih]
      simp [unescape_escape, h]

theorem between?_ofInt {lo hi n : Int} (h : lo ≤ n ∧ n ≤ hi) :
    (ofInt n).between? lo hi = some n := by
  rw [between?, int?_ofInt]
  exact if_pos h

theorem int32?_ofInt (n : Int32) : (ofInt n.toInt).int32? = some n := by
  rw [int32?, between?_ofInt ⟨n.minValue_le_toInt, n.toInt_le⟩]
  exact congrArg some (Int32.ofInt_toInt n)

theorem int64?_ofInt (n : Int64) : (ofInt n.toInt).int64? = some n := by
  rw [int64?, between?_ofInt ⟨n.minValue_le_toInt, n.toInt_le⟩]
  exact congrArg some (Int64.ofInt_toInt n)

theorem list?_array {α : Type} {f : Json → Option α} {g : α → Json} (h : ∀ a, f (g a) = some a)
    (xs : List α) : (Json.array (xs.map g)).list? f = some xs := by
  rw [list?]
  induction xs with
  | nil => rfl
  | cons x xs ih =>
      rw [List.map_cons, List.mapM_cons, h, ih]
      rfl

theorem written_array {α : Type} {f : α → Json} (h : ∀ a, Written (f a)) (xs : List α) :
    Written (.array (xs.map f)) :=
  .array (List.forall_mem_map.2 fun a _ => h a)

theorem columns_record {fields : List String} {entries : List (String × Json)} :
    (record entries).columns fields = fields.mapM (column entries) := by
  have hentries := entries?_record (f := id) (g := some) (fun _ => rfl) entries
  simp only [id_eq, List.map_id'] at hentries
  rw [record] at hentries ⊢
  rw [columns, hentries]
  rfl

section Column

variable {entries : List (String × Json)} {key : String}

theorem filter_key_eq_nil (h : key ∉ entries.map Prod.fst) :
    (entries.filter fun e => e.1 = key) = [] := by
  rw [List.filter_eq_nil_iff]
  intro e he hkey
  exact h (List.mem_map.2 ⟨e, he, of_decide_eq_true hkey⟩)

theorem column_of_not_mem (h : key ∉ entries.map Prod.fst) : column entries key = some none := by
  rw [column, filter_key_eq_nil h]

/-- A value is found under its key, wherever its entry stands. -/
theorem column_of_mem (hkeys : (entries.map Prod.fst).Nodup) {j : Json} (h : (key, j) ∈ entries) :
    column entries key = some (some j) := by
  obtain ⟨before, later, rfl⟩ := List.append_of_mem h
  rw [List.map_append, List.map_cons, List.perm_middle.nodup_iff, List.nodup_cons,
    List.mem_append, not_or] at hkeys
  rw [column, List.filter_append, filter_key_eq_nil hkeys.1.1, List.filter_cons_of_pos (by simp),
    filter_key_eq_nil hkeys.1.2]
  rfl

end Column

end Json

namespace Table

open Json

variable {α : Type} {f : α → Json} {g : Json → Option α}

/-- Whatever the order of its entries, a table is read back. -/
theorem ofJson_record (h : ∀ a, g (f a) = some a) {es : List (String × α)} {t : Table α}
    (hperm : es.Perm t.toList) :
    ofJson g (.record (es.map fun (key, a) => (key, f a))) = some t := by
  rw [ofJson, entries?_record h]
  exact congrArg some (ofList_of_perm hperm)

theorem ofJson_toJson (h : ∀ a, g (f a) = some a) (t : Table α) :
    ofJson g (t.toJson f) = some t := ofJson_record h (.refl t.toList)

theorem written_toJson (h : ∀ a, Written (f a)) (t : Table α) : Written (t.toJson f) :=
  written_entries h t.toList

/-- A table that was written is read back entry for entry. -/
theorem parse_render_toJson (hwritten : ∀ a, Written (f a)) (hread : ∀ a, g (f a) = some a)
    {sp : Spacing} (hsp : sp.IsBlank) (t : Table α) :
    parse ((t.toJson f).render sp) >>= ofJson g = some t := by
  rw [parse_render hsp (written_toJson hwritten t)]
  exact ofJson_toJson hread t

end Table

end Warboard
