import Mathlib.Data.List.Perm.Basic
import Warboard.Map.Record
import Warboard.Proofs.Checked

namespace Warboard.Table

variable {α : Type} (t : Table α)

theorem getElem?_insert (key name : String) (a : α) :
    (t.insert key a)[name]? = if key = name then some a else t[name]? := by
  simp [Std.ExtTreeMap.getElem?_insert, Std.LawfulEqCmp.compare_eq_iff_eq]

theorem getElem?_erase (key name : String) :
    (t.erase key)[name]? = if key = name then none else t[name]? := by
  simp [Std.ExtTreeMap.getElem?_erase, Std.LawfulEqCmp.compare_eq_iff_eq]

theorem getElem?_modify (key name : String) (f : α → α) :
    (t.modify key f)[name]? = if key = name then t[name]?.map f else t[name]? := by
  simp only [Std.ExtTreeMap.getElem?_modify, Std.LawfulEqCmp.compare_eq_iff_eq]
  split
  · subst key
    rfl
  · rfl

theorem insert_comm {key key' : String} (h : key ≠ key') (a a' : α) :
    (t.insert key a).insert key' a' = (t.insert key' a').insert key a := by
  ext1 name
  simp only [getElem?_insert]
  by_cases hname : key = name
  · subst hname
    simp [Ne.symm h]
  · simp [hname]

theorem modify_comm {key key' : String} (h : key ≠ key') (f f' : α → α) :
    (t.modify key f).modify key' f' = (t.modify key' f').modify key f := by
  ext1 name
  simp only [getElem?_modify]
  by_cases hname : key = name
  · subst hname
    simp [Ne.symm h]
  · simp [hname]

theorem size_insert_of_none {t : Table α} {key : String} (h : t[key]? = none) (a : α) :
    (t.insert key a).size = t.size + 1 := by
  rw [Std.ExtTreeMap.size_insert, if_neg (by simpa using h)]

/-- An entry grows by a quantity, and the others stay. -/
theorem toNat_getD_insert {t : Table UInt32} {key : String} {n total : UInt32}
    (h : addQuantity (t.getD key 0) n = .ok total) (k : String) :
    ((t.insert key total).getD k 0).toNat =
      (t.getD k 0).toNat + if key = k then n.toNat else 0 := by
  rw [addQuantity_eq_ok_iff] at h
  rw [Std.ExtTreeMap.getD_insert]
  simp only [Std.LawfulEqCmp.compare_eq_iff_eq]
  by_cases hk : key = k
  · rw [if_pos hk, if_pos hk, h, hk]
  · rw [if_neg hk, if_neg hk, Nat.add_zero]

/-- A table made of entries with different keys has these and no others. -/
theorem getElem?_ofList_eq_some_iff {es : List (String × α)} (hkeys : (es.map Prod.fst).Nodup)
    {key : String} {a : α} :
    (Std.ExtTreeMap.ofList es : Table α)[key]? = some a ↔ (key, a) ∈ es := by
  have hdistinct : es.Pairwise fun e e' => ¬ compare e.1 e'.1 = .eq :=
    (List.pairwise_map.1 hkeys).imp fun hne he => hne (Std.LawfulEqCmp.eq_of_compare he)
  have hmem {b : α} (h : (key, b) ∈ es) : (Std.ExtTreeMap.ofList es : Table α)[key]? = some b :=
    Std.ExtTreeMap.getElem?_ofList_of_mem Std.ReflCmp.compare_self hdistinct h
  refine ⟨fun h => ?_, hmem⟩
  by_cases hkey : key ∈ es.map Prod.fst
  · obtain ⟨⟨_, b⟩, hb, rfl⟩ := List.mem_map.1 hkey
    rw [hmem hb] at h
    cases h
    exact hb
  · rw [Std.ExtTreeMap.getElem?_ofList_of_contains_eq_false (by simpa using hkey)] at h
    cases h

theorem ofList_toList : Std.ExtTreeMap.ofList t.toList = t := by
  have hkeys : (t.toList.map Prod.fst).Nodup := by
    rw [Std.ExtTreeMap.map_fst_toList_eq_keys]
    exact Std.ExtTreeMap.nodup_keys
  ext key a
  rw [getElem?_ofList_eq_some_iff hkeys, Std.ExtTreeMap.mem_toList_iff_getElem?_eq_some]

/-- Where a key has one value only, the order of the entries does not matter. -/
theorem ofList_perm {es es' : List (String × α)} (h : es.Perm es')
    (hvalue : ∀ e ∈ es, ∀ e' ∈ es, e.1 = e'.1 → e.2 = e'.2) :
    Std.ExtTreeMap.ofList es = Std.ExtTreeMap.ofList es' := by
  rw [Std.ExtTreeMap.ofList_eq_foldl, Std.ExtTreeMap.ofList_eq_foldl]
  refine h.foldl_eq' (fun e he e' he' t => ?_) ∅
  by_cases hkey : e.1 = e'.1
  · rw [hvalue e he e' he' hkey, hkey]
  · exact insert_comm t hkey e.2 e'.2

theorem eq_of_mem_toList {t : Table α} {e e' : String × α} (he : e ∈ t.toList) (he' : e' ∈ t.toList)
    (hkey : e.1 = e'.1) : e.2 = e'.2 := by
  rw [Std.ExtTreeMap.mem_toList_iff_getElem?_eq_some] at he he'
  rw [hkey, he'] at he
  exact (Option.some.inj he).symm

theorem ofList_of_perm {es : List (String × α)} {t : Table α} (h : es.Perm t.toList) :
    Std.ExtTreeMap.ofList es = t :=
  (ofList_perm h fun _ he _ he' => eq_of_mem_toList (h.mem_iff.1 he) (h.mem_iff.1 he')).trans
    t.ofList_toList

theorem values_eq : t.values = t.toList.map Prod.snd := by
  have hfold : t.values = t.foldr (fun _ a as => a :: as) [] := rfl
  rw [hfold, Std.ExtTreeMap.foldr_eq_foldr_toList]
  induction t.toList with
  | nil => rfl
  | cons e es ih => rw [List.foldr_cons, ih, List.map_cons]

theorem mem_values {t : Table α} {a : α} : a ∈ t.values ↔ ∃ key : String, t[key]? = some a := by
  simp only [values_eq, List.mem_map, Prod.exists, exists_eq_right,
    Std.ExtTreeMap.mem_toList_iff_getElem?_eq_some]

theorem toList_nodup : t.toList.Nodup := by
  refine Std.ExtTreeMap.distinct_keys_toList.imp ?_
  rintro a b hkeys rfl
  exact hkeys Std.ReflCmp.compare_self

theorem toList_perm_erase {t : Table α} {key : String} {a : α} (h : t[key]? = some a) :
    t.toList.Perm ((key, a) :: (t.erase key).toList) := by
  have hnew : (key, a) ∉ (t.erase key).toList := by
    rw [Std.ExtTreeMap.mem_toList_iff_getElem?_eq_some, getElem?_erase, if_pos rfl]
    exact Option.some_ne_none a ∘ Eq.symm
  rw [List.perm_ext_iff_of_nodup t.toList_nodup (List.nodup_cons.2 ⟨hnew, toList_nodup _⟩)]
  rintro ⟨name, b⟩
  rw [List.mem_cons, Std.ExtTreeMap.mem_toList_iff_getElem?_eq_some,
    Std.ExtTreeMap.mem_toList_iff_getElem?_eq_some, getElem?_erase]
  by_cases hname : key = name
  · subst hname
    simp [h, eq_comm]
  · simp [hname, Ne.symm hname]

theorem erase_of_none {t : Table α} {key : String} (h : t[key]? = none) : t.erase key = t := by
  ext1 name
  rw [getElem?_erase]
  split
  · subst key
    exact h.symm
  · rfl

theorem erase_insert (key : String) (a : α) : (t.insert key a).erase key = t.erase key := by
  ext1 name
  rw [getElem?_erase, getElem?_erase, getElem?_insert]
  split <;> rfl

end Warboard.Table
