import Warboard.Proofs.Board.Withdrawal

namespace Warboard

open Checked Change

/-- What the steps of a loop do one by one, the loop does for all its items. -/
theorem Checked.foldlM_relates {α β : Type} {R : List α → β → β → Prop} {step : β → α → Checked β}
    (hnil : ∀ b, R [] b b)
    (happend : ∀ xs ys a b c, R xs a b → R ys b c → R (xs ++ ys) a c)
    (hstep : ∀ b x c, step b x = .ok c → R [x] b c) {xs : List α} {b c : β}
    (h : xs.foldlM step b = .ok c) : R xs b c := by
  induction xs generalizing b with
  | nil => cases h; exact hnil _
  | cons x xs ih =>
      rw [List.foldlM_cons, bind_eq_ok_iff] at h
      obtain ⟨d, hd, h⟩ := h
      exact happend [x] xs b d c (hstep b x d hd) (ih h)

theorem Checked.foldl_relates {α β : Type} {R : List α → β → β → Prop} {step : β → α → β}
    (hnil : ∀ b, R [] b b)
    (happend : ∀ xs ys a b c, R xs a b → R ys b c → R (xs ++ ys) a c)
    (hstep : ∀ b x, R [x] b (step b x)) (xs : List α) (b : β) : R xs b (xs.foldl step b) := by
  have hpure : xs.foldlM (fun b x => (.ok (step b x) : Checked β)) b = .ok (xs.foldl step b) :=
    List.foldlM_pure
  exact foldlM_relates hnil happend (fun b x _ h => Except.ok.inj h ▸ hstep b x) hpure

/-- All is as it was. -/
def Unchanged {ι α : Type} (_ : ι) (a a' : α) : Prop := a' = a

/-- All is as it was but in one place. -/
def OnlyAt {ι α : Type} (place : ι) (R : α → α → Prop) (i : ι) (a a' : α) : Prop :=
  (i = place → R a a') ∧ (i ≠ place → a' = a)

namespace OnlyAt

variable {ι α : Type} {place i : ι} {R S T : α → α → Prop} {a b c : α}

theorem refl (h : R a a) : OnlyAt place R i a a := ⟨fun _ => h, fun _ => rfl⟩

theorem trans (hR : ∀ a b c, R a b → S b c → T a c) (h : OnlyAt place R i a b)
    (h' : OnlyAt place S i b c) : OnlyAt place T i a c :=
  ⟨fun hi => hR a b c (h.1 hi) (h'.1 hi), fun hi => (h'.2 hi).trans (h.2 hi)⟩

end OnlyAt

theorem Option.rel_trans {α : Type} {R S T : α → α → Prop} (hR : ∀ a b c, R a b → S b c → T a c)
    (a b c : Option α) (h : Option.Rel R a b) (h' : Option.Rel S b c) : Option.Rel T a c := by
  cases h with
  | none => cases h'; exact .none
  | some h => cases h' with | some h' => exact .some (hR _ _ _ h h')

theorem Option.rel_map {α : Type} {R : α → α → Prop} {f : α → α} {a : Option α}
    (h : ∀ x ∈ a, R x (f x)) : Option.Rel R a (a.map f) := by
  cases a with
  | none => exact .none
  | some x => exact .some (h x rfl)

namespace Stack

variable {key : UnitKey} {units units' : List Stack}

/-- The stacks of other keys. -/
def besides (keys : List UnitKey) (units : List Stack) : List Stack :=
  units.filter fun s => s.key ∉ keys

theorem besides_append (keys keys' : List UnitKey) (units : List Stack) :
    besides (keys ++ keys') units = besides keys (besides keys' units) := by
  rw [besides, besides, besides, List.filter_filter]
  congr 1
  funext s
  simp [not_or]

theorem besides_comm (keys keys' : List UnitKey) (units : List Stack) :
    besides keys (besides keys' units) = besides keys' (besides keys units) :=
  List.filter_comm ..

theorem besides_singleton_cons (s : Stack) (units : List Stack) : besides [key] (s :: units) =
    if s.key = key then besides [key] units else s :: besides [key] units := by
  rw [besides, List.filter_cons]
  by_cases hs : s.key = key <;> simp [hs, besides]

theorem besides_addTo {n : UInt32} (h : addTo key n units = .ok units') :
    besides [key] units' = besides [key] units := by
  induction units generalizing units' with
  | nil => cases h; rw [besides_singleton_cons, if_pos rfl]
  | cons s rest ih =>
      rw [addTo] at h
      by_cases hs : s.key = key
      · rw [if_pos hs, bind_eq_ok_iff] at h
        obtain ⟨q, -, h⟩ := h
        cases h
        rw [besides_singleton_cons, besides_singleton_cons, if_pos hs, if_pos hs]
      · rw [if_neg hs, bind_eq_ok_iff] at h
        obtain ⟨later, hlater, h⟩ := h
        cases h
        rw [besides_singleton_cons, besides_singleton_cons, if_neg hs, if_neg hs, ih hlater]

theorem besides_marked (f : Marks → Marks) (units : List Stack) :
    besides [key] (marked key f units) = besides [key] units := by
  induction units with
  | nil => rfl
  | cons s rest ih =>
      rw [marked_cons]
      by_cases hs : s.key = key
      · rw [if_pos hs, besides_singleton_cons, besides_singleton_cons, if_pos hs, if_pos hs]
      · rw [if_neg hs, besides_singleton_cons, besides_singleton_cons, if_neg hs, if_neg hs, ih]

theorem besides_reduced (n : UInt32) (units : List Stack) :
    besides [key] (reduced key n units) = besides [key] units := by
  induction units with
  | nil => rfl
  | cons s rest ih =>
      rw [reduced_cons, besides_singleton_cons]
      by_cases hs : s.key = key
      · rw [if_pos hs, if_pos hs]
        split
        · rfl
        · rw [besides_singleton_cons, if_pos hs]
      · rw [if_neg hs, if_neg hs, besides_singleton_cons, if_neg hs, ih]

theorem reduced_of_absent {n : UInt32} (h : ∀ s ∈ units, s.key ≠ key) :
    reduced key n units = units := by
  induction units with
  | nil => rfl
  | cons s rest ih =>
      obtain ⟨hs, hrest⟩ := List.forall_mem_cons.1 h
      rw [reduced_cons, if_neg hs, ih hrest]

end Stack

/-- The territory differs in stacks of the keys at most. -/
structure Territory.Restocked (keys : List UnitKey) (t t' : Territory) : Prop where
  rest : t' = { t with units := t'.units }
  besides : Stack.besides keys t'.units = Stack.besides keys t.units

theorem Territory.Restocked.refl (keys : List UnitKey) (t : Territory) : Restocked keys t t :=
  ⟨rfl, rfl⟩

theorem Territory.Restocked.trans {keys keys' : List UnitKey} (a b c : Territory)
    (h : Restocked keys a b) (h' : Restocked keys' b c) : Restocked (keys ++ keys') a c where
  rest := by rw [h'.rest, h.rest]
  besides := by
    rw [Stack.besides_append, h'.besides, Stack.besides_comm, h.besides, Stack.besides_comm,
      ← Stack.besides_append]

theorem Territory.restocked_append_self (keys : List UnitKey) :
    Restocked (keys ++ keys) = Restocked keys := by
  have hbesides : Stack.besides (keys ++ keys) = Stack.besides keys := by
    funext units
    simp [Stack.besides]
  funext t t'
  apply propext
  constructor
  · exact fun h => ⟨h.rest, by rw [← hbesides]; exact h.besides⟩
  · exact fun h => ⟨h.rest, by rw [hbesides]; exact h.besides⟩

/-- The record differs in entries of the pool for the unit types at most. -/
structure Owner.Repooled (units : List String) (o o' : Owner) : Prop where
  rest : o' = { o with unplaced := o'.unplaced }
  besides : ∀ unit ∉ units, o'.unplaced[unit]? = o.unplaced[unit]?

theorem Owner.Repooled.refl (units : List String) (o : Owner) : Repooled units o o :=
  ⟨rfl, fun _ _ => rfl⟩

theorem Owner.Repooled.trans {units units' : List String} (a b c : Owner)
    (h : Repooled units a b) (h' : Repooled units' b c) : Repooled (units ++ units') a c where
  rest := by rw [h'.rest, h.rest]
  besides unit hunit := by
    rw [List.mem_append, not_or] at hunit
    exact (h'.besides unit hunit.2).trans (h.besides unit hunit.1)

/-- What became of each territory and of each player's record. -/
structure Board.Changes (b b' : Board)
    (site : TerritoryId → Option Territory → Option Territory → Prop)
    (record : String → Option Owner → Option Owner → Prop) : Prop where
  territories : ∀ i, site i b.territories[i]? b'.territories[i]?
  owners : ∀ name, record name b.owners[name]? b'.owners[name]?

namespace Board

variable {b b' : Board} {i : TerritoryId} {key : UnitKey} {target player unit : String} {n : UInt32}

theorem Changes.refl (b : Board) : b.Changes b Unchanged Unchanged := ⟨fun _ => rfl, fun _ => rfl⟩

theorem changes_updateTerritory (b : Board) (i : TerritoryId) (f : Territory → Territory) :
    b.Changes (b.updateTerritory i f) (OnlyAt i fun t t' => t' = t.map f) Unchanged where
  territories j := by
    rw [getElem?_updateTerritory]
    refine ⟨fun hj => ?_, fun hj => ?_⟩
    · simp only [hj, if_true]
    · simp only [Ne.symm hj, if_false, Option.map_id']
  owners _ := rfl

theorem changes_updateOwner (b : Board) (player : String) (f : Owner → Owner) :
    b.Changes (b.updateOwner player f) Unchanged
      (OnlyAt player fun o o' => o' = some (f (o.getD (.new player)))) where
  territories _ := rfl
  owners name := by
    rw [getElem?_updateOwner]
    refine ⟨fun hname => ?_, fun hname => ?_⟩
    · rw [hname, if_pos rfl]
    · rw [if_neg (Ne.symm hname)]

theorem Changes.imp {site site' : TerritoryId → Option Territory → Option Territory → Prop}
    {record record' : String → Option Owner → Option Owner → Prop} (h : b.Changes b' site record)
    (hsite : ∀ i t', site i b.territories[i]? t' → site' i b.territories[i]? t')
    (hrecord : ∀ name o', record name b.owners[name]? o' → record' name b.owners[name]? o') :
    b.Changes b' site' record' where
  territories i := hsite i _ (h.territories i)
  owners name := hrecord name _ (h.owners name)

/-- Nothing but stacks of the keys in the territory has changed. -/
def Restocks (i : TerritoryId) (keys : List UnitKey) (b b' : Board) : Prop :=
  b.Changes b' (OnlyAt i (Option.Rel (Territory.Restocked keys))) Unchanged

/-- Nothing but entries for the unit types in the player's pool has changed. -/
def Repools (player : String) (units : List String) (b b' : Board) : Prop :=
  b.Changes b' Unchanged (OnlyAt player (Option.Rel (Owner.Repooled units)))

theorem Restocks.refl (i : TerritoryId) (keys : List UnitKey) (b : Board) :
    Restocks i keys b b where
  territories j := .refl (by cases b.territories[j]? <;> simp [Territory.Restocked.refl])
  owners _ := rfl

theorem Restocks.append (keys keys' : List UnitKey) (a b c : Board) (h : Restocks i keys a b)
    (h' : Restocks i keys' b c) : Restocks i (keys ++ keys') a c where
  territories j := (h.territories j).trans (Option.rel_trans Territory.Restocked.trans)
    (h'.territories j)
  owners name := (h'.owners name).trans (h.owners name)

theorem Repools.refl (player : String) (units : List String) (b : Board) :
    Repools player units b b where
  territories _ := rfl
  owners name := .refl (by cases b.owners[name]? <;> simp [Owner.Repooled.refl])

theorem Repools.append (units units' : List String) (a b c : Board) (h : Repools player units a b)
    (h' : Repools player units' b c) : Repools player (units ++ units') a c where
  territories j := (h'.territories j).trans (h.territories j)
  owners name := (h.owners name).trans (Option.rel_trans Owner.Repooled.trans) (h'.owners name)

theorem Repools.mem_owners {units : List String} (h : Repools player units b b')
    (hplayer : player ∈ b.owners) : player ∈ b'.owners := by
  obtain ⟨o, ho, -⟩ := exists_record hplayer
  have hrecord := (h.owners player).1 rfl
  rw [ho] at hrecord
  rw [Std.ExtTreeMap.mem_iff_isSome_getElem?]
  cases ho' : b'.owners[player]? with
  | none => rw [ho'] at hrecord; cases hrecord
  | some o' => rfl

theorem restocks_updateTerritory {keys : List UnitKey} {f : List Stack → List Stack}
    (hf : ∀ t, b.territories[i]? = some t →
      Stack.besides keys (f t.units) = Stack.besides keys t.units) :
    Restocks i keys b (b.updateTerritory i fun t => { t with units := f t.units }) := by
  refine (b.changes_updateTerritory i _).imp (fun j t' h => ⟨fun hj => ?_, h.2⟩) fun _ _ h => h
  rw [h.1 hj, hj]
  exact Option.rel_map fun t ht => ⟨rfl, hf t ht⟩

theorem restocks_addUnits (h : b.addUnits i key n = .ok b') : Restocks i [key] b b' := by
  obtain ⟨f, rfl, hf⟩ := addUnits_eq_update h
  exact restocks_updateTerritory fun t ht => Stack.besides_addTo (hf t ht)

theorem restocks_removeUnits (b : Board) (i : TerritoryId) (key : UnitKey) (n : UInt32) :
    Restocks i [key] b ((b.removeUnits i key n).getD b) := by
  rw [removeUnits_getD]
  exact restocks_updateTerritory fun t _ => Stack.besides_reduced n t.units

theorem repools_updateOwner {f : Table UInt32 → Table UInt32} (hplayer : player ∈ b.owners)
    (hf : ∀ pool : Table UInt32, ∀ name ≠ unit, (f pool)[name]? = pool[name]?) :
    Repools player [unit] b
      (b.updateOwner player fun o => { o with unplaced := f o.unplaced }) := by
  refine (b.changes_updateOwner player _).imp (fun _ _ h => h) fun name o' h => ?_
  refine ⟨fun hname => ?_, h.2⟩
  obtain ⟨o, ho, -⟩ := exists_record hplayer
  rw [h.1 hname, hname, ho]
  refine .some ⟨rfl, fun u hu => hf o.unplaced u ?_⟩
  exact fun h => hu (List.mem_singleton.2 h)

theorem repools_addUnplaced (hplayer : player ∈ b.owners)
    (h : b.addUnplaced player unit n = .ok b') : Repools player [unit] b b' := by
  obtain ⟨total, -, h⟩ := bind_eq_ok_iff.mp h
  cases h
  refine repools_updateOwner (f := fun pool => pool.insert unit total) hplayer ?_
  intro pool name hname
  rw [Table.getElem?_insert, if_neg (Ne.symm hname)]

theorem repools_removeUnplaced (hplayer : player ∈ b.owners) (unit : String) (n : UInt32) :
    Repools player [unit] b (b.removeUnplaced player unit n) := by
  refine repools_updateOwner (f := fun pool => pool.alter unit _) hplayer fun pool name hname => ?_
  simp [Std.ExtTreeMap.getElem?_alter, Ne.symm hname]

theorem repools_foldlM {step : Board → UnitKey → Checked Board} {units : List UnitKey}
    (hstep : ∀ b key b', player ∈ b.owners → step b key = .ok b' →
      Repools player [key.unit] b b') (hplayer : player ∈ b.owners)
    (h : units.foldlM step b = .ok b') : Repools player (units.map UnitKey.unit) b b' := by
  refine foldlM_relates (R := fun units b b' => player ∈ b.owners →
    Repools player (units.map UnitKey.unit) b b') ?_ ?_ ?_ h hplayer
  · exact fun b _ => .refl player [] b
  · intro units units' a b c hab hbc hplayer
    rw [List.map_append]
    have hfirst := hab hplayer
    exact hfirst.append _ _ _ _ _ (hbc (hfirst.mem_owners hplayer))
  · exact fun b key b' h hplayer => hstep b key b' hplayer h

/-- One record tells of a battle where the board knows the territory. -/
def battleOf (b : Board) (r : Battle) : Board := ((b.locate r.territory).map b.startBattle).getD b

theorem battleOf_eq (b : Board) (r : Battle) : b.battleOf r = b ∧ b.locate r.territory = none ∨
    ∃ i, b.locate r.territory = some i ∧ b.battleOf r = b.startBattle i := by
  rw [battleOf]
  cases b.locate r.territory with
  | none => exact Or.inl ⟨rfl, rfl⟩
  | some i => exact Or.inr ⟨i, rfl, rfl⟩

theorem locate_battleOf (b : Board) (r : Battle) (name : String) :
    (b.battleOf r).locate name = b.locate name := by
  obtain ⟨h, -⟩ | ⟨i, -, h⟩ := b.battleOf_eq r
  · rw [h]
  · rw [h]
    refine locate_updateTerritory ?_ name
    exact fun _ => rfl

theorem changes_battles (records : List Battle) (b : Board) :
    b.Changes (records.foldl battleOf b) (fun i t t' => t' = t.map fun t =>
      if ∃ r ∈ records, b.locate r.territory = some i then { t with battle := true } else t)
        Unchanged := by
  induction records generalizing b with
  | nil => exact ⟨fun i => by simp, fun _ => rfl⟩
  | cons r records ih =>
      have hrest := ih (b.battleOf r)
      simp only [locate_battleOf] at hrest
      obtain ⟨h, hunknown⟩ | ⟨i, hi, h⟩ := b.battleOf_eq r
      · rw [List.foldl_cons, h]
        rw [h] at hrest
        refine hrest.imp (fun i t' ht' => ?_) fun _ _ h => h
        simpa [hunknown] using ht'
      · rw [List.foldl_cons, h]
        rw [h] at hrest
        refine ⟨fun j => ?_, hrest.owners⟩
        rw [hrest.territories j, startBattle, getElem?_updateTerritory, Option.map_map]
        congr 1
        funext t
        by_cases hj : i = j <;> simp [hi, hj]

theorem foldl_battleOf_located (records : List Battle) (b : Board) :
    (records.filter fun r => (b.locate r.territory).isSome).foldl battleOf b =
      records.foldl battleOf b := by
  induction records generalizing b with
  | nil => rfl
  | cons r records ih =>
      have hrest := ih (b.battleOf r)
      simp only [locate_battleOf] at hrest
      rw [List.foldl_cons, ← hrest, List.filter_cons]
      obtain ⟨h, hunknown⟩ | ⟨i, hi, -⟩ := b.battleOf_eq r
      · rw [hunknown, h]
        rfl
      · rw [hi]
        rfl

/-- There are units of the key in the territory or, if the target is none, in the player's pool. -/
def holds (b : Board) (target : String) (key : UnitKey) : Bool :=
  match b.locate target with
  | some i => b.territories[i]?.any fun t => t.units.any fun s => s.key = key
  | none => (b.unplacedOf target).contains key.unit

theorem removeUnits_of_absent (h : ∀ t, b.territories[i]? = some t → ∀ s ∈ t.units, s.key ≠ key) :
    (b.removeUnits i key n).getD b = b := by
  rw [removeUnits_getD]
  refine (updateTerritory_congr fun t ht => ?_).trans (updateTerritory_id b i)
  rw [Stack.reduced_of_absent (h t ht)]
  rfl

theorem removeUnplaced_of_absent (hplayer : player ∈ b.owners) (h : unit ∉ b.unplacedOf player) :
    b.removeUnplaced player unit n = b := by
  obtain ⟨o, ho, hpool⟩ := exists_record hplayer
  rw [hpool] at h
  refine updateOwner_of_fixed ho ?_
  rw [Owner.mk.injEq]
  refine ⟨rfl, rfl, ?_, rfl⟩
  ext1 name
  simp only [Std.ExtTreeMap.getElem?_alter, Std.LawfulEqCmp.compare_eq_iff_eq]
  split
  · rename_i hname
    rw [← hname, Std.ExtTreeMap.getElem?_eq_none h]
    rfl
  · rfl

end Board

/-- Steps that can be taken in any order are as good without those that do nothing at first. -/
theorem foldl_filter_of_idle {α β : Type} {step : β → α → β} {p : α → Bool}
    (hcomm : ∀ b x y, step (step b x) y = step (step b y) x) {b : β} {xs : List α}
    (hidle : ∀ x ∈ xs, p x = false → step b x = b) :
    xs.foldl step b = (xs.filter p).foldl step b := by
  -- The idle steps come first and find what they would have found at the start.
  have hperm := List.filter_append_perm (fun x => !p x) xs
  rw [← hperm.foldl_eq' fun x _ y _ b => hcomm b x y, List.foldl_append]
  simp only [Bool.not_not]
  congr 1
  refine List.foldlRecOn (motive := fun c => c = b) _ _ rfl fun c hc x hx => ?_
  rw [List.mem_filter, Bool.not_eq_true'] at hx
  rw [hc, hidle x hx.1 hx.2]

end Warboard
