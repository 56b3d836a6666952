import Warboard.Proofs.Session.Resolving

namespace Warboard.Session

open Checked Dictionary Directory

variable {σ : Type} {p : Picker σ} {s t u : Session σ} {line : Text} {lines : List Text}
  {r : Option Response} {record : PurchaseRecord}

/-- The player whose purchase decision the line announces. -/
def holderOf (line : Text) : Option String :=
  match Inbound.read (Text.trim line) with
  | .purchaseAhead player => some (String.ofList player)
  | _ => none

/-- The player whose purchase the line reports. -/
def buyerOf (line : Text) : Option String :=
  match Inbound.read (Text.trim line) with
  | .purchaseMade player _ => some (String.ofList player)
  | _ => none

/-- What the dataset of the episode has more in the second session than in the first. -/
def gained (s t : Session σ) : List PurchaseRecord :=
  let name := datasetName s.episode
  (t.directory.recordsOf name).drop (s.directory.recordsOf name).length

/-- The records that the lines add to datasets, in order. -/
def appended (p : Picker σ) : List Text → Session σ → List PurchaseRecord
  | [], _ => []
  | line :: lines, s => match s.handle p line with
    | .ok (_, t) => s.gained t ++ appended p lines t
    | .error _ => []

theorem appended_cons (h : s.handle p line = .ok (r, t)) :
    appended p (line :: lines) s = s.gained t ++ appended p lines t := by
  rw [appended, h]

theorem gained_eq_nil
    (h : t.directory.recordsOf (datasetName s.episode) =
        s.directory.recordsOf (datasetName s.episode) ∨
      t.directory.recordsOf (datasetName s.episode) = []) : s.gained t = [] := by
  rcases h with h | h
  · rw [gained, h, List.drop_length]
  · rw [gained, h, List.drop_nil]

theorem gained_keep (hepisode : u.episode = s.episode)
    (h : u.directory.recordsOf (datasetName s.episode) =
        s.directory.recordsOf (datasetName s.episode) ∨
      u.directory.recordsOf (datasetName s.episode) = []) :
    s.gained (u.keep record) = [] ∨ s.gained (u.keep record) = [record] := by
  rw [gained, keep, hepisode]
  by_cases hw : u.directory.writable = true
  · simp only [recordsOf_append hw, if_true]
    rcases h with h | h
    · rw [h, List.drop_left]
      exact Or.inr rfl
    · rw [h, List.nil_append]
      cases (s.directory.recordsOf (datasetName s.episode)).length with
      | zero => exact Or.inr rfl
      | succ n => exact Or.inl List.drop_nil
  · have hlost : u.directory.append s.episode record = none := if_neg hw
    rw [hlost]
    exact Or.inl (gained_eq_nil h)

/-- Only a report of a purchase adds to a dataset, and it adds one record at most. -/
theorem gained_of_handle (h : s.handle p line = .ok (r, t)) : s.gained t = [] ∨
    ∃ record player purchase u, s.gained t = [record] ∧ buyerOf line = some player ∧
      s.recordOf player purchase = .ok (some (record, u)) := by
  have hbooks := handle_booksAfter h
  rw [buyerOf]
  cases hread : Inbound.read (Text.trim line) with
  | prompt | round | info | note | change =>
      rw [hread] at hbooks
      exact Or.inl (gained_eq_nil (Or.inl (by rw [hbooks.directory])))
  | gameStopped winner =>
      rw [hread] at hbooks
      obtain ⟨episode, -, hend⟩ := bind_eq_ok_iff.mp hbooks
      cases hend
      exact Or.inl (gained_eq_nil (recordsOf_archive s.directory s.episode winner _))
  | purchaseAhead player =>
      rw [hread] at hbooks
      obtain ⟨purchases, new, d, -, -, rfl⟩ := expectPurchase_eq_ok hbooks
      split
      · exact Or.inl (gained_eq_nil (recordsOf_saveDictionary (s.recalled _ purchases d) _))
      · exact Or.inl (gained_eq_nil (Or.inl rfl))
  | purchaseMade player text =>
      rw [hread] at hbooks
      rcases purchaseMade_eq_ok hbooks with ⟨-, rfl⟩ | ⟨record, u, hdecision, rfl⟩
      · exact Or.inl (gained_eq_nil (Or.inl rfl))
      · obtain ⟨purchase, -, hrecord⟩ := decision_eq_some hdecision
        obtain ⟨-, -, d, d', -, -, rfl⟩ := recordOf_eq_some hrecord
        refine (gained_keep (saveDictionary_episode { s with dictionary := d' })
          (recordsOf_saveDictionary { s with dictionary := d' } _)).imp id fun hkept => ?_
        exact ⟨record, _, purchase, _, hkept, rfl, hrecord⟩

/-- What is remembered is the balance and the purchases of one decision, or no purchase any more. -/
structure Recalls (balance : Int64) (purchases : List PurchaseMove) (s : Session σ) : Prop where
  numbered : Numbered s
  balance_eq : s.balanceBefore = balance
  purchases_eq : s.purchases = [] ∨ s.purchases = purchases

namespace Recalls

variable {balance : Int64} {purchases : List PurchaseMove} {rs : List (Option Response)}

theorem new (w : World) (d : Dictionary) (dir : Directory) (k : σ) :
    Recalls 0 [] (.new w d dir k) := ⟨.new w d dir k, rfl, Or.inl rfl⟩

theorem expectPurchase {player : String} (h : s.expectPurchase player = .ok t) :
    Recalls (s.world.board.balanceOf player) t.purchases t :=
  ⟨.expectPurchase h, (expectPurchase_remembers h).2, Or.inr rfl⟩

theorem handle (h : Recalls balance purchases s) (hline : holderOf line = none)
    (ht : s.handle p line = .ok (r, t)) : Recalls balance purchases t := by
  have hbooks := handle_booksAfter ht
  have hnumbered := h.numbered.handle ht
  rw [holderOf] at hline
  cases hread : Inbound.read (Text.trim line) with
  | prompt | round | info | note | change =>
      rw [hread] at hbooks
      refine ⟨hnumbered, hbooks.balanceBefore.trans h.balance_eq, ?_⟩
      rw [hbooks.purchases]
      exact h.purchases_eq
  | gameStopped winner =>
      rw [hread] at hbooks
      obtain ⟨episode, -, hend⟩ := bind_eq_ok_iff.mp hbooks
      cases hend
      exact ⟨hnumbered, h.balance_eq, Or.inl rfl⟩
  | purchaseAhead player =>
      rw [hread] at hline
      cases hline
  | purchaseMade player text =>
      rw [hread] at hbooks
      obtain ⟨hpurchases, hbalance⟩ := purchaseMade_remembers hbooks
      exact ⟨hnumbered, hbalance.trans h.balance_eq, hpurchases ▸ h.purchases_eq⟩

/-- The record goes by the player of the report, and by what is remembered. -/
theorem gained (h : Recalls balance purchases s) (ht : s.handle p line = .ok (r, t)) :
    s.gained t = [] ∨ ∃ record, s.gained t = [record] ∧ buyerOf line = some record.player ∧
      purchases ≠ [] ∧ record.balanceBefore = balance ∧
      List.Forall₂ (Stands s.dictionary.ids) (purchases.map fun m => m.purchase)
        record.legalMoves := by
  refine (gained_of_handle ht).imp id ?_
  rintro ⟨record, player, purchase, u, hgained, hbuyer, hrecord⟩
  obtain ⟨⟨m, hm, -⟩, hbalance, d, d', hd, -, -⟩ := recordOf_eq_some hrecord
  have hsame : s.purchases = purchases := by
    refine h.purchases_eq.resolve_left fun hnone => ?_
    rw [hnone] at hm
    cases hm
  -- The purchases got their numbers with the announcement, and the record looks them up.
  obtain rfl := idsFor_eq_self h.numbered.newKeys_eq_nil hd
  refine ⟨record, hgained, ?_, ?_, hbalance.trans h.balance_eq, ?_⟩
  · rw [hbuyer, recordOf_player hrecord]
  · exact hsame ▸ List.ne_nil_of_mem hm
  · simpa [Stands, hsame] using idsFor_forall₂ hd

/-- As long as no other decision is announced, all records go by the one that is remembered. -/
theorem appended (h : Recalls balance purchases s) (hlines : ∀ line ∈ lines, holderOf line = none)
    (hrun : run p lines s = .ok (rs, t)) :
    ((appended p lines s).map PurchaseRecord.player).Sublist (lines.filterMap buyerOf) ∧
      ∀ record ∈ appended p lines s, purchases ≠ [] ∧ record.balanceBefore = balance ∧
        List.Forall₂ (Stands t.dictionary.ids) (purchases.map fun m => m.purchase)
          record.legalMoves := by
  induction lines generalizing s rs with
  | nil => exact ⟨.slnil, fun record hrecord => absurd hrecord List.not_mem_nil⟩
  | cons line lines ih =>
      obtain ⟨new, hadds⟩ := run_adds hrun
      rw [run_cons, bind_eq_ok_iff] at hrun
      obtain ⟨⟨r, u⟩, hu, hrun⟩ := hrun
      obtain ⟨⟨rs', t'⟩, hlater, hrun⟩ := bind_eq_ok_iff.mp hrun
      cases hrun
      obtain ⟨hline, hlines⟩ := List.forall_mem_cons.1 hlines
      obtain ⟨hplayers, hrecords⟩ := ih (h.handle hline hu) hlines hlater
      rw [appended_cons hu]
      rcases h.gained hu with hnone | ⟨record, hone, hbuyer, hne, hbalance, hstands⟩
      · rw [hnone, List.nil_append]
        refine ⟨hplayers.trans ?_, hrecords⟩
        exact (List.sublist_cons_self line lines).filterMap buyerOf
      · rw [hone, List.singleton_append, List.map_cons, List.filterMap_cons_some hbuyer]
        refine ⟨hplayers.cons_cons record.player, List.forall_mem_cons.2 ⟨?_, hrecords⟩⟩
        exact ⟨hne, hbalance, hstands.imp fun purchase id hid => hadds.keeps hid⟩

end Recalls

theorem handle_of_holderOf {holder : String} (hline : holderOf line = some holder)
    (h : s.handle p line = .ok (r, t)) : s.expectPurchase holder = .ok t ∧ s.gained t = [] := by
  have hbooks := handle_booksAfter h
  have hgained := gained_of_handle h
  rw [holderOf] at hline
  rw [buyerOf] at hgained
  cases hread : Inbound.read (Text.trim line) with
  | purchaseAhead player =>
      rw [hread] at hbooks hline hgained
      cases hline
      refine ⟨hbooks, hgained.resolve_right ?_⟩
      rintro ⟨record, buyer, purchase, u, -, hbuyer, -⟩
      cases hbuyer
  | prompt | round | info | note | change | gameStopped | purchaseMade =>
      rw [hread] at hline
      cases hline

/-- Before the first announcement nothing is recorded. From one announcement to the next, each record
has the balance and the legal purchases of the player who was announced, and is of the player whose
purchase was reported: at most one record for each report, in their order. -/
theorem appended_after_announcement (p : Picker σ) :
    (∀ w d dir k lines rs t, (∀ line ∈ lines, holderOf line = none) →
      run p lines (.new w d dir k) = .ok (rs, t) → appended p lines (.new w d dir k) = []) ∧
    ∀ u ahead holder between rs t, holderOf ahead = some holder →
      (∀ line ∈ between, holderOf line = none) → run p (ahead :: between) u = .ok (rs, t) →
      ((appended p (ahead :: between) u).map PurchaseRecord.player).Sublist
          (between.filterMap buyerOf) ∧
        ∃ moves, PurchaseMove.legal u.world holder = .ok moves ∧
          ∀ record ∈ appended p (ahead :: between) u,
            record.balanceBefore = u.world.board.balanceOf holder ∧
            List.Forall₂ (Stands t.dictionary.ids) (moves.map fun m => m.purchase)
              record.legalMoves := by
  constructor
  · intro w d dir k lines rs t hlines hrun
    rw [List.eq_nil_iff_forall_not_mem]
    intro record hrecord
    exact (((Recalls.new w d dir k).appended hlines hrun).2 record hrecord).1 rfl
  · intro u ahead holder between rs t hahead hbetween hrun
    rw [run_cons, bind_eq_ok_iff] at hrun
    obtain ⟨⟨r, v⟩, hv, hrun⟩ := hrun
    obtain ⟨⟨rs', t'⟩, hlater, hrun⟩ := bind_eq_ok_iff.mp hrun
    cases hrun
    obtain ⟨hexpected, hgained⟩ := handle_of_holderOf hahead hv
    obtain ⟨hplayers, hrecords⟩ := (Recalls.expectPurchase hexpected).appended hbetween hlater
    rw [appended_cons hv, hgained, List.nil_append]
    refine ⟨hplayers, v.purchases, (expectPurchase_remembers hexpected).1, ?_⟩
    exact fun record hrecord => (hrecords record hrecord).2

theorem appended_after_announcement_bought : ∃ w rs rs' t u, World.ofRecord armory = .ok w ∧
    holderOf buying = some "Red" ∧ (∀ line ∈ [bought], holderOf line = none) ∧
    run .random [buying, bought] (.new w notes .empty 0) = .ok (rs, t) ∧
    run .random [bought] (.new w notes .empty 0) = .ok (rs', u) ∧
    (appended .random [buying, bought] (.new w notes .empty 0)).map PurchaseRecord.player = ["Red"] ∧
    [bought].filterMap buyerOf = ["Red"] ∧
    (∃ moves, PurchaseMove.legal w "Red" = .ok moves ∧
      ∀ record ∈ appended .random [buying, bought] (.new w notes .empty 0),
        record.balanceBefore = w.board.balanceOf "Red" ∧
        List.Forall₂ (Stands t.dictionary.ids) (moves.map fun m => m.purchase)
          record.legalMoves) ∧
    appended .random [bought] (.new w notes .empty 0) = [] := by
  have hruns : (do
      let w ← World.ofRecord armory
      let _ ← run .random [buying, bought] (.new w notes .empty 0)
      let _ ← run .random [bought] (.new w notes .empty 0)
      return (appended .random [buying, bought] (.new w notes .empty 0)).map
        PurchaseRecord.player) = (.ok ["Red"] : Checked _) := by
    decide +kernel
  have hlines : holderOf buying = some "Red" ∧ (∀ line ∈ [bought], holderOf line = none) ∧
      [bought].filterMap buyerOf = ["Red"] := by
    decide +kernel
  obtain ⟨hahead, hbetween, hbuyers⟩ := hlines
  obtain ⟨w, hw, hruns⟩ := bind_eq_ok_iff.mp hruns
  obtain ⟨⟨rs, t⟩, ht, hruns⟩ := bind_eq_ok_iff.mp hruns
  obtain ⟨⟨rs', u⟩, hu, hruns⟩ := bind_eq_ok_iff.mp hruns
  obtain ⟨hnone, hblock⟩ := appended_after_announcement Picker.random
  refine ⟨w, rs, rs', t, u, hw, hahead, hbetween, ht, hu, Except.ok.inj hruns, hbuyers, ?_, ?_⟩
  · exact (hblock _ buying "Red" [bought] rs t hahead hbetween ht).2
  · exact hnone w notes .empty 0 [bought] rs' u hbetween hu

/-- A second power with an armory of its own. -/
def rivals : MapRecord :=
  armory
    |>.addTerritory "Kongo" "Blue"
    |>.addPlayer "Blue" 7
    |>.placeFactory "Kongo" "Blue"

/-- The report of Red's purchase comes twice, and once more when Blue has been announced. -/
def crossed : List Text :=
  [buying, bought, bought, "[FOR_DB] purchase Blue".toList, bought]

/-- Two records of Red's one decision, and a third of Red with Blue's balance. -/
theorem recordsOf_crossed : ∃ w rs t, World.ofRecord rivals = .ok w ∧
    run .random crossed (.new w notes .empty 0) = .ok (rs, t) ∧
    crossed.map holderOf = [some "Red", none, none, some "Blue", none] ∧
    w.board.balanceOf "Red" = 4 ∧ w.board.balanceOf "Blue" = 7 ∧
    (t.directory.recordsOf (datasetName 1)).map (fun r => (r.player, r.balanceBefore)) =
      [("Red", 4), ("Red", 4), ("Red", 7)] := by
  obtain ⟨w, rs, t, hw, hrun, h⟩ := exists_run .random rivals crossed notes 0
    (fun s t => (s.world.board.balanceOf "Red", s.world.board.balanceOf "Blue",
      (t.directory.recordsOf (datasetName 1)).map fun r => (r.player, r.balanceBefore)))
    (4, 7, [("Red", 4), ("Red", 4), ("Red", 7)]) (by decide +kernel)
  simp only [Prod.mk.injEq] at h
  exact ⟨w, rs, t, hw, hrun, by decide +kernel, h⟩

end Warboard.Session
