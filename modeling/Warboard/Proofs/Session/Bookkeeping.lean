import Warboard.Proofs.Dictionary.Capacity
import Warboard.Proofs.Features.Layout
import Warboard.Proofs.Moves.Price
import Warboard.Proofs.Session.Resolving
import Warboard.Proofs.Text.Scan

namespace Warboard

open Checked

namespace Inbound

open Text

/-- The message is about a phase of the game, and asks for nothing to be done in it. -/
def IsNote : Inbound → Prop
  | .purchaseAhead _ | .purchaseMade .. | .note .. => True
  | _ => False

theorem isNote_readNote (t : Text) : (readNote t).IsNote := by
  rw [readNote]
  split
  · trivial
  · split
    · split <;> trivial
    · trivial

theorem isNote_of_startsWith {line : Text} (h : startsWith "[FOR_DB]" line = true) :
    ∃ c t, trim line = c :: t ∧ (read (c :: t)).IsNote := by
  obtain ⟨rest, rfl⟩ := startsWith_iff.mp h
  have hstart : Starts "[FOR_DB]".toList := ⟨'[', _, rfl, by decide⟩
  have hstop : Stops "[FOR_DB]".toList := ⟨"[FOR_DB".toList, ']', rfl, by decide⟩
  refine ⟨'[', "FOR_DB]".toList ++ trimEnd rest, trim_append hstart hstop rest, ?_⟩
  exact isNote_readNote (trimEnd rest)

end Inbound

namespace Dictionary

theorem exists_register_iff {d : Dictionary} {keys : List String} :
    (∃ x, d.register keys = .ok x) ↔
      d.nextId.toNat + (newKeys d.ids keys).length < UInt32.size := by
  rw [← Nat.not_le, ← exists_ok_iff_not fun e => idsFor_eq_error_iff]
  exact exists_bind_iff_of_forall fun _ => ⟨_, rfl⟩

end Dictionary

namespace Session

open Dictionary

variable {σ : Type} {p : Picker σ} {s t : Session σ} {player : String} {purchase : Purchase}

/-- All that the player can pay for can be listed, and there are numbers left for it. -/
structure Foreseeable (s : Session σ) (player : String) : Prop where
  countable : s.world.board.factoryNames player ≠ [] → PurchaseMove.Countable s.world player
  numbers : ∀ moves, PurchaseMove.legal s.world player = .ok moves → s.dictionary.nextId.toNat +
    (newKeys s.dictionary.ids (moves.map fun m => m.purchase.key)).length < UInt32.size

/-- The units of the purchase and its cost can be added up, and if it was expected, so can the units on
the board. -/
structure Reportable (s : Session σ) (text : Text) : Prop where
  summable : Purchase.Summable text
  priced : ∀ purchase, Purchase.ofText text = .ok (some purchase) →
    Purchase.Priced s.world.catalog purchase.toList
  countable : ∀ purchase, Purchase.ofText text = .ok (some purchase) →
    (∃ m ∈ s.purchases, m.purchase = purchase) → s.world.board.Countable

/-- Nothing that the message makes the session count is too large. -/
def Manageable (s : Session σ) : Inbound → Prop
  | .purchaseAhead player => s.Foreseeable (String.ofList player)
  | .purchaseMade _ text => s.Reportable text
  | _ => True

theorem exists_expectPurchase_iff :
    (∃ t, s.expectPurchase player = .ok t) ↔ s.Foreseeable player := by
  rw [expectPurchase, exists_bind_eq_ok_iff]
  constructor
  · rintro ⟨moves, hlegal, hregister⟩
    refine ⟨PurchaseMove.exists_legal_iff.1 ⟨moves, hlegal⟩, fun moves' hlegal' => ?_⟩
    cases hlegal.symm.trans hlegal'
    exact exists_register_iff.1 ((exists_bind_iff_of_forall fun _ => ⟨_, rfl⟩).1 hregister)
  · intro h
    obtain ⟨moves, hlegal⟩ := PurchaseMove.exists_legal_iff.2 h.countable
    refine ⟨moves, hlegal, (exists_bind_iff_of_forall fun _ => ⟨_, rfl⟩).2 ?_⟩
    exact exists_register_iff.2 (h.numbers moves hlegal)

/-- A purchase that was expected has its number already, and so have all that were. -/
theorem recordOf_of_expected (hs : Numbered s) (hmem : ∃ m ∈ s.purchases, m.purchase = purchase)
    {cost : Int64} (hcost : purchase.price s.world.catalog = .ok cost) :
    (∃ x, s.recordOf player purchase = .ok x) ↔ s.world.board.Countable := by
  obtain ⟨⟨legal, d⟩, hd⟩ :
      ∃ x, idsFor (s.purchases.map fun m => m.purchase.key) s.dictionary = .ok x := by
    rw [exists_ok_iff_not fun e => idsFor_eq_error_iff, hs.newKeys_eq_nil]
    exact Nat.not_le.2 s.dictionary.nextId.toNat_lt_size
  obtain rfl := idsFor_eq_self hs.newKeys_eq_nil hd
  obtain ⟨id, hid⟩ : ∃ id, s.dictionary.ids[purchase.key]? = some id := by
    obtain ⟨m, hm, rfl⟩ := hmem
    exact hs m hm
  have hany : (s.purchases.any fun m => m.purchase = purchase) = true := by simpa using hmem
  have hfeatures : (∃ f, Features.ofWorld s.world .purchase = .ok f) ↔ s.world.board.Countable :=
    Features.exists_ofWorld_eq_ok_iff
  have hworld : s.saveDictionary.world = s.world := congrArg Game.world s.saveDictionary_game
  -- The cost and all numbers are there, so only the features can be missing.
  rw [← hfeatures, ← hworld, recordOf, PurchaseMove.ofPurchase, hcost]
  simp only [bind, Except.bind, pure, Except.pure, hany, if_true, hd, idFor_of_some hid]
  change (∃ x, (Features.ofWorld s.saveDictionary.world .purchase >>= fun f =>
    .ok (some (_, s.saveDictionary)) : Checked _) = .ok x) ↔ _
  rw [exists_bind_eq_ok_iff]
  simp

theorem exists_recordOf_iff (hs : Numbered s) : (∃ x, s.recordOf player purchase = .ok x) ↔
    Purchase.Priced s.world.catalog purchase.toList ∧
      ((∃ m ∈ s.purchases, m.purchase = purchase) → s.world.board.Countable) := by
  rw [← Purchase.exists_price_iff]
  cases hcost : purchase.price s.world.catalog with
  | error e =>
      rw [recordOf, PurchaseMove.ofPurchase, hcost]
      simp [bind, Except.bind]
  | ok cost =>
      by_cases hmem : ∃ m ∈ s.purchases, m.purchase = purchase
      · rw [recordOf_of_expected hs hmem hcost]
        simp [hmem]
      · have hany : (s.purchases.any fun m => m.purchase = purchase) = false := by simpa using hmem
        rw [recordOf, PurchaseMove.ofPurchase, hcost]
        simp [bind, Except.bind, pure, Except.pure, hany, hmem]

theorem exists_decision_iff (hs : Numbered s) {name text : Text} :
    (∃ x, s.decision name text = .ok x) ↔ s.Reportable text := by
  rw [decision, exists_bind_eq_ok_iff]
  constructor
  · rintro ⟨made, hmade, h⟩
    have hpurchase (purchase : Purchase) (h' : Purchase.ofText text = .ok (some purchase)) :
        ∃ x, s.recordOf (String.ofList name) purchase = .ok x := by
      cases hmade.symm.trans h'
      exact h
    refine ⟨Purchase.exists_ofText_iff.1 ⟨made, hmade⟩, fun purchase h' => ?_, fun purchase h' => ?_⟩
    · exact ((exists_recordOf_iff hs).1 (hpurchase purchase h')).1
    · exact ((exists_recordOf_iff hs).1 (hpurchase purchase h')).2
  · intro h
    obtain ⟨made, hmade⟩ := Purchase.exists_ofText_iff.2 h.summable
    refine ⟨made, hmade, ?_⟩
    cases made with
    | none => exact ⟨none, rfl⟩
    | some purchase =>
        exact (exists_recordOf_iff hs).2 ⟨h.priced purchase hmade, h.countable purchase hmade⟩

theorem exists_purchaseMade_iff (hs : Numbered s) {name text : Text} :
    (∃ t, s.purchaseMade name text = .ok t) ↔ s.Reportable text := by
  rw [← exists_decision_iff hs]
  refine exists_bind_iff_of_forall fun made => ?_
  cases made with
  | none => exact ⟨s, rfl⟩
  | some x => exact ⟨x.2.keep x.1, rfl⟩

theorem exists_answer_iff (hs : Numbered s) {message : Inbound} (hmessage : message.IsNote) :
    (∃ t, s.answer p message = .ok (.acknowledged, t)) ↔ s.Manageable message := by
  have hreply (x : Checked (Session σ)) : (∃ t, (x >>= fun u => .ok (.acknowledged, u)) =
      (.ok (.acknowledged, t) : Checked (Response × Session σ))) ↔ ∃ t, x = .ok t := by
    simp [bind_eq_ok_iff]
  cases message with
  | prompt | round | gameStopped | info | change => exact hmessage.elim
  | purchaseAhead player => exact (hreply _).trans exists_expectPurchase_iff
  | purchaseMade name text => exact (hreply _).trans (exists_purchaseMade_iff hs)
  | note => exact ⟨fun _ => trivial, fun _ => ⟨s, rfl⟩⟩

theorem acknowledged_of_answer {message : Inbound} (hmessage : message.IsNote) {r : Response}
    (h : s.answer p message = .ok (r, t)) : r = .acknowledged := by
  cases message with
  | prompt | round | gameStopped | info | change => exact hmessage.elim
  | purchaseAhead | purchaseMade =>
      obtain ⟨u, -, h⟩ := bind_eq_ok_iff.mp h
      cases h
      rfl
  | note =>
      cases h
      rfl

/-- In every session, a line with the tag of bookkeeping is acknowledged unless something is too large
that it makes the session count, and otherwise ends the session. -/
theorem handle_note_acknowledged {w : World} {d : Dictionary} {dir : Directory} {k : σ}
    {before : List Text} {rs : List (Option Response)}
    (hbefore : run p before (.new w d dir k) = .ok (rs, s)) {line : Text}
    (hline : Text.startsWith "[FOR_DB]" line = true) :
    ((∃ t, s.handle p line = .ok (some .acknowledged, t)) ↔
        s.Manageable (.read (Text.trim line))) ∧
      ((∃ e, s.handle p line = .error e) ↔ ¬ s.Manageable (.read (Text.trim line))) := by
  have hs : Numbered s := (Numbered.new w d dir k).run hbefore
  obtain ⟨c, t, htrim, hnote⟩ := Inbound.isNote_of_startsWith hline
  rw [handle, htrim, ← exists_answer_iff hs hnote]
  cases hanswer : s.answer p (.read (c :: t)) with
  | error e => simp [bind, Except.bind, hanswer]
  | ok x =>
      obtain ⟨r, u⟩ := x
      obtain rfl := acknowledged_of_answer hnote hanswer
      simp [bind, Except.bind, pure, Except.pure, hanswer]

/-- One unit more than can be counted, in two entries. -/
def surplus : Text :=
  "[FOR_DB] chosen Red::ProductionRule:buyInfantry -> 4294967295 ProductionRule:buyInfantry -> 1".toList

theorem handle_note_acknowledged_bought : ∃ w rs s, World.ofRecord armory = .ok w ∧
    run .random [buying] (.new w notes .empty 0) = .ok (rs, s) ∧
    Text.startsWith "[FOR_DB]" bought = true ∧
    s.Manageable (.read (Text.trim bought)) ∧
    ∃ t, s.handle .random bought = .ok (some .acknowledged, t) := by
  obtain ⟨w, rs, s, hw, hbefore, hs⟩ := exists_run .random armory [buying] notes 0
    (fun _ s => (s.handle .random bought).map Prod.fst) (.ok (some .acknowledged))
    (by decide +kernel)
  have hline : Text.startsWith "[FOR_DB]" bought = true := by decide
  cases hbought : s.handle .random bought with
  | error e =>
      rw [hbought] at hs
      cases hs
  | ok x =>
      rw [hbought] at hs
      obtain ⟨r, t⟩ := x
      obtain rfl : r = some .acknowledged := Except.ok.inj hs
      exact ⟨w, rs, s, hw, hbefore, hline,
        (handle_note_acknowledged hbefore hline).1.1 ⟨t, hbought⟩, t, hbought⟩

/-- The session ends without an answer. -/
theorem handle_surplus : ∃ w, World.ofRecord armory = .ok w ∧
    Text.startsWith "[FOR_DB]" surplus = true ∧
    (Session.new w notes .empty 0).handle .random surplus = .error .add := by
  have hover : ((World.ofRecord armory).map fun w =>
      decide ((Session.new w notes .empty 0).handle .random surplus = .error .add)).toOption =
        some true := by
    decide +kernel
  obtain ⟨w, hw, hover⟩ := exists_ok_of_map hover
  exact ⟨w, hw, by decide, of_decide_eq_true hover⟩

end Session

end Warboard
