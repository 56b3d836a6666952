import Warboard.Proofs.Json.Numeral
import Warboard.Text.Real
import Warboard.Text.Shortest

namespace Warboard.Json

open Text

/-- Digits of a number before its point, without a zero before them. -/
structure IsWhole (whole : Text) : Prop where
  ne_nil : whole ≠ []
  isDigit : ∀ c ∈ whole, c.isDigit = true
  eq_zero : ∀ t, whole = '0' :: t → t = []

def fractionPart : Text → Text
  | [] => []
  | ds => '.' :: ds

def exponentPart : Option Int → Text
  | none => []
  | some k => 'e' :: signedDigits k

theorem fractionPart_of_ne_nil {ds : Text} (h : ds ≠ []) : fractionPart ds = '.' :: ds := by
  cases ds with
  | nil => exact absurd rfl h
  | cons d ds => rfl

/-- Digits, perhaps with a point among them, and perhaps with an exponent. -/
inductive IsDecimal : Text → Prop
  | mk {whole fraction : Text} (exponent : Option Int) (hwhole : IsWhole whole)
      (hfraction : ∀ c ∈ fraction, c.isDigit = true) :
      IsDecimal (whole ++ (fractionPart fraction ++ exponentPart exponent))

variable {whole fraction rest t : Text} {exponent : Option Int}

theorem IsWhole.wholeToken (h : IsWhole whole) (hrest : ∀ c ∈ rest.head?, c.isDigit = false) :
    wholeToken (whole ++ rest) = some (whole, rest) := by
  obtain ⟨c, ds, rfl⟩ := List.exists_cons_of_ne_nil h.ne_nil
  by_cases hc : c = '0'
  · subst hc
    rw [h.eq_zero ds rfl]
    rfl
  · rw [Json.wholeToken]
    · exact run_append h.ne_nil h.isDigit hrest
    · rintro u hu
      exact hc (List.cons.inj hu).1

theorem head_exponentPart (hrest : Ends rest) :
    ∀ c ∈ (exponentPart exponent ++ rest).head?, c.isDigit = false ∧ c ≠ '.' := by
  intro c hc
  cases exponent with
  | none =>
      have hpart := hrest c hc
      simp only [isNumberPart, Bool.or_eq_false_iff, decide_eq_false_iff_not] at hpart
      exact ⟨hpart.1.1.1, hpart.1.1.2⟩
  | some k =>
      cases hc
      decide

theorem head_fractionPart (hrest : ∀ c ∈ rest.head?, c.isDigit = false) :
    ∀ c ∈ (fractionPart fraction ++ rest).head?, c.isDigit = false := by
  cases fraction with
  | nil => exact hrest
  | cons d ds =>
      rintro c ⟨⟩
      rfl

theorem fractionToken_append (hfraction : ∀ c ∈ fraction, c.isDigit = true)
    (hrest : ∀ c ∈ rest.head?, c.isDigit = false ∧ c ≠ '.') :
    fractionToken (fractionPart fraction ++ rest) = some (fractionPart fraction, rest) := by
  cases fraction with
  | nil =>
      rw [fractionPart, List.nil_append, fractionToken]
      rintro u rfl
      exact (hrest '.' rfl).2 rfl
  | cons d ds =>
      have hrun : someDigits (d :: ds ++ rest) = some (d :: ds, rest) :=
        run_append (List.cons_ne_nil d ds) hfraction fun c hc => (hrest c hc).1
      change (someDigits (d :: ds ++ rest)).map _ = _
      rw [hrun]
      rfl

theorem digits_append_ne {c : Char} (hc : c.isDigit = false) (n : Nat) (rest u : Text) :
    digits n ++ rest ≠ c :: u := by
  obtain ⟨d, ds, hd⟩ := List.exists_cons_of_ne_nil (digits_ne_nil n)
  rw [hd, List.cons_append]
  intro h
  have hdigit : d.isDigit = true := isDigit_of_mem_digits d (hd ▸ List.mem_cons_self)
  rw [(List.cons.inj h).1, hc] at hdigit
  cases hdigit

theorem exponentToken_append (hrest : Ends rest) :
    exponentToken (exponentPart exponent ++ rest) = some (exponentPart exponent, rest) := by
  cases exponent with
  | none => exact hrest.exponentToken_eq
  | some k =>
      rw [exponentPart, signedDigits]
      split
      · change (someDigits (digits k.natAbs ++ rest)).map (fun x => ('e' :: '-' :: x.1, x.2)) = _
        rw [someDigits_digits _ hrest]
        rfl
      · rw [List.cons_append, exponentToken, if_pos (by decide), someDigits_digits _ hrest]
        · rfl
        · exact fun u hu => digits_append_ne (by decide) _ _ u hu
        · exact fun u hu => digits_append_ne (by decide) _ _ u hu

theorem IsDecimal.unsignedToken (h : IsDecimal t) (hrest : Ends rest) :
    unsignedToken (t ++ rest) = some (t, rest) := by
  obtain ⟨exponent, hwhole, hfraction⟩ := h
  have hend := @head_exponentPart rest exponent hrest
  rw [Json.unsignedToken]
  simp only [List.append_assoc]
  rw [hwhole.wholeToken (head_fractionPart fun c hc => (hend c hc).1)]
  simp [fractionToken_append hfraction hend, exponentToken_append hrest]

theorem IsDecimal.head (h : IsDecimal t) : ∃ c u, t = c :: u ∧ c.isDigit = true := by
  obtain ⟨exponent, hwhole, hfraction⟩ := h
  obtain ⟨c, ds, rfl⟩ := List.exists_cons_of_ne_nil hwhole.ne_nil
  exact ⟨c, _, rfl, hwhole.isDigit c List.mem_cons_self⟩

theorem IsDecimal.isNumeral (h : IsDecimal t) : IsNumeral t := by
  obtain ⟨c, u, ht, hc⟩ := h.head
  refine ⟨⟨c, u, ht, Or.inr hc⟩, fun rest hrest => ?_⟩
  rw [numberToken, h.unsignedToken hrest]
  intro v hv
  rw [ht] at hv
  exact absurd ((List.cons.inj hv).1 ▸ hc) (by decide)

theorem IsDecimal.isNumeral_neg (h : IsDecimal t) : IsNumeral ('-' :: t) := by
  refine ⟨⟨'-', t, rfl, Or.inl rfl⟩, fun rest hrest => ?_⟩
  rw [List.cons_append, numberToken, h.unsignedToken hrest]
  rfl

theorem readExponent_exponentPart (exponent : Option Int) :
    ∃ k, readExponent (exponentPart exponent) = some k := by
  cases exponent with
  | none => exact ⟨0, rfl⟩
  | some k =>
      refine ⟨k, ?_⟩
      rw [exponentPart, readExponent, if_pos (Or.inl rfl)]
      · exact readInt_signedDigits k
      · intro u hu
        rw [signedDigits] at hu
        split at hu
        · exact absurd (List.cons.inj hu).1 (by decide)
        · exact digits_append_ne (by decide) _ [] u ((List.append_nil _).trans hu)

theorem span_append {w : Text} (hw : ∀ c ∈ w, c.isDigit = true)
    (hrest : ∀ c ∈ rest.head?, c.isDigit = false) :
    (w ++ rest).takeWhile Char.isDigit = w ∧ (w ++ rest).dropWhile Char.isDigit = rest := by
  rw [takeWhile_append_of_head hrest, dropWhile_append_of_head hrest]
  exact ⟨List.takeWhile_eq_self_iff.2 hw, by rw [List.dropWhile_eq_nil_iff.2 hw, List.nil_append]⟩

theorem IsDecimal.readUnsignedReal (h : IsDecimal t) : ∃ x, readUnsignedReal t = some x := by
  obtain @⟨whole, fraction, exponent, hwhole, hfraction⟩ := h
  obtain ⟨k, hk⟩ := readExponent_exponentPart exponent
  have hend := @head_exponentPart [] exponent ends_nil
  rw [List.append_nil] at hend
  have hdigit : ∀ c ∈ (exponentPart exponent).head?, c.isDigit = false := fun c hc => (hend c hc).1
  have hspan := span_append hwhole.isDigit (@head_fractionPart fraction _ hdigit)
  rw [Text.readUnsignedReal]
  simp only [hspan.1, hspan.2]
  cases fraction with
  | nil =>
      rw [fractionPart, List.nil_append]
      split
      · rename_i u hu
        exact absurd rfl (hend '.' (hu ▸ rfl)).2
      · rw [if_neg fun h => hwhole.ne_nil h.1, hk]
        exact ⟨_, rfl⟩
  | cons d ds =>
      have hrest := span_append hfraction hdigit
      rw [fractionPart]
      · simp only [List.cons_append]
        rw [← List.cons_append, hrest.1, hrest.2, if_neg fun h => hwhole.ne_nil h.1, hk]
        exact ⟨_, rfl⟩
      · exact List.cons_ne_nil d ds

theorem toLower_of_isDigit {c : Char} (h : c.isDigit = true) : c.toLower = c := by
  refine dif_neg ?_
  rintro ⟨hle, -⟩
  simp only [Char.isDigit, Bool.and_eq_true, decide_eq_true_eq] at h
  exact absurd (UInt32.le_trans hle h.2) (by decide)

theorem IsDecimal.readMagnitude (h : IsDecimal t) : ∃ x, readMagnitude t = some x := by
  -- The names of infinity and of the non-number begin with a letter.
  obtain ⟨c, u, rfl, hc⟩ := h.head
  have hname (d : Char) (v : Text) (hd : d.isDigit = false) :
      (c :: u).map Char.toLower ≠ d :: v := by
    intro h
    have hcd := (List.cons.inj h).1
    rw [toLower_of_isDigit hc] at hcd
    rw [hcd, hd] at hc
    cases hc
  rw [Text.readMagnitude, if_neg, if_neg]
  · exact h.readUnsignedReal
  · exact hname 'n' _ rfl
  · rintro (hinf | hinf)
    · exact hname 'i' _ rfl hinf
    · exact hname 'i' _ rfl hinf

theorem isWhole_cons {d : Char} {w : Text} (hd : d.isDigit = true) (hzero : d ≠ '0')
    (hw : ∀ c ∈ w, c.isDigit = true) : IsWhole (d :: w) :=
  ⟨List.cons_ne_nil d w, List.forall_mem_cons.2 ⟨hd, hw⟩,
    fun _ ht => absurd (List.cons.inj ht).1 hzero⟩

theorem isDigit_of_mem_zeros (k : Nat) : ∀ c ∈ List.replicate k '0', c.isDigit = true := by
  intro c hc
  rw [List.eq_of_mem_replicate hc]
  rfl

theorem isDecimal_withPoint_cons {d : Char} {ds : Text} (hd : d.isDigit = true) (hzero : d ≠ '0')
    (hds : ∀ c ∈ ds, c.isDigit = true) (place : Int) : IsDecimal (withPoint place (d :: ds)) := by
  unfold withPoint
  dsimp only
  rw [List.length_cons]
  -- In turn: zeros and the point behind the digits, the point among them, the point and zeros before
  -- them, and an exponent.
  split
  · have h := @IsDecimal.mk (d :: (ds ++ List.replicate place.toNat '0')) ['0'] none
      (isWhole_cons hd hzero (List.forall_mem_append.2 ⟨hds, isDigit_of_mem_zeros _⟩))
      (isDigit_of_mem_zeros 1)
    simpa [fractionPart, exponentPart] using h
  · split
    · obtain ⟨k, hk⟩ : ∃ k : Nat, (place + (ds.length + 1 : Nat)).toNat = k + 1 :=
        ⟨_, (Nat.succ_pred_eq_of_pos (by omega)).symm⟩
      obtain ⟨c, cs, hc⟩ := List.exists_cons_of_ne_nil
        (show ds.drop k ≠ [] from List.ne_nil_of_length_pos (by rw [List.length_drop]; omega))
      rw [hk, List.take_succ_cons, List.drop_succ_cons, hc]
      have h := @IsDecimal.mk (d :: ds.take k) (c :: cs) none
        (isWhole_cons hd hzero fun c hc => hds c (List.mem_of_mem_take hc))
        (hc ▸ fun c hc => hds c (List.mem_of_mem_drop hc))
      simpa [fractionPart, exponentPart] using h
    · split
      · have h := @IsDecimal.mk ['0']
          (List.replicate (-(place + (ds.length + 1 : Nat))).toNat '0' ++ d :: ds) none
          ⟨List.cons_ne_nil _ _, isDigit_of_mem_zeros 1, fun t ht => (List.cons.inj ht).2.symm⟩
          (List.forall_mem_append.2 ⟨isDigit_of_mem_zeros _, List.forall_mem_cons.2 ⟨hd, hds⟩⟩)
        rw [fractionPart_of_ne_nil (by simp)] at h
        simpa [exponentPart] using h
      · cases ds with
        | nil => exact @IsDecimal.mk [d] [] (some _) (isWhole_cons hd hzero hds) hds
        | cons c cs =>
            have h := @IsDecimal.mk [d] (c :: cs) (some (place + (cs.length + 1 + 1 : Nat) - 1))
              (isWhole_cons hd hzero fun _ hc => absurd hc List.not_mem_nil) hds
            simpa [fractionPart, exponentPart] using h

theorem isDecimal_withPoint {n : Nat} (hn : 0 < n) (place : Int) :
    IsDecimal (withPoint place (digits n)) := by
  obtain ⟨d, ds, hd⟩ := List.exists_cons_of_ne_nil (digits_ne_nil n)
  have hdigits : ∀ c ∈ d :: ds, c.isDigit = true := hd ▸ isDigit_of_mem_digits
  obtain ⟨hd', hds⟩ := List.forall_mem_cons.1 hdigits
  have hzero : d ≠ '0' := fun h => digits_head_ne_zero hn ds (h ▸ hd)
  rw [hd]
  exact isDecimal_withPoint_cons hd' hzero hds place

theorem isDecimal_zero : IsDecimal ['0', '.', '0'] :=
  @IsDecimal.mk ['0'] ['0'] none ⟨by decide, by decide, fun t ht => (List.cons.inj ht).2.symm⟩
    (by decide)

theorem pos_of_multiple? {b : Binary} {place : Int} {n : Nat} (h : b.multiple? place = some n) :
    0 < n := by
  have hfound := List.find?_some h
  rw [Bool.and_eq_true, decide_eq_true_eq] at hfound
  exact hfound.1

theorem isDecimal_shortest (b : Binary) :
    IsDecimal (withPoint b.shortest.2 (digits b.shortest.1)) := by
  rw [Binary.shortest]
  cases h : (List.range 100).findSome? _ with
  | none =>
      have hdigits : digits 0 = ['0'] := by
        rw [digits, if_pos (by decide)]
        rfl
      rw [Option.getD_none, hdigits]
      exact isDecimal_zero
  | some p =>
      obtain ⟨i, -, hi⟩ := List.exists_of_findSome?_eq_some h
      obtain ⟨n, hn, rfl⟩ := Option.map_eq_some_iff.1 hi
      exact isDecimal_withPoint (pos_of_multiple? hn) _

theorem exists_ofFloat32_eq (x : Float32) :
    ∃ t, IsDecimal t ∧ (Text.ofFloat32 x = t ∨ Text.ofFloat32 x = '-' :: t) := by
  have hshortest := isDecimal_shortest (Binary.ofFloat32 x)
  rw [Text.ofFloat32]
  generalize Binary.ofFloat32 x = b at *
  generalize b.shortest = p at *
  obtain ⟨n, place⟩ := p
  have hmagnitude : IsDecimal
      (if b.mantissa = 0 then ['0', '.', '0'] else withPoint place (digits n)) := by
    split
    · exact isDecimal_zero
    · exact hshortest
  refine ⟨_, hmagnitude, ?_⟩
  by_cases hx : x.toBits < 0x80000000
  · exact Or.inl (if_pos hx)
  · exact Or.inr (if_neg hx)

theorem isNumeral_ofFloat32 (x : Float32) : IsNumeral (Text.ofFloat32 x) := by
  obtain ⟨t, ht, h | h⟩ := exists_ofFloat32_eq x
  · exact h ▸ ht.isNumeral
  · exact h ▸ ht.isNumeral_neg

theorem readReal_ofFloat32 (x : Float32) : ∃ y, readReal (Text.ofFloat32 x) = some y := by
  obtain ⟨t, ht, h | h⟩ := exists_ofFloat32_eq x
  · obtain ⟨c, u, rfl, hc⟩ := ht.head
    rw [h, readReal]
    · exact ht.readMagnitude
    · rintro v hv
      exact absurd ((List.cons.inj hv).1 ▸ hc) (by decide)
    · rintro v hv
      exact absurd ((List.cons.inj hv).1 ▸ hc) (by decide)
  · obtain ⟨y, hy⟩ := ht.readMagnitude
    rw [h, readReal, hy]
    exact ⟨_, rfl⟩

end Warboard.Json
