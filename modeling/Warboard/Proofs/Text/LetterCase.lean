import Warboard.Proofs.Text.Scan
import Warboard.Text.LetterCase

namespace Warboard.Text

/-- The small letters, the digits and `_`. -/
def plain : Text := (List.range' 0x61 26 ++ List.range' 0x30 10 ++ [0x5F]).map Char.ofNat

theorem isWord_of_mem_plain : ∀ c ∈ plain, isWord c = true := by decide +kernel

theorem lowerChar_of_mem_plain : ∀ c ∈ plain, c.toNat ≠ 0x3A3 ∧ lowerChar c = [c] := by
  decide +kernel

theorem upperChar_of_mem_plain : ∀ c ∈ plain, upperChar c = [c.toUpper] ∧
    isWord c.toUpper = true ∧ c.toUpper.toNat ≠ 0x3A3 ∧ lowerChar c.toUpper = [c] := by
  decide +kernel

theorem lowerFrom_cons {c : Char} (h : c.toNat ≠ 0x3A3) (before t : Text) :
    lowerFrom before (c :: t) = lowerChar c ++ lowerFrom (c :: before) t := by
  rw [lowerFrom]
  simp [h]

theorem lowerFrom_of_plain {t : Text} (ht : ∀ c ∈ t, c ∈ plain) (before : Text) :
    lowerFrom before t = t := by
  induction t generalizing before with
  | nil => rfl
  | cons c t ih =>
      obtain ⟨hsigma, hc⟩ := lowerChar_of_mem_plain c (ht c List.mem_cons_self)
      rw [lowerFrom_cons hsigma, hc, ih fun d hd => ht d (List.mem_cons_of_mem c hd)]
      rfl

theorem lower_capitalize {t : Text} (ht : ∀ c ∈ t, c ∈ plain) : lower (capitalize t) = t := by
  cases t with
  | nil => rfl
  | cons c t =>
      obtain ⟨hcapital, -, hsigma, hc⟩ := upperChar_of_mem_plain c (ht c List.mem_cons_self)
      rw [capitalize, hcapital, List.singleton_append, lower, lowerFrom_cons hsigma, hc,
        lowerFrom_of_plain fun d hd => ht d (List.mem_cons_of_mem c hd)]
      rfl

theorem isWord_of_mem_capitalize {t : Text} (ht : ∀ c ∈ t, c ∈ plain) :
    ∀ c ∈ capitalize t, isWord c = true := by
  cases t with
  | nil => exact fun c hc => absurd hc List.not_mem_nil
  | cons c t =>
      obtain ⟨hcapital, hword, -, -⟩ := upperChar_of_mem_plain c (ht c List.mem_cons_self)
      rw [capitalize, hcapital, List.singleton_append, List.forall_mem_cons]
      exact ⟨hword, fun d hd => isWord_of_mem_plain d (ht d (List.mem_cons_of_mem c hd))⟩

end Warboard.Text
