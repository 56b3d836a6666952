import Mathlib.Tactic.IntervalCases
import Warboard.Proofs.Text.Scan
import Warboard.Text.Word

namespace Warboard.Text

/-- A non-empty text of the characters that `p` accepts. -/
structure Token (p : Char → Bool) where
  text : Text
  ne_nil : text ≠ []
  chars : ∀ c ∈ text, p c = true

namespace Token

variable {p : Char → Bool}

def string (w : Token p) : String := String.ofList w.text

def ofString (s : String) (h : s.toList ≠ [] ∧ s.toList.all p = true) : Token p :=
  ⟨s.toList, h.1, List.all_eq_true.1 h.2⟩

theorem not_mem (w : Token p) {c : Char} (h : p c = false) : c ∉ w.text := fun hc => by
  simp [w.chars c hc] at h

theorem run_append (w : Token p) {rest : Text} (h : ∀ c ∈ rest.head?, p c = false) :
    run p (w.text ++ rest) = some (w.text, rest) :=
  Text.run_append w.ne_nil w.chars h

theorem run_text (w : Token p) : run p w.text = some (w.text, []) := by
  have h : run p (w.text ++ []) = some (w.text, []) := w.run_append (by simp)
  rwa [List.append_nil] at h

theorem starts (w : Token p) (hp : ∀ c, p c = true → isBlank c = false) : Starts w.text := by
  obtain ⟨c, u, hw⟩ := List.exists_cons_of_ne_nil w.ne_nil
  exact ⟨c, u, hw, hp c (w.chars c (by simp [hw]))⟩

theorem stops (w : Token p) (hp : ∀ c, p c = true → isBlank c = false) : Stops w.text := by
  obtain ⟨u, c, hw⟩ := (List.eq_nil_or_concat w.text).resolve_left w.ne_nil
  exact ⟨u, c, by simpa using hw, hp c (w.chars c (by simp [hw]))⟩

end Token

theorem exists_range_of_within {ranges : List (Nat × Nat)} {n : Nat}
    (h : within ranges n = true) : ∃ r ∈ ranges, r.1 ≤ n ∧ n ≤ r.2 := by
  induction ranges with
  | nil => simp [within] at h
  | cons r ranges ih =>
      rw [within] at h
      split at h
      · simp at h
      · rcases Bool.or_eq_true_iff.mp h with h | h
        · exact ⟨r, by simp, by omega, by simpa using h⟩
        · obtain ⟨s, hs, hn⟩ := ih h
          exact ⟨s, by simp [hs], hn⟩

/-- The white space characters, one by one. -/
def blanks : List Char :=
  blankRanges.flatMap fun (lo, hi) => (List.range' lo (hi + 1 - lo)).map Char.ofNat

theorem mem_blanks {c : Char} (h : isBlank c = true) : c ∈ blanks := by
  obtain ⟨⟨lo, hi⟩, hr, hlo, hhi⟩ := exists_range_of_within h
  refine List.mem_flatMap.mpr ⟨(lo, hi), hr, List.mem_map.mpr ⟨c.toNat, ?_, Char.ofNat_toNat c⟩⟩
  simp only [List.mem_range'_1]
  simp only at hlo hhi
  omega

theorem isWord_of_mem_blanks : ∀ c ∈ blanks, isWord c = false := by
  decide +kernel

theorem isBlank_of_isWord {c : Char} (h : isWord c = true) : isBlank c = false := by
  by_contra hb
  simp [isWord_of_mem_blanks c (mem_blanks (by simpa using hb))] at h

theorem isWord_colon : isWord ':' = false := by decide

/-- Words with blanks between them have no other marks. -/
theorem not_mem_of_words {t : Text} {c : Char} (ht : ∀ d ∈ t, isWord d = true ∨ d = ' ')
    (hword : isWord c = false) (hc : c ≠ ' ') : c ∉ t := fun h => by
  rcases ht c h with h | h
  · simp [hword] at h
  · exact hc h

end Warboard.Text
