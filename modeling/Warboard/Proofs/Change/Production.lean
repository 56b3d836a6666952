import Warboard.Change.Reader
import Warboard.Proofs.Text.Decimal
import Warboard.Proofs.Text.Token

namespace Warboard.Change

open Text

/-- A rule in the echo of a purchase, and how many times it was bought. -/
structure Mention where
  rule : Token isWord
  count : UInt32

namespace Mention

def render (m : Mention) : Text :=
  "ProductionRule:buy".toList ++ (m.rule.text ++ (" -> ".toList ++ digits m.count.toNat))

theorem render_def (m : Mention) : m.render =
    "ProductionRule:buy".toList ++ (m.rule.text ++ (" -> ".toList ++ digits m.count.toNat)) := rfl

def entry (m : Mention) : String × UInt32 := (String.ofList (lower m.rule.text), m.count)

theorem render_ne_nil (m : Mention) : m.render ≠ [] :=
  List.append_ne_nil_of_left_ne_nil (by decide) _

end Mention

theorem readUInt32_digits (n : UInt32) : readUInt32 (digits n.toNat) = some n := by
  simp only [readUInt32, readNat_digits, Option.bind_eq_bind, Option.bind_some]
  rw [dif_pos n.toNat_lt_size, UInt32.ofNatLT_toNat]

theorem isWord_of_isDigit {c : Char} (h : c.isDigit = true) : isWord c = true := by
  have hc : c.val ≤ 57 := by simp_all [Char.isDigit]
  have hascii : c.val < 128 := UInt32.lt_of_le_of_lt hc (by decide)
  simp [isWord, hascii, Char.isAlphanum, h]

theorem digits_starts (n : Nat) : Starts (digits n) := by
  obtain ⟨c, t, hn⟩ := List.exists_cons_of_ne_nil (digits_ne_nil n)
  have hc : c.isDigit = true := isDigit_of_mem_digits c (hn ▸ List.mem_cons_self)
  exact ⟨c, t, hn, isBlank_of_isWord (isWord_of_isDigit hc)⟩

theorem trimStart_blank_append {t : Text} (h : Starts t) : trimStart (' ' :: t) = t := by
  obtain ⟨c, u, rfl, hc⟩ := h
  rw [trimStart, List.dropWhile_cons_of_pos (by decide), List.dropWhile_cons_of_neg (by simp [hc])]

theorem productionEntry_render (m : Mention) {rest : Text}
    (hrest : ∀ c ∈ rest.head?, isWordDigit c = false) :
    productionEntry (m.render ++ rest) = some (some m.entry, rest) := by
  have hnumber : run isWordDigit (digits m.count.toNat ++ rest) =
      some (digits m.count.toNat, rest) :=
    run_append (digits_ne_nil _) (fun c hc => isWordDigit_of_isDigit (isDigit_of_mem_digits c hc))
      hrest
  have hstart : Starts (digits m.count.toNat ++ rest) := (digits_starts m.count.toNat).append rest
  have hline : m.render ++ rest = "ProductionRule:buy".toList ++ (m.rule.text ++
      (" -> ".toList ++ (digits m.count.toNat ++ rest))) := by
    rw [Mention.render_def, List.append_assoc, List.append_assoc, List.append_assoc]
  have harrow (t : Text) : " -> ".toList ++ t = ' ' :: ("->".toList ++ ' ' :: t) := rfl
  generalize digits m.count.toNat ++ rest = t at hnumber hstart hline
  have hword : word (m.rule.text ++ ' ' :: ("->".toList ++ ' ' :: t)) =
      some (m.rule.text, ' ' :: ("->".toList ++ ' ' :: t)) := by
    refine m.rule.run_append ?_
    rintro c ⟨rfl⟩
    decide
  rw [hline, harrow, productionEntry, after_append]
  simp only [Option.bind_eq_bind, Option.bind_some, hword]
  have hdash : Starts ("->".toList ++ ' ' :: t) := ⟨'-', '>' :: ' ' :: t, rfl, by decide⟩
  rw [trimStart_blank_append hdash, after_append]
  simp only [Option.bind_some, trimStart_blank_append hstart, hnumber, readUInt32_digits,
    Option.map_some]
  rfl

/-- The mentions as the engine lists them, with single blanks between. -/
def echo (ms : List Mention) : Text := [' '].intercalate (ms.map Mention.render)

theorem echo_cons_cons (m m' : Mention) (ms : List Mention) :
    echo (m :: m' :: ms) = m.render ++ ([' '] ++ echo (m' :: ms)) := by
  rw [echo, List.map_cons, List.map_cons, List.intercalate_cons_cons, List.append_assoc]
  rfl

theorem allMatches_echo (ms : List Mention) :
    allMatches productionEntry (echo ms) = ms.map fun m => some m.entry := by
  induction ms with
  | nil => rfl
  | cons m ms ih =>
      cases ms with
      | nil =>
          have hm := @productionEntry_render m [] (by simp)
          have hecho : echo [m] = m.render ++ [] := by simp [echo]
          rw [hecho, allMatches_append_of_eq_some m.render_ne_nil hm]
          rfl
      | cons m' ms =>
          have hm := @productionEntry_render m ([' '] ++ echo (m' :: ms))
            (by rintro c ⟨rfl⟩; decide)
          have hblank : ∀ s, s <:+ [' '] → s ≠ [] →
              productionEntry (s ++ echo (m' :: ms)) = none := by
            intro s hs hne
            obtain rfl : s = [' '] := by simpa [List.suffix_cons_iff, hne] using hs
            rfl
          rw [echo_cons_cons, allMatches_append_of_eq_some m.render_ne_nil hm,
            allMatches_append_of_forall hblank, ih]
          rfl

theorem productions_echo (ms : List Mention) : productions (echo ms) = ms.map Mention.entry := by
  rw [productions, allMatches_echo, List.filterMap_map]
  exact congrFun (List.filterMap_eq_map (f := Mention.entry)) ms

end Warboard.Change
