import Mathlib.Data.List.Basic
import Warboard.Session.Connection

namespace Warboard.Session

/-- The input is cut after each newline, and nowhere else. -/
structure Chunked (input : List UInt8) (cs : List (List UInt8)) : Prop where
  flatten_eq : cs.flatten = input
  whole : ∀ c ∈ cs, c ≠ [] ∧ 10 ∉ c.dropLast
  ended : ∀ c ∈ cs.dropLast, c.getLast? = some 10

namespace Chunked

variable {b : UInt8} {bs c : List UInt8} {cs : List (List UInt8)}

theorem empty : Chunked [] [] := ⟨rfl, by simp, by simp⟩

theorem single (b : UInt8) : Chunked [b] [[b]] := ⟨rfl, by simp, by simp⟩

theorem newline (h : Chunked bs cs) : Chunked (10 :: bs) ([10] :: cs) where
  flatten_eq := by simp [h.flatten_eq]
  whole := List.forall_mem_cons.2 ⟨by simp, h.whole⟩
  ended d hd := by
    cases cs with
    | nil => cases hd
    | cons c cs =>
        rw [List.dropLast_cons_cons] at hd
        rcases List.mem_cons.1 hd with rfl | hd
        · rfl
        · exact h.ended d hd

theorem ended_tail (h : Chunked bs (c :: cs)) : ∀ d ∈ cs.dropLast, d.getLast? = some 10 := by
  intro d hd
  cases cs with
  | nil => cases hd
  | cons c' cs => exact h.ended d (List.mem_cons_of_mem c hd)

theorem extend (hb : b ≠ 10) (h : Chunked bs (c :: cs)) : Chunked (b :: bs) ((b :: c) :: cs) where
  flatten_eq := congrArg (b :: ·) h.flatten_eq
  whole := by
    obtain ⟨⟨hne, hc⟩, hcs⟩ := List.forall_mem_cons.1 h.whole
    refine List.forall_mem_cons.2 ⟨⟨by simp, ?_⟩, hcs⟩
    rw [List.dropLast_cons_of_ne_nil hne, List.mem_cons, not_or]
    exact ⟨Ne.symm hb, hc⟩
  ended d hd := by
    have hne := (List.forall_mem_cons.1 h.whole).1.1
    have hended := h.ended
    cases cs with
    | nil => cases hd
    | cons c' cs =>
        rw [List.dropLast_cons_cons] at hd hended
        obtain ⟨hlast, hrest⟩ := List.forall_mem_cons.1 hended
        rcases List.mem_cons.1 hd with rfl | hd
        · rwa [List.getLast?_cons_of_ne_nil hne]
        · exact hrest d hd

theorem shorten (hne : c ≠ []) (h : Chunked (b :: bs) ((b :: c) :: cs)) : Chunked bs (c :: cs) where
  flatten_eq := (List.cons_eq_cons.1 h.flatten_eq).2
  whole := by
    obtain ⟨⟨-, hc⟩, hcs⟩ := List.forall_mem_cons.1 h.whole
    rw [List.dropLast_cons_of_ne_nil hne, List.mem_cons, not_or] at hc
    exact List.forall_mem_cons.2 ⟨⟨hne, hc.2⟩, hcs⟩
  ended d hd := by
    cases cs with
    | nil => cases hd
    | cons c' cs =>
        rw [List.dropLast_cons_cons] at hd
        rcases List.mem_cons.1 hd with rfl | hd
        · have hlast := h.ended (b :: d) List.mem_cons_self
          rwa [List.getLast?_cons_of_ne_nil hne] at hlast
        · exact h.ended_tail d hd

end Chunked

theorem chunks_eq_nil_iff {bs : List UInt8} : chunks bs = [] ↔ bs = [] := by
  fun_induction chunks bs <;> simp_all

theorem chunked_chunks (input : List UInt8) : Chunked input (chunks input) := by
  fun_induction chunks input with
  | case1 => exact .empty
  | case2 bs ih => exact ih.newline
  | case3 b bs hb hnil ih =>
      rw [chunks_eq_nil_iff] at hnil
      subst hnil
      exact .single b
  | case4 b bs hb chunk rest hchunks ih =>
      rw [hchunks] at ih
      exact ih.extend hb

/-- There is only one way to cut the input. -/
theorem Chunked.eq_chunks {input : List UInt8} {cs : List (List UInt8)} (h : Chunked input cs) :
    cs = chunks input := by
  induction input generalizing cs with
  | nil =>
      cases cs with
      | nil => rfl
      | cons c cs =>
          have hne := (List.forall_mem_cons.1 h.whole).1.1
          exact absurd (List.append_eq_nil_iff.1 h.flatten_eq).1 hne
  | cons b bs ih =>
      cases cs with
      | nil => cases h.flatten_eq
      | cons c cs =>
          obtain ⟨⟨hne, hc⟩, hcs⟩ := List.forall_mem_cons.1 h.whole
          obtain ⟨b', c, rfl⟩ := List.exists_cons_of_ne_nil hne
          obtain ⟨rfl, hflatten⟩ := List.cons_eq_cons.1 h.flatten_eq
          rw [chunks]
          by_cases hb : b' = 10
          · subst hb
            -- A chunk that begins with the newline has nothing after it.
            obtain rfl : c = [] := by
              by_contra hnil
              exact hc (by simp [List.dropLast_cons_of_ne_nil hnil])
            rw [if_pos rfl, ← ih ⟨hflatten, hcs, h.ended_tail⟩]
          · rw [if_neg hb]
            by_cases hnil : c = []
            · subst hnil
              -- A chunk without a newline is the last one.
              obtain rfl : cs = [] := by
                by_contra hcs
                have := h.ended [b'] (by simp [List.dropLast_cons_of_ne_nil hcs])
                exact hb (by simpa using this)
              obtain rfl : bs = [] := hflatten.symm
              rfl
            · rw [← ih (h.shorten hnil)]

theorem chunks_append {a b : List UInt8} (h : a = [] ∨ a.getLast? = some 10) :
    chunks (a ++ b) = chunks a ++ chunks b := by
  induction a with
  | nil => rfl
  | cons x a ih =>
      by_cases ha : a = []
      · subst ha
        obtain rfl : x = 10 := by simpa using h
        simp [chunks]
      · have hlast : a.getLast? = some 10 := by
          rw [List.getLast?_cons_of_ne_nil ha] at h
          simpa using h
        rw [List.cons_append, chunks, chunks, ih (Or.inr hlast)]
        split
        · rfl
        · cases hchunks : chunks a with
          | nil => exact absurd (chunks_eq_nil_iff.1 hchunks) ha
          | cons chunk rest => rfl

end Warboard.Session
