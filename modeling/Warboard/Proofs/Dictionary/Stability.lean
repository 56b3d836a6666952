import Warboard.Proofs.Dictionary.Numbering

namespace Warboard.Dictionary

open Checked

/-- What is asked of a dictionary. -/
inductive Call
  | idFor (key : String)
  | register (keys : List String)
  | save (works : Bool)

/-- The dictionary and the directory with its file after the call. Saving may fail; then both are
what they were. -/
def perform : Dictionary × Directory → Call → Checked (Dictionary × Directory)
  | (d, dir), .idFor key => do return ((← d.idFor key).2, dir)
  | (d, dir), .register keys => do return ((← d.register keys).2, dir)
  | (d, dir), .save works => .ok ((d.save { dir with writable := works }).getD (d, dir))

variable {d d' d'' : Dictionary} {dir dir' : Directory} {new : List String}

theorem Adds.clean (d : Dictionary) : Adds d [] { d with dirty := false } := of_same rfl rfl rfl

theorem save_eq_some (h : d.save dir = some (d', dir')) : d' = { d with dirty := false } := by
  rw [save] at h
  split at h
  · split at h
    · obtain ⟨dir'', -, h⟩ := Option.bind_eq_some_iff.mp h
      cases h
      rfl
    · cases h
      rfl
  · rename_i hdirty
    cases h
    rw [← Bool.eq_false_iff.mpr hdirty]

/-- Nothing but the file of the dictionary is written. -/
theorem save_writes (h : d.save dir = some (d', dir')) : dir' = dir ∨
    ∃ home ∈ d.home, dir.write home (.octets (Text.toOctets d.render)) = some dir' := by
  rw [save] at h
  split at h
  · split at h
    · rename_i hhome
      obtain ⟨dir'', hwrite, h⟩ := Option.bind_eq_some_iff.mp h
      cases h
      exact Or.inr ⟨_, hhome, hwrite⟩
    · cases h
      exact Or.inl rfl
  · cases h
    exact Or.inl rfl

/-- A call numbers keys, but none if it is a save that fails, or it is a save that works. -/
theorem perform_eq_ok {call : Call} (h : perform (d, dir) call = .ok (d', dir')) :
    (∃ keys given, idsFor keys d = .ok (given, d') ∧ dir' = dir) ∨
      ∃ works, d.save { dir with writable := works } = some (d', dir') := by
  cases call with
  | idFor key =>
      obtain ⟨⟨id, d₁⟩, hid, h⟩ := bind_eq_ok_iff.mp h
      cases h
      exact Or.inl ⟨[key], [id], idsFor_singleton hid, rfl⟩
  | register keys =>
      obtain ⟨⟨new, d₁⟩, hnew, h⟩ := bind_eq_ok_iff.mp h
      obtain ⟨given, hgiven, -⟩ := register_eq_ok_iff.mp hnew
      cases h
      exact Or.inl ⟨keys, given, hgiven, rfl⟩
  | save works =>
      rw [perform, Except.ok.injEq] at h
      cases hsave : d.save { dir with writable := works } with
      | none =>
          rw [hsave, Option.getD_none] at h
          cases h
          exact Or.inl ⟨[], [], rfl, rfl⟩
      | some x =>
          rw [hsave, Option.getD_some] at h
          exact Or.inr ⟨works, h ▸ hsave⟩

theorem perform_adds {call : Call} (h : perform (d, dir) call = .ok (d', dir')) :
    ∃ new, Adds d new d' := by
  rcases perform_eq_ok h with ⟨keys, given, hgiven, -⟩ | ⟨works, hsave⟩
  · exact ⟨_, idsFor_adds hgiven⟩
  · rw [save_eq_some hsave]
    exact ⟨_, .clean d⟩

theorem calls_add {calls : List Call} (h : calls.foldlM perform (d, dir) = .ok (d', dir')) :
    ∃ new, Adds d new d' := by
  have hkeeps := foldlM_keeps (P := fun x : Dictionary × Directory => ∃ new, Adds d new x.1)
    (fun x call y hx hy => ?_) ⟨[], Adds.refl d⟩ h
  · exact hkeeps
  · obtain ⟨new, hx⟩ := hx
    obtain ⟨new', hy⟩ := perform_adds hy
    exact ⟨_, hx.trans hy⟩

/-- A dictionary to begin with, from a file or without one, numbers the next key rightly. -/
theorem isNext_of_start (h : d = inMemory ∨ ∃ home content, load home content = .ok d) :
    IsNext d.ids d.nextId := by
  rcases h with rfl | ⟨home, content, h⟩
  · exact isNext_empty
  · exact (load_eq_ok_iff.mp h).2.2.2

theorem IsNext.eq_zero {next : UInt32} (h : IsNext ∅ next) : next.toNat = 0 := by
  rcases h.least with hnext | ⟨key, id, hid, -⟩
  · exact hnext
  · simp at hid

/-- A number stays with its key for ever, and a new one is larger than all before it. Without numbers
to begin with, the next one is that of the keys. -/
theorem numbers_stable {d₀ : Dictionary} {dir₀ : Directory}
    (hstart : d₀ = inMemory ∨ ∃ home content, load home content = .ok d₀) {calls : List Call}
    (hcalls : calls.foldlM perform (d₀, dir₀) = .ok (d, dir)) :
    (∀ (key : String) id, d.ids[key]? = some id → id.toNat < d.nextId.toNat) ∧
    (∀ key id d', d.idFor key = .ok (id, d') →
      d'.ids[key]? = some id ∧ Adds d (newKeys d.ids [key]) d') ∧
    (∀ keys new d', d.register keys = .ok (new, d') →
      (new = true ↔ ∃ key ∈ keys, d.ids[key]? = none) ∧ Adds d (newKeys d.ids keys) d') ∧
    (∀ (more : List Call) d' dir', more.foldlM perform (d, dir) = .ok (d', dir') →
      (∀ (key : String) id, d.ids[key]? = some id → d'.ids[key]? = some id) ∧
      ∀ (key : String) id, d.ids[key]? = none → d'.ids[key]? = some id →
        (∀ (old : String) id', d.ids[old]? = some id' → id'.toNat < id.toNat) ∧
        ∀ key' : String, d'.ids[key']? = some id → key' = key) ∧
    (d₀.ids = ∅ → d.nextId.toNat = d.ids.size) := by
  have hnext₀ := isNext_of_start hstart
  obtain ⟨new, hadds⟩ := calls_add hcalls
  have hnext := hadds.isNext hnext₀
  refine ⟨hnext.above, ?_, ?_, ?_, ?_⟩
  · intro key id d' h
    exact ⟨idFor_eq_some h, idFor_adds h⟩
  · intro keys new d' h
    obtain ⟨ids, hids, rfl⟩ := register_eq_ok_iff.mp h
    refine ⟨?_, idsFor_adds hids⟩
    simp only [decide_eq_true_eq, ← List.length_pos_iff, List.length_pos_iff_exists_mem, mem_newKeys]
  · intro more d' dir' h
    obtain ⟨new', hmore⟩ := calls_add h
    refine ⟨fun key id => hmore.keeps, fun key id hkey hid => ⟨?_, ?_⟩⟩
    · exact fun old id' hold => hmore.above hnext hold hkey hid
    · exact fun key' => hmore.unique hnext hkey hid
  · intro hempty
    rw [hempty] at hnext₀
    rw [hadds.next, hadds.size, hnext₀.eq_zero, hempty, Std.ExtTreeMap.size_empty]

/-- A file with a gap and with one number for two keys. -/
def edited : List UInt8 := Text.toOctets "\x7b\"a\": 5, \"b\": 5\x7d".toList

def additions : List Call := [.register ["c", "a", "c"], .save false, .idFor "d"]

theorem numbers_stable_edited : ∃ d₀ d dir, load "moves.json" (some edited) = .ok d₀ ∧
    additions.foldlM perform (d₀, .missing) = .ok (d, dir) ∧
    d.ids.toList = [("a", 5), ("b", 5), ("c", 6), ("d", 7)] ∧
    ∀ (more : List Call) d' dir', more.foldlM perform (d, dir) = .ok (d', dir') →
      d'.ids["b"]? = some 5 ∧ d'.ids["d"]? = some 7 ∧
        ∀ (key : String) id, d.ids[key]? = none → d'.ids[key]? = some id → 7 < id.toNat := by
  have hrun : ((load "moves.json" (some edited) >>= fun d₀ =>
      additions.foldlM perform (d₀, .missing)).map fun x => x.1.ids.toList).toOption =
        some [("a", 5), ("b", 5), ("c", 6), ("d", 7)] := by decide +kernel
  obtain ⟨⟨d, dir⟩, hrun, hlist⟩ := exists_ok_of_map hrun
  obtain ⟨d₀, hd₀, hd⟩ := bind_eq_ok_iff.mp hrun
  have hget (key : String) (id : UInt32) (h : (key, id) ∈ d.ids.toList) :
      d.ids[key]? = some id := Std.ExtTreeMap.mem_toList_iff_getElem?_eq_some.mp h
  have hb := hget "b" 5 (by rw [hlist]; decide)
  have hd₇ := hget "d" 7 (by rw [hlist]; decide)
  obtain ⟨-, -, -, hmore, -⟩ := numbers_stable (Or.inr ⟨_, _, hd₀⟩) hd
  refine ⟨d₀, d, dir, hd₀, hd, hlist, fun more d' dir' h => ?_⟩
  obtain ⟨hkeeps, habove⟩ := hmore more d' dir' h
  exact ⟨hkeeps _ _ hb, hkeeps _ _ hd₇,
    fun key id hkey hid => (habove key id hkey hid).1 _ _ hd₇⟩

end Warboard.Dictionary
