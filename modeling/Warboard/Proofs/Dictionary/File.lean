import Warboard.Proofs.Dictionary.Stability
import Warboard.Proofs.Json.Table
import Warboard.Proofs.Text.Octets

namespace Warboard

theorem Directory.content?_write {dir dir' : Directory} {name : String} {content : List UInt8}
    (h : dir.write name (.octets content) = some dir') : dir'.content? name = some content := by
  rw [write] at h
  split at h
  · cases h
    simp [content?]
  · cases h

namespace Dictionary

open Checked

theorem read_toOctets_render (d : Dictionary) : read (some (Text.toOctets d.render)) = d.ids := by
  have hparse := Table.parse_render_toJson (fun n => Json.written_ofNat n.toNat)
    Json.uint32?_ofNat Json.Spacing.lines_isBlank d.ids
  calc read (some (Text.toOctets d.render))
    _ = (Text.ofOctets (Text.toOctets d.render) >>= Json.parse >>=
        Table.ofJson Json.uint32?).getD ∅ := rfl
    _ = (Json.parse d.render >>= Table.ofJson Json.uint32?).getD ∅ := by
      rw [Text.ofOctets_toOctets]
      rfl
    _ = d.ids := by
      rw [render, hparse]
      rfl

/-- The file in the directory is that of the dictionary, and if nothing has changed since it was
written, it holds the numbers that the dictionary holds. -/
structure Filed (home : String) (d : Dictionary) (dir : Directory) : Prop where
  home_eq : d.home = some home
  isNext : IsNext d.ids d.nextId
  content_eq : d.dirty = false → read (dir.content? home) = d.ids

variable {home : String} {d d' : Dictionary} {dir dir' : Directory}

theorem load_eq_ok_iff_filed :
    load home (dir.content? home) = .ok d ↔ Filed home d dir ∧ d.dirty = false := by
  rw [load_eq_ok_iff]
  constructor
  · rintro ⟨hhome, hids, hclean, hnext⟩
    exact ⟨⟨hhome, hnext, fun _ => hids.symm⟩, hclean⟩
  · rintro ⟨h, hclean⟩
    exact ⟨h.home_eq, (h.content_eq hclean).symm, hclean, h.isNext⟩

theorem save_eq_of_clean (h : d.dirty = false) : d.save dir = some (d, dir) := by
  rw [save, h]
  rfl

theorem save_eq_of_dirty (h : d.dirty = true) (hhome : d.home = some home) :
    d.save dir = (dir.write home (.octets (Text.toOctets d.render))).map
      fun dir => ({ d with dirty := false }, dir) := by
  simp only [save, h, if_true, hhome]
  cases dir.write home (.octets (Text.toOctets d.render)) <;> simp

namespace Filed

theorem of_adds (h : Filed home d dir) {new : List String} (hadds : Adds d new d')
    (hdirty : d' = d ∨ d'.dirty = true) : Filed home d' dir where
  home_eq := hadds.home.trans h.home_eq
  isNext := hadds.isNext h.isNext
  content_eq := fun hclean => by
    rcases hdirty with rfl | hdirty
    · exact h.content_eq hclean
    · exact absurd hdirty (by simp [hclean])

theorem save (h : Filed home d dir) (hsave : d.save dir = some (d', dir')) :
    Filed home d' dir' ∧ d'.dirty = false := by
  cases hdirty : d.dirty with
  | false =>
      rw [save_eq_of_clean hdirty] at hsave
      cases hsave
      exact ⟨h, hdirty⟩
  | true =>
      rw [save_eq_of_dirty hdirty h.home_eq, Option.map_eq_some_iff] at hsave
      obtain ⟨dir'', hwrite, hsave⟩ := hsave
      cases hsave
      refine ⟨⟨h.home_eq, h.isNext, fun _ => ?_⟩, rfl⟩
      rw [Directory.content?_write hwrite]
      exact read_toOctets_render d

theorem exists_save (h : Filed home d dir) (hdir : dir.writable = true) :
    ∃ d' dir', d.save dir = some (d', dir') ∧ dir'.writable = true := by
  cases hdirty : d.dirty with
  | false => exact ⟨d, dir, save_eq_of_clean hdirty, hdir⟩
  | true =>
      refine ⟨{ d with dirty := false },
        { dir with files := dir.files.insert home (.octets (Text.toOctets d.render)) }, ?_, hdir⟩
      rw [save_eq_of_dirty hdirty h.home_eq, Directory.write, if_pos hdir]
      rfl

theorem idsFor (h : Filed home d dir) {keys : List String} {given : List UInt32}
    (hgiven : idsFor keys d = .ok (given, d')) : Filed home d' dir :=
  h.of_adds (idsFor_adds hgiven) (idsFor_eq_or_dirty hgiven)

/-- Whether the file can be written does not matter. -/
theorem permit (h : Filed home d dir) (works : Bool) :
    Filed home d { dir with writable := works } :=
  ⟨h.home_eq, h.isNext, h.content_eq⟩

theorem perform {call : Call} (h : Filed home d dir)
    (hcall : perform (d, dir) call = .ok (d', dir')) : Filed home d' dir' := by
  rcases perform_eq_ok hcall with ⟨keys, given, hgiven, rfl⟩ | ⟨works, hsave⟩
  · exact h.idsFor hgiven
  · exact ((h.permit works).save hsave).1

theorem calls {calls : List Call} (h : Filed home d dir)
    (hcalls : calls.foldlM Dictionary.perform (d, dir) = .ok (d', dir')) : Filed home d' dir' :=
  foldlM_keeps (P := fun x : Dictionary × Directory => Filed home x.1 x.2)
    (fun _ _ _ hx hy => hx.perform hy) h hcalls

end Filed

end Dictionary

end Warboard
