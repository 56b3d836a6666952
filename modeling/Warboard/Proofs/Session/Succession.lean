import Warboard.Proofs.Session.Decision
import Warboard.Proofs.Training.Filing

namespace Warboard

open Checked Directory

namespace Session

variable {σ : Type} {p : Picker σ} {s t u : Session σ} {line : Text} {lines : List Text}
  {r : Option Response} {rs : List (Option Response)} {record : PurchaseRecord}

/-- Of the files that are not for training only the dictionary's own is ever written. -/
theorem saveDictionary_elsewhere (s : Session σ) (name : String) :
    s.saveDictionary.directory.files[name]? = s.directory.files[name]? ∨
      ∃ content, s.saveDictionary.directory.files[name]? = some (.octets content) := by
  rw [saveDictionary]
  cases h : s.dictionary.save s.directory with
  | none => exact Or.inl rfl
  | some x =>
      obtain ⟨d, dir⟩ := x
      rcases Dictionary.save_writes h with hdir | ⟨home, -, hwrite⟩
      · exact Or.inl (congrArg (·.files[name]?) hdir)
      · rw [write] at hwrite
        split at hwrite
        · cases hwrite
          simp only [Table.getElem?_insert]
          split
          · exact Or.inr ⟨_, rfl⟩
          · exact Or.inl rfl
        · cases hwrite

theorem handle_elsewhere (h : s.handle p line = .ok (r, t)) {name : String}
    (hname : ¬ IsTraining name) : t.directory.files[name]? = s.directory.files[name]? ∨
      ∃ content, t.directory.files[name]? = some (.octets content) := by
  rcases handle_books h with hsame | ⟨winner, hend⟩ | ⟨player, hahead⟩ | ⟨player, text, hmade⟩
  · exact Or.inl (by rw [hsame.directory])
  · obtain ⟨episode, -, hend⟩ := bind_eq_ok_iff.mp hend
    cases hend
    exact Or.inl (AgreeOn.archive hname).file
  · obtain ⟨purchases, new, d, -, -, rfl⟩ := expectPurchase_eq_ok hahead
    split
    · exact saveDictionary_elsewhere (s.recalled player purchases d) name
    · exact Or.inl rfl
  · rcases purchaseMade_eq_ok hmade with ⟨-, rfl⟩ | ⟨record, u, hdecision, rfl⟩
    · exact Or.inl rfl
    · obtain ⟨purchase, -, hrecord⟩ := decision_eq_some hdecision
      obtain ⟨-, -, d, d', -, -, rfl⟩ := recordOf_eq_some hrecord
      have hkeep : (keep (saveDictionary { s with dictionary := d' }) record).directory.files[name]? =
          (saveDictionary { s with dictionary := d' }).directory.files[name]? :=
        (AgreeOn.append hname).file
      rw [hkeep]
      exact saveDictionary_elsewhere { s with dictionary := d' } name

theorem Undisturbed.recordsOf (h : Undisturbed s t) (episode : UInt32) :
    t.directory.recordsOf (datasetName episode) = s.directory.recordsOf (datasetName episode) := by
  rw [Directory.recordsOf, Directory.recordsOf, h.files _ (isTraining_datasetName episode)]

theorem Undisturbed.gained_keep (h : Undisturbed s u) (hwritable : u.directory.writable = true) :
    s.gained (u.keep record) = [record] := by
  rw [gained, Session.keep]
  simp only [recordsOf_append hwritable, h.episode, if_true, h.recordsOf, List.drop_left]

/-- What the line does to the files for training. -/
def filed (s t : Session σ) (line : Text) : Filing :=
  match winnerOf line with
  | some winner => .ofArchive s.directory s.episode winner
  | none => ⟨s.gained t, [], []⟩

/-- What the lines do to them, one after another. -/
def filings (p : Picker σ) : List Text → Session σ → Filing
  | [], _ => .none
  | line :: lines, s => match s.handle p line with
    | .ok (_, t) => (s.filed t line).andThen (filings p lines t)
    | .error _ => .none

theorem explains_handle (hs : s.Apart) (hd : s.directory.Tidy) (h : s.handle p line = .ok (r, t)) :
    (s.filed t line).Explains s.directory t.directory := by
  have hother (name : String) (hname : ¬ IsTraining name) :
      ∀ file ∈ t.directory.files[name]?, file.records = [] := by
    intro file hfile
    rcases handle_elsewhere h hname with hsame | ⟨content, hcontent⟩
    · rw [hsame] at hfile
      by_contra hrecords
      exact hname (hd.training name file hfile hrecords)
    · obtain rfl : .octets content = file := Option.some.inj (hcontent.symm.trans hfile)
      rfl
  rw [filed]
  rcases handle_cases hs h with ⟨winner, hw, hend⟩ | ⟨record, u, hw, -, hsu, rfl⟩ | ⟨hw, -, hst⟩
  · rw [hw]
    obtain ⟨episode, -, hend⟩ := bind_eq_ok_iff.mp hend
    cases hend
    exact .archive hd s.episode winner
  · rw [hw, hsu.gained_keep (hsu.writable.trans hd.writable)]
    have hsu' : Filing.none.Explains s.directory u.directory :=
      .of_same hd hsu.writable hsu.files fun name hname file hfile =>
        hother name hname file ((AgreeOn.append hname).file.trans hfile)
    exact hsu'.trans (.append hsu'.tidy u.episode record)
  · rw [hw, gained_eq_nil (Or.inl (hst.recordsOf s.episode))]
    exact .of_same hd hst.writable hst.files hother

theorem handle_apart (hs : s.Apart) (h : s.handle p line = .ok (r, t)) : t.Apart := by
  obtain ⟨new, hadds⟩ := handle_adds h
  rw [Apart, hadds.home]
  exact hs

theorem explains_run (hs : s.Apart) (hd : s.directory.Tidy) (h : run p lines s = .ok (rs, t)) :
    (filings p lines s).Explains s.directory t.directory := by
  induction lines generalizing s rs with
  | nil =>
      cases h
      exact .refl hd
  | cons line lines ih =>
      rw [run_cons, bind_eq_ok_iff] at h
      obtain ⟨⟨r, u⟩, hu, h⟩ := h
      obtain ⟨⟨rs', t'⟩, hrun, h⟩ := bind_eq_ok_iff.mp h
      cases h
      have hline := explains_handle hs hd hu
      rw [filings, hu]
      exact hline.trans (ih (handle_apart hs hu) hline.tidy hrun)

end Session

/-- One run of the agent: what it starts with, and the lines that it handles. -/
structure Launch where
  σ : Type
  picker : Picker σ
  state : σ
  world : World
  dictionary : Dictionary
  lines : List Text

namespace Launch

def start (l : Launch) (dir : Directory) : Session l.σ := .new l.world l.dictionary dir l.state

def run (l : Launch) (dir : Directory) : Checked Directory := do
  let (_, s) ← Session.run l.picker l.lines (l.start dir)
  return s.directory

/-- Runs of the agent one after another on the same directory. -/
def succession : List Launch → Directory → Checked Directory
  | [], dir => .ok dir
  | l :: ls, dir => l.run dir >>= succession ls

/-- What the runs do to the files for training. -/
def filings : List Launch → Directory → Filing
  | [], _ => .none
  | l :: ls, dir => match l.run dir with
    | .ok dir' => (Session.filings l.picker l.lines (l.start dir)).andThen (filings ls dir')
    | .error _ => .none

variable {l : Launch} {ls : List Launch} {dir dir' : Directory}

theorem explains_run (hhome : ∀ home ∈ l.dictionary.home, ¬ IsTraining home) (hd : dir.Tidy)
    (h : l.run dir = .ok dir') :
    (Session.filings l.picker l.lines (l.start dir)).Explains dir dir' := by
  obtain ⟨x, hrun, h⟩ := bind_eq_ok_iff.mp h
  cases h
  exact Session.explains_run hhome hd hrun

theorem explains_succession (hhomes : ∀ l ∈ ls, ∀ home ∈ l.dictionary.home, ¬ IsTraining home)
    (hd : dir.Tidy) (h : succession ls dir = .ok dir') : (filings ls dir).Explains dir dir' := by
  induction ls generalizing dir with
  | nil =>
      cases h
      exact .refl hd
  | cons l ls ih =>
      obtain ⟨dir₁, hrun, h⟩ := bind_eq_ok_iff.mp h
      obtain ⟨hhome, hhomes⟩ := List.forall_mem_cons.1 hhomes
      have hfirst := explains_run hhome hd hrun
      rw [filings, hrun]
      exact hfirst.trans (ih hhomes hfirst.tidy h)

/-- Records are lost to nothing but archives of the same name: what the files hold in the end and
what was replaced is together what they held before and what the runs have added. So all of it is
there exactly if each archive was made under a name that no file had. -/
theorem allRecords_of_succession
    (hhomes : ∀ l ∈ ls, ∀ home ∈ l.dictionary.home, ¬ IsTraining home) (hd : dir.Tidy)
    (h : succession ls dir = .ok dir') :
    allRecords dir'.files + (filings ls dir).lost = allRecords dir.files + (filings ls dir).added ∧
      (allRecords dir'.files = allRecords dir.files + (filings ls dir).added ↔
        (filings ls dir).archives.Nodup ∧
          ∀ name ∈ (filings ls dir).archives, dir.files[name]? = none) := by
  have hexplains := explains_succession hhomes hd h
  refine ⟨hexplains.conserved, ?_⟩
  rw [← hexplains.lost_iff, ← hexplains.conserved, left_eq_add, Multiset.coe_eq_zero]

open Session

theorem tidy_empty : Directory.empty.Tidy :=
  ⟨rfl, by simp [Directory.empty], by simp [Directory.empty], by simp [Directory.empty]⟩

/-- A game in which Red buys once, in the round of that name. -/
def game (w : World) (d : Dictionary) (round winner : String) : Launch :=
  ⟨UInt64, .random, 0, w, d,
    ["[INFO] Round number ".toList ++ round.toList, buying, bought, wonBy winner.toList]⟩

theorem notes_apart_of_games (w : World) (d : Dictionary) (hd : d.home = notes.home)
    (round₁ winner₁ round₂ winner₂ : String) :
    ∀ l ∈ [game w notes round₁ winner₁, game w d round₂ winner₂],
      ∀ home ∈ l.dictionary.home, ¬ IsTraining home := by
  simp only [List.forall_mem_cons, game, hd]
  exact ⟨notes_apart, notes_apart, by simp⟩

theorem allRecords_of_succession_blue : ∃ w dir, World.ofRecord armory = .ok w ∧
    ((∀ l ∈ [game w notes "7" "Red", game w notes "9" "Blue"], ∀ home ∈ l.dictionary.home,
        ¬ IsTraining home) ∧ Directory.empty.Tidy) ∧
    succession [game w notes "7" "Red", game w notes "9" "Blue"] .empty = .ok dir ∧
    allRecords dir.files = allRecords Directory.empty.files +
      (filings [game w notes "7" "Red", game w notes "9" "Blue"] .empty).added := by
  have hgames : (World.ofRecord armory >>= fun w =>
      succession [game w notes "7" "Red", game w notes "9" "Blue"] .empty >>= fun _ =>
      .ok (filings [game w notes "7" "Red", game w notes "9" "Blue"] .empty).archives) =
      .ok ["purchase1winnerRed_dataset.zip", "purchase1winnerBlue_dataset.zip"] := by
    decide +kernel
  obtain ⟨w, hw, hgames⟩ := bind_eq_ok_iff.1 hgames
  obtain ⟨dir, hdir, hgames⟩ := bind_eq_ok_iff.1 hgames
  have harchives := Except.ok.inj hgames
  have hhomes := notes_apart_of_games w notes rfl "7" "Red" "9" "Blue"
  exact ⟨w, dir, hw, ⟨hhomes, tidy_empty⟩, hdir,
    (allRecords_of_succession hhomes tidy_empty hdir).2.2 (by rw [harchives]; simp [Directory.empty])⟩

/-- The next run begins with the first episode again, and if Red wins once more, its archive takes
the place of the one before. -/
theorem lost_of_rematch : ∃ w dir d dir', World.ofRecord armory = .ok w ∧
    succession [game w notes "7" "Red"] .empty = .ok dir ∧
    Dictionary.load "move_dict.json" (dir.content? "move_dict.json") = .ok d ∧
    succession [game w notes "7" "Red", game w d "9" "Red"] .empty = .ok dir' ∧
    (filings [game w notes "7" "Red", game w d "9" "Red"] .empty).added.map (·.round) =
      ["7", "9"] ∧
    (dir'.files.toList.map fun e => (e.1, e.2.records.map (·.round))) =
      [("move_dict.json", []), ("purchase1winnerRed_dataset.zip", ["9"])] ∧
    ¬ ∀ (ls : List Launch) (dir dir' : Directory),
      (∀ l ∈ ls, ∀ home ∈ l.dictionary.home, ¬ IsTraining home) → dir.Tidy →
      succession ls dir = .ok dir' → ∀ record ∈ (filings ls dir).added,
        record ∈ allRecords dir'.files := by
  have hgames : (World.ofRecord armory >>= fun w =>
      succession [game w notes "7" "Red"] .empty >>= fun dir =>
      Dictionary.load "move_dict.json" (dir.content? "move_dict.json") >>= fun d =>
      succession [game w notes "7" "Red", game w d "9" "Red"] .empty >>= fun dir' =>
      .ok (d.home, (filings [game w notes "7" "Red", game w d "9" "Red"] .empty).added.map (·.round),
          dir'.files.toList.map fun e => (e.1, e.2.records.map (·.round)))) =
      .ok (some "move_dict.json", ["7", "9"],
        [("move_dict.json", []), ("purchase1winnerRed_dataset.zip", ["9"])]) := by
    decide +kernel
  obtain ⟨w, hw, hgames⟩ := bind_eq_ok_iff.1 hgames
  obtain ⟨dir, hdir, hgames⟩ := bind_eq_ok_iff.1 hgames
  obtain ⟨d, hd, hgames⟩ := bind_eq_ok_iff.1 hgames
  obtain ⟨dir', hdir', hgames⟩ := bind_eq_ok_iff.1 hgames
  obtain ⟨hhome, hgames⟩ := Prod.mk.inj (Except.ok.inj hgames)
  obtain ⟨hadded, hfiles⟩ := Prod.mk.inj hgames
  refine ⟨w, dir, d, dir', hw, hdir, hd, hdir', hadded, hfiles, fun h => ?_⟩
  obtain ⟨record, hrecord, hround⟩ : ∃ record ∈ (filings [game w notes "7" "Red",
      game w d "9" "Red"] .empty).added, record.round = "7" := by
    rw [← List.mem_map, hadded]
    simp
  have hkept := h _ _ _ (notes_apart_of_games w d hhome _ _ _ _) tidy_empty hdir' record hrecord
  obtain ⟨e, he, hkept⟩ := List.mem_flatMap.1 (Multiset.mem_coe.1 hkept)
  have hsummary : (e.1, e.2.records.map (·.round)) ∈
      [("move_dict.json", []), ("purchase1winnerRed_dataset.zip", ["9"])] :=
    hfiles ▸ List.mem_map_of_mem he
  have hseven : "7" ∈ e.2.records.map (·.round) := hround ▸ List.mem_map_of_mem hkept
  simp only [List.mem_cons, Prod.mk.injEq, List.not_mem_nil, or_false] at hsummary
  rcases hsummary with ⟨-, hrounds⟩ | ⟨-, hrounds⟩ <;> simp [hrounds] at hseven

end Launch

end Warboard
