import Mathlib.Data.List.Nodup
import Warboard.Config
import Warboard.Proofs.Map.Format
import Warboard.Proofs.Text.Octets

namespace Warboard.Config

open Json

inductive Field
  | host
  | port
  | mapPath
  | moveDictPath
  | datasetDir
  | seed
  deriving DecidableEq

namespace Field

def all : List Field := [host, port, mapPath, moveDictPath, datasetDir, seed]

def key : Field → String
  | host => "host"
  | port => "port"
  | mapPath => "map_path"
  | moveDictPath => "move_dict_path"
  | datasetDir => "dataset_dir"
  | seed => "seed"

abbrev Value : Field → Type
  | host | moveDictPath | datasetDir => String
  | port => UInt16
  | mapPath => Option String
  | seed => Option UInt64

def toJson : (f : Field) → f.Value → Json
  | host, s | moveDictPath, s | datasetDir, s => .ofString s
  | port, n => .ofNat n.toNat
  | mapPath, path => .ofOption .ofString path
  | seed, n => .ofOption (fun n => .ofNat n.toNat) n

def ofJson : (f : Field) → Json → Option f.Value
  | host | moveDictPath | datasetDir => Json.string?
  | port => Json.uint16?
  | mapPath => Json.option? Json.string?
  | seed => Json.option? Json.uint64?

theorem mem_all (f : Field) : f ∈ all := by
  cases f <;> decide

theorem nodup_all : all.Nodup := by decide

theorem map_key_all : all.map key = fields := rfl

theorem key_injective : Function.Injective key := by
  intro f g h
  revert h
  cases f <;> cases g <;> decide

theorem written_toJson (f : Field) (v : f.Value) : Written (f.toJson v) := by
  cases f with
  | host | moveDictPath | datasetDir => exact written_ofString v
  | port => exact written_ofNat _
  | mapPath => exact written_ofOption written_ofString v
  | seed => exact written_ofOption (fun n => written_ofNat n.toNat) v

theorem ofJson_toJson (f : Field) (v : f.Value) : f.ofJson (f.toJson v) = some v := by
  cases f with
  | host | moveDictPath | datasetDir => exact string?_ofString v
  | port => exact uint16?_ofNat v
  | mapPath => exact option?_ofOption string?_ofString (fun _ h => by cases h) v
  | seed => exact option?_ofOption uint64?_ofNat (fun _ h => by cases h) v

end Field

def get (c : Config) : (f : Field) → f.Value
  | .host => c.host
  | .port => c.port
  | .mapPath => c.mapPath
  | .moveDictPath => c.moveDictPath
  | .datasetDir => c.datasetDir
  | .seed => c.seed

/-- The configuration with the given values. -/
def ofValues (v : (f : Field) → f.Value) : Config :=
  ⟨v .host, v .port, v .mapPath, v .moveDictPath, v .datasetDir, v .seed⟩

/-- What a configuration file says of one field. -/
def entry (c : Config) (f : Field) : String × Json := (f.key, f.toJson (c.get f))

variable (c : Config)

theorem get_ofValues (v : (f : Field) → f.Value) (f : Field) : (ofValues v).get f = v f := by
  cases f <;> rfl

theorem ofValues_get : ofValues c.get = c := rfl

theorem toJson_eq : c.toJson = record (Field.all.map c.entry) := rfl

theorem map_fst_entry (given : List Field) :
    (given.map c.entry).map Prod.fst = given.map Field.key := by
  rw [List.map_map]
  rfl

variable {c} {given : List Field}

/-- The file has a value for the fields that it names, and for no other. -/
theorem column_entries (hgiven : given.Nodup) (f : Field) :
    column (given.map c.entry) f.key =
      some (if f ∈ given then some (f.toJson (c.get f)) else none) := by
  by_cases hf : f ∈ given
  · rw [if_pos hf]
    apply column_of_mem
    · rw [map_fst_entry]
      exact List.Nodup.map Field.key_injective hgiven
    · exact List.mem_map.2 ⟨f, hf, rfl⟩
  · rw [if_neg hf]
    apply column_of_not_mem
    rwa [map_fst_entry, List.mem_map_of_injective Field.key_injective]

/-- A field that is named is read, and a field that is not has its standard value. -/
theorem orElse_entry (f : Field) :
    orElse (standard.get f) f.ofJson (if f ∈ given then some (f.toJson (c.get f)) else none) =
      some (if f ∈ given then c.get f else standard.get f) := by
  by_cases hf : f ∈ given
  · rw [if_pos hf, if_pos hf, orElse, f.ofJson_toJson]
  · rw [if_neg hf, if_neg hf, orElse]

theorem ofJson_of_columns {j : Json} {cols : Field → Option Json} {v : (f : Field) → f.Value}
    (hcols : j.columns fields = some (Field.all.map cols))
    (hread : ∀ f, orElse (standard.get f) f.ofJson (cols f) = some (v f)) :
    ofJson j = some (ofValues v) := by
  have hhost : orElse standard.host string? (cols .host) = some (v .host) := hread .host
  have hport : orElse standard.port uint16? (cols .port) = some (v .port) := hread .port
  have hmap : orElse standard.mapPath (option? string?) (cols .mapPath) = some (v .mapPath) :=
    hread .mapPath
  have hdict : orElse standard.moveDictPath string? (cols .moveDictPath) = some (v .moveDictPath) :=
    hread .moveDictPath
  have hdir : orElse standard.datasetDir string? (cols .datasetDir) = some (v .datasetDir) :=
    hread .datasetDir
  have hseed : orElse standard.seed (option? uint64?) (cols .seed) = some (v .seed) := hread .seed
  rw [ofJson, hcols]
  simp only [Field.all, List.map_cons, List.map_nil, Option.bind_eq_bind, Option.bind_some, hhost,
    hport, hmap, hdict, hdir, hseed]
  rfl

theorem ofJson_entries (hgiven : given.Nodup) :
    ofJson (record (given.map c.entry)) =
      some (ofValues fun f => if f ∈ given then c.get f else standard.get f) := by
  refine ofJson_of_columns ?_ orElse_entry
  rw [columns_record, ← Field.map_key_all]
  simp only [Field.all, List.map_cons, List.map_nil, List.mapM_cons, List.mapM_nil,
    column_entries hgiven]
  rfl

theorem load_entries (hgiven : given.Nodup) {sp : Spacing} (hsp : sp.IsBlank) :
    load (some (Text.toOctets ((record (given.map c.entry)).render sp))) =
      .ok (ofValues fun f => if f ∈ given then c.get f else standard.get f) := by
  have hwritten : Written (record (given.map c.entry)) :=
    written_record (List.forall_mem_map.2 fun f _ => f.written_toJson (c.get f))
  simp only [load, Option.bind_eq_bind, Option.bind_some, Text.ofOctets_toOctets,
    parse_render hsp hwritten, ofJson_entries hgiven]

/-- A file with some of the fields of a configuration, in any order and with any white space
between, gives these fields and leaves all others as they are by default. A configuration is written
with all of its fields, and is read back. -/
theorem load_selection (c : Config) {given : List Field} (hgiven : given.Nodup) {sp : Spacing}
    (hsp : sp.IsBlank) :
    (∃ d, load (some (Text.toOctets ((record (given.map c.entry)).render sp))) = .ok d ∧
      (∀ f ∈ given, d.get f = c.get f) ∧ ∀ f, f ∉ given → d.get f = standard.get f) ∧
    c.toJson = record (Field.all.map c.entry) ∧
    load (some (Text.toOctets (c.toJson.render sp))) = .ok c := by
  refine ⟨⟨_, load_entries hgiven hsp, ?_, ?_⟩, c.toJson_eq, ?_⟩
  · intro f hf
    rw [get_ofValues, if_pos hf]
  · intro f hf
    rw [get_ofValues, if_neg hf]
  · rw [toJson_eq, load_entries Field.nodup_all hsp]
    simp only [Field.mem_all, if_true]
    rw [ofValues_get]

/-- No map, the largest seed, and a host that cannot be written as it stands. -/
def quaint : Config :=
  ⟨"\"h\u00e4\\\n", 0, none, "", "a b", some 18446744073709551615⟩

def quaintFile : Text :=
  ("\x7b\"seed\": 18446744073709551615, \"map_path\": null, " ++
    "\"host\": \"\\\"h\u00e4\\\\\\n\"\x7d").toList

theorem load_selection_quaint :
    quaintFile = (record ([.seed, .mapPath, .host].map quaint.entry)).render .spaced ∧
    (([.seed, .mapPath, .host] : List Field).Nodup ∧ Spacing.spaced.IsBlank) ∧
    (∃ d, load (some (Text.toOctets quaintFile)) = .ok d ∧ d.host = quaint.host ∧
      d.seed = quaint.seed ∧ d.port = 5000 ∧ d.datasetDir = ".") ∧
    load (some (Text.toOctets (quaint.toJson.render .spaced))) = .ok quaint := by
  have hfile : quaintFile =
      (record ([.seed, .mapPath, .host].map quaint.entry)).render .spaced := by decide +kernel
  have hgiven : ([.seed, .mapPath, .host] : List Field).Nodup := by decide
  obtain ⟨⟨d, hload, hsame, hother⟩, -, hfull⟩ :=
    load_selection quaint hgiven Spacing.spaced_isBlank
  refine ⟨hfile, ⟨hgiven, Spacing.spaced_isBlank⟩, ⟨d, hfile ▸ hload, ?_⟩, hfull⟩
  exact ⟨hsame .host (by decide), hsame .seed (by decide), hother .port (by decide),
    hother .datasetDir (by decide)⟩

end Warboard.Config
