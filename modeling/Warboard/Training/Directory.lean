import Warboard.Training.Record
import Warboard.Text.Octets

namespace Warboard

inductive File
  | octets (content : List UInt8)
  /-- One line for each record. -/
  | dataset (records : List PurchaseRecord)
  /-- A dataset that was packed under the name of its file. -/
  | archive (entry : String) (records : List PurchaseRecord)
  deriving DecidableEq

/-- The directory that the agent writes to. -/
structure Directory where
  /-- Does writing succeed? -/
  writable : Bool
  files : Table File
  deriving DecidableEq

namespace Directory

def empty : Directory := ⟨true, ∅⟩

/-- A directory that does not exist. -/
def missing : Directory := ⟨false, ∅⟩

variable (d : Directory)

def write (name : String) (file : File) : Option Directory :=
  if d.writable then some { d with files := d.files.insert name file } else none

def content? (name : String) : Option (List UInt8) :=
  match d.files[name]? with
  | some (.octets content) => some content
  | _ => none

def datasetName (episode : UInt32) : String :=
  "purchase" ++ String.ofList (Text.digits episode.toNat) ++ "_dataset.jsonl"

/-- Other characters than the letters and digits of ASCII and `_` do not get into a file's name. -/
def fileSafe (winner : Text) : Text :=
  winner.map fun c => if c.isAlphanum || c = '_' then c else '_'

def archiveName (episode : UInt32) (winner : Text) : String :=
  "purchase" ++ String.ofList (Text.digits episode.toNat) ++ "winner" ++
    String.ofList (fileSafe winner) ++ "_dataset.zip"

def recordsOf (name : String) : List PurchaseRecord :=
  match d.files[name]? with
  | some (.dataset records) => records
  | _ => []

/-- Adds a record to the dataset of the episode. -/
def append (episode : UInt32) (record : PurchaseRecord) : Option Directory :=
  d.write (datasetName episode) (.dataset (d.recordsOf (datasetName episode) ++ [record]))

/-- The longest name of a file. -/
def nameLimit : Nat := 255

/-- Packs the dataset of the episode, if there is one, and takes it away. An archive of the same name
is replaced. None if that fails, as it does if the name of the archive is too long. -/
def archive (episode : UInt32) (winner : Text) : Option Directory :=
  let name := datasetName episode
  let target := archiveName episode winner
  match d.files[name]? with
  | some (.dataset records) =>
    if target.length ≤ nameLimit then do
      let d ← d.write target (.archive name records)
      return { d with files := d.files.erase name }
    else none
  | _ => some d

end Directory

end Warboard
