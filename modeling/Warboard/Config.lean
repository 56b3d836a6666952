import Warboard.Json.Fields
import Warboard.Json.Parser
import Warboard.Json.Printer
import Warboard.Text.Octets

namespace Warboard

structure Config where
  host : String
  port : UInt16
  mapPath : Option String
  moveDictPath : String
  datasetDir : String
  /-- Makes the choice of moves repeatable. -/
  seed : Option UInt64
  deriving DecidableEq, Repr

inductive ConfigError
  | unreadable
  | invalid
  | noMap
  | mapUnreadable
  deriving DecidableEq, Repr

def ConfigError.message : ConfigError → String
  | unreadable => "Failed to read config"
  | invalid => "Invalid config"
  | noMap => "No map record configured (use --map)"
  | mapUnreadable => "Failed to load map record"

namespace Config

def standard : Config := ⟨"127.0.0.1", 5000, none, "move_dict.json", ".", none⟩

def fields : List String :=
  ["host", "port", "map_path", "move_dict_path", "dataset_dir", "seed"]

def toJson (c : Config) : Json :=
  .record (fields.zip
    [.ofString c.host, .ofNat c.port.toNat, .ofOption .ofString c.mapPath, .ofString c.moveDictPath,
     .ofString c.datasetDir, .ofOption (fun n => .ofNat n.toNat) c.seed])

/-- Fields that are not given have their standard values. -/
def ofJson (j : Json) : Option Config := do
  let [host, port, mapPath, moveDictPath, datasetDir, seed] ← j.columns fields | none
  return {
    host := ← Json.orElse standard.host Json.string? host
    port := ← Json.orElse standard.port Json.uint16? port
    mapPath := ← Json.orElse standard.mapPath (Json.option? Json.string?) mapPath
    moveDictPath := ← Json.orElse standard.moveDictPath Json.string? moveDictPath
    datasetDir := ← Json.orElse standard.datasetDir Json.string? datasetDir
    seed := ← Json.orElse standard.seed (Json.option? Json.uint64?) seed }

/-- Reads the content of a configuration file; none if there is no file. -/
def load (content : Option (List UInt8)) : Except ConfigError Config :=
  match content >>= Text.ofOctets with
  | none => .error .unreadable
  | some t => match Json.parse t >>= ofJson with
    | none => .error .invalid
    | some c => .ok c

def address (c : Config) : String :=
  c.host ++ ":" ++ String.ofList (Text.digits c.port.toNat)

end Config

end Warboard
