import Warboard.Config
import Warboard.Session.Basic

namespace Warboard.Session

/-- Reads the map that the configuration names; `content` gives what a file holds. -/
def readMap (config : Config) (content : String → Option (List UInt8)) :
    Except ConfigError MapRecord :=
  match config.mapPath with
  | none => .error .noMap
  | some path => match content path >>= Text.ofOctets >>= MapRecord.ofText with
    | some record => .ok record
    | none => .error .mapUnreadable

/-- A session with the map and the dictionary that the configuration names. -/
def ofConfig {σ : Type} (config : Config) (content : String → Option (List UInt8))
    (directory : Directory) (picker : σ) : Except ConfigError (Checked (Session σ)) := do
  let record ← readMap config content
  return do
    return .new (← World.ofRecord record)
      (← Dictionary.load config.moveDictPath (content config.moveDictPath)) directory picker

end Warboard.Session
