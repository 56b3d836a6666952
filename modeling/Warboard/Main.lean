import Warboard.Options
import Warboard.Session.Connection
import Warboard.Session.Setup
import Warboard.Training.Zip
import Std.Async.TCP

namespace Warboard

open Std.Async.TCP Std.Net

def readFile? (path : String) : IO (Option (List UInt8)) := do
  try return some (← IO.FS.readBinFile path).toList catch _ => return none

def writeFile (path : String) (content : List UInt8) : IO Unit := do
  IO.FS.writeBinFile (path ++ ".tmp") content.toByteArray
  IO.FS.rename (path ++ ".tmp") path

/-- Where the files of a session are on disk. -/
structure Places where
  dictionary : String
  datasets : String

def Places.path (p : Places) (name : String) : String :=
  if name = p.dictionary then name else p.datasets ++ "/" ++ name

/-- Brings one file on disk from its old to its new content. -/
def storeFile (p : Places) (old : Directory) (name : String) : File → IO Unit
  | .octets content => writeFile (p.path name) content
  | .dataset records => do
    let handle ← IO.FS.Handle.mk (p.path name) .append
    for record in records.drop (old.recordsOf name).length do
      handle.putStr (String.ofList (record.toLine ++ ['\n']))
    handle.flush
  | .archive entry _ => do
    let content ← readFile? (p.path entry)
    IO.FS.writeBinFile (p.path name)
      (Zip.archive (Text.toOctets entry.toList) (content.getD [])).toByteArray

def store (p : Places) (old new : Directory) : IO Unit := do
  for (name, file) in new.files.toList do
    if old.files[name]? ≠ some file then storeFile p old name file
  for name in old.files.keys do
    if !new.files.contains name then IO.FS.removeFile (p.path name)

/-- The datasets that earlier runs left behind, whose records stay on disk. -/
def leftovers (config : Config) : IO Directory := do
  let some entries ← (try some <$> ((← IO.currentDir) / config.datasetDir).readDir catch _ => pure none)
    | return .missing
  let names := (entries.map fun e => e.fileName).toList.filter fun name =>
    name.startsWith "purchase" && name.endsWith "_dataset.jsonl"
  return ⟨true, .ofList (names.map fun name => (name, File.dataset []))⟩

def ofChecked {α : Type} : Checked α → IO α
  | .ok a => return a
  | .error .add => throw (IO.userError "attempt to add with overflow")
  | .error .multiply => throw (IO.userError "attempt to multiply with overflow")

/-- The whole lines of the input, and the octets after them. -/
def wholeLines (input : List UInt8) : List (List UInt8) × List UInt8 :=
  let lines := Session.chunks input
  match lines.getLast? with
  | some last => if last.getLast? = some 10 then (lines, []) else (lines.dropLast, last)
  | none => ([], [])

/-- Could the line be written? -/
def sendLine (client : Socket.Client) (line : Text) : IO Bool := do
  try
    (client.send (Text.toOctets (line ++ ['\n'])).toByteArray).block
    return true
  catch _ => return false

/-- The next input; none when the connection ends, also by an error. -/
def receive (client : Socket.Client) : IO (Option (List UInt8)) := do
  try return (← (client.recv? 65536).block).map ByteArray.toList catch _ => return none

/-- Handles the lines in turn, as long as the answers can be written. -/
def answerLines (p : Places) (client : Socket.Client) :
    List (List UInt8) → Session UInt64 → IO (Bool × Session UInt64)
  | [], s => return (true, s)
  | line :: lines, s => do
    let (response, next) ← ofChecked (s.handle Picker.random (Text.ofOctetsLossy line))
    store p s.directory next.directory
    match response with
    | none => answerLines p client lines next
    | some response =>
      if ← sendLine client response.toLine then answerLines p client lines next
      else return (false, next)

/-- Serves a connection until it ends. -/
partial def serveClient (p : Places) (client : Socket.Client) (pending : List UInt8)
    (s : Session UInt64) : IO (Session UInt64) := do
  match ← receive client with
  | none => return (← answerLines p client (Session.chunks pending) s).2
  | some input =>
    let (lines, pending) := wholeLines (pending ++ input)
    let (connected, s) ← answerLines p client lines s
    if connected then serveClient p client pending s else return s

/-- Serves one connection after another. -/
partial def serveAll (p : Places) (server : Socket.Server) (s : Session UInt64) : IO Unit := do
  let client ← server.accept.block
  serveAll p server (← serveClient p client [] s)

def addressOf (config : Config) : IO SocketAddress := do
  match IPv4Addr.ofString config.host, IPv6Addr.ofString config.host with
  | some ip, _ => return .v4 ⟨ip, config.port⟩
  | none, some ip => return .v6 ⟨ip, config.port⟩
  | none, none => throw (IO.userError ("Failed to bind " ++ config.address))

def configOf (o : Options) : IO Config := do
  match o.configPath with
  | none => return o.apply .standard
  | some path => match Config.load (← readFile? path) with
    | .ok config => return o.apply config
    | .error e => throw (IO.userError (e.message ++ " " ++ path))

def run (config : Config) : IO Unit := do
  let map ← match config.mapPath with
    | some path => readFile? path
    | none => pure none
  let dictionary ← readFile? config.moveDictPath
  let content (path : String) : Option (List UInt8) :=
    if some path = config.mapPath then map else if path = config.moveDictPath then dictionary else none
  let seed := config.seed.getD (UInt64.ofNat (← IO.rand 0 (UInt64.size - 1)))
  match Session.ofConfig config content (← leftovers config) seed with
  | .error e => throw (IO.userError e.message)
  | .ok session =>
    let server ← Socket.Server.mk
    server.bind (← addressOf config)
    server.listen 1
    serveAll ⟨config.moveDictPath, config.datasetDir⟩ server (← ofChecked session)

end Warboard

def main (args : List String) : IO UInt32 := do
  match Warboard.Options.read args .empty with
  | .ok options =>
    Warboard.run (← Warboard.configOf options)
    return 0
  | .error e =>
    IO.eprintln ("error: " ++ e.message)
    return 2
