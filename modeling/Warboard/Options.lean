import Warboard.Config
import Warboard.Text.Scan

namespace Warboard

/-- What the command line says; it goes before the configuration file. -/
structure Options where
  configPath : Option String
  mapPath : Option String
  host : Option String
  port : Option UInt16
  moveDictPath : Option String
  datasetDir : Option String
  seed : Option UInt64
  deriving DecidableEq, Repr

inductive OptionError
  | unknown (arg : String)
  | missingValue (flag : String)
  | invalidValue (flag value : String)
  deriving DecidableEq, Repr

def OptionError.message : OptionError → String
  | unknown arg => "unexpected argument '" ++ arg ++ "' found"
  | missingValue flag => "a value is required for '" ++ flag ++ "' but none was supplied"
  | invalidValue flag value => "invalid value '" ++ value ++ "' for '" ++ flag ++ "'"

namespace Options

def empty : Options := ⟨none, none, none, none, none, none, none⟩

/-- The number of a flag, if it is below `size`. -/
def number (flag value : String) (size : Nat) : Except OptionError Nat :=
  match Text.readNat value.toList with
  | some n => if n < size then .ok n else .error (.invalidValue flag value)
  | none => .error (.invalidValue flag value)

def flags : List String :=
  ["-c", "--config", "-m", "--map", "--host", "-p", "--port", "--move-dict", "--dataset-dir", "--seed"]

def set (o : Options) (flag value : String) : Except OptionError Options :=
  if flag = "-c" ∨ flag = "--config" then .ok { o with configPath := some value }
  else if flag = "-m" ∨ flag = "--map" then .ok { o with mapPath := some value }
  else if flag = "--host" then .ok { o with host := some value }
  else if flag = "-p" ∨ flag = "--port" then
    (number flag value UInt16.size).map fun n => { o with port := some (.ofNat n) }
  else if flag = "--move-dict" then .ok { o with moveDictPath := some value }
  else if flag = "--dataset-dir" then .ok { o with datasetDir := some value }
  else if flag = "--seed" then
    (number flag value UInt64.size).map fun n => { o with seed := some (.ofNat n) }
  else .error (.unknown flag)

/-- Each flag is followed by its value, or by `=` and its value. -/
def read : List String → Options → Except OptionError Options
  | [], o => .ok o
  | arg :: args, o =>
    match Text.cutAt "=" arg.toList with
    | some (flag, value) => do read args (← o.set (String.ofList flag) (String.ofList value))
    | none => match args with
      | value :: args => do read args (← o.set arg value)
      | [] => .error (if flags.contains arg then .missingValue arg else .unknown arg)

def apply (o : Options) (c : Config) : Config where
  host := o.host.getD c.host
  port := o.port.getD c.port
  mapPath := o.mapPath <|> c.mapPath
  moveDictPath := o.moveDictPath.getD c.moveDictPath
  datasetDir := o.datasetDir.getD c.datasetDir
  seed := o.seed <|> c.seed

end Options

end Warboard
