import Fabric.Command.Run
/-!
# The program

Runs a command on the files of the system.
-/

namespace Fabric

def usage : String :=
  "Usage: [--raw] <DEVICE> <DESIGN> import [OPTIONS] <ROUTING>\n" ++
    "       [--raw] <DEVICE> <DESIGN> route-string <ROUTING> <NET>\n" ++
    "Options of import: --xdc <XDC>, --part-pin-xdc <PART_PIN_XDC>, --intrasite,\n" ++
    "                   --json <JSON>, --json-out <JSON_OUT>\n"

/-- Why the system refuses a file. It numbers its reasons, and may count them downwards. -/
def faultOf : IO.Error → FileFault
  | .noFileOrDirectory .. => .noSuchFile
  | .inappropriateType _ code _ => if code = 21 ∨ code = -21 then .isAFolder else .notAFolder
  | e => .other (toString e)

/-- Only reading shows that a file is a folder. -/
def readErrorOf (mapped : Bool) (e : IO.Error) : FileError :=
  match faultOf e with
  | .isAFolder => .cannotRead (if mapped then .noSuchDevice else .isAFolder)
  | fault => .cannotOpen fault

def systemFiles : FileAccess IO where
  read mapped path := do
    try
      return .ok (← IO.FS.readBinFile path).data.toList
    catch e => return .error (readErrorOf mapped e)
  write path content := do
    try
      IO.FS.writeFile path content
      return .ok ()
    catch e => return .error (faultOf e)

end Fabric

def main (args : List String) : IO UInt32 := do
  match ← Fabric.Command.run Fabric.systemFiles Fabric.usage args with
  | .ok outcome =>
    IO.print outcome.output
    IO.eprint outcome.error
    return outcome.code.toUInt32
  | .error _ =>
    IO.eprintln "ERROR: the netlist is inconsistent"
    return 101
