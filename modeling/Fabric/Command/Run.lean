import Fabric.Command.Arguments
import Fabric.Export.Boundary
import Fabric.Export.Report
import Fabric.File.Load
/-!
# Running a command

Every command takes in the records first. `import` then tells how many nets are routed and
writes what is asked for, and `route-string` writes the route of one net.
-/

namespace Fabric.Command

/-- What a run leaves behind besides files. -/
structure Outcome where
  code : Nat
  output : String
  error : String
deriving DecidableEq, Repr

/-- Why a run ends early. -/
inductive Failure
  | fault (f : Fault)
  | message (text : String)

/-- A run with what it has written to the standard output so far. -/
abbrev RunM (m : Type → Type) := ExceptT Failure (StateT String m)

section Run

variable {m : Type → Type} [Monad m] (files : FileAccess m)

def print (text : String) : RunM m Unit := modify (· ++ text)

def orFail (message : ε → String) (act : m (Except ε α)) : RunM m α := do
  match ← (act : m (Except ε α)) with
  | .ok a => return a
  | .error e => throw (.message (message e))

def orFault (x : Except Fault α) : RunM m α :=
  match x with
  | .ok a => return a
  | .error f => throw (.fault f)

def ioMessage (fault : FileFault) : String := "IO error: " ++ fault.message

def writeFile (path content : String) : RunM m Unit := orFail ioMessage (files.write path content)

/-- Takes in a file of records. -/
def takeIn (d : Device) (nl : Netlist) (path : String) : RunM m Netlist := do
  let (result, im) ← orFault (← (File.importRecords files d (.ofNetlist nl) path : m _))
  match result with
  | .ok () => return im.netlist
  | .error e => throw (.message e.message)

/-- The number of nets with each status. -/
def summary (nl : Netlist) : String :=
  let count (status : RouteStatus) : String :=
    toString (nl.liveNets.countP fun (_, net) => net.status = status)
  "Design " ++ nl.name ++ ":\n" ++
    "    Fully routed nets:      " ++ count .fullyRouted ++ "\n" ++
    "    Partially routed nets:  " ++ count .partlyRouted ++ "\n" ++
    "    Unrouted nets:          " ++ count .unrouted ++ "\n"

/-- Writes the constraints, and those of boundary nets if a file is named for them. -/
def exportConstraints (d : Device) (nl : Netlist) (options : ImportOptions) (xdc : String) :
    RunM m Unit := do
  writeFile files xdc (Export.constraints d nl options.withSites)
  if let some path := options.partPinXdc then
    let (text, e) ← orFault (Export.boundaryConstraints d nl (Export.boundaryNets nl))
    writeFile files path text
    if let some e := e then throw (.message e.message)

def runImport (d : Device) (nl : Netlist) (options : ImportOptions) : RunM m Unit := do
  let nl ← takeIn files d nl options.routing
  print (summary nl)
  if let some xdc := options.xdc then exportConstraints files d nl options xdc
  if let some choice := options.json then
    writeFile files options.jsonOut (← orFault (Export.report d nl (Export.chosenNets nl choice)))

def runRouteString (d : Device) (nl : Netlist) (routing name : String) : RunM m Unit := do
  let nl ← takeIn files d nl routing
  match nl.netNamed? name with
  | none => throw (.message ("Net \"" ++ name ++ "\" does not exist in the design"))
  | some n =>
    match d.routeValue? (← orFault (nl.getNet n)).intersite with
    | some route => print (route ++ "\n")
    | none => print ("Net " ++ name ++ " has no intersite route\n")

def runArguments (args : Arguments) : RunM m Unit := do
  let d ← orFail DeviceFileError.message (File.openDevice files args.raw args.device)
  let nl ← orFail NetlistFileError.message (File.openNetlist files d args.design)
  match args.action with
  | .import options => runImport files d nl options
  | .routeString routing net => runRouteString files d nl routing net

/-- Runs the program. Arguments without a meaning end it with code 2 and the given text on how
to use it. -/
def run (usage : String) (args : List String) : m (Except Fault Outcome) := do
  match Arguments.ofList? args with
  | none => return .ok ⟨2, "", usage⟩
  | some args =>
    let (result, output) ← (runArguments files args).run.run ""
    match result with
    | .ok () => return .ok ⟨0, output, ""⟩
    | .error (.message text) => return .ok ⟨1, output, "ERROR: " ++ text ++ "\n"⟩
    | .error (.fault f) => return .error f

end Run

end Fabric.Command
