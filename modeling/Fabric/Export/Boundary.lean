import Fabric.Export.Constraints
import Fabric.RouteText.Parser
/-!
# Routes across the boundary of a module

The route of a net that crosses the boundary goes on in the static part. Both parts are
joined at the node of the partition pin and fix the route of the net of the static part.
-/

namespace Fabric

inductive ExportError
  | routeText (e : RouteTextError)
  | missingPartitionPin (port : String)
  | missingStaticRoute (net : String)
  | mergeFailed (net node : String)
deriving DecidableEq, Repr

def ExportError.message : ExportError → String
  | routeText e => "Route string error: " ++ e.message
  | missingPartitionPin port => "No partition pin route recorded for port \"" ++ port ++ "\""
  | missingStaticRoute net => "No static design route recorded for net \"" ++ net ++ "\""
  | mergeFailed net node =>
    "Partition pin node " ++ node ++ " not found while merging the route of net \"" ++ net ++ "\""

namespace Export

variable (d : Device) (nl : Netlist)

/-- A net that crosses the boundary at a port. -/
structure Crossing where
  net : NetId
  port : String
  moduleIsDriven : Bool

/-- The port that a pin belongs to. -/
def portOf (p : PinId) : Except Fault String := do
  return (← nl.getCell (← nl.getPin p).cell).name

/-- The crossings of boundary nets, entering ones first. -/
def crossings (nets : BoundaryNets) : Except Fault (List Crossing) := do
  let entering ← nets.entering.mapM fun n => do
    (← nl.getNet n).source.toList.mapM fun p => return ⟨n, ← portOf nl p, true⟩
  let leaving ← nets.leaving.mapM fun n => do
    (← nl.partitionPins n).mapM fun p => return ⟨n, ← portOf nl p, false⟩
  return entering.flatten ++ leaving.flatten

/-- The line for a crossing. A net without a route needs none. -/
def crossingLine (net : Net) (port : String) (moduleIsDriven : Bool) :
    Except ExportError (Option String) := do
  let some node := nl.portNodes[port]? | .error (.missingPartitionPin port)
  let some static := nl.staticNetOf[net.name]? | .error (.missingStaticRoute net.name)
  let some written := nl.staticRoutes[static]? | .error (.missingStaticRoute static)
  let some tree := net.intersite.head? | return none
  let staticRoute ← (RouteText.parse written).mapError .routeText
  match staticRoute.joinAt? (d.routeText tree) node moduleIsDriven with
  | none => .error (.mergeFailed net.name node)
  | some joined => return some (routeLine joined.text static)

/-- The text for crossings up to the first that cannot be joined, and why that is. -/
def crossingLines : List Crossing → Except Fault (String × Option ExportError)
  | [] => return ("", none)
  | c :: cs => do
    match crossingLine d nl (← nl.getNet c.net) c.port c.moduleIsDriven with
    | .error e => return ("", some e)
    | .ok line =>
      let (rest, e) ← crossingLines cs
      return (line.getD "" ++ rest, e)

/-- The constraints for nets that cross the boundary, up to the first error. -/
def boundaryConstraints (nets : BoundaryNets) : Except Fault (String × Option ExportError) := do
  crossingLines d nl (← crossings nl nets)

end Export

end Fabric
