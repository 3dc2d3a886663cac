import Fabric.Json.Printer
import Fabric.Netlist.Basic
import Fabric.RouteText.OfTree
/-!
# Reports

What import has found out about chosen nets, as one JSON object.
-/

namespace Fabric

/-- The tree below node `n` with names for its wires, as far as `depth` nodes down. -/
def RouteTree.reportFrom (name : Wire → String) (t : RouteTree) : Nat → Nat → Json
  | 0, _ => .null
  | depth + 1, n =>
    .record [
      ("wire", .text (((t.wire? n).map name).getD "")),
      ("kind", .ofOption (fun c => .text c.kind.text) ((t.node? n).bind Node.link)),
      ("children", .list ((t.children n).map (t.reportFrom name depth)))]

namespace Export

variable (d : Device) (nl : Netlist)

def treeReport (t : RouteTree) : Json := t.reportFrom d.wireFullName t.size 0

def netReport (net : Net) : Except Fault Json := do
  let source ← net.source.mapM nl.pinFullName
  let routed ← net.routedSinks.toList.mapM nl.pinFullName
  return .record [
    ("name", .text net.name),
    ("status", .text net.status.text),
    ("source", .ofOption .text source),
    ("source_site_pins", .texts (net.sourceSitePins.map d.sitePinFullName)),
    ("routed_sinks", .texts routed),
    ("route", .ofOption .text (d.routeValue? net.intersite)),
    ("intersite", .list (net.intersite.map (treeReport d))),
    ("intrasite", .list (net.intrasite.map (treeReport d)))]

/-- The choice of all nets. -/
def allNets : String := ":all"

/-- Whether a net is among the chosen ones. -/
def isChosen (choice : List String) (name : String) : Bool :=
  choice.contains allNets || choice.contains name

/-- The chosen nets by name. Of two nets with one name the later counts. -/
def chosenNets (choice : List String) : Table String Net :=
  .ofList ((nl.liveNets.map Prod.snd).filterMap fun net =>
    if isChosen choice net.name then some (net.name, net) else none)

/-- The text of the report on nets, in the order of their names. -/
def report (nets : Table String Net) : Except Fault String := do
  let entries ← nets.toList.mapM fun (name, net) => return (name, ← netReport d nl net)
  return (Json.record entries).wide

end Export

end Fabric
