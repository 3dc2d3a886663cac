import Fabric.Device.Basic
import Fabric.RouteText.Printer
import Fabric.RouteTree.Flat
/-!
# Writing route trees

A written route names the root of a tree and the wires that switched connections lead to. Its
groups are built as they are written: a run of wires, each going on at its last true child,
with the other true children as groups beside it.
-/

namespace Fabric.RouteText

/-- A run of wires, each with the groups that branch off it. -/
abbrev Run := List (String × List RouteText)

/-- The tree of a run. It is put together from the end: what comes of the rest of the run is the
last child of its first wire. -/
def ofRun (run : Run) : RouteText :=
  (run.foldr (fun step next => some ⟨step.1, step.2 ++ next.toList⟩) none).getD ⟨"", []⟩

/-- The run from node `n` on, as far as `depth` nodes down. -/
def runFrom (name : Wire → String) (t : RouteTree) : Nat → Nat → Run
  | 0, _ => []
  | depth + 1, n =>
    let wire := ((t.wire? n).map name).getD ""
    let next := t.trueChildren n
    match next.getLast? with
    | none => [(wire, [])]
    | some last =>
      (wire, next.dropLast.map fun b => ofRun (runFrom name t depth b)) :: runFrom name t depth last

/-- The written form of a route tree, its wires named by `name`. -/
def ofTree (name : Wire → String) (t : RouteTree) : RouteText := ofRun (runFrom name t t.size 0)

end RouteText

namespace Device

/-- The written form of a route tree of the device. -/
def routeText (d : Device) (t : RouteTree) : RouteText := .ofTree d.routeName t

/-- The `ROUTE` value of a net with the given trees. -/
def routeValue? (d : Device) (trees : List RouteTree) : Option String :=
  RouteText.routeValue? (trees.map d.routeText)

end Device

end Fabric
