import Fabric.Device.Basic
import Fabric.Pip
import Fabric.RouteTree.Flat
/-!
# Routes between sites

A breadth-first search over the wiring of the device. It follows plain connections and the
switched ones among the given PIPs, and reports each site pin that it comes to. The nodes
of its tree are also its queue: they are followed in the order of their numbers.
-/

namespace Fabric.Intersite

/-- What a search has found so far. -/
structure Search where
  tree : RouteTree
  visited : KeySet Wire
  /-- Whether a switched connection was followed. A route without one has not left its start. -/
  pipUsed : Bool

namespace Search

def start (w : Wire) : Search := ⟨.ofRoot w, .ofList [w], false⟩

end Search

variable (d : Device) (pips : PipSet)

/-- Whether a route may use a connection. -/
def admits (c : Connection) : Bool :=
  !c.isSwitched || pips.contains ⟨d.wireFullName c.source, d.wireFullName c.sink⟩

/-- Follows a connection out of a node to a wire that is new. -/
def follow (node : Nat) (s : Search) (c : Connection) : Search :=
  if !s.visited.contains c.sink && admits d pips c then
    ⟨s.tree.grow node c, s.visited.insert c.sink, s.pipUsed || c.isSwitched⟩
  else s

/-- Follows all connections out of a node on the wire `w`. -/
def expand (node : Nat) (w : Wire) (s : Search) : Search :=
  (d.connections w).foldl (follow d pips node) s

/-- Follows the nodes from `node` on, at most `steps` of them. `visit` is told of each site pin
behind a wire as soon as the wire has been followed. -/
def searchFrom [Monad m] (visit : SitePinId → m PUnit) : Nat → Nat → Search → m Search
  | 0, _, s => pure s
  | steps + 1, node, s =>
    match s.tree.wire? node with
    | none => pure s
    | some w => do
      let next := expand d pips node w s
      if let some p := d.pinAhead? w then visit p
      searchFrom visit steps (node + 1) next

/-- The route from a wire. The device has no more wires than the search has steps. -/
def route [Monad m] (start : Wire) (visit : SitePinId → m PUnit) : m Search :=
  searchFrom d pips visit (d.wireBound + 1) 0 (.start start)

end Fabric.Intersite
