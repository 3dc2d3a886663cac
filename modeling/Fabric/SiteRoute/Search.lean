import Fabric.SiteRoute.Basic
/-!
# Searching inside a site

A breadth-first search over the wires of a site. A wire other than the start that ends at a
BEL pin or leaves through a site pin is offered as a sink and not followed further, also
when the offer is refused. The tree is then cut down to the sinks.
-/

namespace Fabric.SiteRoute

variable (ctx : SiteContext)

/-- A route and the wires that its search has come to. -/
abbrev Search := SiteRoute × KeySet Wire

/-- Follows a connection out of a node to a wire that is new. -/
def follow (node : Nat) (s : Search) (c : Connection) : Search :=
  let (r, visited) := s
  if !visited.contains c.sink && ctx.qualifies c then
    ({ r with tree := r.tree.grow node c }, visited.insert c.sink)
  else s

/-- Offers the wire `w` of a node as a sink or follows the connections out of it. -/
def expand (node : Nat) (w : Wire) (s : Search) : Search :=
  let (r, visited) := s
  if some w ≠ r.start? ∧ r.endsAtBelPin ctx w then
    (((ctx.device.terminal? w).map fun p => r.offerBelPin ctx p node).getD r, visited)
  else if some w ≠ r.start? ∧ (ctx.device.pinAhead? w).isSome then
    (((ctx.device.pinAhead? w).map fun p => r.offerSitePin p node).getD r, visited)
  else (ctx.device.connections w).foldl (follow ctx node) s

/-- Goes through the nodes from `node` on, at most `steps` of them. -/
def searchFrom : Nat → Nat → Search → Search
  | 0, _, s => s
  | steps + 1, node, s =>
    match s.1.tree.wire? node with
    | none => s
    | some w => searchFrom steps (node + 1) (expand ctx node w s)

/-- Cuts the tree down to the sinks. -/
def cut (r : SiteRoute) : SiteRoute := { r with tree := r.tree.prune r.ends, ends := [] }

/-- Searches from the start of a route. The device has no more wires than the search has
steps. -/
def build (r : SiteRoute) : SiteRoute :=
  (searchFrom ctx (ctx.device.wireBound + 1) 0 (r, .ofList r.start?.toList)).1.cut

end Fabric.SiteRoute
