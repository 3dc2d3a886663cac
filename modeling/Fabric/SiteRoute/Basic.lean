import Fabric.Netlist.Edit
/-!
# Routes inside a site

Inside its site a net either comes in through a site pin or starts at a BEL pin. Its route
ends at BEL pins that cells use, and, if it starts at a BEL pin, at the site pins that it
leaves through.
-/

namespace Fabric

/-- A BEL that is set up to pass a signal from one pin to another. -/
structure Routethrough where
  input : BelPinId
  output : BelPinId
deriving DecidableEq, Repr

inductive SiteRoute.Source
  /-- In through a site pin. For constants, unused BEL pins are sinks too. -/
  | sitePin (pin : SitePinId) (allowUnused : Bool)
  /-- From the output of a BEL. A contained route must not leave the site. -/
  | belPin (pin : BelPinId) (contained : Bool)
deriving DecidableEq, Repr

structure SiteRoute where
  source : SiteRoute.Source
  /-- The net that the route belongs to. -/
  net : NetId
  tree : RouteTree
  belPinSinks : List BelPinId := []
  sitePinSinks : List SitePinId := []
  /-- The nodes at which sinks were accepted. -/
  ends : List Nat := []

/-- What a search inside a site looks at. -/
structure SiteContext where
  device : Device
  netlist : Netlist
  /-- The wires of used site PIPs, if any are known for the site. -/
  usedPips : Option (KeySet WireName)
  routethroughs : Table BelId Routethrough

namespace SiteContext

variable (ctx : SiteContext)

/-- A routethrough is used when it leads from an input of a BEL that is set up as one to the
wire of the output there. -/
def isUsedRoutethrough (c : Connection) : Bool :=
  c.isRouteThrough &&
    (ctx.device.terminal? c.source).any fun p =>
      (ctx.routethroughs[ctx.device.belPinBel p]?).any fun r =>
        ctx.device.belPinWire r.output = c.sink

def isUsedSitePip (source : Wire) : Bool := ctx.usedPips.any fun pips => pips.contains source.name

/-- Whether a route inside the site may use a connection. -/
def qualifies (c : Connection) : Bool :=
  !c.isSwitched || ctx.isUsedRoutethrough c || ctx.isUsedSitePip c.source

end SiteContext

namespace SiteRoute

def fromSitePin (d : Device) (net : NetId) (pin : SitePinId) (allowUnused : Bool) : SiteRoute :=
  { source := .sitePin pin allowUnused, net, tree := .ofRoot (d.internalWire pin) }

def fromBelPin (d : Device) (net : NetId) (pin : BelPinId) (contained : Bool) : SiteRoute :=
  { source := .belPin pin contained, net, tree := .ofRoot (d.belPinWire pin) }

variable (ctx : SiteContext) (r : SiteRoute)

/-- The wire that the route starts at. -/
def start? : Option Wire := r.tree.wire? 0

/-- Whether a wire ends at a BEL pin that the route takes notice of. -/
def endsAtBelPin (w : Wire) : Bool :=
  (ctx.device.terminal? w).any fun p =>
    match r.source with
    | .sitePin _ allowUnused => allowUnused || ctx.netlist.isUsed p
    | .belPin .. => ctx.netlist.isUsed p

/-- Whether the pin mapped to a BEL pin is on the net of the route. -/
def isOnNet (p : BelPinId) : Bool :=
  (ctx.netlist.pinAt? p).any fun q => (ctx.netlist.pin? q).any fun pin => pin.net = some r.net

/-- Whether a BEL pin may be a sink. A net that comes in takes only pins of its own. -/
def acceptsBelPin (p : BelPinId) : Bool :=
  match r.source with
  | .sitePin _ false => r.isOnNet ctx p
  | .sitePin _ true | .belPin .. => true

/-- Whether a site pin may be a sink. -/
def acceptsSitePin : Bool :=
  match r.source with
  | .belPin _ false => true
  | .belPin _ true | .sitePin .. => false

/-- Makes a BEL pin that was found at a node a sink, if it may be one. -/
def offerBelPin (p : BelPinId) (node : Nat) : SiteRoute :=
  if r.acceptsBelPin ctx p then
    { r with
      belPinSinks := if r.belPinSinks.contains p then r.belPinSinks else r.belPinSinks ++ [p]
      ends := r.ends ++ [node] }
  else r

/-- Makes a site pin that was found at a node a sink, if it may be one. -/
def offerSitePin (p : SitePinId) (node : Nat) : SiteRoute :=
  if r.acceptsSitePin then
    { r with
      sitePinSinks := if r.sitePinSinks.contains p then r.sitePinSinks else r.sitePinSinks ++ [p]
      ends := r.ends ++ [node] }
  else r

/-- Whether the route leads where it has to. -/
def isValid : Bool :=
  match r.source with
  | .belPin _ true => !r.belPinSinks.isEmpty && r.sitePinSinks.isEmpty
  | .belPin _ false => !r.belPinSinks.isEmpty || !r.sitePinSinks.isEmpty
  | .sitePin .. => !r.belPinSinks.isEmpty

end SiteRoute

end Fabric
