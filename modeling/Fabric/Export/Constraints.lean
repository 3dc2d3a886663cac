import Fabric.Netlist.Basic
import Fabric.RouteText.OfTree
/-!
# Routing constraints

The constraints fix the route of every net that has one, and on request the site PIPs of the
slices in use. Nets that cross the boundary of a reconfigurable module are left out here
and told apart by the side that drives them.
-/

namespace Fabric

/-- The nets of a module that cross its boundary. -/
structure BoundaryNets where
  /-- Nets that a partition pin drives. -/
  entering : List NetId
  /-- Nets that leave through partition pins. -/
  leaving : List NetId
deriving DecidableEq, Repr

def BoundaryNets.isEmpty (b : BoundaryNets) : Bool := b.entering.isEmpty && b.leaving.isEmpty

namespace Export

variable (d : Device) (nl : Netlist)

/-- A line that sets a property of the named objects. -/
def setProperty (property value query name : String) : String :=
  "set_property " ++ property ++ " " ++ value ++ " [" ++ query ++ " \x7b" ++ name ++ "\x7d]\n"

def routeLine (value net : String) : String := setProperty "ROUTE" value "get_nets" net

/-! ## Nets -/

/-- Where a net is routed from and to, as far as the export tells nets apart. -/
inductive NetPlace
  | inside | entering | leaving
deriving DecidableEq, Repr

/-- Whether the source of a net is a partition pin. -/
def isEntering (net : Net) : Bool :=
  net.source.any fun p => (nl.pin? p).any fun pin => pin.kind.isPartition

def hasPartitionPin (net : Net) : Bool :=
  net.pins.any fun p => (nl.pin? p).any fun pin => pin.kind.isPartition

/-- Only nets of a reconfigurable module can cross its boundary. Ground never leaves. -/
def place (net : Net) : NetPlace :=
  if nl.mode ≠ .reconfigModule then .inside
  else if isEntering nl net then .entering
  else if net.kind ≠ .gnd && hasPartitionPin nl net then .leaving
  else .inside

def netsAt (place : NetPlace) : List NetId :=
  (nl.liveNets.filter fun (_, net) => Export.place nl net = place).map Prod.fst

def boundaryNets : BoundaryNets := ⟨netsAt nl .entering, netsAt nl .leaving⟩

/-- The line for a net, if it is inside and has a route. -/
def netLine? (net : Net) : Option String :=
  if place nl net = .inside then
    (d.routeValue? net.intersite).map fun value => routeLine value net.name
  else none

/-! ## Slices -/

/-- Clock and reset inverters, which are never reported as used and yet have to be set. On
7-series devices a flip-flop or latch in the site decides. -/
def polaritySelectors (s : SiteId) : List String :=
  match d.family with
  | .series7 =>
    match (nl.cellsAtSite s).find? Cell.isFlipFlopOrLatch with
    | none => []
    | some ff =>
      [if ff.properties["IS_C_INVERTED"]? = some "1'b1" then "CLKINV:CLK_B" else "CLKINV:CLK"]
  | .ultrascale =>
    (if d.siteTypeName s = "SLICEM" then ["LCLKINV:CLK"] else []) ++
      ["CLK1INV:CLK", "CLK2INV:CLK", "RST_ABCDINV:RST", "RST_EFGHINV:RST"]
  | .other => []

/-- The lines for a site: none unless it is a slice with known site PIPs. -/
def siteLines (s : SiteId) : List String :=
  let type := d.siteTypeName s
  let values := ((nl.sitePipValues[s]?).map Std.ExtTreeMap.toList).getD []
  if !"SLICE".toList.isPrefixOf type.toList || values.isEmpty then []
  else
    let pips := values.map (fun (pip, input) => pip ++ ":" ++ input) ++ polaritySelectors d nl s
    [setProperty "MANUAL_ROUTING" type "get_sites" (d.siteName s),
      setProperty "SITE_PIPS" ("\x7b" ++ " ".intercalate pips ++ "\x7d") "get_sites" (d.siteName s)]

/-- The text of the constraints, those of slices first. -/
def constraints (withSites : Bool) : String :=
  let sites := if withSites then nl.usedSites.toList.flatMap (siteLines d nl) else []
  String.join (sites ++ nl.liveNets.filterMap fun (_, net) => netLine? d nl net)

end Export

end Fabric
