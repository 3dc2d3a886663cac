import Fabric.SiteRoute.Basic
/-!
# Entering a site route into the netlist

A found route is registered with its net, for its source and for every sink. A pin at a sink
that is on no net joins the net of the route. From the first pin on that is on another net,
the route goes on as one of that net.
-/

namespace Fabric

namespace Netlist

variable (d : Device)

/-- Gives the cell on the BEL of a BEL pin a pin for it, named for the constant and counted
within the cell. A BEL without a cell is left alone. -/
def createPseudoPin (n : NetId) (p : BelPinId) (nl : Netlist) : Except Fault Netlist := do
  match nl.cellAt? (d.belPinBel p) with
  | none => return nl
  | some c =>
    let base := if (← nl.getNet n).kind = .vcc then "VCC_pseudo" else "GND_pseudo"
    let name := base ++ toString (← nl.getCell c).pseudoPinCount
    let pin := nl.nextPin
    let nl ← nl.newPseudoPin c name (d.belPinDir p)
    let nl ← nl.connect n pin
    nl.mapToBelPin pin p

/-- Puts the pin at a BEL pin on a constant net if it is on none, and makes one if none is there. -/
def tieBelPin (n : NetId) (p : BelPinId) (nl : Netlist) : Except Fault Netlist := do
  match nl.pinAt? p with
  | none => createPseudoPin d n p nl
  | some q => if (← nl.getPin q).net = none then nl.connect n q else return nl

/-- Registers a tree with a net for one of its BEL pins. -/
def registerBelPin (n : NetId) (t : RouteTree) (p : BelPinId) (nl : Netlist) :
    Except Fault Netlist := do
  let (i, nl) ← nl.addIntrasite n t
  nl.updateNet n fun net => net.setBelPinRoute p i

end Netlist

namespace Net

/-- Registers a tree for the source of a net and for the site pins it leaves through. These
become the source site pins of a net that has none. -/
def registerSource (d : Device) (n : Net) (i : Nat) (pins : List SitePinId) : Net :=
  let exits :=
    if n.sourceSitePins.isEmpty then pins.filter fun p => (d.sitePinDir p).isOutput else []
  pins.foldl (fun n p => n.setSitePinRoute p i)
    (exits.foldl addSourceSitePin (n.setSourceRoute i))

end Net

namespace SiteRoute

variable (d : Device) (r : SiteRoute)

/-- Enters a sink of a route that comes in through a site pin. -/
def applyEntering (allowUnused : Bool) (nl : Netlist) (p : BelPinId) : Except Fault Netlist := do
  let nl ← nl.registerBelPin r.net r.tree p
  if allowUnused then nl.tieBelPin d r.net p else return nl

/-- Enters a sink of a route that starts at a BEL pin and has come to the net `n`, and tells
the net it goes on with. -/
def applyStarting (state : NetId × Netlist) (p : BelPinId) : Except Fault (NetId × Netlist) := do
  let (n, nl) := state
  let mut n := n
  let mut nl := nl
  if let some q := nl.pinAt? p then
    match (← nl.getPin q).net with
    | none => nl ← nl.connect n q
    | some m =>
      if m ≠ n then
        discard <| nl.getNet m
        n := m
  return (n, ← nl.registerBelPin n r.tree p)

/-- Enters a route. The result tells the net that the route ended up on. -/
def apply (nl : Netlist) : Except Fault (NetId × Netlist) := do
  match r.source with
  | .sitePin pin allowUnused =>
    let (i, nl) ← nl.addIntrasite r.net r.tree
    let nl ← nl.updateNet r.net fun net => net.setSitePinRoute pin i
    return (r.net, ← r.belPinSinks.foldlM (applyEntering d r allowUnused) nl)
  | .belPin .. =>
    let net ← nl.getNet r.net
    -- The source of a constant has no pin on the BEL.
    let nl ←
      if net.isStatic then pure nl
      else do
        let (i, nl) ← nl.addIntrasite r.net r.tree
        nl.updateNet r.net fun net => net.registerSource d i r.sitePinSinks
    r.belPinSinks.foldlM (applyStarting r) (r.net, nl)

/-- Notes the pins at the sinks as reached by the net. -/
def markRouted (nl : Netlist) : Except Fault Netlist :=
  r.belPinSinks.foldlM
    (fun nl p =>
      match nl.pinAt? p with
      | none => return nl
      | some q => nl.updateNet r.net fun net => net.addRoutedSink q) nl

end SiteRoute

end Fabric
