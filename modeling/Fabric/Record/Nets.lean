import Fabric.Intersite
import Fabric.Record.Sites
/-!
# Records about nets

A net is routed inside its sites first, from its source to the site pins that it leaves
through and from site pins to its sinks. The PIPs of its `ROUTE` record then lead from the
ones to the others.
-/

namespace Fabric.Record

variable (d : Device)

/-! ## Routes between sites -/

/-- A constant goes on to whatever a site pin leads to. -/
def implicitSinks (n : NetId) (p : SitePinId) : RecordM Unit := do
  let r ← searchSite d (d.sitePinSite p) (.fromSitePin d n p true)
  if r.isValid then discard <| enterRouted d r

/-- A net has come to a site pin. The sinks of a route that waits there count as routed. -/
def reachSitePin (n : NetId) (p : SitePinId) : RecordM Unit := do
  let im ← get
  match im.siteRoutes[p]? with
  | some r => edit r.markRouted
  | none => if (← im.netlist.getNet n).isStatic then implicitSinks d n p

/-- Routes a net between sites from a wire. -/
def routeFrom (n : NetId) (pips : PipSet) (start : Wire) : RecordM Intersite.Search :=
  Intersite.route d pips start (reachSitePin d n)

def readPips (tokens : List String) : RecordM PipSet :=
  match PipSet.ofTokens tokens with
  | .ok pips => return pips
  | .error token => throw (.invalidPip token)

/-- Routes a net from the BEL pin that its source is mapped to, if there is one. -/
def routeFromSource (n : NetId) : RecordM Unit := do
  if let some b ← mappedBelPin (← netSource n) then discard <| routeFromBelPin d n b false

/-! ## Site pins -/

/-- A site pin of a net. The net comes in through an input. The first output that is named makes
the net be routed from its source. -/
def addSitePin (n : NetId) (token : String) : RecordM Unit := do
  let [siteName, pinName] := Text.parts '/' token | throw (wrongPath 2 token)
  let s ← findSite d siteName
  let p ← findSitePin d s pinName
  if (d.sitePinDir p).isInput then routeFromSitePin d n p
  else
    let isFirst := (← (← getNetlist).getNet n).sourceSitePins.isEmpty
    editNet n fun net => net.addSourceSitePin p
    if isFirst then routeFromSource d n

/-- `INTERSITE`: the site pins of a net. -/
def intersite : List String → RecordM Unit
  | [] => throw (.tokenCount 2 1)
  | netName :: tokens => do
    let n ← findNet netName
    tokens.forM (addSitePin d n)
    editNet n Net.updateStatus

/-- `INTRASITE`: a net that does not leave the site of its source. A net without one is passed
over. -/
def intrasite (args : List String) : RecordM Unit := do
  let [netName] := args | throw (.tokenCount 2 (args.length + 1))
  let n ← findNet netName
  if let some p := (← (← getNetlist).getNet n).source then
    if let some b ← mappedBelPin p then
      let m ← routeFromBelPin d n b true
      editNet m fun net => (net.setIntrasite true).updateStatus

/-! ## PIPs -/

/-- The wire at which a port brings a net into a module, if one is known. -/
def partitionStart (n : NetId) : RecordM (Option Wire) := do
  let nl ← getNetlist
  let some p := (← nl.getNet n).source | return none
  let cell ← nl.getCell (← nl.getPin p).cell
  if !cell.isPort then return none
  match nl.portNodes[cell.name]? with
  | none => return none
  | some node =>
    if node = Netlist.vccName ∨ node = Netlist.gndName then return none
    else return some (← findPartitionWire d node)

/-- Routes a net from one of its source site pins. Tells whether the route leaves the pin. -/
def routeFromSitePinOut (n : NetId) (pips : PipSet) (p : SitePinId) : RecordM Bool := do
  let s ← routeFrom d n pips (d.externalWire p)
  if s.pipUsed then editNet n fun net => net.addIntersite s.tree
  return s.pipUsed

/-- Has a net leave its site. It is routed from its source if it leaves through no site pin yet. -/
def findSourceSitePins (n : NetId) (netName : String) : RecordM Unit := do
  if (← (← getNetlist).getNet n).sourceSitePins.isEmpty then routeFromSource d n
  if (← (← getNetlist).getNet n).sourceSitePins.isEmpty then throw (.noSourceSitePin netName)

/-- Routes a net from the site pins that it leaves through, and in a module from its port too. A
source site pin that no route leaves is dropped. -/
def leaveSites (n : NetId) (pips : PipSet) (isModule : Bool) : RecordM Unit := do
  let pins := (← (← getNetlist).getNet n).sourceSitePins
  let unused ← pins.filterM fun p => return !(← routeFromSitePinOut d n pips p)
  unused.forM fun p => editNet n fun net => net.removeSourceSitePin p
  if isModule then
    if let some start ← partitionStart d n then
      let s ← routeFrom d n pips start
      editNet n fun net => net.addIntersite s.tree

/-- `ROUTE`: the PIPs of a net. -/
def route : List String → RecordM Unit
  | [] => throw (.tokenCount 2 1)
  | netName :: tokens => do
    let n ← findNet netName
    let pips ← readPips tokens
    let isModule := (← getNetlist).mode.isModule
    if !isModule then findSourceSitePins d n netName
    leaveSites d n pips isModule
    editNet n Net.updateStatus

/-- The PIPs of a constant net with the wires that it starts at. A refusal is that of the line
it comes from. -/
def staticNet (isVcc : Bool) (line startLine : Nat) (tokens starts : List String) :
    ImportM Unit := do
  let n := Netlist.staticNet isVcc
  let pips ← atLine line (readPips tokens)
  atLine startLine <| starts.forM fun token => do
    let start ← findTileWire d token
    let s ← routeFrom d n pips start
    editNet n fun net => net.addIntersite s.tree

end Fabric.Record
