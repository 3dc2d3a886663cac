import Fabric.Record.State
import Fabric.SiteRoute.Search
/-!
# Records about sites

Used site PIPs and routethroughs open ways inside sites. Routes from the sources of the
constants and from the cell that drives a net are searched along them.
-/

namespace Fabric.Record

variable (d : Device)

/-! ## Routes inside a site -/

/-- Searches a route in a site with what is known of the site so far. -/
def searchSite (s : SiteId) (r : SiteRoute) : RecordM SiteRoute := do
  let im ← get
  return r.build {
    device := d, netlist := im.netlist, usedPips := im.netlist.usedSitePips[s]?
    routethroughs := im.routethroughs }

/-- Enters a route and marks its sinks as routed. The result is the net it ended up on. -/
def enterRouted (r : SiteRoute) : RecordM NetId := do
  let im ← get
  let (n, nl) ← r.apply d im.netlist
  set { im with netlist := ← { r with net := n }.markRouted nl }
  return n

/-- Routes a constant from a BEL pin. Tells whether anything is driven from there. -/
def tryStaticRoute (n : NetId) (p : BelPinId) : RecordM Bool := do
  let r ← searchSite d (d.belPinSite p) (.fromBelPin d n p false)
  if r.isValid then
    discard <| enterRouted d r
    return true
  else return false

def noRoute (source : String) (n : NetId) : RecordM RecordError := do
  return .noIntrasiteRoute source (← (← getNetlist).getNet n).name

/-- Routes a net from the BEL pin that drives it. -/
def routeFromBelPin (n : NetId) (p : BelPinId) (contained : Bool) : RecordM NetId := do
  let r ← searchSite d (d.belPinSite p) (.fromBelPin d n p contained)
  if r.isValid then enterRouted d r
  else throw (← noRoute (d.belPinFullName p) n)

/-- Routes a net in through a site pin. Its sinks count as routed once the net gets there. -/
def routeFromSitePin (n : NetId) (p : SitePinId) : RecordM Unit := do
  let r ← searchSite d (d.sitePinSite p) (.fromSitePin d n p false)
  if r.isValid then
    let im ← get
    let (m, nl) ← r.apply d im.netlist
    set { im with netlist := nl, siteRoutes := im.siteRoutes.insert p { r with net := m } }
  else throw (← noRoute (d.sitePinFullName p) n)

/-! ## Site PIPs -/

/-- What the choices of a record add up to. -/
structure SitePipChoices where
  used : KeySet WireName := ∅
  values : List (String × String) := []

/-- Reads a choice `pip:input`. The wire of the input and the one that its connection leads to
are in use. -/
def readSitePip (s : SiteId) (choices : SitePipChoices) (token : String) :
    RecordM SitePipChoices := do
  let (pip, input) ← require (.tokenCount 2 1) (Text.cutFirst ':' token)
  let name := "intrasite:" ++ d.siteTypeName s ++ "/" ++ pip ++ "." ++ input
  let w ← require (.unknownWire name) (d.wireNamed? name)
  let used ←
    match d.connections (.site s w) with
    | [] => pure choices.used
    | [c] => pure ((choices.used.insert w).insert c.sink.name)
    | cs => throw (.sitePipConnections name cs.length)
  return ⟨used, choices.values ++ [(pip, input)]⟩

/-- The names of the BELs of a site that tie wires to a constant, in order. -/
def tieOffs (s : SiteId) : List String :=
  let names := (d.belsOfSite s).map d.belName
  let ties := names.filter fun name => Text.contains name "VCC" || Text.contains name "GND"
  (Std.ExtTreeSet.ofList ties : KeySet String).toList

/-- Routes the constants out of every BEL of a site that ties wires to them. -/
def routeTieOffs (s : SiteId) : RecordM Unit :=
  (tieOffs d s).forM fun name => do
    if let some b := d.belNamed? s name then
      let n := Netlist.staticNet (Text.contains name "VCC")
      (d.belSources b).forM fun p => discard <| tryStaticRoute d n p

/-- `SITE_PIPS`: the choices in a site replace the wires in use there and add to its values. -/
def sitePips : List String → RecordM Unit
  | [] => throw (.tokenCount 2 1)
  | siteName :: tokens => do
    let s ← findSite d siteName
    let choices ← tokens.foldlM (readSitePip d s) {}
    edit fun nl => return (nl.setUsedSitePips s choices.used).addSitePipValues s choices.values
    routeTieOffs d s

/-! ## Routethroughs and sources of constants -/

/-- `LUT_RTS`: each BEL is set up as listed last. -/
def routethroughs (tokens : List String) : RecordM Unit :=
  tokens.forM fun token => do
    let [siteName, belName, inputName, outputName] := Text.parts '/' token
      | throw (wrongPath 4 token)
    let s ← findSite d siteName
    let b ← findBel d s belName
    let input ← findBelPin d b inputName
    let output ← findBelPin d b outputName
    modify fun im => { im with routethroughs := im.routethroughs.insert b ⟨input, output⟩ }

/-- `VCC_SOURCES` and `GND_SOURCES`: every listed pin has to drive something. -/
def staticSources (isVcc : Bool) (tokens : List String) : RecordM Unit :=
  tokens.forM fun token => do
    let [siteName, belName, pinName] := Text.parts '/' token | throw (wrongPath 3 token)
    let s ← findSite d siteName
    let b ← findBel d s belName
    let p ← findBelPin d b pinName
    let n := Netlist.staticNet isVcc
    if ← tryStaticRoute d n p then
      modify fun im =>
        if isVcc then { im with vccBels := im.vccBels.insert b }
        else { im with gndBels := im.gndBels.insert b }
    else throw (← noRoute (d.belPinFullName p) n)

end Fabric.Record
