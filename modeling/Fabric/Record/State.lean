import Fabric.Record.Error
import Fabric.Record.Kind
import Fabric.SiteRoute.Apply
import Fabric.Text.Split
/-!
# State of an import

Records change a netlist and a few tables beside it. A record that is refused keeps the
changes made before the refusal. A fault keeps nothing, for no netlist explains it.
-/

namespace Fabric

structure Importer where
  netlist : Netlist
  /-- Routes into sites that wait for the net to reach their site pin. -/
  siteRoutes : Table SitePinId SiteRoute := ∅
  routethroughs : Table BelId Routethrough := ∅
  vccBels : KeySet BelId := ∅
  gndBels : KeySet BelId := ∅
  /-- The nets of a module that fed several ports at the start. -/
  multiPortNets : KeySet NetId := ∅

def Importer.ofNetlist (nl : Netlist) : Importer :=
  { netlist := nl, multiPortNets := if nl.mode.isModule then nl.multiPortNets else ∅ }

/-- Work on one record. -/
abbrev RecordM := ExceptT RecordError (StateT Importer (Except Fault))

/-- Work on lines of records. -/
abbrev ImportM := ExceptT ImportError (StateT Importer (Except Fault))

namespace Record

/-- Names the line of a record that may be refused. -/
def atLine (line : Nat) (act : RecordM α) : ImportM α := act.adapt fun cause => ⟨line, cause⟩

def getNetlist : RecordM Netlist := return (← get).netlist

/-- Changes the netlist. -/
def edit (f : Netlist → Except Fault Netlist) : RecordM Unit := do
  let im ← get
  set { im with netlist := ← f im.netlist }

def editNet (n : NetId) (f : Net → Net) : RecordM Unit := edit fun nl => nl.updateNet n f

def require (e : RecordError) : Option α → RecordM α
  | some a => return a
  | none => throw e

/-! ## Resources by name -/

/-- The refusal of a path that has not `n` parts. -/
def wrongPath (n : Nat) (token : String) : RecordError :=
  .tokenCount n (Text.parts '/' token).length

/-- The names of the constants always mean the constant nets. -/
def findNet (name : String) : RecordM NetId := do
  if name = Netlist.vccName then return Netlist.vcc
  if name = Netlist.gndName then return Netlist.gnd
  require (.unknownNet name) ((← getNetlist).netNamed? name)

def findCell (name : String) : RecordM CellId := do
  require (.unknownCell name) ((← getNetlist).cellNamed? name)

variable (d : Device)

def findSite (name : String) : RecordM SiteId := require (.unknownSite name) (d.siteNamed? name)

def findSitePin (s : SiteId) (name : String) : RecordM SitePinId :=
  require (.unknownSitePin (d.siteName s) name) (d.sitePinNamed? s name)

def findBel (s : SiteId) (name : String) : RecordM BelId :=
  require (.unknownBel (d.siteName s) name) (d.belNamed? s name)

def findBelPin (b : BelId) (name : String) : RecordM BelPinId :=
  require (.unknownBelPin (d.belName b) name) (d.belPinNamed? b name)

def findTile (name : String) : RecordM TileId := require (.unknownTile name) (d.tileNamed? name)

/-- The tile wire called `tile/wire`. -/
def findTileWire (token : String) : RecordM Wire := do
  let [tileName, wireName] := Text.parts '/' token | throw (wrongPath 2 token)
  let t ← findTile d tileName
  return .tile t (← require (.unknownWire token) (d.wireNamed? wireName))

/-- The type of the tiles that hold the wires at the boundary of a module. -/
def boundaryTileType : String := "OOC_WIRE"

/-- The wire of a partition pin, called `tile/wire`. The whole of it is the name of the wire in
a boundary tile. -/
def findPartitionWire (token : String) : RecordM Wire := do
  let [tileName, wireName] := Text.parts '/' token | throw (wrongPath 2 token)
  let t ← findTile d tileName
  let name := if d.tileType t = boundaryTileType then token else wireName
  return .tile t (← require (.unknownWire token) (d.wireNamed? name))

/-! ## Pins of nets and ports -/

/-- The only pin of a port. -/
def portPin (c : CellId) : RecordM PinId := do
  let cell ← (← getNetlist).getCell c
  match cell.pins with
  | [p] => return p
  | ps => throw (.portPinCount cell.name ps.length)

def netSource (n : NetId) : RecordM PinId := do
  let net ← (← getNetlist).getNet n
  require (.noSourcePin net.name) net.source

/-- The one BEL pin that a pin is mapped to. In a module a pin may have none or several, and
then counts as having none. -/
def mappedBelPin (p : PinId) : RecordM (Option BelPinId) := do
  let nl ← getNetlist
  match (← nl.getPin p).belPins with
  | [b] => return some b
  | bs =>
    if nl.mode.isModule then return none
    else throw (.belPinMapping (← nl.pinFullName p) bs.length)

end Record

end Fabric
