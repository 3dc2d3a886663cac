import Fabric.Device.Basic
import Fabric.Netlist.Net
/-!
# Placed netlists

Cells with their pins, the nets between them, where cells and pins are placed on the device,
and what import has found out about the routing. Cells, pins and nets are numbered in the
order of their creation. The number of a removed net is not given out again.
-/

namespace Fabric

/-- How a design was implemented: on its own or as a module of another one. -/
inductive Mode
  | regular | outOfContext | reconfigModule
deriving DecidableEq, Repr

/-- Modules are routed up to partition pins at their boundary. -/
def Mode.isModule : Mode → Bool
  | .regular => false
  | .outOfContext | .reconfigModule => true

inductive PinKind
  | regular
  /-- Stands for a BEL pin that a constant drives without any pin of the cell. -/
  | pseudo
  /-- A pin on the boundary of a module, on the wire there if it has one. -/
  | partition (wire : Option Wire)
deriving DecidableEq, Repr

def PinKind.isPartition : PinKind → Bool
  | .partition _ => true
  | .regular | .pseudo => false

structure Cell where
  name : String
  type : String
  bel : Option BelId := none
  site : Option SiteId := none
  isPort : Bool := false
  properties : Table String String := ∅
  pins : List PinId := []
  pseudoPinCount : Nat := 0
  partitionPin : Option PinId := none

/-- Flip-flops and latches are told by the start of their type. -/
def Cell.isFlipFlopOrLatch (c : Cell) : Bool :=
  "FD".toList.isPrefixOf c.type.toList || "LD".toList.isPrefixOf c.type.toList

structure Pin where
  name : String
  cell : CellId
  dir : PinDir
  kind : PinKind
  net : Option NetId := none
  belPins : List BelPinId := []

structure Netlist where
  name : String
  mode : Mode
  cells : Array Cell := #[]
  cellIndex : Table String CellId := ∅
  pins : Array Pin := #[]
  /-- A removed net leaves its place empty. -/
  nets : Array (Option Net) := #[]
  netIndex : Table String NetId := ∅
  cellOfBel : Table BelId CellId := ∅
  pinOfBelPin : Table BelPinId PinId := ∅
  /-- The wires of used site PIPs, for the sites that they are known of. -/
  usedSitePips : Table SiteId (KeySet WireName) := ∅
  /-- The chosen input of each site PIP. -/
  sitePipValues : Table SiteId (Table String String) := ∅
  /-- For each port the wire of its partition pin as `tile/wire`, or the constant it is tied to. -/
  portNodes : Table String String := ∅
  /-- The nets that the wires of partition pins are kept for. -/
  reservedNodes : Table Wire NetId := ∅
  /-- The net of the static part that a net of the module goes on as. -/
  staticNetOf : Table String String := ∅
  /-- The written routes of nets of the static part. -/
  staticRoutes : Table String String := ∅

/-- A number that belongs to nothing was used. -/
inductive Fault
  | noCell (c : CellId)
  | noPin (p : PinId)
  | noNet (n : NetId)
  | noTree (i : Nat)
deriving DecidableEq, Repr

namespace Netlist

def vccName : String := "VCC"

def gndName : String := "GND"

/-- The constant nets are made first. -/
def vcc : NetId := ⟨0⟩

def gnd : NetId := ⟨1⟩

def staticNet (isVcc : Bool) : NetId := if isVcc then vcc else gnd

variable (nl : Netlist)

/-! ## Views -/

def cell? (c : CellId) : Option Cell := nl.cells[c.index]?

def pin? (p : PinId) : Option Pin := nl.pins[p.index]?

/-- The net with a number, unless it was removed. -/
def net? (n : NetId) : Option Net := (nl.nets[n.index]?).join

def getCell (c : CellId) : Except Fault Cell := (nl.cell? c).elim (.error (.noCell c)) .ok

def getPin (p : PinId) : Except Fault Pin := (nl.pin? p).elim (.error (.noPin p)) .ok

def getNet (n : NetId) : Except Fault Net := (nl.net? n).elim (.error (.noNet n)) .ok

/-- The nets that are left, with their numbers. -/
def liveNets : List (NetId × Net) :=
  nl.nets.toList.zipIdx.filterMap fun (net, i) => net.map ((⟨i⟩ : NetId), ·)

def cellNamed? (name : String) : Option CellId := nl.cellIndex[name]?

def netNamed? (name : String) : Option NetId := nl.netIndex[name]?

def cellAt? (b : BelId) : Option CellId := nl.cellOfBel[b]?

def pinAt? (p : BelPinId) : Option PinId := nl.pinOfBelPin[p]?

def isUsed (p : BelPinId) : Bool := nl.pinOfBelPin.contains p

def cellsAtSite (s : SiteId) : List Cell := nl.cells.toList.filter fun c => c.site = some s

/-- The sites that cells are placed in. -/
def usedSites : KeySet SiteId := .ofList (nl.cells.toList.filterMap Cell.site)

/-- The first pin of a cell with a name. Partition pins are not among the pins of a cell. -/
def pinNamed (c : CellId) (name : String) : Except Fault (Option PinId) := do
  let cell ← nl.getCell c
  return cell.pins.find? fun p => (nl.pin? p).any fun pin => pin.name = name

/-- `cell/pin`. -/
def pinFullName (p : PinId) : Except Fault String := do
  let pin ← nl.getPin p
  return (← nl.getCell pin.cell).name ++ "/" ++ pin.name

def partitionPins (n : NetId) : Except Fault (List PinId) := do
  let net ← nl.getNet n
  return net.pins.filter fun p => (nl.pin? p).any fun pin => pin.kind.isPartition

/-- Whether a pin is an input of a port. -/
def isPortSink (p : PinId) : Bool :=
  (nl.pin? p).any fun pin => pin.dir = .input && (nl.cell? pin.cell).any Cell.isPort

/-- The nets that feed several ports. -/
def multiPortNets : KeySet NetId :=
  .ofList ((nl.liveNets.filter fun (_, net) => 1 < net.pins.countP nl.isPortSink).map Prod.fst)

end Netlist

end Fabric
