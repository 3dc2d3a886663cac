import Fabric.Netlist.Basic
/-!
# Changing a netlist

The first half holds the changes themselves. They leave everything as it is that a wrong
number names. The second half checks the numbers first and faults on a wrong one.
-/

namespace Fabric.Netlist

variable (nl : Netlist)

/-! ## Single resources -/

def modifyCell (c : CellId) (f : Cell → Cell) : Netlist :=
  { nl with cells := nl.cells.modify c.index f }

def modifyPin (p : PinId) (f : Pin → Pin) : Netlist :=
  { nl with pins := nl.pins.modify p.index f }

def modifyNet (n : NetId) (f : Net → Net) : Netlist :=
  { nl with nets := nl.nets.modify n.index (Option.map f) }

def setPinNet (p : PinId) (n : Option NetId) : Netlist :=
  nl.modifyPin p fun pin => { pin with net := n }

/-! ## Cells and pins -/

def nextCell : CellId := ⟨nl.cells.size⟩

def nextPin : PinId := ⟨nl.pins.size⟩

/-- Adds a cell. Its name leads to it from now on. -/
def addCell (name type : String) : Netlist :=
  { nl with
    cells := nl.cells.push { name, type }
    cellIndex := nl.cellIndex.insert name nl.nextCell }

/-- Adds a pin on no net to a cell. A partition pin stands apart from the other pins. -/
def addPin (c : CellId) (name : String) (dir : PinDir) (kind : PinKind) : Netlist :=
  { nl.modifyCell c fun cell =>
      if kind.isPartition then { cell with partitionPin := some nl.nextPin }
      else { cell with pins := cell.pins ++ [nl.nextPin] } with
    pins := nl.pins.push { name, cell := c, dir, kind } }

/-- The `INIT` value of a LUT that passes its input on. -/
def bufferInit : String := "2'h2"

/-- Adds a LUT that passes its input `I0` on to its output `O`. -/
def addBuffer (name : String) : Netlist :=
  let c := nl.nextCell
  let bare := ((nl.addCell name "LUT1").addPin c "I0" .input .regular).addPin c "O" .output .regular
  bare.modifyCell c fun cell =>
    { cell with properties := cell.properties.insert "INIT" bufferInit }

def addPseudoPin (c : CellId) (name : String) (dir : PinDir) : Netlist :=
  (nl.addPin c name dir .pseudo).modifyCell c fun cell =>
    { cell with pseudoPinCount := cell.pseudoPinCount + 1 }

def place (c : CellId) (s : SiteId) (b : BelId) : Netlist :=
  { nl.modifyCell c fun cell => { cell with bel := some b, site := some s } with
    cellOfBel := nl.cellOfBel.insert b c }

def mapPin (p : PinId) (b : BelPinId) : Netlist :=
  { nl.modifyPin p fun pin => { pin with belPins := pin.belPins ++ [b] } with
    pinOfBelPin := nl.pinOfBelPin.insert b p }

/-! ## Nets -/

def nextNet : NetId := ⟨nl.nets.size⟩

/-- Adds a net. Its name leads to it from now on. -/
def addNet (name : String) (kind : NetKind) : Netlist :=
  { nl with
    nets := nl.nets.push (some { name, kind })
    netIndex := nl.netIndex.insert name nl.nextNet }

/-- Removes a net, which leaves its pins on no net and its name without meaning. -/
def removeNet (n : NetId) : Netlist :=
  match nl.net? n with
  | none => nl
  | some net =>
    let freed := net.pins.foldl (fun nl p => nl.setPinNet p none) nl
    { freed with
      nets := nl.nets.setIfInBounds n.index none
      netIndex := nl.netIndex.erase net.name }

/-- Gives a net another name. The names of the constants keep their meaning. -/
def renameNet (n : NetId) (name : String) : Netlist :=
  match nl.net? n with
  | none => nl
  | some net =>
    { nl.modifyNet n fun net => { net with name } with
      netIndex :=
        (if net.name = vccName ∨ net.name = gndName then nl.netIndex
          else nl.netIndex.erase net.name).insert name n }

/-- Takes a pin off a net. -/
def detach (n : NetId) (p : PinId) : Netlist :=
  let freed := if (nl.pin? p).bind Pin.net = some n then nl.setPinNet p none else nl
  freed.modifyNet n fun net => net.removePin p

/-- Puts a pin on a net and takes it off the one that it was on. -/
def attach (n : NetId) (p : PinId) : Netlist :=
  match nl.pin? p with
  | none => nl
  | some pin =>
    if pin.net = some n then nl
    else
      let freed := pin.net.elim nl fun m => nl.detach m p
      (freed.setPinNet p (some n)).modifyNet n fun net => net.addPin p pin.dir

/-- Puts a pin on a net as its source, whatever its direction. -/
def attachSource (n : NetId) (p : PinId) : Netlist :=
  (nl.attach n p).modifyNet n fun net => net.setSource p

/-! ## Site PIPs -/

def setUsedSitePips (s : SiteId) (wires : KeySet WireName) : Netlist :=
  { nl with usedSitePips := nl.usedSitePips.insert s wires }

/-- Adds choices of inputs. A new choice takes the place of an old one. -/
def addSitePipValues (s : SiteId) (values : List (String × String)) : Netlist :=
  { nl with
    sitePipValues := nl.sitePipValues.alter s fun old =>
      some ((old.getD ∅).insertMany values) }

/-- A netlist without cells. -/
def empty (name : String) (mode : Mode) : Netlist :=
  (({ name, mode : Netlist }).addNet vccName .vcc).addNet gndName .gnd

/-! ## Checked changes -/

def updateCell (c : CellId) (f : Cell → Cell) : Except Fault Netlist := do
  discard <| nl.getCell c
  return nl.modifyCell c f

def updateNet (n : NetId) (f : Net → Net) : Except Fault Netlist := do
  discard <| nl.getNet n
  return nl.modifyNet n f

def newPin (c : CellId) (name : String) (dir : PinDir) (kind : PinKind) : Except Fault Netlist := do
  discard <| nl.getCell c
  return nl.addPin c name dir kind

def newPseudoPin (c : CellId) (name : String) (dir : PinDir) : Except Fault Netlist := do
  discard <| nl.getCell c
  return nl.addPseudoPin c name dir

def placeCell (c : CellId) (s : SiteId) (b : BelId) : Except Fault Netlist := do
  discard <| nl.getCell c
  return nl.place c s b

def mapToBelPin (p : PinId) (b : BelPinId) : Except Fault Netlist := do
  discard <| nl.getPin p
  return nl.mapPin p b

def rename (n : NetId) (name : String) : Except Fault Netlist := do
  discard <| nl.getNet n
  return nl.renameNet n name

def disconnect (n : NetId) (p : PinId) : Except Fault Netlist := do
  discard <| nl.getPin p
  discard <| nl.getNet n
  return nl.detach n p

/-- A pin that is on the net already is left alone. -/
def connect (n : NetId) (p : PinId) : Except Fault Netlist := do
  let pin ← nl.getPin p
  if pin.net = some n then return nl
  if let some m := pin.net then discard <| nl.getNet m
  discard <| nl.getNet n
  return nl.attach n p

def connectSource (n : NetId) (p : PinId) : Except Fault Netlist := do
  let joined ← nl.connect n p
  discard <| joined.getNet n
  return nl.attachSource n p

/-- Adds an intrasite tree to a net and tells its place there. -/
def addIntrasite (n : NetId) (t : RouteTree) : Except Fault (Nat × Netlist) := do
  let net ← nl.getNet n
  return (net.intrasiteIndex t, nl.modifyNet n fun net => net.addIntrasite t)

/-- The tree of a net at a place that the net has noted, if it has noted one. -/
def notedTree (n : NetId) (place : Net → Option Nat) : Except Fault (Option RouteTree) := do
  let net ← nl.getNet n
  match place net with
  | none => return none
  | some i =>
    match net.intrasite[i]? with
    | some t => return some t
    | none => .error (.noTree i)

/-- The tree that starts at the source of a net. -/
def sourceTree (n : NetId) : Except Fault (Option RouteTree) := nl.notedTree n Net.sourceRoute

/-- The tree that a net comes to a site pin with. -/
def sitePinTree (n : NetId) (p : SitePinId) : Except Fault (Option RouteTree) :=
  nl.notedTree n fun net => net.sitePinRoutes[p]?

/-- The tree that a net comes to a BEL pin with. -/
def belPinTree (n : NetId) (p : BelPinId) : Except Fault (Option RouteTree) :=
  nl.notedTree n fun net => net.belPinRoutes[p]?

end Fabric.Netlist
