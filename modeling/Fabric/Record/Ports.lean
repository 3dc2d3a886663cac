import Fabric.Record.State
/-!
# Records about ports of a module

A port gets a partition pin in place of its own pin. A LUT that passes its input on is put in
where the partition pin cannot be on the net of the port itself.
-/

namespace Fabric

namespace Netlist

/-- Adds a LUT that passes its input on, and tells its input and output. -/
def insertBuffer (nl : Netlist) (name : String) : PinId × PinId × Netlist :=
  (nl.nextPin, ⟨nl.nextPin.index + 1⟩, nl.addBuffer name)

/-- Whether the source of a net is at the boundary of the module. -/
def isDrivenByBoundary (nl : Netlist) (net : Net) : Except Fault Bool := do
  match net.source with
  | none => return false
  | some p =>
    let pin ← nl.getPin p
    if pin.kind.isPartition then return true
    return (← nl.getCell pin.cell).isPort

/-- Puts the partition pin `q` of an input port on a net, as its source. A net without sinks
gets a LUT as one, and a port on no net gets a net. -/
def driveFromBoundary (nl : Netlist) (port : String) (old : Option NetId) (q : PinId) :
    Except Fault Netlist := do
  let (n, nl) :=
    match old with
    | some n => (n, nl)
    | none => (nl.nextNet, nl.addNet port .wire)
  let nl ← nl.connectSource n q
  if (← nl.getNet n).fanOut = 0 then
    let (input, _, nl) := nl.insertBuffer ("IN_BUF_Inserted_" ++ port)
    nl.connect n input
  else return nl

/-- Puts the partition pin `q` of an output port on a net. A net that may not end there itself
goes on through a LUT to a net of its own. A port on no net is grounded. -/
def sinkAtBoundary (nl : Netlist) (multiPortNets : KeySet NetId) (port : String)
    (old : Option NetId) (q : PinId) : Except Fault Netlist := do
  let n := old.getD gnd
  let net ← nl.getNet n
  if net.isStatic || multiPortNets.contains n || (← nl.isDrivenByBoundary net) then
    let (input, output, nl) := nl.insertBuffer (net.name ++ "_InsertedInst_" ++ port)
    let nl ← nl.connect n input
    let m := nl.nextNet
    let nl := nl.addNet (net.name ++ "_InsertedNet_" ++ port) .wire
    let nl ← nl.connect m output
    nl.connect m q
  else nl.connect n q

/-- Replaces the pin `p` of a port by a partition pin on a wire. The result tells the new pin. -/
def addPartitionPin (nl : Netlist) (multiPortNets : KeySet NetId) (port : CellId) (p : PinId)
    (wire : Wire) (isSource : Bool) : Except Fault (PinId × Netlist) := do
  let cell ← nl.getCell port
  let pin ← nl.getPin p
  let q := nl.nextPin
  let nl ← nl.newPin port pin.name (if isSource then .output else .input) (.partition (some wire))
  let nl ← pin.net.elim (pure nl) fun n => nl.disconnect n p
  let nl ←
    if isSource then nl.driveFromBoundary cell.name pin.net q
    else nl.sinkAtBoundary multiPortNets cell.name pin.net q
  return (q, nl)

/-- Moves all pins of a net to another one and removes it. -/
def dissolve (nl : Netlist) (n m : NetId) : Except Fault Netlist := do
  let net ← nl.getNet n
  let nl ← net.pins.foldlM (fun nl p => nl.connect m p) nl
  return nl.removeNet n

/-- Ties a port to a constant in place of its pin `p`. The net that the pin was on becomes part
of the constant. -/
def tiePort (nl : Netlist) (static : NetId) (port : CellId) (p : PinId) : Except Fault Netlist := do
  let pin ← nl.getPin p
  let nl ←
    match pin.net with
    | none => pure nl
    | some n => do
      let nl ← nl.disconnect n p
      if n = static then pure nl else nl.dissolve n static
  let q := nl.nextPin
  let nl ← nl.newPin port pin.name .input (.partition none)
  nl.connect static q

end Netlist

namespace Record

variable (d : Device)

/-- Whether a partition pin is a source within the module. -/
def readDirection (token : String) : RecordM Bool :=
  if token = "IN" then return false
  else if token = "OUT" then return true
  else throw (.invalidDirection token)

def setPortNode (port node : String) : RecordM Unit :=
  edit fun nl => return { nl with portNodes := nl.portNodes.insert port node }

/-- `PART_PIN`: a port, the wire of its partition pin and the direction. -/
def partitionPin (args : List String) : RecordM Unit := do
  let [portName, node, dir] := args | throw (.tokenCount 4 (args.length + 1))
  let port ← findCell portName
  let wire ← findPartitionWire d node
  let isSource ← readDirection dir
  setPortNode portName node
  let p ← portPin port
  let im ← get
  let (q, nl) ← im.netlist.addPartitionPin im.multiPortNets port p wire isSource
  let nl :=
    match (← nl.getPin q).net with
    | some n => { nl with reservedNodes := nl.reservedNodes.insert wire n }
    | none => nl
  set { im with netlist := nl }

/-- Ties a port to a constant. -/
def staticPort (isVcc : Bool) (name : String) : RecordM Unit := do
  setPortNode name (if isVcc then Netlist.vccName else Netlist.gndName)
  let port ← findCell name
  let p ← portPin port
  edit fun nl => nl.tiePort (Netlist.staticNet isVcc) port p

/-- `VCC_PART_PINS` and `GND_PART_PINS`: ports that are tied to a constant. -/
def staticPorts (isVcc : Bool) (portNames : List String) : RecordM Unit :=
  portNames.forM (staticPort isVcc)

end Record

end Fabric
