import Fabric.Netlist.Description
import Fabric.Netlist.Edit
/-!
# Netlists from their descriptions

Cells come first, each with its placement and its pins, then the nets. Entries of one
constant add up, the last of them giving the net its name.
-/

namespace Fabric

inductive NetlistError
  | duplicate (kind : Kind) (name : String)
  | unknownBel (name : String)
  | unknownBelPin (bel pin : String)
  | unknownCellPin (name : String)
  | unplacedCell (cell : String)
  | belPinConflict (name : String)
deriving DecidableEq, Repr

def NetlistError.message : NetlistError → String
  | duplicate kind name => "Duplicate " ++ kind.text ++ " \"" ++ name ++ "\""
  | unknownBel name => "BEL \"" ++ name ++ "\" does not exist in the device"
  | unknownBelPin bel pin => "BEL pin \"" ++ bel ++ "/" ++ pin ++ "\" does not exist in the device"
  | unknownCellPin name => "Cell pin \"" ++ name ++ "\" does not exist in the design"
  | unplacedCell cell => "Cell \"" ++ cell ++ "\" maps pins to a BEL but is not placed"
  | belPinConflict name => "BEL pin " ++ name ++ " is mapped by more than one cell pin"

namespace Device

/-- The BEL called `site/bel`, with its site. The name of the site ends at the first slash. -/
def belAtPath? (d : Device) (path : String) : Option (SiteId × BelId) := do
  let (siteName, belName) ← Text.cutFirst '/' path
  let site ← d.siteNamed? siteName
  return (site, ← d.belNamed? site belName)

end Device

namespace Netlist

variable (d : Device)

/-- Maps a pin to a BEL pin that no pin is mapped to yet. -/
def addMapping (cell : CellDescription) (bel : BelId) (p : PinId) (nl : Netlist) (name : String) :
    Except NetlistError Netlist :=
  match d.belPinNamed? bel name with
  | none => .error (.unknownBelPin (cell.bel.getD "") name)
  | some b =>
    if nl.isUsed b then .error (.belPinConflict (d.belPinFullName b)) else .ok (nl.mapPin p b)

def addDescribedPin (cell : CellDescription) (c : CellId) (bel : Option BelId) (nl : Netlist)
    (pin : PinDescription) : Except NetlistError Netlist :=
  let added := nl.addPin c pin.name pin.dir .regular
  if pin.belPins.isEmpty then .ok added
  else
    match bel with
    | none => .error (.unplacedCell cell.name)
    | some bel => pin.belPins.foldlM (addMapping d cell bel nl.nextPin) added

def addDescribedCell (nl : Netlist) (cell : CellDescription) : Except NetlistError Netlist := do
  if (nl.cellNamed? cell.name).isSome then .error (.duplicate .cell cell.name) else
  let c := nl.nextCell
  let added := (nl.addCell cell.name cell.type).modifyCell c fun old =>
    { old with isPort := cell.isPort, properties := cell.properties }
  match cell.bel with
  | none => cell.pins.foldlM (addDescribedPin d cell c none) added
  | some path =>
    match d.belAtPath? path with
    | none => .error (.unknownBel path)
    | some (site, bel) =>
      cell.pins.foldlM (addDescribedPin d cell c (some bel)) (added.place c site bel)

/-- The pin called `cell/pin`. The name of the cell ends at the last slash. -/
def pinAtPath? (nl : Netlist) (path : String) : Option PinId := do
  let (cellName, pinName) ← Text.cutLast '/' path
  let c ← nl.cellNamed? cellName
  (nl.pinNamed c pinName).toOption.join

def addDescribedSink (n : NetId) (nl : Netlist) (path : String) : Except NetlistError Netlist :=
  match nl.pinAtPath? path with
  | none => .error (.unknownCellPin path)
  | some p => .ok (nl.attach n p)

/-- The net of a description, made or renamed, with the netlist that has it. -/
def openNet (nl : Netlist) (net : NetDescription) : Except NetlistError (NetId × Netlist) :=
  match net.kind with
  | .vcc => .ok (vcc, nl.renameNet vcc net.name)
  | .gnd => .ok (gnd, nl.renameNet gnd net.name)
  | .wire =>
    if (nl.netNamed? net.name).isSome then .error (.duplicate .net net.name)
    else .ok (nl.nextNet, nl.addNet net.name .wire)

/-- Adds a net whose name no earlier entry has. -/
def addDescribedNet (state : KeySet String × Netlist) (net : NetDescription) :
    Except NetlistError (KeySet String × Netlist) := do
  let (seen, nl) := state
  if seen.contains net.name then .error (.duplicate .net net.name) else
  let (n, opened) ← nl.openNet net
  return (seen.insert net.name, ← net.pins.foldlM (addDescribedSink n) opened)

def ofDescription (desc : NetlistDescription) : Except NetlistError Netlist := do
  let placed ← desc.cells.foldlM (addDescribedCell d) (empty desc.name desc.mode)
  let (_, joined) ← desc.nets.foldlM addDescribedNet (∅, placed)
  return { joined with staticNetOf := desc.staticNetOf, staticRoutes := desc.staticRoutes }

end Netlist

end Fabric
