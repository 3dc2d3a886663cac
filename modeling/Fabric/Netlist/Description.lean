import Fabric.Netlist.Basic
/-!
# Netlist descriptions

What a design file says: cells, where they are placed, and the nets between their pins, all
by name.
-/

namespace Fabric

structure PinDescription where
  name : String
  dir : PinDir
  belPins : List String
deriving DecidableEq, Repr

structure CellDescription where
  name : String
  type : String
  /-- The BEL that the cell is placed on, as `site/bel`. -/
  bel : Option String
  isPort : Bool
  properties : Table String String
  pins : List PinDescription

structure NetDescription where
  name : String
  kind : NetKind
  /-- Pins as `cell/pin`. Names of cells may have slashes themselves. -/
  pins : List String
deriving DecidableEq, Repr

structure NetlistDescription where
  name : String
  mode : Mode
  cells : List CellDescription
  nets : List NetDescription
  staticNetOf : Table String String
  staticRoutes : Table String String

/-! ## Reading -/

open Json

def Mode.decode : Decoder Mode :=
  asChoice [("regular", .regular), ("out_of_context", .outOfContext),
    ("reconfig_module", .reconfigModule)]

def NetKind.decode : Decoder NetKind := asChoice [("wire", .wire), ("vcc", .vcc), ("gnd", .gnd)]

def PinDescription.decode : Decoder PinDescription := fun n v => do
  let field ← fields? ["name", "dir", "bel_pins"] n v
  return {
    name := ← required asText n (field "name")
    dir := ← required PinDir.decode n (field "dir")
    belPins := ← withDefault (asList asText) [] n (field "bel_pins") }

def CellDescription.decode : Decoder CellDescription := fun n v => do
  let field ← fields? ["name", "type", "bel", "port", "properties", "pins"] n v
  return {
    name := ← required asText n (field "name")
    type := ← required asText n (field "type")
    bel := ← withDefault (asOption asText) none n (field "bel")
    isPort := ← withDefault asBool false n (field "port")
    properties := ← withDefault asTable ∅ n (field "properties")
    pins := ← withDefault (asList PinDescription.decode) [] n (field "pins") }

def NetDescription.decode : Decoder NetDescription := fun n v => do
  let field ← fields? ["name", "kind", "pins"] n v
  return {
    name := ← required asText n (field "name")
    kind := ← withDefault NetKind.decode .wire n (field "kind")
    pins := ← withDefault (asList asText) [] n (field "pins") }

def NetlistDescription.decode : Decoder NetlistDescription := fun n v => do
  let field ← fields? ["name", "mode", "cells", "nets", "rm_static_nets", "static_routes"] n v
  return {
    name := ← required asText n (field "name")
    mode := ← withDefault Mode.decode .regular n (field "mode")
    cells := ← withDefault (asList CellDescription.decode) [] n (field "cells")
    nets := ← withDefault (asList NetDescription.decode) [] n (field "nets")
    staticNetOf := ← withDefault asTable ∅ n (field "rm_static_nets")
    staticRoutes := ← withDefault asTable ∅ n (field "static_routes") }

/-! ## Writing -/

def Mode.text : Mode → String
  | .regular => "regular"
  | .outOfContext => "out_of_context"
  | .reconfigModule => "reconfig_module"

def NetKind.text : NetKind → String
  | .wire => "wire"
  | .vcc => "vcc"
  | .gnd => "gnd"

def PinDescription.toJson (p : PinDescription) : Json :=
  record [("name", text p.name), ("dir", text p.dir.text), ("bel_pins", texts p.belPins)]

def CellDescription.toJson (c : CellDescription) : Json := record [
  ("name", text c.name), ("type", text c.type), ("bel", ofOption text c.bel),
  ("port", bool c.isPort), ("properties", ofTable c.properties),
  ("pins", list (c.pins.map PinDescription.toJson))]

def NetDescription.toJson (n : NetDescription) : Json :=
  record [("name", text n.name), ("kind", text n.kind.text), ("pins", texts n.pins)]

/-- Writes every field, so that reading gives the description back. -/
def NetlistDescription.toJson (d : NetlistDescription) : Json := record [
  ("name", text d.name), ("mode", text d.mode.text),
  ("cells", list (d.cells.map CellDescription.toJson)),
  ("nets", list (d.nets.map NetDescription.toJson)),
  ("rm_static_nets", ofTable d.staticNetOf), ("static_routes", ofTable d.staticRoutes)]

/-! ## What was written is read back -/

theorem Mode.decode_text (n : FileFormat) (m : Mode) : decode n (.text m.text) = some m := by
  cases n <;> cases m <;> rfl

theorem NetKind.decode_text (n : FileFormat) (k : NetKind) : decode n (.text k.text) = some k := by
  cases n <;> cases k <;> rfl

theorem PinDescription.decode_toJson (n : FileFormat) (p : PinDescription) :
    decode n p.toJson = some p := by
  simp [decode, toJson, fields?, List.lookup_cons, required, withDefault, asText_text,
    PinDir.decode_text, asList_texts]

theorem CellDescription.decode_toJson (n : FileFormat) (c : CellDescription) :
    decode n c.toJson = some c := by
  simp [decode, toJson, fields?, List.lookup_cons, required, withDefault, asText_text, asBool_bool,
    asOption_ofOption, asTable_ofTable, asList_map (PinDescription.decode_toJson n)]

theorem NetDescription.decode_toJson (n : FileFormat) (d : NetDescription) :
    decode n d.toJson = some d := by
  simp [decode, toJson, fields?, List.lookup_cons, required, withDefault, asText_text,
    NetKind.decode_text, asList_texts]

theorem NetlistDescription.decode_toJson (n : FileFormat) (d : NetlistDescription) :
    decode n d.toJson = some d := by
  simp [decode, toJson, fields?, List.lookup_cons, required, withDefault, asText_text,
    Mode.decode_text, asTable_ofTable, asList_map (CellDescription.decode_toJson n),
    asList_map (NetDescription.decode_toJson n)]

end Fabric
