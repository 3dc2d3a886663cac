import Fabric.Device.Wire
import Fabric.Json.Decode
/-!
# Device descriptions

What a device file says: tiles with their wires, site types with their wiring, BELs and pins,
and the sites. Wires are named by texts here.
-/

namespace Fabric

structure HopDescription where
  target : String
  /-- The tile that a connection leads to when it leaves its own. -/
  tile : Option String
  kind : ConnKind
deriving DecidableEq, Repr

structure WireDescription where
  name : String
  hops : List HopDescription
deriving DecidableEq, Repr

structure TileDescription where
  name : String
  type : String
  wires : List WireDescription
deriving DecidableEq, Repr

structure BelPinDescription where
  name : String
  dir : PinDir
  wire : String
deriving DecidableEq, Repr

structure BelDescription where
  name : String
  pins : List BelPinDescription
deriving DecidableEq, Repr

structure SitePinDescription where
  name : String
  dir : PinDir
  internal : String
  external : String
deriving DecidableEq, Repr

structure SiteTypeDescription where
  name : String
  wires : List WireDescription
  bels : List BelDescription
  pins : List SitePinDescription
deriving DecidableEq, Repr

structure SiteDescription where
  name : String
  type : String
  tile : String
deriving DecidableEq, Repr

structure DeviceDescription where
  name : String
  family : Family
  tiles : List TileDescription
  siteTypes : List SiteTypeDescription
  sites : List SiteDescription
deriving DecidableEq, Repr

/-! ## Reading -/

open Json

def PinDir.decode : Decoder PinDir :=
  asChoice [("inout", .inout), ("input", .input), ("output", .output)]

def Family.decode : Decoder Family :=
  asChoice [("series7", .series7), ("ultrascale", .ultrascale), ("other", .other)]

def ConnKind.decode : Decoder ConnKind :=
  asChoice [("wire", .wire), ("pip", .pip), ("routethrough", .routeThrough)]

def HopDescription.decode : Decoder HopDescription := fun n v => do
  let field ← fields? ["to", "tile", "kind"] n v
  return {
    target := ← required asText n (field "to")
    tile := ← withDefault (asOption asText) none n (field "tile")
    kind := ← withDefault ConnKind.decode .wire n (field "kind") }

def WireDescription.decode : Decoder WireDescription := fun n v => do
  let field ← fields? ["name", "conns"] n v
  return {
    name := ← required asText n (field "name")
    hops := ← withDefault (asList HopDescription.decode) [] n (field "conns") }

def TileDescription.decode : Decoder TileDescription := fun n v => do
  let field ← fields? ["name", "type", "wires"] n v
  return {
    name := ← required asText n (field "name")
    type := ← required asText n (field "type")
    wires := ← withDefault (asList WireDescription.decode) [] n (field "wires") }

def BelPinDescription.decode : Decoder BelPinDescription := fun n v => do
  let field ← fields? ["name", "dir", "wire"] n v
  return {
    name := ← required asText n (field "name")
    dir := ← required PinDir.decode n (field "dir")
    wire := ← required asText n (field "wire") }

def BelDescription.decode : Decoder BelDescription := fun n v => do
  let field ← fields? ["name", "pins"] n v
  return {
    name := ← required asText n (field "name")
    pins := ← withDefault (asList BelPinDescription.decode) [] n (field "pins") }

def SitePinDescription.decode : Decoder SitePinDescription := fun n v => do
  let field ← fields? ["name", "dir", "internal", "external"] n v
  return {
    name := ← required asText n (field "name")
    dir := ← required PinDir.decode n (field "dir")
    internal := ← required asText n (field "internal")
    external := ← required asText n (field "external") }

def SiteTypeDescription.decode : Decoder SiteTypeDescription := fun n v => do
  let field ← fields? ["name", "wires", "bels", "pins"] n v
  return {
    name := ← required asText n (field "name")
    wires := ← withDefault (asList WireDescription.decode) [] n (field "wires")
    bels := ← withDefault (asList BelDescription.decode) [] n (field "bels")
    pins := ← withDefault (asList SitePinDescription.decode) [] n (field "pins") }

def SiteDescription.decode : Decoder SiteDescription := fun n v => do
  let field ← fields? ["name", "type", "tile"] n v
  return {
    name := ← required asText n (field "name")
    type := ← required asText n (field "type")
    tile := ← required asText n (field "tile") }

def DeviceDescription.decode : Decoder DeviceDescription := fun n v => do
  let field ← fields? ["name", "family", "tiles", "site_types", "sites"] n v
  return {
    name := ← required asText n (field "name")
    family := ← withDefault Family.decode .other n (field "family")
    tiles := ← withDefault (asList TileDescription.decode) [] n (field "tiles")
    siteTypes := ← withDefault (asList SiteTypeDescription.decode) [] n (field "site_types")
    sites := ← withDefault (asList SiteDescription.decode) [] n (field "sites") }

/-! ## Writing -/

def Family.text : Family → String
  | .series7 => "series7"
  | .ultrascale => "ultrascale"
  | .other => "other"

def HopDescription.toJson (h : HopDescription) : Json :=
  record [("to", text h.target), ("tile", ofOption text h.tile), ("kind", text h.kind.text)]

def WireDescription.toJson (w : WireDescription) : Json :=
  record [("name", text w.name), ("conns", list (w.hops.map HopDescription.toJson))]

def TileDescription.toJson (t : TileDescription) : Json := record [
  ("name", text t.name), ("type", text t.type),
  ("wires", list (t.wires.map WireDescription.toJson))]

def BelPinDescription.toJson (p : BelPinDescription) : Json :=
  record [("name", text p.name), ("dir", text p.dir.text), ("wire", text p.wire)]

def BelDescription.toJson (b : BelDescription) : Json :=
  record [("name", text b.name), ("pins", list (b.pins.map BelPinDescription.toJson))]

def SitePinDescription.toJson (p : SitePinDescription) : Json := record [
  ("name", text p.name), ("dir", text p.dir.text),
  ("internal", text p.internal), ("external", text p.external)]

def SiteTypeDescription.toJson (t : SiteTypeDescription) : Json := record [
  ("name", text t.name), ("wires", list (t.wires.map WireDescription.toJson)),
  ("bels", list (t.bels.map BelDescription.toJson)),
  ("pins", list (t.pins.map SitePinDescription.toJson))]

def SiteDescription.toJson (s : SiteDescription) : Json :=
  record [("name", text s.name), ("type", text s.type), ("tile", text s.tile)]

/-- Writes every field, so that reading gives the description back. -/
def DeviceDescription.toJson (d : DeviceDescription) : Json := record [
  ("name", text d.name), ("family", text d.family.text),
  ("tiles", list (d.tiles.map TileDescription.toJson)),
  ("site_types", list (d.siteTypes.map SiteTypeDescription.toJson)),
  ("sites", list (d.sites.map SiteDescription.toJson))]

/-! ## What was written is read back -/

theorem PinDir.decode_text (n : FileFormat) (d : PinDir) : decode n (.text d.text) = some d := by
  cases n <;> cases d <;> rfl

theorem Family.decode_text (n : FileFormat) (f : Family) : decode n (.text f.text) = some f := by
  cases n <;> cases f <;> rfl

theorem ConnKind.decode_text (n : FileFormat) (k : ConnKind) :
    decode n (.text k.text) = some k := by
  cases n <;> cases k <;> rfl

theorem HopDescription.decode_toJson (n : FileFormat) (h : HopDescription) :
    decode n h.toJson = some h := by
  simp [decode, toJson, fields?, List.lookup_cons, required, withDefault, asText_text,
    asOption_ofOption, ConnKind.decode_text]

theorem WireDescription.decode_toJson (n : FileFormat) (w : WireDescription) :
    decode n w.toJson = some w := by
  simp [decode, toJson, fields?, List.lookup_cons, required, withDefault, asText_text,
    asList_map (HopDescription.decode_toJson n)]

theorem TileDescription.decode_toJson (n : FileFormat) (t : TileDescription) :
    decode n t.toJson = some t := by
  simp [decode, toJson, fields?, List.lookup_cons, required, withDefault, asText_text,
    asList_map (WireDescription.decode_toJson n)]

theorem BelPinDescription.decode_toJson (n : FileFormat) (p : BelPinDescription) :
    decode n p.toJson = some p := by
  simp [decode, toJson, fields?, List.lookup_cons, required, asText_text, PinDir.decode_text]

theorem BelDescription.decode_toJson (n : FileFormat) (b : BelDescription) :
    decode n b.toJson = some b := by
  simp [decode, toJson, fields?, List.lookup_cons, required, withDefault, asText_text,
    asList_map (BelPinDescription.decode_toJson n)]

theorem SitePinDescription.decode_toJson (n : FileFormat) (p : SitePinDescription) :
    decode n p.toJson = some p := by
  simp [decode, toJson, fields?, List.lookup_cons, required, asText_text, PinDir.decode_text]

theorem SiteTypeDescription.decode_toJson (n : FileFormat) (t : SiteTypeDescription) :
    decode n t.toJson = some t := by
  simp [decode, toJson, fields?, List.lookup_cons, required, withDefault, asText_text,
    asList_map (WireDescription.decode_toJson n), asList_map (BelDescription.decode_toJson n),
    asList_map (SitePinDescription.decode_toJson n)]

theorem SiteDescription.decode_toJson (n : FileFormat) (s : SiteDescription) :
    decode n s.toJson = some s := by
  simp [decode, toJson, fields?, List.lookup_cons, required, asText_text]

theorem DeviceDescription.decode_toJson (n : FileFormat) (d : DeviceDescription) :
    decode n d.toJson = some d := by
  simp [decode, toJson, fields?, List.lookup_cons, required, withDefault, asText_text,
    Family.decode_text, asList_map (TileDescription.decode_toJson n),
    asList_map (SiteTypeDescription.decode_toJson n), asList_map (SiteDescription.decode_toJson n)]

end Fabric
