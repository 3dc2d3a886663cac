import Fabric.Device.Basic
/-!
# Devices from their descriptions

Resources are numbered in the order of the description. Wire names are numbered by their
first mention: the wires of the tiles, then for each site type the wires of its input BEL
pins, of its output pins and its own, then for each site those of all its pins.
-/

namespace Fabric

inductive DeviceError
  | duplicate (kind : Kind) (name : String)
  | unknownTile (name : String)
  | unknownSiteType (name : String)
  | unknownSiteWire (site wire : String)
deriving DecidableEq, Repr

def DeviceError.message : DeviceError → String
  | duplicate kind name => "Duplicate " ++ kind.text ++ " \"" ++ name ++ "\""
  | unknownTile name => "Tile \"" ++ name ++ "\" does not exist in the device"
  | unknownSiteType name => "Site type \"" ++ name ++ "\" is never declared"
  | unknownSiteWire site wire =>
    "Site wire \"" ++ wire ++ "\" referenced by " ++ site ++ " is never declared"

/-! ## Mentions of wire names -/

def WireDescription.mentions (w : WireDescription) : List String :=
  w.name :: w.hops.map HopDescription.target

def BelPinDescription.isInput (p : BelPinDescription) : Bool := p.dir.isInput

def SitePinDescription.isOutput (p : SitePinDescription) : Bool := p.dir.isOutput

namespace SiteTypeDescription

def belPins (t : SiteTypeDescription) : List BelPinDescription := t.bels.flatMap BelDescription.pins

def mentions (t : SiteTypeDescription) : List String :=
  (t.belPins.filter BelPinDescription.isInput).map BelPinDescription.wire ++
    (t.pins.filter SitePinDescription.isOutput).map SitePinDescription.internal ++
    t.wires.flatMap WireDescription.mentions

/-- The names that connections inside a site may lead to. -/
def declared (t : SiteTypeDescription) : KeySet String :=
  .ofList (t.wires.map WireDescription.name ++ t.belPins.map BelPinDescription.wire ++
    t.pins.map SitePinDescription.internal)

/-- The mentions of one site of the type. -/
def siteMentions (t : SiteTypeDescription) : List String :=
  t.belPins.map BelPinDescription.wire ++ t.pins.flatMap fun p => [p.external, p.internal]

end SiteTypeDescription

def DeviceDescription.mentions (d : DeviceDescription) : List String :=
  d.tiles.flatMap (fun t => t.wires.flatMap WireDescription.mentions) ++
    d.siteTypes.flatMap SiteTypeDescription.mentions ++
    d.sites.flatMap fun s =>
      ((d.siteTypes.find? fun t => t.name = s.type).map SiteTypeDescription.siteMentions).getD []

/-- The number of a name that the table holds. -/
def NameTable.get (names : NameTable) (s : String) : WireName :=
  (names.lookup? s).getD ⟨names.size⟩

/-! ## Parts -/

/-- Adds a name that must be new. -/
def addNew (kind : Kind) (t : Table String α) (name : String) (a : α) (shown : String) :
    Except DeviceError (Table String α) :=
  if t.contains name then .error (.duplicate kind shown) else .ok (t.insert name a)

/-- The positions of names that must differ. -/
def indexNames (kind : Kind) (shown : String → String) (names : List String) :
    Except DeviceError (Table String Nat) :=
  names.zipIdx.foldlM (fun t (name, i) => addNew kind t name i (shown name)) ∅

/-- Wires with their hops. A wire that is listed again has the hops of all its entries. -/
def hopTable (entries : List (WireName × List α)) : Table WireName (List α) :=
  entries.foldl (fun t (w, hops) => t.alter w fun old => some (old.getD [] ++ hops)) ∅

def Tile.ofDescription (names : NameTable) (tiles : Table String TileId) (self : TileId)
    (t : TileDescription) : Except DeviceError Tile := do
  let hop (h : HopDescription) : Except DeviceError TileHop :=
    match h.tile with
    | none => .ok ⟨self, names.get h.target, h.kind⟩
    | some name =>
      match tiles[name]? with
      | some tile => .ok ⟨tile, names.get h.target, h.kind⟩
      | none => .error (.unknownTile name)
  let entries ← t.wires.mapM fun w => do return (names.get w.name, ← w.hops.mapM hop)
  return ⟨t.name, t.type, hopTable entries, ∅⟩

def SiteType.ofDescription (names : NameTable) (t : SiteTypeDescription) :
    Except DeviceError SiteType := do
  let shown (name : String) := t.name ++ "/" ++ name
  let belIndex ← indexNames .bel shown (t.bels.map BelDescription.name)
  let pinIndex ← indexNames .sitePin shown (t.pins.map SitePinDescription.name)
  let declared := t.declared
  let hop (h : HopDescription) : Except DeviceError SiteHop :=
    if declared.contains h.target then .ok ⟨names.get h.target, h.kind⟩
    else .error (.unknownSiteWire t.name h.target)
  let entries ← t.wires.mapM fun w => do return (names.get w.name, ← w.hops.mapM hop)
  return {
    name := t.name
    bels := t.bels
    pins := t.pins
    hops := hopTable entries
    terminals := .ofList ((t.belPins.zipIdx.filter fun (p, _) => p.isInput).map
      fun (p, i) => (names.get p.wire, i))
    exits := .ofList ((t.pins.zipIdx.filter fun (p, _) => p.isOutput).map
      fun (p, i) => (names.get p.internal, i))
    belIndex
    pinIndex }

/-! ## Devices -/

namespace Device

def addSiteType (d : Device) (t : SiteTypeDescription) : Except DeviceError Device := do
  let siteTypeIndex ← addNew .siteType d.siteTypeIndex t.name ⟨d.siteTypes.size⟩ t.name
  let type ← SiteType.ofDescription d.names t
  return { d with siteTypeIndex, siteTypes := d.siteTypes.push type }

/-- Adds a BEL with its pins to a site. -/
def addBel (d : Device) (site : SiteId) (b : BelDescription) : Device :=
  { d with
    bels := d.bels.push
      ⟨b.name, site, (List.range b.pins.length).map fun i => ⟨d.belPins.size + i⟩⟩
    belPins := d.belPins ++
      (b.pins.map fun p => ⟨p.name, ⟨d.bels.size⟩, p.dir, d.names.get p.wire⟩).toArray }

/-- Adds a site pin. On the wire outside it takes the place of a pin that is already there. -/
def addSitePin (d : Device) (site : SiteId) (tile : TileId) (p : SitePinDescription) : Device :=
  let external := d.names.get p.external
  { d with
    sitePins := d.sitePins.push ⟨p.name, site, p.dir, d.names.get p.internal, external⟩
    tiles := d.tiles.modify tile.index fun t =>
      { t with sitePins := t.sitePins.insert external ⟨d.sitePins.size⟩ } }

def addSite (d : Device) (s : SiteDescription) : Except DeviceError Device := do
  let site : SiteId := ⟨d.sites.size⟩
  let siteIndex ← addNew .site d.siteIndex s.name site s.name
  let some tile := d.tileIndex[s.tile]? | .error (.unknownTile s.tile)
  let some typeId := d.siteTypeIndex[s.type]? | .error (.unknownSiteType s.type)
  let some type := d.siteTypes[typeId.index]? | .error (.unknownSiteType s.type)
  let bels := (List.range type.bels.length).map fun i => (⟨d.bels.size + i⟩ : BelId)
  let d' := { d with
    siteIndex
    sites := d.sites.push ⟨s.name, typeId, tile, bels, d.belPins.size, d.sitePins.size⟩ }
  let d' := type.bels.foldl (fun d b => d.addBel site b) d'
  return type.pins.foldl (fun d p => d.addSitePin site tile p) d'

def ofDescription (desc : DeviceDescription) : Except DeviceError Device := do
  let tileIndex := (← indexNames .tile id (desc.tiles.map TileDescription.name)).map fun _ i =>
    (⟨i⟩ : TileId)
  let names := NameTable.ofList desc.mentions
  let tiles ← desc.tiles.zipIdx.mapM fun (t, i) => Tile.ofDescription names tileIndex ⟨i⟩ t
  let bare : Device := {
    name := desc.name, family := desc.family, names, tiles := tiles.toArray, tileIndex
    siteTypes := #[], siteTypeIndex := ∅, sites := #[], siteIndex := ∅
    bels := #[], belPins := #[], sitePins := #[] }
  let typed ← desc.siteTypes.foldlM addSiteType bare
  desc.sites.foldlM addSite typed

end Device

end Fabric
