import Fabric.Device.Description
import Fabric.NameTable
/-!
# Devices

A device holds tiles, sites with their BELs and pins, and the wiring between them. Sites of
one type share their wiring, so the tables of a site type count BELs and pins from the
first of the site. A question about a resource of another device has an empty answer.
-/

namespace Fabric

structure TileHop where
  tile : TileId
  wire : WireName
  kind : ConnKind
deriving DecidableEq, Repr

structure Tile where
  name : String
  type : String
  hops : Table WireName (List TileHop)
  /-- The site pin behind each wire, of all sites in the tile. -/
  sitePins : Table WireName SitePinId

structure SiteHop where
  wire : WireName
  kind : ConnKind
deriving DecidableEq, Repr

structure SiteType where
  name : String
  bels : List BelDescription
  pins : List SitePinDescription
  hops : Table WireName (List SiteHop)
  /-- The input BEL pin that a wire ends at. -/
  terminals : Table WireName Nat
  /-- The output site pin that a wire leaves through. -/
  exits : Table WireName Nat
  belIndex : Table String Nat
  pinIndex : Table String Nat

structure Site where
  name : String
  type : SiteTypeId
  tile : TileId
  bels : List BelId
  firstBelPin : Nat
  firstSitePin : Nat

structure Bel where
  name : String
  site : SiteId
  pins : List BelPinId

structure BelPin where
  name : String
  bel : BelId
  dir : PinDir
  /-- The wire of the site that the pin is on. -/
  wire : WireName

structure SitePin where
  name : String
  site : SiteId
  dir : PinDir
  /-- The wire of the site on the inner side. -/
  internal : WireName
  /-- The wire of the tile on the outer side. -/
  external : WireName

structure Device where
  name : String
  family : Family
  names : NameTable
  tiles : Array Tile
  tileIndex : Table String TileId
  siteTypes : Array SiteType
  siteTypeIndex : Table String SiteTypeId
  sites : Array Site
  siteIndex : Table String SiteId
  bels : Array Bel
  belPins : Array BelPin
  sitePins : Array SitePin

namespace Device

variable (d : Device)

/-! ## Resources by number -/

def tile? (t : TileId) : Option Tile := d.tiles[t.index]?

def site? (s : SiteId) : Option Site := d.sites[s.index]?

def siteType? (s : SiteId) : Option SiteType :=
  (d.site? s).bind fun site => d.siteTypes[site.type.index]?

def bel? (b : BelId) : Option Bel := d.bels[b.index]?

def belPin? (p : BelPinId) : Option BelPin := d.belPins[p.index]?

def sitePin? (p : SitePinId) : Option SitePin := d.sitePins[p.index]?

def wireName (w : WireName) : String := (d.names.name? w).getD ""

def tileName (t : TileId) : String := ((d.tile? t).map Tile.name).getD ""

def tileType (t : TileId) : String := ((d.tile? t).map Tile.type).getD ""

def siteName (s : SiteId) : String := ((d.site? s).map Site.name).getD ""

def siteTypeName (s : SiteId) : String := ((d.siteType? s).map SiteType.name).getD ""

def siteTile (s : SiteId) : TileId := ((d.site? s).map Site.tile).getD ⟨d.tiles.size⟩

def belsOfSite (s : SiteId) : List BelId := ((d.site? s).map Site.bels).getD []

def belName (b : BelId) : String := ((d.bel? b).map Bel.name).getD ""

def belSite (b : BelId) : SiteId := ((d.bel? b).map Bel.site).getD ⟨d.sites.size⟩

def pinsOfBel (b : BelId) : List BelPinId := ((d.bel? b).map Bel.pins).getD []

def belPinName (p : BelPinId) : String := ((d.belPin? p).map BelPin.name).getD ""

def belPinBel (p : BelPinId) : BelId := ((d.belPin? p).map BelPin.bel).getD ⟨d.bels.size⟩

def belPinDir (p : BelPinId) : PinDir := ((d.belPin? p).map BelPin.dir).getD .input

def belPinSite (p : BelPinId) : SiteId := d.belSite (d.belPinBel p)

/-- The output pins of a BEL. -/
def belSources (b : BelId) : List BelPinId :=
  (d.pinsOfBel b).filter fun p => (d.belPinDir p).isOutput

def sitePinName (p : SitePinId) : String := ((d.sitePin? p).map SitePin.name).getD ""

def sitePinSite (p : SitePinId) : SiteId := ((d.sitePin? p).map SitePin.site).getD ⟨d.sites.size⟩

def sitePinDir (p : SitePinId) : PinDir := ((d.sitePin? p).map SitePin.dir).getD .input

/-! ## Resources by name -/

def wireNamed? (name : String) : Option WireName := d.names.lookup? name

def tileNamed? (name : String) : Option TileId := d.tileIndex[name]?

def siteNamed? (name : String) : Option SiteId := d.siteIndex[name]?

def belNamed? (s : SiteId) (name : String) : Option BelId := do
  let i ← (← d.siteType? s).belIndex[name]?
  (d.belsOfSite s)[i]?

def sitePinNamed? (s : SiteId) (name : String) : Option SitePinId := do
  let i ← (← d.siteType? s).pinIndex[name]?
  return ⟨(← d.site? s).firstSitePin + i⟩

/-- The first pin of a BEL with the name. -/
def belPinNamed? (b : BelId) (name : String) : Option BelPinId :=
  (d.pinsOfBel b).find? fun p => d.belPinName p = name

/-! ## Wires -/

/-- The connections that lead out of a wire. -/
def connections : Wire → List Connection
  | .tile t w =>
    (((d.tile? t).bind fun tile => tile.hops[w]?).getD []).map fun h =>
      ⟨.tile t w, .tile h.tile h.wire, h.kind⟩
  | .site s w =>
    (((d.siteType? s).bind fun type => type.hops[w]?).getD []).map fun h =>
      ⟨.site s w, .site s h.wire, h.kind⟩

/-- The input BEL pin that a site wire ends at. -/
def terminal? : Wire → Option BelPinId
  | .tile .. => none
  | .site s w => do
    let i ← (← d.siteType? s).terminals[w]?
    return ⟨(← d.site? s).firstBelPin + i⟩

/-- The site pin that a signal crosses when it goes on from a wire: into a site from a tile
wire, out of one from a site wire. -/
def pinAhead? : Wire → Option SitePinId
  | .tile t w => do
    let p ← (← d.tile? t).sitePins[w]?
    guard (d.sitePinDir p).isInput
    return p
  | .site s w => do
    let i ← (← d.siteType? s).exits[w]?
    return ⟨(← d.site? s).firstSitePin + i⟩

def wireTile : Wire → TileId
  | .tile t _ => t
  | .site s _ => d.siteTile s

def internalWire (p : SitePinId) : Wire :=
  .site (d.sitePinSite p) (((d.sitePin? p).map SitePin.internal).getD ⟨d.names.size⟩)

def externalWire (p : SitePinId) : Wire :=
  .tile (d.siteTile (d.sitePinSite p))
    (((d.sitePin? p).map SitePin.external).getD ⟨d.names.size⟩)

def belPinWire (p : BelPinId) : Wire :=
  .site (d.belPinSite p) (((d.belPin? p).map BelPin.wire).getD ⟨d.names.size⟩)

/-- No route visits more wires than this: one for each tile or site and each name. -/
def wireBound : Nat := (d.tiles.size + d.sites.size) * d.names.size + 1

/-! ## Full names -/

/-- `tile/wire` or `site/wire`. -/
def wireFullName : Wire → String
  | .tile t w => d.tileName t ++ "/" ++ d.wireName w
  | .site s w => d.siteName s ++ "/" ++ d.wireName w

/-- `site/pin`. -/
def sitePinFullName (p : SitePinId) : String :=
  d.siteName (d.sitePinSite p) ++ "/" ++ d.sitePinName p

/-- `site/bel/pin`. -/
def belPinFullName (p : BelPinId) : String :=
  d.siteName (d.belPinSite p) ++ "/" ++ d.belName (d.belPinBel p) ++ "/" ++ d.belPinName p

/-- The one tile whose wires are written without their tile. -/
def boundaryTile : String := "OOC_WIRE_X0Y0"

/-- The name of a wire in a written route. -/
def routeName (w : Wire) : String :=
  let tile := d.tileName (d.wireTile w)
  if tile = boundaryTile then d.wireName w.name else tile ++ "/" ++ d.wireName w.name

end Device

end Fabric
