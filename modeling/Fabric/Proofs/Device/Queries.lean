import Fabric.Proofs.Device.Furnished
/-!
# What a loaded device answers

Every question about the resources of a loaded device is answered from its description: resources
are numbered as they are declared, a name leads to what has this name there, and a wire leads to the
last of the pins that are on it.
-/

namespace Fabric

/-! ## Names of wires -/

theorem NameTable.get_eq_iff {names : List String} {s : String} (hs : s ∈ names) {v : WireName} :
    (ofList names).get s = v ↔ (ofList names).name? v = some s := by
  obtain ⟨w, hw, -⟩ := exists_lookup?_ofList hs
  rw [← coherent_ofList names s v, hw, get, hw, Option.getD_some, Option.some.injEq]

namespace DeviceDescription

variable {desc : DeviceDescription}

theorem mem_mentions_of_tile {t : TileDescription} (ht : t ∈ desc.tiles) {w : WireDescription}
    (hw : w ∈ t.wires) {s : String} (hs : s ∈ w.mentions) : s ∈ desc.mentions := by
  refine List.mem_append_left _ (List.mem_append_left _ ?_)
  exact List.mem_flatMap.2 ⟨t, ht, List.mem_flatMap.2 ⟨w, hw, hs⟩⟩

theorem mem_mentions_of_siteType {t : SiteTypeDescription} (ht : t ∈ desc.siteTypes) {s : String}
    (hs : s ∈ t.mentions) : s ∈ desc.mentions :=
  List.mem_append_left _ (List.mem_append_right _ (List.mem_flatMap.2 ⟨t, ht, hs⟩))

theorem mem_mentions_of_site {sd : SiteDescription} (hsd : sd ∈ desc.sites)
    {t : SiteTypeDescription} (ht : desc.typeOf? sd = some t) {s : String}
    (hs : s ∈ t.siteMentions) : s ∈ desc.mentions := by
  refine List.mem_append_right _ (List.mem_flatMap.2 ⟨sd, hsd, ?_⟩)
  unfold typeOf? at ht
  rwa [ht, Option.map_some, Option.getD_some]

theorem mem_mentions_of_sitePin {e : SitePart SitePinDescription} (he : e ∈ desc.allSitePins) :
    e.part.external ∈ desc.mentions := by
  obtain ⟨k, hk⟩ := List.mem_iff_getElem?.1 he
  obtain ⟨j, hsd, ha, -⟩ := exists_of_getElem?_declaredIn hk
  obtain ⟨t, ht, ha⟩ := exists_typeOf?_of_mem_partsOf (List.mem_of_getElem? ha)
  exact mem_mentions_of_site (List.mem_of_getElem? hsd) ht
    (List.mem_append_right _ (List.mem_flatMap.2 ⟨_, ha, by simp⟩))

def wiresAt (desc : DeviceDescription) : Wire → List WireDescription
  | .tile t _ => ((desc.tiles[t.index]?).map TileDescription.wires).getD []
  | .site s _ => ((desc.sites[s.index]?).map (desc.partsOf SiteTypeDescription.wires)).getD []

def hopsAt (desc : DeviceDescription) (names : NameTable) (w : Wire) : List HopDescription :=
  ((desc.wiresAt w).filter fun x => names.name? w.name = some x.name).flatMap WireDescription.hops

/-- A hop leads from a wire of a tile to the tile that it names, and never out of a site. -/
def LeadsTo (desc : DeviceDescription) (h : HopDescription) : Wire → Wire → Prop
  | .tile t _, .tile t' _ =>
    match h.tile with
    | none => t' = t
    | some name => (desc.tiles[t'.index]?).map TileDescription.name = some name
  | .site s _, .site s' _ => s' = s
  | _, _ => False

end DeviceDescription

namespace Device

variable {d : Device} {desc : DeviceDescription}

open DeviceDescription

/-- The device answers as its description says. -/
structure Answers (desc : DeviceDescription) (d : Device) : Prop where
  tileNamed : ∀ t name, d.tileNamed? name = some t ↔
    (desc.tiles[t.index]?).map TileDescription.name = some name
  siteNamed : ∀ s name, d.siteNamed? name = some s ↔
    (desc.sites[s.index]?).map SiteDescription.name = some name
  wireNamed : ∀ v name, d.wireNamed? name = some v ↔ d.names.name? v = some name
  bel : ∀ b e, desc.allBels[Key.index b]? = some e →
    d.belSite b = e.number ∧ d.belName b = e.part.name
  belPin : ∀ p e, desc.allBelPins[Key.index p]? = some e →
    d.belPinSite p = e.number ∧ d.belPinName p = e.part.name ∧ d.belPinDir p = e.part.dir
  sitePin : ∀ p e, desc.allSitePins[Key.index p]? = some e →
    d.sitePinSite p = e.number ∧ d.sitePinName p = e.part.name ∧ d.sitePinDir p = e.part.dir
  belNamed : ∀ s name b, d.belNamed? s name = some b ↔
    ∃ e, desc.allBels[b.index]? = some e ∧ e.number = s ∧ e.part.name = name
  sitePinNamed : ∀ s name p, d.sitePinNamed? s name = some p ↔
    ∃ e, desc.allSitePins[p.index]? = some e ∧ e.number = s ∧ e.part.name = name
  terminal : ∀ w p, d.terminal? w = some p ↔ ∃ s v, w = .site s v ∧
    IsLastAt (fun e => e.number = s ∧ e.part.isInput ∧ d.names.name? v = some e.part.wire)
      desc.allBelPins p.index
  exit : ∀ s v p, d.pinAhead? (.site s v) = some p ↔
    IsLastAt (fun e => e.number = s ∧ e.part.isOutput ∧ d.names.name? v = some e.part.internal)
      desc.allSitePins p.index
  entry : ∀ t v p, d.pinAhead? (.tile t v) = some p ↔
    IsLastAt (fun e => (desc.tiles[t.index]?).map TileDescription.name = some e.site.tile ∧
      d.names.name? v = some e.part.external) desc.allSitePins p.index ∧
    ∃ e, desc.allSitePins[p.index]? = some e ∧ e.part.dir.isInput
  terminalWire : ∀ w p, d.terminal? w = some p → d.belPinWire p = w
  exitWire : ∀ s v p, d.pinAhead? (.site s v) = some p → d.internalWire p = .site s v
  entryWire : ∀ t v p, d.pinAhead? (.tile t v) = some p → d.externalWire p = .tile t v
  connections : ∀ w, List.Forall₂
    (fun h c => c.source = w ∧ c.kind = h.kind ∧ d.names.name? c.sink.name = some h.target ∧
      desc.LeadsTo h w c.sink)
    (desc.hopsAt d.names w) (d.connections w)

namespace Furnished

variable (h : Furnished desc desc.sites d)

include h

theorem get_eq_iff {s : String} (hs : s ∈ desc.mentions) {v : WireName} :
    d.names.get s = v ↔ d.names.name? v = some s := by
  rw [h.typed.names]
  exact NameTable.get_eq_iff hs

/-! ### Sites -/

theorem site?_eq_none {s : SiteId} (hs : desc.sites[s.index]? = none) : d.site? s = none := by
  rw [List.getElem?_eq_none_iff, ← h.count] at hs
  exact Array.getElem?_eq_none hs

theorem siteType?_eq_none {s : SiteId} (hs : desc.sites[s.index]? = none) :
    d.siteType? s = none := by
  unfold siteType?
  rw [h.site?_eq_none hs, Option.bind_none]

theorem exists_site {s : SiteId} {sd : SiteDescription} (hs : desc.sites[s.index]? = some sd) :
    ∃ t type site, desc.typeOf? sd = some t ∧ type.Declares d.names t ∧
      d.siteType? s = some type ∧ d.site? s = some site ∧
      d.tileIndex[sd.tile]? = some site.tile ∧
      site.bels = (List.range t.bels.length).map (fun k =>
        ⟨(desc.declaredIn (desc.sites.take s.index) SiteTypeDescription.bels).length + k⟩) ∧
      site.firstBelPin =
        (desc.declaredIn (desc.sites.take s.index) SiteTypeDescription.belPins).length ∧
      site.firstSitePin =
        (desc.declaredIn (desc.sites.take s.index) SiteTypeDescription.pins).length := by
  obtain ⟨typeId, tile, htypeId, htile, hsite⟩ := h.site s.index sd hs
  obtain ⟨t, type, ht, htype, hdeclares⟩ := h.typed.exists_type htypeId
  refine ⟨t, type, _, ht, hdeclares, ?_, hsite, htile, ?_, rfl, rfl⟩
  · unfold siteType? site?
    rw [hsite]
    exact htype
  · rw [partsOf_eq ht]

/-! ### Pins on wires -/

/-- Pins of one kind are numbered site by site. A wire leads to the last one on it that the table of
the site type holds. -/
theorem pinOnWire_iff {α : Type} {k : Kind} (parts : SiteTypeDescription → List α)
    (keep : α → Bool) (wire : α → String) (table : SiteType → Table WireName Nat)
    (first : Site → Nat)
    (hwire : ∀ t a, a ∈ parts t → wire a ∈ t.siteMentions)
    (htable : ∀ t type, type.Declares d.names t → ∀ v i, (table type)[v]? = some i ↔
      IsLastAt (fun a => keep a ∧ d.names.get (wire a) = v) (parts t) i)
    (hfirst : ∀ (s : SiteId) sd, desc.sites[s.index]? = some sd →
      (d.site? s).map first = some (desc.declaredIn (desc.sites.take s.index) parts).length)
    {s : SiteId} {v : WireName} {p : Key k} :
    (do let i ← (table (← d.siteType? s))[v]?; return ⟨first (← d.site? s) + i⟩) = some p ↔
      IsLastAt (fun e => e.number = s ∧ keep e.part ∧ d.names.name? v = some (wire e.part))
        (desc.declared parts) p.index := by
  rw [isLastAt_declared_iff fun a => keep a ∧ d.names.name? v = some (wire a)]
  cases hs : desc.sites[s.index]? with
  | none => simp [h.siteType?_eq_none hs]
  | some sd =>
    obtain ⟨t, type, site, ht, hdeclares, htype, hsite, -⟩ := h.exists_site hs
    have hplace := hfirst s sd hs
    rw [hsite, Option.map_some, Option.some.injEq] at hplace
    have hkind : ∀ j, (table type)[v]? = some j ↔
        IsLastAt (fun a => keep a ∧ d.names.name? v = some (wire a)) (desc.partsOf parts sd) j := by
      intro j
      rw [htable t type hdeclares, partsOf_eq ht]
      refine IsLastAt.congr fun a ha => and_congr_right fun _ => h.get_eq_iff ?_
      exact mem_mentions_of_site (List.mem_of_getElem? hs) ht (hwire t a ha)
    simp only [htype, hsite, Option.bind_eq_bind, Option.bind_some, Option.pure_def,
      Option.bind_eq_some_iff, Option.some.injEq, hkind, Key.ext_iff, hplace]
    constructor
    · rintro ⟨j, hj, hp⟩
      exact ⟨sd, j, rfl, hj, hp.symm⟩
    · rintro ⟨_, j, rfl, hj, hp⟩
      exact ⟨j, hj, hp.symm⟩

theorem terminal?_site_iff {s : SiteId} {v : WireName} {p : BelPinId} :
    d.terminal? (.site s v) = some p ↔
      IsLastAt (fun e => e.number = s ∧ e.part.isInput ∧ d.names.name? v = some e.part.wire)
        desc.allBelPins p.index := by
  refine h.pinOnWire_iff SiteTypeDescription.belPins BelPinDescription.isInput
    BelPinDescription.wire SiteType.terminals Site.firstBelPin (fun t a ha => ?_)
    (fun t type ht => ht.terminals) fun s sd hs => ?_
  · exact List.mem_append_left _ (List.mem_map_of_mem ha)
  · obtain ⟨_, _, site, -, -, -, hsite, -, -, hfirst, -⟩ := h.exists_site hs
    rw [hsite, Option.map_some, hfirst]

theorem pinAhead?_site_iff {s : SiteId} {v : WireName} {p : SitePinId} :
    d.pinAhead? (.site s v) = some p ↔
      IsLastAt (fun e => e.number = s ∧ e.part.isOutput ∧ d.names.name? v = some e.part.internal)
        desc.allSitePins p.index := by
  refine h.pinOnWire_iff SiteTypeDescription.pins SitePinDescription.isOutput
    SitePinDescription.internal SiteType.exits Site.firstSitePin (fun t a ha => ?_)
    (fun t type ht => ht.exits) fun s sd hs => ?_
  · exact List.mem_append_right _ (List.mem_flatMap.2 ⟨a, ha, by simp⟩)
  · obtain ⟨_, _, site, -, -, -, hsite, -, -, -, hfirst⟩ := h.exists_site hs
    rw [hsite, Option.map_some, hfirst]

theorem sitePin?_eq {p : SitePinId} {e : SitePart SitePinDescription}
    (he : desc.allSitePins[p.index]? = some e) :
    d.sitePin? p = some (SitePin.ofPart d.names e) := by
  unfold sitePin?
  rw [← Array.getElem?_toList, h.enters.sitePins, List.getElem?_map, he, Option.map_some]

theorem pinAhead?_tile_iff {t : TileId} {v : WireName} {p : SitePinId} :
    d.pinAhead? (.tile t v) = some p ↔
      IsLastAt (fun e => (desc.tiles[t.index]?).map TileDescription.name = some e.site.tile ∧
        d.names.name? v = some e.part.external) desc.allSitePins p.index ∧
      ∃ e, desc.allSitePins[p.index]? = some e ∧ e.part.dir.isInput := by
  have hkind : ∀ tile, d.tile? t = some tile → (tile.sitePins[v]? = some p ↔
      IsLastAt (fun e => (desc.tiles[t.index]?).map TileDescription.name = some e.site.tile ∧
        d.names.name? v = some e.part.external) desc.allSitePins p.index) := by
    intro tile htile
    obtain ⟨td, htd, hdeclares⟩ := h.typed.exists_described htile
    rw [h.enters.entrance t tile v p htile]
    refine IsLastAt.congr fun e he => and_congr ?_ (h.get_eq_iff (mem_mentions_of_sitePin he))
    rw [htd, Option.map_some, Option.some.injEq, hdeclares.name, eq_comm]
  have hdir : ∀ e, desc.allSitePins[p.index]? = some e → d.sitePinDir p = e.part.dir := by
    intro e he
    unfold sitePinDir
    rw [h.sitePin?_eq he]
    rfl
  simp only [pinAhead?, Option.bind_eq_bind, Option.bind_eq_some_iff, Option.guard_eq_some',
    Option.pure_def, Option.some.injEq]
  constructor
  · rintro ⟨tile, htile, q, hq, -, hin, rfl⟩
    have hlast := (hkind tile htile).1 hq
    obtain ⟨e, he, -⟩ := hlast.1
    exact ⟨hlast, e, he, hdir e he ▸ hin⟩
  · rintro ⟨hlast, e, he, hin⟩
    obtain ⟨e', -, htd, -⟩ := hlast.1
    obtain ⟨td, htd, -⟩ := Option.map_eq_some_iff.1 htd
    obtain ⟨tile, htile, -⟩ := h.typed.exists_tile htd
    exact ⟨tile, htile, p, (hkind tile htile).2 hlast, (), (hdir e he).symm ▸ hin, rfl⟩

/-! ### Resources by number and by name -/

/-- A name leads to a part of the site by the index of its type, which has the place of the part in
the type. The parts of a site are numbered one after the other. -/
theorem partNamed_iff {α : Type} {k : Kind} (parts : SiteTypeDescription → List α)
    (label : α → String) (index : SiteType → Table String Nat) {s : SiteId}
    (number : Nat → Option (Key k))
    (hindex : ∀ t type, type.Declares d.names t → Places (index type) id ((parts t).map label))
    (hnumber : ∀ sd, desc.sites[s.index]? = some sd → ∀ j < (desc.partsOf parts sd).length,
      number j = some ⟨(desc.declaredIn (desc.sites.take s.index) parts).length + j⟩)
    {name : String} {p : Key k} :
    (do number (← (index (← d.siteType? s))[name]?)) = some p ↔
      ∃ e, (desc.declared parts)[p.index]? = some e ∧ e.number = s ∧ label e.part = name := by
  rw [exists_declared_iff fun a => label a = name]
  cases hs : desc.sites[s.index]? with
  | none => simp [h.siteType?_eq_none hs]
  | some sd =>
    obtain ⟨t, type, site, ht, hdeclares, htype, -⟩ := h.exists_site hs
    have hplace := hnumber sd hs
    rw [partsOf_eq ht] at hplace
    simp only [htype, Option.bind_eq_bind, Option.bind_some, Option.bind_eq_some_iff,
      Option.some.injEq]
    constructor
    · rintro ⟨j, hj, hp⟩
      have hname := (hindex t type hdeclares name j).1 hj
      rw [id, List.getElem?_map] at hname
      obtain ⟨a, ha, hname⟩ := Option.map_eq_some_iff.1 hname
      rw [hplace j (List.getElem?_eq_some_iff.1 ha).1] at hp
      cases hp
      exact ⟨sd, j, a, rfl, partsOf_eq ht ▸ ha, hname, rfl⟩
    · rintro ⟨_, j, a, rfl, ha, hname, hp⟩
      rw [partsOf_eq ht] at ha
      refine ⟨j, (hindex t type hdeclares name j).2 ?_, ?_⟩
      · rw [id, List.getElem?_map, ha, Option.map_some, hname]
      · rw [hplace j (List.getElem?_eq_some_iff.1 ha).1, ← hp]

theorem sitePinNamed?_iff {s : SiteId} {name : String} {p : SitePinId} :
    d.sitePinNamed? s name = some p ↔
      ∃ e, desc.allSitePins[p.index]? = some e ∧ e.number = s ∧ e.part.name = name := by
  refine h.partNamed_iff SiteTypeDescription.pins SitePinDescription.name SiteType.pinIndex
    (fun j => do return ⟨(← d.site? s).firstSitePin + j⟩) (fun t type ht => ht.pinIndex)
    fun sd hs j hj => ?_
  obtain ⟨_, _, site, -, -, -, hsite, -, -, -, hfirst⟩ := h.exists_site hs
  rw [hsite, ← hfirst]
  rfl

theorem belNamed?_iff {s : SiteId} {name : String} {b : BelId} :
    d.belNamed? s name = some b ↔
      ∃ e, desc.allBels[b.index]? = some e ∧ e.number = s ∧ e.part.name = name := by
  refine h.partNamed_iff SiteTypeDescription.bels BelDescription.name SiteType.belIndex
    (fun j => (d.belsOfSite s)[j]?) (fun t type ht => ht.belIndex) fun sd hs j hj => ?_
  obtain ⟨t, _, site, ht, -, -, hsite, -, hbels, -⟩ := h.exists_site hs
  rw [partsOf_eq ht] at hj
  rw [belsOfSite, hsite, Option.map_some, Option.getD_some, hbels, List.getElem?_map,
    List.getElem?_range hj, Option.map_some]

theorem bel_eq {b : BelId} {e : SitePart BelDescription} (he : desc.allBels[b.index]? = some e) :
    d.belSite b = e.number ∧ d.belName b = e.part.name := by
  have hlisted : d.belList[b.index]? = some (e.number, e.part.name) := by
    rw [h.bels, List.getElem?_map, he, Option.map_some]
  rw [belList, List.getElem?_map, Array.getElem?_toList] at hlisted
  obtain ⟨bel, hbel, heq⟩ := Option.map_eq_some_iff.1 hlisted
  obtain ⟨hsite, hname⟩ := Prod.mk.inj heq
  unfold belSite belName bel?
  rw [hbel]
  exact ⟨hsite, hname⟩

theorem belPin_eq (hd : d.PinsMatch) {p : BelPinId} {e : SitePart BelPinDescription}
    (he : desc.allBelPins[p.index]? = some e) :
    d.belPinSite p = e.number ∧ d.belPinName p = e.part.name ∧ d.belPinDir p = e.part.dir := by
  obtain ⟨j, hs, ha, hp⟩ := exists_of_getElem?_declaredIn he
  obtain ⟨t, type, site, ht, hdeclares, htype, hsite, -, -, hfirst, -⟩ := h.exists_site hs
  have hbelPins : type.belPins = t.belPins := congrArg _ hdeclares.bels
  rw [partsOf_eq ht, ← hbelPins] at ha
  have htype' : d.siteTypes[site.type.index]? = some type := by
    unfold siteType? at htype
    rwa [hsite, Option.bind_some] at htype
  obtain ⟨b, hpin, hbel⟩ := hd.belPins e.number site type hsite htype' j e.part ha
  rw [hfirst, ← hp] at hpin
  unfold belPinSite belSite belPinBel belPinName belPinDir
  rw [hpin]
  simp only [Option.map_some, Option.getD_some, hbel, and_self]

/-! ### Connections -/

theorem forall₂_named {α : Type} {wire : α → WireName} {R : HopDescription → α → Prop}
    {wires : List WireDescription} (hwires : ∀ w ∈ wires, ∀ s ∈ w.mentions, s ∈ desc.mentions)
    {v : WireName} {hops : List α}
    (hall : List.Forall₂ (fun g k => wire k = d.names.get g.target ∧ R g k)
      (hopsOf d.names wires v) hops) :
    List.Forall₂ (fun g k => d.names.name? (wire k) = some g.target ∧ R g k)
      ((wires.filter fun x => d.names.name? v = some x.name).flatMap WireDescription.hops)
      hops := by
  have hsame : hopsOf d.names wires v =
      (wires.filter fun x => d.names.name? v = some x.name).flatMap WireDescription.hops :=
    congrArg _ (List.filter_congr fun w hw => decide_eq_decide.2
      (h.get_eq_iff (hwires w hw _ List.mem_cons_self)))
  rw [← hsame]
  have hmentioned : ∀ g ∈ hopsOf d.names wires v, g.target ∈ desc.mentions := by
    intro g hg
    obtain ⟨w, hw, hg⟩ := List.mem_flatMap.1 hg
    exact hwires w (List.mem_filter.1 hw).1 _ (List.mem_cons_of_mem _ (List.mem_map_of_mem hg))
  refine ((List.forall₂_and_left _ _).2 ⟨hmentioned, hall⟩).imp fun g k hgk => ?_
  obtain ⟨hg, hk, hR⟩ := hgk
  exact ⟨(h.get_eq_iff hg).1 hk.symm, hR⟩

theorem connections_tile (t : TileId) (v : WireName) :
    List.Forall₂ (fun g (c : Connection) => c.source = .tile t v ∧ c.kind = g.kind ∧
      d.names.name? c.sink.name = some g.target ∧ desc.LeadsTo g (.tile t v) c.sink)
      (desc.hopsAt d.names (.tile t v)) (d.connections (.tile t v)) := by
  cases htile : d.tile? t with
  | none =>
    have htd : desc.tiles[t.index]? = none := by
      by_contra hne
      obtain ⟨td, htd⟩ := Option.ne_none_iff_exists'.1 hne
      obtain ⟨tile, htile', -⟩ := h.typed.exists_tile htd
      cases htile.symm.trans htile'
    have hhops : desc.hopsAt d.names (.tile t v) = [] := by simp [hopsAt, wiresAt, htd]
    have hconnections : d.connections (.tile t v) = [] := by simp [connections, htile]
    rw [hhops, hconnections]
    exact .nil
  | some tile =>
    obtain ⟨td, htd, hdeclares⟩ := h.typed.exists_described htile
    have hwires : desc.wiresAt (.tile t v) = td.wires := by simp [wiresAt, htd]
    have hconnections : d.connections (.tile t v) = ((tile.hops[v]?).getD []).map fun k =>
        ⟨.tile t v, .tile k.tile k.wire, k.kind⟩ := by simp [connections, htile]
    rw [hconnections, List.forall₂_map_right_iff, hopsAt, hwires]
    have hmem : td ∈ desc.tiles := List.mem_of_getElem? htd
    have hall := h.forall₂_named (fun w hw s hs => mem_mentions_of_tile hmem hw hs)
      (hdeclares.hops v)
    refine hall.imp fun g k hhop => ?_
    obtain ⟨hname, hkind, htarget⟩ := hhop
    refine ⟨rfl, hkind, hname, ?_⟩
    unfold LeadsTo
    cases hg : g.tile with
    | none =>
      rw [hg] at htarget
      exact (Option.some.inj htarget).symm
    | some name =>
      rw [hg, Option.map_some, Option.getD_some] at htarget
      have hplace := (h.typed.tileIndex name k.tile).1 htarget
      rwa [List.getElem?_map] at hplace

theorem connections_site (s : SiteId) (v : WireName) :
    List.Forall₂ (fun g (c : Connection) => c.source = .site s v ∧ c.kind = g.kind ∧
      d.names.name? c.sink.name = some g.target ∧ desc.LeadsTo g (.site s v) c.sink)
      (desc.hopsAt d.names (.site s v)) (d.connections (.site s v)) := by
  cases hs : desc.sites[s.index]? with
  | none =>
    have hhops : desc.hopsAt d.names (.site s v) = [] := by simp [hopsAt, wiresAt, hs]
    have hconnections : d.connections (.site s v) = [] := by
      simp [connections, h.siteType?_eq_none hs]
    rw [hhops, hconnections]
    exact .nil
  | some sd =>
    obtain ⟨t, type, site, ht, hdeclares, htype, -⟩ := h.exists_site hs
    have hwires : desc.wiresAt (.site s v) = t.wires := by simp [wiresAt, hs, partsOf_eq ht]
    have hconnections : d.connections (.site s v) = ((type.hops[v]?).getD []).map fun k =>
        ⟨.site s v, .site s k.wire, k.kind⟩ := by simp [connections, htype]
    rw [hconnections, List.forall₂_map_right_iff, hopsAt, hwires]
    have hmem : t ∈ desc.siteTypes := List.mem_of_find?_eq_some ht
    have hall := h.forall₂_named (fun w hw s hs => mem_mentions_of_siteType hmem
      (List.mem_append_right _ (List.mem_flatMap.2 ⟨w, hw, hs⟩))) (hdeclares.hops v)
    refine hall.imp fun g k hhop => ?_
    obtain ⟨hname, hkind⟩ := hhop
    exact ⟨rfl, hkind, hname, rfl⟩

end Furnished

/-- A loaded device answers every question as its description says. -/
theorem answers_of_ofDescription (h : ofDescription desc = .ok d) : Answers desc d := by
  have hd := furnished_of_ofDescription h
  have hpins := pinsMatch_of_ofDescription h
  refine {
    tileNamed := fun t name => ?_
    siteNamed := fun s name => ?_
    wireNamed := fun v name => ?_
    bel := fun b e he => hd.bel_eq he
    belPin := fun p e he => hd.belPin_eq hpins he
    sitePin := fun p e he => ?_
    belNamed := fun s name b => hd.belNamed?_iff
    sitePinNamed := fun s name p => hd.sitePinNamed?_iff
    terminal := fun w p => ?_
    exit := fun s v p => hd.pinAhead?_site_iff
    entry := fun t v p => hd.pinAhead?_tile_iff
    terminalWire := fun w p hp => hpins.belPinWire_of_terminal? hp
    exitWire := fun s v p hp => hpins.internalWire_of_pinAhead? hp
    entryWire := fun t v p hp => hpins.externalWire_of_pinAhead? hp
    connections := fun w => ?_ }
  · rw [← List.getElem?_map]
    exact hd.typed.tileIndex name t
  · rw [← List.getElem?_map]
    exact hd.siteIndex name s
  · unfold wireNamed?
    rw [hd.typed.names]
    exact NameTable.coherent_ofList desc.mentions name v
  · unfold sitePinSite sitePinName sitePinDir
    rw [hd.sitePin?_eq he]
    exact ⟨rfl, rfl, rfl⟩
  · cases w with
    | tile t v =>
      constructor
      · rintro ⟨⟩
      · rintro ⟨s, v', ⟨⟩, -⟩
    | site s v =>
      rw [hd.terminal?_site_iff]
      constructor
      · exact fun hlast => ⟨s, v, rfl, hlast⟩
      · rintro ⟨s', v', heq, hlast⟩
        cases heq
        exact hlast
  · cases w with
    | tile t v => exact hd.connections_tile t v
    | site s v => exact hd.connections_site s v

/-- Two sites of a type share the wires of their tile, and pins share the wires of a site. The
entries for one wire stand apart. -/
def sharedWires : DeviceDescription where
  name := "shared"
  family := .other
  tiles := [
    ⟨"T", "CLB", [⟨"I", [⟨"X", none, .pip⟩]⟩, ⟨"X", []⟩, ⟨"I", [⟨"Y", some "U", .wire⟩]⟩]⟩,
    ⟨"U", "INT", []⟩]
  siteTypes := [⟨"SLICE", [⟨"A", [⟨"B", none, .wire⟩]⟩],
    [⟨"LUT", [⟨"A1", .input, "A"⟩, ⟨"IO", .inout, "A"⟩, ⟨"O", .output, "A"⟩]⟩],
    [⟨"P", .input, "A", "I"⟩, ⟨"Q", .inout, "B", "I"⟩]⟩]
  sites := [⟨"S0", "SLICE", "T"⟩, ⟨"S1", "SLICE", "T"⟩]

theorem answers_of_ofDescription_sharedWires : ∃ d, ofDescription sharedWires = .ok d ∧
    Answers sharedWires d ∧ d.terminal? (.site ⟨1⟩ ⟨3⟩) = some ⟨4⟩ ∧
    d.pinAhead? (.site ⟨0⟩ ⟨4⟩) = some ⟨1⟩ ∧ d.pinAhead? (.tile ⟨0⟩ ⟨0⟩) = some ⟨3⟩ ∧
    (d.connections (.tile ⟨0⟩ ⟨0⟩)).map Connection.sink = [.tile ⟨0⟩ ⟨1⟩, .tile ⟨1⟩ ⟨2⟩] := by
  obtain ⟨d, hd⟩ : ∃ d, ofDescription sharedWires = .ok d := ⟨_, rfl⟩
  have hrun : ((ofDescription sharedWires).toOption.map fun d =>
      (d.terminal? (.site ⟨1⟩ ⟨3⟩), d.pinAhead? (.site ⟨0⟩ ⟨4⟩), d.pinAhead? (.tile ⟨0⟩ ⟨0⟩),
        (d.connections (.tile ⟨0⟩ ⟨0⟩)).map Connection.sink)) =
      some (some ⟨4⟩, some ⟨1⟩, some ⟨3⟩, [.tile ⟨0⟩ ⟨1⟩, .tile ⟨1⟩ ⟨2⟩]) := by
    decide +kernel
  rw [hd] at hrun
  simp only [Except.toOption, Option.map_some, Option.some.injEq, Prod.mk.injEq] at hrun
  exact ⟨d, hd, answers_of_ofDescription hd, hrun⟩

end Device

end Fabric
