import Fabric.Device.Build
import Fabric.Proofs.Checked
import Fabric.Proofs.NameTable
/-!
# The wiring of devices

The tables of a device hold the connections of its description. All wires that connections
lead to are among finitely many: one for each tile or site and each name.
-/

namespace Fabric

/-! ## Tables -/

theorem getElem?_foldl_hopTable {α : Type} (entries : List (WireName × List α))
    (t : Table WireName (List α)) (w : WireName) :
    ((entries.foldl (fun t (w, hops) => t.alter w fun old => some (old.getD [] ++ hops)) t)[w]?
      ).getD [] = (t[w]?).getD [] ++ (entries.filter fun e => e.1 = w).flatMap Prod.snd := by
  induction entries generalizing t with
  | nil => simp
  | cons e entries ih =>
    obtain ⟨v, hops⟩ := e
    rw [List.foldl_cons, ih]
    simp only [Std.ExtTreeMap.getElem?_alter, Std.LawfulEqCmp.compare_eq_iff_eq]
    by_cases hv : v = w
    · simp [hv]
    · simp [hv]

theorem getElem?_hopTable {α : Type} (entries : List (WireName × List α)) (w : WireName) :
    ((hopTable entries)[w]?).getD [] = (entries.filter fun e => e.1 = w).flatMap Prod.snd := by
  rw [hopTable, getElem?_foldl_hopTable]
  simp

theorem exists_entry_of_hopTable {α : Type} {entries : List (WireName × List α)} {w : WireName}
    {h : α} (hh : h ∈ ((hopTable entries)[w]?).getD []) : ∃ e ∈ entries, h ∈ e.2 := by
  rw [getElem?_hopTable] at hh
  obtain ⟨e, he, hh⟩ := List.mem_flatMap.1 hh
  exact ⟨e, (List.mem_filter.1 he).1, hh⟩

theorem getElem?_of_addNew {α : Type} {kind : Kind} {t t' : Table String α} {name shown : String}
    {a : α} (h : addNew kind t name a shown = .ok t') (k : String) :
    t'[k]? = if k = name then some a else t[k]? := by
  unfold addNew at h
  split at h
  · cases h
  · cases h
    simp only [Std.ExtTreeMap.getElem?_insert, Std.LawfulEqCmp.compare_eq_iff_eq]
    by_cases hk : k = name
    · simp [hk]
    · simp [hk, Ne.symm hk]

theorem eq_none_of_addNew {α : Type} {kind : Kind} {t t' : Table String α} {name shown : String}
    {a : α} (h : addNew kind t name a shown = .ok t') : t[name]? = none := by
  unfold addNew at h
  split at h
  next => cases h
  next hnew => exact Std.ExtTreeMap.getElem?_eq_none hnew

theorem getElem?_of_indexNames {kind : Kind} {shown : String → String} {names : List String}
    {t : Table String Nat} (h : indexNames kind shown names = .ok t) {name : String} {i : Nat}
    (hi : t[name]? = some i) : names[i]? = some name := by
  refine Checked.foldlM_keeps (fun t => ∀ name i, t[name]? = some i → names[i]? = some name)
    ?_ ?_ h name i hi
  · intro t e he t' ht hstep name i hi
    rw [getElem?_of_addNew hstep] at hi
    split at hi
    next hname =>
      cases hi
      rw [hname]
      exact List.mem_zipIdx_iff_getElem?.1 he
    next => exact ht name i hi
  · intro name i hi
    simp at hi

theorem NameTable.get_lt {names : List String} {s : String} (hs : s ∈ names) :
    ((ofList names).get s).index < (ofList names).size := by
  obtain ⟨w, hw, hlt⟩ := exists_lookup?_ofList hs
  simpa [get, hw] using hlt

/-! ## Parts of a device -/

theorem lt_of_tile_hop {names : List String} {tiles : Table String TileId} {count : Nat}
    (htiles : ∀ (name : String) (t : TileId), tiles[name]? = some t → t.index < count)
    {self : TileId}
    (hself : self.index < count) {desc : TileDescription}
    (hnames : ∀ w ∈ desc.wires, ∀ s ∈ w.mentions, s ∈ names) {tile : Tile}
    (htile : Tile.ofDescription (.ofList names) tiles self desc = .ok tile) {w : WireName}
    {h : TileHop} (hh : h ∈ (tile.hops[w]?).getD []) :
    h.tile.index < count ∧ h.wire.index < (NameTable.ofList names).size := by
  unfold Tile.ofDescription at htile
  obtain ⟨entries, hentries, htile⟩ := Checked.bind_eq_ok.1 htile
  cases htile
  obtain ⟨e, he, hhe⟩ := exists_entry_of_hopTable hh
  obtain ⟨v, hv, hve⟩ := Checked.exists_of_mem_mapM hentries he
  obtain ⟨hops, hhops, hve⟩ := Checked.bind_eq_ok.1 hve
  cases hve
  obtain ⟨g, hg, hgh⟩ := Checked.exists_of_mem_mapM hhops hhe
  have hmem : g.target ∈ names :=
    hnames v hv _ (List.mem_cons_of_mem _ (List.mem_map_of_mem hg))
  have hlt := NameTable.get_lt hmem
  split at hgh
  · cases hgh
    exact ⟨hself, hlt⟩
  · next name _ =>
    split at hgh
    · next t ht =>
      cases hgh
      exact ⟨htiles name t ht, hlt⟩
    · cases hgh

theorem lt_of_site_hop {names : List String} {desc : SiteTypeDescription}
    (hnames : ∀ s ∈ desc.mentions, s ∈ names) {type : SiteType}
    (htype : SiteType.ofDescription (.ofList names) desc = .ok type) {w : WireName}
    {h : SiteHop} (hh : h ∈ (type.hops[w]?).getD []) :
    h.wire.index < (NameTable.ofList names).size := by
  unfold SiteType.ofDescription at htype
  obtain ⟨belIndex, -, htype⟩ := Checked.bind_eq_ok.1 htype
  obtain ⟨pinIndex, -, htype⟩ := Checked.bind_eq_ok.1 htype
  obtain ⟨entries, hentries, htype⟩ := Checked.bind_eq_ok.1 htype
  cases htype
  obtain ⟨e, he, hhe⟩ := exists_entry_of_hopTable hh
  obtain ⟨v, hv, hve⟩ := Checked.exists_of_mem_mapM hentries he
  obtain ⟨hops, hhops, hve⟩ := Checked.bind_eq_ok.1 hve
  cases hve
  obtain ⟨g, hg, hgh⟩ := Checked.exists_of_mem_mapM hhops hhe
  split at hgh
  · cases hgh
    apply NameTable.get_lt
    apply hnames
    have hv' : g.target ∈ v.mentions := List.mem_cons_of_mem _ (List.mem_map_of_mem hg)
    exact List.mem_append_right _ (List.mem_flatMap.2 ⟨v, hv, hv'⟩)
  · cases hgh

namespace Device

structure SameWiring (d d' : Device) : Prop where
  names : d'.names = d.names
  tiles : d'.tiles.map Tile.hops = d.tiles.map Tile.hops
  siteTypes : d'.siteTypes = d.siteTypes

theorem SameWiring.refl (d : Device) : d.SameWiring d := ⟨rfl, rfl, rfl⟩

theorem SameWiring.trans {d d' d'' : Device} (h : d.SameWiring d') (h' : d'.SameWiring d'') :
    d.SameWiring d'' :=
  ⟨h'.names.trans h.names, h'.tiles.trans h.tiles, h'.siteTypes.trans h.siteTypes⟩

theorem sameWiring_addSitePin (d : Device) (site : SiteId) (tile : TileId)
    (p : SitePinDescription) : d.SameWiring (d.addSitePin site tile p) where
  names := rfl
  siteTypes := rfl
  tiles := by
    apply Array.ext
    · simp [addSitePin]
    · intro i hi hi'
      simp only [addSitePin, Array.getElem_map, Array.getElem_modify]
      split <;> rfl

theorem sameWiring_addBels (d : Device) (site : SiteId) (bels : List BelDescription) :
    d.SameWiring (bels.foldl (fun d b => d.addBel site b) d) := by
  induction bels generalizing d with
  | nil => exact .refl d
  | cons b bels ih =>
    have hbel : d.SameWiring (d.addBel site b) := ⟨rfl, rfl, rfl⟩
    exact hbel.trans (ih _)

theorem sameWiring_addSitePins (d : Device) (site : SiteId) (tile : TileId)
    (pins : List SitePinDescription) :
    d.SameWiring (pins.foldl (fun d p => d.addSitePin site tile p) d) := by
  induction pins generalizing d with
  | nil => exact .refl d
  | cons p pins ih => exact (sameWiring_addSitePin d site tile p).trans (ih _)

/-- A site is added when its name is new and its tile and type are known. Its BELs come first, then
its pins. -/
theorem addSite_eq_ok {d d' : Device} {s : SiteDescription} : d.addSite s = .ok d' ↔
    ∃ siteIndex tile typeId type,
      addNew .site d.siteIndex s.name (⟨d.sites.size⟩ : SiteId) s.name = .ok siteIndex ∧
      d.tileIndex[s.tile]? = some tile ∧ d.siteTypeIndex[s.type]? = some typeId ∧
      d.siteTypes[typeId.index]? = some type ∧
      d' = type.pins.foldl (fun (e : Device) p => e.addSitePin ⟨d.sites.size⟩ tile p)
        (type.bels.foldl (fun (e : Device) b => e.addBel ⟨d.sites.size⟩ b)
          { d with
            siteIndex
            sites := d.sites.push ⟨s.name, typeId, tile,
              (List.range type.bels.length).map fun i => ⟨d.bels.size + i⟩,
              d.belPins.size, d.sitePins.size⟩ }) := by
  unfold addSite
  simp only [Checked.bind_eq_ok]
  constructor
  · rintro ⟨siteIndex, hindex, h⟩
    split at h
    next tile htile =>
      split at h
      next typeId htypeId =>
        split at h
        next type htype =>
          cases h
          exact ⟨siteIndex, tile, typeId, type, hindex, htile, htypeId, htype, rfl⟩
        next => cases h
      next => cases h
    next => cases h
  · rintro ⟨siteIndex, tile, typeId, type, hindex, htile, htypeId, htype, rfl⟩
    refine ⟨siteIndex, hindex, ?_⟩
    rw [htile, htypeId]
    dsimp only
    rw [htype]
    rfl

theorem sameWiring_of_addSite {d d' : Device} {s : SiteDescription} (h : d.addSite s = .ok d') :
    d.SameWiring d' := by
  obtain ⟨siteIndex, tile, typeId, type, -, -, -, -, rfl⟩ := addSite_eq_ok.1 h
  refine .trans ?_ (sameWiring_addSitePins _ _ _ _)
  refine .trans ?_ (sameWiring_addBels _ _ _)
  exact ⟨rfl, rfl, rfl⟩

structure Wired (d : Device) : Prop where
  tiles : ∀ hops ∈ d.tiles.map Tile.hops, ∀ w : WireName, ∀ h ∈ (hops[w]?).getD [],
    h.tile.index < d.tiles.size ∧ h.wire.index < d.names.size
  siteTypes : ∀ type ∈ d.siteTypes, ∀ w : WireName, ∀ h ∈ (type.hops[w]?).getD [],
    h.wire.index < d.names.size

theorem SameWiring.wired {d d' : Device} (h : d.SameWiring d') (hd : d.Wired) : d'.Wired := by
  have hsize : d'.tiles.size = d.tiles.size := by simpa using congrArg Array.size h.tiles
  constructor
  · rw [h.tiles, hsize, h.names]
    exact hd.tiles
  · rw [h.siteTypes, h.names]
    exact hd.siteTypes

theorem wired_of_addSiteType {names : List String} {d d' : Device} {t : SiteTypeDescription}
    (hnames : ∀ s ∈ t.mentions, s ∈ names) (hd : d.names = .ofList names ∧ d.Wired)
    (h : d.addSiteType t = .ok d') : d'.names = .ofList names ∧ d'.Wired := by
  unfold addSiteType at h
  obtain ⟨siteTypeIndex, -, h⟩ := Checked.bind_eq_ok.1 h
  obtain ⟨type, htype, h⟩ := Checked.bind_eq_ok.1 h
  cases h
  refine ⟨hd.1, hd.2.tiles, ?_⟩
  intro type' htype' w g hg
  rcases Array.mem_push.1 htype' with hold | rfl
  · exact hd.2.siteTypes type' hold w g hg
  · rw [hd.1] at htype ⊢
    exact lt_of_site_hop hnames htype hg

theorem lt_of_hop_of_tiles {desc : DeviceDescription} {index : Table String Nat}
    (hindex : indexNames .tile id (desc.tiles.map TileDescription.name) = .ok index)
    {tiles : List Tile}
    (htiles : (desc.tiles.zipIdx.mapM fun (t, i) => Tile.ofDescription (.ofList desc.mentions)
      (index.map fun _ i => ⟨i⟩) ⟨i⟩ t) = .ok tiles)
    {tile : Tile} (htile : tile ∈ tiles) {w : WireName} {h : TileHop}
    (hh : h ∈ (tile.hops[w]?).getD []) :
    h.tile.index < tiles.length ∧ h.wire.index < (NameTable.ofList desc.mentions).size := by
  have hcount : tiles.length = desc.tiles.length := by
    simpa using (Checked.mapM_forall₂ htiles).length_eq.symm
  obtain ⟨⟨t, i⟩, ht, hbuilt⟩ := Checked.exists_of_mem_mapM htiles htile
  have hi := List.mem_zipIdx_iff_getElem?.1 ht
  have ht' : t ∈ desc.tiles := List.mem_of_getElem? hi
  refine lt_of_tile_hop ?_ ?_ ?_ hbuilt hh
  · intro name target htarget
    rw [Std.ExtTreeMap.getElem?_map, Option.map_eq_some_iff] at htarget
    obtain ⟨j, hj, rfl⟩ := htarget
    have hj' := (List.getElem?_eq_some_iff.1 (getElem?_of_indexNames hindex hj)).1
    simpa [hcount] using hj'
  · rw [hcount]
    exact (List.getElem?_eq_some_iff.1 hi).1
  · intro v hv s hs
    refine List.mem_append_left _ (List.mem_append_left _ ?_)
    exact List.mem_flatMap.2 ⟨t, ht', List.mem_flatMap.2 ⟨v, hv, hs⟩⟩

/-- A loaded device is wired within itself. -/
theorem wired_of_ofDescription {desc : DeviceDescription} {d : Device}
    (h : ofDescription desc = .ok d) : d.Wired := by
  unfold ofDescription at h
  obtain ⟨index, hindex, h⟩ := Checked.bind_eq_ok.1 h
  obtain ⟨tiles, htiles, h⟩ := Checked.bind_eq_ok.1 h
  obtain ⟨typed, htyped, h⟩ := Checked.bind_eq_ok.1 h
  have htyped' : typed.names = .ofList desc.mentions ∧ typed.Wired := by
    refine Checked.foldlM_keeps (fun d => d.names = .ofList desc.mentions ∧ d.Wired)
      ?_ ?_ htyped
    · intro d t ht d' hd hstep
      refine wired_of_addSiteType (fun s hs => ?_) hd hstep
      exact List.mem_append_left _ (List.mem_append_right _ (List.mem_flatMap.2 ⟨t, ht, hs⟩))
    · refine ⟨rfl, ?_, by simp⟩
      intro hops hhops w g hg
      obtain ⟨tile, htile, rfl⟩ := Array.mem_map.1 hhops
      exact lt_of_hop_of_tiles hindex htiles (List.mem_toArray.1 htile) hg
  have hsame : typed.SameWiring d := by
    refine Checked.foldlM_keeps typed.SameWiring ?_ (.refl typed) h
    intro d s hs d' hd hstep
    exact hd.trans (sameWiring_of_addSite hstep)
  exact hsame.wired htyped'.2

/-! ## All wires -/

def allWires (d : Device) : List Wire :=
  (List.range d.tiles.size).flatMap
      (fun t => (List.range d.names.size).map fun w => .tile ⟨t⟩ ⟨w⟩) ++
    (List.range d.sites.size).flatMap
      fun s => (List.range d.names.size).map fun w => .site ⟨s⟩ ⟨w⟩

theorem length_allWires (d : Device) : d.allWires.length + 1 = d.wireBound := by
  simp [allWires, wireBound, List.length_flatMap, Nat.add_mul]

theorem tile_mem_allWires {d : Device} {t : TileId} {w : WireName} (ht : t.index < d.tiles.size)
    (hw : w.index < d.names.size) : .tile t w ∈ d.allWires := by
  refine List.mem_append_left _ (List.mem_flatMap.2 ⟨t.index, List.mem_range.2 ht, ?_⟩)
  exact List.mem_map.2 ⟨w.index, List.mem_range.2 hw, rfl⟩

theorem site_mem_allWires {d : Device} {s : SiteId} {w : WireName} (hs : s.index < d.sites.size)
    (hw : w.index < d.names.size) : .site s w ∈ d.allWires := by
  refine List.mem_append_right _ (List.mem_flatMap.2 ⟨s.index, List.mem_range.2 hs, ?_⟩)
  exact List.mem_map.2 ⟨w.index, List.mem_range.2 hw, rfl⟩

theorem source_of_mem_connections {d : Device} {w : Wire} {c : Connection}
    (hc : c ∈ d.connections w) : c.source = w := by
  cases w <;>
  · obtain ⟨h, -, rfl⟩ := List.mem_map.1 hc
    rfl

theorem sink_of_mem_site_connections {d : Device} {s : SiteId} {w : WireName} {c : Connection}
    (hc : c ∈ d.connections (.site s w)) : ∃ v, c.sink = .site s v := by
  obtain ⟨h, -, rfl⟩ := List.mem_map.1 hc
  exact ⟨h.wire, rfl⟩

theorem Wired.sink_mem_allWires {d : Device} (hd : d.Wired) {w : Wire} {c : Connection}
    (hc : c ∈ d.connections w) : c.sink ∈ d.allWires := by
  cases w with
  | tile t w =>
    obtain ⟨h, hh, rfl⟩ := List.mem_map.1 hc
    cases ht : d.tile? t with
    | none => simp [ht] at hh
    | some tile =>
      rw [ht, Option.bind_some] at hh
      have hmem : tile ∈ d.tiles := Array.mem_of_getElem? ht
      obtain ⟨htile, hwire⟩ := hd.tiles _ (Array.mem_map.2 ⟨tile, hmem, rfl⟩) w h hh
      exact tile_mem_allWires htile hwire
  | site s w =>
    obtain ⟨h, hh, rfl⟩ := List.mem_map.1 hc
    cases ht : d.siteType? s with
    | none => simp [ht] at hh
    | some type =>
      rw [ht, Option.bind_some] at hh
      obtain ⟨site, hsite, htype⟩ := Option.bind_eq_some_iff.1 ht
      have hwire := hd.siteTypes type (Array.mem_of_getElem? htype) w h hh
      exact site_mem_allWires (Array.getElem?_eq_some_iff.1 hsite).1 hwire

end Device

end Fabric
