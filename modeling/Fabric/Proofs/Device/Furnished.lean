import Fabric.Proofs.Device.Declared
import Fabric.Proofs.Device.Typed
/-!
# Resources in the order of their description

A device gets its sites one by one. What it has at any time is what the sites so far have, numbered
in their order, and behind the wires of a tile stand the last pins of its sites.
-/

namespace Fabric

def SitePin.ofPart (names : NameTable) (e : SitePart SitePinDescription) : SitePin :=
  ⟨e.part.name, e.number, e.part.dir, names.get e.part.internal, names.get e.part.external⟩

namespace Device

variable {d d' : Device} {desc : DeviceDescription} {sites : List SiteDescription}

/-! ## The parts of one site -/

def belList (d : Device) : List (SiteId × String) := d.bels.toList.map fun b => (b.site, b.name)

theorem exists_addBels_eq (s : SiteId) (bels : List BelDescription) (d : Device) :
    ∃ bels' belPins,
      bels.foldl (fun d b => d.addBel s b) d = { d with bels := bels', belPins } ∧
      (bels'.toList.map fun b => (b.site, b.name)) =
        d.belList ++ bels.map (fun b => (s, b.name)) ∧
      belPins.size = d.belPins.size + (bels.flatMap BelDescription.pins).length := by
  induction bels generalizing d with
  | nil => exact ⟨d.bels, d.belPins, rfl, by simp [belList], rfl⟩
  | cons b bels ih =>
    obtain ⟨bels', belPins, heq, hbels, hpins⟩ := ih (d.addBel s b)
    refine ⟨bels', belPins, heq, ?_, ?_⟩
    · rw [hbels]
      simp [belList, addBel]
    · rw [hpins]
      simp [addBel, Nat.add_assoc]

theorem exists_addSitePins_eq (s : SiteId) (t : TileId) (pins : List SitePinDescription)
    (d : Device) :
    ∃ tiles sitePins, pins.foldl (fun d p => d.addSitePin s t p) d = { d with tiles, sitePins } ∧
      tiles.map Tile.bare = d.tiles.map Tile.bare := by
  induction pins generalizing d with
  | nil => exact ⟨d.tiles, d.sitePins, rfl, rfl⟩
  | cons p pins ih =>
    obtain ⟨tiles, sitePins, heq, htiles⟩ := ih (d.addSitePin s t p)
    refine ⟨tiles, sitePins, heq, htiles.trans ?_⟩
    refine Array.ext_getElem? fun i => ?_
    unfold addSitePin
    rw [Array.getElem?_map, Array.getElem?_map, Array.getElem?_modify]
    split
    next => rw [Option.map_map]; rfl
    next => rfl

structure Enters (d : Device) (pins : List (SitePart SitePinDescription)) : Prop where
  sitePins : d.sitePins.toList = pins.map (SitePin.ofPart d.names)
  entrance : ∀ t tile (v : WireName) (p : SitePinId), d.tile? t = some tile →
    (tile.sitePins[v]? = some p ↔
      IsLastAt (fun e => e.site.tile = tile.name ∧ d.names.get e.part.external = v) pins p.index)

theorem Enters.addSitePin {pins : List (SitePart SitePinDescription)} (h : d.Enters pins)
    {s : SiteDescription} {t : TileId}
    (ht : ∀ t' tile, d.tile? t' = some tile → (s.tile = tile.name ↔ t' = t)) (n : SiteId)
    (p : SitePinDescription) : (d.addSitePin n t p).Enters (pins ++ [⟨n, s, p⟩]) := by
  have hcount : d.sitePins.size = pins.length := by
    simpa using congrArg List.length h.sitePins
  constructor
  · unfold Device.addSitePin
    rw [Array.toList_push, h.sitePins, List.map_append]
    rfl
  · intro t' tile' v q htile'
    unfold tile? Device.addSitePin at htile'
    rw [Array.getElem?_modify] at htile'
    rw [IsLastAt.concat]
    split at htile'
    next hindex =>
      obtain ⟨tile, htile, rfl⟩ := Option.map_eq_some_iff.1 htile'
      have hthere : s.tile = tile.name := (ht t' tile htile).2 (Key.ext hindex.symm)
      change _ ↔ (s.tile = tile.name ∧ d.names.get p.external = v) ∧ q.index = pins.length ∨
        ¬(s.tile = tile.name ∧ d.names.get p.external = v) ∧
          IsLastAt (fun e => e.site.tile = tile.name ∧ d.names.get e.part.external = v) pins q.index
      rw [Std.ExtTreeMap.getElem?_insert, ← h.entrance t' tile v q htile]
      simp only [Std.LawfulEqCmp.compare_eq_iff_eq]
      by_cases hv : d.names.get p.external = v
      · simp [hv, hthere, Key.ext_iff, hcount, eq_comm]
      · simp [hv]
    next hindex =>
      have helsewhere : s.tile ≠ tile'.name := fun hname =>
        hindex (congrArg Key.index ((ht t' tile' htile').1 hname)).symm
      rw [h.entrance t' tile' v q htile']
      simp only [helsewhere, false_and, not_false_iff, true_and, false_or]
      rfl

theorem Enters.addSitePins (pins : List SitePinDescription)
    {before : List (SitePart SitePinDescription)} (h : d.Enters before) {s : SiteDescription}
    {t : TileId} (ht : ∀ t' tile, d.tile? t' = some tile → (s.tile = tile.name ↔ t' = t))
    (n : SiteId) :
    (pins.foldl (fun d p => d.addSitePin n t p) d).Enters (before ++ pins.map (⟨n, s, ·⟩)) := by
  induction pins generalizing d before with
  | nil => simpa using h
  | cons p pins ih =>
    have hrest := ih (h.addSitePin ht n p) fun t' tile' htile' => ?_
    · rwa [List.append_assoc] at hrest
    · unfold tile? Device.addSitePin at htile'
      rw [Array.getElem?_modify] at htile'
      split at htile'
      next =>
        obtain ⟨tile, htile, rfl⟩ := Option.map_eq_some_iff.1 htile'
        exact ht t' tile htile
      next => exact ht t' tile' htile'

/-! ## All sites so far -/

/-- The device has what the sites so far have. -/
structure Furnished (desc : DeviceDescription) (sites : List SiteDescription)
    (d : Device) : Prop where
  typed : Typed desc desc.siteTypes d
  siteIndex : Places d.siteIndex Key.index (sites.map SiteDescription.name)
  count : d.sites.size = sites.length
  site : ∀ (i : Nat) s, sites[i]? = some s → ∃ typeId tile,
    d.siteTypeIndex[s.type]? = some typeId ∧ d.tileIndex[s.tile]? = some tile ∧
      d.sites[i]? = some ⟨s.name, typeId, tile,
        (List.range (desc.partsOf SiteTypeDescription.bels s).length).map fun k =>
          ⟨(desc.declaredIn (sites.take i) SiteTypeDescription.bels).length + k⟩,
        (desc.declaredIn (sites.take i) SiteTypeDescription.belPins).length,
        (desc.declaredIn (sites.take i) SiteTypeDescription.pins).length⟩
  bels : d.belList = (desc.declaredIn sites SiteTypeDescription.bels).map fun e =>
    (e.number, e.part.name)
  belPins : d.belPins.size = (desc.declaredIn sites SiteTypeDescription.belPins).length
  enters : d.Enters (desc.declaredIn sites SiteTypeDescription.pins)

theorem Furnished.addSite (h : Furnished desc sites d) {s : SiteDescription}
    (hadd : d.addSite s = .ok d') : Furnished desc (sites ++ [s]) d' := by
  obtain ⟨siteIndex, tile, typeId, type, hindex, htile, htypeId, htype, rfl⟩ := addSite_eq_ok.1 hadd
  obtain ⟨t, type', ht, htype', hdeclares⟩ := h.typed.exists_type htypeId
  obtain rfl : type = type' := Option.some.inj (htype.symm.trans htype')
  have hparts : ∀ {α : Type} (parts : SiteTypeDescription → List α),
      desc.partsOf parts s = parts t := fun parts => DeviceDescription.partsOf_eq ht
  have hbelCount : d.bels.size = (desc.declaredIn sites SiteTypeDescription.bels).length := by
    simpa [belList] using congrArg List.length h.bels
  have hpinCount : d.sitePins.size = (desc.declaredIn sites SiteTypeDescription.pins).length := by
    simpa using congrArg List.length h.enters.sitePins
  let opened : Device := { d with
    siteIndex
    sites := d.sites.push ⟨s.name, typeId, tile,
      (List.range type.bels.length).map fun i => ⟨d.bels.size + i⟩,
      d.belPins.size, d.sitePins.size⟩ }
  obtain ⟨bels, belPins, hfilled, hbels, hbelPins⟩ :=
    exists_addBels_eq ⟨d.sites.size⟩ type.bels opened
  let filled : Device := { opened with bels, belPins }
  have hopened : filled.Enters (desc.declaredIn sites SiteTypeDescription.pins) :=
    ⟨h.enters.sitePins, h.enters.entrance⟩
  have henters := hopened.addSitePins type.pins
    (fun t' tile' htile' => h.typed.tileIndex_iff htile htile') ⟨d.sites.size⟩
  obtain ⟨tiles, sitePins, hdone, htiles⟩ :=
    exists_addSitePins_eq ⟨d.sites.size⟩ tile type.pins filled
  rw [hdone] at henters
  change Furnished desc (sites ++ [s]) (type.pins.foldl _ (type.bels.foldl _ opened))
  rw [hfilled, hdone]
  refine ⟨h.typed.keep rfl rfl htiles rfl rfl, ?_, ?_, ?_, ?_, ?_, ?_⟩
  · rw [List.map_append]
    exact h.siteIndex.addNew (fun _ _ => Key.ext) (by simp [h.count]) hindex
  · simp [filled, opened, h.count]
  · intro i s' hs'
    rcases Nat.lt_or_ge i sites.length with hi | hi
    · rw [List.getElem?_append_left hi] at hs'
      obtain ⟨typeId', tile', htypeId', htile', hsite⟩ := h.site i s' hs'
      refine ⟨typeId', tile', htypeId', htile', ?_⟩
      rw [List.take_append_of_le_length (Nat.le_of_lt hi)]
      exact getElem?_push_of_some hsite _
    · obtain ⟨hlt, hget⟩ := List.getElem?_eq_some_iff.1 hs'
      rw [List.length_append, List.length_singleton] at hlt
      obtain rfl : i = sites.length := by omega
      obtain rfl : s = s' := by simpa using hget
      refine ⟨typeId, tile, htypeId, htile, ?_⟩
      rw [List.take_left' rfl, hparts, ← hdeclares.bels, ← hbelCount, ← h.belPins, ← hpinCount,
        ← h.count]
      exact Array.getElem?_push.trans (if_pos rfl)
  · rw [DeviceDescription.declaredIn_concat, List.map_append, ← h.bels, hparts, ← hdeclares.bels,
      ← h.count, List.map_map]
    exact hbels
  · rw [DeviceDescription.declaredIn_concat, List.length_append, List.length_map, hparts,
      ← h.belPins]
    rw [hdeclares.bels] at hbelPins
    exact hbelPins
  · rw [DeviceDescription.declaredIn_concat, hparts, ← hdeclares.pins, ← h.count]
    exact henters

/-! ## Loaded devices -/

structure Unfurnished (d : Device) : Prop where
  sites : d.sites = #[]
  siteIndex : d.siteIndex = ∅
  bels : d.bels = #[]
  belPins : d.belPins = #[]
  sitePins : d.sitePins = #[]
  tiles : ∀ t tile, d.tile? t = some tile → tile.sitePins = ∅

theorem Unfurnished.addSiteType (h : d.Unfurnished) {t : SiteTypeDescription}
    (hadd : d.addSiteType t = .ok d') : d'.Unfurnished := by
  unfold Device.addSiteType at hadd
  obtain ⟨index, -, hadd⟩ := Checked.bind_eq_ok.1 hadd
  obtain ⟨type, -, hadd⟩ := Checked.bind_eq_ok.1 hadd
  obtain rfl := Checked.pure_eq_ok.1 hadd
  exact ⟨h.sites, h.siteIndex, h.bels, h.belPins, h.sitePins, h.tiles⟩

theorem Unfurnished.furnished (h : d.Unfurnished) (ht : Typed desc desc.siteTypes d) :
    Furnished desc [] d where
  typed := ht
  siteIndex := by
    rw [h.siteIndex]
    exact .empty _
  count := by simp [h.sites]
  site i s hs := by simp at hs
  bels := by
    rw [DeviceDescription.declaredIn_nil]
    simp [belList, h.bels]
  belPins := by
    rw [DeviceDescription.declaredIn_nil]
    simp [h.belPins]
  enters := by
    rw [DeviceDescription.declaredIn_nil]
    refine ⟨by simp [h.sitePins], fun t tile v p htile => ?_⟩
    simpa [h.tiles t tile htile] using IsLastAt.nil

theorem furnished_of_ofDescription (h : ofDescription desc = .ok d) :
    Furnished desc desc.sites d := by
  unfold ofDescription at h
  obtain ⟨index, hindex, h⟩ := Checked.bind_eq_ok.1 h
  obtain ⟨tiles, htiles, h⟩ := Checked.bind_eq_ok.1 h
  obtain ⟨typed, htyped, h⟩ := Checked.bind_eq_ok.1 h
  have htyped' := Checked.foldlM_done
    (fun types d => Typed desc types d ∧ d.Unfurnished)
    (fun _ _ _ _ _ _ hd hstep => ⟨hd.1.addSiteType hstep, hd.2.addSiteType hstep⟩) ?_ htyped
  · exact Checked.foldlM_done (Furnished desc) (fun _ _ _ _ _ _ hd hstep => hd.addSite hstep)
      (htyped'.2.furnished htyped'.1) h
  · have hmade : ∀ tile ∈ tiles, tile.sitePins = ∅ := fun tile htile => by
      obtain ⟨⟨t, i⟩, -, hbuilt⟩ := Checked.exists_of_mem_mapM htiles htile
      exact (Tile.declares_of_ofDescription hbuilt).2
    refine ⟨⟨rfl, ?_, ?_, .empty _, .nil⟩, rfl, rfl, rfl, rfl, rfl, fun t tile htile => ?_⟩
    · exact (places_indexNames hindex).map _ (fun c => ⟨c.index, rfl⟩) (fun _ => rfl)
        fun i j hij => congrArg Key.index hij
    · exact (Checked.mapM_forall₂ htiles).imp fun _ _ hbuilt =>
        (Tile.declares_of_ofDescription hbuilt).1
    · exact hmade tile (List.mem_toArray.1 (Array.mem_of_getElem? htile))

end Device

end Fabric
