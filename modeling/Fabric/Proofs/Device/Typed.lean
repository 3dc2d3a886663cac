import Fabric.Proofs.Device.Declared
import Fabric.Proofs.Device.Pins
/-!
# Tiles and site types as described

Names lead to the places of what they name in the description. Tiles and site types have the hops of
their wires in the order of the entries, and the tables of a site type hold the last of the pins
that are on one wire.
-/

namespace Fabric

/-! ## Names and places -/

def Places {β : Type} (t : Table String β) (place : β → Nat) (names : List String) : Prop :=
  ∀ name b, t[name]? = some b ↔ names[place b]? = some name

namespace Places

variable {β γ : Type} {t t' : Table String β} {place : β → Nat} {names : List String}

theorem empty (place : β → Nat) : Places ∅ place [] := by
  intro name b
  simp

theorem addNew (h : Places t place names) (hplace : ∀ b c, place b = place c → b = c) {kind : Kind}
    {name shown : String} {b : β} (hb : place b = names.length)
    (hadd : Fabric.addNew kind t name b shown = .ok t') : Places t' place (names ++ [name]) := by
  intro k c
  rw [getElem?_of_addNew hadd]
  rcases Nat.lt_trichotomy (place c) names.length with hlt | heq | hgt
  · have hne : b ≠ c := by
      rintro rfl
      omega
    rw [List.getElem?_append_left hlt, ← h k c]
    split
    next hk =>
      subst hk
      simp [eq_none_of_addNew hadd, hne]
    next => exact Iff.rfl
  · obtain rfl : c = b := hplace c b (heq.trans hb.symm)
    have hnone : t[k]? ≠ some c := by
      rw [Ne, h k c, heq]
      simp
    rw [heq, List.getElem?_concat_length]
    split
    next hk => simp [hk]
    next hk => simp [hnone, Ne.symm hk]
  · have hne : b ≠ c := by
      rintro rfl
      omega
    have hnone : t[k]? ≠ some c := by
      rw [Ne, h k c, List.getElem?_eq_none (by omega)]
      simp
    rw [List.getElem?_eq_none (by simp; omega)]
    split <;> simp [hne, hnone]

theorem map (h : Places t place names) (f : β → γ) {place' : γ → Nat}
    (hf : ∀ c, ∃ b, f b = c) (hplace : ∀ b, place' (f b) = place b)
    (hinj : ∀ b b', f b = f b' → b = b') : Places (t.map fun _ b => f b) place' names := by
  intro name c
  obtain ⟨b, rfl⟩ := hf c
  rw [Std.ExtTreeMap.getElem?_map, hplace, ← h name b, Option.map_eq_some_iff]
  refine ⟨?_, fun hb => ⟨b, hb, rfl⟩⟩
  rintro ⟨b', hb', heq⟩
  rwa [hinj b' b heq] at hb'

end Places

theorem places_indexNames {kind : Kind} {shown : String → String} {names : List String}
    {t : Table String Nat} (h : indexNames kind shown names = .ok t) : Places t id names := by
  have hall := Checked.foldlM_done
    (fun (done : List (String × Nat)) t => Places t id (done.map Prod.fst))
    (fun done a rest b b' heq hb hadd => ?_) (Places.empty id) h
  · rwa [List.zipIdx_map_fst] at hall
  · obtain ⟨name, i⟩ := a
    have hat : names.zipIdx[done.length]? = some (name, i) := by rw [heq]; simp
    have hi : i = done.length := by
      rw [List.getElem?_zipIdx] at hat
      obtain ⟨name', -, hpair⟩ := Option.map_eq_some_iff.1 hat
      simpa using (congrArg Prod.snd hpair).symm
    rw [List.map_append]
    exact hb.addNew (fun _ _ h => h) (by simpa using hi) hadd

namespace DeviceDescription

variable {desc : DeviceDescription}

theorem typeOf?_eq {index : Table String SiteTypeId}
    (hindex : Places index Key.index (desc.siteTypes.map SiteTypeDescription.name))
    {s : SiteDescription} {i : SiteTypeId} (hi : index[s.type]? = some i) :
    desc.typeOf? s = desc.siteTypes[i.index]? := by
  have hname := (hindex s.type i).1 hi
  rw [List.getElem?_map] at hname
  obtain ⟨t, ht, hname⟩ := Option.map_eq_some_iff.1 hname
  obtain ⟨hlt, hget⟩ := List.getElem?_eq_some_iff.1 ht
  rw [ht]
  refine List.find?_eq_some_iff_getElem.2 ⟨by simpa using hname, i.index, hlt, hget, ?_⟩
  intro j hj
  have hjlt : j < desc.siteTypes.length := by omega
  simp only [Bool.not_eq_true', decide_eq_false_iff_not]
  intro hsame
  have hji : index[s.type]? = some ⟨j⟩ := by
    rw [hindex, List.getElem?_map, List.getElem?_eq_getElem hjlt, Option.map_some, hsame]
  rw [hi] at hji
  exact Nat.ne_of_gt hj (congrArg Key.index (Option.some.inj hji))

end DeviceDescription

/-! ## Tiles and site types -/

def hopsOf (names : NameTable) (wires : List WireDescription) (v : WireName) :
    List HopDescription :=
  (wires.filter fun w => names.get w.name = v).flatMap WireDescription.hops

theorem forall₂_hopTable {α : Type} {names : NameTable}
    {hop : HopDescription → Except DeviceError α} {wires : List WireDescription}
    {entries : List (WireName × List α)}
    (h : (wires.mapM fun w => do return (names.get w.name, ← w.hops.mapM hop)) = .ok entries)
    (v : WireName) :
    List.Forall₂ (fun g a => hop g = .ok a) (hopsOf names wires v)
      (((hopTable entries)[v]?).getD []) := by
  rw [getElem?_hopTable]
  unfold hopsOf
  have hall := Checked.mapM_forall₂ h
  clear h
  induction hall with
  | nil => exact .nil
  | @cons w e wires entries hw _ ih =>
    obtain ⟨hops, hhops, hw⟩ := Checked.bind_eq_ok.1 hw
    obtain rfl := Checked.pure_eq_ok.1 hw
    rw [List.filter_cons, List.filter_cons]
    split
    next =>
      rw [List.flatMap_cons, List.flatMap_cons]
      exact List.rel_append (Checked.mapM_forall₂ hhops) ih
    next => exact ih

def Tile.bare (t : Tile) : Tile := { t with sitePins := ∅ }

structure Tile.Declares (names : NameTable) (index : Table String TileId) (here : TileId)
    (desc : TileDescription) (tile : Tile) : Prop where
  name : tile.name = desc.name
  type : tile.type = desc.type
  hops : ∀ v, List.Forall₂
    (fun (h : HopDescription) (k : TileHop) => k.wire = names.get h.target ∧ k.kind = h.kind ∧
      (h.tile.map fun name => index[name]?).getD (some here) = some k.tile)
    (hopsOf names desc.wires v) ((tile.hops[v]?).getD [])

theorem Tile.declares_of_ofDescription {names : NameTable} {index : Table String TileId}
    {here : TileId} {desc : TileDescription} {tile : Tile}
    (h : Tile.ofDescription names index here desc = .ok tile) :
    tile.Declares names index here desc ∧ tile.sitePins = ∅ := by
  unfold Tile.ofDescription at h
  obtain ⟨entries, hentries, h⟩ := Checked.bind_eq_ok.1 h
  obtain rfl := Checked.pure_eq_ok.1 h
  refine ⟨⟨rfl, rfl, fun v => (forall₂_hopTable hentries v).imp fun g k hk => ?_⟩, rfl⟩
  split at hk
  next hnone =>
    cases hk
    simp [hnone]
  next name hname =>
    split at hk
    next t ht =>
      cases hk
      simp [hname, ht]
    next => cases hk

structure SiteType.Declares (names : NameTable) (desc : SiteTypeDescription)
    (type : SiteType) : Prop where
  bels : type.bels = desc.bels
  pins : type.pins = desc.pins
  hops : ∀ v, List.Forall₂
    (fun (h : HopDescription) (k : SiteHop) => k.wire = names.get h.target ∧ k.kind = h.kind)
    (hopsOf names desc.wires v) ((type.hops[v]?).getD [])
  terminals : ∀ v i, type.terminals[v]? = some i ↔
    IsLastAt (fun p => p.isInput ∧ names.get p.wire = v) desc.belPins i
  exits : ∀ v i, type.exits[v]? = some i ↔
    IsLastAt (fun p => p.isOutput ∧ names.get p.internal = v) desc.pins i
  belIndex : Places type.belIndex id (desc.bels.map BelDescription.name)
  pinIndex : Places type.pinIndex id (desc.pins.map SitePinDescription.name)

theorem SiteType.declares_of_ofDescription {names : NameTable} {desc : SiteTypeDescription}
    {type : SiteType} (h : SiteType.ofDescription names desc = .ok type) :
    type.Declares names desc := by
  unfold SiteType.ofDescription at h
  obtain ⟨belIndex, hbels, h⟩ := Checked.bind_eq_ok.1 h
  obtain ⟨pinIndex, hpins, h⟩ := Checked.bind_eq_ok.1 h
  obtain ⟨entries, hentries, h⟩ := Checked.bind_eq_ok.1 h
  obtain rfl := Checked.pure_eq_ok.1 h
  refine ⟨rfl, rfl, fun v => (forall₂_hopTable hentries v).imp fun g k hk => ?_, fun v i => ?_,
    fun v i => ?_, places_indexNames hbels, places_indexNames hpins⟩
  · split at hk
    next =>
      cases hk
      exact ⟨rfl, rfl⟩
    next => cases hk
  · exact Table.getElem?_ofList_places desc.belPins BelPinDescription.isInput
      (fun p => names.get p.wire) v i
  · exact Table.getElem?_ofList_places desc.pins SitePinDescription.isOutput
      (fun p => names.get p.internal) v i

namespace Device

variable {d d' : Device} {desc : DeviceDescription} {sites : List SiteDescription}

structure Typed (desc : DeviceDescription) (types : List SiteTypeDescription)
    (d : Device) : Prop where
  names : d.names = .ofList desc.mentions
  tileIndex : Places d.tileIndex Key.index (desc.tiles.map TileDescription.name)
  tiles : List.Forall₂ (fun (t, i) (tile : Tile) => tile.Declares d.names d.tileIndex ⟨i⟩ t)
    desc.tiles.zipIdx d.tiles.toList
  siteTypeIndex : Places d.siteTypeIndex Key.index (types.map SiteTypeDescription.name)
  siteTypes : List.Forall₂ (fun t (type : SiteType) => type.Declares d.names t) types
    d.siteTypes.toList

namespace Typed

variable {types : List SiteTypeDescription}

theorem addSiteType (h : Typed desc types d) {t : SiteTypeDescription}
    (hadd : d.addSiteType t = .ok d') : Typed desc (types ++ [t]) d' := by
  unfold Device.addSiteType at hadd
  obtain ⟨index, hindex, hadd⟩ := Checked.bind_eq_ok.1 hadd
  obtain ⟨type, htype, hadd⟩ := Checked.bind_eq_ok.1 hadd
  obtain rfl := Checked.pure_eq_ok.1 hadd
  have hcount : d.siteTypes.size = types.length := by simpa using h.siteTypes.length_eq.symm
  refine ⟨h.names, h.tileIndex, h.tiles, ?_, ?_⟩
  · rw [List.map_append]
    exact h.siteTypeIndex.addNew (fun _ _ => Key.ext) (by simpa using hcount) hindex
  · rw [Array.toList_push]
    exact List.rel_append h.siteTypes (.cons (SiteType.declares_of_ofDescription htype) .nil)

/-- Sites change nothing but the pins behind the wires of the tiles. -/
theorem keep (h : Typed desc types d) (hnames : d'.names = d.names)
    (htileIndex : d'.tileIndex = d.tileIndex)
    (htiles : d'.tiles.map Tile.bare = d.tiles.map Tile.bare)
    (htypeIndex : d'.siteTypeIndex = d.siteTypeIndex) (htypes : d'.siteTypes = d.siteTypes) :
    Typed desc types d' := by
  refine ⟨hnames.trans h.names, htileIndex ▸ h.tileIndex, ?_, htypeIndex ▸ h.siteTypeIndex, ?_⟩
  · have hbare : List.Forall₂ (fun (t, i) (tile : Tile) => tile.Declares d.names d.tileIndex ⟨i⟩ t)
        desc.tiles.zipIdx (d.tiles.map Tile.bare).toList := by
      rw [Array.toList_map, List.forall₂_map_right_iff]
      exact h.tiles.imp fun _ _ ht => ⟨ht.name, ht.type, ht.hops⟩
    rw [← htiles, Array.toList_map, List.forall₂_map_right_iff] at hbare
    rw [hnames, htileIndex]
    exact hbare.imp fun _ _ ht => ⟨ht.name, ht.type, ht.hops⟩
  · rw [hnames, htypes]
    exact h.siteTypes

theorem exists_tile (h : Typed desc types d) {i : Nat} {t : TileDescription}
    (ht : desc.tiles[i]? = some t) :
    ∃ tile, d.tile? ⟨i⟩ = some tile ∧ tile.Declares d.names d.tileIndex ⟨i⟩ t := by
  have hat : desc.tiles.zipIdx[i]? = some (t, i) := by simp [ht]
  obtain ⟨tile, htile, hdeclares⟩ := Checked.getElem?_of_forall₂ h.tiles hat
  exact ⟨tile, by rwa [Array.getElem?_toList] at htile, hdeclares⟩

theorem exists_described (h : Typed desc types d) {t : TileId} {tile : Tile}
    (htile : d.tile? t = some tile) :
    ∃ td, desc.tiles[t.index]? = some td ∧ tile.Declares d.names d.tileIndex t td := by
  have hcount : desc.tiles.length = d.tiles.size := by simpa using h.tiles.length_eq
  have hlt : t.index < d.tiles.size := (Array.getElem?_eq_some_iff.1 htile).1
  have htd := List.getElem?_eq_getElem (hcount ▸ hlt)
  obtain ⟨tile', htile', hdeclares⟩ := h.exists_tile htd
  obtain rfl : tile = tile' := Option.some.inj (htile.symm.trans htile')
  exact ⟨_, htd, hdeclares⟩

theorem tileIndex_iff (h : Typed desc types d) {t t' : TileId} {tile : Tile} {name : String}
    (hname : d.tileIndex[name]? = some t) (htile : d.tile? t' = some tile) :
    name = tile.name ↔ t' = t := by
  obtain ⟨td, htd, hdeclares⟩ := h.exists_described htile
  have hplace : (desc.tiles.map TileDescription.name)[t'.index]? = some tile.name := by
    rw [List.getElem?_map, htd, hdeclares.name]
    rfl
  constructor
  · rintro rfl
    exact Option.some.inj (((h.tileIndex _ t').2 hplace).symm.trans hname)
  · rintro rfl
    exact Option.some.inj (((h.tileIndex _ t').1 hname).symm.trans hplace)

theorem exists_type (h : Typed desc desc.siteTypes d) {s : SiteDescription} {i : SiteTypeId}
    (hi : d.siteTypeIndex[s.type]? = some i) :
    ∃ t type, desc.typeOf? s = some t ∧ d.siteTypes[i.index]? = some type ∧
      type.Declares d.names t := by
  have hname := (h.siteTypeIndex s.type i).1 hi
  rw [List.getElem?_map] at hname
  obtain ⟨t, ht, -⟩ := Option.map_eq_some_iff.1 hname
  obtain ⟨type, htype, hdeclares⟩ := Checked.getElem?_of_forall₂ h.siteTypes ht
  rw [Array.getElem?_toList] at htype
  exact ⟨t, type, (DeviceDescription.typeOf?_eq h.siteTypeIndex hi).trans ht, htype, hdeclares⟩

end Typed

end Device

end Fabric
