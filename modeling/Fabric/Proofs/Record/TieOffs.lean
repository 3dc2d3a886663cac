import Fabric.Proofs.Device.Pins
import Fabric.Record.Sites
/-!
# BELs that tie wires to constants

The sites of a type have BELs of the same names, and no two types have the same name. So what ties
wires in a site may be kept under the name of its type, for the records that come later.
-/

namespace Fabric

namespace Device

variable {d d' : Device}

def HasBels (d : Device) (bels : List BelId) (descs : List BelDescription) : Prop :=
  List.Forall₂ (fun b desc => (d.bel? b).map Bel.name = some desc.name) bels descs

theorem HasBels.keep {bels : List BelId} {descs : List BelDescription} (h : d.HasBels bels descs)
    (hkeeps : d.Keeps d') : d'.HasBels bels descs :=
  h.imp fun b desc hname => by
    obtain ⟨bel, hbel, hname⟩ := Option.map_eq_some_iff.1 hname
    rw [hkeeps.bel b bel hbel, Option.map_some, hname]

theorem HasBels.map_belName {bels : List BelId} {descs : List BelDescription}
    (h : d.HasBels bels descs) : bels.map d.belName = descs.map BelDescription.name := by
  induction h with
  | nil => rfl
  | cons hname _ ih =>
    rw [List.map_cons, List.map_cons, ih]
    unfold belName
    rw [hname, Option.getD_some]

theorem hasBels_addBels (s : SiteId) (descs : List BelDescription) (d : Device) :
    (descs.foldl (fun d b => d.addBel s b) d).HasBels
      ((List.range descs.length).map fun i => ⟨d.bels.size + i⟩) descs := by
  induction descs generalizing d with
  | nil => exact .nil
  | cons desc descs ih =>
    have hnew : (d.addBel s desc).bel? ⟨d.bels.size⟩ = _ := Array.getElem?_push.trans (if_pos rfl)
    have hnumbers : (List.range descs.length).map (fun i => (⟨d.bels.size + (i + 1)⟩ : BelId)) =
        (List.range descs.length).map fun i => ⟨(d.addBel s desc).bels.size + i⟩ := by
      refine List.map_congr_left fun i _ => ?_
      unfold addBel
      rw [Array.size_push, Nat.add_assoc, Nat.add_comm 1]
    rw [List.length_cons, List.range_succ_eq_map, List.map_cons, List.map_map, List.foldl_cons]
    refine .cons ?_ ?_
    · rw [Nat.add_zero, (keeps_addBels s descs _).bel _ _ hnew]
      rfl
    · show HasBels _ ((List.range descs.length).map fun i => ⟨d.bels.size + (i + 1)⟩) descs
      rw [hnumbers]
      exact ih (d.addBel s desc)

structure BelsMatch (d : Device) : Prop where
  index : ∀ (i : Nat) type, d.siteTypes[i]? = some type → d.siteTypeIndex[type.name]? = some ⟨i⟩
  bels : ∀ s site type, d.site? s = some site → d.siteTypes[site.type.index]? = some type →
    d.HasBels site.bels type.bels

theorem name_of_siteType {names : NameTable} {desc : SiteTypeDescription} {type : SiteType}
    (h : SiteType.ofDescription names desc = .ok type) : type.name = desc.name := by
  unfold SiteType.ofDescription at h
  obtain ⟨belIndex, -, h⟩ := Checked.bind_eq_ok.1 h
  obtain ⟨pinIndex, -, h⟩ := Checked.bind_eq_ok.1 h
  obtain ⟨entries, -, h⟩ := Checked.bind_eq_ok.1 h
  cases h
  rfl

theorem siteTypeIndex_addBels (s : SiteId) (descs : List BelDescription) (d : Device) :
    (descs.foldl (fun d b => d.addBel s b) d).siteTypeIndex = d.siteTypeIndex := by
  induction descs generalizing d with
  | nil => rfl
  | cons desc descs ih => exact ih (d.addBel s desc)

theorem siteTypeIndex_addSitePins (s : SiteId) (t : TileId) (descs : List SitePinDescription)
    (d : Device) : (descs.foldl (fun d p => d.addSitePin s t p) d).siteTypeIndex =
      d.siteTypeIndex := by
  induction descs generalizing d with
  | nil => rfl
  | cons desc descs ih => exact ih (d.addSitePin s t desc)

theorem BelsMatch.addSiteType (hd : d.BelsMatch) (hsites : d.sites = #[])
    {desc : SiteTypeDescription} (h : d.addSiteType desc = .ok d') :
    d'.BelsMatch ∧ d'.sites = #[] := by
  unfold Device.addSiteType at h
  obtain ⟨index, hindex, h⟩ := Checked.bind_eq_ok.1 h
  obtain ⟨new, hnew, h⟩ := Checked.bind_eq_ok.1 h
  cases h
  refine ⟨⟨fun i type htype => ?_, fun s site type hs => ?_⟩, hsites⟩
  · rw [Array.getElem?_push] at htype
    rw [getElem?_of_addNew hindex]
    -- the new type is found where it is put, and an old one because its name is another
    split at htype
    next hi =>
      cases htype
      rw [if_pos (name_of_siteType hnew), hi]
    next =>
      have hold := hd.index i type htype
      rw [if_neg, hold]
      intro hname
      rw [hname, eq_none_of_addNew hindex] at hold
      cases hold
  · simp [site?, hsites] at hs

theorem exists_of_addSite {desc : SiteDescription} (h : d.addSite desc = .ok d') :
    ∃ new type, d.siteTypes[new.type.index]? = some type ∧ d.Keeps d' ∧
      d'.siteTypeIndex = d.siteTypeIndex ∧ d'.HasBels new.bels type.bels ∧
      ∀ s site, d'.site? s = some site → site = new ∨ d.site? s = some site := by
  obtain ⟨siteIndex, tile, typeId, type, -, -, -, htype, rfl⟩ := addSite_eq_ok.1 h
  let s : SiteId := ⟨d.sites.size⟩
  let bels := (List.range type.bels.length).map fun i => (⟨d.bels.size + i⟩ : BelId)
  let new : Site := ⟨desc.name, typeId, tile, bels, d.belPins.size, d.sitePins.size⟩
  let opened : Device := { d with siteIndex, sites := d.sites.push new }
  let filled := type.bels.foldl (fun d b => d.addBel s b) opened
  have hopens : d.Keeps opened :=
    { Keeps.refl d with site := fun _ _ hs => getElem?_push_of_some hs _ }
  have hends := keeps_addSitePins s tile type.pins filled
  refine ⟨new, type, htype, (hopens.trans (keeps_addBels s type.bels opened)).trans hends,
    ?_, (hasBels_addBels s type.bels opened).keep hends, fun k site hk => ?_⟩
  · rw [siteTypeIndex_addSitePins, siteTypeIndex_addBels]
  · unfold site? at hk
    rw [sites_addSitePins, sites_addBels, Array.getElem?_push] at hk
    split at hk
    next => exact .inl (Option.some.inj hk).symm
    next => exact .inr hk

theorem BelsMatch.addSite (hd : d.BelsMatch) {desc : SiteDescription}
    (h : d.addSite desc = .ok d') : d'.BelsMatch := by
  obtain ⟨new, type, htype, hkeeps, hindex, hbels, hsites⟩ := exists_of_addSite h
  refine ⟨fun i type' htype' => ?_, fun s site type' hs htype' => ?_⟩
  · rw [hkeeps.siteTypes] at htype'
    rw [hindex]
    exact hd.index i type' htype'
  · rw [hkeeps.siteTypes] at htype'
    rcases hsites s site hs with rfl | hold
    · obtain rfl : type = type' := Option.some.inj (htype.symm.trans htype')
      exact hbels
    · exact (hd.bels s site type' hold htype').keep hkeeps

theorem belsMatch_of_ofDescription {desc : DeviceDescription} (h : ofDescription desc = .ok d) :
    d.BelsMatch := by
  unfold ofDescription at h
  obtain ⟨index, -, h⟩ := Checked.bind_eq_ok.1 h
  obtain ⟨tiles, -, h⟩ := Checked.bind_eq_ok.1 h
  obtain ⟨typed, htyped, h⟩ := Checked.bind_eq_ok.1 h
  have htyped' : typed.BelsMatch ∧ typed.sites = #[] :=
    Checked.foldlM_keeps (fun d => d.BelsMatch ∧ d.sites = #[])
      (fun _ _ _ _ hd hstep => hd.1.addSiteType hd.2 hstep)
      ⟨⟨by simp, by simp [site?]⟩, rfl⟩ htyped
  exact Checked.foldlM_keeps BelsMatch (fun _ _ _ _ hd hstep => hd.addSite hstep) htyped'.1 h

theorem BelsMatch.eq_of_name (hd : d.BelsMatch) {s s' : SiteId} {type type' : SiteType}
    (h : d.siteType? s = some type) (h' : d.siteType? s' = some type')
    (hname : type.name = type'.name) : type = type' := by
  obtain ⟨site, -, h⟩ := Option.bind_eq_some_iff.1 h
  obtain ⟨site', -, h'⟩ := Option.bind_eq_some_iff.1 h'
  have hindex := hd.index _ type h
  rw [hname, hd.index _ type' h'] at hindex
  have hsame : site'.type.index = site.type.index := congrArg Key.index (Option.some.inj hindex)
  rw [hsame, h] at h'
  exact Option.some.inj h'

theorem BelsMatch.map_belName_eq (hd : d.BelsMatch) {s s' : SiteId} (hs : (d.siteType? s).isSome)
    (hs' : (d.siteType? s').isSome) (h : d.siteTypeName s = d.siteTypeName s') :
    (d.belsOfSite s).map d.belName = (d.belsOfSite s').map d.belName := by
  have hnames : ∀ {s type}, d.siteType? s = some type →
      (d.belsOfSite s).map d.belName = type.bels.map BelDescription.name := by
    intro s type htype
    obtain ⟨site, hsite, htype⟩ := Option.bind_eq_some_iff.1 htype
    unfold belsOfSite
    rw [hsite, Option.map_some, Option.getD_some]
    exact (hd.bels s site type hsite htype).map_belName
  obtain ⟨type, htype⟩ := Option.isSome_iff_exists.1 hs
  obtain ⟨type', htype'⟩ := Option.isSome_iff_exists.1 hs'
  have hname : type.name = type'.name := by
    unfold siteTypeName at h
    rwa [htype, htype', Option.map_some, Option.map_some, Option.getD_some, Option.getD_some] at h
  rw [hnames htype, hnames htype', hd.eq_of_name htype htype' hname]

end Device

namespace Record

/-- What ties wires in a site is told by the name of its type. -/
theorem tieOffs_eq_of_siteTypeName {d : Device} {desc : DeviceDescription}
    (hd : Device.ofDescription desc = .ok d) {s s' : SiteId} (hs : (d.siteType? s).isSome)
    (hs' : (d.siteType? s').isSome) (h : d.siteTypeName s = d.siteTypeName s') :
    tieOffs d s = tieOffs d s' := by
  unfold tieOffs
  rw [(Device.belsMatch_of_ofDescription hd).map_belName_eq hs hs' h]

end Record

end Fabric
