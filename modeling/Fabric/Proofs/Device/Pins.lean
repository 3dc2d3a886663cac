import Fabric.Proofs.Device.Wiring
import Mathlib.Data.Option.Basic
/-!
# Pins and their wires

The sites of a type share its tables, in which pins are counted from the first one of the site. A
pin that such a table gives for a wire is a pin on this wire.
-/

namespace Fabric

def SiteType.belPins (t : SiteType) : List BelPinDescription := t.bels.flatMap BelDescription.pins

theorem mem_of_getElem?_ofList {α β : Type} [Ord α] [Std.TransOrd α] [Std.LawfulEqOrd α]
    {entries : List (α × β)} {a : α} {b : β}
    (h : (Std.ExtTreeMap.ofList entries : Table α β)[a]? = some b) : (a, b) ∈ entries := by
  have insertMany : ∀ t : Table α β, (t.insertMany entries)[a]? = some b →
      (a, b) ∈ entries ∨ t[a]? = some b := by
    clear h
    induction entries with
    | nil => exact fun t h => .inr (by simpa using h)
    | cons e entries ih =>
      intro t h
      rw [Std.ExtTreeMap.insertMany_cons] at h
      rcases ih _ h with hmem | hold
      · exact .inl (List.mem_cons_of_mem _ hmem)
      · rw [Std.ExtTreeMap.getElem?_insert] at hold
        split at hold
        next heq =>
          cases hold
          obtain rfl := Std.LawfulEqCmp.compare_eq_iff_eq.1 heq
          exact .inl List.mem_cons_self
        next => exact .inr hold
  rw [Std.ExtTreeMap.ofList_eq_insertMany_empty] at h
  exact (insertMany ∅ h).resolve_right (by simp)

namespace Device

variable {d d' d'' : Device}

/-! ## What stays where it is -/

structure Keeps (d d' : Device) : Prop where
  names : d'.names = d.names
  siteTypes : d'.siteTypes = d.siteTypes
  site : ∀ s site, d.site? s = some site → d'.site? s = some site
  bel : ∀ b bel, d.bel? b = some bel → d'.bel? b = some bel
  belPin : ∀ p pin, d.belPin? p = some pin → d'.belPin? p = some pin
  sitePin : ∀ p pin, d.sitePin? p = some pin → d'.sitePin? p = some pin

theorem Keeps.refl (d : Device) : d.Keeps d :=
  ⟨rfl, rfl, fun _ _ h => h, fun _ _ h => h, fun _ _ h => h, fun _ _ h => h⟩

theorem Keeps.trans (h : d.Keeps d') (h' : d'.Keeps d'') : d.Keeps d'' where
  names := h'.names.trans h.names
  siteTypes := h'.siteTypes.trans h.siteTypes
  site s site hs := h'.site s site (h.site s site hs)
  bel b bel hb := h'.bel b bel (h.bel b bel hb)
  belPin p pin hp := h'.belPin p pin (h.belPin p pin hp)
  sitePin p pin hp := h'.sitePin p pin (h.sitePin p pin hp)

theorem getElem?_push_of_some {α : Type} {as : Array α} {i : Nat} {a : α} (h : as[i]? = some a)
    (b : α) : (as.push b)[i]? = some a := by
  have hi := (Array.getElem?_eq_some_iff.1 h).1
  rw [Array.getElem?_push, if_neg (by omega)]
  exact h

theorem keeps_addBel (d : Device) (s : SiteId) (b : BelDescription) : d.Keeps (d.addBel s b) :=
  { Keeps.refl d with
    bel := fun _ _ h => getElem?_push_of_some h _
    belPin := fun p _ h => by
      have hp := (Array.getElem?_eq_some_iff.1 h).1
      exact (Array.getElem?_append.trans (if_pos hp)).trans h }

theorem keeps_addBels (s : SiteId) (bels : List BelDescription) (d : Device) :
    d.Keeps (bels.foldl (fun d b => d.addBel s b) d) := by
  induction bels generalizing d with
  | nil => exact .refl d
  | cons b bels ih => exact (keeps_addBel d s b).trans (ih _)

theorem keeps_addSitePin (d : Device) (s : SiteId) (t : TileId) (p : SitePinDescription) :
    d.Keeps (d.addSitePin s t p) :=
  { Keeps.refl d with sitePin := fun _ _ h => getElem?_push_of_some h _ }

theorem keeps_addSitePins (s : SiteId) (t : TileId) (pins : List SitePinDescription) (d : Device) :
    d.Keeps (pins.foldl (fun d p => d.addSitePin s t p) d) := by
  induction pins generalizing d with
  | nil => exact .refl d
  | cons p pins ih => exact (keeps_addSitePin d s t p).trans (ih _)

/-! ## Pins in the order of their description -/

def HasBelPins (d : Device) (s : SiteId) (first : Nat) (pins : List BelPinDescription) : Prop :=
  ∀ (i : Nat) (p : BelPinDescription), pins[i]? = some p → ∃ b,
    d.belPin? ⟨first + i⟩ = some ⟨p.name, b, p.dir, d.names.get p.wire⟩ ∧
      (d.bel? b).map Bel.site = some s

def HasSitePins (d : Device) (s : SiteId) (first : Nat) (pins : List SitePinDescription) : Prop :=
  ∀ (i : Nat) (p : SitePinDescription), pins[i]? = some p →
    d.sitePin? ⟨first + i⟩ =
      some ⟨p.name, s, p.dir, d.names.get p.internal, d.names.get p.external⟩

theorem HasBelPins.keep {s : SiteId} {first : Nat} {pins : List BelPinDescription}
    (h : d.HasBelPins s first pins) (hkeeps : d.Keeps d') : d'.HasBelPins s first pins := by
  intro i p hp
  obtain ⟨b, hpin, hsite⟩ := h i p hp
  obtain ⟨bel, hbel, hsite⟩ := Option.map_eq_some_iff.1 hsite
  refine ⟨b, ?_, Option.map_eq_some_iff.2 ⟨bel, hkeeps.bel b bel hbel, hsite⟩⟩
  rw [hkeeps.names]
  exact hkeeps.belPin _ _ hpin

theorem HasSitePins.keep {s : SiteId} {first : Nat} {pins : List SitePinDescription}
    (h : d.HasSitePins s first pins) (hkeeps : d.Keeps d') : d'.HasSitePins s first pins := by
  intro i p hp
  rw [hkeeps.names]
  exact hkeeps.sitePin _ _ (h i p hp)

theorem hasBelPins_addBel (d : Device) (s : SiteId) (b : BelDescription) :
    (d.addBel s b).HasBelPins s d.belPins.size b.pins := by
  intro i p hp
  refine ⟨⟨d.bels.size⟩, ?_, ?_⟩
  · unfold belPin? addBel
    rw [Array.getElem?_append, if_neg (by simp), Nat.add_sub_cancel_left, List.getElem?_toArray,
      List.getElem?_map, hp]
    rfl
  · unfold bel? addBel
    rw [Array.getElem?_push, if_pos rfl]
    rfl

theorem hasBelPins_addBels (s : SiteId) (bels : List BelDescription) (d : Device) :
    (bels.foldl (fun d b => d.addBel s b) d).HasBelPins s d.belPins.size
      (bels.flatMap BelDescription.pins) := by
  induction bels generalizing d with
  | nil => simp [HasBelPins]
  | cons b bels ih =>
    intro i p hp
    rw [List.flatMap_cons, List.getElem?_append] at hp
    split at hp
    next => exact (hasBelPins_addBel d s b).keep (keeps_addBels s bels _) i p hp
    next hi =>
      have hrest := ih (d.addBel s b) (i - b.pins.length) p hp
      have hsize : (d.addBel s b).belPins.size = d.belPins.size + b.pins.length := by simp [addBel]
      have hindex : (d.addBel s b).belPins.size + (i - b.pins.length) = d.belPins.size + i := by
        omega
      rwa [hindex] at hrest

theorem hasSitePins_addSitePins (s : SiteId) (t : TileId) (pins : List SitePinDescription)
    (d : Device) :
    (pins.foldl (fun d p => d.addSitePin s t p) d).HasSitePins s d.sitePins.size pins := by
  induction pins generalizing d with
  | nil => simp [HasSitePins]
  | cons p pins ih =>
    intro i p' hp
    cases i with
    | zero =>
      cases hp
      have hnew : (d.addSitePin s t p).sitePin? ⟨d.sitePins.size⟩ =
          some ⟨p.name, s, p.dir, d.names.get p.internal, d.names.get p.external⟩ :=
        Array.getElem?_push.trans (if_pos rfl)
      have hkeeps := keeps_addSitePins s t pins (d.addSitePin s t p)
      rw [List.foldl_cons, hkeeps.names]
      exact hkeeps.sitePin _ _ hnew
    | succ i =>
      have hlater := ih (d.addSitePin s t p) i p' hp
      have hsize : (d.addSitePin s t p).sitePins.size = d.sitePins.size + 1 := by simp [addSitePin]
      have hindex : (d.addSitePin s t p).sitePins.size + i = d.sitePins.size + (i + 1) := by omega
      rwa [hindex] at hlater

/-! ## Pins at the wires of tiles -/

def MeetsOutside (d : Device) : Prop :=
  ∀ t tile (w : WireName) (p : SitePinId), d.tile? t = some tile → tile.sitePins[w]? = some p →
    ∃ pin, d.sitePin? p = some pin ∧ pin.external = w ∧ (d.site? pin.site).map Site.tile = some t

theorem MeetsOutside.keep (h : d.MeetsOutside) (hkeeps : d.Keeps d')
    (htiles : ∀ t, d'.tile? t = d.tile? t) : d'.MeetsOutside := by
  intro t tile w p htile hp
  rw [htiles] at htile
  obtain ⟨pin, hpin, hw, hsite⟩ := h t tile w p htile hp
  obtain ⟨site, hsite, ht⟩ := Option.map_eq_some_iff.1 hsite
  exact ⟨pin, hkeeps.sitePin p pin hpin, hw,
    Option.map_eq_some_iff.2 ⟨site, hkeeps.site _ _ hsite, ht⟩⟩

theorem MeetsOutside.addSitePin (h : d.MeetsOutside) {s : SiteId} {t : TileId}
    (hs : (d.site? s).map Site.tile = some t) (p : SitePinDescription) :
    (d.addSitePin s t p).MeetsOutside := by
  intro t' tile w q htile hq
  have hold : ∀ tile, d.tile? t' = some tile → tile.sitePins[w]? = some q →
      ∃ pin, (d.addSitePin s t p).sitePin? q = some pin ∧ pin.external = w ∧
        (d.site? pin.site).map Site.tile = some t' := by
    intro tile htile hq
    obtain ⟨pin, hpin, hw, hsite⟩ := h t' tile w q htile hq
    exact ⟨pin, (keeps_addSitePin d s t p).sitePin q pin hpin, hw, hsite⟩
  unfold tile? Device.addSitePin at htile
  rw [Array.getElem?_modify] at htile
  split at htile
  next ht =>
    obtain ⟨before, hbefore, rfl⟩ := Option.map_eq_some_iff.1 htile
    dsimp only at hq
    rw [Std.ExtTreeMap.getElem?_insert] at hq
    split at hq
    next heq =>
      cases hq
      obtain rfl := Std.LawfulEqCmp.compare_eq_iff_eq.1 heq
      refine ⟨_, Array.getElem?_push.trans (if_pos rfl), rfl, hs.trans ?_⟩
      exact congrArg some (Key.ext ht)
    next => exact hold before hbefore hq
  next => exact hold tile htile hq

theorem MeetsOutside.addSitePins {s : SiteId} {t : TileId} (pins : List SitePinDescription)
    (h : d.MeetsOutside) (hs : (d.site? s).map Site.tile = some t) :
    (pins.foldl (fun d p => d.addSitePin s t p) d).MeetsOutside := by
  induction pins generalizing d with
  | nil => exact h
  | cons p pins ih => exact ih (h.addSitePin hs p) hs

/-! ## Loaded devices -/

/-- The tables of the site types and tiles give the pins that are on their wires. -/
structure PinsMatch (d : Device) : Prop where
  terminals : ∀ type ∈ d.siteTypes, ∀ (w : WireName) (i : Nat), type.terminals[w]? = some i →
    ∃ p, type.belPins[i]? = some p ∧ d.names.get p.wire = w
  exits : ∀ type ∈ d.siteTypes, ∀ (w : WireName) (i : Nat), type.exits[w]? = some i →
    ∃ p, type.pins[i]? = some p ∧ d.names.get p.internal = w
  belPins : ∀ s site type, d.site? s = some site → d.siteTypes[site.type.index]? = some type →
    d.HasBelPins s site.firstBelPin type.belPins
  sitePins : ∀ s site type, d.site? s = some site → d.siteTypes[site.type.index]? = some type →
    d.HasSitePins s site.firstSitePin type.pins
  outside : d.MeetsOutside

theorem tables_of_siteType {names : NameTable} {t : SiteTypeDescription} {type : SiteType}
    (h : SiteType.ofDescription names t = .ok type) :
    (∀ (w : WireName) (i : Nat), type.terminals[w]? = some i →
      ∃ p, type.belPins[i]? = some p ∧ names.get p.wire = w) ∧
    ∀ (w : WireName) (i : Nat), type.exits[w]? = some i →
      ∃ p, type.pins[i]? = some p ∧ names.get p.internal = w := by
  unfold SiteType.ofDescription at h
  obtain ⟨belIndex, -, h⟩ := Checked.bind_eq_ok.1 h
  obtain ⟨pinIndex, -, h⟩ := Checked.bind_eq_ok.1 h
  obtain ⟨entries, -, h⟩ := Checked.bind_eq_ok.1 h
  cases h
  constructor
  · intro w i hi
    obtain ⟨⟨p, j⟩, hp, heq⟩ := List.mem_map.1 (mem_of_getElem?_ofList hi)
    obtain ⟨rfl, rfl⟩ := Prod.mk.inj heq
    exact ⟨p, List.mem_zipIdx_iff_getElem?.1 (List.mem_filter.1 hp).1, rfl⟩
  · intro w i hi
    obtain ⟨⟨p, j⟩, hp, heq⟩ := List.mem_map.1 (mem_of_getElem?_ofList hi)
    obtain ⟨rfl, rfl⟩ := Prod.mk.inj heq
    exact ⟨p, List.mem_zipIdx_iff_getElem?.1 (List.mem_filter.1 hp).1, rfl⟩

theorem PinsMatch.addSiteType (hd : d.PinsMatch) (hsites : d.sites = #[]) {t : SiteTypeDescription}
    (h : d.addSiteType t = .ok d') : d'.PinsMatch ∧ d'.sites = #[] := by
  unfold Device.addSiteType at h
  obtain ⟨index, -, h⟩ := Checked.bind_eq_ok.1 h
  obtain ⟨type, htype, h⟩ := Checked.bind_eq_ok.1 h
  cases h
  obtain ⟨hterminals, hexits⟩ := tables_of_siteType htype
  refine ⟨⟨?_, ?_, ?_, ?_, hd.outside⟩, hsites⟩
  · rintro type' htype'
    rcases Array.mem_push.1 htype' with hold | rfl
    · exact hd.terminals type' hold
    · exact hterminals
  · rintro type' htype'
    rcases Array.mem_push.1 htype' with hold | rfl
    · exact hd.exits type' hold
    · exact hexits
  · intro s site type hs
    simp [site?, hsites] at hs
  · intro s site type hs
    simp [site?, hsites] at hs

theorem tile?_addBels (s : SiteId) (bels : List BelDescription) (d : Device) (t : TileId) :
    (bels.foldl (fun d b => d.addBel s b) d).tile? t = d.tile? t := by
  induction bels generalizing d with
  | nil => rfl
  | cons b bels ih => exact ih (d.addBel s b)

theorem sites_addBels (s : SiteId) (bels : List BelDescription) (d : Device) :
    (bels.foldl (fun d b => d.addBel s b) d).sites = d.sites := by
  induction bels generalizing d with
  | nil => rfl
  | cons b bels ih => exact ih (d.addBel s b)

theorem sitePins_addBels (s : SiteId) (bels : List BelDescription) (d : Device) :
    (bels.foldl (fun d b => d.addBel s b) d).sitePins = d.sitePins := by
  induction bels generalizing d with
  | nil => rfl
  | cons b bels ih => exact ih (d.addBel s b)

theorem sites_addSitePins (s : SiteId) (t : TileId) (pins : List SitePinDescription) (d : Device) :
    (pins.foldl (fun d p => d.addSitePin s t p) d).sites = d.sites := by
  induction pins generalizing d with
  | nil => rfl
  | cons p pins ih => exact ih (d.addSitePin s t p)

/-- A new site gets the pins of its type, numbered from the first free numbers on. -/
theorem PinsMatch.fillSite (hd : d.PinsMatch) (new : Site) {type : SiteType}
    (htype : d.siteTypes[new.type.index]? = some type) (hbels : new.firstBelPin = d.belPins.size)
    (hpins : new.firstSitePin = d.sitePins.size) {s : SiteId} (hs : s = ⟨d.sites.size⟩)
    (siteIndex : Table String SiteId) :
    (type.pins.foldl (fun (d : Device) p => d.addSitePin s new.tile p)
      (type.bels.foldl (fun (d : Device) b => d.addBel s b)
        { d with siteIndex, sites := d.sites.push new })).PinsMatch := by
  let opened : Device := { d with siteIndex, sites := d.sites.push new }
  let filled := type.bels.foldl (fun d b => d.addBel s b) opened
  let done := type.pins.foldl (fun d p => d.addSitePin s new.tile p) filled
  have hopens : d.Keeps opened :=
    { Keeps.refl d with site := fun _ _ hs => getElem?_push_of_some hs _ }
  have hfills : opened.Keeps filled := keeps_addBels s type.bels opened
  have hends : filled.Keeps done := keeps_addSitePins s new.tile type.pins filled
  have hkeeps := (hopens.trans hfills).trans hends
  have hnew : opened.site? s = some new := Array.getElem?_push.trans (if_pos (by rw [hs]))
  have hbelPins : done.HasBelPins s new.firstBelPin type.belPins := by
    rw [hbels]
    exact (hasBelPins_addBels s type.bels opened).keep hends
  have hsitePins : done.HasSitePins s new.firstSitePin type.pins := by
    have hadded := hasSitePins_addSitePins s new.tile type.pins filled
    rw [sitePins_addBels] at hadded
    rw [hpins]
    exact hadded
  have hmeets : filled.MeetsOutside :=
    (hd.outside.keep hopens fun _ => rfl).keep hfills (tile?_addBels s type.bels opened)
  have hcases : ∀ k site, done.site? k = some site →
      k = s ∧ site = new ∨ d.site? k = some site := by
    intro k site hk
    unfold site? at hk
    rw [sites_addSitePins, sites_addBels, Array.getElem?_push] at hk
    split at hk
    next hindex => exact .inl ⟨(Key.ext hindex).trans hs.symm, (Option.some.inj hk).symm⟩
    next => exact .inr hk
  refine ⟨?_, ?_, ?_, ?_, hmeets.addSitePins type.pins ?_⟩
  · rw [hkeeps.siteTypes, hkeeps.names]
    exact hd.terminals
  · rw [hkeeps.siteTypes, hkeeps.names]
    exact hd.exits
  · intro k site type' hk htype'
    rw [hkeeps.siteTypes] at htype'
    rcases hcases k site hk with ⟨rfl, rfl⟩ | hold
    · obtain rfl : type = type' := Option.some.inj (htype.symm.trans htype')
      exact hbelPins
    · exact (hd.belPins k site type' hold htype').keep hkeeps
  · intro k site type' hk htype'
    rw [hkeeps.siteTypes] at htype'
    rcases hcases k site hk with ⟨rfl, rfl⟩ | hold
    · obtain rfl : type = type' := Option.some.inj (htype.symm.trans htype')
      exact hsitePins
    · exact (hd.sitePins k site type' hold htype').keep hkeeps
  · rw [hfills.site s new hnew]
    rfl

theorem PinsMatch.addSite (hd : d.PinsMatch) {desc : SiteDescription}
    (h : d.addSite desc = .ok d') : d'.PinsMatch := by
  obtain ⟨siteIndex, tile, typeId, type, -, -, -, htype, rfl⟩ := addSite_eq_ok.1 h
  let bels := (List.range type.bels.length).map fun i => (⟨d.bels.size + i⟩ : BelId)
  exact hd.fillSite ⟨desc.name, typeId, tile, bels, d.belPins.size, d.sitePins.size⟩ htype
    rfl rfl rfl siteIndex

theorem pinsMatch_of_ofDescription {desc : DeviceDescription} (h : ofDescription desc = .ok d) :
    d.PinsMatch := by
  unfold ofDescription at h
  obtain ⟨index, -, h⟩ := Checked.bind_eq_ok.1 h
  obtain ⟨tiles, htiles, h⟩ := Checked.bind_eq_ok.1 h
  obtain ⟨typed, htyped, h⟩ := Checked.bind_eq_ok.1 h
  have htyped' : typed.PinsMatch ∧ typed.sites = #[] := by
    refine Checked.foldlM_keeps (fun d => d.PinsMatch ∧ d.sites = #[])
      (fun _ _ _ _ hd hstep => hd.1.addSiteType hd.2 hstep) ⟨?_, rfl⟩ htyped
    refine ⟨by simp, by simp, by simp [site?], by simp [site?], ?_⟩
    intro t tile w p htile hp
    have hmem : tile ∈ tiles := List.mem_toArray.1 (Array.mem_of_getElem? htile)
    obtain ⟨⟨desc, i⟩, -, hbuilt⟩ := Checked.exists_of_mem_mapM htiles hmem
    unfold Tile.ofDescription at hbuilt
    obtain ⟨entries, -, hbuilt⟩ := Checked.bind_eq_ok.1 hbuilt
    cases hbuilt
    simp at hp
  exact Checked.foldlM_keeps PinsMatch (fun _ _ _ _ hd hstep => hd.addSite hstep) htyped'.1 h

/-! ## Pins found by wires -/

namespace PinsMatch

variable (hd : d.PinsMatch)

include hd

theorem isSome_belPin?_of_terminal? {w : Wire} {p : BelPinId} (h : d.terminal? w = some p) :
    (d.belPin? p).isSome := by
  cases w with
  | tile t w => cases h
  | site s w =>
    unfold terminal? at h
    simp only [Option.bind_eq_bind, Option.bind_eq_some_iff, Option.pure_def,
      Option.some.injEq] at h
    obtain ⟨type, htype, i, hi, site, hsite, rfl⟩ := h
    unfold siteType? at htype
    rw [hsite, Option.bind_some] at htype
    obtain ⟨desc, hdesc, -⟩ := hd.terminals type (Array.mem_of_getElem? htype) w i hi
    obtain ⟨b, hpin, -⟩ := hd.belPins s site type hsite htype i desc hdesc
    rw [hpin]
    rfl

theorem belPinWire_of_terminal? {w : Wire} {p : BelPinId} (h : d.terminal? w = some p) :
    d.belPinWire p = w := by
  cases w with
  | tile t w => cases h
  | site s w =>
    unfold terminal? at h
    simp only [Option.bind_eq_bind, Option.bind_eq_some_iff, Option.pure_def,
      Option.some.injEq] at h
    obtain ⟨type, htype, i, hi, site, hsite, rfl⟩ := h
    unfold siteType? at htype
    rw [hsite, Option.bind_some] at htype
    obtain ⟨desc, hdesc, rfl⟩ := hd.terminals type (Array.mem_of_getElem? htype) w i hi
    obtain ⟨b, hpin, hbel⟩ := hd.belPins s site type hsite htype i desc hdesc
    unfold belPinWire belPinSite belSite belPinBel
    rw [hpin]
    simp only [Option.map_some, Option.getD_some, hbel]

theorem internalWire_of_pinAhead? {s : SiteId} {w : WireName} {p : SitePinId}
    (h : d.pinAhead? (.site s w) = some p) : d.internalWire p = .site s w := by
  unfold pinAhead? at h
  simp only [Option.bind_eq_bind, Option.bind_eq_some_iff, Option.pure_def, Option.some.injEq] at h
  obtain ⟨type, htype, i, hi, site, hsite, rfl⟩ := h
  unfold siteType? at htype
  rw [hsite, Option.bind_some] at htype
  obtain ⟨desc, hdesc, rfl⟩ := hd.exits type (Array.mem_of_getElem? htype) w i hi
  unfold internalWire sitePinSite
  rw [hd.sitePins s site type hsite htype i desc hdesc]
  rfl

theorem externalWire_of_pinAhead? {t : TileId} {w : WireName} {p : SitePinId}
    (h : d.pinAhead? (.tile t w) = some p) : d.externalWire p = .tile t w := by
  unfold pinAhead? at h
  simp only [Option.bind_eq_bind, Option.bind_eq_some_iff, Option.guard_eq_some', Option.pure_def,
    Option.some.injEq] at h
  obtain ⟨tile, htile, q, hq, -, -, rfl⟩ := h
  obtain ⟨pin, hpin, rfl, hsite⟩ := hd.outside t tile w q htile hq
  unfold externalWire siteTile sitePinSite
  rw [hpin]
  simp only [Option.map_some, Option.getD_some, hsite]

end PinsMatch

end Device

end Fabric
