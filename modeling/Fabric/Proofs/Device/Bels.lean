import Fabric.Proofs.Device.Pins
/-!
# BELs and their pins

A BEL lists its pins, and a BEL pin names its BEL. In a loaded device the two agree.
-/

namespace Fabric.Device

variable {d d' : Device}

structure OwnsPins (d : Device) : Prop where
  listed : ∀ p pin, d.belPin? p = some pin → ∃ bel, d.bel? pin.bel = some bel ∧ p ∈ bel.pins
  named : ∀ b bel p, d.bel? b = some bel → p ∈ bel.pins →
    ∃ pin, d.belPin? p = some pin ∧ pin.bel = b

namespace OwnsPins

theorem congr (h : d.OwnsPins) (hbels : d'.bels = d.bels) (hpins : d'.belPins = d.belPins) :
    d'.OwnsPins := by
  constructor
  · unfold belPin? bel?
    rw [hbels, hpins]
    exact h.listed
  · unfold belPin? bel?
    rw [hbels, hpins]
    exact h.named

theorem addBel (h : d.OwnsPins) (s : SiteId) (b : BelDescription) : (d.addBel s b).OwnsPins := by
  have hkeeps := keeps_addBel d s b
  have hnew : (d.addBel s b).bel? ⟨d.bels.size⟩ =
      some ⟨b.name, s, (List.range b.pins.length).map fun i => ⟨d.belPins.size + i⟩⟩ :=
    Array.getElem?_push.trans (if_pos rfl)
  constructor
  · intro p pin hp
    unfold belPin? Device.addBel at hp
    rw [Array.getElem?_append] at hp
    split at hp
    · obtain ⟨bel, hbel, hmem⟩ := h.listed p pin hp
      exact ⟨bel, hkeeps.bel _ bel hbel, hmem⟩
    next hge =>
      rw [List.getElem?_toArray, List.getElem?_map] at hp
      obtain ⟨desc, hdesc, rfl⟩ := Option.map_eq_some_iff.1 hp
      have hlt := (List.getElem?_eq_some_iff.1 hdesc).1
      refine ⟨_, hnew, List.mem_map.2 ⟨p.index - d.belPins.size, List.mem_range.2 hlt, ?_⟩⟩
      exact Key.ext (Nat.add_sub_cancel' (Nat.le_of_not_lt hge))
  · intro k bel p hk hp
    unfold bel? at hk
    unfold Device.addBel at hk
    rw [Array.getElem?_push] at hk
    split at hk
    next heq =>
      cases hk
      obtain ⟨i, hi, rfl⟩ := List.mem_map.1 hp
      obtain ⟨desc, hdesc⟩ : ∃ desc, b.pins[i]? = some desc :=
        ⟨_, List.getElem?_eq_getElem (List.mem_range.1 hi)⟩
      refine ⟨⟨desc.name, ⟨d.bels.size⟩, desc.dir, d.names.get desc.wire⟩, ?_, Key.ext heq.symm⟩
      unfold belPin? Device.addBel
      rw [Array.getElem?_append, if_neg (by simp), Nat.add_sub_cancel_left, List.getElem?_toArray,
        List.getElem?_map, hdesc]
      rfl
    next =>
      obtain ⟨pin, hpin, hbel⟩ := h.named k bel p hk hp
      exact ⟨pin, hkeeps.belPin p pin hpin, hbel⟩

theorem addBels (s : SiteId) (bels : List BelDescription) (h : d.OwnsPins) :
    (bels.foldl (fun d b => d.addBel s b) d).OwnsPins := by
  induction bels generalizing d with
  | nil => exact h
  | cons b bels ih => exact ih (h.addBel s b)

theorem addSitePins (s : SiteId) (t : TileId) (pins : List SitePinDescription) (h : d.OwnsPins) :
    (pins.foldl (fun d p => d.addSitePin s t p) d).OwnsPins := by
  induction pins generalizing d with
  | nil => exact h
  | cons p pins ih => exact ih (h.congr rfl rfl)

theorem addSite (h : d.OwnsPins) {desc : SiteDescription} (hadd : d.addSite desc = .ok d') :
    d'.OwnsPins := by
  obtain ⟨siteIndex, tile, typeId, type, -, -, -, -, rfl⟩ := addSite_eq_ok.1 hadd
  exact addSitePins _ _ _ (addBels _ _ (h.congr rfl rfl))

theorem addSiteType (h : d.OwnsPins) {desc : SiteTypeDescription}
    (hadd : d.addSiteType desc = .ok d') : d'.OwnsPins := by
  unfold Device.addSiteType at hadd
  obtain ⟨index, -, hadd⟩ := Checked.bind_eq_ok.1 hadd
  obtain ⟨type, -, hadd⟩ := Checked.bind_eq_ok.1 hadd
  cases hadd
  exact h.congr rfl rfl

end OwnsPins

theorem ownsPins_of_ofDescription {desc : DeviceDescription} (h : ofDescription desc = .ok d) :
    d.OwnsPins := by
  unfold ofDescription at h
  obtain ⟨index, -, h⟩ := Checked.bind_eq_ok.1 h
  obtain ⟨tiles, -, h⟩ := Checked.bind_eq_ok.1 h
  obtain ⟨typed, htyped, h⟩ := Checked.bind_eq_ok.1 h
  have htyped' : typed.OwnsPins := Checked.foldlM_keeps OwnsPins
    (fun _ _ _ _ hd hstep => hd.addSiteType hstep) ⟨by simp [belPin?], by simp [bel?]⟩ htyped
  exact Checked.foldlM_keeps OwnsPins (fun _ _ _ _ hd hstep => hd.addSite hstep) htyped' h

theorem OwnsPins.belPinBel_eq (h : d.OwnsPins) {b : BelId} {p : BelPinId}
    (hp : p ∈ d.pinsOfBel b) : d.belPinBel p = b := by
  unfold pinsOfBel at hp
  cases hbel : d.bel? b with
  | none =>
    rw [hbel] at hp
    cases hp
  | some bel =>
    rw [hbel, Option.map_some, Option.getD_some] at hp
    obtain ⟨pin, hpin, rfl⟩ := h.named b bel p hbel hp
    unfold belPinBel
    rw [hpin, Option.map_some, Option.getD_some]

theorem OwnsPins.mem_pinsOfBel (h : d.OwnsPins) {p : BelPinId} (hp : (d.belPin? p).isSome) :
    p ∈ d.pinsOfBel (d.belPinBel p) := by
  obtain ⟨pin, hpin⟩ := Option.isSome_iff_exists.1 hp
  obtain ⟨bel, hbel, hmem⟩ := h.listed p pin hpin
  unfold pinsOfBel belPinBel
  rw [hpin, Option.map_some, Option.getD_some, hbel, Option.map_some, Option.getD_some]
  exact hmem

end Fabric.Device
