import Fabric.Proofs.Record.Lines
import Fabric.Proofs.SiteRoute.Indexed
import Fabric.Proofs.Record.Progress
/-!
# The trees that records note

Whatever records do, the places that a net notes are those of its trees, and the tree at a place
that is noted for a pin comes to the wire of the pin.
-/

namespace Fabric

namespace Record

variable {d : Device} {desc : DeviceDescription} {im im' : Importer}

/-! ## Searches -/

theorem covers_found (hd : Device.ofDescription desc = .ok d) (im : Importer) (n : NetId)
    (source : SiteRoute.Source) : (im.found d n source).Covers d where
  sitePin pin allowUnused hsource := by
    rw [(im.origin_found d n source).2] at hsource
    subst hsource
    exact RouteTree.mem_wires.2 ⟨0, root_of_found hd im n _⟩
  exits p hp := by
    have hfinds := finds_found hd im n source
    obtain ⟨w, hreaches, hleaves⟩ := (hfinds.sitePins p).1 hp
    obtain ⟨i, -, hw, -⟩ := (hfinds.leaves w).2 ⟨hreaches, .inr ⟨p, hleaves⟩⟩
    have hmem : w ∈ (im.found d n source).tree.wires := RouteTree.mem_wires.2 ⟨i, hw⟩
    obtain ⟨v, rfl⟩ := hfinds.inside w hmem
    obtain ⟨-, -, hpin, -⟩ := hleaves
    rw [(Device.pinsMatch_of_ofDescription hd).internalWire_of_pinAhead? hpin]
    exact hmem
  belPins b hb := by
    obtain ⟨w, hend, hterminal, -⟩ := sink_of_found hd im n source hb
    rw [(Device.pinsMatch_of_ofDescription hd).belPinWire_of_terminal? hterminal]
    exact hend.mem_wires

/-! ## Records -/

theorem Notes.indexed {settled : Prop} {f : Net → Net} (hf : Notes settled f) {net : Net}
    (h : net.Indexed d) : (f net).Indexed d := by
  cases hf with
  | leave p => exact h.addSourceSitePin p
  | stay p => exact { h with }
  | lead t => exact { h with }
  | inside => exact { h with }
  | status => exact { h with }

theorem Adds.indexed {S : NetId → Prop} {C : Prop} (hd : Device.ofDescription desc = .ok d)
    (hadds : Adds d S C im im') (h : im.netlist.Indexed d) : im'.netlist.Indexed d := by
  cases hadds with
  | enter _ _ happly hmark =>
    have hmid := SiteRoute.indexed_of_apply happly (covers_found hd im _ _) h
    exact SiteRoute.indexed_of_markRouted hmark hmid
  | await _ happly => exact SiteRoute.indexed_of_apply happly (covers_found hd im _ _) h
  | arrive _ hmark => exact SiteRoute.indexed_of_markRouted hmark h
  | note hf _ => exact h.modifyNet _ fun _ => hf.indexed
  | choose => exact h.repins (.of_eq rfl)
  | pass => exact h
  | tieOff isVcc => cases isVcc <;> exact h
  | portNode => exact h.repins (.of_eq rfl)

theorem maintains_indexed (hd : Device.ofDescription desc = .ok d) :
    Maintains d fun im => im.netlist.Consistent ∧ im.netlist.Indexed d where
  consistent _ h := h.1
  adds _ _ h hadds := ⟨hadds.consistent h.1, hadds.indexed hd h.2⟩
  bounds _ _ h hbounds := ⟨hbounds.consistent h.1, h.2.repins hbounds.repins⟩
  ties _ _ _ _ h hties := ⟨hties.consistent h.1, h.2.repins (hties.repins h.1)⟩

end Record

namespace Netlist

variable {d : Device} {nl : Netlist}

theorem Bare.indexed (h : nl.Bare) (d : Device) : nl.Indexed d := by
  intro n net hn
  obtain ⟨name, kind, pins, source, rfl⟩ := h n net hn
  exact (Net.Indexed.of_bare d name kind).repins ⟨pins, source, _, rfl⟩

theorem exists_notedTree {n : NetId} {net : Net} (hn : nl.net? n = some net)
    {place : Net → Option Nat} (hplace : ∀ i, place net = some i → i < net.intrasite.length) :
    ∃ t?, nl.notedTree n place = .ok t? ∧ (t? = none ↔ place net = none) ∧
      ∀ t, t? = some t → ∃ i, place net = some i ∧ net.intrasite[i]? = some t := by
  unfold notedTree
  rw [getNet_eq_ok.2 hn, Checked.ok_bind]
  cases hi : place net with
  | none => exact ⟨none, rfl, by simp, by simp⟩
  | some i =>
    have hget := List.getElem?_eq_getElem (hplace i hi)
    simp only [hget]
    exact ⟨_, rfl, by simp, fun t ht => ⟨i, rfl, hget.trans ht⟩⟩

theorem exists_notedTree_of_holdsAt {n : NetId} {net : Net} (hn : nl.net? n = some net) {w : Wire}
    {place : Net → Option Nat} (hplace : ∀ i, place net = some i → net.HoldsAt i w) :
    ∃ t?, nl.notedTree n place = .ok t? ∧ (t? = none ↔ place net = none) ∧
      ∀ t, t? = some t → t ∈ net.intrasite ∧ w ∈ t.wires := by
  obtain ⟨t?, ht, hnone, htree⟩ := exists_notedTree hn fun i hi => (hplace i hi).lt_length
  refine ⟨t?, ht, hnone, fun t heq => ?_⟩
  obtain ⟨i, hi, hget⟩ := htree t heq
  obtain ⟨t', hget', hw⟩ := hplace i hi
  obtain rfl : t = t' := Option.some.inj (hget.symm.trans hget')
  exact ⟨List.mem_of_getElem? hget, hw⟩

end Netlist

namespace Record

variable {d : Device} {im : Importer}

/-- A net has each of its trees inside sites once. What it notes are places of trees, asking for
which does not fail, and the trees that are noted for pins come to the wires of the pins. -/
theorem notedTrees_sound {desc : DeviceDescription} (hd : Device.ofDescription desc = .ok d)
    {netlist : NetlistDescription} {nl : Netlist} (hnl : Netlist.ofDescription d netlist = .ok nl)
    {text : String} (hreaches : (Importer.ofNetlist nl).Reaches d text im) {n : NetId} {net : Net}
    (hn : im.netlist.net? n = some net) :
    net.intrasite.Nodup ∧
    (∀ i, net.sourceRoute = some i → i < net.intrasite.length) ∧
    (∀ (p : SitePinId) (i : Nat), net.sitePinRoutes[p]? = some i → i < net.intrasite.length) ∧
    (∀ (b : BelPinId) (i : Nat), net.belPinRoutes[b]? = some i → i < net.intrasite.length) ∧
    (∃ t?, im.netlist.sourceTree n = .ok t? ∧ (t? = none ↔ net.sourceRoute = none)) ∧
    (∀ p, ∃ t?, im.netlist.sitePinTree n p = .ok t? ∧
      (t? = none ↔ net.sitePinRoutes[p]? = none) ∧
      ∀ t, t? = some t → t ∈ net.intrasite ∧ d.internalWire p ∈ t.wires) ∧
    ∀ b, ∃ t?, im.netlist.belPinTree n b = .ok t? ∧
      (t? = none ↔ net.belPinRoutes[b]? = none) ∧
      ∀ t, t? = some t → t ∈ net.intrasite ∧ d.belPinWire b ∈ t.wires := by
  have hloaded : (Importer.ofNetlist nl).netlist.Consistent :=
    (Netlist.closed_of_ofDescription hnl).toConsistent
  have hbare : (Importer.ofNetlist nl).netlist.Bare := Netlist.bare_of_ofDescription hnl
  have hkept := (maintains_indexed hd).reaches ⟨hloaded, hbare.indexed d⟩ hreaches
  have hnet : net.Indexed d := hkept.2 n net hn
  refine ⟨hnet.once, hnet.source, fun p i hi => (hnet.sitePins p i hi).lt_length,
    fun b i hi => (hnet.belPins b i hi).lt_length, ?_, fun p => ?_, fun b => ?_⟩
  · obtain ⟨t?, ht, hnone, -⟩ := Netlist.exists_notedTree hn hnet.source
    exact ⟨t?, ht, hnone⟩
  · exact Netlist.exists_notedTree_of_holdsAt hn (hnet.sitePins p)
  · exact Netlist.exists_notedTree_of_holdsAt hn (hnet.belPins b)

/-- A net that waits at a site pin has noted its one tree for the pin and the input behind it. -/
theorem notedTrees_sound_twoPorts : ∃ d nl im net, Device.ofDescription inlet = .ok d ∧
    Netlist.ofDescription d twoPorts = .ok nl ∧
    (Importer.ofNetlist nl).Reaches d "INTERSITE a S/A" im ∧ im.netlist.net? ⟨2⟩ = some net ∧
    net.intrasite.Nodup ∧
    (∃ t, im.netlist.sitePinTree ⟨2⟩ ⟨0⟩ = .ok (some t) ∧ d.internalWire ⟨0⟩ ∈ t.wires) ∧
    ∃ t, im.netlist.belPinTree ⟨2⟩ ⟨0⟩ = .ok (some t) ∧ d.belPinWire ⟨0⟩ ∈ t.wires := by
  have hrun : (do
      let d ← (Device.ofDescription inlet).toOption
      let nl ← (Netlist.ofDescription d twoPorts).toOption
      let (_, im) ← ((Importer.ofNetlist nl).importText d "INTERSITE a S/A").toOption
      let net ← im.netlist.net? ⟨2⟩
      return (net.sitePinRoutes[(⟨0⟩ : SitePinId)]?, net.belPinRoutes[(⟨0⟩ : BelPinId)]?)) =
        some (some 0, some 0) := by
    decide +kernel
  simp only [Option.bind_eq_bind, Option.bind_eq_some_iff, Checked.toOption_eq_some,
    Option.pure_def, Option.some.injEq, Prod.mk.injEq] at hrun
  obtain ⟨d, hd, nl, hnl, ⟨r, im⟩, hrun, net, hnet, hsitePin, hbelPin⟩ := hrun
  have hreaches : (Importer.ofNetlist nl).Reaches d "INTERSITE a S/A" im := .text hrun
  obtain ⟨honce, -, -, -, -, hsitePins, hbelPins⟩ := notedTrees_sound hd hnl hreaches hnet
  refine ⟨d, nl, im, net, hd, hnl, hreaches, hnet, honce, ?_, ?_⟩
  · obtain ⟨_ | t, ht, hnone, htree⟩ := hsitePins ⟨0⟩
    · rw [hnone.1 rfl] at hsitePin
      cases hsitePin
    · exact ⟨t, ht, (htree t rfl).2⟩
  · obtain ⟨_ | t, ht, hnone, htree⟩ := hbelPins ⟨0⟩
    · rw [hnone.1 rfl] at hbelPin
      cases hbelPin
    · exact ⟨t, ht, (htree t rfl).2⟩

end Record

end Fabric
