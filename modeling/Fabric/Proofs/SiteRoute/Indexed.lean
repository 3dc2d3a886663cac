import Fabric.Proofs.Device.Pins
import Fabric.Proofs.Netlist.Repinning
import Fabric.Proofs.SiteRoute.Entering
/-!
# The trees that a net has noted

A net keeps each tree inside a site once and notes its place for the pins that the tree comes to.
Entering a route keeps all places right: there is a tree, and it holds the wire of the pin.
-/

namespace Fabric

open Relation (ReflTransGen)

def Net.HoldsAt (net : Net) (i : Nat) (w : Wire) : Prop :=
  ∃ t, net.intrasite[i]? = some t ∧ w ∈ t.wires

structure Net.Indexed (d : Device) (net : Net) : Prop where
  once : net.intrasite.Nodup
  source : ∀ i, net.sourceRoute = some i → i < net.intrasite.length
  sitePins : ∀ (p : SitePinId) (i : Nat), net.sitePinRoutes[p]? = some i →
    net.HoldsAt i (d.internalWire p)
  belPins : ∀ (b : BelPinId) (i : Nat), net.belPinRoutes[b]? = some i →
    net.HoldsAt i (d.belPinWire b)

namespace Net

variable {d : Device} {net net' : Net} {t : RouteTree} {i : Nat} {w : Wire}

theorem HoldsAt.lt_length (h : net.HoldsAt i w) : i < net.intrasite.length := by
  obtain ⟨t, ht, -⟩ := h
  exact (List.getElem?_eq_some_iff.1 ht).1

theorem HoldsAt.extend (h : net.HoldsAt i w) (hgrows : net.intrasite <+: net'.intrasite) :
    net'.HoldsAt i w := by
  have hi := h.lt_length
  obtain ⟨t, ht, hw⟩ := h
  obtain ⟨more, hmore⟩ := hgrows
  refine ⟨t, ?_, hw⟩
  rw [← hmore, List.getElem?_append_left hi]
  exact ht

theorem getElem?_addIntrasite (net : Net) (t : RouteTree) :
    (net.addIntrasite t).intrasite[net.intrasiteIndex t]? = some t := by
  unfold addIntrasite intrasiteIndex
  by_cases hmem : t ∈ net.intrasite
  · obtain ⟨i, hi⟩ := Option.isSome_iff_exists.1 (List.isSome_idxOf?.2 hmem)
    obtain ⟨hlt, hget, -⟩ := List.idxOf?_eq_some_iff.1 hi
    rw [if_pos (List.contains_iff_mem.2 hmem), hi, Option.getD_some, ← hget]
    exact List.getElem?_eq_getElem hlt
  · rw [if_neg (by simpa using hmem), List.idxOf?_eq_none_iff.2 hmem, Option.getD_none]
    exact List.getElem?_concat_length

theorem holdsAt_addIntrasite (net : Net) (hw : w ∈ t.wires) :
    (net.addIntrasite t).HoldsAt (net.intrasiteIndex t) w :=
  ⟨t, getElem?_addIntrasite net t, hw⟩

namespace Indexed

theorem of_bare (d : Device) (name : String) (kind : NetKind) : Net.Indexed d { name, kind } where
  once := List.nodup_nil
  source _ hi := by cases hi
  sitePins p i hi := by simp at hi
  belPins b i hi := by simp at hi

theorem repins (h : net.Indexed d) (hrepins : net.Repins net') : net'.Indexed d := by
  obtain ⟨_, _, _, rfl⟩ := hrepins
  exact ⟨h.once, h.source, h.sitePins, h.belPins⟩

theorem addIntrasite (h : net.Indexed d) (t : RouteTree) : (net.addIntrasite t).Indexed d := by
  by_cases hmem : net.intrasite.contains t
  · rw [Net.addIntrasite, if_pos hmem]
    exact h
  · have hprefix : net.intrasite <+: net.intrasite ++ [t] := List.prefix_append _ _
    rw [Net.addIntrasite, if_neg hmem]
    refine ⟨?_, fun i hi => ?_, fun p i hi => ?_, fun b i hi => ?_⟩
    · refine List.nodup_append.2 ⟨h.once, by simp, ?_⟩
      rintro a ha b hb rfl
      rw [List.mem_singleton.1 hb] at ha
      exact hmem (List.contains_iff_mem.2 ha)
    · exact Nat.lt_of_lt_of_le (h.source i hi) hprefix.length_le
    · exact (h.sitePins p i hi).extend hprefix
    · exact (h.belPins b i hi).extend hprefix

theorem setSourceRoute (h : net.Indexed d) (hi : i < net.intrasite.length) :
    (net.setSourceRoute i).Indexed d :=
  { h with
    source := fun j hj => by
      obtain rfl : i = j := Option.some.inj hj
      exact hi }

theorem setSitePinRoute (h : net.Indexed d) {p : SitePinId}
    (hp : net.HoldsAt i (d.internalWire p)) : (net.setSitePinRoute p i).Indexed d :=
  { h with
    sitePins := fun q j hj => by
      unfold Net.setSitePinRoute at hj
      rw [Std.ExtTreeMap.getElem?_insert] at hj
      split at hj
      next heq =>
        obtain rfl := Std.LawfulEqCmp.compare_eq_iff_eq.1 heq
        obtain rfl : i = j := Option.some.inj hj
        exact hp
      next => exact h.sitePins q j hj }

theorem setBelPinRoute (h : net.Indexed d) {b : BelPinId} (hb : net.HoldsAt i (d.belPinWire b)) :
    (net.setBelPinRoute b i).Indexed d :=
  { h with
    belPins := fun c j hj => by
      unfold Net.setBelPinRoute at hj
      rw [Std.ExtTreeMap.getElem?_insert] at hj
      split at hj
      next heq =>
        obtain rfl := Std.LawfulEqCmp.compare_eq_iff_eq.1 heq
        obtain rfl : i = j := Option.some.inj hj
        exact hb
      next => exact h.belPins c j hj }

theorem addSourceSitePin (h : net.Indexed d) (p : SitePinId) :
    (net.addSourceSitePin p).Indexed d := by
  unfold Net.addSourceSitePin
  split
  · exact h
  · exact { h with }

theorem setSitePinRoutes (h : net.Indexed d) {pins : List SitePinId}
    (hpins : ∀ p ∈ pins, net.HoldsAt i (d.internalWire p)) :
    (pins.foldl (fun net p => net.setSitePinRoute p i) net).Indexed d := by
  induction pins generalizing net with
  | nil => exact h
  | cons p pins ih =>
    obtain ⟨hp, hrest⟩ := List.forall_mem_cons.1 hpins
    exact ih (h.setSitePinRoute hp) hrest

theorem addSourceSitePins (h : net.Indexed d) (pins : List SitePinId) :
    (pins.foldl Net.addSourceSitePin net).Indexed d := by
  induction pins generalizing net with
  | nil => exact h
  | cons p pins ih => exact ih (h.addSourceSitePin p)

theorem registerSource (h : net.Indexed d) (hi : i < net.intrasite.length)
    {pins : List SitePinId} (hpins : ∀ p ∈ pins, net.HoldsAt i (d.internalWire p)) :
    (net.registerSource d i pins).Indexed d := by
  unfold Net.registerSource
  refine ((h.setSourceRoute hi).addSourceSitePins _).setSitePinRoutes fun p hp => ?_
  refine (hpins p hp).extend ?_
  exact (Net.Registers.foldl .addSourceSitePin _ (net.setSourceRoute i)).grows.intrasite

end Indexed

end Net

namespace SiteRoute

variable {d : Device} {r : SiteRoute} {nl nl' : Netlist}

structure Covers (d : Device) (r : SiteRoute) : Prop where
  sitePin : ∀ pin allowUnused, r.source = .sitePin pin allowUnused →
    d.internalWire pin ∈ r.tree.wires
  exits : ∀ p ∈ r.sitePinSinks, d.internalWire p ∈ r.tree.wires
  belPins : ∀ b ∈ r.belPinSinks, d.belPinWire b ∈ r.tree.wires

theorem Registration.indexed {note : Nat → Net → Net} (hnote : Registration d r note)
    (hr : r.Covers d) {net : Net} (h : net.Indexed d) : (net.register r.tree note).Indexed d := by
  have hadd := h.addIntrasite r.tree
  cases hnote with
  | sitePin hsource =>
    exact hadd.setSitePinRoute (net.holdsAt_addIntrasite (hr.sitePin _ _ hsource))
  | source hsource =>
    exact hadd.registerSource (net.intrasiteIndex_lt r.tree) fun p hp =>
      net.holdsAt_addIntrasite (hr.exits p hp)
  | belPin hp => exact hadd.setBelPinRoute (net.holdsAt_addIntrasite (hr.belPins _ hp))

end SiteRoute

namespace Netlist

def Indexed (d : Device) (nl : Netlist) : Prop := ∀ n net, nl.net? n = some net → net.Indexed d

variable {d : Device} {nl nl' : Netlist}

theorem Indexed.repins (h : nl.Indexed d) (hrepins : nl.Repins nl') : nl'.Indexed d :=
  hrepins.forall_net (fun _ _ _ hrepins h => h.repins hrepins) (.of_bare d) h

theorem Indexed.modifyNet (h : nl.Indexed d) (n : NetId) {f : Net → Net}
    (hf : ∀ net : Net, net.Indexed d → (f net).Indexed d) : (nl.modifyNet n f).Indexed d := by
  intro m net' hm
  obtain ⟨net, hnet, rfl⟩ := exists_of_ite_map (net?_modifyNet .. ▸ hm)
  split
  · exact hf net (h m net hnet)
  · exact h m net hnet

end Netlist

namespace SiteRoute

variable {d : Device} {r : SiteRoute} {nl nl' : Netlist}

theorem indexed_of_apply {m : NetId} (happly : r.apply d nl = .ok (m, nl')) (hr : r.Covers d)
    (h : nl.Indexed d) : nl'.Indexed d := by
  have hevolves : Netlist.Evolves (fun _ net net' => net.Indexed d → net'.Indexed d) nl nl' :=
    evolves_of_enters (fun _ _ hnet => hnet)
      (fun _ _ _ _ hkeeps hkeeps' hnet => hkeeps' (hkeeps hnet))
      (fun _ hnote _ _ hnet => hnote.indexed hr hnet)
      (fun _ net p dir hnet => hnet.repins (.addPin net p dir)) (enters_of_apply happly)
  exact hevolves.forall_net (fun _ _ _ hkeeps => hkeeps) (.of_bare d) h

theorem indexed_of_markRouted (hmark : r.markRouted nl = .ok nl') (h : nl.Indexed d) :
    nl'.Indexed d := by
  obtain ⟨-, rfl⟩ := markRouted_eq_ok.1 hmark
  refine h.modifyNet _ fun net hnet => ?_
  obtain ⟨routedSinks, heq⟩ := exists_foldl_addRoutedSink (r.sinkPins nl) net
  rw [heq]
  exact { hnet with }

end SiteRoute

end Fabric
