import Fabric.Proofs.Device.Queries
import Fabric.Proofs.Record.Mapping
import Fabric.Proofs.SiteRoute.Registering
/-!
# Routes that are entered during an import

All that an import does is a chain of changes, and whatever all records keep holds after each of
them. So a route that is searched anywhere between two changes finds pins at its sinks, and is
registered with their nets.
-/

namespace Fabric

open Relation (ReflTransGen)

namespace Device

variable {d : Device} {desc : DeviceDescription}

theorem isOutput_of_pinAhead? (hd : ofDescription desc = .ok d) {s : SiteId} {v : WireName}
    {p : SitePinId} (h : d.pinAhead? (.site s v) = some p) : (d.sitePinDir p).isOutput := by
  have hfurnished := furnished_of_ofDescription hd
  obtain ⟨⟨e, he, -, hout, -⟩, -⟩ := hfurnished.pinAhead?_site_iff.1 h
  unfold sitePinDir
  rw [hfurnished.sitePin?_eq he]
  exact hout

end Device

namespace SiteRoute

variable {ctx : SiteContext} {desc : DeviceDescription}

theorem isUsed_of_endsWell {r : SiteRoute} {pin : BelPinId} {contained : Bool}
    (hsource : r.source = .belPin pin contained) {w : Wire} {b : BelPinId}
    (h : r.EndsWell ctx w b) : ctx.netlist.isUsed b := by
  obtain ⟨-, hend, hterminal, -⟩ := h
  unfold endsAtBelPin at hend
  rw [hterminal, Option.any_some, hsource] at hend
  exact hend

theorem source_ofSource (d : Device) (n : NetId) (source : Source) :
    (ofSource d n source).source = source := by
  rw [ofSource_eq]

/-- Where pins are at the BEL pins in use, a found route of a net that is there is entered. -/
theorem exists_registered_found (hd : Device.ofDescription desc = .ok ctx.device)
    (hc : ctx.netlist.Consistent)
    (hpins : ∀ b q, ctx.netlist.pinAt? b = some q → (ctx.netlist.pin? q).isSome) {n : NetId}
    (hn : (ctx.netlist.net? n).isSome) (pin : BelPinId) (contained : Bool) :
    let r := (ofSource ctx.device n (.belPin pin contained)).build ctx
    ∃ m nl', r.apply ctx.device ctx.netlist = .ok (m, nl') ∧ r.Registered ctx.netlist nl' := by
  intro r
  obtain ⟨hnet, hsource⟩ := origin_build ctx n (.belPin pin contained)
  obtain ⟨hsearched, -⟩ := searched_ofSource hd n (.belPin pin contained)
  obtain ⟨v, hv⟩ := exists_wire_of_source ctx.device (.belPin pin contained)
  have hfinds := hsearched.finds hv
  refine exists_registered hsource hc ?_ (fun b hb => ?_) hfinds.sitePins_once fun p hp => ?_
  · rw [hnet]
    exact hn
  · obtain ⟨w, -, hends⟩ := (hfinds.belPins b).1 hb
    have hused : ctx.netlist.isUsed b := isUsed_of_endsWell (source_ofSource ..) hends
    unfold Netlist.isUsed at hused
    rw [Std.ExtTreeMap.contains_eq_isSome_getElem?] at hused
    obtain ⟨q, hq⟩ := Option.isSome_iff_exists.1 hused
    exact ⟨q, hq, hpins b q hq⟩
  · obtain ⟨w, hreaches, hleaves⟩ := (hfinds.sitePins p).1 hp
    obtain ⟨i, -, hw, -⟩ := (hfinds.leaves w).2 ⟨hreaches, .inr ⟨p, hleaves⟩⟩
    obtain ⟨v, rfl⟩ := hfinds.inside w (RouteTree.mem_wires.2 ⟨i, hw⟩)
    exact Device.isOutput_of_pinAhead? hd hleaves.2.2.1

end SiteRoute

namespace Record

variable {d : Device} {desc : DeviceDescription} {im : Importer}

/-- Whenever a route that starts at a BEL pin is searched during an import for a net that is there,
it is entered without a fault, and then it is registered where its sinks are. -/
theorem registered_of_changes (hd : Device.ofDescription desc = .ok d)
    {netlist : NetlistDescription} {nl : Netlist} (hnl : Netlist.ofDescription d netlist = .ok nl)
    (hchanges : ReflTransGen (Change d) (Importer.ofNetlist nl) im) {n : NetId}
    (hn : (im.netlist.net? n).isSome) (pin : BelPinId) (contained : Bool)
    (usedPips : Option (KeySet WireName)) (routethroughs : Table BelId Routethrough) :
    let r := (SiteRoute.ofSource d n (.belPin pin contained)).build
      ⟨d, im.netlist, usedPips, routethroughs⟩
    r.net = n ∧ ∃ m nl', r.apply d im.netlist = .ok (m, nl') ∧ r.Registered im.netlist nl' := by
  intro r
  obtain ⟨hc, -⟩ := mounts_of_changes hd hnl hchanges
  have hmapped := mapped_of_changes hd hnl hchanges
  have hpins : ∀ b q, im.netlist.pinAt? b = some q → (im.netlist.pin? q).isSome := by
    intro b q hq
    obtain ⟨pin, hpin, -⟩ := (hmapped.mapped b q).1 hq
    exact Option.isSome_iff_exists.2 ⟨pin, hpin⟩
  let ctx : SiteContext := ⟨d, im.netlist, usedPips, routethroughs⟩
  have hctx : Device.ofDescription desc = .ok ctx.device := hd
  exact ⟨(SiteRoute.origin_build ctx n _).1,
    SiteRoute.exists_registered_found hctx hc hpins hn pin contained⟩

def spread : DeviceDescription where
  name := "spread"
  family := .other
  tiles := [⟨"T", "CLB", []⟩]
  siteTypes := [⟨"SLICE",
    [⟨"O", [⟨"A", none, .wire⟩, ⟨"B", none, .wire⟩, ⟨"Q", none, .wire⟩]⟩, ⟨"A", []⟩, ⟨"B", []⟩],
    [⟨"SRC", [⟨"O", .output, "O"⟩]⟩, ⟨"FA", [⟨"D", .input, "A"⟩]⟩, ⟨"FB", [⟨"D", .input, "B"⟩]⟩],
    [⟨"Q", .output, "Q", "OUT"⟩]⟩]
  sites := [⟨"S", "SLICE", "T"⟩]

def halfJoined : NetlistDescription where
  name := "top"
  mode := .regular
  cells := [
    ⟨"src", "LUT1", some "S/SRC", false, ∅, [⟨"O", .output, ["O"]⟩]⟩,
    ⟨"fa", "FDRE", some "S/FA", false, ∅, [⟨"D", .input, ["D"]⟩]⟩,
    ⟨"fb", "FDRE", some "S/FB", false, ∅, [⟨"D", .input, ["D"]⟩]⟩]
  nets := [⟨"n", .wire, ["src/O"]⟩, ⟨"m", .wire, ["fa/D"]⟩]
  staticNetOf := ∅
  staticRoutes := ∅

/-- The route goes on as one of `m` at the first input, and the second one joins this net. -/
theorem registered_of_changes_halfJoined : ∃ d nl im, Device.ofDescription spread = .ok d ∧
    Netlist.ofDescription d halfJoined = .ok nl ∧
    ReflTransGen (Change d) (Importer.ofNetlist nl) im ∧ (im.netlist.net? ⟨2⟩).isSome ∧
    let r := (SiteRoute.ofSource d ⟨2⟩ (.belPin ⟨0⟩ false)).build
      ⟨d, im.netlist, im.netlist.usedSitePips[(⟨0⟩ : SiteId)]?, im.routethroughs⟩
    r.isValid ∧ r.belPinSinks = [⟨1⟩, ⟨2⟩] ∧ r.sitePinSinks = [⟨0⟩] ∧ r.net = ⟨2⟩ ∧
    ∃ m nl', r.apply d im.netlist = .ok (m, nl') ∧ nl'.netOf? ⟨2⟩ = some ⟨3⟩ ∧
      r.Registered im.netlist nl' := by
  have hrun : (do
      let d ← (Device.ofDescription spread).toOption
      let nl ← (Netlist.ofDescription d halfJoined).toOption
      let (_, im) ← ((Importer.ofNetlist nl).importText d "SITE_PIPS S").toOption
      let _ ← im.netlist.net? ⟨2⟩
      let r := (SiteRoute.ofSource d ⟨2⟩ (.belPin ⟨0⟩ false)).build
        ⟨d, im.netlist, im.netlist.usedSitePips[(⟨0⟩ : SiteId)]?, im.routethroughs⟩
      let entered ← (r.apply d im.netlist).toOption
      return (r.isValid, r.belPinSinks, r.sitePinSinks, entered.2.netOf? ⟨2⟩)) =
        some (true, [⟨1⟩, ⟨2⟩], [⟨0⟩], some (⟨3⟩ : NetId)) := by
    decide +kernel
  simp only [Option.bind_eq_bind, Option.bind_eq_some_iff, Checked.toOption_eq_some,
    Option.pure_def, Option.some.injEq, Prod.mk.injEq] at hrun
  obtain ⟨d, hd, nl, hnl, ⟨_, im⟩, hrun, net, hnet, ⟨m, nl'⟩, happly, hvalid, hsinks, hexits,
    hon⟩ := hrun
  have hn : (im.netlist.net? ⟨2⟩).isSome := Option.isSome_iff_exists.2 ⟨net, hnet⟩
  have hchanges : ReflTransGen (Change d) (Importer.ofNetlist nl) im :=
    changes_of_reaches (Netlist.closed_of_ofDescription hnl).toConsistent (.text hrun)
  obtain ⟨horigin, m', last, hlast, hregistered⟩ := registered_of_changes hd hnl hchanges hn ⟨0⟩
    false im.netlist.usedSitePips[(⟨0⟩ : SiteId)]? im.routethroughs
  obtain ⟨rfl, rfl⟩ := Prod.mk.inj (Except.ok.inj (happly.symm.trans hlast))
  exact ⟨d, nl, im, hd, hnl, hchanges, hn, hvalid, hsinks, hexits, horigin, m, nl', happly, hon,
    hregistered⟩

end Record

end Fabric
