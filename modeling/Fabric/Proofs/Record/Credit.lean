import Fabric.Proofs.Netlist.Loading
import Fabric.Proofs.Record.Lines
/-!
# Which sinks count as routed

A net is given credit for the sinks of the routes inside sites that it comes to. Most of these
are pins of its own. Searches from BEL pins and those of constants take other pins as well.
-/

namespace Fabric

open Relation (ReflTransGen)

/-! ## Changes that give no credit -/

theorem Net.Registers.carries {net net' : Net} (h : net.Registers net') : net.Carries net' := by
  obtain ⟨_, _, _, _, _, hprefix, rfl⟩ := h
  exact { Net.Carries.refl net with intrasite := hprefix }

theorem Record.Notes.carries {settled : Prop} {f : Net → Net} (h : Record.Notes settled f)
    (net : Net) :
    net.Carries (f net) := by
  cases h with
  | leave p => exact (Net.Registers.addSourceSitePin net p).carries
  | stay p => exact { Net.Carries.refl net with }
  | lead t => exact { Net.Carries.refl net with }
  | inside => exact { Net.Carries.refl net with }
  | status => exact { Net.Carries.refl net with }

namespace SiteRoute

variable {d : Device} {r : SiteRoute} {nl nl' : Netlist} {lost : PinId → NetId → Prop}

theorem Entering.rewires (h : Entering d r nl nl') : Netlist.Rewires lost nl nl' := by
  cases h with
  | register hn hnote =>
    exact .modifyNet _ (fun hc => hc.modifyNet _ fun net => (hnote.registers net _).joins)
      fun net => (hnote.registers net _).carries
  | join hn hp hoff => exact .attach_of_off hn hoff
  | @tie n c _ b name hn _ _ _ hb =>
    have hoff : (nl.addPseudoPin c name (d.belPinDir b)).netOf? nl.nextPin = none := by
      rw [Netlist.netOf?_addPseudoPin, Netlist.netOf?, Netlist.pin?_nextPin]
      rfl
    have hfree :
        ((nl.addPseudoPin c name (d.belPinDir b)).attach n nl.nextPin).pinAt? b = none := by
      rw [Netlist.pinAt?_attach]
      exact hb
    have hadds : Netlist.Rewires lost nl (nl.addPseudoPin c name (d.belPinDir b)) :=
      .addPseudoPin ..
    have hn' : ((nl.addPseudoPin c name (d.belPinDir b)).net? n).isSome := hn
    have hjoins : Netlist.Rewires lost _ _ := .attach_of_off hn' hoff
    exact (hadds.trans hjoins).trans (.mapPin nl.nextPin hfree)

theorem rewires_of_enters (h : ReflTransGen (Entering d r) nl nl') :
    Netlist.Rewires lost nl nl' := by
  induction h with
  | refl => exact .refl nl
  | tail _ hstep ih => exact ih.trans hstep.rewires

end SiteRoute

namespace Record

variable {d : Device} {im im' : Importer}

/-! ## Credit -/

/-- A leaf of a tree of the net is at a BEL pin that the pin is mapped to. The pin is one of the
net, or it was found from a BEL pin or by a constant, or a partition pin has taken its place. -/
def Reached (d : Device) (nl : Netlist) (n : NetId) (net : Net) (q : PinId) : Prop :=
  ∃ t ∈ net.intrasite, (∃ b w, nl.pinAt? b = some q ∧ t.EndsAt w ∧ d.terminal? w = some b) ∧
    (nl.netOf? q = some n ∨ (∃ p, t.wire? 0 = some (d.belPinWire p)) ∨ net.isStatic ∨ nl.Replaced q)

/-- The route is with its net, and its sinks are pins of the net or replaced. -/
def Waits (d : Device) (nl : Netlist) (net : Net) (r : SiteRoute) : Prop :=
  r.tree ∈ net.intrasite ∧ ∀ b ∈ r.belPinSinks, ∃ q w, nl.pinAt? b = some q ∧ r.tree.EndsAt w ∧
    d.terminal? w = some b ∧ (nl.netOf? q = some r.net ∨ nl.Replaced q)

/-- Credit is given for what is reached only. The numbers of the nets that routes wait for are not
given out again. -/
structure Credited (d : Device) (im : Importer) : Prop where
  consistent : im.netlist.Consistent
  routed : ∀ n net q, im.netlist.net? n = some net → q ∈ net.routedSinks →
    Reached d im.netlist n net q
  known : ∀ (p : SitePinId) (r : SiteRoute), im.siteRoutes[p]? = some r →
    r.net.index < im.netlist.nets.size
  waiting : ∀ (p : SitePinId) (r : SiteRoute) net, im.siteRoutes[p]? = some r →
    im.netlist.net? r.net = some net → Waits d im.netlist net r

section rewires

variable {nl nl' : Netlist} {lost : PinId → NetId → Prop} (h : Netlist.Rewires lost nl nl')
  (hlost : ∀ p n, lost p n → nl'.Replaced p)

include h hlost

theorem on_or_replaced {n : NetId} {net net' : Net} (hn : nl.net? n = some net)
    (hn' : nl'.net? n = some net') {q : PinId} (hq : nl.netOf? q = some n) :
    nl'.netOf? q = some n ∨ nl'.Replaced q := by
  rcases h.joined q n (by rw [hn]; rfl) hq with hl | hnone | hq'
  · exact .inr (hlost q n hl)
  · rw [hn'] at hnone
    cases hnone
  · exact .inl hq'

theorem Reached.rewires {n : NetId} {net net' : Net} (hn : nl.net? n = some net)
    (hn' : nl'.net? n = some net') (hcarries : net.Carries net') {q : PinId}
    (hreached : Reached d nl n net q) : Reached d nl' n net' q := by
  obtain ⟨t, ht, ⟨b, w, hb, hend, hterminal⟩, hwhy⟩ := hreached
  refine ⟨t, hcarries.intrasite.subset ht, ⟨b, w, h.mapping_stays b q hb, hend, hterminal⟩, ?_⟩
  rcases hwhy with hon | hsource | hstatic | hreplaced
  · exact (on_or_replaced h hlost hn hn' hon).imp_right fun hreplaced => .inr (.inr hreplaced)
  · exact .inr (.inl hsource)
  · exact .inr (.inr (.inl ((Net.isStatic_congr hcarries.kind).trans hstatic)))
  · exact .inr (.inr (.inr (h.replaced q hreplaced)))

theorem Waits.rewires {r : SiteRoute} {net net' : Net} (hn : nl.net? r.net = some net)
    (hn' : nl'.net? r.net = some net') (hcarries : net.Carries net')
    (hwaits : Waits d nl net r) : Waits d nl' net' r := by
  refine ⟨hcarries.intrasite.subset hwaits.1, fun b hb => ?_⟩
  obtain ⟨q, w, hq, hend, hterminal, hwhy⟩ := hwaits.2 b hb
  refine ⟨q, w, h.mapping_stays b q hq, hend, hterminal, ?_⟩
  rcases hwhy with hon | hreplaced
  · exact on_or_replaced h hlost hn hn' hon
  · exact .inr (h.replaced q hreplaced)

end rewires

/-- Rewiring gives no credit, and what loses it is off its net. -/
theorem Credited.rewires (hc : Credited d im) {lost : PinId → NetId → Prop}
    (h : Netlist.Rewires lost im.netlist im'.netlist)
    (hlost : ∀ p n, lost p n → im'.netlist.Replaced p)
    (hroutes : im'.siteRoutes = im.siteRoutes) : Credited d im' where
  consistent := h.consistent hc.consistent
  routed n net' q hn' hq := by
    rcases h.old_or_new n net' hn' with ⟨net, hn, hcarries⟩ | ⟨-, hnone⟩
    · exact (hc.routed n net q hn (hcarries.routedSinks q hq)).rewires h hlost hn hn' hcarries
    · exact (hnone q hq).elim
  known p r hr := by
    rw [hroutes] at hr
    exact Nat.lt_of_lt_of_le (hc.known p r hr) h.size_le
  waiting p r net' hr hn' := by
    rw [hroutes] at hr
    rcases h.old_or_new r.net net' hn' with ⟨net, hn, hcarries⟩ | ⟨hnew, -⟩
    · exact (hc.waiting p r net hr hn).rewires h hlost hn hn' hcarries
    · have := hc.known p r hr
      omega

theorem Credited.keep (hc : Credited d im)
    (h : Netlist.Rewires (fun _ _ => False) im.netlist im'.netlist)
    (hroutes : im'.siteRoutes = im.siteRoutes) : Credited d im' :=
  hc.rewires h (fun _ _ hlost => hlost.elim) hroutes

theorem Credited.mark (hc : Credited d im) {r : SiteRoute} {nl : Netlist}
    (hmark : r.markRouted im.netlist = .ok nl)
    (hreached : ∀ net, im.netlist.net? r.net = some net → ∀ q ∈ r.sinkPins im.netlist,
      Reached d im.netlist r.net net q) : Credited d { im with netlist := nl } := by
  have hconsistent := SiteRoute.consistent_of_markRouted hmark hc.consistent
  obtain ⟨-, rfl⟩ := SiteRoute.markRouted_eq_ok.1 hmark
  -- A net is what it was but for its routed sinks, and the new ones are sinks of the route.
  have back : ∀ n net', (im.netlist.modifyNet r.net fun net =>
      (r.sinkPins im.netlist).foldl Net.addRoutedSink net).net? n = some net' →
      ∃ net routedSinks, im.netlist.net? n = some net ∧ net' = { net with routedSinks } ∧
        ∀ q ∈ routedSinks, q ∈ net.routedSinks ∨ n = r.net ∧ q ∈ r.sinkPins im.netlist := by
    intro n net' hn'
    obtain ⟨net, hn, rfl⟩ := Netlist.exists_of_ite_map (Netlist.net?_modifyNet .. ▸ hn')
    split
    next heq =>
      obtain ⟨routedSinks, hfold⟩ :=
        SiteRoute.exists_foldl_addRoutedSink (r.sinkPins im.netlist) net
      refine ⟨net, routedSinks, hn, hfold, fun q hq => ?_⟩
      have hmem : q ∈ ((r.sinkPins im.netlist).foldl Net.addRoutedSink net).routedSinks := by
        rw [hfold]
        exact hq
      exact (SiteRoute.mem_routedSinks_foldl.1 hmem).symm.imp_right fun hq => ⟨heq, hq⟩
    next => exact ⟨net, net.routedSinks, hn, rfl, fun q hq => .inl hq⟩
  refine ⟨hconsistent, fun n net' q hn' hq => ?_, fun p r' hr => ?_, fun p r' net' hr hn' => ?_⟩
  · obtain ⟨net, routedSinks, hn, rfl, hsinks⟩ := back n net' hn'
    rcases hsinks q hq with hold | ⟨rfl, hnew⟩
    · exact hc.routed n net q hn hold
    · exact hreached net hn q hnew
  · have hlt := hc.known p r' hr
    simpa only [Netlist.modifyNet, Array.size_modify] using hlt
  · obtain ⟨net, routedSinks, hn, rfl, -⟩ := back r'.net net' hn'
    exact hc.waiting p r' net hr hn

/-! ## Records -/

variable {desc : DeviceDescription}

theorem Credited.adds {S : NetId → Prop} {C : Prop} (hd : Device.ofDescription desc = .ok d)
    (hc : Credited d im) (h : Adds d S C im im') : Credited d im' := by
  cases h with
  | @enter n m source mid nl hsource hvalid happly hmark =>
    have hmid : Credited d { im with netlist := mid } :=
      hc.keep (SiteRoute.rewires_of_enters (SiteRoute.enters_of_apply happly)) rfl
    refine hmid.mark hmark fun net hn q hq => ?_
    obtain ⟨b, hb, hbq⟩ := SiteRoute.mem_sinkPins.1 hq
    obtain ⟨net', hn', htree⟩ := SiteRoute.tree_of_apply happly (List.ne_nil_of_mem hb)
    obtain rfl : net' = net := Option.some.inj (hn'.symm.trans hn)
    obtain ⟨w, hend, hterminal, -⟩ := sink_of_found hd im n source hb
    refine ⟨_, htree, ⟨b, w, hbq, hend, hterminal⟩, .inr ?_⟩
    cases source with
    | belPin p contained => exact .inl ⟨p, root_of_found hd im n _⟩
    | sitePin pin allowUnused =>
      obtain ⟨-, old, hold, hstatic⟩ := hsource pin allowUnused rfl
      obtain ⟨hnet, hsource⟩ := im.origin_found d n (.sitePin pin allowUnused)
      obtain rfl : m = n := (SiteRoute.net_of_apply hsource happly).trans hnet
      obtain ⟨net, hnet, hext⟩ :=
        (SiteRoute.grows_of_enters (SiteRoute.enters_of_apply happly)).net_stays m old hold
      obtain rfl : net' = net := Option.some.inj (hn'.symm.trans hnet)
      exact .inr (.inl ((Net.isStatic_congr hext.kind).trans hstatic))
  | @await n m pin nl hvalid happly =>
    have henters := SiteRoute.enters_of_apply happly
    have hgrows := SiteRoute.grows_of_enters henters
    have hbase : Credited d { im with netlist := nl } :=
      hc.keep (SiteRoute.rewires_of_enters henters) rfl
    obtain ⟨hnet, hsource⟩ := im.origin_found d n (.sitePin pin false)
    obtain rfl : m = n := (SiteRoute.net_of_apply hsource happly).trans hnet
    obtain ⟨net, hn, htree⟩ := SiteRoute.tree_of_apply happly (Adds.sinks_of_found hvalid)
    have hwaits : Waits d nl net { im.found d m (.sitePin pin false) with net := m } := by
      refine ⟨htree, fun b hb => ?_⟩
      obtain ⟨w, hend, hterminal, hon⟩ := sink_of_found hd im m _ hb
      obtain ⟨q, old, hbq, hq, hqn⟩ := hon pin rfl
      exact ⟨q, w, hgrows.mapping_stays b q hbq, hend, hterminal,
        .inl (hgrows.netOf? ((Netlist.netOf?_eq hq).trans hqn))⟩
    have hroutes : ∀ (p : SitePinId) (r : SiteRoute), (im.siteRoutes.insert pin
        { im.found d m (.sitePin pin false) with net := m })[p]? = some r →
        r = { im.found d m (.sitePin pin false) with net := m } ∨ im.siteRoutes[p]? = some r := by
      intro p r hr
      rw [Std.ExtTreeMap.getElem?_insert] at hr
      split at hr
      · exact .inl (Option.some.inj hr).symm
      · exact .inr hr
    refine ⟨hbase.consistent, hbase.routed, fun p r hr => ?_, fun p r net' hr hn' => ?_⟩
    · rcases hroutes p r hr with rfl | hold
      · exact Netlist.lt_size_of_net? hn
      · exact hbase.known p r hold
    · rcases hroutes p r hr with rfl | hold
      · obtain rfl : net = net' := Option.some.inj (hn.symm.trans hn')
        exact hwaits
      · exact hbase.waiting p r net' hold hn'
  | arrive hr hmark =>
    refine hc.mark hmark fun net hn q hq => ?_
    obtain ⟨htree, hsinks⟩ := hc.waiting _ _ net hr hn
    obtain ⟨b, hb, hbq⟩ := SiteRoute.mem_sinkPins.1 hq
    obtain ⟨q', w, hbq', hend, hterminal, hwhy⟩ := hsinks b hb
    obtain rfl : q' = q := Option.some.inj (hbq'.symm.trans hbq)
    exact ⟨_, htree, ⟨b, w, hbq, hend, hterminal⟩, hwhy.imp_right fun hr => .inr (.inr hr)⟩
  | note hf hn => exact hc.keep (.modifyNet _ (fun hc => hc.modifyNet _ hf.joins) hf.carries) rfl
  | choose s choices => exact hc.keep (.of_eq rfl rfl rfl rfl) rfl
  | pass b through => exact hc.keep (.refl _) rfl
  | tieOff isVcc b => cases isVcc <;> exact hc.keep (.refl _) rfl
  | portNode port node => exact hc.keep (.of_eq rfl rfl rfl rfl) rfl

theorem maintains_credited (hd : Device.ofDescription desc = .ok d) : Maintains d (Credited d) where
  consistent _ hc := hc.consistent
  adds _ _ hc h := hc.adds hd h
  bounds im im' hc h := by
    obtain ⟨hroutes, p, hreplaced, hreworks⟩ := h.reworks (F := True) (.inl trivial)
    refine hc.rewires hreworks.rewires ?_ hroutes
    rintro p' - rfl
    exact hreplaced
  ties im im' isVcc port hc h := by
    obtain ⟨hroutes, cell, p, -, -, hreplaced, hmerges⟩ :=
      h.merges (F := True) hc.consistent (.inl trivial) fun _ _ _ _ => .inl trivial
    refine hc.rewires hmerges.rewires ?_ hroutes
    rintro p' - rfl
    exact hreplaced

/-! ## Imports into loaded netlists -/

theorem credited_ofNetlist {netlist : NetlistDescription} {nl : Netlist}
    (hnl : Netlist.ofDescription d netlist = .ok nl) : Credited d (.ofNetlist nl) where
  consistent := (Netlist.closed_of_ofDescription hnl).toConsistent
  routed n net q hn hq := by
    obtain ⟨_, _, _, _, rfl⟩ := Netlist.bare_of_ofDescription hnl n net hn
    simp at hq
  known p r hr := by
    rw [Importer.siteRoutes_ofNetlist] at hr
    cases hr
  waiting p r net hr := by
    rw [Importer.siteRoutes_ofNetlist] at hr
    cases hr

/-- A net has credit for pins at the leaves of its trees. They are pins of its own, but for those
that a search from a BEL pin found, those of a constant, and those that a partition pin
replaces. -/
theorem routedSinks_reached (hd : Device.ofDescription desc = .ok d) {netlist : NetlistDescription}
    {nl : Netlist} (hnl : Netlist.ofDescription d netlist = .ok nl) {text : String}
    (hreaches : (Importer.ofNetlist nl).Reaches d text im) {n : NetId} {net : Net}
    (hn : im.netlist.net? n = some net) {q : PinId} (hq : q ∈ net.routedSinks) :
    ∃ t ∈ net.intrasite,
      (∃ b w, im.netlist.pinAt? b = some q ∧ t.EndsAt w ∧ d.terminal? w = some b) ∧
      (q ∈ net.pins ∨ (∃ p, t.wire? 0 = some (d.belPinWire p)) ∨ net.isStatic ∨
        im.netlist.Replaced q) := by
  have hcredited := (maintains_credited hd).reaches (credited_ofNetlist hnl) hreaches
  obtain ⟨t, ht, hend, hwhy⟩ := hcredited.routed n net q hn hq
  exact ⟨t, ht, hend, hwhy.imp_left (hcredited.consistent.mem_pins hn q).2⟩

def fork : DeviceDescription where
  name := "fork"
  family := .other
  tiles := [⟨"T", "CLB", []⟩]
  siteTypes := [⟨"SLICE",
    [⟨"O", [⟨"A", none, .wire⟩, ⟨"B", none, .wire⟩]⟩, ⟨"A", []⟩, ⟨"B", []⟩],
    [⟨"SRC", [⟨"O", .output, "O"⟩]⟩, ⟨"FA", [⟨"D", .input, "A"⟩]⟩, ⟨"FB", [⟨"D", .input, "B"⟩]⟩],
    []⟩]
  sites := [⟨"S", "SLICE", "T"⟩]

def halfGrounded : NetlistDescription where
  name := "top"
  mode := .regular
  cells := [
    ⟨"src", "LUT1", some "S/SRC", false, ∅, [⟨"O", .output, ["O"]⟩]⟩,
    ⟨"fa", "FDRE", some "S/FA", false, ∅, [⟨"D", .input, ["D"]⟩]⟩,
    ⟨"fb", "FDRE", some "S/FB", false, ∅, [⟨"D", .input, ["D"]⟩]⟩]
  nets := [⟨"n", .wire, ["src/O", "fa/D"]⟩, ⟨"GND", .gnd, ["fb/D"]⟩]
  staticNetOf := ∅
  staticRoutes := ∅

theorem exists_reaches_halfGrounded : ∃ d nl im net, Device.ofDescription fork = .ok d ∧
    Netlist.ofDescription d halfGrounded = .ok nl ∧
    (Importer.ofNetlist nl).Reaches d "INTRASITE n" im ∧
    im.netlist.net? Netlist.gnd = some net ∧ net.routedSinks.toList = [⟨1⟩, ⟨2⟩] ∧
    net.pins = [⟨2⟩] := by
  have hrun : (do
      let d ← (Device.ofDescription fork).toOption
      let nl ← (Netlist.ofDescription d halfGrounded).toOption
      let (_, im) ← ((Importer.ofNetlist nl).importText d "INTRASITE n").toOption
      let net ← im.netlist.net? Netlist.gnd
      return (net.routedSinks.toList, net.pins)) = some ([⟨1⟩, ⟨2⟩], [⟨2⟩]) := by
    decide +kernel
  simp only [Option.bind_eq_bind, Option.bind_eq_some_iff, Checked.toOption_eq_some,
    Option.pure_def, Option.some.injEq, Prod.mk.injEq] at hrun
  obtain ⟨d, hd, nl, hnl, ⟨r, im⟩, hrun, net, hnet, hsinks, hpins⟩ := hrun
  exact ⟨d, nl, im, net, hd, hnl, .text hrun, hnet, hsinks, hpins⟩

/-- The route goes on as one of the ground, which is given credit for both inputs. -/
theorem routedSinks_foreign_halfGrounded : ∃ d nl im net q, Device.ofDescription fork = .ok d ∧
    Netlist.ofDescription d halfGrounded = .ok nl ∧
    (Importer.ofNetlist nl).Reaches d "INTRASITE n" im ∧
    im.netlist.net? Netlist.gnd = some net ∧ q ∈ net.routedSinks ∧ q ∉ net.pins := by
  obtain ⟨d, nl, im, net, hd, hnl, hreaches, hnet, hsinks, hpins⟩ := exists_reaches_halfGrounded
  refine ⟨d, nl, im, net, ⟨1⟩, hd, hnl, hreaches, hnet, ?_, ?_⟩
  · rw [← Std.ExtTreeSet.mem_toList, hsinks]
    simp
  · rw [hpins]
    decide

theorem routedSinks_reached_halfGrounded : ∃ d nl im net, Device.ofDescription fork = .ok d ∧
    Netlist.ofDescription d halfGrounded = .ok nl ∧
    (Importer.ofNetlist nl).Reaches d "INTRASITE n" im ∧
    im.netlist.net? Netlist.gnd = some net ∧ ⟨1⟩ ∈ net.routedSinks ∧
    ∃ t ∈ net.intrasite,
      (∃ b w, im.netlist.pinAt? b = some ⟨1⟩ ∧ t.EndsAt w ∧ d.terminal? w = some b) ∧
      (⟨1⟩ ∈ net.pins ∨ (∃ p, t.wire? 0 = some (d.belPinWire p)) ∨ net.isStatic ∨
        im.netlist.Replaced ⟨1⟩) := by
  obtain ⟨d, nl, im, net, hd, hnl, hreaches, hnet, hsinks, -⟩ := exists_reaches_halfGrounded
  have hq : ⟨1⟩ ∈ net.routedSinks := by
    rw [← Std.ExtTreeSet.mem_toList, hsinks]
    simp
  exact ⟨d, nl, im, net, hd, hnl, hreaches, hnet, hq, routedSinks_reached hd hnl hreaches hnet hq⟩

end Record

end Fabric
