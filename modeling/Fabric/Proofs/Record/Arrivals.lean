import Fabric.Proofs.Intersite.Arrivals
import Fabric.Proofs.Record.Walk
/-!
# What the searches of a `ROUTE` record arrive at

A net is given credit for the sinks behind a site pin as soon as a search comes to the pin. Whether
the tree of the search is kept is settled afterwards, by whether it uses a PIP. So there is credit
for what lies behind the wires of the trees that the net is given, and for what plain connections
lead to from the source site pins that it loses.
-/

namespace Fabric

/-! ## Entering routes on the way -/

def Net.passage (net : Net) : List RouteTree × List SitePinId × KeySet PinId :=
  (net.intersite, net.sourceSitePins, net.routedSinks)

def Net.ways (net : Net) : List RouteTree × List SitePinId := (net.intersite, net.sourceSitePins)

theorem Net.passage_addIntrasite (net : Net) (t : RouteTree) :
    (net.addIntrasite t).passage = net.passage := by
  unfold Net.addIntrasite
  split <;> rfl

abbrev Netlist.KeepsPassage : Netlist → Netlist → Prop :=
  Netlist.Evolves fun _ net net' => net'.passage = net.passage

namespace SiteRoute

variable {d : Device} {r : SiteRoute} {nl nl' : Netlist} {pin : SitePinId} {allowUnused : Bool}

theorem Registration.passage {note : Nat → Net → Net} (hnote : Registration d r note)
    (hsource : r.source = .sitePin pin allowUnused) (net : Net) :
    (net.register r.tree note).passage = net.passage := by
  rw [← net.passage_addIntrasite r.tree]
  cases hnote with
  | sitePin => rfl
  | source hbel =>
    rw [hsource] at hbel
    cases hbel
  | belPin => rfl

theorem keepsPassage_of_apply {m : NetId} (hsource : r.source = .sitePin pin allowUnused)
    (happly : r.apply d nl = .ok (m, nl')) : nl.KeepsPassage nl' :=
  evolves_of_enters (fun _ _ => rfl) (fun _ _ _ _ hkeeps hkeeps' => hkeeps'.trans hkeeps)
    (fun _ hnote _ net => hnote.passage hsource net) (fun _ _ _ _ => rfl) (enters_of_apply happly)

end SiteRoute

namespace Record

open Intersite (arrivals outcome)

variable {d : Device} {n : NetId} {base im : Importer} {reached : List SitePinId}
  {trees : List RouteTree} {pins : List SitePinId}

/-- A route that takes a net on from a site pin: the one that waits there, or where none does, what
is found for a constant in a state between `base` and `im`. -/
inductive Onward (d : Device) (n : NetId) (base im : Importer) (p : SitePinId) : SiteRoute → Prop
  | waiting {r : SiteRoute} (hr : base.siteRoutes[p]? = some r) : Onward d n base im p r
  | searched {mid : Importer} (hfree : base.siteRoutes[p]? = none)
      (hstatic : ∃ net, base.netlist.net? n = some net ∧ net.isStatic)
      (hbefore : base.netlist.Extends mid.netlist) (hafter : mid.netlist.Extends im.netlist) :
      Onward d n base im p (mid.found d n (.sitePin p true))

theorem Onward.grows {im' : Importer} {p : SitePinId} {r : SiteRoute} (h : Onward d n base im p r)
    (hgrows : im.netlist.Extends im'.netlist) : Onward d n base im' p r := by
  cases h with
  | waiting hr => exact .waiting hr
  | searched hfree hstatic hbefore hafter =>
    exact .searched hfree hstatic hbefore (hafter.trans hgrows)

/-- A state between the searches from `base` on. The net has been at the site pins `reached`, it has
been given the trees and is left with the source site pins `pins`. Credit that was not there before
is for sinks behind the pins `reached`. -/
structure Underway (d : Device) (n : NetId) (base : Importer) (reached : List SitePinId)
    (trees : List RouteTree) (pins : List SitePinId) (im : Importer) : Prop where
  routes : im.siteRoutes = base.siteRoutes
  grows : base.netlist.Extends im.netlist
  intersite : ∀ old net, base.netlist.net? n = some old → im.netlist.net? n = some net →
    net.intersite = old.intersite ++ trees
  sourceSitePins : ∀ net, im.netlist.net? n = some net → net.sourceSitePins = pins
  credit : ∀ m old net q, base.netlist.net? m = some old → im.netlist.net? m = some net →
    q ∈ net.routedSinks → q ∈ old.routedSinks ∨
      ∃ p ∈ reached, ∃ r, Onward d n base im p r ∧ r.net = m ∧ q ∈ r.sinkPins im.netlist
  others : ∀ m old net, m ≠ n → base.netlist.net? m = some old → im.netlist.net? m = some net →
    net.ways = old.ways
  steers : base.netlist.Steers im.netlist

namespace Underway

theorem refl {net : Net} (hn : im.netlist.net? n = some net) :
    Underway d n im [] [] net.sourceSitePins im where
  routes := rfl
  grows := .refl _
  intersite old net' hold hnet := by
    rw [hold] at hnet
    cases hnet
    rw [List.append_nil]
  sourceSitePins net' hnet := by
    rw [hn] at hnet
    cases hnet
    rfl
  credit m old net' q hold hnet hq := by
    rw [hold] at hnet
    cases hnet
    exact .inl hq
  others m old net' _ hold hnet := by
    rw [hold] at hnet
    cases hnet
    rfl
  steers := .refl _

theorem step (h : Underway d n base reached trees pins im) {nl : Netlist}
    (further : List SitePinId) (added : List RouteTree) (left : List SitePinId)
    (hgrows : im.netlist.Extends nl)
    (hnet : ∀ net net', im.netlist.net? n = some net → nl.net? n = some net' →
      net'.intersite = net.intersite ++ added ∧
        (net.sourceSitePins = pins → net'.sourceSitePins = left))
    (hcredit : ∀ m net net' q, im.netlist.net? m = some net → nl.net? m = some net' →
      q ∈ net'.routedSinks → q ∈ net.routedSinks ∨ ∃ p ∈ further, ∃ r,
        Onward d n base { im with netlist := nl } p r ∧ r.net = m ∧ q ∈ r.sinkPins nl)
    (hothers : ∀ m net net', m ≠ n → im.netlist.net? m = some net → nl.net? m = some net' →
      net'.ways = net.ways)
    (hsteers : im.netlist.Steers nl) :
    Underway d n base (reached ++ further) (trees ++ added) left { im with netlist := nl } := by
  refine {
    routes := h.routes
    grows := h.grows.trans hgrows
    intersite := fun old net' hold hnet' => ?_
    sourceSitePins := fun net' hnet' => ?_
    credit := fun m old net' q hold hnet' hq => ?_
    others := fun m old net' hm hold hnet' => ?_
    steers := h.steers.trans hsteers }
  · obtain ⟨net, hmid, -⟩ := hgrows.net_before hnet'
    rw [(hnet net net' hmid hnet').1, h.intersite old net hold hmid, List.append_assoc]
  · obtain ⟨net, hmid, -⟩ := hgrows.net_before hnet'
    exact (hnet net net' hmid hnet').2 (h.sourceSitePins net hmid)
  · obtain ⟨net, hmid, -⟩ := hgrows.net_before hnet'
    rcases hcredit m net net' q hmid hnet' hq with hq | ⟨p, hp, hnew⟩
    · -- Old credit stays with its site pin, since no BEL pin loses the pin that is mapped to it.
      refine (h.credit m old net q hold hmid hq).imp_right ?_
      rintro ⟨p, hp, r, honward, hr, hsink⟩
      obtain ⟨b, hb, hbq⟩ := SiteRoute.mem_sinkPins.1 hsink
      refine ⟨p, List.mem_append_left _ hp, r, honward.grows hgrows, hr, ?_⟩
      exact SiteRoute.mem_sinkPins.2 ⟨b, hb, hgrows.mapping_stays b q hbq⟩
    · exact .inr ⟨p, List.mem_append_right _ hp, hnew⟩
  · obtain ⟨net, hmid, -⟩ := hgrows.net_before hnet'
    exact (hothers m net net' hm hmid hnet').trans (h.others m old net hm hold hmid)

theorem arrive (h : Underway d n base reached trees pins im) (p : SitePinId) :
    Underway d n base (reached ++ [p]) trees pins im where
  routes := h.routes
  grows := h.grows
  intersite := h.intersite
  sourceSitePins := h.sourceSitePins
  credit m old net q hold hnet hq := by
    refine (h.credit m old net q hold hnet hq).imp_right ?_
    rintro ⟨p', hp', hnew⟩
    exact ⟨p', List.mem_append_left _ hp', hnew⟩
  others := h.others
  steers := h.steers

theorem keep (h : Underway d n base reached trees pins im) {nl : Netlist}
    (hgrows : im.netlist.Extends nl) (hkeeps : im.netlist.KeepsPassage nl)
    (hsteers : im.netlist.Steers nl) :
    Underway d n base reached trees pins { im with netlist := nl } := by
  have hpassage : ∀ m net net', im.netlist.net? m = some net → nl.net? m = some net' →
      net'.intersite = net.intersite ∧ net'.sourceSitePins = net.sourceSitePins ∧
        net'.routedSinks = net.routedSinks := by
    intro m net net' hnet hnet'
    simpa only [Net.passage, Prod.mk.injEq] using hkeeps.of_old hnet hnet'
  have hstep := h.step [] [] pins hgrows (fun net net' hnet hnet' => ?_)
    (fun m net net' q hnet hnet' hq => ?_) (fun m net net' _ hnet hnet' => ?_) hsteers
  · simpa only [List.append_nil] using hstep
  · obtain ⟨hintersite, hpins, -⟩ := hpassage n net net' hnet hnet'
    exact ⟨by rw [hintersite, List.append_nil], fun hleft => hpins.trans hleft⟩
  · rw [(hpassage m net net' hnet hnet').2.2] at hq
    exact .inl hq
  · obtain ⟨hintersite, hpins, -⟩ := hpassage m net net' hnet hnet'
    exact Prod.ext hintersite hpins

theorem mark (h : Underway d n base reached trees pins im) {p : SitePinId} {r : SiteRoute}
    {nl : Netlist} (hmark : r.markRouted im.netlist = .ok nl)
    (honward : Onward d n base { im with netlist := nl } p r) :
    Underway d n base (reached ++ [p]) trees pins { im with netlist := nl } := by
  have hgrows := SiteRoute.grows_of_markRouted hmark
  have hsteers := SiteRoute.steers_of_markRouted hmark
  obtain ⟨-, rfl⟩ := SiteRoute.markRouted_eq_ok.1 hmark
  have hways : ∀ m net net', im.netlist.net? m = some net →
      (im.netlist.modifyNet r.net fun net =>
        (r.sinkPins im.netlist).foldl Net.addRoutedSink net).net? m = some net' →
      net'.ways = net.ways := by
    intro m net net' hnet hnet'
    rw [Netlist.net?_modifyNet, hnet] at hnet'
    split at hnet'
    · obtain ⟨routedSinks, hsinks⟩ :=
        SiteRoute.exists_foldl_addRoutedSink (r.sinkPins im.netlist) net
      rw [Option.map_some, hsinks] at hnet'
      cases hnet'
      rfl
    · cases hnet'
      rfl
  have hstep := h.step [p] [] pins hgrows (fun net net' hnet hnet' => ?_)
    (fun m net net' q hnet hnet' hq => ?_) (fun m net net' _ => hways m net net') hsteers
  · simpa only [List.append_nil] using hstep
  · obtain ⟨hintersite, hpins⟩ := Prod.mk.inj (hways n net net' hnet hnet')
    exact ⟨by rw [hintersite, List.append_nil], fun hleft => hpins.trans hleft⟩
  · rw [Netlist.net?_modifyNet, hnet] at hnet'
    split at hnet'
    next heq =>
      cases hnet'
      rcases SiteRoute.mem_routedSinks_foldl.1 hq with hnew | hold
      · exact .inr ⟨p, by simp, r, honward, heq.symm, hnew⟩
      · exact .inl hold
    next =>
      cases hnet'
      exact .inl hq

theorem enter (h : Underway d n base reached trees pins im) {p : SitePinId}
    (hfree : im.siteRoutes[p]? = none) {net : Net} (hnet : im.netlist.net? n = some net)
    (hstatic : net.isStatic) {m : NetId} {mid nl : Netlist}
    (happly : (im.found d n (.sitePin p true)).apply d im.netlist = .ok (m, mid))
    (hmark : { im.found d n (.sitePin p true) with net := m }.markRouted mid = .ok nl) :
    Underway d n base (reached ++ [p]) trees pins { im with netlist := nl } := by
  have hsource := (im.origin_found d n (.sitePin p true)).2
  have hmark := SiteRoute.markRouted_of_apply hsource happly hmark
  have henters := SiteRoute.enters_of_apply happly
  have hgrows := SiteRoute.grows_of_enters henters
  have hmid := h.keep hgrows (SiteRoute.keepsPassage_of_apply hsource happly)
    (SiteRoute.steers_of_enters henters)
  obtain ⟨old, hold, hext⟩ := h.grows.net_before hnet
  have honward : Onward d n base { im with netlist := nl } p (im.found d n (.sitePin p true)) := by
    refine .searched (h.routes ▸ hfree) ⟨old, hold, ?_⟩ h.grows
      (hgrows.trans (SiteRoute.grows_of_markRouted hmark))
    rw [← Net.isStatic_congr hext.kind]
    exact hstatic
  exact hmid.mark hmark honward

theorem note (h : Underway d n base reached trees pins im) {settled : Prop} {f : Net → Net}
    (hf : Notes settled f) (hcredit : ∀ net, (f net).routedSinks = net.routedSinks)
    (added : List RouteTree) (left : List SitePinId)
    (hadded : ∀ net, (f net).intersite = net.intersite ++ added)
    (hleft : ∀ net, net.sourceSitePins = pins → (f net).sourceSitePins = left) :
    Underway d n base reached (trees ++ added) left
      { im with netlist := im.netlist.modifyNet n f } := by
  have hsteers := Netlist.Steers.modifyNet im.netlist n fun net => congrArg Prod.snd (hf.joins net)
  have hstep := h.step [] added left (Netlist.Extends.modifyNet im.netlist n hf.grows)
    (fun net net' hnet hnet' => ?_) (fun m net net' q hnet hnet' hq => ?_)
    (fun m net net' hm hnet hnet' => ?_) hsteers
  · simpa only [List.append_nil] using hstep
  · rw [Netlist.net?_modifyNet, if_pos rfl, hnet] at hnet'
    cases hnet'
    exact ⟨hadded net, hleft net⟩
  · rw [Netlist.net?_modifyNet, hnet] at hnet'
    split at hnet'
    · cases hnet'
      rw [hcredit] at hq
      exact .inl hq
    · cases hnet'
      exact .inl hq
  · rw [Netlist.net?_modifyNet, if_neg hm, hnet] at hnet'
    cases hnet'
    rfl

end Underway

/-! ## Searches under way -/

abbrev Ends {α : Type} (act : RecordM α) (im : Importer) (Q : α → Importer → Prop) : Prop :=
  Ensures True (fun _ => True) act im Q

theorem admits_any (d : Device) : Admits d (fun _ => True) True True fun _ => True where
  adds _ _ _ _ := trivial
  closed _ _ := .inl trivial

theorem ends_note (h : Underway d n base reached trees pins im) {f : Net → Net}
    (hf : Notes True f) (hcredit : ∀ net, (f net).routedSinks = net.routedSinks)
    (added : List RouteTree) (left : List SitePinId)
    (hadded : ∀ net, (f net).intersite = net.intersite ++ added)
    (hleft : ∀ net, net.sourceSitePins = pins → (f net).sourceSitePins = left) :
    Ends (editNet n f) im fun _ => Underway d n base reached (trees ++ added) left := by
  refine (ensures_editNet (admits_any d) trivial hf (.inl trivial)).post fun _ im' _ hout => ?_
  obtain ⟨-, rfl⟩ := hout
  exact h.note hf hcredit added left hadded hleft

theorem ends_addIntersite (h : Underway d n base reached trees pins im) (t : RouteTree) :
    Ends (editNet n fun net => net.addIntersite t) im
      fun _ => Underway d n base reached (trees ++ [t]) pins :=
  ends_note h (.lead t) (fun _ => rfl) [t] pins (fun _ => rfl) fun _ hpins => hpins

theorem ends_implicitSinks (h : Underway d n base reached trees pins im) {p : SitePinId}
    (hfree : im.siteRoutes[p]? = none) {net : Net} (hnet : im.netlist.net? n = some net)
    (hstatic : net.isStatic) :
    Ends (implicitSinks d n p) im fun _ => Underway d n base (reached ++ [p]) trees pins := by
  unfold implicitSinks
  refine (reads_searchSite trivial n (.sitePin p true)).bind fun r hr => ?_
  subst hr
  split
  next hvalid =>
    have hsource : ∀ pin allowUnused, SiteRoute.Source.sitePin p true = .sitePin pin allowUnused →
        allowUnused = true ∧ ∃ net, im.netlist.net? n = some net ∧ net.isStatic := by
      intro pin allowUnused hsource
      cases hsource
      exact ⟨rfl, net, hnet, hstatic⟩
    have henter := ensures_enterRouted (admits_any d) trivial hsource hvalid (.inl trivial)
    refine henter.discard_exists.post fun _ im' _ hout => ?_
    obtain ⟨m, mid, nl, happly, hmark, rfl, -⟩ := hout
    exact h.enter hfree hnet hstatic happly hmark
  next => exact .of_pure trivial (h.arrive p)

theorem ends_reachSitePin (h : Underway d n base reached trees pins im) (p : SitePinId) :
    Ends (reachSitePin d n p) im fun _ => Underway d n base (reached ++ [p]) trees pins := by
  unfold reachSitePin
  refine (Reads.of_get trivial).bind fun _ heq => ?_
  subst heq
  split
  next r hr =>
    refine (ensures_edit trivial (.inl trivial) fun _ _ => trivial).post fun _ im' _ hout => ?_
    obtain ⟨nl, hmark, rfl⟩ := hout
    exact h.mark hmark (.waiting (h.routes ▸ hr))
  next hfree =>
    refine (reads_getNet trivial (.inl trivial)).bind fun net hnet => ?_
    split
    next hstatic => exact ends_implicitSinks h hfree hnet hstatic
    next => exact .of_pure trivial (h.arrive p)

variable {pips : PipSet}

theorem ends_routeFrom (h : Underway d n base reached trees pins im) (start : Wire) :
    Ends (routeFrom d n pips start) im fun s im' => s = outcome d pips start ∧
      Underway d n base (reached ++ arrivals d pips start) trees pins im' := by
  unfold routeFrom
  rw [Intersite.route_eq]
  have hall : Ends ((arrivals d pips start).forM (reachSitePin d n)) im
      fun _ => Underway d n base (reached ++ arrivals d pips start) trees pins := by
    refine Ensures.forM_done (P := fun done => Underway d n base (reached ++ done) trees pins)
      (fun done p _ im _ h => ?_) [] trivial (by rwa [List.append_nil])
    rw [← List.append_assoc]
    exact ends_reachSitePin h p
  exact hall.bind fun _ im' _ h => .of_pure trivial ⟨rfl, h⟩

variable (d pips) in
/-- Whether a net leaves its site through a site pin: its route from there uses a PIP. -/
def leavesThrough (p : SitePinId) : Bool := (outcome d pips (d.externalWire p)).pipUsed

variable (d pips) in
def exitArrivals (ps : List SitePinId) : List SitePinId :=
  ps.flatMap fun p => arrivals d pips (d.externalWire p)

variable (d pips) in
def exitTrees (ps : List SitePinId) : List RouteTree :=
  (ps.filter (leavesThrough d pips)).map fun p => (outcome d pips (d.externalWire p)).tree

theorem exitArrivals_append (ps qs : List SitePinId) :
    exitArrivals d pips (ps ++ qs) = exitArrivals d pips ps ++ exitArrivals d pips qs :=
  List.flatMap_append

theorem exitTrees_append (ps qs : List SitePinId) :
    exitTrees d pips (ps ++ qs) = exitTrees d pips ps ++ exitTrees d pips qs := by
  simp only [exitTrees, List.filter_append, List.map_append]

theorem ends_routeFromSitePinOut (h : Underway d n base reached trees pins im) (p : SitePinId) :
    Ends (routeFromSitePinOut d n pips p) im fun used im' => used = leavesThrough d pips p ∧
      Underway d n base (reached ++ exitArrivals d pips [p]) (trees ++ exitTrees d pips [p])
        pins im' := by
  have harrivals : exitArrivals d pips [p] = arrivals d pips (d.externalWire p) :=
    List.flatMap_singleton ..
  unfold routeFromSitePinOut
  refine (ends_routeFrom h (d.externalWire p)).bind fun s im' _ hout => ?_
  obtain ⟨rfl, h⟩ := hout
  rw [harrivals]
  split
  next hused =>
    have htrees : exitTrees d pips [p] = [(outcome d pips (d.externalWire p)).tree] := by
      rw [exitTrees, List.filter_singleton, leavesThrough, hused]
      rfl
    rw [htrees]
    exact (ends_addIntersite h _).bind fun _ im'' _ h => .of_pure trivial ⟨rfl, h⟩
  next hunused =>
    have htrees : exitTrees d pips [p] = [] := by
      rw [exitTrees, List.filter_singleton, leavesThrough, Bool.eq_false_iff.2 hunused]
      rfl
    rw [htrees, List.append_nil]
    exact .of_pure trivial ⟨rfl, h⟩

theorem ends_removeSourceSitePins (h : Underway d n base reached trees pins im)
    (ps : List SitePinId) :
    Ends (ps.forM fun p => editNet n fun net => net.removeSourceSitePin p) im
      fun _ => Underway d n base reached trees (pins.filter (· ∉ ps)) := by
  refine Ensures.forM_done
    (P := fun done => Underway d n base reached trees (pins.filter (· ∉ done)))
    (fun done p _ im _ h => ?_) [] trivial (by simpa using h)
  have hstep := ends_note (f := fun net => net.removeSourceSitePin p) h (.stay p) (fun _ => rfl)
    [] (pins.filter (· ∉ done ++ [p])) (fun _ => (List.append_nil _).symm) fun net hpins => ?_
  · simpa only [List.append_nil] using hstep
  · change net.sourceSitePins.filter (· ≠ p) = _
    rw [hpins, List.filter_filter]
    refine List.filter_congr fun q _ => ?_
    simp [and_comm]

/-- The net `net` of `base` has been routed from its source site pins and, in a module, from where
its port brings it in. It is left with the source site pins that it leaves through. -/
structure Departed (d : Device) (n : NetId) (pips : PipSet) (base : Importer) (net : Net)
    (port : Option Wire) (im : Importer) : Prop where
  net_of_base : base.netlist.net? n = some net
  port_outside : ∀ w ∈ port, ∃ t name, w = .tile t name
  underway : Underway d n base
    (exitArrivals d pips net.sourceSitePins ++ port.toList.flatMap (arrivals d pips))
    (exitTrees d pips net.sourceSitePins ++ port.toList.map fun w => (outcome d pips w).tree)
    (net.sourceSitePins.filter (leavesThrough d pips)) im

theorem ends_routeFromPort (h : Underway d n base reached trees pins im) (start : Wire) :
    Ends (do
      let s ← routeFrom d n pips start
      editNet n fun net => net.addIntersite s.tree) im
        fun _ => Underway d n base (reached ++ arrivals d pips start)
          (trees ++ [(outcome d pips start).tree]) pins := by
  refine (ends_routeFrom h start).bind fun s im' _ hout => ?_
  obtain ⟨rfl, h⟩ := hout
  exact ends_addIntersite h _

theorem ends_leaveSites (n : NetId) (base : Importer) (isModule : Bool) :
    Ends (leaveSites d n pips isModule) base fun _ im' => ∃ net port,
      Departed d n pips base net port im' ∧
        if isModule then PortStart d im'.netlist n port else port = none := by
  unfold leaveSites
  refine (reads_getNetlist trivial).bind fun nl hnl => ?_
  subst hnl
  refine (reads_getNet trivial (.inl trivial)).bind fun net hn => ?_
  dsimp only
  have hunused : Ends (net.sourceSitePins.filterM fun p => do
      return !(← routeFromSitePinOut d n pips p)) base fun unused im' =>
        unused = net.sourceSitePins.filter (fun p => !leavesThrough d pips p) ∧
        Underway d n base (exitArrivals d pips net.sourceSitePins)
          (exitTrees d pips net.sourceSitePins) net.sourceSitePins im' := by
    refine Ensures.filterM_done (P := fun done unused im' =>
        unused = done.filter (fun p => !leavesThrough d pips p) ∧
        Underway d n base (exitArrivals d pips done) (exitTrees d pips done) net.sourceSitePins im')
      (fun done unused p _ im _ h => ?_) trivial ⟨rfl, .refl hn⟩
    obtain ⟨rfl, h⟩ := h
    refine (ends_routeFromSitePinOut h p).bind fun used im' _ hout => .of_pure trivial ?_
    obtain ⟨rfl, h⟩ := hout
    rw [exitArrivals_append, exitTrees_append]
    refine ⟨?_, h⟩
    rw [List.filter_append, List.filter_singleton]
    cases leavesThrough d pips p <;> simp
  refine hunused.bind fun unused im _ hout => ?_
  obtain ⟨rfl, h⟩ := hout
  refine (ends_removeSourceSitePins h _).bind fun _ im _ h => ?_
  have hleft : net.sourceSitePins.filter
      (· ∉ net.sourceSitePins.filter fun p => !leavesThrough d pips p) =
        net.sourceSitePins.filter (leavesThrough d pips) := by
    refine List.filter_congr fun p hp => ?_
    simp [hp]
  rw [hleft] at h
  have hnone : Departed d n pips base net none im := ⟨hn, by simp, by simpa using h⟩
  split
  · refine (reads_partitionStart (admits_any d) trivial (.inl trivial)).bind fun start hstart => ?_
    split
    next w =>
      refine (ends_routeFromPort h w).with_run.post fun _ im' _ hout => ?_
      obtain ⟨hlast, hrun⟩ := hout
      refine ⟨net, some w, ⟨hn, hstart.outside, by simpa using hlast⟩, ?_⟩
      -- What brings the net in was looked up before the search from there.
      obtain ⟨mid, hmid, -⟩ := h.grows.net_stays n net hn
      have hsince := (ends_routeFromPort (.refl hmid) w).result hrun
      cases hstart with
      | port hnode hw => exact .port (hsince.steers.broughtIn hsince.grows hnode) hw
    next hinside =>
      obtain rfl : start = none := Option.eq_none_iff_forall_ne_some.2 hinside
      exact .of_pure trivial ⟨net, none, hnone, hstart⟩
  · exact .of_pure trivial ⟨net, none, hnone, rfl⟩

/-! ## Records -/

/-- The searches of a `ROUTE` record for the net begin in `base`. Outside of modules the net has to
have source site pins by then. -/
def RoutesFrom (d : Device) (n : NetId) (name : String) (im base : Importer) : Prop :=
  if im.netlist.mode.isModule then base = im
  else (findSourceSitePins d n name).run.run im = .ok (.ok (), base)

theorem RoutesFrom.unique {name : String} {base' : Importer} (h : RoutesFrom d n name im base)
    (h' : RoutesFrom d n name im base') : base = base' := by
  unfold RoutesFrom at h h'
  split at h
  next hmode =>
    rw [if_pos hmode] at h'
    exact h.trans h'.symm
  next hmode =>
    rw [if_neg hmode] at h'
    cases h.symm.trans h'
    rfl

/-- A record has the net that it names routed out of its sites, and in a module from the wire at
which its port brings it in. -/
theorem ends_route_outside (im : Importer) (name : String) (tokens : List String) :
    Ends (route d (name :: tokens)) im fun _ im' => ∃ n pips base net port,
      (im.namedNet? name = some n ∧ PipSet.ofTokens tokens = .ok pips) ∧
      RoutesFrom d n name im base ∧ Departed d n pips base net port im' ∧
      if im.netlist.mode.isModule then PortStart d im'.netlist n port else port = none := by
  unfold route
  refine (reads_findNet (admits_any d) trivial name).bind fun n hn => ?_
  refine (reads_readPips trivial tokens).bind fun pips hpips => ?_
  refine (reads_getNetlist trivial).bind fun nl hnl => ?_
  subst hnl
  have hrest : ∀ base, RoutesFrom d n name im base → Ends (do
      leaveSites d n pips im.netlist.mode.isModule
      editNet n Net.updateStatus) base fun _ im' => ∃ n pips base net port,
        (im.namedNet? name = some n ∧ PipSet.ofTokens tokens = .ok pips) ∧
        RoutesFrom d n name im base ∧ Departed d n pips base net port im' ∧
        if im.netlist.mode.isModule then PortStart d im'.netlist n port else port = none := by
    intro base hbase
    refine (ends_leaveSites n base _).bind fun _ mid _ hleft => ?_
    obtain ⟨net, port, hleft, hport⟩ := hleft
    have hf : Notes True Net.updateStatus := .status trivial
    refine (ensures_editNet (admits_any d) trivial hf (.inl trivial)).post fun _ im' _ hout => ?_
    obtain ⟨-, rfl⟩ := hout
    have hsame : ∀ net : Net, net.updateStatus.source = net.source := fun _ => rfl
    have hdone := hleft.underway.note hf (fun _ => rfl) [] _ (fun _ => (List.append_nil _).symm)
      fun _ hpins => hpins
    rw [List.append_nil] at hdone
    refine ⟨n, pips, base, net, port, ⟨hn.1, hpips⟩, hbase,
      ⟨hleft.net_of_base, hleft.port_outside, hdone⟩, ?_⟩
    split at hport
    next hmodule =>
      rw [if_pos hmodule]
      exact hport.congr fun node => Netlist.broughtIn_modifyNet hsame
    next hmodule => rwa [if_neg hmodule]
  dsimp only
  split
  next hmode =>
    refine (ensures_findSourceSitePins (admits_any d) (fun _ _ => .inl trivial) trivial
      name).with_run.bind fun _ base _ hfound => hrest base ?_
    rw [RoutesFrom, if_neg (by simpa using hmode)]
    exact hfound.2
  next hmode =>
    refine hrest im ?_
    rw [RoutesFrom, if_pos (by simpa using hmode)]

theorem ends_route (im : Importer) (name : String) (tokens : List String) :
    Ends (route d (name :: tokens)) im fun _ im' => ∃ n pips base net port,
      im.namedNet? name = some n ∧ RoutesFrom d n name im base ∧
      Departed d n pips base net port im' := by
  refine (ends_route_outside im name tokens).post fun _ im' _ hout => ?_
  obtain ⟨n, pips, base, net, port, hnamed, hbase, hleft, -⟩ := hout
  exact ⟨n, pips, base, net, port, hnamed.1, hbase, hleft⟩

variable {desc : DeviceDescription}

/-- A net that has come to a site pin was given a tree that leads to the wire of the pin, or it came
over plain connections from a source site pin that it does not leave through. -/
theorem Departed.tree_or_trail (hd : Device.ofDescription desc = .ok d) {net : Net}
    {port : Option Wire} (h : Departed d n pips base net port im) {p : SitePinId}
    (hp : p ∈ exitArrivals d pips net.sourceSitePins ++
      port.toList.flatMap (arrivals d pips)) :
    (∃ t ∈ exitTrees d pips net.sourceSitePins ++
        port.toList.map fun w => (outcome d pips w).tree, d.externalWire p ∈ t.wires) ∨
      ∃ p₀ ∈ net.sourceSitePins, leavesThrough d pips p₀ = false ∧
        ∃ k, RouteTree.Trail (Intersite.Plain d) (d.externalWire p₀) k (d.externalWire p) := by
  rcases List.mem_append.1 hp with hexit | hport
  · obtain ⟨p₀, hp₀, hp⟩ := List.mem_flatMap.1 hexit
    have hwire := Intersite.externalWire_of_mem_arrivals hd hp
    cases hleaves : leavesThrough d pips p₀ with
    | true =>
      refine .inl ⟨_, List.mem_append_left _ (List.mem_map.2 ⟨p₀, ?_, rfl⟩), hwire⟩
      exact List.mem_filter.2 ⟨hp₀, hleaves⟩
    | false => exact .inr ⟨p₀, hp₀, hleaves, Intersite.trail_of_not_pipUsed hd hleaves hwire⟩
  · obtain ⟨w, hw, hp⟩ := List.mem_flatMap.1 hport
    obtain ⟨t, name, rfl⟩ := h.port_outside w (Option.mem_toList.1 hw)
    have hwire := Intersite.externalWire_of_mem_arrivals hd hp
    exact .inl ⟨_, List.mem_append_right _ (List.mem_map.2 ⟨_, hw, rfl⟩), hwire⟩

/-- A `ROUTE` record gives credit for the sinks of routes that take the net on from site pins. The
outer wire of such a site pin is in a tree that the record gives the net, or plain connections
lead to it from a source site pin that the record takes from the net. -/
theorem routedSinks_of_route (hd : Device.ofDescription desc = .ok d) {im' : Importer}
    {name : String} {tokens : List String}
    (hrun : (process d .route (name :: tokens)).run.run im = .ok (.ok (), im')) :
    ∃ n base net net' attached, im.namedNet? name = some n ∧ RoutesFrom d n name im base ∧
      base.netlist.net? n = some net ∧ im'.netlist.net? n = some net' ∧
      net'.intersite = net.intersite ++ attached ∧
      ∀ m old new q, base.netlist.net? m = some old → im'.netlist.net? m = some new →
        q ∈ new.routedSinks → q ∉ old.routedSinks →
        ∃ p r, Onward d n base im' p r ∧ r.net = m ∧ q ∈ r.sinkPins im'.netlist ∧
          ((∃ t ∈ attached, d.externalWire p ∈ t.wires) ∨
            ∃ p₀ ∈ net.sourceSitePins, p₀ ∉ net'.sourceSitePins ∧
              ∃ k, RouteTree.Trail (Intersite.Plain d) (d.externalWire p₀) k
                (d.externalWire p)) := by
  obtain ⟨n, pips, base, net, port, hnamed, hbase, hleft⟩ := (ends_route im name tokens).result hrun
  obtain ⟨net', hnet', -⟩ := hleft.underway.grows.net_stays n net hleft.net_of_base
  refine ⟨n, base, net, net', _, hnamed, hbase, hleft.net_of_base, hnet',
    hleft.underway.intersite net net' hleft.net_of_base hnet',
    fun m old new q hold hnew hq hq' => ?_⟩
  obtain ⟨p, hp, r, honward, hr, hsink⟩ :=
    (hleft.underway.credit m old new q hold hnew hq).resolve_left hq'
  refine ⟨p, r, honward, hr, hsink, (hleft.tree_or_trail hd hp).imp_right ?_⟩
  rintro ⟨p₀, hp₀, hstays, htrail⟩
  refine ⟨p₀, hp₀, fun hmem => ?_, htrail⟩
  rw [hleft.underway.sourceSitePins net' hnet'] at hmem
  rw [(List.mem_filter.1 hmem).2] at hstays
  cases hstays

def bypass : DeviceDescription where
  name := "bypass"
  family := .other
  tiles := [⟨"T", "CLB", [⟨"OA", [⟨"IA", none, .pip⟩]⟩, ⟨"OB", [⟨"IB", none, .wire⟩]⟩]⟩]
  siteTypes := [⟨"SLICE",
    [⟨"O", [⟨"P", none, .wire⟩, ⟨"Q", none, .wire⟩]⟩, ⟨"A", [⟨"DA", none, .wire⟩]⟩,
      ⟨"B", [⟨"DB", none, .wire⟩]⟩],
    [⟨"SRC", [⟨"O", .output, "O"⟩]⟩, ⟨"FA", [⟨"D", .input, "DA"⟩]⟩, ⟨"FB", [⟨"D", .input, "DB"⟩]⟩],
    [⟨"P", .output, "P", "OA"⟩, ⟨"Q", .output, "Q", "OB"⟩, ⟨"A", .input, "A", "IA"⟩,
      ⟨"B", .input, "B", "IB"⟩]⟩]
  sites := [⟨"S", "SLICE", "T"⟩]

def fanOut : NetlistDescription where
  name := "top"
  mode := .regular
  cells := [
    ⟨"src", "LUT1", some "S/SRC", false, ∅, [⟨"O", .output, ["O"]⟩]⟩,
    ⟨"fa", "FDRE", some "S/FA", false, ∅, [⟨"D", .input, ["D"]⟩]⟩,
    ⟨"fb", "FDRE", some "S/FB", false, ∅, [⟨"D", .input, ["D"]⟩]⟩]
  nets := [⟨"n", .wire, ["src/O", "fa/D", "fb/D"]⟩]
  staticNetOf := ∅
  staticRoutes := ∅

theorem exists_route_bypass : ∃ d nl im im' base net net',
    Device.ofDescription bypass = .ok d ∧ Netlist.ofDescription d fanOut = .ok nl ∧
    (Importer.ofNetlist nl).importText d "INTERSITE n S/Q S/A S/B" = .ok (.ok (), im) ∧
    (process d .route ["n"]).run.run im = .ok (.ok (), im') ∧
    (im.namedNet? "n" = some ⟨2⟩ ∧ RoutesFrom d ⟨2⟩ "n" im base) ∧
    base.netlist.net? ⟨2⟩ = some net ∧ im'.netlist.net? ⟨2⟩ = some net' ∧
    ⟨2⟩ ∉ net.routedSinks ∧ ⟨2⟩ ∈ net'.routedSinks ∧ net.intersite = [] ∧
    net'.intersite = [] := by
  have hrun : (do
      let d ← (Device.ofDescription bypass).toOption
      let nl ← (Netlist.ofDescription d fanOut).toOption
      let (r, im) ← ((Importer.ofNetlist nl).importText d "INTERSITE n S/Q S/A S/B").toOption
      let (r', im') ← ((process d .route ["n"]).run.run im).toOption
      let (r'', base) ← ((findSourceSitePins d ⟨2⟩ "n").run.run im).toOption
      let net ← base.netlist.net? ⟨2⟩
      let net' ← im'.netlist.net? ⟨2⟩
      return decide ((r.toOption = some () ∧ r'.toOption = some () ∧ r''.toOption = some ()) ∧
        (im.namedNet? "n" = some ⟨2⟩ ∧ im.netlist.mode.isModule = false) ∧
        ⟨2⟩ ∉ net.routedSinks ∧ ⟨2⟩ ∈ net'.routedSinks ∧ net.intersite = [] ∧
        net'.intersite = [])) = some true := by
    decide +kernel
  simp only [Option.bind_eq_bind, Option.bind_eq_some_iff, Checked.toOption_eq_some,
    Option.pure_def, Option.some.injEq, decide_eq_true_eq] at hrun
  obtain ⟨d, hd, nl, hnl, ⟨r, im⟩, htext, ⟨r', im'⟩, hroute, ⟨r'', base⟩, hbase, net, hnet, net',
    hnet', ⟨rfl, rfl, rfl⟩, ⟨hnamed, hmode⟩, hdone⟩ := hrun
  refine ⟨d, nl, im, im', base, net, net', hd, hnl, htext, hroute, ⟨hnamed, ?_⟩, hnet, hnet', hdone⟩
  rw [RoutesFrom, if_neg (by simp [hmode])]
  exact hbase

/-- There is credit for the input that the wire leads to, and no tree that leads to it. -/
theorem routedSinks_without_tree_bypass : ∃ d nl im im' base net net' attached,
    Device.ofDescription bypass = .ok d ∧ Netlist.ofDescription d fanOut = .ok nl ∧
    (Importer.ofNetlist nl).importText d "INTERSITE n S/Q S/A S/B" = .ok (.ok (), im) ∧
    (process d .route ["n"]).run.run im = .ok (.ok (), im') ∧ RoutesFrom d ⟨2⟩ "n" im base ∧
    base.netlist.net? ⟨2⟩ = some net ∧ im'.netlist.net? ⟨2⟩ = some net' ∧
    net'.intersite = net.intersite ++ attached ∧
    ¬ ∀ q ∈ net'.routedSinks, q ∉ net.routedSinks →
      ∃ p r, Onward d ⟨2⟩ base im' p r ∧ r.net = ⟨2⟩ ∧ q ∈ r.sinkPins im'.netlist ∧
        ∃ t ∈ attached, d.externalWire p ∈ t.wires := by
  obtain ⟨d, nl, im, im', base, net, net', hd, hnl, htext, hroute, ⟨-, hbase⟩, hnet, hnet', hbefore,
    hafter, hnone, hnone'⟩ := exists_route_bypass
  refine ⟨d, nl, im, im', base, net, net', [], hd, hnl, htext, hroute, hbase, hnet, hnet', ?_, ?_⟩
  · rw [hnone, hnone']
    rfl
  · intro htrees
    obtain ⟨-, -, -, -, -, t, ht, -⟩ := htrees ⟨2⟩ hafter hbefore
    cases ht

/-- The credit is for what plain connections lead to from a site pin that is dropped. -/
theorem routedSinks_of_route_bypass : ∃ d im im' n base net net',
    Device.ofDescription bypass = .ok d ∧
    (process d .route ["n"]).run.run im = .ok (.ok (), im') ∧
    im.namedNet? "n" = some n ∧ RoutesFrom d n "n" im base ∧
    base.netlist.net? n = some net ∧ im'.netlist.net? n = some net' ∧
    ⟨2⟩ ∈ net'.routedSinks ∧ ⟨2⟩ ∉ net.routedSinks ∧
    ∃ p r, Onward d n base im' p r ∧ r.net = n ∧ ⟨2⟩ ∈ r.sinkPins im'.netlist ∧
      ∃ p₀ ∈ net.sourceSitePins, p₀ ∉ net'.sourceSitePins ∧
        ∃ k, RouteTree.Trail (Intersite.Plain d) (d.externalWire p₀) k (d.externalWire p) := by
  obtain ⟨d, -, im, im', base, net, net', hd, -, -, hroute, ⟨hnamed, hbase⟩, hnet, hnet', hbefore,
    hafter, hnone, hnone'⟩ := exists_route_bypass
  obtain ⟨n, base₁, net₁, net₁', attached, hnamed₁, hbase₁, hnet₁, hnet₁', hattached, hcredit⟩ :=
    routedSinks_of_route hd hroute
  cases hnamed.symm.trans hnamed₁
  obtain rfl := hbase₁.unique hbase
  cases hnet.symm.trans hnet₁
  cases hnet'.symm.trans hnet₁'
  obtain ⟨p, r, honward, hr, hsink, htree | hdropped⟩ :=
    hcredit ⟨2⟩ net net' ⟨2⟩ hnet hnet' hafter hbefore
  · obtain ⟨t, ht, -⟩ := htree
    rw [hnone, hnone', List.nil_append] at hattached
    rw [← hattached] at ht
    cases ht
  · exact ⟨d, im, im', ⟨2⟩, base₁, net, net', hd, hroute, hnamed, hbase, hnet, hnet', hafter,
      hbefore, p, r, honward, hr, hsink, hdropped⟩

end Record

end Fabric
