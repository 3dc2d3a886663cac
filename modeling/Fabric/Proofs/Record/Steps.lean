import Fabric.Proofs.Record.Runs
import Fabric.Proofs.SiteRoute.Exact
import Fabric.Proofs.SiteRoute.Progress
import Fabric.Record.Import
/-!
# What a record can do

All that records do to an importer is made up of a few kinds of changes. Most of them only add.
Two take something away: a partition pin that takes the place of the pin of a port, and a tie
of a port to a constant, which may remove a net.
-/

namespace Fabric

def Netlist.UpToDate (nl : Netlist) (n : NetId) : Prop :=
  ∃ net, nl.net? n = some net ∧ net.status = net.computedStatus

theorem Netlist.upToDate_modifyNet {nl : Netlist} {n : NetId} (hn : (nl.net? n).isSome)
    {f : Net → Net} (hf : ∀ net, (f net).status = (f net).computedStatus) :
    (nl.modifyNet n f).UpToDate n := by
  obtain ⟨net, hnet⟩ := Option.isSome_iff_exists.1 hn
  refine ⟨f net, ?_, hf net⟩
  rw [net?_modifyNet, if_pos rfl, hnet, Option.map_some]

namespace Importer

def context (im : Importer) (d : Device) (s : SiteId) : SiteContext where
  device := d
  netlist := im.netlist
  usedPips := im.netlist.usedSitePips[s]?
  routethroughs := im.routethroughs

def found (im : Importer) (d : Device) (n : NetId) (source : SiteRoute.Source) : SiteRoute :=
  (SiteRoute.ofSource d n source).build (im.context d (source.site d))

theorem origin_found (im : Importer) (d : Device) (n : NetId) (source : SiteRoute.Source) :
    (im.found d n source).net = n ∧ (im.found d n source).source = source :=
  SiteRoute.origin_build (im.context d (source.site d)) n source

/-- The net that a name means in a record. The names of the constants always mean the constant
nets. -/
def namedNet? (im : Importer) (name : String) : Option NetId :=
  if name = Netlist.vccName then some Netlist.vcc
  else if name = Netlist.gndName then some Netlist.gnd
  else im.netlist.netNamed? name

def notePort (im : Importer) (port node : String) : Importer :=
  { im with netlist := { im.netlist with portNodes := im.netlist.portNodes.insert port node } }

theorem siteRoutes_ofNetlist (nl : Netlist) (p : SitePinId) :
    (ofNetlist nl).siteRoutes[p]? = none :=
  Std.ExtTreeMap.getElem?_empty

/-- The netlist is closed and the nets that routes wait for are there. -/
structure Closed (im : Importer) : Prop where
  netlist : im.netlist.Closed
  waiting : ∀ (p : SitePinId) (r : SiteRoute), im.siteRoutes[p]? = some r →
    (im.netlist.net? r.net).isSome

end Importer

namespace Record

/-! ## What searches find -/

section found

variable {d : Device} {desc : DeviceDescription} (hd : Device.ofDescription desc = .ok d)
  (im : Importer) (n : NetId) (source : SiteRoute.Source)

include hd

theorem finds_found : SiteRoute.Finds (im.context d (source.site d)) (SiteRoute.ofSource d n source)
    (source.site d) (im.found d n source) := by
  have hctx : Device.ofDescription desc = .ok (im.context d (source.site d)).device := hd
  obtain ⟨hsearched, -⟩ := SiteRoute.searched_ofSource hctx n source
  obtain ⟨v, hv⟩ := SiteRoute.exists_wire_of_source d source
  exact hsearched.finds hv

theorem root_of_found : (im.found d n source).tree.wire? 0 = some (source.wire d) :=
  (finds_found hd im n source).rooted.trans (SiteRoute.start?_ofSource d n source)

/-- The tree of a route ends at its sinks, and a net that comes in goes to its own pins. -/
theorem sink_of_found {b : BelPinId} (hb : b ∈ (im.found d n source).belPinSinks) :
    ∃ w, (im.found d n source).tree.EndsAt w ∧ d.terminal? w = some b ∧
      ∀ pin, source = .sitePin pin false → SiteRoute.OnNet im.netlist n b := by
  have hfinds := finds_found hd im n source
  obtain ⟨w, hreaches, hends⟩ := (hfinds.belPins b).1 hb
  have hleaf := (hfinds.leaves w).2 ⟨hreaches, .inl ⟨b, hends⟩⟩
  obtain ⟨-, -, hterminal, hon⟩ := hends
  rw [SiteRoute.ofSource_eq] at hon
  exact ⟨w, hleaf, hterminal, hon⟩

end found

/-! ## Kinds of changes -/

/-- What records note down with a net apart from routes inside sites, where its status may be
brought up to date or not. -/
inductive Notes (settled : Prop) : (Net → Net) → Prop
  | leave (p : SitePinId) : Notes settled fun net => net.addSourceSitePin p
  | stay (p : SitePinId) : Notes settled fun net => net.removeSourceSitePin p
  | lead (t : RouteTree) : Notes settled fun net => net.addIntersite t
  | inside (h : settled) : Notes settled fun net => (net.setIntrasite true).updateStatus
  | status (h : settled) : Notes settled Net.updateStatus

variable (d : Device)

/-- A change that takes no pin off a net and no net away, and brings the status of nets of `S` only
up to date. Wires in sites are chosen only where `C` allows it. -/
inductive Adds (S : NetId → Prop) (C : Prop) (im : Importer) : Importer → Prop
  /-- A route is entered and its sinks are marked. Through a site pin only constants come so. -/
  | enter {n m : NetId} {source : SiteRoute.Source} {mid nl : Netlist}
      (hsource : ∀ pin allowUnused, source = .sitePin pin allowUnused →
        allowUnused = true ∧ ∃ net, im.netlist.net? n = some net ∧ net.isStatic)
      (hvalid : (im.found d n source).isValid)
      (happly : (im.found d n source).apply d im.netlist = .ok (m, mid))
      (hmark : { im.found d n source with net := m }.markRouted mid = .ok nl) :
      Adds S C im { im with netlist := nl }
  /-- A route is entered and waits for the net to reach its site pin. -/
  | await {n m : NetId} {pin : SitePinId} {nl : Netlist}
      (hvalid : (im.found d n (.sitePin pin false)).isValid)
      (happly : (im.found d n (.sitePin pin false)).apply d im.netlist = .ok (m, nl)) :
      Adds S C im { im with
        netlist := nl
        siteRoutes := im.siteRoutes.insert pin { im.found d n (.sitePin pin false) with net := m } }
  /-- A net has reached the site pin where a route waits. -/
  | arrive {pin : SitePinId} {r : SiteRoute} {nl : Netlist} (hr : im.siteRoutes[pin]? = some r)
      (hmark : r.markRouted im.netlist = .ok nl) : Adds S C im { im with netlist := nl }
  | note {n : NetId} {f : Net → Net} (hf : Notes (S n) f) (hn : (im.netlist.net? n).isSome) :
      Adds S C im { im with netlist := im.netlist.modifyNet n f }
  | choose (hC : C) (s : SiteId) (choices : SitePipChoices) :
      Adds S C im { im with
        netlist := (im.netlist.setUsedSitePips s choices.used).addSitePipValues s choices.values }
  | pass (b : BelId) (through : Routethrough) :
      Adds S C im { im with routethroughs := im.routethroughs.insert b through }
  | tieOff (isVcc : Bool) (b : BelId) :
      Adds S C im (if isVcc then { im with vccBels := im.vccBels.insert b }
        else { im with gndBels := im.gndBels.insert b })
  | portNode (port node : String) : Adds S C im (im.notePort port node)

def NotedPort (nl : Netlist) (port : CellId) : Prop :=
  ∃ name, nl.cellNamed? name = some port ∧ (nl.portNodes[name]?).isSome

/-- A partition pin takes the place of the only pin of a port. -/
inductive Bounds (im : Importer) : Importer → Prop
  | intro {port : CellId} {cell : Cell} {p q : PinId} {wire : Wire} {isSource : Bool} {nl : Netlist}
      (hcell : im.netlist.cell? port = some cell) (hpin : cell.pins = [p])
      (hadd : im.netlist.addPartitionPin im.multiPortNets port p wire isSource = .ok (q, nl))
      (reservedNodes : Table Wire NetId) (hnoted : NotedPort im.netlist port) :
      Bounds im { im with netlist := { nl with reservedNodes } }

/-- A port is tied to a constant in place of its only pin. -/
inductive Ties (isVcc : Bool) (port : CellId) (im : Importer) : Importer → Prop
  | intro {cell : Cell} {p : PinId} {nl : Netlist} (hcell : im.netlist.cell? port = some cell)
      (hpin : cell.pins = [p])
      (htie : im.netlist.tiePort (Netlist.staticNet isVcc) port p = .ok nl)
      (hnoted : NotedPort im.netlist port) :
      Ties isVcc port im { im with netlist := nl }

/-- The record brings the status of the net up to date. `INTERSITE` and `ROUTE` do so with the net
that they name, `INTRASITE` with the one that the route from the source of the named net ends up
on. -/
inductive Settles (im : Importer) : RecordKind → List String → NetId → Prop
  | intersite {name : String} {tokens : List String} {n : NetId} (hn : im.namedNet? name = some n) :
      Settles im .intersite (name :: tokens) n
  | intrasite {name : String} {n m : NetId} {net : Net} {p : PinId} {pin : Pin} {b : BelPinId}
      {nl : Netlist} (hn : im.namedNet? name = some n) (hnet : im.netlist.net? n = some net)
      (hsource : net.source = some p) (hpin : im.netlist.pin? p = some pin)
      (hb : pin.belPins = [b])
      (happly : (im.found d n (.belPin b true)).apply d im.netlist = .ok (m, nl)) :
      Settles im .intrasite [name] m
  | route {name : String} {tokens : List String} {n : NetId} (hn : im.namedNet? name = some n) :
      Settles im .route (name :: tokens) n

variable {d} {S : NetId → Prop} {C : Prop} {im im' : Importer}

/-- A record settles one net at most. -/
theorem Settles.net_unique {kind : RecordKind} {args : List String} {n m : NetId}
    (hn : Settles d im kind args n) (hm : Settles d im kind args m) : n = m := by
  cases hn with
  | intersite hn =>
    cases hm with
    | intersite hm => exact Option.some.inj (hn.symm.trans hm)
  | intrasite hn hnet hsource hpin hb happly =>
    cases hm with
    | intrasite hn' hnet' hsource' hpin' hb' happly' =>
      cases hn.symm.trans hn'
      cases hnet.symm.trans hnet'
      cases hsource.symm.trans hsource'
      cases hpin.symm.trans hpin'
      cases hb.symm.trans hb'
      cases happly.symm.trans happly'
      rfl
  | route hn =>
    cases hm with
    | route hm => exact Option.some.inj (hn.symm.trans hm)

/-! ## What additions keep -/

theorem Notes.grows {settled : Prop} {f : Net → Net} (h : Notes settled f) (net : Net) :
    net.Extends (f net) := by
  cases h with
  | leave p => exact (Net.Registers.addSourceSitePin net p).grows
  | stay p => exact { Net.Extends.refl net with }
  | lead t => exact .addIntersite net t
  | inside => exact { Net.Extends.refl net with }
  | status => exact { Net.Extends.refl net with }

theorem Notes.joins {settled : Prop} {f : Net → Net} (h : Notes settled f) (net : Net) :
    (f net).joins = net.joins := by
  cases h with
  | leave p => exact (Net.Registers.addSourceSitePin net p).joins
  | stay p => rfl
  | lead t => rfl
  | inside => rfl
  | status => rfl

theorem Notes.name {settled : Prop} {f : Net → Net} (h : Notes settled f) (net : Net) :
    (f net).name = net.name :=
  (h.grows net).name

namespace Adds

theorem grows (h : Adds d S C im im') : im.netlist.Extends im'.netlist := by
  cases h with
  | enter _ _ happly hmark =>
    exact (SiteRoute.grows_of_enters (SiteRoute.enters_of_apply happly)).trans
      (SiteRoute.grows_of_markRouted hmark)
  | await _ happly => exact SiteRoute.grows_of_enters (SiteRoute.enters_of_apply happly)
  | arrive _ hmark => exact SiteRoute.grows_of_markRouted hmark
  | note hf _ => exact .modifyNet _ _ hf.grows
  | choose => exact .of_eq rfl rfl rfl
  | pass => exact .refl _
  | tieOff isVcc => cases isVcc <;> exact .refl _
  | portNode => exact .of_eq rfl rfl rfl

theorem consistent (h : Adds d S C im im') (hc : im.netlist.Consistent) :
    im'.netlist.Consistent := by
  cases h with
  | enter _ _ happly hmark =>
    exact SiteRoute.consistent_of_markRouted hmark
      (SiteRoute.consistent_of_enters (SiteRoute.enters_of_apply happly) hc)
  | await _ happly => exact SiteRoute.consistent_of_enters (SiteRoute.enters_of_apply happly) hc
  | arrive _ hmark => exact SiteRoute.consistent_of_markRouted hmark hc
  | note hf _ => exact hc.modifyNet _ hf.joins
  | choose => exact hc.congr (fun _ => rfl) (fun _ => rfl) hc.pin_of_cell
  | pass => exact hc
  | tieOff isVcc => cases isVcc <;> exact hc
  | portNode => exact hc.congr (fun _ => rfl) (fun _ => rfl) hc.pin_of_cell

theorem netlist_closed (h : Adds d S C im im') (hc : im.netlist.Closed) : im'.netlist.Closed := by
  cases h with
  | enter _ _ happly hmark =>
    exact SiteRoute.closed_of_markRouted hmark
      (SiteRoute.closed_of_enters (SiteRoute.enters_of_apply happly) hc)
  | await _ happly => exact SiteRoute.closed_of_enters (SiteRoute.enters_of_apply happly) hc
  | arrive _ hmark => exact SiteRoute.closed_of_markRouted hmark hc
  | note hf _ => exact hc.modifyNet _ hf.joins hf.name
  | choose =>
    exact hc.rejoin (hc.toConsistent.congr (fun _ => rfl) (fun _ => rfl) hc.pin_of_cell)
      ⟨rfl, rfl, rfl, rfl, rfl, fun _ => rfl, fun _ => rfl⟩
  | pass => exact hc
  | tieOff isVcc => cases isVcc <;> exact hc
  | portNode =>
    exact hc.rejoin (hc.toConsistent.congr (fun _ => rfl) (fun _ => rfl) hc.pin_of_cell)
      ⟨rfl, rfl, rfl, rfl, rfl, fun _ => rfl, fun _ => rfl⟩

theorem waiting (h : Adds d S C im im') {p : SitePinId} {r : SiteRoute}
    (hr : im'.siteRoutes[p]? = some r) :
    im.siteRoutes[p]? = some r ∨ ∃ n m, (im.found d n (.sitePin p false)).isValid ∧
      (im.found d n (.sitePin p false)).apply d im.netlist = .ok (m, im'.netlist) ∧
      r = { im.found d n (.sitePin p false) with net := m } := by
  cases h with
  | enter => exact .inl hr
  | @await n m pin nl hvalid happly =>
    dsimp only at hr
    rw [Std.ExtTreeMap.getElem?_insert] at hr
    split at hr
    next heq =>
      obtain rfl := Std.LawfulEqCmp.compare_eq_iff_eq.1 heq
      cases hr
      exact .inr ⟨n, m, hvalid, happly, rfl⟩
    next => exact .inl hr
  | arrive => exact .inl hr
  | note => exact .inl hr
  | choose => exact .inl hr
  | pass => exact .inl hr
  | tieOff isVcc => cases isVcc <;> exact .inl hr
  | portNode => exact .inl hr

theorem sinks_of_found {n : NetId} {pin : SitePinId} {allowUnused : Bool}
    (hvalid : (im.found d n (.sitePin pin allowUnused)).isValid) :
    (im.found d n (.sitePin pin allowUnused)).belPinSinks ≠ [] := by
  unfold SiteRoute.isValid at hvalid
  rw [(im.origin_found d n _).2] at hvalid
  simpa using hvalid

theorem closed (h : Adds d S C im im') (hc : im.Closed) : im'.Closed where
  netlist := h.netlist_closed hc.netlist
  waiting p r hr := by
    rcases h.waiting hr with hold | ⟨n, m, hvalid, happly, rfl⟩
    · rw [h.grows.isSome_net?]
      exact hc.waiting p r hold
    · obtain ⟨net, hnet, -⟩ := SiteRoute.tree_of_apply happly (sinks_of_found hvalid)
      rw [hnet]
      rfl

end Adds

/-! ## Walks -/

/-- What holds of states from which records are taken in: additions keep it, and where no fault
is allowed the importer is closed. -/
structure Admits (d : Device) (S : NetId → Prop) (C F : Prop) (I : Importer → Prop) : Prop where
  adds : ∀ im im', I im → Adds d S C im im' → I im'
  closed : ∀ im, I im → F ∨ im.Closed

variable {F : Prop} {I : Importer → Prop}

namespace Admits

theorem netlist_closed (h : Admits d S C F I) (him : I im) : F ∨ im.netlist.Closed :=
  (h.closed im him).imp_right Importer.Closed.netlist

theorem onNet (h : Admits d S C F I) (n : NetId) :
    Admits d S C F fun im => I im ∧ (F ∨ (im.netlist.net? n).isSome) where
  adds im im' him hadds := by
    refine ⟨h.adds im im' him.1 hadds, him.2.imp_right fun hn => ?_⟩
    rw [hadds.grows.isSome_net?]
    exact hn
  closed im him := h.closed im him.1

end Admits

end Record

end Fabric
