import Fabric.Proofs.Record.Outcome
import Fabric.Proofs.SiteRoute.Resemblance
/-!
# Records and the status of the constants

No record looks at the status of a net. Importers that differ in the status of the constant nets
only take in a record alike: they refuse it for the same reason or differ no further afterwards.
-/

namespace Fabric

namespace Importer

def blur (im : Importer) : Importer := { im with netlist := im.netlist.blur }

/-- The importers differ in the status of the constant nets at most. -/
def Resembles (im im' : Importer) : Prop := im.blur = im'.blur

namespace Resembles

variable {im im' : Importer} (h : im.Resembles im')

include h

theorem netlist : im.netlist.Resembles im'.netlist := congrArg Importer.netlist h

theorem view {α : Type} {f : Importer → α} (hf : ∀ im, f im.blur = f im) : f im = f im' := by
  rw [← hf im, ← hf im']
  exact congrArg f h

theorem siteRoutes : im.siteRoutes = im'.siteRoutes := h.view fun _ => rfl

theorem multiPortNets : im.multiPortNets = im'.multiPortNets := h.view fun _ => rfl

theorem frame {f : Importer → Importer} (hf : ∀ im, (f im).blur = f im.blur) :
    (f im).Resembles (f im') := by
  rw [Resembles, hf, hf]
  exact congrArg f h

theorem setNetlist {nl nl' : Netlist} (hnl : nl.Resembles nl') :
    { im with netlist := nl }.Resembles { im' with netlist := nl' } := by
  have hrest := congrArg (fun im => { im with netlist := nl.blur }) h
  exact hrest.trans (congrArg (fun nl => { im' with netlist := nl }) hnl)

end Resembles

end Importer

namespace Record

variable {α β : Type} {im im' : Importer}

/-- The actions come to the same from the two importers, up to the status of the constants. -/
abbrev Matches (Q : α → β → Prop) (act : RecordM α) (act' : RecordM β) (im im' : Importer) : Prop :=
  Alike Importer.Resembles Eq Q act act' im im'

/-! ## Looking things up -/

section lookup

variable (h : im.Resembles im')

include h

theorem matches_getNetlist : Matches Netlist.Resembles getNetlist getNetlist im im' :=
  (Alike.of_get h).bind fun _ _ _ _ ht hs => .of_pure ht hs.netlist

theorem matches_lift (x : Except Fault α) : Matches Eq (liftM x) (liftM x) im im' :=
  .of_lift (.refl x) h

theorem matches_getNet {nl nl' : Netlist} (hnl : nl.Resembles nl') (n : NetId) :
    Matches Net.Resembles (liftM (nl.getNet n)) (liftM (nl'.getNet n)) im im' :=
  .of_lift (hnl.getNet n) h

theorem matches_readNet {Q : α → β → Prop} (n : NetId) {f : Net → RecordM α} {g : Net → RecordM β}
    (hfg : ∀ net net' im im', im.Resembles im' → net.Resembles net' →
      Matches Q (f net) (g net') im im') :
    Matches Q (do f (← (← getNetlist).getNet n)) (do g (← (← getNetlist).getNet n)) im im' := by
  refine (matches_getNetlist h).bind fun nl nl' im im' h hnl => ?_
  exact (matches_getNet h hnl n).bind fun net net' im im' h hnet => hfg net net' im im' h hnet

theorem matches_require (e : RecordError) (o : Option α) :
    Matches Eq (require e o) (require e o) im im' := by
  cases o with
  | none => exact .of_throw h rfl
  | some a => exact .of_pure h rfl

theorem matches_findNet (name : String) : Matches Eq (findNet name) (findNet name) im im' := by
  unfold findNet
  split
  · exact .of_pure h rfl
  · split
    · exact .of_pure h rfl
    · refine (matches_getNetlist h).bind fun nl nl' im im' h hnl => ?_
      rw [hnl.netNamed?]
      exact matches_require h _ _

theorem matches_findCell (name : String) : Matches Eq (findCell name) (findCell name) im im' := by
  unfold findCell
  refine (matches_getNetlist h).bind fun nl nl' im im' h hnl => ?_
  rw [hnl.cellNamed?]
  exact matches_require h _ _

variable (d : Device)

theorem matches_findSite (name : String) : Matches Eq (findSite d name) (findSite d name) im im' :=
  matches_require h _ _

theorem matches_findSitePin (s : SiteId) (name : String) :
    Matches Eq (findSitePin d s name) (findSitePin d s name) im im' :=
  matches_require h _ _

theorem matches_findBel (s : SiteId) (name : String) :
    Matches Eq (findBel d s name) (findBel d s name) im im' :=
  matches_require h _ _

theorem matches_findBelPin (b : BelId) (name : String) :
    Matches Eq (findBelPin d b name) (findBelPin d b name) im im' :=
  matches_require h _ _

theorem matches_findTile (name : String) : Matches Eq (findTile d name) (findTile d name) im im' :=
  matches_require h _ _

theorem matches_findTileWire (token : String) :
    Matches Eq (findTileWire d token) (findTileWire d token) im im' := by
  unfold findTileWire
  split
  · refine (matches_findTile h d _).bind_same fun t im im' h => ?_
    exact (matches_require h _ _).bind_same fun w im im' h => .of_pure h rfl
  · exact .of_throw h rfl

theorem matches_findPartitionWire (token : String) :
    Matches Eq (findPartitionWire d token) (findPartitionWire d token) im im' := by
  unfold findPartitionWire
  split
  · refine (matches_findTile h d _).bind_same fun t im im' h => ?_
    exact (matches_require h _ _).bind_same fun w im im' h => .of_pure h rfl
  · exact .of_throw h rfl

omit d

theorem matches_readPips (tokens : List String) :
    Matches Eq (readPips tokens) (readPips tokens) im im' := by
  unfold readPips
  split
  · exact .of_pure h rfl
  · exact .of_throw h rfl

theorem matches_readDirection (token : String) :
    Matches Eq (readDirection token) (readDirection token) im im' := by
  unfold readDirection
  split
  · exact .of_pure h rfl
  · split
    · exact .of_pure h rfl
    · exact .of_throw h rfl

theorem matches_portPin (c : CellId) : Matches Eq (portPin c) (portPin c) im im' := by
  unfold portPin
  refine (matches_getNetlist h).bind fun nl nl' im im' h hnl => ?_
  rw [hnl.getCell c]
  refine (matches_lift h _).bind_same fun cell im im' h => ?_
  split
  · exact .of_pure h rfl
  · exact .of_throw h rfl

theorem matches_netSource (n : NetId) : Matches Eq (netSource n) (netSource n) im im' := by
  unfold netSource
  refine matches_readNet h n fun net net' im im' h hnet => ?_
  rw [hnet.name, hnet.source]
  exact matches_require h _ _

theorem matches_mappedBelPin (p : PinId) : Matches Eq (mappedBelPin p) (mappedBelPin p) im im' := by
  unfold mappedBelPin
  refine (matches_getNetlist h).bind fun nl nl' im im' h hnl => ?_
  rw [hnl.getPin p, hnl.mode, hnl.pinFullName p]
  refine (matches_lift h _).bind_same fun pin im im' h => ?_
  split
  · exact .of_pure h rfl
  · split
    · exact .of_pure h rfl
    · exact (matches_lift h _).bind_same fun name im im' h => .of_throw h rfl

theorem matches_noRoute (source : String) (n : NetId) :
    Matches Eq (noRoute source n) (noRoute source n) im im' := by
  unfold noRoute
  refine matches_readNet h n fun net net' im im' h hnet => ?_
  rw [hnet.name]
  exact .of_pure h rfl

theorem matches_partitionStart (d : Device) (n : NetId) :
    Matches Eq (partitionStart d n) (partitionStart d n) im im' := by
  unfold partitionStart
  refine (matches_getNetlist h).bind fun nl nl' im im' h hnl => ?_
  refine (matches_getNet h hnl n).bind fun net net' im im' h hnet => ?_
  rw [hnet.source]
  split
  next p _ =>
    rw [hnl.getPin p]
    refine (matches_lift h _).bind_same fun pin im im' h => ?_
    rw [hnl.getCell pin.cell, hnl.portNodes]
    refine (matches_lift h _).bind_same fun cell im im' h => ?_
    split
    · exact .of_pure h rfl
    · split
      · exact .of_pure h rfl
      · split
        · exact .of_pure h rfl
        · refine (matches_findPartitionWire h d _).bind_same fun w im im' h => ?_
          exact .of_pure h rfl
  · exact .of_pure h rfl

theorem matches_searchSite (d : Device) (s : SiteId) (r : SiteRoute) :
    Matches Eq (searchSite d s r) (searchSite d s r) im im' := by
  unfold searchSite
  refine (Alike.of_get h).bind fun im im' _ _ ht h => ?_
  refine .of_pure ht (h.view (f := fun im => r.build
    ⟨d, im.netlist, im.netlist.usedSitePips[s]?, im.routethroughs⟩) fun im => ?_)
  exact SiteRoute.build_blur ⟨d, im.netlist, im.netlist.usedSitePips[s]?, im.routethroughs⟩ r

end lookup

/-! ## Changing nets -/

section change

variable (h : im.Resembles im')

include h

theorem matches_edit {f : Netlist → Except Fault Netlist}
    (hf : ∀ nl nl', nl.Resembles nl' → Checked.Alike Eq Netlist.Resembles (f nl) (f nl')) :
    Matches Eq (edit f) (edit f) im im' := by
  unfold edit
  refine (Alike.of_get h).bind fun im im' t t' ht h => ?_
  refine (Alike.of_lift (hf _ _ h.netlist) ht).bind fun nl nl' _ _ _ hnl => ?_
  exact .of_set (h.setNetlist hnl)

theorem matches_editNet (n : NetId) {f : Net → Net} (hf : Net.Blind f) :
    Matches Eq (editNet n f) (editNet n f) im im' :=
  matches_edit h fun _ _ hnl => hnl.updateNet n hf

theorem matches_setPortNode (port node : String) :
    Matches Eq (setPortNode port node) (setPortNode port node) im im' := by
  refine matches_edit h fun nl nl' hnl => .ok ?_
  exact hnl.frame (f := fun nl => { nl with portNodes := nl.portNodes.insert port node })
    fun _ => rfl

variable (d : Device)

theorem matches_enterRouted (r : SiteRoute) :
    Matches Eq (enterRouted d r) (enterRouted d r) im im' := by
  unfold enterRouted
  refine (Alike.of_get h).bind fun im im' t t' ht h => ?_
  refine (Alike.of_lift (SiteRoute.alike_apply h.netlist d r) ht).bind
    fun a b t t' ht hab => ?_
  obtain ⟨n, nl⟩ := a
  obtain ⟨m, nl'⟩ := b
  obtain ⟨rfl, hnl⟩ : n = m ∧ nl.Resembles nl' := hab
  have hmarked := SiteRoute.alike_markRouted hnl { r with net := n }
  refine (Alike.of_lift hmarked ht).bind fun nl nl' _ _ _ hnl => ?_
  exact (Alike.of_set (h.setNetlist hnl)).bind_same fun _ _ _ h => .of_pure h rfl

theorem matches_tryStaticRoute (n : NetId) (p : BelPinId) :
    Matches Eq (tryStaticRoute d n p) (tryStaticRoute d n p) im im' := by
  unfold tryStaticRoute
  refine (matches_searchSite h d _ _).bind_same fun r im im' h => ?_
  split
  · exact (matches_enterRouted h d r).discard.bind_same fun _ im im' h => .of_pure h rfl
  · exact .of_pure h rfl

theorem matches_refuseRoute (source : String) (n : NetId) :
    Matches (α := α) (β := α) Eq (do throw (← noRoute source n))
      (do throw (← noRoute source n)) im im' :=
  (matches_noRoute h source n).bind_same fun _ _ _ h => .of_throw h rfl

theorem matches_routeFromBelPin (n : NetId) (p : BelPinId) (contained : Bool) :
    Matches Eq (routeFromBelPin d n p contained) (routeFromBelPin d n p contained) im im' := by
  unfold routeFromBelPin
  refine (matches_searchSite h d _ _).bind_same fun r im im' h => ?_
  split
  · exact matches_enterRouted h d r
  · exact matches_refuseRoute h _ n

theorem matches_routeFromSitePin (n : NetId) (p : SitePinId) :
    Matches Eq (routeFromSitePin d n p) (routeFromSitePin d n p) im im' := by
  unfold routeFromSitePin
  refine (matches_searchSite h d _ _).bind_same fun r im im' h => ?_
  split
  · refine (Alike.of_get h).bind fun im im' t t' ht h => ?_
    refine (Alike.of_lift (SiteRoute.alike_apply h.netlist d r) ht).bind
      fun a b t t' ht hab => ?_
    obtain ⟨n, nl⟩ := a
    obtain ⟨m, nl'⟩ := b
    obtain ⟨rfl, hnl⟩ : n = m ∧ nl.Resembles nl' := hab
    refine .of_set ((h.setNetlist hnl).frame (f := fun im => { im with
      siteRoutes := im.siteRoutes.insert p { r with net := n } }) fun _ => rfl)
  · exact matches_refuseRoute h _ n

/-! ## Records about sites -/

theorem matches_readSitePip (s : SiteId) (choices : SitePipChoices) (token : String) :
    Matches Eq (readSitePip d s choices token) (readSitePip d s choices token) im im' := by
  unfold readSitePip
  refine (matches_require h _ _).bind_same fun (pip, input) im im' h => ?_
  refine (matches_require h _ _).bind_same fun w im im' h => ?_
  dsimp only
  split
  · exact .of_pure h rfl
  · exact .of_pure h rfl
  · exact (Alike.of_throw (Q := Eq) h rfl).bind_same fun _ im im' h => .of_pure h rfl

theorem matches_routeTieOffs (s : SiteId) :
    Matches Eq (routeTieOffs d s) (routeTieOffs d s) im im' := by
  refine .forM (fun name _ im im' h => ?_) h
  split
  · exact .forM (fun p _ im im' h => (matches_tryStaticRoute h d _ p).discard) h
  · exact .of_pure h rfl

theorem matches_sitePips (args : List String) :
    Matches Eq (sitePips d args) (sitePips d args) im im' := by
  unfold sitePips
  split
  · exact .of_throw h rfl
  next siteName tokens =>
    refine (matches_findSite h d siteName).bind_same fun s im im' h => ?_
    have hchoices : Matches Eq (tokens.foldlM (readSitePip d s) {})
        (tokens.foldlM (readSitePip d s) {}) im im' := by
      refine .foldlM (fun token _ a b im im' h heq => ?_) h rfl
      subst heq
      exact matches_readSitePip h d s a token
    refine hchoices.bind_same fun choices im im' h => ?_
    refine (matches_edit h fun nl nl' hnl => .ok ?_).bind_same fun _ im im' h => ?_
    · exact hnl.frame (f := fun nl =>
        (nl.setUsedSitePips s choices.used).addSitePipValues s choices.values) fun _ => rfl
    · exact matches_routeTieOffs h d s

theorem matches_routethroughs (tokens : List String) :
    Matches Eq (routethroughs d tokens) (routethroughs d tokens) im im' := by
  refine .forM (fun token _ im im' h => ?_) h
  split
  · refine (matches_findSite h d _).bind_same fun s im im' h => ?_
    refine (matches_findBel h d s _).bind_same fun b im im' h => ?_
    refine (matches_findBelPin h d b _).bind_same fun input im im' h => ?_
    refine (matches_findBelPin h d b _).bind_same fun output im im' h => ?_
    exact .of_modify (h.frame (f := fun im => { im with
      routethroughs := im.routethroughs.insert b ⟨input, output⟩ }) fun _ => rfl)
  · exact .of_throw h rfl

theorem matches_staticSources (isVcc : Bool) (tokens : List String) :
    Matches Eq (staticSources d isVcc tokens) (staticSources d isVcc tokens) im im' := by
  refine .forM (fun token _ im im' h => ?_) h
  split
  · refine (matches_findSite h d _).bind_same fun s im im' h => ?_
    refine (matches_findBel h d s _).bind_same fun b im im' h => ?_
    refine (matches_findBelPin h d b _).bind_same fun p im im' h => ?_
    refine (matches_tryStaticRoute h d _ p).bind_same fun found im im' h => ?_
    split
    · refine .of_modify (h.frame (f := fun im => if isVcc then
        { im with vccBels := im.vccBels.insert b } else
        { im with gndBels := im.gndBels.insert b }) fun im => ?_)
      cases isVcc <;> rfl
    · exact matches_refuseRoute h _ _
  · exact .of_throw h rfl

/-! ## Records about nets -/

theorem matches_implicitSinks (n : NetId) (p : SitePinId) :
    Matches Eq (implicitSinks d n p) (implicitSinks d n p) im im' := by
  unfold implicitSinks
  refine (matches_searchSite h d _ _).bind_same fun r im im' h => ?_
  split
  · exact (matches_enterRouted h d r).discard
  · exact .of_pure h rfl

theorem matches_reachSitePin (n : NetId) (p : SitePinId) :
    Matches Eq (reachSitePin d n p) (reachSitePin d n p) im im' := by
  unfold reachSitePin
  refine (Alike.of_get h).bind fun im im' t t' ht h => ?_
  rw [h.siteRoutes]
  split
  next r _ => exact matches_edit ht fun _ _ hnl => SiteRoute.alike_markRouted hnl r
  next =>
    refine (matches_getNet ht h.netlist n).bind fun net net' im im' h hnet => ?_
    rw [hnet.isStatic]
    split
    · exact matches_implicitSinks h d n p
    · exact .of_pure h rfl

theorem matches_routeFrom (n : NetId) (pips : PipSet) (start : Wire) :
    Matches Eq (routeFrom d n pips start) (routeFrom d n pips start) im im' := by
  unfold routeFrom
  rw [Intersite.route_eq]
  have harrivals : Matches Eq ((Intersite.arrivals d pips start).forM (reachSitePin d n))
      ((Intersite.arrivals d pips start).forM (reachSitePin d n)) im im' :=
    .forM (fun p _ _ _ h => matches_reachSitePin h d n p) h
  exact harrivals.bind_same fun _ im im' h => .of_pure h rfl

theorem matches_routeFromSource (n : NetId) :
    Matches Eq (routeFromSource d n) (routeFromSource d n) im im' := by
  unfold routeFromSource
  refine (matches_netSource h n).bind_same fun p im im' h => ?_
  refine (matches_mappedBelPin h p).bind_same fun b im im' h => ?_
  split
  · exact (matches_routeFromBelPin h d n _ false).discard
  · exact .of_pure h rfl

theorem matches_addSitePin (n : NetId) (token : String) :
    Matches Eq (addSitePin d n token) (addSitePin d n token) im im' := by
  unfold addSitePin
  split
  · refine (matches_findSite h d _).bind_same fun s im im' h => ?_
    refine (matches_findSitePin h d s _).bind_same fun p im im' h => ?_
    split
    · exact matches_routeFromSitePin h d n p
    · refine (matches_getNetlist h).bind fun nl nl' im im' h hnl => ?_
      refine (matches_getNet h hnl n).bind fun net net' im im' h hnet => ?_
      dsimp only
      rw [hnet.sourceSitePins]
      refine (matches_editNet h n (Net.blind_addSourceSitePin p)).bind_same fun _ im im' h => ?_
      split
      · exact matches_routeFromSource h d n
      · exact .of_pure h rfl
  · exact .of_throw h rfl

theorem matches_intersite (args : List String) :
    Matches Eq (intersite d args) (intersite d args) im im' := by
  unfold intersite
  split
  · exact .of_throw h rfl
  next netName tokens =>
    refine (matches_findNet h netName).bind_same fun n im im' h => ?_
    have hpins : Matches Eq (tokens.forM (addSitePin d n)) (tokens.forM (addSitePin d n)) im im' :=
      .forM (fun token _ _ _ h => matches_addSitePin h d n token) h
    exact hpins.bind_same fun _ im im' h => matches_editNet h n Net.blind_updateStatus

theorem matches_intrasite (args : List String) :
    Matches Eq (intrasite d args) (intrasite d args) im im' := by
  unfold intrasite
  split
  next netName =>
    refine (matches_findNet h netName).bind_same fun n im im' h => ?_
    refine matches_readNet h n fun net net' im im' h hnet => ?_
    rw [hnet.source]
    split
    next p _ =>
      refine (matches_mappedBelPin h p).bind_same fun b im im' h => ?_
      split
      · refine (matches_routeFromBelPin h d n _ true).bind_same fun m im im' h => ?_
        exact matches_editNet h m Net.blind_settleIntrasite
      · exact .of_pure h rfl
    · exact .of_pure h rfl
  · exact .of_throw h rfl

theorem matches_routeFromSitePinOut (n : NetId) (pips : PipSet) (p : SitePinId) :
    Matches Eq (routeFromSitePinOut d n pips p) (routeFromSitePinOut d n pips p) im im' := by
  unfold routeFromSitePinOut
  refine (matches_routeFrom h d n pips _).bind_same fun s im im' h => ?_
  split
  · refine (matches_editNet h n (Net.blind_addIntersite s.tree)).bind_same fun _ im im' h => ?_
    exact .of_pure h rfl
  · exact .of_pure h rfl

theorem matches_findSourceSitePins (n : NetId) (netName : String) :
    Matches Eq (findSourceSitePins d n netName) (findSourceSitePins d n netName) im im' := by
  have hneeded : ∀ {im im' : Importer}, im.Resembles im' → Matches Eq
      (do
        if (← (← getNetlist).getNet n).sourceSitePins.isEmpty then
          throw (.noSourceSitePin netName))
      (do
        if (← (← getNetlist).getNet n).sourceSitePins.isEmpty then
          throw (.noSourceSitePin netName)) im im' := by
    intro im im' h
    refine matches_readNet h n fun net net' im im' h hnet => ?_
    rw [hnet.sourceSitePins]
    split
    · exact .of_throw h rfl
    · exact .of_pure h rfl
  unfold findSourceSitePins
  refine matches_readNet h n fun net net' im im' h hnet => ?_
  dsimp only
  rw [hnet.sourceSitePins]
  split
  · exact (matches_routeFromSource h d n).bind_same fun _ im im' h => hneeded h
  · exact hneeded h

theorem matches_leaveSites (n : NetId) (pips : PipSet) (isModule : Bool) :
    Matches Eq (leaveSites d n pips isModule) (leaveSites d n pips isModule) im im' := by
  unfold leaveSites
  refine matches_readNet h n fun net net' im im' h hnet => ?_
  dsimp only
  rw [hnet.sourceSitePins]
  have hunused : Matches Eq
      (net'.sourceSitePins.filterM fun p => do return !(← routeFromSitePinOut d n pips p))
      (net'.sourceSitePins.filterM fun p => do return !(← routeFromSitePinOut d n pips p)) im im' :=
    .filterM (fun p _ _ _ h => (matches_routeFromSitePinOut h d n pips p).bind_same
      fun _ _ _ h => .of_pure h rfl) h
  refine hunused.bind_same fun unused im im' h => ?_
  have hdropped : Matches Eq
      (unused.forM fun p => editNet n fun net => net.removeSourceSitePin p)
      (unused.forM fun p => editNet n fun net => net.removeSourceSitePin p) im im' :=
    .forM (fun p _ _ _ h => matches_editNet h n (Net.blind_removeSourceSitePin p)) h
  refine hdropped.bind_same fun _ im im' h => ?_
  split
  · refine (matches_partitionStart h d n).bind_same fun start im im' h => ?_
    split
    · refine (matches_routeFrom h d n pips _).bind_same fun s im im' h => ?_
      exact matches_editNet h n (Net.blind_addIntersite s.tree)
    · exact .of_pure h rfl
  · exact .of_pure h rfl

theorem matches_route (args : List String) :
    Matches Eq (route d args) (route d args) im im' := by
  unfold route
  split
  · exact .of_throw h rfl
  next netName tokens =>
    refine (matches_findNet h netName).bind_same fun n im im' h => ?_
    refine (matches_readPips h tokens).bind_same fun pips im im' h => ?_
    refine (matches_getNetlist h).bind fun nl nl' im im' h hnl => ?_
    have hrest : ∀ {im im' : Importer}, im.Resembles im' → Matches Eq
        (do
          leaveSites d n pips nl'.mode.isModule
          editNet n Net.updateStatus)
        (do
          leaveSites d n pips nl'.mode.isModule
          editNet n Net.updateStatus) im im' := fun h =>
      (matches_leaveSites h d n pips _).bind_same fun _ _ _ h =>
        matches_editNet h n Net.blind_updateStatus
    rw [hnl.mode]
    dsimp only
    split
    · exact (matches_findSourceSitePins h d n netName).bind_same fun _ im im' h => hrest h
    · exact hrest h

/-! ## Records about ports -/

theorem matches_partitionPin (args : List String) :
    Matches Eq (partitionPin d args) (partitionPin d args) im im' := by
  unfold partitionPin
  split
  next portName node dir =>
    refine (matches_findCell h portName).bind_same fun port im im' h => ?_
    refine (matches_findPartitionWire h d node).bind_same fun wire im im' h => ?_
    refine (matches_readDirection h dir).bind_same fun isSource im im' h => ?_
    refine (matches_setPortNode h portName node).bind_same fun _ im im' h => ?_
    refine (matches_portPin h port).bind_same fun p im im' h => ?_
    refine (Alike.of_get h).bind fun im im' t t' ht h => ?_
    have hadded : Netlist.AlikeTelling
        (im.netlist.addPartitionPin im.multiPortNets port p wire isSource)
        (im'.netlist.addPartitionPin im'.multiPortNets port p wire isSource) := by
      rw [h.multiPortNets]
      exact h.netlist.addPartitionPin _ port p wire isSource
    refine (Alike.of_lift hadded ht).bind fun a b t t' ht hab => ?_
    obtain ⟨q, nl⟩ := a
    obtain ⟨q', nl'⟩ := b
    obtain ⟨rfl, hnl⟩ : q = q' ∧ nl.Resembles nl' := hab
    dsimp only
    rw [hnl.getPin q]
    refine (matches_lift ht _).bind_same fun pin t t' ht => ?_
    refine .of_set (h.setNetlist ?_)
    cases pin.net with
    | none => exact hnl
    | some n =>
      exact hnl.frame (f := fun nl => { nl with
        reservedNodes := nl.reservedNodes.insert wire n }) fun _ => rfl
  · exact .of_throw h rfl

omit d

theorem matches_staticPort (isVcc : Bool) (name : String) :
    Matches Eq (staticPort isVcc name) (staticPort isVcc name) im im' := by
  unfold staticPort
  refine (matches_setPortNode h _ _).bind_same fun _ im im' h => ?_
  refine (matches_findCell h name).bind_same fun port im im' h => ?_
  refine (matches_portPin h port).bind_same fun p im im' h => ?_
  exact matches_edit h fun _ _ hnl => hnl.tiePort _ port p

theorem matches_staticPorts (isVcc : Bool) (names : List String) :
    Matches Eq (staticPorts isVcc names) (staticPorts isVcc names) im im' :=
  .forM (fun name _ _ _ h => matches_staticPort h isVcc name) h

end change

theorem matches_process (h : im.Resembles im') (d : Device) (kind : RecordKind)
    (args : List String) : Matches Eq (process d kind args) (process d kind args) im im' := by
  cases kind with
  | sitePips => exact matches_sitePips h d args
  | intersite => exact matches_intersite h d args
  | intrasite => exact matches_intrasite h d args
  | route => exact matches_route h d args
  | routethroughs => exact matches_routethroughs h d args
  | staticSources isVcc => exact matches_staticSources h d isVcc args
  | partitionPin => exact matches_partitionPin h d args
  | staticPorts isVcc => exact matches_staticPorts h isVcc args

theorem matches_leadStarts (h : im.Resembles im') (d : Device) (n : NetId) (pips : PipSet)
    (starts : List String) :
    Matches Eq (leadStarts d n pips starts) (leadStarts d n pips starts) im im' := by
  refine .forM (fun token _ im im' h => ?_) h
  refine (matches_findTileWire h d token).bind_same fun start im im' h => ?_
  refine (matches_routeFrom h d n pips start).bind_same fun s im im' h => ?_
  exact matches_editNet h n (Net.blind_addIntersite s.tree)

theorem uniform_resembles (d : Device) : Uniform d Importer.Resembles where
  process kind args _ _ h := matches_process h d kind args
  pips tokens _ _ h := matches_readPips h tokens
  starts n pips starts _ _ h := matches_leadStarts h d n pips starts

/-! ## The end of an import -/

/-- At the end of an import the difference is gone. -/
theorem run_finish_of_resembles (h : im.Resembles im') :
    finish.run.run im = finish.run.run im' := by
  rw [run_finish, run_finish, h.netlist.settled]
  refine congrArg (Except.map · _) (funext fun nl => ?_)
  exact congrArg (fun im : Importer => (Except.ok (), { im with netlist := nl })) h

theorem resembles_of_finish {r : Except ImportError Unit} (h : finish.run.run im = .ok (r, im')) :
    im.Resembles im' := by
  rw [run_finish] at h
  obtain ⟨nl, hnl, heq⟩ := Checked.map_eq_ok.1 h
  cases heq
  obtain ⟨mid, hmid, hlast⟩ := Checked.bind_eq_ok.1 hnl
  obtain ⟨-, rfl⟩ := Netlist.updateNet_eq_ok.1 hmid
  obtain ⟨-, rfl⟩ := Netlist.updateNet_eq_ok.1 hlast
  have hnetlist := (im.netlist.resembles_updateStatus true).trans
    ((im.netlist.modifyNet Netlist.vcc Net.updateStatus).resembles_updateStatus false)
  exact congrArg (fun nl => { im with netlist := nl }) hnetlist

end Record

end Fabric
