import Fabric.Proofs.Intersite.Exact
import Fabric.Proofs.Record.Steps
import Fabric.Proofs.SiteRoute.Driving
/-!
# Walking through records

Each record is walked through once. The walk shows that the record makes changes of the known
kinds only, and that on closed importers it gets to its end.
-/

namespace Fabric.Record

variable {d : Device} {S : NetId → Prop} {C F : Prop} {I : Importer → Prop} {im : Importer}

/-! ## Partition wires -/

/-- What a token stands for: a tile, and a wire by the part behind it or by the whole token. -/
def StandsFor (d : Device) (token : String) (w : Wire) : Prop :=
  ∃ tile wire t v, Text.parts '/' token = [tile, wire] ∧ d.tileNamed? tile = some t ∧
    d.wireNamed? (if d.tileType t = boundaryTileType then token else wire) = some v ∧ w = .tile t v

/-- The wire at which a port brings a net in, if one does. -/
inductive PortStart (d : Device) (nl : Netlist) (n : NetId) : Option Wire → Prop
  | inside (hnode : ∀ node, ¬ nl.BroughtIn n node) : PortStart d nl n none
  | port {node : String} {w : Wire} (hnode : nl.BroughtIn n node) (hw : StandsFor d node w) :
      PortStart d nl n (some w)

theorem PortStart.outside {nl : Netlist} {n : NetId} {start : Option Wire}
    (h : PortStart d nl n start) : ∀ w ∈ start, ∃ t name, w = .tile t name := by
  cases h with
  | inside => simp
  | port _ hw =>
    obtain ⟨-, -, t, v, -, -, -, rfl⟩ := hw
    simp

theorem PortStart.congr {nl nl' : Netlist} {n : NetId} {start : Option Wire}
    (h : PortStart d nl n start) (hnode : ∀ node, nl'.BroughtIn n node ↔ nl.BroughtIn n node) :
    PortStart d nl' n start := by
  cases h with
  | inside hnone => exact .inside fun node hin => hnone node ((hnode node).1 hin)
  | port hin hw => exact .port ((hnode _).2 hin) hw

/-! ## Looking things up -/

section lookup

variable (him : I im)

include him

theorem reads_getNetlist : Reads F I getNetlist im fun nl => nl = im.netlist :=
  (Reads.of_get him).bind fun _ h => Reads.of_pure him (congrArg Importer.netlist h.symm)

theorem reads_getNet {n : NetId} (hn : F ∨ (im.netlist.net? n).isSome) :
    Reads F I (im.netlist.getNet n : RecordM Net) im fun net => im.netlist.net? n = some net :=
  .of_yields (Netlist.yields_getNet hn) him

theorem reads_getPin {p : PinId} (hp : F ∨ (im.netlist.pin? p).isSome) :
    Reads F I (im.netlist.getPin p : RecordM Pin) im fun pin => im.netlist.pin? p = some pin :=
  .of_yields (Netlist.yields_getPin hp) him

theorem reads_getCell {c : CellId} (hc : F ∨ (im.netlist.cell? c).isSome) :
    Reads F I (im.netlist.getCell c : RecordM Cell) im
      fun cell => im.netlist.cell? c = some cell :=
  .of_yields (Netlist.yields_getCell hc) him

theorem reads_require {e : RecordError} {o : Option α} :
    Reads F I (require e o) im fun a => o = some a := by
  cases o with
  | none => exact .of_throw him
  | some a => exact .of_pure him rfl

theorem reads_portPin {c : CellId} (hc : F ∨ (im.netlist.cell? c).isSome) :
    Reads F I (portPin c) im fun p =>
      ∃ cell, im.netlist.cell? c = some cell ∧ cell.pins = [p] := by
  unfold portPin
  refine (reads_getNetlist him).bind fun nl hnl => ?_
  subst hnl
  refine (reads_getCell him hc).bind fun cell hcell => ?_
  split
  next p hp => exact Reads.of_pure him ⟨cell, hcell, hp⟩
  next => exact .of_throw him

theorem reads_findCell (hclosed : F ∨ im.netlist.Closed) (name : String) :
    Reads F I (findCell name) im fun c =>
      im.netlist.cellNamed? name = some c ∧ (F ∨ (im.netlist.cell? c).isSome) := by
  unfold findCell
  refine (reads_getNetlist him).bind fun nl hnl => ?_
  subst hnl
  refine (reads_require him).post fun c _ _ hc => ⟨hc.1, hc.2, ?_⟩
  exact hclosed.imp_right fun h => h.named_cell name c hc.2

theorem reads_noRoute (source : String) {n : NetId} (hn : F ∨ (im.netlist.net? n).isSome) :
    Reads F I (noRoute source n) im fun _ => True := by
  unfold noRoute
  refine (reads_getNetlist him).bind fun nl hnl => ?_
  subst hnl
  exact (reads_getNet him hn).bind fun _ _ => Reads.of_pure him trivial

theorem reads_searchSite (n : NetId) (source : SiteRoute.Source) :
    Reads F I (searchSite d (source.site d) (.ofSource d n source)) im
      fun r => r = im.found d n source := by
  unfold searchSite
  refine (Reads.of_get him).bind fun _ h => ?_
  subst h
  exact Reads.of_pure him rfl

variable (d)

theorem reads_findSite (name : String) : Reads F I (findSite d name) im fun _ => True :=
  (reads_require him).post fun _ _ _ h => ⟨h.1, trivial⟩

theorem reads_findSitePin (s : SiteId) (name : String) :
    Reads F I (findSitePin d s name) im fun _ => True :=
  (reads_require him).post fun _ _ _ h => ⟨h.1, trivial⟩

theorem reads_findBel (s : SiteId) (name : String) :
    Reads F I (findBel d s name) im fun _ => True :=
  (reads_require him).post fun _ _ _ h => ⟨h.1, trivial⟩

theorem reads_findBelPin (b : BelId) (name : String) :
    Reads F I (findBelPin d b name) im fun _ => True :=
  (reads_require him).post fun _ _ _ h => ⟨h.1, trivial⟩

theorem reads_findTile (name : String) : Reads F I (findTile d name) im fun _ => True :=
  (reads_require him).post fun _ _ _ h => ⟨h.1, trivial⟩

theorem reads_findTileWire (token : String) :
    Reads F I (findTileWire d token) im fun _ => True := by
  unfold findTileWire
  split
  · refine (reads_findTile d him _).bind fun t _ => ?_
    refine (reads_require him).bind fun w _ => ?_
    exact Reads.of_pure him trivial
  · exact .of_throw him

theorem reads_findPartitionWire (token : String) :
    Reads F I (findPartitionWire d token) im (StandsFor d token) := by
  unfold findPartitionWire
  split
  next tile wire hparts =>
    refine (reads_require him).bind fun t ht => ?_
    refine (reads_require him).bind fun v hv => ?_
    exact Reads.of_pure him ⟨tile, wire, t, v, hparts, ht, hv, rfl⟩
  next => exact .of_throw him

theorem reads_readPips (tokens : List String) :
    Reads F I (readPips tokens) im fun pips => PipSet.ofTokens tokens = .ok pips := by
  unfold readPips
  split
  next pips hpips => exact Reads.of_pure him hpips
  next => exact .of_throw him

theorem reads_readDirection (token : String) :
    Reads F I (readDirection token) im fun isSource =>
      token = if isSource then "OUT" else "IN" := by
  unfold readDirection
  split
  next hin => exact Reads.of_pure him hin
  next =>
    split
    next hout => exact Reads.of_pure him hout
    next => exact .of_throw him

end lookup

section closed

variable (h : Admits d S C F I) (him : I im)

include h him

theorem live_constant (isVcc : Bool) :
    F ∨ (im.netlist.net? (Netlist.staticNet isVcc)).isSome :=
  (h.netlist_closed him).imp_right fun hc => hc.constants isVcc

theorem reads_findNet (name : String) :
    Reads F I (findNet name) im fun n =>
      im.namedNet? name = some n ∧ (F ∨ (im.netlist.net? n).isSome) := by
  unfold findNet Importer.namedNet?
  split
  · exact Reads.of_pure him ⟨rfl, live_constant h him true⟩
  · split
    · exact Reads.of_pure him ⟨rfl, live_constant h him false⟩
    · refine (reads_getNetlist him).bind fun nl hnl => ?_
      subst hnl
      refine (reads_require him).post fun n _ _ hn => ⟨hn.1, hn.2, ?_⟩
      refine (h.netlist_closed him).imp_right fun hc => ?_
      obtain ⟨net, hnet, -⟩ := hc.named_net name n hn.2
      rw [hnet]
      rfl

theorem reads_netSource {n : NetId} (hn : F ∨ (im.netlist.net? n).isSome) :
    Reads F I (netSource n) im fun p => F ∨ (im.netlist.pin? p).isSome := by
  unfold netSource
  refine (reads_getNetlist him).bind fun nl hnl => ?_
  subst hnl
  refine (reads_getNet him hn).bind fun net hnet => ?_
  refine (reads_require him).post fun p _ _ hp => ⟨hp.1, ?_⟩
  refine (h.netlist_closed him).imp_right fun hc => ?_
  exact hc.live_pin hnet (hc.source n net p hnet hp.2)

theorem reads_pinFullName {p : PinId} (hp : F ∨ (im.netlist.pin? p).isSome) :
    Reads F I (im.netlist.pinFullName p : RecordM String) im fun _ => True := by
  refine .of_lift ?_ him fun _ _ => trivial
  rcases h.netlist_closed him with hF | hc
  · exact .inl hF
  refine hp.imp_right fun hp => ?_
  obtain ⟨pin, hpin⟩ := Option.isSome_iff_exists.1 hp
  obtain ⟨cell, hcell⟩ := Option.isSome_iff_exists.1 (hc.cell_of_pin p pin hpin)
  refine ⟨cell.name ++ "/" ++ pin.name, ?_⟩
  refine Checked.bind_eq_ok.2 ⟨pin, Netlist.getPin_eq_ok.2 hpin, ?_⟩
  exact Checked.bind_eq_ok.2 ⟨cell, Netlist.getCell_eq_ok.2 hcell, rfl⟩

theorem reads_mappedBelPin {p : PinId} (hp : F ∨ (im.netlist.pin? p).isSome) :
    Reads F I (mappedBelPin p) im fun b? =>
      ∀ b, b? = some b ↔ ∃ pin, im.netlist.pin? p = some pin ∧ pin.belPins = [b] := by
  unfold mappedBelPin
  refine (reads_getNetlist him).bind fun nl hnl => ?_
  subst hnl
  refine (reads_getPin him hp).bind fun pin hpin => ?_
  split
  next b hb => exact Reads.of_pure him fun b' => by simp [hpin, hb]
  next hmany =>
    split
    · refine Reads.of_pure him fun b => ⟨by simp, ?_⟩
      rintro ⟨pin', hpin', hb⟩
      obtain rfl : pin = pin' := Option.some.inj (hpin.symm.trans hpin')
      exact (hmany b hb).elim
    · exact (reads_pinFullName h him hp).bind fun _ _ => .of_throw him

theorem reads_partitionStart {n : NetId} (hn : F ∨ (im.netlist.net? n).isSome) :
    Reads F I (partitionStart d n) im (PortStart d im.netlist n) := by
  unfold partitionStart
  refine (reads_getNetlist him).bind fun nl hnl => ?_
  subst hnl
  refine (reads_getNet him hn).bind fun net hnet => ?_
  split
  next p hsource =>
    have hp : F ∨ (im.netlist.pin? p).isSome :=
      (h.netlist_closed him).imp_right fun hc => hc.live_pin hnet (hc.source n net p hnet hsource)
    refine (reads_getPin him hp).bind fun pin hpin => ?_
    have hc : F ∨ (im.netlist.cell? pin.cell).isSome :=
      (h.netlist_closed him).imp_right fun hc => hc.cell_of_pin p pin hpin
    refine (reads_getCell him hc).bind fun cell hcell => ?_
    -- What brings the net in is told by its source, so only the cell found here may do so.
    have hnode : ∀ node, im.netlist.BroughtIn n node ↔ cell.isPort ∧
        im.netlist.portNodes[cell.name]? = some node ∧ node ≠ Netlist.vccName ∧
          node ≠ Netlist.gndName := by
      intro node
      constructor
      · rintro ⟨net', p', pin', cell', hnet', hsource', hpin', hcell', hrest⟩
        cases hnet.symm.trans hnet'
        cases hsource.symm.trans hsource'
        cases hpin.symm.trans hpin'
        cases hcell.symm.trans hcell'
        exact hrest
      · exact fun hrest => ⟨net, p, pin, cell, hnet, hsource, hpin, hcell, hrest⟩
    split
    next hport => exact Reads.of_pure him (.inside fun node => by simp_all)
    next hport =>
      split
      next hnone => exact Reads.of_pure him (.inside fun node => by simp [hnode, hnone])
      next node hsome =>
        split
        next hconstant =>
          refine Reads.of_pure him (.inside fun node' hin => ?_)
          obtain ⟨-, hnoted, hvcc, hgnd⟩ := (hnode node').1 hin
          cases hsome.symm.trans hnoted
          exact hconstant.elim hvcc hgnd
        next hsignal =>
          refine (reads_findPartitionWire d him _).bind fun w hw => ?_
          obtain ⟨hvcc, hgnd⟩ := not_or.1 hsignal
          refine Reads.of_pure him (.port ((hnode node).2 ⟨?_, hsome, hvcc, hgnd⟩) hw)
          simpa using hport
  next hnone =>
    refine Reads.of_pure him (.inside ?_)
    rintro node ⟨net', p, -, -, hnet', hsource, -⟩
    cases hnet.symm.trans hnet'
    exact hnone p hsource

end closed

/-! ## Choices of inputs -/

/-- A choice of a PIP and an input of it opens two wires: the one called so and the one that its
connection leads to. A wire without connections is not opened. -/
def Opens (d : Device) (s : SiteId) (choice : String × String) (v : WireName) : Prop :=
  ∃ w, d.wireNamed? ("intrasite:" ++ d.siteTypeName s ++ "/" ++ choice.1 ++ "." ++ choice.2) =
      some w ∧
    ∃ c ∈ d.connections (.site s w), v = w ∨ v = c.sink.name

structure Gathers (d : Device) (s : SiteId) (tokens : List String)
    (choices : SitePipChoices) : Prop where
  values : choices.values = tokens.filterMap (Text.cutFirst ':')
  used : ∀ v, v ∈ choices.used ↔ ∃ choice ∈ choices.values, Opens d s choice v

section choices

variable (him : I im)

include him

theorem reads_readSitePip (s : SiteId) (choices : SitePipChoices) (token : String) :
    Reads F I (readSitePip d s choices token) im fun choices' => ∃ choice,
      Text.cutFirst ':' token = some choice ∧ choices'.values = choices.values ++ [choice] ∧
      ∀ v, v ∈ choices'.used ↔ v ∈ choices.used ∨ Opens d s choice v := by
  unfold readSitePip
  refine (reads_require him).bind fun (pip, input) htoken => ?_
  refine (reads_require him).bind fun w hw => ?_
  have hopens : ∀ v, Opens d s (pip, input) v ↔
      ∃ c ∈ d.connections (.site s w), v = w ∨ v = c.sink.name := by
    intro v
    unfold Opens
    rw [hw]
    simp
  dsimp only
  split
  next hnone =>
    refine Reads.of_pure him ⟨_, htoken, rfl, fun v => ?_⟩
    rw [hopens, hnone]
    simp
  next c hone =>
    refine Reads.of_pure him ⟨_, htoken, rfl, fun v => ?_⟩
    rw [hopens, hone]
    simp only [Std.ExtTreeSet.mem_insert, Std.LawfulEqCmp.compare_eq_iff_eq, List.mem_singleton,
      exists_eq_left, @eq_comm _ v]
    tauto
  next =>
    exact (Reads.of_throw (P := fun _ => False) him).bind fun _ hfalse => hfalse.elim

theorem reads_readSitePips (s : SiteId) (tokens : List String) :
    Reads F I (tokens.foldlM (readSitePip d s) {}) im (Gathers d s tokens) := by
  refine Reads.foldlM_done (fun done token _ choices hdone => ?_) [] him ⟨rfl, fun v => by simp⟩
  refine (reads_readSitePip him s choices token).post fun choices' _ _ hread => ⟨hread.1, ?_⟩
  obtain ⟨-, choice, htoken, hvalues, hused⟩ := hread
  refine ⟨?_, fun v => ?_⟩
  · rw [hvalues, hdone.values, List.filterMap_append, List.filterMap_cons_some htoken,
      List.filterMap_nil]
  · simp only [hused, hdone.used, hvalues, List.mem_append, List.mem_singleton, or_and_right,
      exists_or, exists_eq_left]

end choices

/-! ## Nets that stay in their site -/

structure DrivenFrom (im : Importer) (name : String) (n : NetId) (net : Net) (b : BelPinId) :
    Prop where
  named : im.namedNet? name = some n
  live : im.netlist.net? n = some net
  source : ∃ p pin, net.source = some p ∧ im.netlist.pin? p = some pin ∧ pin.belPins = [b]

/-- What comes of a record about a net that has to stay in its site. The net that the route from its
source ends up on is noted as one that does, and a net without a source is passed over. -/
inductive Encloses (d : Device) (im : Importer) : List String → Importer → Prop
  | passed {name : String} (hnone : ∀ n net b, ¬ DrivenFrom im name n net b) :
      Encloses d im [name] im
  | routed {name : String} {n m : NetId} {net : Net} {b : BelPinId} {mid nl : Netlist}
      (hdriven : DrivenFrom im name n net b) (hvalid : (im.found d n (.belPin b true)).isValid)
      (happly : (im.found d n (.belPin b true)).apply d im.netlist = .ok (m, mid))
      (hmark : { im.found d n (.belPin b true) with net := m }.markRouted mid = .ok nl)
      (hm : (nl.net? m).isSome) :
      Encloses d im [name]
        { im with netlist := nl.modifyNet m fun net => (net.setIntrasite true).updateStatus }

theorem DrivenFrom.unique {name : String} {n n' : NetId} {net net' : Net} {b b' : BelPinId}
    (h : DrivenFrom im name n net b) (h' : DrivenFrom im name n' net' b') :
    n = n' ∧ net = net' ∧ b = b' := by
  obtain ⟨hn, hnet, p, pin, hsource, hpin, hb⟩ := h
  obtain ⟨hn', hnet', p', pin', hsource', hpin', hb'⟩ := h'
  cases hn.symm.trans hn'
  cases hnet.symm.trans hnet'
  cases hsource.symm.trans hsource'
  cases hpin.symm.trans hpin'
  cases hb.symm.trans hb'
  exact ⟨rfl, rfl, rfl⟩

theorem Encloses.upToDate {args : List String} {im' : Importer} (h : Encloses d im args im')
    {k : NetId} (hk : Settles d im .intrasite args k) : im'.netlist.UpToDate k := by
  cases hk with
  | intrasite hn hnet hsource hpin hb happly' =>
    have hdriven' : DrivenFrom im _ _ _ _ := ⟨hn, hnet, _, _, hsource, hpin, hb⟩
    cases h with
    | passed hnone => exact (hnone _ _ _ hdriven').elim
    | routed hdriven _ happly _ hm =>
      obtain ⟨rfl, -, rfl⟩ := hdriven.unique hdriven'
      cases happly.symm.trans happly'
      exact Netlist.upToDate_modifyNet hm fun _ => rfl

/-! ## Changing nets -/

theorem ensures_edit {f : Netlist → Except Fault Netlist} (him : I im)
    (hok : F ∨ ∃ nl, f im.netlist = .ok nl)
    (hstep : ∀ nl, f im.netlist = .ok nl → I { im with netlist := nl }) :
    Ensures F I (edit f) im fun _ im' =>
      ∃ nl, f im.netlist = .ok nl ∧ im' = { im with netlist := nl } := by
  unfold edit
  refine (Reads.of_get him).bind fun _ h => ?_
  subst h
  refine (Reads.of_lift hok him fun _ h => h).bind fun nl hnl => ?_
  exact .of_set (hstep nl hnl) ⟨nl, hnl, rfl⟩

section adds

variable (h : Admits d S C F I) (him : I im)

include h him

theorem ensures_editNet {n : NetId} {f : Net → Net} (hf : Notes (S n) f)
    (hn : F ∨ (im.netlist.net? n).isSome) : Ensures F I (editNet n f) im fun _ im' =>
      (im.netlist.net? n).isSome ∧ im' = { im with netlist := im.netlist.modifyNet n f } := by
  refine (ensures_edit him ?_ fun nl hnl => ?_).post fun _ im' _ hout => ?_
  · exact hn.imp_right fun hn => ⟨_, Netlist.updateNet_eq_ok.2 ⟨hn, rfl⟩⟩
  · obtain ⟨hlive, rfl⟩ := Netlist.updateNet_eq_ok.1 hnl
    exact h.adds im _ him (.note hf hlive)
  · obtain ⟨nl, hnl, rfl⟩ := hout
    obtain ⟨hlive, rfl⟩ := Netlist.updateNet_eq_ok.1 hnl
    exact ⟨hlive, rfl⟩

theorem ensures_settle {n : NetId} {f : Net → Net} (hf : Notes (S n) f)
    (hstatus : ∀ net, (f net).status = (f net).computedStatus)
    (hn : F ∨ (im.netlist.net? n).isSome) :
    Ensures F I (editNet n f) im fun _ im' => im'.netlist.UpToDate n := by
  refine (ensures_editNet h him hf hn).post fun _ im' _ hout => ?_
  obtain ⟨hlive, rfl⟩ := hout
  exact Netlist.upToDate_modifyNet hlive hstatus

/-- A route that was found can be entered. The net that it ends up on is there. -/
theorem reads_apply_found {n : NetId} (hn : F ∨ (im.netlist.net? n).isSome)
    (source : SiteRoute.Source) :
    Reads F I ((im.found d n source).apply d im.netlist : RecordM (NetId × Netlist)) im
      fun (m, nl) => (im.found d n source).apply d im.netlist = .ok (m, nl) ∧
        (F ∨ (nl.net? m).isSome) := by
  have hex : F ∨ ∃ m nl, (im.found d n source).apply d im.netlist = .ok (m, nl) ∧
      (nl.net? m).isSome := by
    rcases h.netlist_closed him with hF | hc
    · exact .inl hF
    · refine hn.imp_right fun hn => SiteRoute.exists_apply hc ?_
      rw [(im.origin_found d n source).1]
      exact hn
  refine .of_lift (hex.imp_right fun ⟨m, nl, happly, _⟩ => ⟨(m, nl), happly⟩) him
    fun (m, nl) happly => ⟨happly, hex.imp_right ?_⟩
  rintro ⟨m', nl', happly', hlive⟩
  rw [happly] at happly'
  cases happly'
  exact hlive

/-- A route is entered and its sinks are marked. The net that it ends up on is there. -/
theorem ensures_enterRouted {n : NetId} {source : SiteRoute.Source}
    (hsource : ∀ pin allowUnused, source = .sitePin pin allowUnused →
      allowUnused = true ∧ ∃ net, im.netlist.net? n = some net ∧ net.isStatic)
    (hvalid : (im.found d n source).isValid) (hn : F ∨ (im.netlist.net? n).isSome) :
    Ensures F I (enterRouted d (im.found d n source)) im fun m im' =>
      ∃ mid nl, (im.found d n source).apply d im.netlist = .ok (m, mid) ∧
        { im.found d n source with net := m }.markRouted mid = .ok nl ∧
        im' = { im with netlist := nl } ∧ (F ∨ (nl.net? m).isSome) := by
  unfold enterRouted
  refine (Reads.of_get him).bind fun _ heq => ?_
  subst heq
  refine (reads_apply_found h him hn source).bind fun (m, mid) hout => ?_
  obtain ⟨happly, hlive⟩ := hout
  dsimp only
  refine (Reads.of_lift ?_ him fun _ ha => ha).bind fun nl hmark => ?_
  · exact hlive.imp_right fun hm => ⟨_, SiteRoute.markRouted_eq_ok.2 ⟨.inr hm, rfl⟩⟩
  · have hdone := h.adds im _ him (.enter hsource hvalid happly hmark)
    refine (Ensures.of_set (Q := fun _ im' => im' = { im with netlist := nl }) hdone rfl).bind
      fun _ im' him' heq => ?_
    subst heq
    refine .of_pure him' ⟨mid, nl, happly, hmark, rfl, hlive.imp_right fun hm => ?_⟩
    obtain ⟨-, rfl⟩ := SiteRoute.markRouted_eq_ok.1 hmark
    rw [Netlist.net?_modifyNet, Netlist.isSome_ite_map]
    exact hm

theorem ensures_tryStaticRoute {n : NetId} (hn : F ∨ (im.netlist.net? n).isSome) (p : BelPinId) :
    Ensures F I (tryStaticRoute d n p) im fun _ _ => True := by
  unfold tryStaticRoute
  refine (reads_searchSite him n (.belPin p false)).bind fun r hr => ?_
  subst hr
  split
  next hvalid =>
    have henter := ensures_enterRouted h him (by simp) hvalid hn
    exact henter.discard.bind fun _ _ him' _ => .of_pure him' trivial
  next => exact .of_pure him trivial

theorem ensures_routeFromBelPin {n : NetId} (hn : F ∨ (im.netlist.net? n).isSome) (p : BelPinId)
    (contained : Bool) : Ensures F I (routeFromBelPin d n p contained) im fun m im' =>
      (im.found d n (.belPin p contained)).isValid ∧
      ∃ mid nl, (im.found d n (.belPin p contained)).apply d im.netlist = .ok (m, mid) ∧
        { im.found d n (.belPin p contained) with net := m }.markRouted mid = .ok nl ∧
        im' = { im with netlist := nl } ∧ (F ∨ (nl.net? m).isSome) := by
  unfold routeFromBelPin
  refine (reads_searchSite him n (.belPin p contained)).bind fun r hr => ?_
  subst hr
  split
  next hvalid =>
    exact (ensures_enterRouted h him (by simp) hvalid hn).post fun _ _ _ hout => ⟨hvalid, hout⟩
  next => exact (reads_noRoute him _ hn).bind fun _ _ => .of_throw him

theorem ensures_routeFromSitePin {n : NetId} (hn : F ∨ (im.netlist.net? n).isSome) (p : SitePinId) :
    Ensures F I (routeFromSitePin d n p) im fun _ _ => True := by
  unfold routeFromSitePin
  refine (reads_searchSite him n (.sitePin p false)).bind fun r hr => ?_
  subst hr
  split
  next hvalid =>
    refine (Reads.of_get him).bind fun _ heq => ?_
    subst heq
    refine (reads_apply_found h him hn _).bind fun (m, nl) hout => ?_
    exact .of_set (h.adds im _ him (.await hvalid hout.1)) trivial
  next => exact (reads_noRoute him _ hn).bind fun _ _ => .of_throw him

/-! ## Records about sites -/

theorem ensures_routeTieOffs (s : SiteId) : Ensures F I (routeTieOffs d s) im fun _ _ => True := by
  refine .forM (fun name _ im him _ => ?_) him trivial
  split
  next b _ =>
    refine .forM (fun p _ im him _ => ?_) him trivial
    exact (ensures_tryStaticRoute h him (live_constant h him _) p).discard
  next => exact .of_pure him trivial

theorem ensures_sitePips (hC : C) (args : List String) :
    Ensures F I (sitePips d args) im fun _ _ => True := by
  unfold sitePips
  split
  · exact .of_throw him
  next siteName tokens =>
    refine (reads_findSite d him siteName).bind fun s _ => ?_
    refine (reads_readSitePips him s tokens).bind fun choices _ => ?_
    refine Ensures.bind (ensures_edit him (.inr ⟨_, rfl⟩) ?_) fun _ _ him' _ => ?_
    · intro nl hnl
      cases hnl
      exact h.adds im _ him (.choose hC s choices)
    · exact ensures_routeTieOffs h him' s

theorem ensures_routethroughs (tokens : List String) :
    Ensures F I (routethroughs d tokens) im fun _ _ => True := by
  refine .forM (fun token _ im him _ => ?_) him trivial
  split
  · refine (reads_findSite d him _).bind fun s _ => ?_
    refine (reads_findBel d him s _).bind fun b _ => ?_
    refine (reads_findBelPin d him b _).bind fun input _ => ?_
    refine (reads_findBelPin d him b _).bind fun output _ => ?_
    exact .of_modify (h.adds im _ him (.pass b ⟨input, output⟩)) trivial
  · exact .of_throw him

theorem ensures_staticSources (isVcc : Bool) (tokens : List String) :
    Ensures F I (staticSources d isVcc tokens) im fun _ _ => True := by
  refine .forM (fun token _ im him _ => ?_) him trivial
  split
  · refine (reads_findSite d him _).bind fun s _ => ?_
    refine (reads_findBel d him s _).bind fun b _ => ?_
    refine (reads_findBelPin d him b _).bind fun p _ => ?_
    refine (ensures_tryStaticRoute h him (live_constant h him isVcc) p).bind
      fun found im' him' _ => ?_
    split
    · exact .of_modify (h.adds im' _ him' (.tieOff isVcc b)) trivial
    · refine (reads_noRoute him' _ (live_constant h him' isVcc)).bind fun _ _ => ?_
      exact .of_throw him'
  · exact .of_throw him

end adds

/-! ## Records about nets -/

section nets

variable {n : NetId} (h : Admits d S C F I) (hn : ∀ im, I im → F ∨ (im.netlist.net? n).isSome)
  (him : I im)

include h hn him

theorem ensures_implicitSinks (p : SitePinId)
    (hstatic : ∃ net, im.netlist.net? n = some net ∧ net.isStatic) :
    Ensures F I (implicitSinks d n p) im fun _ _ => True := by
  unfold implicitSinks
  refine (reads_searchSite him n (.sitePin p true)).bind fun r hr => ?_
  subst hr
  split
  next hvalid =>
    refine (ensures_enterRouted h him ?_ hvalid (hn im him)).discard
    intro pin allowUnused hsource
    cases hsource
    exact ⟨rfl, hstatic⟩
  next => exact .of_pure him trivial

theorem ensures_reachSitePin (p : SitePinId) :
    Ensures F I (reachSitePin d n p) im fun _ _ => True := by
  unfold reachSitePin
  refine (Reads.of_get him).bind fun _ heq => ?_
  subst heq
  split
  next r hr =>
    refine (ensures_edit him ?_ fun nl hmark => ?_).post fun _ _ _ _ => trivial
    · refine (h.closed im him).imp_right fun hc => ?_
      exact ⟨_, SiteRoute.markRouted_eq_ok.2 ⟨.inr (hc.waiting p r hr), rfl⟩⟩
    · exact h.adds im _ him (.arrive hr hmark)
  next =>
    refine (reads_getNet him (hn im him)).bind fun net hnet => ?_
    split
    next hstatic => exact ensures_implicitSinks h hn him p ⟨net, hnet, hstatic⟩
    next => exact .of_pure him trivial

theorem ensures_routeFrom (pips : PipSet) (start : Wire) :
    Ensures F I (routeFrom d n pips start) im fun _ _ => True := by
  unfold routeFrom
  rw [Intersite.route_eq]
  refine Ensures.bind (P := fun _ _ => True) ?_ fun _ _ him' _ => .of_pure him' trivial
  exact .forM (fun p _ im him _ => ensures_reachSitePin h hn him p) him trivial

theorem ensures_routeFromSource : Ensures F I (routeFromSource d n) im fun _ _ => True := by
  unfold routeFromSource
  refine (reads_netSource h him (hn im him)).bind fun p hp => ?_
  refine (reads_mappedBelPin h him hp).bind fun b _ => ?_
  split
  · exact (ensures_routeFromBelPin h him (hn im him) _ false).discard
  · exact .of_pure him trivial

theorem ensures_addSitePin (token : String) :
    Ensures F I (addSitePin d n token) im fun _ _ => True := by
  unfold addSitePin
  split
  · refine (reads_findSite d him _).bind fun s _ => ?_
    refine (reads_findSitePin d him s _).bind fun p _ => ?_
    split
    · exact ensures_routeFromSitePin h him (hn im him) p
    · refine (reads_getNetlist him).bind fun nl hnl => ?_
      subst hnl
      refine (reads_getNet him (hn im him)).bind fun net _ => ?_
      dsimp only
      refine (ensures_editNet h him (.leave p) (hn im him)).bind fun _ im' him' _ => ?_
      split
      · exact ensures_routeFromSource h hn him'
      · exact .of_pure him' trivial
  · exact .of_throw him

theorem ensures_routeFromSitePinOut (pips : PipSet) (p : SitePinId) :
    Ensures F I (routeFromSitePinOut d n pips p) im fun _ _ => True := by
  unfold routeFromSitePinOut
  refine (ensures_routeFrom h hn him pips _).bind fun s im' him' _ => ?_
  split
  · refine (ensures_editNet h him' (.lead s.tree) (hn im' him')).bind fun _ _ him'' _ => ?_
    exact .of_pure him'' trivial
  · exact .of_pure him' trivial

theorem ensures_findSourceSitePins (netName : String) :
    Ensures F I (findSourceSitePins d n netName) im fun _ _ => True := by
  have hneeded : ∀ im, I im → Ensures F I (do
      if (← (← getNetlist).getNet n).sourceSitePins.isEmpty then
        throw (.noSourceSitePin netName)) im fun _ _ => True := by
    intro im him
    refine (reads_getNetlist him).bind fun nl hnl => ?_
    subst hnl
    refine (reads_getNet him (hn im him)).bind fun net _ => ?_
    split
    · exact .of_throw him
    · exact .of_pure him trivial
  unfold findSourceSitePins
  refine (reads_getNetlist him).bind fun nl hnl => ?_
  subst hnl
  refine (reads_getNet him (hn im him)).bind fun net _ => ?_
  dsimp only
  split
  · exact (ensures_routeFromSource h hn him).bind fun _ im' him' _ => hneeded im' him'
  · exact hneeded im him

theorem ensures_leaveSites (pips : PipSet) (isModule : Bool) :
    Ensures F I (leaveSites d n pips isModule) im fun _ _ => True := by
  unfold leaveSites
  refine (reads_getNetlist him).bind fun nl hnl => ?_
  subst hnl
  refine (reads_getNet him (hn im him)).bind fun net _ => ?_
  dsimp only
  have hunused : Ensures F I (net.sourceSitePins.filterM fun p => do
      return !(← routeFromSitePinOut d n pips p)) im fun _ _ => True :=
    .filterM (fun p _ im him _ => (ensures_routeFromSitePinOut h hn him pips p).bind
      fun _ _ him' _ => .of_pure him' trivial) him trivial
  refine hunused.bind fun unused im him _ => ?_
  refine (Ensures.forM (P := fun _ => True) (fun p _ im him _ =>
    (ensures_editNet h him (.stay p) (hn im him)).post fun _ _ _ _ => trivial) him trivial).bind
    fun _ im him _ => ?_
  split
  · refine (reads_partitionStart h him (hn im him)).bind fun start _ => ?_
    split
    · refine (ensures_routeFrom h hn him pips _).bind fun s im him _ => ?_
      exact (ensures_editNet h him (.lead s.tree) (hn im him)).post fun _ _ _ _ => trivial
    · exact .of_pure him trivial
  · exact .of_pure him trivial

end nets

theorem ensures_onNet {act : RecordM Unit} {n : NetId} {Q : Unit → Importer → Prop}
    (hact : Ensures F (fun im => I im ∧ (F ∨ (im.netlist.net? n).isSome)) act im Q) :
    Ensures F I act im Q :=
  hact.mono (fun _ him => him.1) fun _ _ _ hQ => hQ

section records

variable (h : Admits d S C F I) (him : I im)

include h him

theorem ensures_intersite (args : List String)
    (hS : ∀ n, Settles d im .intersite args n → S n) :
    Ensures F I (intersite d args) im
      fun _ im' => ∀ n, Settles d im .intersite args n → im'.netlist.UpToDate n := by
  unfold intersite
  split
  · exact .of_throw him
  next netName tokens =>
    refine (reads_findNet h him netName).bind fun n hn => ?_
    obtain ⟨hnamed, hn⟩ := hn
    refine ensures_onNet (n := n) ?_
    have hnet := h.onNet n
    refine (Ensures.forM (P := fun _ => True) (fun token _ im him _ =>
      ensures_addSitePin hnet (fun _ him => him.2) him token) ⟨him, hn⟩ trivial).bind
      fun _ im' him' _ => ?_
    have hsettles := hS n (.intersite hnamed)
    refine (ensures_settle hnet him' (.status hsettles) (fun _ => rfl) him'.2).post
      fun _ _ _ hdone m hm => ?_
    obtain rfl := (Settles.intersite hnamed).net_unique hm
    exact hdone

theorem ensures_intrasite (args : List String)
    (hS : ∀ n, Settles d im .intrasite args n → S n) :
    Ensures F I (intrasite d args) im fun _ => Encloses d im args := by
  unfold intrasite
  split
  next netName =>
    refine (reads_findNet h him netName).bind fun n hn => ?_
    obtain ⟨hnamed, hn⟩ := hn
    refine (reads_getNetlist him).bind fun nl hnl => ?_
    subst hnl
    refine (reads_getNet him hn).bind fun net hnet => ?_
    split
    next p hsource =>
      have hp : F ∨ (im.netlist.pin? p).isSome :=
        (h.netlist_closed him).imp_right fun hc => hc.live_pin hnet (hc.source n net p hnet hsource)
      refine (reads_mappedBelPin h him hp).bind fun b hb => ?_
      split
      next b =>
        obtain ⟨pin, hpin, hmapped⟩ := (hb b).1 rfl
        refine (ensures_routeFromBelPin h him hn b true).bind fun m im' him' hm => ?_
        obtain ⟨hvalid, mid, nl, happly, hmark, rfl, hm⟩ := hm
        have hsettles := hS m (.intrasite hnamed hnet hsource hpin hmapped happly)
        refine (ensures_editNet h him' (.inside hsettles) hm).post fun _ _ _ hout => ?_
        obtain ⟨hlive, rfl⟩ := hout
        exact .routed ⟨hnamed, hnet, p, pin, hsource, hpin, hmapped⟩ hvalid happly hmark hlive
      next hnone =>
        refine .of_pure him (.passed fun n' net' b hdriven => ?_)
        obtain ⟨hn', hnet', p', pin, hsource', hpin, hmapped⟩ := hdriven
        cases hnamed.symm.trans hn'
        cases hnet.symm.trans hnet'
        cases hsource.symm.trans hsource'
        exact hnone b ((hb b).2 ⟨pin, hpin, hmapped⟩)
    next hnone =>
      refine .of_pure him (.passed fun n' net' b hdriven => ?_)
      obtain ⟨hn', hnet', p, -, hsource, -⟩ := hdriven
      cases hnamed.symm.trans hn'
      cases hnet.symm.trans hnet'
      exact hnone p hsource
  next => exact .of_throw him

theorem ensures_route (args : List String) (hS : ∀ n, Settles d im .route args n → S n) :
    Ensures F I (route d args) im
      fun _ im' => ∀ n, Settles d im .route args n → im'.netlist.UpToDate n := by
  unfold route
  split
  · exact .of_throw him
  next netName tokens =>
    refine (reads_findNet h him netName).bind fun n hn => ?_
    obtain ⟨hnamed, hn⟩ := hn
    refine (reads_readPips him tokens).bind fun pips _ => ?_
    refine (reads_getNetlist him).bind fun nl hnl => ?_
    subst hnl
    refine ensures_onNet (n := n) ?_
    have hnet := h.onNet n
    have hrest : ∀ im', I im' ∧ (F ∨ (im'.netlist.net? n).isSome) → Ensures F
        (fun im' => I im' ∧ (F ∨ (im'.netlist.net? n).isSome)) (do
          leaveSites d n pips im.netlist.mode.isModule
          editNet n Net.updateStatus) im' fun _ im' =>
            ∀ m, Settles d im .route (netName :: tokens) m → im'.netlist.UpToDate m := by
      intro im' him'
      refine (ensures_leaveSites hnet (fun _ him => him.2) him' pips _).bind fun _ im' him' _ => ?_
      have hsettles := hS n (.route hnamed)
      refine (ensures_settle hnet him' (.status hsettles) (fun _ => rfl) him'.2).post
        fun _ _ _ hdone m hm => ?_
      obtain rfl := (Settles.route hnamed).net_unique hm
      exact hdone
    dsimp only
    split
    · refine (ensures_findSourceSitePins hnet (fun _ him => him.2) ⟨him, hn⟩ netName).bind
        fun _ im' him' _ => hrest im' him'
    · exact hrest im ⟨him, hn⟩

end records

end Fabric.Record
