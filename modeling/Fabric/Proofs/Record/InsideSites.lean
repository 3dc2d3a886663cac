import Fabric.Proofs.Record.Arrivals
import Fabric.Proofs.Record.Registering
import Fabric.Proofs.Record.Repetition
import Fabric.Proofs.SiteRoute.Containing
/-!
# Nets that stay in their site

An `INTRASITE` record has the source of a net searched with a contained route. It is refused exactly
if the search comes to no BEL pin in use. A way out of the site that the search comes to beside one
is no reason to refuse the record: it is left out of the tree, and the net counts as one that stays
in its site.
-/

namespace Fabric.Record

variable {d : Device} {desc : DeviceDescription} {im im' : Importer} {name : String} {n : NetId}
  {net : Net} {b : BelPinId}

/-! ## Runs -/

theorem run_getNetlist (im : Importer) :
    getNetlist.run.run im = .ok (.ok im.netlist, im) := rfl

theorem run_findNet (h : im.namedNet? name = some n) :
    (findNet name).run.run im = .ok (.ok n, im) := by
  unfold Importer.namedNet? at h
  unfold findNet
  split at h
  next hvcc =>
    cases h
    rw [if_pos hvcc]
    rfl
  next hvcc =>
    rw [if_neg hvcc]
    split at h
    next hgnd =>
      cases h
      rw [if_pos hgnd]
      rfl
    next hgnd =>
      rw [if_neg hgnd]
      show (require _ (im.netlist.netNamed? name)).run.run im = _
      rw [h]
      rfl

theorem run_editNet (n : NetId) (f : Net → Net) : (editNet n f).run.run im =
    im.netlist.updateNet n f >>= fun nl => .ok (.ok (), { im with netlist := nl }) := by
  show ((liftM (im.netlist.updateNet n f) : RecordM Netlist) >>= fun nl =>
    set { im with netlist := nl }).run.run im = _
  rw [run_lift_bind]
  rfl

theorem run_routeFromBelPin (hnet : im.netlist.net? n = some net) (contained : Bool) :
    (routeFromBelPin d n b contained).run.run im =
      if (im.found d n (.belPin b contained)).isValid then
        (enterRouted d (im.found d n (.belPin b contained))).run.run im
      else .ok (.error (.noIntrasiteRoute (d.belPinFullName b) net.name), im) := by
  have hrun : (routeFromBelPin d n b contained).run.run im =
      (if (im.found d n (.belPin b contained)).isValid then
        enterRouted d (im.found d n (.belPin b contained))
      else noRoute (d.belPinFullName b) n >>= throw : RecordM NetId).run.run im := rfl
  have hnone : (noRoute (d.belPinFullName b) n).run.run im =
      .ok (.ok (.noIntrasiteRoute (d.belPinFullName b) net.name), im) := by
    show ((liftM (im.netlist.getNet n) : RecordM Net) >>= fun net =>
      pure (RecordError.noIntrasiteRoute (d.belPinFullName b) net.name)).run.run im = _
    rw [run_lift_bind, Netlist.getNet_eq_ok.2 hnet]
    rfl
  rw [hrun]
  split
  · rfl
  · exact run_bind_of_ok hnone _

theorem run_intrasite (h : DrivenFrom im name n net b) : (intrasite d [name]).run.run im =
    (routeFromBelPin d n b true >>= fun m =>
      editNet m fun net => (net.setIntrasite true).updateStatus).run.run im := by
  obtain ⟨hnamed, hnet, p, pin, hsource, hpin, hb⟩ := h
  have hgetNet : (liftM (im.netlist.getNet n) : RecordM Net).run.run im = .ok (.ok net, im) := by
    rw [Netlist.getNet_eq_ok.2 hnet]
    rfl
  have hgetPin : (liftM (im.netlist.getPin p) : RecordM Pin).run.run im = .ok (.ok pin, im) := by
    rw [Netlist.getPin_eq_ok.2 hpin]
    rfl
  have hmapped : (mappedBelPin p).run.run im = .ok (.ok (some b), im) := by
    unfold mappedBelPin
    rw [run_bind_of_ok (run_getNetlist im), run_bind_of_ok hgetPin, hb]
    rfl
  unfold intrasite
  dsimp only
  rw [run_bind_of_ok (run_findNet hnamed), run_bind_of_ok (run_getNetlist im),
    run_bind_of_ok hgetNet, hsource]
  dsimp only
  rw [run_bind_of_ok hmapped]

/-- The record is refused if the contained search finds no route, and for no other reason. -/
theorem run_intrasite_refused_iff (h : DrivenFrom im name n net b) :
    (intrasite d [name]).run.run im =
        .ok (.error (.noIntrasiteRoute (d.belPinFullName b) net.name), im) ↔
      ¬ (im.found d n (.belPin b true)).isValid := by
  rw [run_intrasite h, run_bind, run_routeFromBelPin h.live]
  by_cases hvalid : (im.found d n (.belPin b true)).isValid
  · rw [if_pos hvalid, run_enterRouted]
    refine ⟨fun hrefused => ?_, fun hnot => (hnot hvalid).elim⟩
    obtain ⟨r, hentered, hrest⟩ := Checked.bind_eq_ok.1 hrefused
    obtain ⟨entered, -, hentered⟩ := Checked.bind_eq_ok.1 hentered
    obtain ⟨nl, -, hentered⟩ := Checked.bind_eq_ok.1 hentered
    cases hentered
    dsimp only at hrest
    rw [run_editNet] at hrest
    obtain ⟨nl', -, hdone⟩ := Checked.bind_eq_ok.1 hrest
    cases hdone
  · rw [if_neg hvalid]
    exact ⟨fun _ => hvalid, fun _ => rfl⟩

/-! ## Contained routes -/

theorem ends_intrasite (im : Importer) (args : List String) :
    Ends (intrasite d args) im fun _ => Encloses d im args :=
  ensures_intrasite (admits_any d) trivial args fun _ _ => trivial

theorem isValid_contained_iff (hd : Device.ofDescription desc = .ok d) (im : Importer) (n : NetId)
    (b : BelPinId) : (im.found d n (.belPin b true)).isValid ↔
      ∃ w q, (SiteRoute.ofSource d n (.belPin b true)).Reaches (im.context d (d.belPinSite b)) w ∧
        (SiteRoute.ofSource d n (.belPin b true)).EndsWell (im.context d (d.belPinSite b)) w q := by
  have hsource := SiteRoute.source_ofSource d n (.belPin b true)
  have hfound := (im.origin_found d n (.belPin b true)).2.trans hsource.symm
  exact (finds_found hd im n (.belPin b true)).isValid_iff hsource hfound

theorem sinks_of_contained (hd : Device.ofDescription desc = .ok d)
    (hvalid : (im.found d n (.belPin b true)).isValid) :
    (im.found d n (.belPin b true)).belPinSinks ≠ [] := by
  obtain ⟨w, q, hw⟩ := (isValid_contained_iff hd im n b).1 hvalid
  exact List.ne_nil_of_mem (((finds_found hd im n (.belPin b true)).belPins q).2 ⟨w, hw⟩)

theorem staysInside_of_enter {m : NetId} {mid nl : Netlist}
    (hd : Device.ofDescription desc = .ok d)
    (happly : (im.found d n (.belPin b true)).apply d im.netlist = .ok (m, mid))
    (hmark : { im.found d n (.belPin b true) with net := m }.markRouted mid = .ok nl) :
    im.netlist.StaysInside (im.found d n (.belPin b true)).tree
      (nl.modifyNet m fun net => (net.setIntrasite true).updateStatus) := by
  let t := (im.found d n (.belPin b true)).tree
  have hsource := SiteRoute.source_ofSource d n (.belPin b true)
  have hexits := (finds_found hd im n (.belPin b true)).sitePinSinks_eq_nil hsource
  have hentered := SiteRoute.staysInside_of_apply (im.origin_found d n _).2 hexits happly
  have hmarked := SiteRoute.staysInside_of_markRouted hmark t
  have hnoted : nl.StaysInside t
      (nl.modifyNet m fun net => (net.setIntrasite true).updateStatus) :=
    .modifyNet (fun _ => .refl t) nl fun _ => ⟨rfl, rfl, rfl, fun _ => .inl⟩
  exact .trans (fun _ _ _ _ => .trans) (.trans (fun _ _ _ _ => .trans) hentered hmarked) hnoted

/-- An `INTRASITE` record is refused for want of a route, with nothing changed, exactly if the
contained search from the BEL pin that drives its net comes to no BEL pin in use. Otherwise ways out
of the site that the search comes to do not matter, since the branches to them are cut off. The tree
that the net is given ends at the BEL pins in use that the search comes to, no wire of it leads out
of the site, and no net is led out. -/
theorem staysInside_of_intrasite (hd : Device.ofDescription desc = .ok d) (im : Importer)
    (args : List String) :
    (∀ name n net b, args = [name] → DrivenFrom im name n net b →
      let ctx := im.context d (d.belPinSite b)
      let r := SiteRoute.ofSource d n (.belPin b true)
      ((process d .intrasite args).run.run im =
          .ok (.error (.noIntrasiteRoute (d.belPinFullName b) net.name), im) ↔
        ¬ ∃ w q, r.Reaches ctx w ∧ r.EndsWell ctx w q)) ∧
    ∀ im', (process d .intrasite args).run.run im = .ok (.ok (), im') →
      (im' = im ∧ ∃ name, args = [name] ∧ ∀ n net b, ¬ DrivenFrom im name n net b) ∨
      ∃ name n net b t m net', args = [name] ∧ DrivenFrom im name n net b ∧
        let ctx := im.context d (d.belPinSite b)
        let r := SiteRoute.ofSource d n (.belPin b true)
        t.wire? 0 = some (d.belPinWire b) ∧
        (∀ w, (∃ i, i ≠ 0 ∧ t.wire? i = some w ∧ t.children i = []) ↔
          r.Reaches ctx w ∧ ∃ q, r.EndsWell ctx w q) ∧
        (∀ w ∈ t.wires, ¬ r.IsExit ctx w) ∧
        im'.netlist.net? m = some net' ∧ net'.isIntrasite ∧ t ∈ net'.intrasite ∧
        im' = { im with netlist := im'.netlist } ∧ im.netlist.Extends im'.netlist ∧
        im.netlist.StaysInside t im'.netlist := by
  constructor
  · rintro name n net b rfl hdriven ctx r
    exact (run_intrasite_refused_iff hdriven).trans (not_congr (isValid_contained_iff hd im n b))
  · intro im' hrun
    cases (ends_intrasite im args).result hrun with
    | passed hnone => exact .inl ⟨rfl, _, rfl, hnone⟩
    | @routed name n m net b mid nl hdriven hvalid happly hmark =>
      have hsource := SiteRoute.source_ofSource d n (.belPin b true)
      have hfinds := finds_found hd im n (.belPin b true)
      have hsinks := sinks_of_contained hd hvalid
      have hentered := SiteRoute.grows_of_enters (SiteRoute.enters_of_apply happly)
      have hlater : mid.Extends
          (nl.modifyNet m fun net => (net.setIntrasite true).updateStatus) :=
        (SiteRoute.grows_of_markRouted hmark).trans (.modifyNet nl m (Notes.inside trivial).grows)
      obtain ⟨net', hnet', htree⟩ :=
        SiteRoute.tree_stays hlater (SiteRoute.tree_of_apply happly hsinks)
      have hnoted : net'.isIntrasite := by
        rw [Netlist.net?_modifyNet, if_pos rfl, Option.map_eq_some_iff] at hnet'
        obtain ⟨-, -, rfl⟩ := hnet'
        rfl
      exact .inr ⟨name, n, net, b, _, m, net', rfl, hdriven, root_of_found hd im n _,
        hfinds.leaves_contained hsource, fun w => hfinds.not_isExit hsource, hnet', hnoted, htree,
        rfl, hentered.trans hlater, staysInside_of_enter hd happly hmark⟩

def onward : NetlistDescription where
  name := "top"
  mode := .regular
  cells := [
    ⟨"src", "LUT1", some "S/SRC", false, ∅, [⟨"O", .output, ["O"]⟩]⟩,
    ⟨"fa", "FDRE", some "S/FA", false, ∅, [⟨"D", .input, ["D"]⟩]⟩]
  nets := [⟨"n", .wire, ["src/O", "fa/D"]⟩]
  staticNetOf := ∅
  staticRoutes := ∅

theorem run_intrasite_onward : ∃ d nl im' net net' c, Device.ofDescription spread = .ok d ∧
    Netlist.ofDescription d onward = .ok nl ∧
    (process d .intrasite ["n"]).run.run (Importer.ofNetlist nl) = .ok (.ok (), im') ∧
    DrivenFrom (Importer.ofNetlist nl) "n" ⟨2⟩ net ⟨0⟩ ∧
    im'.netlist.net? ⟨2⟩ = some net' ∧ net'.isIntrasite ∧ net'.status = .fullyRouted ∧
    let ctx := (Importer.ofNetlist nl).context d (d.belPinSite ⟨0⟩)
    let r := SiteRoute.ofSource d ⟨2⟩ (.belPin ⟨0⟩ true)
    r.Follows ctx (d.belPinWire ⟨0⟩) c ∧ r.IsExit ctx c.sink := by
  have hrun : (do
      let d ← (Device.ofDescription spread).toOption
      let nl ← (Netlist.ofDescription d onward).toOption
      let im := Importer.ofNetlist nl
      let (r, im') ← ((process d .intrasite ["n"]).run.run im).toOption
      let net ← im.netlist.net? ⟨2⟩
      let pin ← net.source.bind im.netlist.pin?
      let net' ← im'.netlist.net? ⟨2⟩
      let ctx := im.context d (d.belPinSite ⟨0⟩)
      let route := SiteRoute.ofSource d ⟨2⟩ (.belPin ⟨0⟩ true)
      return decide (r.toOption = some () ∧ im.namedNet? "n" = some ⟨2⟩ ∧ pin.belPins = [⟨0⟩] ∧
        net'.isIntrasite ∧ net'.status = .fullyRouted ∧
        ∃ c ∈ route.followed ctx (d.belPinWire ⟨0⟩), route.IsExit ctx c.sink)) = some true := by
    decide +kernel
  simp only [Option.bind_eq_bind, Option.bind_eq_some_iff, Checked.toOption_eq_some,
    Option.pure_def, Option.some.injEq, decide_eq_true_eq] at hrun
  obtain ⟨d, hd, nl, hnl, ⟨r, im'⟩, hrun, net, hnet, pin, ⟨p, hsource, hpin⟩, net', hnet', rfl,
    hnamed, hmapped, hnoted, hstatus, c, hc, hexit⟩ := hrun
  exact ⟨d, nl, im', net, net', c, hd, hnl, hrun, ⟨hnamed, hnet, p, pin, hsource, hpin, hmapped⟩,
    hnet', hnoted, hstatus, SiteRoute.mem_followed.1 hc, hexit⟩

/-- The net is taken in, and it is not led out of the site. -/
theorem staysInside_of_intrasite_onward : ∃ d nl im' net' t,
    Device.ofDescription spread = .ok d ∧ Netlist.ofDescription d onward = .ok nl ∧
    (process d .intrasite ["n"]).run.run (Importer.ofNetlist nl) = .ok (.ok (), im') ∧
    im'.netlist.net? ⟨2⟩ = some net' ∧ net'.isIntrasite ∧
    t.wire? 0 = some (d.belPinWire ⟨0⟩) ∧
    (∀ w ∈ t.wires, ¬ (SiteRoute.ofSource d ⟨2⟩ (.belPin ⟨0⟩ true)).IsExit
      ((Importer.ofNetlist nl).context d (d.belPinSite ⟨0⟩)) w) ∧
    (Importer.ofNetlist nl).netlist.StaysInside t im'.netlist := by
  obtain ⟨d, nl, im', net, net', c, hd, hnl, hrun, hdriven, hnet', hnoted, -⟩ :=
    run_intrasite_onward
  obtain ⟨-, htaken⟩ := staysInside_of_intrasite hd (Importer.ofNetlist nl) ["n"]
  rcases htaken im' hrun with ⟨-, name, hargs, hnone⟩ | ⟨name, n, net₁, b, t, m, -, hargs,
    hdriven', hroot, -, hinside, -, -, -, -, -, hstays⟩
  · cases hargs
    exact (hnone _ _ _ hdriven).elim
  · cases hargs
    obtain ⟨rfl, -, rfl⟩ := hdriven'.unique hdriven
    exact ⟨d, nl, im', net', t, hd, hnl, hrun, hnet', hnoted, hroot, hinside, hstays⟩

/-- The search for the same net comes to the output of the site, and the net is taken in all the
same. -/
theorem exit_of_intrasite_onward : ∃ d nl im' net net' w p,
    Device.ofDescription spread = .ok d ∧ Netlist.ofDescription d onward = .ok nl ∧
    (process d .intrasite ["n"]).run.run (Importer.ofNetlist nl) = .ok (.ok (), im') ∧
    DrivenFrom (Importer.ofNetlist nl) "n" ⟨2⟩ net ⟨0⟩ ∧
    im'.netlist.net? ⟨2⟩ = some net' ∧ net'.isIntrasite ∧ net'.status = .fullyRouted ∧
    let ctx := (Importer.ofNetlist nl).context d (d.belPinSite ⟨0⟩)
    let r := SiteRoute.ofSource d ⟨2⟩ (.belPin ⟨0⟩ true)
    r.Reaches ctx w ∧ r.IsExit ctx w ∧ d.pinAhead? w = some p ∧ (d.sitePinDir p).isOutput := by
  obtain ⟨d, nl, im', net, net', c, hd, hnl, hrun, hdriven, hnet', hnoted, hstatus, hfollows,
    hexit⟩ := run_intrasite_onward
  obtain ⟨p, hp⟩ := Option.isSome_iff_exists.1 hexit.2.2
  obtain ⟨v, hv⟩ := Device.sink_of_mem_site_connections hfollows.2.1
  refine ⟨d, nl, im', net, net', c.sink, p, hd, hnl, hrun, hdriven, hnet', hnoted, hstatus, ?_,
    hexit, hp, Device.isOutput_of_pinAhead? hd (hv ▸ hp)⟩
  exact ⟨1, d.belPinWire ⟨0⟩, SiteRoute.start?_ofSource .., .hop .start hfollows⟩

end Fabric.Record
