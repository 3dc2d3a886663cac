import Fabric.Proofs.Intersite.Calls
import Fabric.Proofs.Record.Arrivals
import Fabric.Proofs.SiteRoute.Registering
/-!
# Which site pins a `ROUTE` record leaves to its net

The record goes through the source site pins that its net has, or that it is given at the beginning.
It keeps the ones from which a search uses a PIP, with the trees of these searches, and no other
net is led out of a site or gets a tree.
-/

namespace Fabric

namespace Netlist

variable {n : NetId} {nl nl' nl'' : Netlist}

/-! ## Routes from the source -/

def Approaches (n : NetId) (nl nl' : Netlist) : Prop :=
  ∀ k net, nl.net? k = some net → ∃ net', nl'.net? k = some net' ∧
    net'.intersite = net.intersite ∧ (k ≠ n → net'.sourceSitePins = net.sourceSitePins)

theorem Approaches.refl (n : NetId) (nl : Netlist) : nl.Approaches n nl :=
  fun _ net hk => ⟨net, hk, rfl, fun _ => rfl⟩

theorem Takes.approaches {ws : List (NetId × Net.Write)} (h : Takes ws nl nl')
    (hleave : ∀ k pins, (k, .leave pins) ∈ ws → k = n) : nl.Approaches n nl' := by
  intro k net hk
  obtain ⟨pins, source, hnet', -⟩ := h k net hk
  refine ⟨_, hnet', ?_, fun hkn => ?_⟩
  · exact Net.view_writes (f := Net.intersite) (fun _ => rfl) net _
  · refine Net.sourceSitePins_writes_of (.inr fun pins hmem => ?_)
    have hws : (k, .leave pins) ∈ ws := by simpa [writesInto] using hmem
    exact absurd (hleave k pins hws) hkn

end Netlist

namespace SiteRoute

variable {d : Device} {r : SiteRoute} {nl nl' later : Netlist} {n : NetId}

theorem not_leave_mem_writesFrom {t : RouteTree} {bs : List BelPinId} {k : NetId}
    {pins : List SitePinId} : (k, .leave pins) ∉ writesFrom t later n bs := by
  induction bs generalizing n with
  | nil => exact List.not_mem_nil
  | cons b bs ih =>
    rw [writesFrom, List.mem_cons, not_or]
    exact ⟨by simp, ih⟩

/-- A route that starts at a BEL pin leads its own net out of the site, and no other one. -/
theorem approaches_of_starting {pin : BelPinId} {contained : Bool} {m : NetId} {mid : Netlist}
    (hsource : r.source = .belPin pin contained) (happly : r.apply d nl = .ok (m, mid))
    (hmark : { r with net := m }.markRouted mid = .ok nl') : nl.Approaches r.net nl' := by
  obtain ⟨-, hfold⟩ := (apply_starting_eq_ok hsource).1 happly
  obtain ⟨-, rfl⟩ := markRouted_eq_ok_writeAll.1 hmark
  refine (((Netlist.Takes.writeAll nl _).trans (starting_takes hfold (.refl mid))).trans
    (.writeAll mid _)).approaches fun k pins hmem => ?_
  rw [List.mem_append, List.mem_append] at hmem
  rcases hmem with (hmem | hmem) | hmem
  · unfold departure at hmem
    split at hmem
    · cases hmem
    · obtain ⟨_, -, heq⟩ := List.mem_map.1 hmem
      exact (congrArg Prod.fst heq).symm
  · exact absurd hmem not_leave_mem_writesFrom
  · simp [marks] at hmem

end SiteRoute

namespace Record

open Intersite (outcome)

variable {d : Device} {n : NetId} {base im im' : Importer} {pips : PipSet}

theorem ends_routeFromSource (n : NetId) (im : Importer) :
    Ends (routeFromSource d n) im fun _ base => im.netlist.Approaches n base.netlist := by
  unfold routeFromSource
  refine (reads_netSource (admits_any d) trivial (.inl trivial)).bind fun p hp => ?_
  refine (reads_mappedBelPin (admits_any d) trivial hp).bind fun b _ => ?_
  split
  next b _ =>
    refine (ensures_routeFromBelPin (admits_any d) trivial (.inl trivial) b
      false).discard_exists.post fun _ base _ hout => ?_
    obtain ⟨m, -, mid, nl, happly, hmark, rfl, -⟩ := hout
    obtain ⟨hnet, hsource⟩ := im.origin_found d n (.belPin b false)
    have happroach := SiteRoute.approaches_of_starting hsource happly hmark
    rwa [hnet] at happroach
  next => exact .of_pure trivial (.refl n im.netlist)

/-- The net has source site pins in `base`: the ones that it had in `im`, or what a search from its
source gave it. -/
structure Approached (d : Device) (n : NetId) (im : Importer) (old : Net) (base : Importer) :
    Prop where
  net_before : im.netlist.net? n = some old
  approaches : im.netlist.Approaches n base.netlist
  given : old.sourceSitePins ≠ [] → base = im
  searched : old.sourceSitePins = [] → (routeFromSource d n).run.run im = .ok (.ok (), base)
  supplied : ∀ net, base.netlist.net? n = some net → net.sourceSitePins ≠ []

theorem ends_findSourceSitePins (n : NetId) (name : String) (im : Importer) :
    Ends (findSourceSitePins d n name) im fun _ base => ∃ old, Approached d n im old base := by
  have hneeded : ∀ old base, ((∀ net, base.netlist.net? n = some net → net.sourceSitePins ≠ []) →
      Approached d n im old base) → Ends (do
        if (← (← getNetlist).getNet n).sourceSitePins.isEmpty then
          throw (.noSourceSitePin name)) base fun _ base => ∃ old, Approached d n im old base := by
    intro old base hrest
    refine (reads_getNetlist trivial).bind fun nl hnl => ?_
    subst hnl
    refine (reads_getNet trivial (.inl trivial)).bind fun net hnet => ?_
    split
    · exact .of_throw trivial
    next hpins =>
      refine .of_pure trivial ⟨old, hrest fun net' hnet' => ?_⟩
      cases hnet.symm.trans hnet'
      simpa using hpins
  unfold findSourceSitePins
  refine (reads_getNetlist trivial).bind fun nl hnl => ?_
  subst hnl
  refine (reads_getNet trivial (.inl trivial)).bind fun old hold => ?_
  dsimp only
  split
  next hnone =>
    refine (ends_routeFromSource n im).with_run.bind fun _ base _ hout => ?_
    obtain ⟨happroach, hrun⟩ := hout
    exact hneeded old base fun hsupplied =>
      ⟨hold, happroach, fun hpins => absurd (List.isEmpty_iff.1 hnone) hpins, fun _ => hrun,
        hsupplied⟩
  next hsome =>
    exact hneeded old im fun hsupplied =>
      ⟨hold, .refl n im.netlist, fun _ => rfl, fun hpins => absurd (List.isEmpty_iff.2 hpins) hsome,
        hsupplied⟩

theorem RoutesFrom.approached {name : String} (h : RoutesFrom d n name im base) {net : Net}
    (hnet : base.netlist.net? n = some net) :
    ∃ old, im.netlist.net? n = some old ∧ im.netlist.Approaches n base.netlist ∧
      if im.netlist.mode.isModule ∨ old.sourceSitePins ≠ [] then base = im
      else (routeFromSource d n).run.run im = .ok (.ok (), base) ∧ net.sourceSitePins ≠ [] := by
  unfold RoutesFrom at h
  split at h
  next hmodule =>
    subst h
    exact ⟨net, hnet, .refl n _, by rw [if_pos (.inl hmodule)]⟩
  next hregular =>
    obtain ⟨old, happroached⟩ := (ends_findSourceSitePins n name im).result h
    refine ⟨old, happroached.net_before, happroached.approaches, ?_⟩
    split
    next hgiven => exact happroached.given (hgiven.resolve_left hregular)
    next hnone =>
      have hpins : old.sourceSitePins = [] := by simpa using (not_or.1 hnone).2
      exact ⟨happroached.searched hpins, happroached.supplied net hnet⟩

/-! ## Source site pins -/

variable {desc : DeviceDescription}

/-- A net leaves its site through a site pin if the search from there takes a PIP that is set. -/
theorem leavesThrough_iff (hd : Device.ofDescription desc = .ok d) (p : SitePinId) :
    leavesThrough d pips p ↔ ∃ i c, (outcome d pips (d.externalWire p)).tree.link? i = some c ∧
      c.isSwitched ∧ pips.contains ⟨d.wireFullName c.source, d.wireFullName c.sink⟩ := by
  refine (Intersite.pipUsed_iff _).trans (exists_congr fun i => exists_congr fun c =>
    and_congr_right fun hc => (and_iff_left_of_imp fun hswitched => ?_).symm)
  obtain ⟨htree, -⟩ := Intersite.outcome_isSearchTree hd pips (d.externalWire p)
  have hi : i ≠ 0 := by
    rintro rfl
    obtain ⟨w, children, hroot⟩ := htree.wellFormed.root
    simp [RouteTree.link?, hroot] at hc
  obtain ⟨-, u, c', -, -, hc', hstep, -⟩ := htree.hops i (RouteTree.lt_size_of_link? hc) hi
  cases hc.symm.trans hc'
  refine hstep.2.resolve_left fun hwire => ?_
  rw [Intersite.isSwitched_eq_false.2 hwire] at hswitched
  cases hswitched

/-- A `ROUTE` record leaves to its net those of its source site pins, in their order, from which a
search takes a PIP that is set. The net has these pins before, or gets them by a search from its
source that comes first. It is given the trees of these searches in the same order, and in a module
the tree from the wire at which its port brings it in. No other net gets trees or source site pins,
or loses any. -/
theorem sourceSitePins_of_route (hd : Device.ofDescription desc = .ok d) {name : String}
    {tokens : List String}
    (hrun : (process d .route (name :: tokens)).run.run im = .ok (.ok (), im')) :
    ∃ n pips base old net net' port,
      im.namedNet? name = some n ∧ PipSet.ofTokens tokens = .ok pips ∧
      im.netlist.net? n = some old ∧ base.netlist.net? n = some net ∧
      im'.netlist.net? n = some net' ∧
      (if im.netlist.mode.isModule ∨ old.sourceSitePins ≠ [] then base = im
        else (routeFromSource d n).run.run im = .ok (.ok (), base) ∧ net.sourceSitePins ≠ []) ∧
      (if im.netlist.mode.isModule then PortStart d im'.netlist n port ∧
          ∀ node, im.netlist.BroughtIn n node → im'.netlist.BroughtIn n node
        else port = none) ∧
      (∀ w, RouteTree.IsSearchTree (Intersite.Usable d pips) w (outcome d pips w).tree) ∧
      (∀ p, leavesThrough d pips p ↔
        ∃ i c, (outcome d pips (d.externalWire p)).tree.link? i = some c ∧ c.isSwitched ∧
          pips.contains ⟨d.wireFullName c.source, d.wireFullName c.sink⟩) ∧
      net'.sourceSitePins = net.sourceSitePins.filter (leavesThrough d pips) ∧
      net'.intersite = old.intersite ++
        (net'.sourceSitePins.map fun p => (outcome d pips (d.externalWire p)).tree) ++
        port.toList.map (fun w => (outcome d pips w).tree) ∧
      ∀ m other, m ≠ n → im.netlist.net? m = some other →
        ∃ other', im'.netlist.net? m = some other' ∧
          other'.sourceSitePins = other.sourceSitePins ∧ other'.intersite = other.intersite := by
  obtain ⟨n, pips, base, net, port, ⟨hnamed, hpips⟩, hbase, hleft, hport⟩ :=
    (ends_route_outside im name tokens).result hrun
  have hnet := hleft.net_of_base
  obtain ⟨old, hold, happroach, hsearch⟩ := hbase.approached hnet
  obtain ⟨net', hnet', -⟩ := hleft.underway.grows.net_stays n net hnet
  have hpins := hleft.underway.sourceSitePins net' hnet'
  refine ⟨n, pips, base, old, net, net', port, hnamed, hpips, hold, hnet, hnet', hsearch, ?_,
    fun w => (Intersite.outcome_isSearchTree hd pips w).1, leavesThrough_iff hd, hpins, ?_, ?_⟩
  · split at hport
    next hmodule =>
      rw [if_pos (.inl hmodule)] at hsearch
      subst hsearch
      rw [if_pos hmodule]
      exact ⟨hport, fun node => hleft.underway.steers.broughtIn hleft.underway.grows⟩
    next hregular => rwa [if_neg hregular]
  · obtain ⟨before, hbefore, hsame, -⟩ := happroach n old hold
    cases hnet.symm.trans hbefore
    rw [hleft.underway.intersite net net' hnet hnet', hsame, hpins, List.append_assoc]
    rfl
  · intro m other hm hother
    obtain ⟨mid, hmid, hintersite, hsource⟩ := happroach m other hother
    obtain ⟨other', hother', -⟩ := hleft.underway.grows.net_stays m mid hmid
    obtain ⟨htrees, hexits⟩ := Prod.mk.inj (hleft.underway.others m mid other' hm hmid hother')
    exact ⟨other', hother', hexits.trans (hsource hm), htrees.trans hintersite⟩

/-- A net with two ways out of its site is left with the one to the PIP. -/
theorem sourceSitePins_of_route_bypass : ∃ d im im' pips net net',
    Device.ofDescription bypass = .ok d ∧
    (process d .route ["n", "T/CLB.OA->IA"]).run.run im = .ok (.ok (), im') ∧
    im.netlist.net? ⟨2⟩ = some net ∧ im'.netlist.net? ⟨2⟩ = some net' ∧
    net.sourceSitePins = [⟨0⟩, ⟨1⟩] ∧ net'.sourceSitePins = [⟨0⟩] ∧
    net.sourceSitePins.filter (leavesThrough d pips) = [⟨0⟩] ∧
    net'.intersite = [(outcome d pips (d.externalWire ⟨0⟩)).tree] := by
  have hrun : (do
      let d ← (Device.ofDescription bypass).toOption
      let nl ← (Netlist.ofDescription d fanOut).toOption
      let (_, im) ← ((Importer.ofNetlist nl).importText d "INTERSITE n S/P S/Q S/A S/B").toOption
      let (r, im') ← ((process d .route ["n", "T/CLB.OA->IA"]).run.run im).toOption
      let net ← im.netlist.net? ⟨2⟩
      let net' ← im'.netlist.net? ⟨2⟩
      return decide (r.toOption = some () ∧ im.namedNet? "n" = some ⟨2⟩ ∧
        im.netlist.mode.isModule = false ∧ net.sourceSitePins = [⟨0⟩, ⟨1⟩] ∧
        net'.sourceSitePins = [⟨0⟩] ∧ net.intersite = [])) = some true := by
    decide +kernel
  simp only [Option.bind_eq_bind, Option.bind_eq_some_iff, Checked.toOption_eq_some,
    Option.pure_def, Option.some.injEq, decide_eq_true_eq] at hrun
  obtain ⟨d, hd, nl, hnl, ⟨r₀, im⟩, htext, ⟨r, im'⟩, hroute, net, hnet, net', hnet', rfl, hnamed,
    hregular, hpins, hkept, hnone⟩ := hrun
  obtain ⟨n, pips, base, old, net₁, net₁', port, hnamed₁, -, hold, hbase, hnet₁', hsearch, hport,
    -, -, hleft, htrees, -⟩ := sourceSitePins_of_route hd hroute
  cases hnamed.symm.trans hnamed₁
  cases hnet.symm.trans hold
  cases hnet'.symm.trans hnet₁'
  rw [if_pos (.inr (by simp [hpins]))] at hsearch
  subst hsearch
  cases hnet.symm.trans hbase
  rw [if_neg (by simp [hregular])] at hport
  subst hport
  refine ⟨d, base, im', pips, net, net', hd, hroute, hnet, hnet', hpins, hkept, hleft ▸ hkept, ?_⟩
  rw [htrees, hnone, hkept]
  rfl

end Record

end Fabric
