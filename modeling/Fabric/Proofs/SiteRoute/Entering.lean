import Mathlib.Logic.Relation
import Fabric.Proofs.Netlist.Closed
import Fabric.Proofs.Netlist.Growth
import Fabric.Proofs.Netlist.Placement
import Fabric.Proofs.Netlist.Repinning
import Fabric.SiteRoute.Apply
/-!
# Entering a route as a chain of changes

A route is entered change by change. None of the changes takes anything away, and none of them
says that a sink is routed. At the end its tree is with the net that the route ended up on.
-/

namespace Fabric

open Relation (ReflTransGen)

def Net.Registers (net net' : Net) : Prop :=
  ∃ intrasite sourceRoute sitePinRoutes belPinRoutes sourceSitePins, net.intrasite <+: intrasite ∧
    net' = { net with intrasite, sourceRoute, sitePinRoutes, belPinRoutes, sourceSitePins }

namespace Net.Registers

variable {net net' net'' : Net}

theorem refl (net : Net) : net.Registers net := ⟨_, _, _, _, _, List.prefix_rfl, rfl⟩

theorem trans (h : net.Registers net') (h' : net'.Registers net'') : net.Registers net'' := by
  obtain ⟨_, _, _, _, _, hprefix, rfl⟩ := h
  obtain ⟨_, _, _, _, _, hprefix', rfl⟩ := h'
  exact ⟨_, _, _, _, _, hprefix.trans hprefix', rfl⟩

theorem addIntrasite (net : Net) (t : RouteTree) : net.Registers (net.addIntrasite t) := by
  unfold Net.addIntrasite
  split
  · exact refl net
  · exact ⟨_, _, _, _, _, List.prefix_append .., rfl⟩

theorem setBelPinRoute (net : Net) (p : BelPinId) (i : Nat) :
    net.Registers (net.setBelPinRoute p i) :=
  ⟨_, _, _, _, _, List.prefix_rfl, rfl⟩

theorem setSitePinRoute (net : Net) (p : SitePinId) (i : Nat) :
    net.Registers (net.setSitePinRoute p i) :=
  ⟨_, _, _, _, _, List.prefix_rfl, rfl⟩

theorem addSourceSitePin (net : Net) (p : SitePinId) : net.Registers (net.addSourceSitePin p) := by
  unfold Net.addSourceSitePin
  split
  · exact refl net
  · exact ⟨_, _, _, _, _, List.prefix_rfl, rfl⟩

theorem foldl {α : Type} {f : Net → α → Net} (hf : ∀ (net : Net) a, net.Registers (f net a))
    (as : List α) (net : Net) : net.Registers (as.foldl f net) := by
  induction as generalizing net with
  | nil => exact refl net
  | cons a as ih => exact (hf net a).trans (ih (f net a))

theorem registerSource (d : Device) (net : Net) (i : Nat) (pins : List SitePinId) :
    net.Registers (net.registerSource d i pins) := by
  unfold Net.registerSource
  have hsource : net.Registers (net.setSourceRoute i) := ⟨_, _, _, _, _, List.prefix_rfl, rfl⟩
  exact (hsource.trans (foldl addSourceSitePin _ _)).trans
    (foldl (fun net p => setSitePinRoute net p i) _ _)

theorem grows (h : net.Registers net') : net.Extends net' := by
  obtain ⟨_, _, _, _, _, hprefix, rfl⟩ := h
  exact { Net.Extends.refl net with intrasite := hprefix }

theorem joins (h : net.Registers net') : net'.joins = net.joins := by
  obtain ⟨_, _, _, _, _, -, rfl⟩ := h
  rfl

theorem name (h : net.Registers net') : net'.name = net.name := by
  obtain ⟨_, _, _, _, _, -, rfl⟩ := h
  rfl

theorem routedSinks (h : net.Registers net') : net'.routedSinks = net.routedSinks := by
  obtain ⟨_, _, _, _, _, -, rfl⟩ := h
  rfl

end Net.Registers

def Net.register (net : Net) (t : RouteTree) (note : Nat → Net → Net) : Net :=
  note (net.intrasiteIndex t) (net.addIntrasite t)

namespace SiteRoute

variable {d : Device} {r : SiteRoute} {nl nl' : Netlist}

inductive Registration (d : Device) (r : SiteRoute) : (Nat → Net → Net) → Prop
  | sitePin {pin : SitePinId} {allowUnused : Bool} (hsource : r.source = .sitePin pin allowUnused) :
      Registration d r fun i net => net.setSitePinRoute pin i
  | source {pin : BelPinId} {contained : Bool} (hsource : r.source = .belPin pin contained) :
      Registration d r fun i net => net.registerSource d i r.sitePinSinks
  | belPin {p : BelPinId} (hp : p ∈ r.belPinSinks) :
      Registration d r fun i net => net.setBelPinRoute p i

theorem Registration.registers {note : Nat → Net → Net} (h : Registration d r note) (net : Net)
    (t : RouteTree) : net.Registers (net.register t note) := by
  refine (Net.Registers.addIntrasite net t).trans ?_
  cases h with
  | @sitePin pin => exact .setSitePinRoute _ pin _
  | source => exact .registerSource d _ _ _
  | @belPin p => exact .setBelPinRoute _ p _

inductive Entering (d : Device) (r : SiteRoute) (nl : Netlist) : Netlist → Prop
  | register {n : NetId} (hn : (nl.net? n).isSome) {note : Nat → Net → Net}
      (hnote : Registration d r note) :
      Entering d r nl (nl.modifyNet n fun net => net.register r.tree note)
  | join {n : NetId} {p : PinId} (hn : (nl.net? n).isSome) (hp : (nl.pin? p).isSome)
      (hoff : nl.netOf? p = none) {b : BelPinId} (hat : nl.pinAt? b = some p) :
      Entering d r nl (nl.attach n p)
  | tie {n : NetId} {c : CellId} {cell : Cell} {b : BelPinId} {name : String}
      (hn : (nl.net? n).isSome) (hsink : b ∈ r.belPinSinks)
      (hc : nl.cellAt? (d.belPinBel b) = some c) (hcell : nl.cell? c = some cell)
      (hb : nl.pinAt? b = none) (hname : Netlist.IsPseudoName cell.pseudoPinCount name) :
      Entering d r nl
        (((nl.addPseudoPin c name (d.belPinDir b)).attach n nl.nextPin).mapPin nl.nextPin b)

namespace Entering

theorem grows (h : Entering d r nl nl') : nl.Extends nl' := by
  cases h with
  | register hn hnote => exact .modifyNet nl _ fun net => (hnote.registers net _).grows
  | join hn hp hoff => exact .attach_of_off _ hoff
  | @tie n c _ b name _ _ _ _ hb => exact .tie nl n c name (d.belPinDir b) hb

theorem consistent (h : Entering d r nl nl') (hnl : nl.Consistent) : nl'.Consistent := by
  cases h with
  | register hn hnote => exact hnl.modifyNet _ fun net => (hnote.registers net _).joins
  | join hn hp hoff => exact hnl.attach hn _
  | tie hn => exact ((hnl.addPseudoPin _ _ _).attach hn _).mapPin _ _

theorem closed (h : Entering d r nl nl') (hnl : nl.Closed) : nl'.Closed := by
  cases h with
  | register hn hnote =>
    exact hnl.modifyNet _ (fun net => (hnote.registers net _).joins)
      fun net => (hnote.registers net _).name
  | join hn hp hoff => exact hnl.attach hn _
  | @tie n c cell b name hn _ _ hcell =>
    have hlive : (nl.cell? c).isSome := Option.isSome_iff_exists.2 ⟨cell, hcell⟩
    have hpin : (((nl.addPseudoPin c name (d.belPinDir b)).attach n nl.nextPin).pin?
        nl.nextPin).isSome := by
      rw [(Netlist.Rejoins.attach _ n nl.nextPin).isSome_pin?]
      exact Netlist.isSome_pin?_addPseudoPin_new nl c name (d.belPinDir b)
    exact ((hnl.addPseudoPin hlive _ _).attach hn _).mapPin hpin b

theorem evolves {R : NetId → Net → Net → Prop} (hR : ∀ n net, R n net net)
    (htrans : ∀ n net net' net'', R n net net' → R n net' net'' → R n net net'')
    (hregister : ∀ note, Registration d r note → ∀ n net, R n net (net.register r.tree note))
    (hadd : ∀ n net p dir, R n net (net.addPin p dir)) (h : Entering d r nl nl') :
    Netlist.Evolves R nl nl' := by
  cases h with
  | register hn hnote => exact .modifyNet hR nl fun net => hregister _ hnote _ net
  | join hn hp hoff => exact .attach_of_off hR hadd hn hoff
  | @tie n c _ b name hn =>
    have hpseudo : Netlist.Evolves R nl (nl.addPseudoPin c name (d.belPinDir b)) := .of_eq hR rfl
    have hn' : ((nl.addPseudoPin c name (d.belPinDir b)).net? n).isSome := hn
    have hoff : (nl.addPseudoPin c name (d.belPinDir b)).netOf? nl.nextPin = none := by
      rw [Netlist.netOf?_addPseudoPin, Netlist.netOf?, Netlist.pin?_nextPin]
      rfl
    exact .trans htrans (.trans htrans hpseudo (.attach_of_off hR hadd hn' hoff)) (.of_eq hR rfl)

end Entering

theorem grows_of_enters (h : ReflTransGen (Entering d r) nl nl') : nl.Extends nl' := by
  induction h with
  | refl => exact .refl nl
  | tail _ hstep ih => exact ih.trans hstep.grows

theorem consistent_of_enters (h : ReflTransGen (Entering d r) nl nl') (hnl : nl.Consistent) :
    nl'.Consistent := by
  induction h with
  | refl => exact hnl
  | tail _ hstep ih => exact hstep.consistent ih

theorem closed_of_enters (h : ReflTransGen (Entering d r) nl nl') (hnl : nl.Closed) :
    nl'.Closed := by
  induction h with
  | refl => exact hnl
  | tail _ hstep ih => exact hstep.closed ih

theorem evolves_of_enters {R : NetId → Net → Net → Prop} (hR : ∀ n net, R n net net)
    (htrans : ∀ n net net' net'', R n net net' → R n net' net'' → R n net net'')
    (hregister : ∀ note, Registration d r note → ∀ n net, R n net (net.register r.tree note))
    (hadd : ∀ n net p dir, R n net (net.addPin p dir)) (h : ReflTransGen (Entering d r) nl nl') :
    Netlist.Evolves R nl nl' := by
  induction h with
  | refl => exact .refl hR nl
  | tail _ hstep ih => exact .trans htrans ih (hstep.evolves hR htrans hregister hadd)

/-! ## Sinks -/

theorem register_of_ok {n : NetId} {t : RouteTree} {i : Nat} {mid : Netlist}
    (hadd : nl.addIntrasite n t = .ok (i, mid)) {note : Nat → Net → Net}
    (hset : mid.updateNet n (note i) = .ok nl') :
    (nl.net? n).isSome ∧ nl' = nl.modifyNet n fun net => net.register t note := by
  obtain ⟨net, hn, rfl, rfl⟩ := Netlist.addIntrasite_eq_ok.1 hadd
  obtain ⟨-, rfl⟩ := Netlist.updateNet_eq_ok.1 hset
  refine ⟨by rw [hn]; rfl, ?_⟩
  rw [Netlist.modifyNet_modifyNet]
  refine Netlist.modifyNet_congr nl fun net' hn' => ?_
  obtain rfl : net = net' := Option.some.inj (hn.symm.trans hn')
  rfl

theorem enters_of_register {n : NetId} {i : Nat} {mid : Netlist}
    (hadd : nl.addIntrasite n r.tree = .ok (i, mid)) {note : Nat → Net → Net}
    (hnote : Registration d r note) (hset : mid.updateNet n (note i) = .ok nl') :
    Entering d r nl nl' := by
  obtain ⟨hn, rfl⟩ := register_of_ok hadd hset
  exact .register hn hnote

theorem mem_addIntrasite (net : Net) (t : RouteTree) : t ∈ (net.addIntrasite t).intrasite := by
  unfold Net.addIntrasite
  split
  next hmem => exact List.contains_iff_mem.1 hmem
  next => simp

theorem tree_of_register {n : NetId} {t : RouteTree} {i : Nat} {mid : Netlist}
    (hadd : nl.addIntrasite n t = .ok (i, mid)) {note : Nat → Net → Net}
    (hnote : ∀ (i : Nat) (net : Net), net.Registers (note i net))
    (hset : mid.updateNet n (note i) = .ok nl') :
    ∃ net, nl'.net? n = some net ∧ t ∈ net.intrasite := by
  obtain ⟨hn, rfl⟩ := register_of_ok hadd hset
  obtain ⟨net, hnet⟩ := Option.isSome_iff_exists.1 hn
  refine ⟨net.register t note, ?_, ?_⟩
  · rw [Netlist.net?_modifyNet, if_pos rfl, hnet]
    rfl
  · exact (hnote _ _).grows.intrasite.subset (mem_addIntrasite net t)

theorem enters_of_connect {n : NetId} {p : PinId} {b : BelPinId} (hat : nl.pinAt? b = some p)
    (hoff : nl.netOf? p = none) (h : nl.connect n p = .ok nl') : Entering d r nl nl' := by
  obtain ⟨hp, hnets, rfl⟩ := Netlist.connect_eq_ok.1 h
  rcases hnets with hon | ⟨-, hn⟩
  · rw [hoff] at hon
    cases hon
  · exact .join hn hp hoff hat

theorem tree_stays {n : NetId} {t : RouteTree} (h : nl.Extends nl')
    (ht : ∃ net, nl.net? n = some net ∧ t ∈ net.intrasite) :
    ∃ net, nl'.net? n = some net ∧ t ∈ net.intrasite := by
  obtain ⟨net, hn, ht⟩ := ht
  obtain ⟨net', hn', hext⟩ := h.net_stays n net hn
  exact ⟨net', hn', hext.intrasite.subset ht⟩

theorem enters_of_registerBelPin {n : NetId} {p : BelPinId} (hp : p ∈ r.belPinSinks)
    (h : nl.registerBelPin n r.tree p = .ok nl') : Entering d r nl nl' := by
  unfold Netlist.registerBelPin at h
  obtain ⟨⟨i, mid⟩, hadd, hset⟩ := Checked.bind_eq_ok.1 h
  exact enters_of_register hadd (.belPin hp) hset

theorem tree_of_registerBelPin {n : NetId} {t : RouteTree} {p : BelPinId}
    (h : nl.registerBelPin n t p = .ok nl') : ∃ net, nl'.net? n = some net ∧ t ∈ net.intrasite := by
  unfold Netlist.registerBelPin at h
  obtain ⟨⟨i, mid⟩, hadd, hset⟩ := Checked.bind_eq_ok.1 h
  exact tree_of_register hadd (fun i net => .setBelPinRoute net p i) hset

theorem enters_of_tieBelPin {n : NetId} {p : BelPinId} (hp : p ∈ r.belPinSinks)
    (h : nl.tieBelPin d n p = .ok nl') : ReflTransGen (Entering d r) nl nl' := by
  unfold Netlist.tieBelPin at h
  split at h
  next hfree =>
    unfold Netlist.createPseudoPin at h
    split at h
    · cases h
      exact .refl
    next c hc =>
      obtain ⟨net, hn, h⟩ := Checked.bind_eq_ok.1 h
      obtain ⟨cell, hcell, h⟩ := Checked.bind_eq_ok.1 h
      obtain ⟨added, hadded, h⟩ := Checked.bind_eq_ok.1 h
      obtain ⟨joined, hjoined, h⟩ := Checked.bind_eq_ok.1 h
      obtain ⟨-, rfl⟩ := Netlist.newPseudoPin_eq_ok.1 hadded
      obtain ⟨-, -, rfl⟩ := Netlist.connect_eq_ok.1 hjoined
      obtain ⟨-, rfl⟩ := Netlist.mapToBelPin_eq_ok.1 h
      have hnet : (nl.net? n).isSome := by
        rw [Netlist.getNet_eq_ok.1 hn]
        rfl
      refine .single (.tie hnet hp hc (Netlist.getCell_eq_ok.1 hcell) hfree ?_)
      split
      · exact .inl rfl
      · exact .inr rfl
  next q hq =>
    obtain ⟨pin, hpin, h⟩ := Checked.bind_eq_ok.1 h
    split at h
    next hoff =>
      have hof : nl.netOf? q = none := (Netlist.netOf?_eq (Netlist.getPin_eq_ok.1 hpin)).trans hoff
      exact .single (enters_of_connect hq hof h)
    · cases h
      exact .refl

theorem enters_of_applyEntering {allowUnused : Bool} {p : BelPinId} (hp : p ∈ r.belPinSinks)
    (h : r.applyEntering d allowUnused nl p = .ok nl') : ReflTransGen (Entering d r) nl nl' := by
  unfold applyEntering at h
  obtain ⟨mid, hregister, h⟩ := Checked.bind_eq_ok.1 h
  have hfirst : Entering d r nl mid := enters_of_registerBelPin hp hregister
  split at h
  · exact .head hfirst (enters_of_tieBelPin hp h)
  · cases h
    exact .single hfirst

/-- The pin at a sink joins the net of the route if it is on none. Then the sink is registered with
the net that the route goes on with. -/
theorem exists_of_applyStarting {n m : NetId} {p : BelPinId}
    (h : r.applyStarting (n, nl) p = .ok (m, nl')) :
    ∃ mid, (mid = nl ∨
      ∃ q, nl.pinAt? p = some q ∧ nl.netOf? q = none ∧ nl.connect n q = .ok mid) ∧
      mid.registerBelPin m r.tree p = .ok nl' := by
  have registered : ∀ {mid : Netlist} {k : NetId},
      (mid.registerBelPin k r.tree p >>= fun nl => Pure.pure (k, nl)) = .ok (m, nl') →
      mid.registerBelPin m r.tree p = .ok nl' := by
    intro mid k hk
    obtain ⟨last, hlast, heq⟩ := Checked.bind_eq_ok.1 hk
    cases Checked.pure_eq_ok.1 heq
    exact hlast
  unfold applyStarting at h
  dsimp only at h
  split at h
  next q hq =>
    obtain ⟨pin, hpin, h⟩ := Checked.bind_eq_ok.1 h
    split at h
    next hoff =>
      obtain ⟨mid, hmid, h⟩ := Checked.bind_eq_ok.1 h
      have hof : nl.netOf? q = none := (Netlist.netOf?_eq (Netlist.getPin_eq_ok.1 hpin)).trans hoff
      exact ⟨mid, .inr ⟨q, hq, hof, hmid⟩, registered h⟩
    next k _ =>
      split at h
      · obtain ⟨_, _, h⟩ := Checked.bind_eq_ok.1 h
        exact ⟨nl, .inl rfl, registered h⟩
      · exact ⟨nl, .inl rfl, registered h⟩
  · exact ⟨nl, .inl rfl, registered h⟩

theorem enters_of_applyStarting {n m : NetId} {p : BelPinId} (hp : p ∈ r.belPinSinks)
    (h : r.applyStarting (n, nl) p = .ok (m, nl')) : ReflTransGen (Entering d r) nl nl' := by
  obtain ⟨mid, hmid, hregister⟩ := exists_of_applyStarting h
  rcases hmid with rfl | ⟨q, hat, hoff, hjoin⟩
  · exact .single (enters_of_registerBelPin hp hregister)
  · exact .head (enters_of_connect hat hoff hjoin)
      (.single (enters_of_registerBelPin hp hregister))

theorem tree_of_applyStarting {n m : NetId} {p : BelPinId}
    (h : r.applyStarting (n, nl) p = .ok (m, nl')) :
    ∃ net, nl'.net? m = some net ∧ r.tree ∈ net.intrasite := by
  obtain ⟨mid, -, hregister⟩ := exists_of_applyStarting h
  exact tree_of_registerBelPin hregister

/-! ## Routes -/

theorem enters_of_apply {m : NetId} (h : r.apply d nl = .ok (m, nl')) :
    ReflTransGen (Entering d r) nl nl' := by
  have starting : ∀ {mid : Netlist},
      r.belPinSinks.foldlM r.applyStarting (r.net, mid) = .ok (m, nl') →
      ReflTransGen (Entering d r) mid nl' := fun hfold =>
    Checked.foldlM_keeps (fun state : NetId × Netlist => ReflTransGen (Entering d r) _ state.2)
      (fun _ _ hp _ hkeeps hstep => hkeeps.trans (enters_of_applyStarting hp hstep)) .refl hfold
  unfold SiteRoute.apply at h
  split at h
  next pin allowUnused hsource =>
    obtain ⟨⟨i, first⟩, hadd, h⟩ := Checked.bind_eq_ok.1 h
    obtain ⟨second, hset, h⟩ := Checked.bind_eq_ok.1 h
    obtain ⟨last, hfold, heq⟩ := Checked.bind_eq_ok.1 h
    cases Checked.pure_eq_ok.1 heq
    have hrest : ReflTransGen (Entering d r) second nl' :=
      Checked.foldlM_keeps (fun nl' => ReflTransGen (Entering d r) second nl')
        (fun _ _ hp _ hkeeps hstep => hkeeps.trans (enters_of_applyEntering hp hstep)) .refl hfold
    exact .head (enters_of_register hadd (.sitePin hsource) hset) hrest
  next pin contained hsource =>
    obtain ⟨net, -, h⟩ := Checked.bind_eq_ok.1 h
    split at h
    · exact starting h
    · obtain ⟨⟨i, first⟩, hadd, h⟩ := Checked.bind_eq_ok.1 h
      obtain ⟨second, hset, h⟩ := Checked.bind_eq_ok.1 h
      exact .head (enters_of_register hadd (.source hsource) hset) (starting h)

/-- The last sink settles the net that a route ends up on. -/
theorem tree_of_foldlM_applyStarting {state : NetId × Netlist} {m : NetId}
    {ps : List BelPinId} (hne : ps ≠ []) (h : ps.foldlM r.applyStarting state = .ok (m, nl')) :
    ∃ net, nl'.net? m = some net ∧ r.tree ∈ net.intrasite := by
  cases ps with
  | nil => exact (hne rfl).elim
  | cons p ps =>
    rw [List.foldlM_cons] at h
    obtain ⟨first, hhead, hrest⟩ := Checked.bind_eq_ok.1 h
    exact Checked.foldlM_keeps (fun state : NetId × Netlist =>
        ∃ net, state.2.net? state.1 = some net ∧ r.tree ∈ net.intrasite)
      (fun _ _ _ _ _ hstep => tree_of_applyStarting hstep) (tree_of_applyStarting hhead) hrest

theorem tree_of_apply {m : NetId} (h : r.apply d nl = .ok (m, nl'))
    (hsinks : r.belPinSinks ≠ []) : ∃ net, nl'.net? m = some net ∧ r.tree ∈ net.intrasite := by
  unfold SiteRoute.apply at h
  split at h
  next pin allowUnused _ =>
    obtain ⟨⟨i, first⟩, hadd, h⟩ := Checked.bind_eq_ok.1 h
    obtain ⟨second, hset, h⟩ := Checked.bind_eq_ok.1 h
    obtain ⟨last, hfold, heq⟩ := Checked.bind_eq_ok.1 h
    cases Checked.pure_eq_ok.1 heq
    have hfirst := tree_of_register hadd (fun i net => .setSitePinRoute net pin i) hset
    refine Checked.foldlM_keeps
      (fun nl => ∃ net, nl.net? r.net = some net ∧ r.tree ∈ net.intrasite)
      (fun _ _ hp _ htree hstep => ?_) hfirst hfold
    exact tree_stays (grows_of_enters (enters_of_applyEntering hp hstep)) htree
  next pin contained _ =>
    obtain ⟨net, -, h⟩ := Checked.bind_eq_ok.1 h
    split at h
    · exact tree_of_foldlM_applyStarting hsinks h
    · obtain ⟨⟨i, first⟩, -, h⟩ := Checked.bind_eq_ok.1 h
      obtain ⟨second, -, h⟩ := Checked.bind_eq_ok.1 h
      exact tree_of_foldlM_applyStarting hsinks h

/-- A route that comes in through a site pin stays with its net. -/
theorem net_of_apply {m : NetId} {pin : SitePinId} {allowUnused : Bool}
    (hsource : r.source = .sitePin pin allowUnused) (h : r.apply d nl = .ok (m, nl')) :
    m = r.net := by
  unfold SiteRoute.apply at h
  rw [hsource] at h
  obtain ⟨⟨i, first⟩, -, h⟩ := Checked.bind_eq_ok.1 h
  obtain ⟨second, -, h⟩ := Checked.bind_eq_ok.1 h
  obtain ⟨last, -, heq⟩ := Checked.bind_eq_ok.1 h
  cases Checked.pure_eq_ok.1 heq
  rfl

/-! ## Marking sinks -/

def sinkPins (r : SiteRoute) (nl : Netlist) : List PinId := r.belPinSinks.filterMap nl.pinAt?

theorem mem_sinkPins {q : PinId} :
    q ∈ r.sinkPins nl ↔ ∃ b ∈ r.belPinSinks, nl.pinAt? b = some q :=
  List.mem_filterMap

theorem mem_routedSinks_foldl {net : Net} {qs : List PinId} {q : PinId} :
    q ∈ (qs.foldl Net.addRoutedSink net).routedSinks ↔ q ∈ qs ∨ q ∈ net.routedSinks := by
  induction qs generalizing net with
  | nil => simp
  | cons q' qs ih =>
    rw [List.foldl_cons, ih, Net.addRoutedSink, Std.ExtTreeSet.mem_insert,
      Std.LawfulEqCmp.compare_eq_iff_eq, List.mem_cons, @eq_comm _ q' q]
    tauto

theorem exists_foldl_addRoutedSink (qs : List PinId) (net : Net) :
    ∃ routedSinks, qs.foldl Net.addRoutedSink net = { net with routedSinks } := by
  induction qs generalizing net with
  | nil => exact ⟨_, rfl⟩
  | cons q qs ih => exact ih (net.addRoutedSink q)

theorem foldlM_markRouted_eq_ok {n : NetId} {ps : List BelPinId} :
    ps.foldlM (fun nl p =>
        match nl.pinAt? p with
        | none => Pure.pure nl
        | some q => nl.updateNet n fun net => net.addRoutedSink q) nl = .ok nl' ↔
      (ps.filterMap nl.pinAt? = [] ∨ (nl.net? n).isSome) ∧
        nl' = nl.modifyNet n fun net => (ps.filterMap nl.pinAt?).foldl Net.addRoutedSink net := by
  induction ps generalizing nl with
  | nil =>
    rw [List.foldlM_nil, Checked.pure_eq_ok]
    simp [Netlist.modifyNet_id]
  | cons p ps ih =>
    rw [List.foldlM_cons, List.filterMap_cons]
    cases hp : nl.pinAt? p with
    | none => exact ih
    | some q =>
      have hlive : ((nl.modifyNet n fun net => net.addRoutedSink q).net? n).isSome =
          (nl.net? n).isSome := by
        rw [Netlist.net?_modifyNet, Netlist.isSome_ite_map]
      simp only [Checked.bind_eq_ok, Netlist.updateNet_eq_ok]
      constructor
      · rintro ⟨_, ⟨hn, rfl⟩, hrest⟩
        obtain ⟨-, rfl⟩ := ih.1 hrest
        exact ⟨.inr hn, Netlist.modifyNet_modifyNet ..⟩
      · rintro ⟨hn, rfl⟩
        have hn : (nl.net? n).isSome := hn.resolve_left (by simp)
        refine ⟨_, ⟨hn, rfl⟩, ih.2 ⟨.inr (hlive.trans hn), ?_⟩⟩
        symm
        exact Netlist.modifyNet_modifyNet ..

/-- Sinks are marked with one net, which has to be there if there are any. -/
theorem markRouted_eq_ok :
    r.markRouted nl = .ok nl' ↔ (r.sinkPins nl = [] ∨ (nl.net? r.net).isSome) ∧
      nl' = nl.modifyNet r.net fun net => (r.sinkPins nl).foldl Net.addRoutedSink net :=
  foldlM_markRouted_eq_ok

theorem markRouted_of_apply {m : NetId} {pin : SitePinId} {allowUnused : Bool} {mid : Netlist}
    (hsource : r.source = .sitePin pin allowUnused) (happly : r.apply d nl = .ok (m, mid))
    (hmark : { r with net := m }.markRouted mid = .ok nl') : r.markRouted mid = .ok nl' := by
  obtain rfl := net_of_apply hsource happly
  exact hmark

section markRouted

variable (h : r.markRouted nl = .ok nl')

include h

theorem grows_of_markRouted : nl.Extends nl' := by
  obtain ⟨-, rfl⟩ := markRouted_eq_ok.1 h
  refine .modifyNet nl _ fun net => ?_
  have hsinks : ∀ q ∈ net.routedSinks,
      q ∈ ((r.sinkPins nl).foldl Net.addRoutedSink net).routedSinks :=
    fun q hq => mem_routedSinks_foldl.2 (.inr hq)
  obtain ⟨routedSinks, heq⟩ := exists_foldl_addRoutedSink (r.sinkPins nl) net
  rw [heq] at hsinks ⊢
  exact { Net.Extends.refl net with routedSinks := hsinks }

theorem consistent_of_markRouted (hnl : nl.Consistent) : nl'.Consistent := by
  obtain ⟨-, rfl⟩ := markRouted_eq_ok.1 h
  refine hnl.modifyNet _ fun net => ?_
  obtain ⟨routedSinks, heq⟩ := exists_foldl_addRoutedSink (r.sinkPins nl) net
  rw [heq]
  rfl

theorem closed_of_markRouted (hnl : nl.Closed) : nl'.Closed := by
  have hconsistent := consistent_of_markRouted h hnl.toConsistent
  obtain ⟨-, rfl⟩ := markRouted_eq_ok.1 h
  refine hnl.rejoin hconsistent (.modifyNet nl _ fun net => ?_)
  obtain ⟨routedSinks, heq⟩ := exists_foldl_addRoutedSink (r.sinkPins nl) net
  rw [heq]

end markRouted

end SiteRoute

end Fabric
