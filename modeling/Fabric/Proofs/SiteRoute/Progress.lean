import Fabric.Proofs.SiteRoute.Repeating
/-!
# Routes can be entered

In a closed netlist a route of a net that is there is entered without a fault, and the net that
it ends up on is there too.
-/

namespace Fabric

namespace Netlist

variable {d : Device} {nl : Netlist} {n : NetId}

theorem exists_createPseudoPin (h : nl.Closed) (hn : (nl.net? n).isSome) (b : BelPinId) :
    ∃ nl', nl.createPseudoPin d n b = .ok nl' := by
  unfold createPseudoPin
  split
  · exact ⟨nl, rfl⟩
  next c hc =>
    have hlive : (nl.cell? c).isSome := h.placed_cell _ c hc
    obtain ⟨net, hnet⟩ := Option.isSome_iff_exists.1 hn
    obtain ⟨cell, hcell⟩ := Option.isSome_iff_exists.1 hlive
    let name := (if net.kind = .vcc then "VCC_pseudo" else "GND_pseudo") ++
      toString cell.pseudoPinCount
    let added := nl.addPseudoPin c name (d.belPinDir b)
    have hadded : added.Closed := h.addPseudoPin hlive _ _
    have hpin : (added.pin? nl.nextPin).isSome := isSome_pin?_addPseudoPin_new nl c name _
    have hjoined : ((added.attach n nl.nextPin).pin? nl.nextPin).isSome := by
      rw [(Rejoins.attach _ n nl.nextPin).isSome_pin?]
      exact hpin
    refine ⟨(added.attach n nl.nextPin).mapPin nl.nextPin b, ?_⟩
    refine Checked.bind_eq_ok.2 ⟨net, getNet_eq_ok.2 hnet, ?_⟩
    refine Checked.bind_eq_ok.2 ⟨cell, getCell_eq_ok.2 hcell, ?_⟩
    refine Checked.bind_eq_ok.2 ⟨added, newPseudoPin_eq_ok.2 ⟨hlive, rfl⟩, ?_⟩
    refine Checked.bind_eq_ok.2 ⟨_, hadded.connect_iff.2 ⟨hn, hpin, rfl⟩, ?_⟩
    exact mapToBelPin_eq_ok.2 ⟨hjoined, rfl⟩

theorem exists_tieBelPin (h : nl.Closed) (hn : (nl.net? n).isSome) (b : BelPinId) :
    ∃ nl', nl.tieBelPin d n b = .ok nl' := by
  unfold tieBelPin
  split
  · exact exists_createPseudoPin h hn b
  next q hq =>
    have hlive : (nl.pin? q).isSome := h.mapped_pin b q hq
    obtain ⟨pin, hpin⟩ := Option.isSome_iff_exists.1 hlive
    rw [getPin_eq_ok.2 hpin]
    by_cases hoff : pin.net = none
    · exact ⟨_, (if_pos hoff).trans (h.connect_iff.2 ⟨hn, hlive, rfl⟩)⟩
    · exact ⟨nl, if_neg hoff⟩

end Netlist

namespace SiteRoute

variable {d : Device} {nl : Netlist} {r : SiteRoute}

/-! ## Routes that come in through a site pin -/

theorem exists_applyEntering (h : nl.Closed) (hn : (nl.net? r.net).isSome) (allowUnused : Bool)
    (b : BelPinId) : ∃ nl', r.applyEntering d allowUnused nl b = .ok nl' := by
  let noted := nl.writeAll [(r.net, .note r.tree (.belPin b))]
  have hregister : nl.registerBelPin r.net r.tree b = .ok noted :=
    registerBelPin_eq_ok.2 ⟨hn, rfl⟩
  unfold applyEntering
  rw [hregister]
  cases allowUnused with
  | false => exact ⟨noted, rfl⟩
  | true =>
    have hlive : (noted.net? r.net).isSome := Netlist.isSome_net?_writeAll.trans hn
    exact Netlist.exists_tieBelPin (h.write r.net _) hlive b

theorem exists_entering (h : nl.Closed) (hn : (nl.net? r.net).isSome) (allowUnused : Bool) :
    ∃ nl', r.belPinSinks.foldlM (r.applyEntering d allowUnused) nl = .ok nl' ∧
      (nl'.net? r.net).isSome := by
  have step : ∀ (nl : Netlist), ∀ b ∈ r.belPinSinks, nl.Closed ∧ (nl.net? r.net).isSome →
      ∃ nl', r.applyEntering d allowUnused nl b = .ok nl' ∧
        nl'.Closed ∧ (nl'.net? r.net).isSome := by
    rintro nl b hb ⟨hc, hn⟩
    obtain ⟨nl', hstep⟩ := exists_applyEntering (d := d) hc hn allowUnused b
    have hchain := enters_of_applyEntering hb hstep
    refine ⟨nl', hstep, closed_of_enters hchain hc, ?_⟩
    rw [(grows_of_enters hchain).isSome_net?]
    exact hn
  obtain ⟨last, hfold, -, hlast⟩ := Checked.exists_foldlM_eq_ok
    (fun nl : Netlist => nl.Closed ∧ (nl.net? r.net).isSome) step ⟨h, hn⟩
  exact ⟨last, hfold, hlast⟩

/-! ## Routes that start at a BEL pin -/

/-- From every net that is there the route can go on at a sink, to one that is there too. -/
theorem exists_passes (h : nl.Consistent) {n : NetId} (hn : (nl.net? n).isSome) {b : BelPinId}
    (hb : ∀ q, nl.pinAt? b = some q → (nl.pin? q).isSome) :
    ∃ m mid, Passes nl n b m mid ∧ (nl.net? m).isSome := by
  cases hq : nl.pinAt? b with
  | none => exact ⟨n, nl, .free hq, hn⟩
  | some q =>
    cases hm : nl.netOf? q with
    | none => exact ⟨n, nl.attach n q, .join hq (hb q hq) hm, hn⟩
    | some m => exact ⟨m, nl, .other hq hm, h.live_net hm⟩

theorem Passes.consistent {n m : NetId} {b : BelPinId} (h : Passes nl n b m nl')
    (hm : (nl.net? m).isSome) (hnl : nl.Consistent) : nl'.Consistent := by
  cases h with
  | free => exact hnl
  | join => exact hnl.attach hm _
  | other => exact hnl

theorem exists_starting (h : nl.Consistent) {n : NetId} (hn : (nl.net? n).isSome)
    (hpins : ∀ b ∈ r.belPinSinks, ∀ q, nl.pinAt? b = some q → (nl.pin? q).isSome) :
    ∃ m nl', r.belPinSinks.foldlM r.applyStarting (n, nl) = .ok (m, nl') ∧
      (nl'.net? m).isSome := by
  have step : ∀ (state : NetId × Netlist), ∀ b ∈ r.belPinSinks,
      (nl.Advances state.2 ∧ state.2.Consistent ∧ (state.2.net? state.1).isSome) →
      ∃ state', r.applyStarting state b = .ok state' ∧
        nl.Advances state'.2 ∧ state'.2.Consistent ∧ (state'.2.net? state'.1).isSome := by
    rintro ⟨k, mid⟩ b hb ⟨hon, hc, hk⟩
    have hat : ∀ q, mid.pinAt? b = some q → (mid.pin? q).isSome := by
      intro q hq
      obtain ⟨pin, hpin⟩ := Option.isSome_iff_exists.1
        (hpins b hb q ((hon.pinAt? b).symm.trans hq))
      obtain ⟨pin', hpin', -⟩ := hon.pin_stays q pin hpin
      exact Option.isSome_iff_exists.2 ⟨pin', hpin'⟩
    obtain ⟨m, last, hpass, hm⟩ := exists_passes hc hk hat
    refine ⟨_, applyStarting_of_passes hpass hm,
      (hon.trans hpass.advances).trans (.writeAll last _), (hpass.consistent hm hc).writeAll _, ?_⟩
    exact Netlist.isSome_net?_writeAll.trans ((hpass.isSome_net? m).trans hm)
  obtain ⟨⟨m, nl'⟩, hfold, -, -, hm⟩ := Checked.exists_foldlM_eq_ok
    (fun state : NetId × Netlist =>
      nl.Advances state.2 ∧ state.2.Consistent ∧ (state.2.net? state.1).isSome) step
    (b := (n, nl)) ⟨.refl nl, h, hn⟩
  exact ⟨m, nl', hfold, hm⟩

theorem exists_apply_starting {pin : BelPinId} {contained : Bool}
    (hsource : r.source = .belPin pin contained) (h : nl.Consistent)
    (hn : (nl.net? r.net).isSome)
    (hpins : ∀ b ∈ r.belPinSinks, ∀ q, nl.pinAt? b = some q → (nl.pin? q).isSome) :
    ∃ m nl', r.apply d nl = .ok (m, nl') ∧ (nl'.net? m).isSome := by
  have hlive : ((nl.writeAll (departure d r nl)).net? r.net).isSome :=
    Netlist.isSome_net?_writeAll.trans hn
  obtain ⟨m, nl', hfold, hm⟩ := exists_starting (h.writeAll (departure d r nl)) hlive hpins
  exact ⟨m, nl', (apply_starting_eq_ok hsource).2 ⟨hn, hfold⟩, hm⟩

theorem exists_apply (h : nl.Closed) (hn : (nl.net? r.net).isSome) :
    ∃ m nl', r.apply d nl = .ok (m, nl') ∧ (nl'.net? m).isSome := by
  rcases hsource : r.source with ⟨pin, allowUnused⟩ | ⟨pin, contained⟩
  · have hclosed := h.write r.net (.note r.tree (.sitePin pin))
    obtain ⟨nl', hfold, hlast⟩ := exists_entering (d := d) hclosed
      (Netlist.isSome_net?_writeAll.trans hn) allowUnused
    exact ⟨r.net, nl', (apply_entering_eq_ok hsource).2 ⟨hn, rfl, hfold⟩, hlast⟩
  · exact exists_apply_starting hsource h.toConsistent hn fun b _ => h.mapped_pin b

end SiteRoute

end Fabric
