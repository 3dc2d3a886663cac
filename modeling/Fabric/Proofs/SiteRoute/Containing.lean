import Fabric.Proofs.SiteRoute.Entering
import Fabric.Proofs.SiteRoute.Exact
/-!
# Routes that have to stay in their site

A contained route takes no site pin for a sink. Where its search stops at a way out of the site,
the branch is cut off again, so what is left of the tree ends at BEL pins in use, and no net is
led out of the site when it is entered.
-/

namespace Fabric

/-! ## Nets -/

/-- The net is led out of sites and between them as before, and `t` is the only tree inside a site
that it may have been given. -/
structure Net.StaysInside (t : RouteTree) (net net' : Net) : Prop where
  sourceSitePins : net'.sourceSitePins = net.sourceSitePins
  sitePinRoutes : net'.sitePinRoutes = net.sitePinRoutes
  intersite : net'.intersite = net.intersite
  intrasite : ∀ t' ∈ net'.intrasite, t' ∈ net.intrasite ∨ t' = t

namespace Net.StaysInside

variable {t : RouteTree} {net net' net'' : Net}

theorem refl (t : RouteTree) (net : Net) : net.StaysInside t net :=
  ⟨rfl, rfl, rfl, fun _ => .inl⟩

theorem trans (h : net.StaysInside t net') (h' : net'.StaysInside t net'') :
    net.StaysInside t net'' where
  sourceSitePins := h'.sourceSitePins.trans h.sourceSitePins
  sitePinRoutes := h'.sitePinRoutes.trans h.sitePinRoutes
  intersite := h'.intersite.trans h.intersite
  intrasite t' ht' := (h'.intrasite t' ht').elim (h.intrasite t') .inr

theorem addIntrasite (t : RouteTree) (net : Net) : net.StaysInside t (net.addIntrasite t) := by
  unfold Net.addIntrasite
  split
  · exact refl t net
  · exact ⟨rfl, rfl, rfl, by simp⟩

end Net.StaysInside

theorem Net.registerSource_nil (d : Device) (net : Net) (i : Nat) :
    net.registerSource d i [] = net.setSourceRoute i := by
  simp [registerSource]

abbrev Netlist.StaysInside (t : RouteTree) : Netlist → Netlist → Prop :=
  Netlist.Evolves fun _ => Net.StaysInside t

namespace SiteRoute

variable {d : Device} {r : SiteRoute} {nl nl' : Netlist} {pin : BelPinId}

section entering

variable {contained : Bool} (hsource : r.source = .belPin pin contained)
  (hexits : r.sitePinSinks = [])

include hsource hexits

theorem Registration.staysInside {note : Nat → Net → Net} (hnote : Registration d r note)
    (net : Net) : net.StaysInside r.tree (net.register r.tree note) := by
  refine (Net.StaysInside.addIntrasite r.tree net).trans ?_
  cases hnote with
  | sitePin hsite =>
    rw [hsource] at hsite
    cases hsite
  | source =>
    simp only [hexits, Net.registerSource_nil]
    exact ⟨rfl, rfl, rfl, fun _ => .inl⟩
  | belPin => exact ⟨rfl, rfl, rfl, fun _ => .inl⟩

/-- A route that starts at a BEL pin and has no site pins for sinks leads no net out. -/
theorem staysInside_of_apply {m : NetId} (happly : r.apply d nl = .ok (m, nl')) :
    nl.StaysInside r.tree nl' :=
  evolves_of_enters (fun _ => .refl r.tree) (fun _ _ _ _ => .trans)
    (fun _ hnote _ => hnote.staysInside hsource hexits)
    (fun _ _ _ _ => ⟨rfl, rfl, rfl, fun _ => .inl⟩) (enters_of_apply happly)

end entering

theorem staysInside_of_markRouted (hmark : r.markRouted nl = .ok nl') (t : RouteTree) :
    nl.StaysInside t nl' := by
  obtain ⟨-, rfl⟩ := markRouted_eq_ok.1 hmark
  refine .modifyNet (fun _ => .refl t) nl fun net => ?_
  obtain ⟨routedSinks, hsinks⟩ := exists_foldl_addRoutedSink (r.sinkPins nl) net
  rw [hsinks]
  exact ⟨rfl, rfl, rfl, fun _ => .inl⟩

/-! ## Searches -/

variable (ctx : SiteContext)

/-- A wire other than the start at which the search stops for no other reason than that it leads out
of the site. -/
def IsExit (r : SiteRoute) (w : Wire) : Prop :=
  some w ≠ r.start? ∧ ¬ r.endsAtBelPin ctx w ∧ (ctx.device.pinAhead? w).isSome

instance (w : Wire) : Decidable (r.IsExit ctx w) := inferInstanceAs (Decidable (_ ∧ _))

variable {ctx}

theorem IsExit.isStop {w : Wire} (h : r.IsExit ctx w) : r.IsStop ctx w := ⟨h.1, .inr h.2.2⟩

namespace Finds

variable {s : SiteId} {found : SiteRoute} (h : Finds ctx r s found)
  (hsource : r.source = .belPin pin true)

include h hsource

theorem sitePinSinks_eq_nil : found.sitePinSinks = [] := by
  refine List.eq_nil_iff_forall_not_mem.2 fun p hp => ?_
  obtain ⟨w, -, -, -, -, q, hq⟩ := (h.sitePins p).1 hp
  rw [hsource] at hq
  cases hq

/-- A contained route is valid as soon as its search comes to a BEL pin in use, whatever else the
search comes to. -/
theorem isValid_iff (hfound : found.source = r.source) :
    found.isValid ↔ ∃ w q, r.Reaches ctx w ∧ r.EndsWell ctx w q := by
  unfold isValid
  rw [hfound, hsource, h.sitePinSinks_eq_nil hsource]
  simp only [List.isEmpty_nil, Bool.and_true, Bool.not_eq_true',
    List.isEmpty_eq_false_iff_exists_mem]
  constructor
  · rintro ⟨q, hq⟩
    obtain ⟨w, hw⟩ := (h.belPins q).1 hq
    exact ⟨w, q, hw⟩
  · rintro ⟨w, q, hw⟩
    exact ⟨q, (h.belPins q).2 ⟨w, hw⟩⟩

theorem leaves_contained (w : Wire) :
    (∃ i, i ≠ 0 ∧ found.tree.wire? i = some w ∧ found.tree.children i = []) ↔
      r.Reaches ctx w ∧ ∃ q, r.EndsWell ctx w q := by
  rw [h.leaves w]
  refine and_congr_right fun _ => or_iff_left ?_
  rintro ⟨p, -, -, -, q, hq⟩
  rw [hsource] at hq
  cases hq

theorem not_isExit {w : Wire} (hw : w ∈ found.tree.wires) : ¬ r.IsExit ctx w := by
  intro hexit
  obtain ⟨i, hi⟩ := RouteTree.mem_wires.1 hw
  have h0 : i ≠ 0 := by
    rintro rfl
    exact hexit.1 (hi.symm.trans h.rooted)
  by_cases hleaf : found.tree.children i = []
  · obtain ⟨-, q, -, hends, -⟩ := (h.leaves_contained hsource w).1 ⟨i, h0, hi, hleaf⟩
    exact hexit.2.1 hends
  · exact h.interior i w h0 hi hleaf hexit.isStop

end Finds

end SiteRoute

end Fabric
