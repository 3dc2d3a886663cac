import Fabric.Proofs.Netlist.Resemblance
/-!
# Site routes and the status of the constants

Neither the search of a route inside a site nor the entering of one looks at the status of a net.
-/

namespace Fabric

/-! ## Entering routes -/

namespace Netlist.Resembles

variable {nl nl' : Netlist} (h : nl.Resembles nl')

include h

theorem registerBelPin (n : NetId) (t : RouteTree) (p : BelPinId) :
    Checked.Alike Eq Resembles (nl.registerBelPin n t p) (nl'.registerBelPin n t p) := by
  unfold Netlist.registerBelPin
  refine (h.addIntrasite n t).bind fun a b hab => ?_
  obtain ⟨hplace, hadded⟩ := hab
  dsimp only
  rw [hplace]
  exact hadded.updateNet n (Net.blind_setBelPinRoute p _)

variable (d : Device)

theorem createPseudoPin (n : NetId) (p : BelPinId) :
    Checked.Alike Eq Resembles (nl.createPseudoPin d n p) (nl'.createPseudoPin d n p) := by
  unfold Netlist.createPseudoPin
  rw [h.cellAt?, h.nextPin]
  split
  · exact .ok h
  next c _ =>
    refine (h.getNet n).bind fun net net' hnet => ?_
    rw [hnet.kind, h.getCell c]
    refine .bind_same fun cell => ?_
    refine (h.newPseudoPin c _ _).bind fun added added' hadded => ?_
    exact (hadded.connect n _).bind fun _ _ hjoined => hjoined.mapToBelPin _ p

theorem tieBelPin (n : NetId) (p : BelPinId) :
    Checked.Alike Eq Resembles (nl.tieBelPin d n p) (nl'.tieBelPin d n p) := by
  unfold Netlist.tieBelPin
  rw [h.pinAt? p]
  split
  · exact h.createPseudoPin d n p
  next q _ =>
    rw [h.getPin q]
    refine .bind_same fun pin => ?_
    split
    · exact h.connect n q
    · exact .ok h

end Netlist.Resembles

namespace SiteRoute

variable {nl nl' : Netlist} (h : nl.Resembles nl') (d : Device) (r : SiteRoute)

include h

theorem alike_applyEntering (allowUnused : Bool) (p : BelPinId) :
    Checked.Alike Eq Netlist.Resembles (r.applyEntering d allowUnused nl p)
      (r.applyEntering d allowUnused nl' p) := by
  unfold applyEntering
  refine (h.registerBelPin r.net r.tree p).bind fun reg reg' hreg => ?_
  split
  · exact hreg.tieBelPin d r.net p
  · exact .ok hreg

theorem alike_applyStarting (n : NetId) (p : BelPinId) :
    Netlist.AlikeTelling (r.applyStarting (n, nl) p) (r.applyStarting (n, nl') p) := by
  have hregister : ∀ (m : NetId) {nl nl' : Netlist}, nl.Resembles nl' → Netlist.AlikeTelling
      (do return (m, ← nl.registerBelPin m r.tree p))
      (do return (m, ← nl'.registerBelPin m r.tree p)) := fun m _ _ h =>
    (h.registerBelPin m r.tree p).bind fun _ _ hreg => .ok ⟨rfl, hreg⟩
  unfold applyStarting
  dsimp only
  rw [h.pinAt? p]
  split
  next q _ =>
    rw [h.getPin q]
    refine .bind_same fun pin => ?_
    split
    · exact (h.connect n q).bind fun _ _ hjoined => hregister n hjoined
    next m _ =>
      split
      · exact (h.getNet m).discard.bind fun _ _ _ => hregister m h
      · exact hregister n h
  · exact hregister n h

theorem alike_apply : Netlist.AlikeTelling (r.apply d nl) (r.apply d nl') := by
  unfold SiteRoute.apply
  split
  next pin allowUnused _ =>
    refine (h.addIntrasite r.net r.tree).bind fun a b hab => ?_
    obtain ⟨hplace, hadded⟩ := hab
    dsimp only
    rw [hplace]
    refine (hadded.updateNet r.net (Net.blind_setSitePinRoute pin _)).bind fun mid mid' hmid => ?_
    have hsinks : Checked.Alike Eq Netlist.Resembles
        (r.belPinSinks.foldlM (r.applyEntering d allowUnused) mid)
        (r.belPinSinks.foldlM (r.applyEntering d allowUnused) mid') :=
      .foldlM (fun p _ _ _ h => alike_applyEntering h d r allowUnused p) hmid
    exact hsinks.bind fun _ _ hlast => .ok ⟨rfl, hlast⟩
  next =>
    have hsinks : ∀ {nl nl' : Netlist}, nl.Resembles nl' → Netlist.AlikeTelling
        (r.belPinSinks.foldlM r.applyStarting (r.net, nl))
        (r.belPinSinks.foldlM r.applyStarting (r.net, nl')) := by
      intro nl nl' h
      refine .foldlM (fun p _ a b hab => ?_) ⟨rfl, h⟩
      obtain ⟨n, nl⟩ := a
      obtain ⟨m, nl'⟩ := b
      obtain ⟨rfl, h⟩ : n = m ∧ nl.Resembles nl' := hab
      exact alike_applyStarting h r n p
    refine (h.getNet r.net).bind fun net net' hnet => ?_
    rw [hnet.isStatic]
    split
    · exact hsinks h
    · refine (h.addIntrasite r.net r.tree).bind fun a b hab => ?_
      obtain ⟨hplace, hadded⟩ := hab
      dsimp only
      rw [hplace]
      have hregister := Net.blind_registerSource d b.1 r.sitePinSinks
      exact (hadded.updateNet r.net hregister).bind fun _ _ hmid => hsinks hmid

theorem alike_markRouted :
    Checked.Alike Eq Netlist.Resembles (r.markRouted nl) (r.markRouted nl') := by
  unfold markRouted
  refine .foldlM (fun p _ nl nl' h => ?_) h
  rw [h.pinAt? p]
  split
  · exact .ok h
  next q _ => exact h.updateNet r.net (Net.blind_addRoutedSink q)

end SiteRoute

/-! ## Searching -/

namespace SiteRoute

/-- A search does not look at the status of nets. -/
theorem build_blur (ctx : SiteContext) (r : SiteRoute) :
    r.build { ctx with netlist := ctx.netlist.blur } = r.build ctx := by
  have hsearch : ∀ steps node (s : Search),
      searchFrom { ctx with netlist := ctx.netlist.blur } steps node s =
        searchFrom ctx steps node s := by
    intro steps
    induction steps with
    | zero => exact fun _ _ => rfl
    | succ steps ih =>
      intro node s
      unfold searchFrom
      split
      · rfl
      · exact ih _ _
  unfold build
  rw [hsearch]

end SiteRoute

end Fabric
