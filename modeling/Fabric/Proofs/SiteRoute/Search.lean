import Fabric.Proofs.Device.Wiring
import Fabric.Proofs.RouteTree.Search
import Fabric.SiteRoute.Search
/-!
# Following a search inside a site

A search inside a site grows its tree as a breadth-first search does that follows nothing out
of a wire at which it stops. Beside the tree it collects sinks: each node that has been
followed adds at most one, which depends on its wire and on where the route starts only.
-/

namespace Fabric.SiteRoute

variable (ctx : SiteContext) (r : SiteRoute)

def IsStop (w : Wire) : Prop :=
  some w ≠ r.start? ∧ (r.endsAtBelPin ctx w ∨ (ctx.device.pinAhead? w).isSome)

instance (w : Wire) : Decidable (r.IsStop ctx w) := inferInstanceAs (Decidable (_ ∧ _))

def Follows (w : Wire) (c : Connection) : Prop :=
  ¬ r.IsStop ctx w ∧ c ∈ ctx.device.connections w ∧ ctx.qualifies c

def followed (w : Wire) : List Connection :=
  if r.IsStop ctx w then [] else (ctx.device.connections w).filter ctx.qualifies

def belPinAt? (w : Wire) : Option BelPinId :=
  if some w ≠ r.start? ∧ r.endsAtBelPin ctx w then
    (ctx.device.terminal? w).filter (r.acceptsBelPin ctx)
  else none

def sitePinAt? (w : Wire) : Option SitePinId :=
  if some w ≠ r.start? ∧ ¬ r.endsAtBelPin ctx w then
    (ctx.device.pinAhead? w).filter fun _ => r.acceptsSitePin
  else none

def note {α : Type} [BEq α] (as : List α) : Option α → List α
  | none => as
  | some a => if as.contains a then as else as ++ [a]

variable {ctx r}

theorem mem_followed {w : Wire} {c : Connection} : c ∈ r.followed ctx w ↔ r.Follows ctx w c := by
  unfold followed Follows
  split
  next h => simp [h]
  next h => simp [h]

theorem source_of_mem_followed {w : Wire} {c : Connection} (hc : c ∈ r.followed ctx w) :
    c.source = w :=
  Device.source_of_mem_connections (mem_followed.1 hc).2.1

theorem mem_note {α : Type} [BEq α] [LawfulBEq α] {as : List α} {new : Option α} {a : α} :
    a ∈ note as new ↔ a ∈ as ∨ new = some a := by
  cases new with
  | none => simp [note]
  | some b =>
    by_cases hb : b ∈ as
    · simp only [note, List.contains_eq_mem, hb, decide_true, if_true, Option.some.injEq]
      exact ⟨.inl, fun h => h.elim id fun he => he ▸ hb⟩
    · simp [note, hb, eq_comm]

theorem nodup_note {α : Type} [BEq α] [LawfulBEq α] {as : List α} (h : as.Nodup)
    (new : Option α) : (note as new).Nodup := by
  cases new with
  | none => exact h
  | some b =>
    by_cases hb : b ∈ as
    · simpa [note, hb] using h
    · simp only [note, List.contains_eq_mem, hb, decide_false, Bool.false_eq_true, if_false]
      rw [List.nodup_append]
      refine ⟨h, by simp, ?_⟩
      intro a ha b' hb' hab
      rw [List.mem_singleton.1 hb'] at hab
      exact hb (hab ▸ ha)

/-! ## One node -/

theorem follow_spec (ctx : SiteContext) {s : Search} (hs : s.1.tree.HasWires s.2) (node : Nat)
    (c : Connection) :
    (follow ctx node s c).1.tree.HasWires (follow ctx node s c).2 ∧
      (follow ctx node s c).1 = { s.1 with
        tree := if ctx.qualifies c then s.1.tree.reach node c else s.1.tree } := by
  obtain ⟨r, visited⟩ := s
  unfold follow
  dsimp only
  split
  next hnew => exact ⟨hs.grow node c, by rw [hs.reach_of_new node hnew]⟩
  next hold => exact ⟨hs, by rw [hs.reach_of_old node hold]⟩

theorem foldl_follow_spec (ctx : SiteContext) {s : Search} (hs : s.1.tree.HasWires s.2)
    (node : Nat) (cs : List Connection) :
    (cs.foldl (follow ctx node) s).1.tree.HasWires (cs.foldl (follow ctx node) s).2 ∧
      (cs.foldl (follow ctx node) s).1 = { s.1 with
        tree := (cs.filter ctx.qualifies).foldl (RouteTree.reach node) s.1.tree } := by
  rw [List.foldl_filter]
  induction cs generalizing s with
  | nil => exact ⟨hs, rfl⟩
  | cons c cs ih =>
    obtain ⟨hnext, hroute⟩ := follow_spec ctx hs node c
    obtain ⟨hrest, hroutes⟩ := ih hnext
    rw [List.foldl_cons, List.foldl_cons]
    refine ⟨hrest, ?_⟩
    rw [hroutes, hroute]

structure SameOrigin (r r' : SiteRoute) : Prop where
  source : r'.source = r.source
  net : r'.net = r.net
  start : r'.start? = r.start?

namespace SameOrigin

variable {r' : SiteRoute} (h : r.SameOrigin r')

include h

theorem endsAtBelPin (w : Wire) : r'.endsAtBelPin ctx w = r.endsAtBelPin ctx w := by
  unfold SiteRoute.endsAtBelPin
  rw [h.source]

theorem acceptsBelPin (p : BelPinId) : r'.acceptsBelPin ctx p = r.acceptsBelPin ctx p := by
  unfold SiteRoute.acceptsBelPin isOnNet
  rw [h.source, h.net]

theorem acceptsSitePin : r'.acceptsSitePin = r.acceptsSitePin := by
  unfold SiteRoute.acceptsSitePin
  rw [h.source]

end SameOrigin

theorem exists_terminal {w : Wire} (h : r.endsAtBelPin ctx w) :
    ∃ p, ctx.device.terminal? w = some p := by
  obtain ⟨p, hp, -⟩ := (Option.any_eq_true _ _).1 h
  exact ⟨p, hp⟩

theorem offerBelPin_eq (ctx : SiteContext) (r : SiteRoute) (p : BelPinId) (node : Nat) :
    r.offerBelPin ctx p node = { r with
      belPinSinks := note r.belPinSinks ((some p).filter (r.acceptsBelPin ctx))
      ends := if ((some p).filter (r.acceptsBelPin ctx)).isSome then r.ends ++ [node]
        else r.ends } := by
  unfold offerBelPin
  rw [Option.filter_some]
  by_cases hp : r.acceptsBelPin ctx p
  · simp [hp, note]
  · simp [hp, note]

theorem offerSitePin_eq (r : SiteRoute) (p : SitePinId) (node : Nat) :
    r.offerSitePin p node = { r with
      sitePinSinks := note r.sitePinSinks ((some p).filter fun _ => r.acceptsSitePin)
      ends := if ((some p).filter fun _ => r.acceptsSitePin).isSome then r.ends ++ [node]
        else r.ends } := by
  unfold offerSitePin
  rw [Option.filter_some]
  by_cases hp : r.acceptsSitePin
  · simp [hp, note]
  · simp [hp, note]

/-- A node is offered as a sink or followed. Either way its wire tells what becomes of it. -/
theorem expand_spec {s : Search} (hs : s.1.tree.HasWires s.2) (hr : r.SameOrigin s.1) (node : Nat)
    (w : Wire) :
    (expand ctx node w s).1.tree.HasWires (expand ctx node w s).2 ∧
      (expand ctx node w s).1 = { s.1 with
        tree := (r.followed ctx w).foldl (RouteTree.reach node) s.1.tree
        belPinSinks := note s.1.belPinSinks (r.belPinAt? ctx w)
        sitePinSinks := note s.1.sitePinSinks (r.sitePinAt? ctx w)
        ends := if (r.belPinAt? ctx w).isSome ∨ (r.sitePinAt? ctx w).isSome then
          s.1.ends ++ [node] else s.1.ends } := by
  obtain ⟨r', visited⟩ := s
  have haccepts : r'.acceptsBelPin ctx = r.acceptsBelPin ctx := funext hr.acceptsBelPin
  unfold expand
  simp only [hr.start, hr.endsAtBelPin]
  -- A BEL pin goes before a site pin, and a wire that has either is not followed.
  by_cases hbel : some w ≠ r.start? ∧ r.endsAtBelPin ctx w
  · have hstop : r.IsStop ctx w := ⟨hbel.1, .inl hbel.2⟩
    obtain ⟨p, hp⟩ := exists_terminal hbel.2
    have hbelAt : r.belPinAt? ctx w = (some p).filter (r.acceptsBelPin ctx) := by
      rw [belPinAt?, if_pos hbel, hp]
    have hsiteAt : r.sitePinAt? ctx w = none := if_neg fun h => h.2 hbel.2
    rw [if_pos hbel, hp, Option.map_some, Option.getD_some, offerBelPin_eq, haccepts, hbelAt,
      hsiteAt, followed, if_pos hstop]
    exact ⟨hs, by simp [note]⟩
  · have hbelAt : r.belPinAt? ctx w = none := if_neg hbel
    by_cases hpin : some w ≠ r.start? ∧ (ctx.device.pinAhead? w).isSome
    · have hstop : r.IsStop ctx w := ⟨hpin.1, .inr hpin.2⟩
      obtain ⟨p, hp⟩ := Option.isSome_iff_exists.1 hpin.2
      have hsiteAt : r.sitePinAt? ctx w = (some p).filter fun _ => r.acceptsSitePin := by
        rw [sitePinAt?, if_pos ⟨hpin.1, fun h => hbel ⟨hpin.1, h⟩⟩, hp]
      rw [if_neg hbel, if_pos hpin, hp, Option.map_some, Option.getD_some, offerSitePin_eq,
        hr.acceptsSitePin, hbelAt, hsiteAt, followed, if_pos hstop]
      exact ⟨hs, by simp [note]⟩
    · have hstop : ¬ r.IsStop ctx w := by
        rintro ⟨hw, h | h⟩
        · exact hbel ⟨hw, h⟩
        · exact hpin ⟨hw, h⟩
      have hsiteAt : r.sitePinAt? ctx w = none := by
        unfold sitePinAt?
        split
        next h => rw [Option.not_isSome_iff_eq_none.1 fun hsome => hpin ⟨h.1, hsome⟩]; rfl
        next => rfl
      rw [if_neg hbel, if_neg hpin, hbelAt, hsiteAt, followed, if_neg hstop]
      obtain ⟨hwires, hroute⟩ := foldl_follow_spec ctx hs node (ctx.device.connections w)
      exact ⟨hwires, by simpa [note] using hroute⟩

/-! ## All nodes -/

def Collected {α : Type} (found : Wire → Option α) (t : RouteTree) (done : Nat) (as : List α) :
    Prop :=
  as.Nodup ∧ ∀ a, a ∈ as ↔ ∃ i < done, ∃ w, t.wire? i = some w ∧ found w = some a

theorem Collected.note {α : Type} [BEq α] [LawfulBEq α] {found : Wire → Option α}
    {t u : RouteTree} {done : Nat} {as : List α} (h : Collected found t done as) {w : Wire}
    (hw : t.wire? done = some w) (hext : t.Extends u) :
    Collected found u (done + 1) (note as (found w)) := by
  have hdone : done < t.size := RouteTree.lt_size_of_wire? hw
  refine ⟨nodup_note h.1 _, fun a => ?_⟩
  rw [mem_note, h.2 a]
  constructor
  · rintro (⟨i, hi, v, hv, ha⟩ | ha)
    · exact ⟨i, by omega, v, by rw [hext.wire i (by omega), hv], ha⟩
    · exact ⟨done, by omega, w, by rw [hext.wire done hdone, hw], ha⟩
  · rintro ⟨i, hi, v, hv, ha⟩
    rw [hext.wire i (by omega)] at hv
    by_cases hid : i = done
    · subst hid
      rw [hw] at hv
      cases hv
      exact .inr ha
    · exact .inl ⟨i, by omega, v, hv, ha⟩

theorem Collected.mem_iff {α : Type} {found : Wire → Option α} {t : RouteTree} {done : Nat}
    {as : List α} (h : Collected found t done as) (hdone : t.size ≤ done) {a : α} :
    a ∈ as ↔ ∃ w, (∃ i, t.wire? i = some w) ∧ found w = some a := by
  rw [h.2 a]
  constructor
  · rintro ⟨i, -, w, hw, ha⟩
    exact ⟨w, ⟨i, hw⟩, ha⟩
  · rintro ⟨w, ⟨i, hw⟩, ha⟩
    have := RouteTree.lt_size_of_wire? hw
    exact ⟨i, by omega, w, hw, ha⟩

def Accepts (ctx : SiteContext) (r : SiteRoute) (w : Wire) : Prop :=
  (r.belPinAt? ctx w).isSome ∨ (r.sitePinAt? ctx w).isSome

instance (w : Wire) : Decidable (r.Accepts ctx w) := inferInstanceAs (Decidable (_ ∨ _))

/-- What the search of the route `r` has noted when the nodes before `done` have been followed. -/
structure Tracks (ctx : SiteContext) (r : SiteRoute) (done : Nat) (r' : SiteRoute) : Prop where
  origin : r.SameOrigin r'
  belPins : Collected (r.belPinAt? ctx) r'.tree done r'.belPinSinks
  sitePins : Collected (r.sitePinAt? ctx) r'.tree done r'.sitePinSinks
  ends : ∀ i, i ∈ r'.ends ↔ i < done ∧ ∃ w, r'.tree.wire? i = some w ∧ r.Accepts ctx w

theorem Tracks.expand {s : Search} {done : Nat} (h : Tracks ctx r done s.1)
    (hs : s.1.tree.HasWires s.2) {w : Wire} (hw : s.1.tree.wire? done = some w) :
    Tracks ctx r (done + 1) (expand ctx done w s).1 := by
  have hdone := RouteTree.lt_size_of_wire? hw
  have hext := RouteTree.extends_foldl_reach s.1.tree done (r.followed ctx w)
  rw [(expand_spec hs h.origin done w).2]
  refine ⟨⟨h.origin.source, h.origin.net, ?_⟩, h.belPins.note hw hext, h.sitePins.note hw hext, ?_⟩
  · rw [← h.origin.start]
    exact hext.wire 0 (by omega)
  · intro i
    have hmem : (i ∈ if r.Accepts ctx w then s.1.ends ++ [done] else s.1.ends) ↔
        i ∈ s.1.ends ∨ i = done ∧ r.Accepts ctx w := by
      by_cases ha : r.Accepts ctx w <;> simp [ha]
    refine hmem.trans ?_
    rw [h.ends i]
    constructor
    · rintro (⟨hi, v, hv, ha⟩ | ⟨rfl, ha⟩)
      · exact ⟨by omega, v, by rw [hext.wire i (by omega), hv], ha⟩
      · exact ⟨by omega, w, by rw [hext.wire i hdone, hw], ha⟩
    · rintro ⟨hi, v, hv, ha⟩
      rw [hext.wire i (by omega)] at hv
      by_cases hid : i = done
      · subst hid
        rw [hw] at hv
        cases hv
        exact .inr ⟨rfl, ha⟩
      · exact .inl ⟨by omega, v, hv, ha⟩

/-- The search ends when its nodes or its steps run out. -/
theorem searchFrom_spec {s : Search} {done : Nat} (h : Tracks ctx r done s.1)
    (hs : s.1.tree.HasWires s.2) (steps : Nat) :
    (searchFrom ctx steps done s).1.tree =
        RouteTree.sweep (r.followed ctx) steps done s.1.tree ∧
      ∃ last, Tracks ctx r last (searchFrom ctx steps done s).1 ∧
        ((searchFrom ctx steps done s).1.tree.size ≤ last ∨ last = done + steps) := by
  induction steps generalizing s done with
  | zero => exact ⟨rfl, done, h, .inr rfl⟩
  | succ steps ih =>
    unfold searchFrom RouteTree.sweep
    cases hw : s.1.tree.wire? done with
    | none => exact ⟨rfl, done, h, .inl (RouteTree.wire?_eq_none.1 hw)⟩
    | some w =>
      obtain ⟨hwires, hroute⟩ := expand_spec hs h.origin done w
      obtain ⟨htree, last, htracks, hlast⟩ := ih (h.expand hs hw) hwires
      refine ⟨?_, last, htracks, ?_⟩
      · dsimp only
        rw [htree, hroute]
      · dsimp only
        omega

theorem searchFrom_add {steps node : Nat} {s : Search}
    (hend : (searchFrom ctx steps node s).1.tree.size ≤ node + steps) (more : Nat) :
    searchFrom ctx (steps + more) node s = searchFrom ctx steps node s := by
  induction steps generalizing node s with
  | zero =>
    have hnone : s.1.tree.wire? node = none := RouteTree.wire?_eq_none.2 hend
    cases more with
    | zero => rfl
    | succ more => simp [searchFrom, hnone]
  | succ steps ih =>
    rw [Nat.add_right_comm]
    unfold searchFrom
    unfold searchFrom at hend
    cases hw : s.1.tree.wire? node with
    | none => rfl
    | some w =>
      simp only [hw] at hend
      have hrest : (searchFrom ctx steps (node + 1) (expand ctx node w s)).1.tree.size ≤
          node + 1 + steps := by omega
      exact ih hrest

end Fabric.SiteRoute
