import Fabric.RouteText.Basic
import Mathlib.Data.List.Perm.Basic
/-!
# Joining written routes

A route that is driven through a node goes below the first occurrence of the node in the other
route, behind the children that are already there. Nothing else changes: the wires in between
stay where they are, and all hops of both routes are hops of the joined one.
-/

namespace Fabric.RouteText

/-! ## The first node on a wire -/

mutual

def subtrees : RouteText → List RouteText
  | ⟨w, cs⟩ => ⟨w, cs⟩ :: subtreesAll cs

def subtreesAll : List RouteText → List RouteText
  | [] => []
  | c :: cs => c.subtrees ++ subtreesAll cs

end

theorem subtreesAll_append (as bs : List RouteText) :
    subtreesAll (as ++ bs) = subtreesAll as ++ subtreesAll bs := by
  induction as with
  | nil => rfl
  | cons a as ih => rw [List.cons_append, subtreesAll, subtreesAll, ih, List.append_assoc]

theorem subtrees_eq_cons (t : RouteText) : t.subtrees = t :: subtreesAll t.children := by
  cases t
  rw [subtrees]

mutual

theorem map_wire_subtrees : (t : RouteText) → t.subtrees.map wire = t.wires
  | ⟨w, cs⟩ => by rw [subtrees, wires, List.map_cons, map_wire_subtreesAll]

theorem map_wire_subtreesAll : (cs : List RouteText) → (subtreesAll cs).map wire = wiresAll cs
  | [] => rfl
  | c :: cs => by
    rw [subtreesAll, wiresAll, List.map_append, map_wire_subtrees c, map_wire_subtreesAll cs]

end

theorem findAll?_eq {w : String} {cs : List RouteText}
    (h : ∀ c ∈ cs, c.find? w = c.subtrees.find? fun s => s.wire = w) :
    findAll? w cs = (subtreesAll cs).find? fun s => s.wire = w := by
  induction cs with
  | nil => rfl
  | cons c cs ih =>
    rw [List.forall_mem_cons] at h
    rw [findAll?, subtreesAll, List.find?_append, ← h.1, ← ih h.2]
    cases c.find? w <;> rfl

/-- What is found is the first node in order that is on the wire. -/
theorem find?_eq (w : String) (t : RouteText) :
    t.find? w = t.subtrees.find? fun s => s.wire = w := by
  induction t using RouteText.induction with
  | mk v cs ih =>
    rw [find?, subtrees, List.find?_cons]
    by_cases hv : v = w <;> simp [hv, findAll?_eq ih]

theorem find?_isSome (t : RouteText) (w : String) : (t.find? w).isSome ↔ w ∈ t.wires := by
  rw [find?_eq, List.find?_isSome, ← map_wire_subtrees, List.mem_map]
  simp only [decide_eq_true_eq]

theorem find?_eq_getElem? (t : RouteText) (w : String) :
    t.find? w = t.subtrees[t.wires.idxOf w]? := by
  have hindex : t.wires.idxOf w = t.subtrees.findIdx fun s => s.wire = w := by
    rw [← map_wire_subtrees, List.idxOf, List.findIdx_map]
    rfl
  rw [find?_eq, hindex, List.find?_eq_getElem?_findIdx]

/-! ## Hops -/

def hops (t : RouteText) : List (String × String) :=
  t.subtrees.flatMap fun s => s.children.map fun c => (s.wire, c.wire)

def hopsAll (cs : List RouteText) : List (String × String) :=
  (subtreesAll cs).flatMap fun s => s.children.map fun c => (s.wire, c.wire)

theorem hops_mk (w : String) (cs : List RouteText) :
    hops ⟨w, cs⟩ = cs.map (fun c => (w, c.wire)) ++ hopsAll cs := by
  rw [hops, subtrees, List.flatMap_cons]
  rfl

theorem hopsAll_cons (c : RouteText) (cs : List RouteText) :
    hopsAll (c :: cs) = c.hops ++ hopsAll cs := by
  rw [hopsAll, subtreesAll, List.flatMap_append]
  rfl

theorem hopsAll_append (as bs : List RouteText) :
    hopsAll (as ++ bs) = hopsAll as ++ hopsAll bs := by
  rw [hopsAll, subtreesAll_append, List.flatMap_append]
  rfl

/-! ## Where new children go -/

/-- Children are added to the first node on a wire: to the node at hand, or else below the first
of its children that has the wire in it. -/
inductive Grafts (w : String) (new : List RouteText) : RouteText → RouteText → Prop
  | here (cs : List RouteText) : Grafts w new ⟨w, cs⟩ ⟨w, cs ++ new⟩
  | inside {v : String} {before after : List RouteText} {c d : RouteText} (hv : v ≠ w)
      (hbefore : w ∉ wiresAll before) (h : Grafts w new c d) :
      Grafts w new ⟨v, before ++ c :: after⟩ ⟨v, before ++ d :: after⟩

theorem graftAll?_isSome {w : String} {new cs : List RouteText}
    (h : ∀ c ∈ cs, (c.graft? w new).isSome ↔ w ∈ c.wires) :
    (graftAll? w new cs).isSome ↔ w ∈ wiresAll cs := by
  induction cs with
  | nil => simp [graftAll?, wiresAll]
  | cons c cs ih =>
    obtain ⟨hc, hcs⟩ := List.forall_mem_cons.1 h
    rw [graftAll?, wiresAll, List.mem_append]
    split
    next d hd => exact iff_of_true rfl (.inl (hc.1 (by rw [hd]; rfl)))
    next hnone =>
      rw [hnone] at hc
      rw [Option.isSome_map, ih hcs]
      exact ⟨.inr, fun h => h.resolve_left fun hw => nomatch hc.2 hw⟩

theorem graft?_isSome (w : String) (new : List RouteText) (t : RouteText) :
    (t.graft? w new).isSome ↔ w ∈ t.wires := by
  induction t using RouteText.induction with
  | mk v cs ih =>
    rw [graft?, wires, List.mem_cons]
    split
    next hv => simp [hv]
    next hv =>
      rw [Option.isSome_map, graftAll?_isSome ih]
      exact ⟨.inr, fun h => h.resolve_left (Ne.symm hv)⟩

theorem grafts_of_graftAll? {w : String} {new cs ds : List RouteText}
    (h : ∀ c ∈ cs, ∀ d, c.graft? w new = some d → Grafts w new c d)
    (hds : graftAll? w new cs = some ds) :
    ∃ before c d after, cs = before ++ c :: after ∧ ds = before ++ d :: after ∧
      w ∉ wiresAll before ∧ Grafts w new c d := by
  induction cs generalizing ds with
  | nil => cases hds
  | cons c cs ih =>
    obtain ⟨hc, hcs⟩ := List.forall_mem_cons.1 h
    rw [graftAll?] at hds
    split at hds
    next d hd =>
      cases hds
      exact ⟨[], c, d, cs, rfl, rfl, nofun, hc d hd⟩
    next hnone =>
      obtain ⟨es, hes, rfl⟩ := Option.map_eq_some_iff.1 hds
      obtain ⟨before, c', d, after, rfl, rfl, hbefore, hcd⟩ := ih hcs hes
      have hout : w ∉ c.wires := fun hw => by
        have hsome := (graft?_isSome w new c).2 hw
        rw [hnone] at hsome
        cases hsome
      refine ⟨c :: before, c', d, after, rfl, rfl, ?_, hcd⟩
      rw [wiresAll, List.mem_append]
      exact fun h => h.elim hout hbefore

theorem grafts_of_graft? {w : String} {new : List RouteText} {t u : RouteText}
    (h : t.graft? w new = some u) : Grafts w new t u := by
  induction t using RouteText.induction generalizing u with
  | mk v cs ih =>
    rw [graft?] at h
    split at h
    next hv =>
      cases h
      exact hv ▸ .here cs
    next hv =>
      obtain ⟨ds, hds, rfl⟩ := Option.map_eq_some_iff.1 h
      obtain ⟨before, c, d, after, rfl, rfl, hbefore, hcd⟩ :=
        grafts_of_graftAll? (fun c hc _ hd => ih c hc hd) hds
      exact .inside hv hbefore hcd

section Grafts

variable {w : String} {new : List RouteText} {t u : RouteText}

theorem Grafts.wire_eq (h : Grafts w new t u) : u.wire = t.wire := by
  cases h <;> rfl

/-- The new children are written right behind the first node on the wire and all below it. -/
theorem Grafts.subtrees_eq (h : Grafts w new t u) :
    ∃ (before : List RouteText) (s : RouteText) (after : List RouteText),
    t.subtrees = before ++ s.subtrees ++ after ∧ s.wire = w ∧ w ∉ before.map wire ∧
      u.wires = before.map wire ++ s.wires ++ wiresAll new ++ after.map wire := by
  induction h with
  | here cs =>
    refine ⟨[], ⟨w, cs⟩, [], by simp, rfl, nofun, ?_⟩
    simp [wires, wiresAll_append]
  | @inside v before after c d hv hbefore _ ih =>
    obtain ⟨before', s, after', hc, hs, hbefore', hd⟩ := ih
    refine ⟨⟨v, before ++ c :: after⟩ :: (subtreesAll before ++ before'), s,
      after' ++ subtreesAll after, ?_, hs, ?_, ?_⟩
    · simp [subtrees, subtreesAll_append, subtreesAll, hc]
    · rw [List.map_cons, List.map_append, map_wire_subtreesAll, List.mem_cons, List.mem_append]
      rintro (rfl | h | h)
      · exact hv rfl
      · exact hbefore h
      · exact hbefore' h
    · simp [wires, wiresAll_append, wiresAll, hd, map_wire_subtreesAll]

/-- Grafting loses no hop, and adds those from the node to its new children and those below. -/
theorem Grafts.perm_hops (h : Grafts w new t u) : u.hops.Perm (t.hops ++ hops ⟨w, new⟩) := by
  induction h with
  | here cs =>
    rw [List.perm_iff_count]
    intro e
    simp only [hops_mk, hopsAll_append, List.map_append, List.count_append]
    omega
  | @inside v before after c d _ _ hcd ih =>
    rw [List.perm_iff_count]
    intro e
    have hcount := ih.count_eq e
    simp only [hops_mk, hopsAll_append, hopsAll_cons, List.map_append, List.map_cons, hcd.wire_eq,
      List.count_append] at hcount ⊢
    omega

end Grafts

/-! ## Joined routes -/

def drivenOf (staticRoute moduleRoute : RouteText) (moduleIsDriven : Bool) : RouteText :=
  if moduleIsDriven then moduleRoute else staticRoute

def drivingOf (staticRoute moduleRoute : RouteText) (moduleIsDriven : Bool) : RouteText :=
  if moduleIsDriven then staticRoute else moduleRoute

theorem joinAt?_eq (a b : RouteText) (node : String) (moduleIsDriven : Bool) :
    a.joinAt? b node moduleIsDriven = if (drivenOf a b moduleIsDriven).wire = node then
      (drivingOf a b moduleIsDriven).graft? node (drivenOf a b moduleIsDriven).children
      else none := by
  cases moduleIsDriven <;>
  · unfold joinAt? mergeFrom?
    refine ite_congr rfl (fun h => ?_) fun _ => rfl
    exact congrArg (graft? · _ _) h

/-- Two routes are joined exactly when the driven one starts at the node and the driving one has
it. The driven route then stands, without its root, right behind the first node of the driving
one that is on the wire and all below it. The joined route has the root of the driving one, and
its hops are those of both. A search finds the first node in order on a wire. -/
theorem joinAt?_spec (a b : RouteText) (node : String) (moduleIsDriven : Bool) :
    ((a.joinAt? b node moduleIsDriven).isSome ↔
      (drivenOf a b moduleIsDriven).wire = node ∧ node ∈ (drivingOf a b moduleIsDriven).wires) ∧
    (∀ u, a.joinAt? b node moduleIsDriven = some u →
      u.wire = (drivingOf a b moduleIsDriven).wire ∧
      (∃ before s after, (drivingOf a b moduleIsDriven).wires = before ++ s.wires ++ after ∧
        node ∉ before ∧ s.wire = node ∧
        (drivingOf a b moduleIsDriven).subtrees[before.length]? = some s ∧
        u.wires = before ++ s.wires ++ (drivenOf a b moduleIsDriven).wires.tail ++ after) ∧
      u.hops.Perm ((drivingOf a b moduleIsDriven).hops ++ (drivenOf a b moduleIsDriven).hops)) ∧
    ∀ (t : RouteText) (w : String), t.subtrees.map wire = t.wires ∧
      ((t.find? w).isSome ↔ w ∈ t.wires) ∧ t.find? w = t.subtrees[t.wires.idxOf w]? := by
  generalize hdriven : drivenOf a b moduleIsDriven = driven
  generalize hdriving : drivingOf a b moduleIsDriven = driving
  rw [joinAt?_eq, hdriven, hdriving]
  obtain ⟨w, new⟩ := driven
  refine ⟨?_, fun u hu => ?_, fun t w => ⟨map_wire_subtrees t, find?_isSome t w,
    find?_eq_getElem? t w⟩⟩
  · split
    next hw => rw [graft?_isSome, and_iff_right hw]
    next hw => simp [hw]
  · obtain ⟨rfl, hgraft⟩ := Option.ite_none_right_eq_some.1 hu
    have hgrafts := grafts_of_graft? hgraft
    obtain ⟨before, s, after, hsubtrees, hs, hbefore, hwires⟩ := hgrafts.subtrees_eq
    refine ⟨hgrafts.wire_eq, ⟨before.map wire, s, after.map wire, ?_, hbefore, hs, ?_, hwires⟩,
      hgrafts.perm_hops⟩
    · rw [← map_wire_subtrees, hsubtrees, List.map_append, List.map_append, map_wire_subtrees]
    · rw [hsubtrees, List.length_map, List.append_assoc,
        List.getElem?_append_right (Nat.le_refl _), Nat.sub_self, subtrees_eq_cons]
      rfl

/-- Of two nodes on the wire only the first one gets the driven route, behind its own child. -/
example : joinAt? ⟨"S", [⟨"P", [⟨"A", []⟩]⟩, ⟨"P", []⟩]⟩ ⟨"P", [⟨"B", [⟨"C", []⟩]⟩]⟩ "P" true =
    some ⟨"S", [⟨"P", [⟨"A", []⟩, ⟨"B", [⟨"C", []⟩]⟩]⟩, ⟨"P", []⟩]⟩ := by
  decide

end Fabric.RouteText
