import Fabric.RouteTree.Basic
import Mathlib.Data.List.Chain
import Mathlib.Data.List.Nodup
/-!
# The shape of route trees

Parent links, child lists and the order of the nodes repeat one another. A well-formed tree
keeps them in step: a parent has a smaller number than its children, and it lists exactly
these, oldest first. Growing a tree keeps its shape and changes nothing that was there.
-/

namespace Fabric.RouteTree

def link? (t : RouteTree) (n : Nat) : Option Connection := (t.node? n).bind Node.link

def depth (t : RouteTree) (n : Nat) : Nat := (t.pathToRoot n).length - 1

structure WellFormed (t : RouteTree) : Prop where
  root : ∃ w children, t.node? 0 = some ⟨w, none, none, children⟩
  above : ∀ i n, t.node? i = some n → i ≠ 0 →
    ∃ p c, n.parent = some p ∧ p < i ∧ n.link = some c ∧ c.sink = n.wire
  below : ∀ p < t.size, t.children p = (List.range t.size).filter fun i => t.parent? i = some p

def Linked (t : RouteTree) : Prop :=
  ∀ i p c, t.parent? i = some p → t.link? i = some c → t.wire? p = some c.source

/-! ## Nodes -/

theorem node?_isSome {t : RouteTree} {i : Nat} : (t.node? i).isSome ↔ i < t.size := by
  simp [node?, size]

theorem exists_node {t : RouteTree} {i : Nat} (hi : i < t.size) : ∃ n, t.node? i = some n :=
  Option.isSome_iff_exists.1 (node?_isSome.2 hi)

theorem lt_size_of_node? {t : RouteTree} {i : Nat} {n : Node} (h : t.node? i = some n) :
    i < t.size := node?_isSome.1 (by simp [h])

theorem lt_size_of_wire? {t : RouteTree} {i : Nat} {w : Wire} (h : t.wire? i = some w) :
    i < t.size := by
  obtain ⟨n, hn, -⟩ := Option.map_eq_some_iff.1 h
  exact lt_size_of_node? hn

theorem lt_size_of_parent? {t : RouteTree} {i p : Nat} (h : t.parent? i = some p) :
    i < t.size := by
  obtain ⟨n, hn, -⟩ := Option.bind_eq_some_iff.1 h
  exact lt_size_of_node? hn

theorem lt_size_of_link? {t : RouteTree} {i : Nat} {c : Connection} (h : t.link? i = some c) :
    i < t.size := by
  obtain ⟨n, hn, -⟩ := Option.bind_eq_some_iff.1 h
  exact lt_size_of_node? hn

theorem link?_ofRoot (w : Wire) (i : Nat) : (ofRoot w).link? i = none := by
  refine Option.eq_none_iff_forall_ne_some.2 fun c hc => ?_
  have hi : i = 0 := by simpa using lt_size_of_link? hc
  subst hi
  simp [link?] at hc

theorem wire?_eq_none {t : RouteTree} {i : Nat} : t.wire? i = none ↔ t.size ≤ i := by
  simp [wire?, node?, size]

theorem exists_wire {t : RouteTree} {i : Nat} (hi : i < t.size) : ∃ w, t.wire? i = some w := by
  obtain ⟨n, hn⟩ := exists_node hi
  exact ⟨n.wire, by simp [wire?, hn]⟩

theorem length_wires (t : RouteTree) : t.wires.length = t.size := by
  simp [wires, size]

theorem getElem?_wires (t : RouteTree) (i : Nat) : t.wires[i]? = t.wire? i := by
  simp [wires, wire?, node?]

theorem mem_wires {t : RouteTree} {w : Wire} : w ∈ t.wires ↔ ∃ i, t.wire? i = some w := by
  simp only [List.mem_iff_getElem?, getElem?_wires]

/-- A leaf of the tree, other than its root, is on the wire. -/
def EndsAt (t : RouteTree) (w : Wire) : Prop :=
  ∃ i, i ≠ 0 ∧ t.wire? i = some w ∧ t.children i = []

theorem EndsAt.mem_wires {t : RouteTree} {w : Wire} (h : t.EndsAt w) : w ∈ t.wires := by
  obtain ⟨i, -, hw, -⟩ := h
  exact RouteTree.mem_wires.2 ⟨i, hw⟩

theorem containsWire_iff {t : RouteTree} {w : Wire} : t.containsWire w ↔ w ∈ t.wires := by
  simp [containsWire]

theorem eq_of_wire? {t : RouteTree} (ht : t.wires.Nodup) {i j : Nat} {w : Wire}
    (hi : t.wire? i = some w) (hj : t.wire? j = some w) : i = j := by
  rw [← getElem?_wires] at hi hj
  have hlt : i < t.wires.length := (List.getElem?_eq_some_iff.1 hi).1
  exact (List.getElem?_inj hlt ht).1 (hi.trans hj.symm)

/-! ## Growing a tree -/

section Grow

variable {t : RouteTree} {p : Nat} {c : Connection}

theorem node?_grow_of_lt {i : Nat} (hi : i < t.size) :
    (t.grow p c).node? i = (t.node? i).map fun n =>
      if i = p then { n with children := n.children ++ [t.size] } else n := by
  have hi' : i < t.nodes.size := hi
  rw [grow, node?, Array.getElem?_push, if_neg (by simp; omega), Array.getElem?_modify, node?]
  by_cases h : p = i
  · simp [h]
  · simp [h, Ne.symm h]

theorem wire?_grow_of_lt {i : Nat} (hi : i < t.size) : (t.grow p c).wire? i = t.wire? i := by
  simp only [wire?, node?_grow_of_lt hi, Option.map_map]
  congr 1
  funext n
  simp only [Function.comp]
  split <;> rfl

theorem parent?_grow_of_lt {i : Nat} (hi : i < t.size) :
    (t.grow p c).parent? i = t.parent? i := by
  obtain ⟨n, hn⟩ := exists_node hi
  simp only [parent?, node?_grow_of_lt hi, hn, Option.map_some, Option.bind_some]
  split <;> rfl

theorem link?_grow_of_lt {i : Nat} (hi : i < t.size) : (t.grow p c).link? i = t.link? i := by
  obtain ⟨n, hn⟩ := exists_node hi
  simp only [link?, node?_grow_of_lt hi, hn, Option.map_some, Option.bind_some]
  split <;> rfl

@[simp] theorem wire?_grow_size : (t.grow p c).wire? t.size = some c.sink := by
  simp [wire?, node?_grow_size]

@[simp] theorem parent?_grow_size : (t.grow p c).parent? t.size = some p := by
  simp [parent?, node?_grow_size]

@[simp] theorem link?_grow_size : (t.grow p c).link? t.size = some c := by
  simp [link?, node?_grow_size]

theorem eq_or_of_link?_grow {i : Nat} {c' : Connection} (h : (t.grow p c).link? i = some c') :
    c' = c ∨ t.link? i = some c' := by
  have hi : i < t.size + 1 := by simpa using lt_size_of_link? h
  by_cases hnew : i = t.size
  · subst hnew
    rw [link?_grow_size] at h
    exact .inl (Option.some.inj h).symm
  · rw [link?_grow_of_lt (by omega)] at h
    exact .inr h

@[simp] theorem wires_grow : (t.grow p c).wires = t.wires ++ [c.sink] := by
  apply List.ext_getElem?
  intro i
  have hlen := length_wires t
  rcases Nat.lt_trichotomy i t.size with hi | rfl | hi
  · rw [getElem?_wires, wire?_grow_of_lt hi, List.getElem?_append_left (by omega), getElem?_wires]
  · rw [getElem?_wires, wire?_grow_size, List.getElem?_append_right (by omega), hlen]
    simp
  · rw [List.getElem?_eq_none (by rw [length_wires, size_grow]; omega),
      List.getElem?_eq_none (by simp; omega)]

theorem children_grow_of_lt {i : Nat} (hi : i < t.size) :
    (t.grow p c).children i = if i = p then t.children i ++ [t.size] else t.children i := by
  obtain ⟨n, hn⟩ := exists_node hi
  simp only [children, node?_grow_of_lt hi, hn, Option.map_some, Option.getD_some]
  split <;> rfl

@[simp] theorem children_grow_size : (t.grow p c).children t.size = [] := by
  simp [children, node?_grow_size]

end Grow

/-! ## Paths to the root -/

theorem pathToRoot_of_parent? {t : RouteTree} {i p : Nat} (h : t.parent? i = some p)
    (hp : p < i) : t.pathToRoot i = i :: t.pathToRoot p := by
  rw [pathToRoot, h]
  exact if_pos hp

theorem pathToRoot_of_root {t : RouteTree} {i : Nat} (h : t.parent? i = none) :
    t.pathToRoot i = [i] := by
  rw [pathToRoot, h]

theorem pathToRoot_ne_nil (t : RouteTree) (i : Nat) : t.pathToRoot i ≠ [] := by
  rw [pathToRoot]
  split
  · simp
  · split <;> simp

theorem self_mem_pathToRoot (t : RouteTree) (i : Nat) : i ∈ t.pathToRoot i := by
  rw [pathToRoot]
  split
  · simp
  · split <;> simp

theorem head?_pathToRoot (t : RouteTree) (i : Nat) : (t.pathToRoot i).head? = some i := by
  rw [pathToRoot]
  split
  · rfl
  · split <;> rfl

theorem isChain_pathToRoot (t : RouteTree) (i : Nat) :
    (t.pathToRoot i).IsChain fun j k => t.parent? j = some k := by
  induction i using Nat.strongRecOn with
  | ind i ih =>
    cases h : t.parent? i with
    | none =>
      rw [pathToRoot_of_root h]
      exact .singleton i
    | some p =>
      by_cases hp : p < i
      · rw [pathToRoot_of_parent? h hp]
        refine (ih p hp).cons fun k hk => ?_
        rw [head?_pathToRoot] at hk
        exact h.trans hk
      · rw [pathToRoot, h]
        dsimp only
        rw [if_neg hp]
        exact .singleton i

theorem depth_of_root {t : RouteTree} {i : Nat} (h : t.parent? i = none) : t.depth i = 0 := by
  simp [depth, pathToRoot_of_root h]

theorem depth_of_parent? {t : RouteTree} {i p : Nat} (h : t.parent? i = some p) (hp : p < i) :
    t.depth i = t.depth p + 1 := by
  have hpos := List.length_pos_iff.2 (t.pathToRoot_ne_nil p)
  simp only [depth, pathToRoot_of_parent? h hp, List.length_cons]
  omega

theorem pathToRoot_grow_of_lt {t : RouteTree} {p : Nat} {c : Connection} {i : Nat}
    (hi : i < t.size) : (t.grow p c).pathToRoot i = t.pathToRoot i := by
  induction i using Nat.strongRecOn with
  | ind i ih =>
    have hpar := parent?_grow_of_lt (p := p) (c := c) hi
    cases h : t.parent? i with
    | none => rw [pathToRoot_of_root h, pathToRoot_of_root (hpar.trans h)]
    | some q =>
      rw [pathToRoot, pathToRoot, hpar, h]
      by_cases hq : q < i
      · simp only [if_pos hq, ih q hq (by omega)]
      · simp only [if_neg hq]

theorem depth_grow_of_lt {t : RouteTree} {p : Nat} {c : Connection} {i : Nat} (hi : i < t.size) :
    (t.grow p c).depth i = t.depth i := by
  rw [depth, pathToRoot_grow_of_lt hi, depth]

theorem depth_grow_size {t : RouteTree} {p : Nat} {c : Connection} (hp : p < t.size) :
    (t.grow p c).depth t.size = t.depth p + 1 := by
  rw [depth_of_parent? parent?_grow_size hp, depth_grow_of_lt hp]

/-! ## Well-formed trees -/

namespace WellFormed

variable {t : RouteTree}

theorem ofRoot (w : Wire) : (RouteTree.ofRoot w).WellFormed where
  root := ⟨w, [], rfl⟩
  above i n hn hi := absurd (lt_size_of_node? hn) (by simp; omega)
  below p hp := by
    obtain rfl : p = 0 := by simpa using hp
    simp [children, parent?]

theorem size_pos (h : t.WellFormed) : 0 < t.size := by
  obtain ⟨w, cs, h0⟩ := h.root
  exact lt_size_of_node? h0

theorem parent?_zero (h : t.WellFormed) : t.parent? 0 = none := by
  obtain ⟨w, cs, h0⟩ := h.root
  simp [parent?, h0]

theorem depth_zero (h : t.WellFormed) : t.depth 0 = 0 := depth_of_root h.parent?_zero

theorem parent_lt (h : t.WellFormed) {i p : Nat} (hp : t.parent? i = some p) : p < i := by
  obtain ⟨n, hn, hnp⟩ := Option.bind_eq_some_iff.1 hp
  by_cases hi : i = 0
  · subst hi
    rw [h.parent?_zero] at hp
    cases hp
  · obtain ⟨q, c, hq, hlt, -⟩ := h.above i n hn hi
    rw [hnp] at hq
    cases hq
    exact hlt

theorem exists_parent (h : t.WellFormed) {i : Nat} (hi : i < t.size) (h0 : i ≠ 0) :
    ∃ p c, t.parent? i = some p ∧ p < i ∧ t.link? i = some c ∧ t.wire? i = some c.sink := by
  obtain ⟨n, hn⟩ := exists_node hi
  obtain ⟨p, c, hp, hlt, hc, hw⟩ := h.above i n hn h0
  exact ⟨p, c, by simp [parent?, hn, hp], hlt, by simp [link?, hn, hc], by simp [wire?, hn, hw]⟩

theorem mem_children_iff (h : t.WellFormed) {p i : Nat} :
    i ∈ t.children p ↔ t.parent? i = some p := by
  by_cases hp : p < t.size
  · rw [h.below p hp, List.mem_filter, List.mem_range, decide_eq_true_eq]
    exact ⟨fun hi => hi.2, fun hi => ⟨lt_size_of_parent? hi, hi⟩⟩
  · have hnone : t.node? p = none := by
      rw [← Option.not_isSome_iff_eq_none, node?_isSome]
      exact hp
    constructor
    · intro hi
      simp [children, hnone] at hi
    · intro hi
      have := h.parent_lt hi
      have := lt_size_of_parent? hi
      omega

theorem children_pairwise (h : t.WellFormed) (p : Nat) : (t.children p).Pairwise (· < ·) := by
  by_cases hp : p < t.size
  · rw [h.below p hp]
    exact List.pairwise_lt_range.filter _
  · have hnone : t.node? p = none := by
      rw [← Option.not_isSome_iff_eq_none, node?_isSome]
      exact hp
    simp [children, hnone]

theorem lt_of_mem_children (h : t.WellFormed) {p i : Nat} (hi : i ∈ t.children p) :
    p < i ∧ i < t.size :=
  ⟨h.parent_lt (h.mem_children_iff.1 hi), lt_size_of_parent? (h.mem_children_iff.1 hi)⟩

theorem grow (h : t.WellFormed) {p : Nat} (hp : p < t.size) (c : Connection) :
    (t.grow p c).WellFormed where
  root := by
    obtain ⟨w, cs, h0⟩ := h.root
    rw [node?_grow_of_lt h.size_pos, h0]
    by_cases hp0 : 0 = p
    · exact ⟨w, cs ++ [t.size], by simp [hp0]⟩
    · exact ⟨w, cs, by simp [hp0]⟩
  above i n hn hi := by
    have hlt : i < t.size + 1 := by simpa using lt_size_of_node? hn
    by_cases hit : i = t.size
    · subst hit
      rw [node?_grow_size] at hn
      cases hn
      exact ⟨p, c, rfl, hp, rfl, rfl⟩
    · rw [node?_grow_of_lt (by omega)] at hn
      obtain ⟨m, hm, rfl⟩ := Option.map_eq_some_iff.1 hn
      obtain ⟨q, d, hq⟩ := h.above i m hm hi
      refine ⟨q, d, ?_⟩
      split <;> exact hq
  below i hi := by
    rw [size_grow, List.range_succ, List.filter_append, List.filter_cons, List.filter_nil,
      parent?_grow_size]
    have hold : (List.range t.size).filter (fun j => (t.grow p c).parent? j = some i) =
        (List.range t.size).filter fun j => t.parent? j = some i := by
      apply List.filter_congr
      intro j hj
      rw [parent?_grow_of_lt (List.mem_range.1 hj)]
    rw [hold]
    by_cases hit : i = t.size
    · subst hit
      rw [children_grow_size, List.filter_eq_nil_iff.2, if_neg]
      · rfl
      · simp; omega
      · intro j hj hpar
        have := h.parent_lt (of_decide_eq_true hpar)
        have := List.mem_range.1 hj
        omega
    · have hlt : i < t.size := by simp at hi; omega
      rw [children_grow_of_lt hlt, h.below i hlt]
      by_cases hip : i = p
      · simp [hip]
      · simp [hip, Ne.symm hip]

/-- The way up from a node ends at the root and passes only nodes of the tree. -/
theorem pathToRoot_spec (h : t.WellFormed) {i : Nat} (hi : i < t.size) :
    (t.pathToRoot i).getLast? = some 0 ∧ ∀ j ∈ t.pathToRoot i, j ≤ i := by
  induction i using Nat.strongRecOn with
  | ind i ih =>
    by_cases h0 : i = 0
    · subst h0
      rw [pathToRoot_of_root h.parent?_zero]
      simp
    · obtain ⟨p, c, hp, hlt, -⟩ := h.exists_parent hi h0
      obtain ⟨hlast, hle⟩ := ih p hlt (by omega)
      rw [pathToRoot_of_parent? hp hlt]
      refine ⟨?_, ?_⟩
      · rw [List.getLast?_cons, hlast]
        rfl
      · intro j hj
        rcases List.mem_cons.1 hj with rfl | hj
        · exact Nat.le_refl _
        · exact Nat.le_trans (hle j hj) (Nat.le_of_lt hlt)

end WellFormed

theorem linked_ofRoot (w : Wire) : (ofRoot w).Linked := by
  intro i p c hp
  have hi : i = 0 := by simpa using lt_size_of_parent? hp
  subst hi
  simp [parent?] at hp

theorem Linked.grow {t : RouteTree} (h : t.Linked) (hw : t.WellFormed) {p : Nat} {c : Connection}
    (hc : t.wire? p = some c.source) : (t.grow p c).Linked := by
  intro i q d hq hd
  have hi : i < t.size + 1 := by simpa using lt_size_of_parent? hq
  by_cases hit : i = t.size
  · subst hit
    rw [parent?_grow_size] at hq
    rw [link?_grow_size] at hd
    cases hq
    cases hd
    rw [wire?_grow_of_lt (lt_size_of_wire? hc), hc]
  · have hlt : i < t.size := by omega
    rw [parent?_grow_of_lt hlt] at hq
    rw [link?_grow_of_lt hlt] at hd
    rw [wire?_grow_of_lt (Nat.lt_trans (hw.parent_lt hq) hlt)]
    exact h i q d hq hd

end Fabric.RouteTree
