import Fabric.Proofs.RouteTree.Search
import Mathlib.Data.List.Sort
/-!
# Pruned trees

Pruning keeps the nodes on the ways from the root to the chosen nodes and numbers them anew in
their old order. The new number of a node is its place among those that stay, so links, wires
and children are carried over as they were.
-/

namespace Fabric.RouteTree

theorem getElem?_filterMap_of_isSome {α β : Type} {f : α → Option β} {as : List α}
    (h : ∀ a ∈ as, (f a).isSome) (j : Nat) : (as.filterMap f)[j]? = as[j]?.bind f := by
  induction as generalizing j with
  | nil => simp
  | cons a as ih =>
    obtain ⟨b, hb⟩ := Option.isSome_iff_exists.1 (h a (by simp))
    rw [List.filterMap_cons_some hb]
    cases j with
    | zero => simp [hb]
    | succ j =>
      simp only [List.getElem?_cons_succ]
      exact ih (fun x hx => h x (by simp [hx])) j

variable {t : RouteTree} {keep : List Nat}

/-! ## Ways to the root -/

theorem mem_pathToRoot_iff (ht : t.WellFormed) {i k : Nat} :
    i ∈ t.pathToRoot k ↔ i = k ∨ ∃ p, t.parent? k = some p ∧ i ∈ t.pathToRoot p := by
  cases hp : t.parent? k with
  | none => simp [pathToRoot_of_root hp]
  | some p => simp [pathToRoot_of_parent? hp (ht.parent_lt hp)]

theorem parent_mem_pathToRoot (ht : t.WellFormed) {i k p : Nat} (hi : i ∈ t.pathToRoot k)
    (hp : t.parent? i = some p) : p ∈ t.pathToRoot k := by
  induction k using Nat.strongRecOn with
  | ind k ih =>
    rcases (mem_pathToRoot_iff ht).1 hi with rfl | ⟨q, hq, hi⟩
    · exact (mem_pathToRoot_iff ht).2 (.inr ⟨p, hp, t.self_mem_pathToRoot p⟩)
    · exact (mem_pathToRoot_iff ht).2 (.inr ⟨q, hq, ih q (ht.parent_lt hq) hi⟩)

theorem exists_child_mem_pathToRoot (ht : t.WellFormed) {i k : Nat} (hi : i ∈ t.pathToRoot k)
    (hik : i ≠ k) : ∃ j, t.parent? j = some i ∧ j ∈ t.pathToRoot k := by
  induction k using Nat.strongRecOn with
  | ind k ih =>
    rcases (mem_pathToRoot_iff ht).1 hi with rfl | ⟨q, hq, hi⟩
    · exact absurd rfl hik
    · by_cases hiq : i = q
      · subst hiq
        exact ⟨k, hq, t.self_mem_pathToRoot k⟩
      · obtain ⟨j, hj, hjq⟩ := ih q (ht.parent_lt hq) hi hiq
        exact ⟨j, hj, (mem_pathToRoot_iff ht).2 (.inr ⟨q, hq, hjq⟩)⟩

/-! ## The nodes that stay -/

theorem mem_markParent {i k : Nat} {marks : KeySet Nat} :
    k ∈ t.markParent i marks ↔ k ∈ marks ∨ i ∈ marks ∧ t.parent? i = some k := by
  unfold markParent
  cases t.parent? i with
  | none => simp
  | some p =>
    dsimp only
    split
    next hi => simp [Std.ExtTreeSet.contains_iff_mem.1 hi, or_comm]
    next hi => simp [mt Std.ExtTreeSet.contains_iff_mem.2 hi]

theorem mem_markUp (ht : t.WellFormed) {i j : Nat} {marks : KeySet Nat} :
    j ∈ t.markUp i marks ↔ j ∈ marks ∨ ∃ k < i, k ∈ marks ∧ j ∈ t.pathToRoot k := by
  induction i generalizing marks with
  | zero => simp [markUp]
  | succ i ih =>
    rw [markUp, ih, mem_markParent]
    constructor
    · rintro ((hj | ⟨hi, hp⟩) | ⟨k, hk, hmark, hj⟩)
      · exact .inl hj
      · exact .inr ⟨i, by omega, hi, parent_mem_pathToRoot ht (t.self_mem_pathToRoot i) hp⟩
      · rcases mem_markParent.1 hmark with hmark | ⟨hi, hp⟩
        · exact .inr ⟨k, by omega, hmark, hj⟩
        · exact .inr ⟨i, by omega, hi, (mem_pathToRoot_iff ht).2 (.inr ⟨k, hp, hj⟩)⟩
    · rintro (hj | ⟨k, hk, hmark, hj⟩)
      · exact .inl (.inl hj)
      · by_cases hki : k = i
        · -- the parent of the last node is marked now, and stands before it
          subst hki
          rcases (mem_pathToRoot_iff ht).1 hj with rfl | ⟨p, hp, hj⟩
          · exact .inl (.inl hmark)
          · exact .inr ⟨p, ht.parent_lt hp, mem_markParent.2 (.inr ⟨hmark, hp⟩), hj⟩
        · exact .inr ⟨k, by omega, mem_markParent.2 (.inl hmark), hj⟩

theorem lt_size_of_mem_retained {i : Nat} (hi : i ∈ t.retained keep) : i < t.size :=
  List.mem_range.1 (List.mem_of_mem_filter hi)

theorem mem_retained (ht : t.WellFormed) {i : Nat} :
    i ∈ t.retained keep ↔ i < t.size ∧ (i = 0 ∨ ∃ k ∈ keep, i ∈ t.pathToRoot k) := by
  rw [retained, List.mem_filter, List.mem_range, Std.ExtTreeSet.contains_iff_mem, marked,
    mem_markUp ht]
  simp only [Std.ExtTreeSet.mem_ofList, List.contains_eq_mem, decide_eq_true_eq, List.mem_cons]
  refine and_congr_right fun hlt => ?_
  constructor
  · rintro ((rfl | hi) | ⟨k, -, rfl | hk, hi⟩)
    · exact .inl rfl
    · exact .inr ⟨i, hi, t.self_mem_pathToRoot i⟩
    · rw [pathToRoot_of_root ht.parent?_zero, List.mem_singleton] at hi
      exact .inl hi
    · exact .inr ⟨k, hk, hi⟩
  · rintro (rfl | ⟨k, hk, hi⟩)
    · exact .inl (.inl rfl)
    · by_cases hsize : k < t.size
      · exact .inr ⟨k, hsize, .inr hk, hi⟩
      · -- what is no node has nothing above it
        have hroot : t.parent? k = none :=
          Option.eq_none_iff_forall_ne_some.2 fun p hp => hsize (lt_size_of_parent? hp)
        rw [pathToRoot_of_root hroot, List.mem_singleton] at hi
        exact absurd (hi ▸ hlt) hsize

theorem retained_pairwise : (t.retained keep).Pairwise (· < ·) :=
  List.pairwise_lt_range.filter _

theorem retained_nodup : (t.retained keep).Nodup := List.nodup_range.filter _

theorem retained_lt_iff {i j a b : Nat} (ha : (t.retained keep)[a]? = some i)
    (hb : (t.retained keep)[b]? = some j) : i < j ↔ a < b := by
  obtain ⟨hlta, rfl⟩ := List.getElem?_eq_some_iff.1 ha
  obtain ⟨hltb, rfl⟩ := List.getElem?_eq_some_iff.1 hb
  have hsorted : (t.retained keep).Pairwise (· < ·) := retained_pairwise
  have hmono := List.pairwise_iff_getElem.1 hsorted
  constructor
  · intro h
    rcases Nat.lt_trichotomy a b with hab | rfl | hab
    · exact hab
    · omega
    · have := hmono b a hltb hlta hab
      omega
  · exact hmono a b hlta hltb

theorem idxOf?_retained {i j : Nat} :
    (t.retained keep).idxOf? i = some j ↔ (t.retained keep)[j]? = some i := by
  rw [List.idxOf?_eq_some_iff]
  constructor
  · rintro ⟨hj, hi, -⟩
    exact List.getElem?_eq_some_iff.2 ⟨hj, hi⟩
  · intro h
    obtain ⟨hj, hi⟩ := List.getElem?_eq_some_iff.1 h
    refine ⟨hj, hi, fun k hk he => ?_⟩
    have hkj := (retained_nodup.getElem_inj_iff).1 (he.trans hi.symm)
    omega

theorem exists_index {i : Nat} (hi : i ∈ t.retained keep) :
    ∃ j : Nat, (t.retained keep)[j]? = some i := List.mem_iff_getElem?.1 hi

theorem parent_mem_retained (ht : t.WellFormed) {i p : Nat} (hi : i ∈ t.retained keep)
    (hp : t.parent? i = some p) : p ∈ t.retained keep := by
  obtain ⟨hlt, hi⟩ := (mem_retained ht).1 hi
  have hpi := ht.parent_lt hp
  refine (mem_retained ht).2 ⟨by omega, .inr ?_⟩
  rcases hi with rfl | ⟨k, hk, hi⟩
  · omega
  · exact ⟨k, hk, parent_mem_pathToRoot ht hi hp⟩

/-! ## The nodes of the pruned tree -/

theorem node?_prune (j : Nat) :
    (t.prune keep).node? j =
      ((t.retained keep)[j]?.bind t.node?).map (Node.renumber (t.retained keep)) := by
  have hsome : ∀ i ∈ t.retained keep, (t.node? i).isSome := fun i hi =>
    node?_isSome.2 (lt_size_of_mem_retained hi)
  rw [← getElem?_filterMap_of_isSome hsome]
  simp [prune, node?]

theorem size_prune : (t.prune keep).size = (t.retained keep).length := by
  have hsome : ∀ i ∈ t.retained keep, (t.node? i).isSome := fun i hi =>
    node?_isSome.2 (lt_size_of_mem_retained hi)
  have hlen : ((t.retained keep).filterMap t.node?).length = (t.retained keep).length := by
    rw [List.length_filterMap_eq_countP, List.countP_eq_length]
    exact hsome
  simpa [prune, size] using hlen

section Index

variable {i j : Nat} (hj : (t.retained keep)[j]? = some i)

include hj

theorem exists_node_of_index : ∃ n, t.node? i = some n ∧
    (t.prune keep).node? j = some (n.renumber (t.retained keep)) := by
  obtain ⟨n, hn⟩ := exists_node (lt_size_of_mem_retained (List.mem_of_getElem? hj))
  exact ⟨n, hn, by rw [node?_prune, hj, Option.bind_some, hn, Option.map_some]⟩

theorem wire?_prune : (t.prune keep).wire? j = t.wire? i := by
  obtain ⟨n, hn, hn'⟩ := exists_node_of_index hj
  simp [wire?, hn, hn', Node.renumber]

theorem link?_prune : (t.prune keep).link? j = t.link? i := by
  obtain ⟨n, hn, hn'⟩ := exists_node_of_index hj
  simp [link?, hn, hn', Node.renumber]

theorem children_prune :
    (t.prune keep).children j = (t.children i).filterMap (t.retained keep).idxOf? := by
  obtain ⟨n, hn, hn'⟩ := exists_node_of_index hj
  simp [children, hn, hn', Node.renumber]

theorem parent?_prune {q : Nat} : (t.prune keep).parent? j = some q ↔
    ∃ p, t.parent? i = some p ∧ (t.retained keep)[q]? = some p := by
  obtain ⟨n, hn, hn'⟩ := exists_node_of_index hj
  simp only [parent?, hn, hn', Option.bind_some, Node.renumber, Option.bind_eq_some_iff,
    idxOf?_retained]

end Index

theorem exists_old {j : Nat} (hj : j < (t.prune keep).size) :
    ∃ i, (t.retained keep)[j]? = some i := by
  rw [size_prune] at hj
  exact ⟨_, List.getElem?_eq_getElem hj⟩

theorem index_lt_size {i j : Nat} (hj : (t.retained keep)[j]? = some i) :
    j < (t.prune keep).size := by
  rw [size_prune]
  exact (List.getElem?_eq_some_iff.1 hj).1

theorem retained_zero (ht : t.WellFormed) : (t.retained keep)[0]? = some 0 := by
  have hmem : 0 ∈ t.retained keep := (mem_retained ht).2 ⟨ht.size_pos, .inl rfl⟩
  obtain ⟨j, hj⟩ := exists_index hmem
  obtain ⟨k, hk⟩ : ∃ k, (t.retained keep)[0]? = some k := by
    have hlt := (List.getElem?_eq_some_iff.1 hj).1
    exact ⟨_, List.getElem?_eq_getElem (by omega)⟩
  -- The root has the least number of all, so nothing can stand before it.
  have hle : ¬ 0 < j := by
    rw [← retained_lt_iff hk hj]
    omega
  obtain rfl : j = 0 := by omega
  exact hj

theorem index_eq_zero_iff (ht : t.WellFormed) {i j : Nat} (hj : (t.retained keep)[j]? = some i) :
    i = 0 ↔ j = 0 := by
  have h0 := retained_lt_iff (retained_zero ht) hj
  omega

theorem WellFormed.prune (ht : t.WellFormed) (keep : List Nat) : (t.prune keep).WellFormed where
  root := by
    obtain ⟨w, cs, h0⟩ := ht.root
    refine ⟨w, cs.filterMap (t.retained keep).idxOf?, ?_⟩
    rw [node?_prune, retained_zero ht, Option.bind_some, h0]
    rfl
  above j m hm h0 := by
    obtain ⟨i, hi⟩ := exists_old (lt_size_of_node? hm)
    obtain ⟨n, hn, hn'⟩ := exists_node_of_index hi
    rw [hm] at hn'
    cases hn'
    have hi0 : i ≠ 0 := fun h => h0 ((index_eq_zero_iff ht hi).1 h)
    obtain ⟨p, c, hp, hlt, hc, hs⟩ := ht.above i n hn hi0
    have hpar : t.parent? i = some p := by simp [parent?, hn, hp]
    obtain ⟨q, hq⟩ := exists_index (parent_mem_retained ht (List.mem_of_getElem? hi) hpar)
    refine ⟨q, c, ?_, (retained_lt_iff hq hi).1 hlt, hc, hs⟩
    rw [Node.renumber, hp, Option.bind_some, idxOf?_retained]
    exact hq
  below q hq := by
    obtain ⟨p, hp⟩ := exists_old hq
    rw [children_prune hp]
    -- Both lists go up, so they are equal when they have the same elements.
    apply List.Pairwise.eq_of_mem_iff (r := (· < ·))
    · have hsorted : (t.children p).Pairwise (· < ·) := by
        rw [ht.below p (lt_size_of_mem_retained (List.mem_of_getElem? hp))]
        exact List.pairwise_lt_range.filter _
      refine hsorted.filterMap _ fun i i' hlt j hj j' hj' => ?_
      exact (retained_lt_iff (idxOf?_retained.1 hj) (idxOf?_retained.1 hj')).1 hlt
    · exact List.pairwise_lt_range.filter _
    · intro j
      rw [List.mem_filterMap, List.mem_filter, List.mem_range, decide_eq_true_eq]
      constructor
      · rintro ⟨i, hi, hj⟩
        have hj := idxOf?_retained.1 hj
        exact ⟨index_lt_size hj, (parent?_prune hj).2 ⟨p, ht.mem_children_iff.1 hi, hp⟩⟩
      · rintro ⟨hlt, hpar⟩
        obtain ⟨i, hi⟩ := exists_old hlt
        obtain ⟨p', hp', hq'⟩ := (parent?_prune hi).1 hpar
        rw [hp] at hq'
        cases hq'
        exact ⟨i, ht.mem_children_iff.2 hp', idxOf?_retained.2 hi⟩

theorem Linked.prune (h : t.Linked) (keep : List Nat) : (t.prune keep).Linked := by
  intro j q c hq hc
  obtain ⟨i, hi⟩ := exists_old (lt_size_of_parent? hq)
  obtain ⟨p, hp, hqp⟩ := (parent?_prune hi).1 hq
  rw [link?_prune hi] at hc
  rw [wire?_prune hqp]
  exact h i p c hp hc

/-! ## What is left -/

theorem wires_prune : (t.prune keep).wires = (t.retained keep).filterMap t.wire? := by
  have hsome : ∀ i ∈ t.retained keep, (t.wire? i).isSome := by
    intro i hi
    obtain ⟨w, hw⟩ := exists_wire (lt_size_of_mem_retained hi)
    simp [hw]
  apply List.ext_getElem?
  intro j
  rw [getElem?_filterMap_of_isSome hsome, getElem?_wires, wire?, node?_prune]
  cases (t.retained keep)[j]? with
  | none => rfl
  | some i => simp [wire?, Function.comp_def, Node.renumber]

theorem wires_prune_sublist : (t.prune keep).wires.Sublist t.wires := by
  have hall : t.wires = (List.range t.size).filterMap t.wire? := by
    apply List.ext_getElem?
    intro i
    have hsome : ∀ i ∈ List.range t.size, (t.wire? i).isSome := by
      intro i hi
      obtain ⟨w, hw⟩ := exists_wire (List.mem_range.1 hi)
      simp [hw]
    rw [getElem?_wires, getElem?_filterMap_of_isSome hsome]
    by_cases hi : i < t.size
    · rw [List.getElem?_range hi, Option.bind_some]
    · rw [wire?_eq_none.2 (by omega), List.getElem?_eq_none (by simpa using hi)]
      rfl
  rw [wires_prune, hall]
  exact List.filter_sublist.filterMap _

/-- A node without children, the root apart, is one of those that were chosen. -/
theorem mem_keep_of_leaf (ht : t.WellFormed) {i j : Nat} (hj : (t.retained keep)[j]? = some i)
    (h0 : j ≠ 0) (hleaf : (t.prune keep).children j = []) : i ∈ keep := by
  obtain ⟨hlt, hi⟩ := (mem_retained ht).1 (List.mem_of_getElem? hj)
  rcases hi with rfl | ⟨k, hk, hik⟩
  · exact absurd ((index_eq_zero_iff ht hj).1 rfl) h0
  · by_cases he : i = k
    · exact he ▸ hk
    · obtain ⟨c, hc, hck⟩ := exists_child_mem_pathToRoot ht hik he
      have hcmem : c ∈ t.retained keep :=
        (mem_retained ht).2 ⟨lt_size_of_parent? hc, .inr ⟨k, hk, hck⟩⟩
      obtain ⟨m, hm⟩ := exists_index hcmem
      have hchild : m ∈ (t.prune keep).children j :=
        (ht.prune keep).mem_children_iff.2 ((parent?_prune hm).2 ⟨i, hc, hj⟩)
      rw [hleaf] at hchild
      cases hchild

/-! ## Pruned search trees -/

namespace IsSearchTree

variable {hop : Wire → Connection → Prop} {start : Wire} (ht : IsSearchTree hop start t)

include ht

theorem hops_prune {j : Nat} (hj : j < (t.prune keep).size) (h0 : j ≠ 0) :
    ∃ q u c, (t.prune keep).parent? j = some q ∧ (t.prune keep).wire? q = some u ∧
      (t.prune keep).link? j = some c ∧ hop u c ∧ (t.prune keep).wire? j = some c.sink := by
  obtain ⟨i, hi⟩ := exists_old hj
  have hmem := List.mem_of_getElem? hi
  have hi0 : i ≠ 0 := fun h => h0 ((index_eq_zero_iff ht.wellFormed hi).1 h)
  obtain ⟨p, u, c, hp, hu, hc, hhop, hs⟩ := ht.hops i (lt_size_of_mem_retained hmem) hi0
  obtain ⟨q, hq⟩ := exists_index (parent_mem_retained ht.wellFormed hmem hp)
  refine ⟨q, u, c, (parent?_prune hi).2 ⟨p, hp, hq⟩, ?_, ?_, hhop, ?_⟩
  · rw [wire?_prune hq, hu]
  · rw [link?_prune hi, hc]
  · rw [wire?_prune hi, hs]

theorem exists_hop_of_children {j : Nat} {w : Wire} (hw : (t.prune keep).wire? j = some w)
    (hne : (t.prune keep).children j ≠ []) : ∃ c, hop w c := by
  obtain ⟨m, hm⟩ := List.exists_mem_of_ne_nil _ hne
  have hparent := (ht.wellFormed.prune keep).mem_children_iff.1 hm
  have hjm := (ht.wellFormed.prune keep).parent_lt hparent
  obtain ⟨q, u, c, hq, hu, -, hhop, -⟩ :=
    ht.hops_prune (lt_size_of_parent? hparent) (by omega : m ≠ 0)
  obtain rfl : j = q := Option.some.inj (hparent.symm.trans hq)
  obtain rfl : w = u := Option.some.inj (hw.symm.trans hu)
  exact ⟨c, hhop⟩

/-- When no connection leads on from the chosen nodes, they are the leaves. -/
theorem leaf_prune_iff (h0 : 0 ∉ keep) (hend : ∀ k ∈ keep, ∀ w c, t.wire? k = some w → ¬ hop w c)
    (w : Wire) :
    (∃ j, j ≠ 0 ∧ (t.prune keep).wire? j = some w ∧ (t.prune keep).children j = []) ↔
      ∃ k ∈ keep, t.wire? k = some w := by
  constructor
  · rintro ⟨j, hj0, hw, hleaf⟩
    obtain ⟨i, hi⟩ := exists_old (lt_size_of_wire? hw)
    rw [wire?_prune hi] at hw
    exact ⟨i, mem_keep_of_leaf ht.wellFormed hi hj0 hleaf, hw⟩
  · rintro ⟨k, hk, hw⟩
    have hmem : k ∈ t.retained keep :=
      (mem_retained ht.wellFormed).2 ⟨lt_size_of_wire? hw, .inr ⟨k, hk, t.self_mem_pathToRoot k⟩⟩
    obtain ⟨j, hj⟩ := exists_index hmem
    have hwj : (t.prune keep).wire? j = some w := by rw [wire?_prune hj, hw]
    refine ⟨j, fun hj0 => ?_, hwj, ?_⟩
    · rw [(index_eq_zero_iff ht.wellFormed hj).2 hj0] at hk
      exact h0 hk
    · by_contra hne
      obtain ⟨c, hc⟩ := ht.exists_hop_of_children hwj hne
      exact hend k hk w c hw hc

end IsSearchTree

end Fabric.RouteTree
