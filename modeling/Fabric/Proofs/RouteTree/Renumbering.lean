import Fabric.Proofs.RouteTree.Built
import Mathlib.Data.Set.Function
import Mathlib.Order.Interval.Set.Defs
/-!
# What pruning keeps

Pruning keeps the root, the chosen nodes and all above them, and nothing else. The kept nodes
get new numbers in their old order, and parents, children, wires and connections go with them.
-/

namespace Fabric.RouteTree

def ChildOf (t : RouteTree) (i p : Nat) : Prop := t.parent? i = some p

def ancestry (t : RouteTree) (keep : List Nat) : Set Nat :=
  {i | i = 0 ∨ ∃ k ∈ keep, Relation.ReflTransGen t.ChildOf k i}

/-- The number that a node gets when all but `keep` and what is above is dropped. -/
def renumbered (t : RouteTree) (keep : List Nat) (i : Nat) : Nat := (t.retained keep).idxOf i

variable {t : RouteTree} {keep : List Nat}

/-! ## The kept nodes -/

theorem mem_pathToRoot_iff_reflTransGen (ht : t.WellFormed) {i k : Nat} :
    i ∈ t.pathToRoot k ↔ Relation.ReflTransGen t.ChildOf k i := by
  constructor
  · intro hi
    induction k using Nat.strongRecOn with
    | ind k ih =>
      rcases (mem_pathToRoot_iff ht).1 hi with rfl | ⟨p, hp, hi⟩
      · exact .refl
      · exact .head hp (ih p (ht.parent_lt hp) hi)
  · intro h
    induction h with
    | refl => exact t.self_mem_pathToRoot k
    | tail _ hp ih => exact parent_mem_pathToRoot ht ih hp

theorem mem_ancestry_iff (ht : t.WellFormed) (hkeep : ∀ k ∈ keep, k < t.size) {i : Nat} :
    i ∈ t.ancestry keep ↔ i ∈ t.retained keep := by
  rw [mem_retained ht]
  constructor
  · rintro (rfl | ⟨k, hk, hi⟩)
    · exact ⟨ht.size_pos, .inl rfl⟩
    · have hi := (mem_pathToRoot_iff_reflTransGen ht).2 hi
      have hle := (ht.pathToRoot_spec (hkeep k hk)).2 i hi
      exact ⟨Nat.lt_of_le_of_lt hle (hkeep k hk), .inr ⟨k, hk, hi⟩⟩
  · rintro ⟨-, rfl | ⟨k, hk, hi⟩⟩
    · exact .inl rfl
    · exact .inr ⟨k, hk, (mem_pathToRoot_iff_reflTransGen ht).1 hi⟩

/-! ## New numbers -/

theorem getElem?_renumbered {i : Nat} (hi : i ∈ t.retained keep) :
    (t.retained keep)[t.renumbered keep i]? = some i := List.getElem?_idxOf hi

theorem renumbered_eq_of_index {i j : Nat} (hj : (t.retained keep)[j]? = some i) :
    t.renumbered keep i = j := by
  have hlt := (List.getElem?_eq_some_iff.1 hj).1
  have hsame := getElem?_renumbered (List.mem_of_getElem? hj)
  exact ((List.getElem?_inj hlt retained_nodup).1 (hj.trans hsame.symm)).symm

theorem idxOf?_eq_of_mem {i : Nat} (hi : i ∈ t.retained keep) :
    (t.retained keep).idxOf? i = some (t.renumbered keep i) :=
  idxOf?_retained.2 (getElem?_renumbered hi)

theorem strictMonoOn_renumbered : StrictMonoOn (t.renumbered keep) {i | i ∈ t.retained keep} :=
  fun _ hi _ hj hlt =>
    (retained_lt_iff (getElem?_renumbered hi) (getElem?_renumbered hj)).1 hlt

theorem bijOn_renumbered :
    Set.BijOn (t.renumbered keep) {i | i ∈ t.retained keep} (Set.Iio (t.prune keep).size) := by
  refine ⟨fun i hi => index_lt_size (getElem?_renumbered hi), strictMonoOn_renumbered.injOn,
    fun j hj => ?_⟩
  obtain ⟨i, hi⟩ := exists_old hj
  exact ⟨i, List.mem_of_getElem? hi, renumbered_eq_of_index hi⟩

theorem parent?_renumbered (ht : t.WellFormed) {i : Nat} (hi : i ∈ t.retained keep) :
    (t.prune keep).parent? (t.renumbered keep i) = (t.parent? i).map (t.renumbered keep) := by
  cases hp : t.parent? i with
  | none =>
    refine Option.eq_none_iff_forall_ne_some.2 fun q hq => ?_
    obtain ⟨p, hp', -⟩ := (parent?_prune (getElem?_renumbered hi)).1 hq
    rw [hp] at hp'
    cases hp'
  | some p =>
    exact (parent?_prune (getElem?_renumbered hi)).2
      ⟨p, hp, getElem?_renumbered (parent_mem_retained ht hi hp)⟩

theorem children_renumbered {kept : Nat → Bool} (hkept : ∀ i, kept i ↔ i ∈ t.retained keep)
    {i : Nat} (hi : i ∈ t.retained keep) :
    (t.prune keep).children (t.renumbered keep i) =
      ((t.children i).filter kept).map (t.renumbered keep) := by
  rw [children_prune (getElem?_renumbered hi)]
  induction t.children i with
  | nil => rfl
  | cons c cs ih =>
    by_cases hc : c ∈ t.retained keep
    · rw [List.filterMap_cons, idxOf?_eq_of_mem hc, List.filter_cons_of_pos ((hkept c).2 hc),
        List.map_cons, ← ih]
    · rw [List.filterMap_cons, List.idxOf?_eq_none_iff.2 hc, List.filter_cons_of_neg
        (mt (hkept c).1 hc), ← ih]

theorem pathToRoot_renumbered (ht : t.WellFormed) {i : Nat} (hi : i ∈ t.retained keep) :
    (t.prune keep).pathToRoot (t.renumbered keep i) =
      (t.pathToRoot i).map (t.renumbered keep) := by
  induction i using Nat.strongRecOn with
  | ind i ih =>
    have hparent := parent?_renumbered ht hi
    cases hp : t.parent? i with
    | none =>
      rw [hp, Option.map_none] at hparent
      rw [pathToRoot_of_root hp, pathToRoot_of_root hparent, List.map_singleton]
    | some p =>
      rw [hp, Option.map_some] at hparent
      have hlt := ht.parent_lt hp
      rw [pathToRoot_of_parent? hp hlt,
        pathToRoot_of_parent? hparent ((ht.prune keep).parent_lt hparent),
        ih p hlt (parent_mem_retained ht hi hp), List.map_cons]

/-! ## Pruning twice -/

theorem Node.renumber_range {n : Node} {size : Nat} (hparent : ∀ p ∈ n.parent, p < size)
    (hchildren : ∀ c ∈ n.children, c < size) : n.renumber (List.range size) = n := by
  have hidx : ∀ i < size, (List.range size).idxOf? i = some i := by
    intro i hi
    rw [List.idxOf?_eq_some_iff]
    refine ⟨by simpa using hi, by simp, fun k hk => by simp; omega⟩
  have hp : n.parent.bind (List.range size).idxOf? = n.parent := by
    cases hn : n.parent with
    | none => rfl
    | some p => exact hidx p (hparent p hn)
  have hc : n.children.filterMap (List.range size).idxOf? = n.children := by
    rw [List.filterMap_congr (g := some) fun c hc => hidx c (hchildren c hc),
      List.filterMap_some]
  rw [renumber, hp, hc]

/-- When no node has to go, nothing changes. -/
theorem prune_eq_self (ht : t.WellFormed) (hall : ∀ i < t.size, i ∈ t.retained keep) :
    t.prune keep = t := by
  have hids : t.retained keep = List.range t.size := by
    refine List.filter_eq_self.2 fun i hi => ?_
    exact (List.mem_filter.1 (hall i (List.mem_range.1 hi))).2
  have hnodes : ∀ i, (t.prune keep).node? i = t.node? i := by
    intro i
    rw [node?_prune, hids]
    by_cases hi : i < t.size
    · obtain ⟨n, hn⟩ := exists_node hi
      rw [List.getElem?_range hi, Option.bind_some, hn, Option.map_some,
        Node.renumber_range (fun p hp => ?_) (fun c hc => ?_)]
      · have hparent : t.parent? i = some p := by
          rw [parent?, hn]
          exact hp
        exact Nat.lt_trans (ht.parent_lt hparent) hi
      · exact (ht.lt_of_mem_children (p := i) (by simpa [children, hn] using hc)).2
    · rw [List.getElem?_eq_none (by simpa using hi), node?, Array.getElem?_eq_none (by
        simpa [size] using hi)]
      rfl
  have harr : (t.prune keep).nodes = t.nodes := Array.ext_getElem? hnodes
  exact congrArg RouteTree.mk harr

/-- The images of the chosen nodes keep the whole pruned tree. -/
theorem mem_retained_again (ht : t.WellFormed) (hkeep : ∀ k ∈ keep, k < t.size) {j : Nat}
    (hj : j < (t.prune keep).size) :
    j ∈ (t.prune keep).retained (keep.map (t.renumbered keep)) := by
  obtain ⟨i, hi⟩ := exists_old hj
  refine (mem_retained (ht.prune keep)).2 ⟨hj, ?_⟩
  rcases ((mem_retained ht).1 (List.mem_of_getElem? hi)).2 with rfl | ⟨k, hk, hik⟩
  · exact .inl ((index_eq_zero_iff ht hi).1 rfl)
  · have hmem : k ∈ t.retained keep :=
      (mem_retained ht).2 ⟨hkeep k hk, .inr ⟨k, hk, t.self_mem_pathToRoot k⟩⟩
    refine .inr ⟨_, List.mem_map_of_mem hk, ?_⟩
    rw [pathToRoot_renumbered ht hmem, ← renumbered_eq_of_index hi]
    exact List.mem_map_of_mem hik

theorem renumbered_lt_size (ht : t.WellFormed) (hkeep : ∀ k ∈ keep, k < t.size) :
    ∀ j ∈ keep.map (t.renumbered keep), j < (t.prune keep).size := by
  intro j hj
  obtain ⟨k, hk, rfl⟩ := List.mem_map.1 hj
  exact index_lt_size (getElem?_renumbered
    ((mem_retained ht).2 ⟨hkeep k hk, .inr ⟨k, hk, t.self_mem_pathToRoot k⟩⟩))

theorem prune?_eq_some (hkeep : ∀ k ∈ keep, k < t.size) : t.prune? keep = some (t.prune keep) :=
  if_pos (List.all_eq_true.2 fun k hk => decide_eq_true (hkeep k hk))

theorem prune?_again (ht : t.WellFormed) (hkeep : ∀ k ∈ keep, k < t.size) :
    (t.prune keep).prune? (keep.map (t.renumbered keep)) = some (t.prune keep) := by
  rw [prune?_eq_some (renumbered_lt_size ht hkeep),
    prune_eq_self (ht.prune keep) fun j hj => mem_retained_again ht hkeep hj]

/-! ## Exactly the ways to the chosen nodes -/

open Classical in
/-- Pruning succeeds on nodes of the tree. The kept nodes are the root, the chosen ones and all
their ancestors; they are matched with the nodes of the new tree in their order, together with
their wires, connections, parents and kept children. Every leaf but the root comes from a chosen
node, and pruning once more with the images of the chosen nodes changes nothing. -/
theorem Built.prune_keeps_ancestry (h : t.Built) (hkeep : ∀ k ∈ keep, k < t.size) :
    ∃ u, t.prune? keep = some u ∧ ∃ r : Nat → Nat,
      StrictMonoOn r (t.ancestry keep) ∧ Set.BijOn r (t.ancestry keep) (Set.Iio u.size) ∧
      (∀ i ∈ t.ancestry keep, u.wire? (r i) = t.wire? i ∧ u.link? (r i) = t.link? i ∧
        u.parent? (r i) = (t.parent? i).map r ∧
        u.children (r i) = ((t.children i).filter fun c => decide (c ∈ t.ancestry keep)).map r) ∧
      (∀ j < u.size, j ≠ 0 → u.children j = [] → ∃ k ∈ keep, r k = j) ∧
      u.prune? (keep.map r) = some u := by
  have ht := h.wellFormed
  have hmem : ∀ i, i ∈ t.ancestry keep ↔ i ∈ t.retained keep := fun i => mem_ancestry_iff ht hkeep
  have hset : t.ancestry keep = {i | i ∈ t.retained keep} := Set.ext hmem
  refine ⟨t.prune keep, prune?_eq_some hkeep, t.renumbered keep,
    hset ▸ strictMonoOn_renumbered, hset ▸ bijOn_renumbered, fun i hi => ?_, ?_,
    prune?_again ht hkeep⟩
  · have hi := (hmem i).1 hi
    have hindex := getElem?_renumbered hi
    exact ⟨wire?_prune hindex, link?_prune hindex, parent?_renumbered ht hi,
      children_renumbered (fun c => by simpa using hmem c) hi⟩
  · intro j hj h0 hleaf
    obtain ⟨i, hi⟩ := exists_old hj
    exact ⟨i, mem_keep_of_leaf ht hi h0 hleaf, renumbered_eq_of_index hi⟩

/-- Of the forked tree, the way to one of its two ends is kept, and only this end is a leaf. -/
theorem Built.prune_keeps_ancestry_forked :
    ∃ u, forked.prune? [3] = some u ∧ ∃ r : Nat → Nat,
      Set.BijOn r (forked.ancestry [3]) (Set.Iio u.size) ∧
      ∀ j < u.size, j ≠ 0 → u.children j = [] → r 3 = j := by
  have hkeep : ∀ k ∈ [3], k < forked.size := by decide
  obtain ⟨u, hu, r, -, hbij, -, hleaf, -⟩ := grown_forked.built.prune_keeps_ancestry hkeep
  refine ⟨u, hu, r, hbij, fun j hj h0 hnone => ?_⟩
  obtain ⟨k, hk, hkj⟩ := hleaf j hj h0 hnone
  rwa [List.mem_singleton.1 hk] at hkj

end Fabric.RouteTree
