import Fabric.Proofs.RouteTree.Pruning
import Fabric.RouteTree.Flat
/-!
# Trees that can be built

A tree is begun at a wire, and then extended, pruned and flattened in any order. Whatever comes
of it is well-formed.
-/

namespace Fabric.RouteTree

/-- A tree that the operations on trees lead to. -/
inductive Built : RouteTree → Prop
  | root (w : Wire) : Built (ofRoot w)
  | extended {t u : RouteTree} {p i : Nat} {c : Connection} :
      Built t → t.extend? p c = some (i, u) → Built u
  | pruned {t u : RouteTree} {keep : List Nat} : Built t → t.prune? keep = some u → Built u
  | flattened {t : RouteTree} : Built t → Built t.flattened

/-- A tree that comes about without flattening. -/
inductive Grown : RouteTree → Prop
  | root (w : Wire) : Grown (ofRoot w)
  | extended {t u : RouteTree} {p i : Nat} {c : Connection} :
      Grown t → t.extend? p c = some (i, u) → Grown u
  | pruned {t u : RouteTree} {keep : List Nat} : Grown t → t.prune? keep = some u → Grown u

variable {t flat : RouteTree}

theorem eq_grow_of_extend? {u : RouteTree} {p i : Nat} {c : Connection}
    (h : t.extend? p c = some (i, u)) : t.wire? p = some c.source ∧ u = t.grow p c := by
  unfold extend? at h
  split at h
  next hw =>
    cases h
    exact ⟨hw, rfl⟩
  next => cases h

theorem eq_prune_of_prune? {u : RouteTree} {keep : List Nat} (h : t.prune? keep = some u) :
    u = t.prune keep := by
  unfold prune? at h
  split at h
  next =>
    cases h
    rfl
  next => cases h

theorem Built.grow {p : Nat} {c : Connection} (h : t.Built) (hc : t.wire? p = some c.source) :
    (t.grow p c).Built :=
  .extended h (if_pos hc)

theorem Grown.grow {p : Nat} {c : Connection} (h : t.Grown) (hc : t.wire? p = some c.source) :
    (t.grow p c).Grown :=
  .extended h (if_pos hc)

/-! ## Flattening -/

theorem growAll_spec (t : RouteTree) (hflat : flat.WellFormed) {dst : Nat} (hdst : dst < flat.size)
    (ns : List Nat) :
    (t.growAll dst flat ns).1.WellFormed ∧ flat.size ≤ (t.growAll dst flat ns).1.size ∧
      ∀ a ∈ (t.growAll dst flat ns).2, a.2 < (t.growAll dst flat ns).1.size := by
  induction ns generalizing flat with
  | nil => exact ⟨hflat, Nat.le_refl _, by simp [growAll]⟩
  | cons n ns ih =>
    unfold growAll
    cases (t.node? n).bind Node.link with
    | none => exact ih hflat hdst
    | some c =>
      have hsize : (flat.grow dst c).size = flat.size + 1 := size_grow flat dst c
      obtain ⟨hwf, hle, hlt⟩ := ih (hflat.grow hdst c) (by omega)
      refine ⟨hwf, by dsimp only; omega, List.forall_mem_cons.2 ⟨?_, hlt⟩⟩
      dsimp only
      omega

theorem flattenBelow_spec (t : RouteTree) (depth src : Nat) (hflat : flat.WellFormed) {dst : Nat}
    (hdst : dst < flat.size) : (t.flattenBelow depth src dst flat).WellFormed ∧
      flat.size ≤ (t.flattenBelow depth src dst flat).size := by
  induction depth generalizing src dst flat with
  | zero => exact ⟨hflat, Nat.le_refl _⟩
  | succ depth ih =>
    unfold flattenBelow
    obtain ⟨hwf, hle, hlt⟩ := growAll_spec t hflat hdst (t.trueChildren src)
    rcases hgrow : t.growAll dst flat (t.trueChildren src) with ⟨grown, added⟩
    rw [hgrow] at hwf hle hlt
    dsimp only at hwf hle hlt ⊢
    -- The tree only grows, so the numbers told stay those of nodes.
    have hfold : (added.foldr (fun a acc => t.flattenBelow depth a.1 a.2 acc) grown).WellFormed ∧
        grown.size ≤ (added.foldr (fun a acc => t.flattenBelow depth a.1 a.2 acc) grown).size := by
      clear hgrow
      induction added with
      | nil => exact ⟨hwf, Nat.le_refl _⟩
      | cons a added iha =>
        rw [List.forall_mem_cons] at hlt
        obtain ⟨hacc, hsize⟩ := iha hlt.2
        obtain ⟨hnext, hnextSize⟩ := ih a.1 hacc (Nat.lt_of_lt_of_le hlt.1 hsize)
        exact ⟨hnext, Nat.le_trans hsize hnextSize⟩
    exact ⟨hfold.1, Nat.le_trans hle hfold.2⟩

theorem WellFormed.flattened (ht : t.WellFormed) : t.flattened.WellFormed := by
  unfold RouteTree.flattened
  cases t.wire? 0 with
  | none => exact ht
  | some w => exact (flattenBelow_spec t t.size 0 (.ofRoot w) (by simp)).1

theorem Built.wellFormed (h : t.Built) : t.WellFormed := by
  induction h with
  | root w => exact .ofRoot w
  | extended _ hext ih =>
    obtain ⟨hw, rfl⟩ := eq_grow_of_extend? hext
    exact ih.grow (lt_size_of_wire? hw) _
  | pruned _ hprune ih =>
    obtain rfl := eq_prune_of_prune? hprune
    exact ih.prune _
  | flattened _ ih => exact ih.flattened

theorem Grown.built (h : t.Grown) : t.Built := by
  induction h with
  | root w => exact .root w
  | extended _ hext ih => exact .extended ih hext
  | pruned _ hprune ih => exact .pruned ih hprune

theorem Grown.linked (h : t.Grown) : t.Linked := by
  induction h with
  | root w => exact linked_ofRoot w
  | extended ht hext ih =>
    obtain ⟨hw, rfl⟩ := eq_grow_of_extend? hext
    exact ih.grow ht.built.wellFormed hw
  | pruned _ hprune ih =>
    obtain rfl := eq_prune_of_prune? hprune
    exact ih.prune _

/-! ## What the nodes say of one another -/

/-- The root has nothing above it, and every other node hangs below an earlier one by a connection
to its wire. Child lists go up and repeat the parents, and the way up from a node ends at the
root. Without flattening, a connection starts at the wire of the parent. -/
theorem Built.invariant (h : t.Built) :
    (0 < t.size ∧ t.parent? 0 = none ∧ t.link? 0 = none) ∧
    (∀ i < t.size, i ≠ 0 → ∃ p c, t.parent? i = some p ∧ p < i ∧ t.link? i = some c ∧
      t.wire? i = some c.sink) ∧
    (∀ p, (t.children p).Pairwise (· < ·) ∧ ∀ i, i ∈ t.children p ↔ t.parent? i = some p) ∧
    (∀ n < t.size, (t.pathToRoot n).head? = some n ∧
      ((t.pathToRoot n).IsChain fun j k => t.parent? j = some k) ∧
      (t.pathToRoot n).getLast? = some 0) ∧
    (t.Grown → ∀ i p c, t.parent? i = some p → t.link? i = some c → t.wire? p = some c.source) := by
  have hwf := h.wellFormed
  refine ⟨⟨hwf.size_pos, hwf.parent?_zero, ?_⟩, fun i hi h0 => hwf.exists_parent hi h0,
    fun p => ⟨hwf.children_pairwise p, fun i => hwf.mem_children_iff⟩,
    fun n hn => ⟨t.head?_pathToRoot n, t.isChain_pathToRoot n, (hwf.pathToRoot_spec hn).1⟩,
    fun hgrown => hgrown.linked⟩
  obtain ⟨w, children, h0⟩ := hwf.root
  rw [link?, h0]
  rfl

def forked : RouteTree :=
  (((ofRoot (.tile ⟨0⟩ ⟨0⟩)).grow 0 ⟨.tile ⟨0⟩ ⟨0⟩, .tile ⟨0⟩ ⟨1⟩, .wire⟩).grow 1
    ⟨.tile ⟨0⟩ ⟨1⟩, .tile ⟨0⟩ ⟨2⟩, .pip⟩).grow 1 ⟨.tile ⟨0⟩ ⟨1⟩, .tile ⟨0⟩ ⟨3⟩, .pip⟩

theorem grown_forked : forked.Grown :=
  (((Grown.root _).grow (by decide)).grow (by decide)).grow (by decide)

/-- Of the forked tree, what is left after pruning is still linked from wire to wire, and what is
left after flattening still keeps child lists and parents in step. -/
theorem Built.invariant_forked :
    (forked.prune [3]).wire? 1 = some (.tile ⟨0⟩ ⟨1⟩) ∧ (forked.prune [3]).flattened.size = 2 ∧
    ∀ i, i ∈ (forked.prune [3]).flattened.children 0 ↔
      (forked.prune [3]).flattened.parent? i = some 0 := by
  have hgrown : (forked.prune [3]).Grown := .pruned grown_forked (if_pos (by decide))
  obtain ⟨-, -, -, -, hlinked⟩ := hgrown.built.invariant
  obtain ⟨-, -, hchildren, -⟩ := (Built.flattened hgrown.built).invariant
  exact ⟨hlinked hgrown 2 1 ⟨.tile ⟨0⟩ ⟨1⟩, .tile ⟨0⟩ ⟨3⟩, .pip⟩ (by decide +kernel)
    (by decide +kernel), by decide +kernel, (hchildren 0).2⟩

/-! ## Switched nodes further down -/

theorem lt_of_mem_switchedFrom (ht : t.WellFormed) {n depth : Nat} {level : List Nat}
    (hlevel : ∀ m ∈ level, n < m ∧ m < t.size) {m : Nat} (hm : m ∈ t.switchedFrom depth level) :
    n < m ∧ m < t.size := by
  induction depth generalizing level with
  | zero => simp [switchedFrom] at hm
  | succ depth ih =>
    rw [switchedFrom_succ, List.mem_append] at hm
    rcases hm with hm | hm
    · exact hlevel m (List.mem_filter.1 hm).1
    · -- Children have larger numbers than their parents, so the bound holds on the next level.
      refine ih (fun j hj => ?_) hm
      obtain ⟨i, hi, hj⟩ := List.mem_flatMap.1 hj
      have hni := hlevel i (List.mem_filter.1 hi).1
      have hij := ht.lt_of_mem_children hj
      omega

theorem lt_of_mem_trueChildren (ht : t.WellFormed) {n m : Nat} (hm : m ∈ t.trueChildren n) :
    n < m ∧ m < t.size :=
  lt_of_mem_switchedFrom ht (fun _ hi => ht.lt_of_mem_children hi) hm

theorem isSwitched_of_mem_trueChildren {n m : Nat} (hm : m ∈ t.trueChildren n) : t.isSwitched m :=
  isSwitched_of_mem_switchedFrom hm

/-! ## True children from a queue -/

/-- Taking nodes from a queue, the first one first, gives the listed nodes. A switched node is
listed, and the children of another one go to the end of the queue. -/
inductive Lists (t : RouteTree) : List Nat → List Nat → Prop
  | done : Lists t [] []
  | switched {n : Nat} {queue out : List Nat} (hn : t.isSwitched n) (h : Lists t queue out) :
      Lists t (n :: queue) (n :: out)
  | plain {n : Nat} {queue out : List Nat} (hn : ¬ t.isSwitched n)
      (h : Lists t (queue ++ t.children n) out) : Lists t (n :: queue) out

/-- A level of nodes is taken from the queue before the level below it. -/
theorem Lists.level {level next out : List Nat}
    (h : t.Lists (next ++ (level.filter fun m => !t.isSwitched m).flatMap t.children) out) :
    t.Lists (level ++ next) (level.filter t.isSwitched ++ out) := by
  induction level generalizing next with
  | nil => simpa using h
  | cons n level ih =>
    by_cases hn : t.isSwitched n
    · rw [List.filter_cons_of_neg (by simp [hn])] at h
      rw [List.filter_cons_of_pos hn]
      exact .switched hn (ih h)
    · rw [List.filter_cons_of_pos (by simp [hn]), List.flatMap_cons, ← List.append_assoc] at h
      rw [List.filter_cons_of_neg hn]
      have hrest := ih h
      rw [← List.append_assoc] at hrest
      exact .plain hn hrest

/-- No more nodes come behind the nodes of the level than the depth says. -/
def InDepth (t : RouteTree) (depth : Nat) (level : List Nat) : Prop :=
  ∀ m ∈ level, m < t.size ∧ t.size ≤ m + depth

theorem inDepth_children (ht : t.WellFormed) (n : Nat) : t.InDepth t.size (t.children n) :=
  fun _ hm => ⟨(ht.lt_of_mem_children hm).2, Nat.le_add_left _ _⟩

theorem InDepth.eq_nil {level : List Nat} (h : t.InDepth 0 level) : level = [] := by
  refine List.eq_nil_iff_forall_not_mem.2 fun m hm => ?_
  have hbounds := h m hm
  omega

theorem InDepth.next (ht : t.WellFormed) {depth : Nat} {level : List Nat}
    (h : t.InDepth (depth + 1) level) :
    t.InDepth depth ((level.filter fun m => !t.isSwitched m).flatMap t.children) := by
  intro m hm
  obtain ⟨i, hi, hm⟩ := List.mem_flatMap.1 hm
  have hi := h i (List.mem_filter.1 hi).1
  have hm := ht.lt_of_mem_children hm
  omega

theorem lists_switchedFrom (ht : t.WellFormed) {depth : Nat} {level : List Nat}
    (hlevel : t.InDepth depth level) : t.Lists level (t.switchedFrom depth level) := by
  induction depth generalizing level with
  | zero =>
    rw [hlevel.eq_nil]
    exact .done
  | succ depth ih =>
    rw [switchedFrom_succ]
    have hqueue : t.Lists (level ++ []) _ := .level (ih (hlevel.next ht))
    rwa [List.append_nil] at hqueue

/-- The true children of a node are what a queue that begins with its children gives. -/
theorem lists_trueChildren (ht : t.WellFormed) (n : Nat) :
    t.Lists (t.children n) (t.trueChildren n) :=
  lists_switchedFrom ht (inDepth_children ht n)

/-! ## Flattening from a stack -/

/-- Following the pairs on a stack, the top one first, leads from the first flat tree to the second.
A pair is a node with its number in the flat tree; its true children are added there and put on the
stack. -/
inductive FlattensTo (t : RouteTree) : List (Nat × Nat) → RouteTree → RouteTree → Prop
  | done (flat : RouteTree) : FlattensTo t [] flat flat
  | pop {src dst : Nat} {stack : List (Nat × Nat)} {flat out : RouteTree}
      (h : FlattensTo t ((t.growAll dst flat (t.trueChildren src)).2.reverse ++ stack)
        (t.growAll dst flat (t.trueChildren src)).1 out) :
      FlattensTo t ((src, dst) :: stack) flat out

theorem mem_of_mem_growAll {dst : Nat} {ns : List Nat} {a : Nat × Nat}
    (ha : a ∈ (t.growAll dst flat ns).2) : a.1 ∈ ns := by
  induction ns generalizing flat with
  | nil => cases ha
  | cons n ns ih =>
    unfold growAll at ha
    split at ha
    next => exact List.mem_cons_of_mem n (ih ha)
    next =>
      rcases List.mem_cons.1 ha with rfl | ha
      · exact List.mem_cons_self
      · exact List.mem_cons_of_mem n (ih ha)

theorem FlattensTo.flattenBelow (ht : t.WellFormed) {depth src dst : Nat} {out : RouteTree}
    {stack : List (Nat × Nat)} (hdepth : t.size ≤ src + depth)
    (h : t.FlattensTo stack (t.flattenBelow depth src dst flat) out) :
    t.FlattensTo ((src, dst) :: stack) flat out := by
  induction depth generalizing src dst flat stack with
  | zero =>
    have hnone : t.trueChildren src = [] := List.eq_nil_iff_forall_not_mem.2 fun m hm => by
      have := lt_of_mem_trueChildren ht hm
      omega
    refine .pop ?_
    rw [hnone]
    exact h
  | succ depth ih =>
    have hbelow : ∀ a ∈ (t.growAll dst flat (t.trueChildren src)).2, t.size ≤ a.1 + depth := by
      intro a ha
      have := lt_of_mem_trueChildren ht (mem_of_mem_growAll ha)
      omega
    unfold RouteTree.flattenBelow at h
    refine .pop ?_
    generalize t.growAll dst flat (t.trueChildren src) = grown at h hbelow ⊢
    obtain ⟨grown, added⟩ := grown
    -- the child added last is on top of the stack
    induction added generalizing stack with
    | nil => exact h
    | cons a added iha =>
      rw [List.forall_mem_cons] at hbelow
      rw [List.reverse_cons, List.append_assoc]
      exact iha (ih hbelow.1 h) hbelow.2

/-- The flat tree is the one that following the nodes from a stack leads to. -/
theorem WellFormed.flattensTo (ht : t.WellFormed) {w : Wire} (hw : t.wire? 0 = some w) :
    t.FlattensTo [(0, 0)] (RouteTree.ofRoot w) t.flattened := by
  unfold RouteTree.flattened
  rw [hw]
  exact .flattenBelow ht (Nat.le_add_left t.size 0) (.done _)

end Fabric.RouteTree
