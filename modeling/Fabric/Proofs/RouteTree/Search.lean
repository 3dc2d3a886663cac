import Fabric.Proofs.RouteTree.Shape
import Mathlib.Data.List.Perm.Subperm
/-!
# Trees of breadth-first searches

The searches between sites and inside sites grow a tree in the same way and differ in the
connections that they follow. Here a search is given by the list of these connections for
each wire. Its nodes are also its queue: node `done` is the next to be followed, and all
nodes before it have been.
-/

namespace Fabric.RouteTree

/-! ## Trails -/

/-- A walk over `n` connections from the wire `start`. The relation tells which connections
may be followed from a wire. -/
inductive Trail (hop : Wire → Connection → Prop) (start : Wire) : Nat → Wire → Prop
  | start : Trail hop start 0 start
  | hop {n : Nat} {w : Wire} {c : Connection} :
      Trail hop start n w → hop w c → Trail hop start (n + 1) c.sink

/-- A tree that holds exactly the wires that trails lead to, each once and on a shortest one,
nearer wires before farther ones. -/
structure IsSearchTree (hop : Wire → Connection → Prop) (start : Wire) (t : RouteTree) : Prop where
  wellFormed : t.WellFormed
  rooted : t.wire? 0 = some start
  wires : ∀ w, w ∈ t.wires ↔ ∃ n, Trail hop start n w
  once : t.wires.Nodup
  hops : ∀ i < t.size, i ≠ 0 → ∃ p u c, t.parent? i = some p ∧ t.wire? p = some u ∧
    t.link? i = some c ∧ hop u c ∧ t.wire? i = some c.sink
  shortest : ∀ i w, t.wire? i = some w →
    Trail hop start (t.depth i) w ∧ ∀ n, Trail hop start n w → t.depth i ≤ n
  sorted : ∀ i j, i ≤ j → j < t.size → t.depth i ≤ t.depth j

theorem IsSearchTree.trail_of_hops {hop hop' : Wire → Connection → Prop} {start : Wire}
    {t : RouteTree} (h : IsSearchTree hop start t)
    (hhop : ∀ i u c, t.link? i = some c → hop u c → hop' u c) {w : Wire} (hw : w ∈ t.wires) :
    ∃ n, Trail hop' start n w := by
  obtain ⟨i, hi⟩ := mem_wires.1 hw
  clear hw
  induction i using Nat.strongRecOn generalizing w with
  | ind i ih =>
    by_cases h0 : i = 0
    · subst h0
      rw [h.rooted] at hi
      cases hi
      exact ⟨0, .start⟩
    · obtain ⟨p, u, c, hp, hu, hc, hstep, hsink⟩ := h.hops i (lt_size_of_wire? hi) h0
      rw [hi] at hsink
      cases hsink
      obtain ⟨n, hn⟩ := ih p (h.wellFormed.parent_lt hp) hu
      exact ⟨n + 1, .hop hn (hhop i u c hc hstep)⟩

/-! ## The search -/

def reach (node : Nat) (t : RouteTree) (c : Connection) : RouteTree :=
  if t.containsWire c.sink then t else t.grow node c

def sweep (next : Wire → List Connection) : Nat → Nat → RouteTree → RouteTree
  | 0, _, t => t
  | steps + 1, node, t =>
    match t.wire? node with
    | none => t
    | some w => sweep next steps (node + 1) ((next w).foldl (reach node) t)

def HasWires (t : RouteTree) (visited : KeySet Wire) : Prop :=
  ∀ w, visited.contains w = t.containsWire w

theorem hasWires_ofRoot (w : Wire) : (ofRoot w).HasWires (.ofList [w]) := by
  intro v
  rw [Bool.eq_iff_iff, containsWire_iff]
  simp only [ofRoot, wires, Std.ExtTreeSet.contains_ofList, List.contains_eq_mem,
    List.mem_singleton, List.map_cons, List.map_nil, decide_eq_true_eq]

theorem HasWires.grow {t : RouteTree} {visited : KeySet Wire} (h : t.HasWires visited) (p : Nat)
    (c : Connection) : (t.grow p c).HasWires (visited.insert c.sink) := by
  intro w
  have hw := Bool.eq_iff_iff.1 (h w)
  rw [containsWire_iff] at hw
  rw [Bool.eq_iff_iff, containsWire_iff, wires_grow]
  simp only [Std.ExtTreeSet.contains_insert, Bool.or_eq_true, hw, List.mem_append,
    List.mem_singleton, beq_iff_eq, Std.LawfulEqCmp.compare_eq_iff_eq]
  rw [or_comm, eq_comm]

section Visited

variable {t : RouteTree} {visited : KeySet Wire} {c : Connection} {admitted : Bool}

theorem HasWires.reach_of_new (h : t.HasWires visited) (node : Nat)
    (hnew : (!visited.contains c.sink && admitted) = true) :
    (if admitted then t.reach node c else t) = t.grow node c := by
  rw [h c.sink] at hnew
  simp_all [reach]

theorem HasWires.reach_of_old (h : t.HasWires visited) (node : Nat)
    (hold : ¬ (!visited.contains c.sink && admitted) = true) :
    (if admitted then t.reach node c else t) = t := by
  rw [h c.sink] at hold
  by_cases ha : admitted <;> simp_all [reach]

end Visited

/-- What holds of a search from `start` that has followed the nodes before `done`. -/
structure Swept (next : Wire → List Connection) (start : Wire) (done : Nat) (t : RouteTree) :
    Prop where
  wellFormed : t.WellFormed
  linked : t.Linked
  rooted : t.wire? 0 = some start
  once : t.wires.Nodup
  hops : ∀ i c, t.link? i = some c → c ∈ next c.source
  sorted : ∀ i j, i ≤ j → j < t.size → t.depth i ≤ t.depth j
  level : done < t.size → ∀ j < t.size, t.depth j ≤ t.depth done + 1
  closed : ∀ i < done, ∀ w, t.wire? i = some w → ∀ c ∈ next w,
    ∃ j, t.wire? j = some c.sink ∧ t.depth j ≤ t.depth i + 1
  done_le : done ≤ t.size

structure Extends (t u : RouteTree) : Prop where
  size_le : t.size ≤ u.size
  wire : ∀ i < t.size, u.wire? i = t.wire? i
  depth : ∀ i < t.size, u.depth i = t.depth i

theorem Extends.refl (t : RouteTree) : t.Extends t :=
  ⟨Nat.le_refl _, fun _ _ => rfl, fun _ _ => rfl⟩

theorem Extends.trans {t u v : RouteTree} (htu : t.Extends u) (huv : u.Extends v) :
    t.Extends v where
  size_le := Nat.le_trans htu.size_le huv.size_le
  wire i hi := (huv.wire i (Nat.lt_of_lt_of_le hi htu.size_le)).trans (htu.wire i hi)
  depth i hi := (huv.depth i (Nat.lt_of_lt_of_le hi htu.size_le)).trans (htu.depth i hi)

theorem extends_grow (t : RouteTree) (p : Nat) (c : Connection) : t.Extends (t.grow p c) where
  size_le := by simp
  wire _ hi := wire?_grow_of_lt hi
  depth _ hi := depth_grow_of_lt hi

theorem extends_reach (t : RouteTree) (p : Nat) (c : Connection) : t.Extends (t.reach p c) := by
  unfold reach
  split
  · exact .refl t
  · exact extends_grow t p c

theorem extends_foldl_reach (t : RouteTree) (p : Nat) (cs : List Connection) :
    t.Extends (cs.foldl (reach p) t) := by
  induction cs generalizing t with
  | nil => exact .refl t
  | cons c cs ih => exact (extends_reach t p c).trans (ih _)

variable {next : Wire → List Connection} {start : Wire} {done : Nat} {t : RouteTree}

/-! ## What a step keeps -/

theorem swept_ofRoot (next : Wire → List Connection) (start : Wire) :
    Swept next start 0 (ofRoot start) where
  wellFormed := .ofRoot start
  linked := linked_ofRoot start
  rooted := rfl
  once := by simp [wires, ofRoot]
  hops i c hc := by
    rw [link?_ofRoot] at hc
    cases hc
  sorted i j hij hj := by
    obtain rfl : j = 0 := by simpa using hj
    obtain rfl : i = 0 := by omega
    exact Nat.le_refl _
  level _ j hj := by
    obtain rfl : j = 0 := by simpa using hj
    omega
  closed i hi := by omega
  done_le := by omega

namespace Swept

theorem nodup_wires_grow (h : Swept next start done t) {c : Connection} (hnew : c.sink ∉ t.wires) :
    (t.grow done c).wires.Nodup := by
  rw [wires_grow, List.nodup_append]
  refine ⟨h.once, by simp, ?_⟩
  intro a ha b hb hab
  rw [List.mem_singleton.1 hb] at hab
  exact hnew (hab ▸ ha)

theorem depth_grow_le (h : Swept next start done t) (hdone : done < t.size) (c : Connection)
    {j : Nat} (hj : j < t.size + 1) : (t.grow done c).depth j ≤ t.depth done + 1 := by
  by_cases hjt : j = t.size
  · subst hjt
    exact Nat.le_of_eq (depth_grow_size hdone)
  · rw [depth_grow_of_lt (by omega)]
    exact h.level hdone j (by omega)

theorem grow (h : Swept next start done t) {c : Connection} (hw : t.wire? done = some c.source)
    (hc : c ∈ next c.source) (hnew : c.sink ∉ t.wires) :
    Swept next start done (t.grow done c) := by
  have hdone : done < t.size := lt_size_of_wire? hw
  have hext := extends_grow t done c
  refine {
    wellFormed := h.wellFormed.grow hdone c
    linked := h.linked.grow h.wellFormed hw
    rooted := by rw [hext.wire 0 h.wellFormed.size_pos, h.rooted]
    once := h.nodup_wires_grow hnew
    hops := ?_
    sorted := ?_
    level := ?_
    closed := ?_
    done_le := Nat.le_trans h.done_le hext.size_le }
  · intro i d hd
    rcases eq_or_of_link?_grow hd with rfl | hold
    · exact hc
    · exact h.hops i d hold
  · intro i j hij hj
    rw [size_grow] at hj
    -- The new node is the last, so nothing that comes before it may be deeper.
    by_cases hjt : j = t.size
    · subst hjt
      rw [depth_grow_size hdone]
      exact h.depth_grow_le hdone c (by omega)
    · rw [hext.depth i (by omega), hext.depth j (by omega)]
      exact h.sorted i j hij (by omega)
  · intro _ j hj
    rw [size_grow] at hj
    rw [hext.depth done hdone]
    exact h.depth_grow_le hdone c hj
  · intro i hi w hwi d hd
    have hit := Nat.lt_of_lt_of_le hi h.done_le
    rw [hext.wire i hit] at hwi
    obtain ⟨j, hj, hle⟩ := h.closed i hi w hwi d hd
    have hjt := lt_size_of_wire? hj
    refine ⟨j, by rw [hext.wire j hjt, hj], ?_⟩
    rw [hext.depth i hit, hext.depth j hjt]
    exact hle

theorem reach (h : Swept next start done t) {c : Connection} (hw : t.wire? done = some c.source)
    (hc : c ∈ next c.source) :
    Swept next start done (t.reach done c) ∧
      ∃ j, (t.reach done c).wire? j = some c.sink ∧
        (t.reach done c).depth j ≤ t.depth done + 1 := by
  have hdone : done < t.size := lt_size_of_wire? hw
  unfold RouteTree.reach
  split
  next hold =>
    obtain ⟨j, hj⟩ := mem_wires.1 (containsWire_iff.1 hold)
    exact ⟨h, j, hj, h.level hdone j (lt_size_of_wire? hj)⟩
  next hnew =>
    refine ⟨h.grow hw hc fun hold => hnew (containsWire_iff.2 hold), t.size, wire?_grow_size, ?_⟩
    exact Nat.le_of_eq (depth_grow_size hdone)

/-- After the connections of a wire have been tried, the tree has all their sinks. -/
theorem foldl_reach (h : Swept next start done t) {w : Wire} (hw : t.wire? done = some w)
    {cs : List Connection} (hcs : ∀ c ∈ cs, c ∈ next w ∧ c.source = w) :
    Swept next start done (cs.foldl (RouteTree.reach done) t) ∧
      ∀ c ∈ cs, ∃ j, (cs.foldl (RouteTree.reach done) t).wire? j = some c.sink ∧
        (cs.foldl (RouteTree.reach done) t).depth j ≤ t.depth done + 1 := by
  induction cs generalizing t with
  | nil => exact ⟨h, by simp⟩
  | cons c cs ih =>
    have hdone : done < t.size := lt_size_of_wire? hw
    obtain ⟨hc, hsource⟩ := hcs c (by simp)
    obtain ⟨hreach, j, hj, hle⟩ := h.reach (hsource ▸ hw) (hsource ▸ hc)
    have hext := extends_reach t done c
    obtain ⟨hall, hfound⟩ := ih hreach (by rw [hext.wire done hdone, hw])
      fun d hd => hcs d (by simp [hd])
    rw [List.foldl_cons]
    refine ⟨hall, ?_⟩
    intro d hd
    rcases List.mem_cons.1 hd with rfl | hd
    · have hjt := lt_size_of_wire? hj
      have hrest := extends_foldl_reach (t.reach done d) done cs
      exact ⟨j, by rw [hrest.wire j hjt, hj], by rw [hrest.depth j hjt]; exact hle⟩
    · rw [← hext.depth done hdone]
      exact hfound d hd

theorem follow (h : Swept next start done t) (hsource : ∀ w, ∀ c ∈ next w, c.source = w)
    {w : Wire} (hw : t.wire? done = some w) :
    Swept next start (done + 1) ((next w).foldl (RouteTree.reach done) t) := by
  have hdone : done < t.size := lt_size_of_wire? hw
  obtain ⟨hall, hfound⟩ := h.foldl_reach hw fun c hc => ⟨hc, hsource w c hc⟩
  have hext := extends_foldl_reach t done (next w)
  refine { hall with level := ?_, closed := ?_, done_le := ?_ }
  -- The next node may be one level deeper than this one, but not less deep.
  · intro hlt j hj
    have hlevel := hall.level (Nat.lt_of_lt_of_le hdone hext.size_le) j hj
    have hsorted := hall.sorted done (done + 1) (by omega) hlt
    omega
  · intro i hi u hu c hc
    by_cases hid : i = done
    · subst hid
      rw [hext.wire i hdone, hw] at hu
      cases hu
      rw [hext.depth i hdone]
      exact hfound c hc
    · exact hall.closed i (by omega) u hu c hc
  · have := hext.size_le
    omega

/-! ## The whole search -/

/-- A search that has more steps than a tree can have nodes follows all of them. -/
theorem sweep (h : Swept next start done t) (hsource : ∀ w, ∀ c ∈ next w, c.source = w)
    {bound : Nat} (hbound : ∀ done t, Swept next start done t → t.size ≤ bound) {steps : Nat}
    (hsteps : bound < steps + done) :
    Swept next start (RouteTree.sweep next steps done t).size
      (RouteTree.sweep next steps done t) := by
  induction steps generalizing done t with
  | zero =>
    have := hbound done t h
    have := h.done_le
    omega
  | succ steps ih =>
    unfold RouteTree.sweep
    cases hw : t.wire? done with
    | none =>
      have hsize : t.size = done := Nat.le_antisymm (wire?_eq_none.1 hw) h.done_le
      exact hsize ▸ h
    | some w => exact ih (h.follow hsource hw) (by omega)

theorem size_le (h : Swept next start done t) {all : List Wire}
    (hall : ∀ w, ∀ c ∈ next w, c.sink ∈ all) : t.size ≤ all.length + 1 := by
  -- All wires but the start were reached by a connection, and none of them twice.
  have hsub : t.wires ⊆ start :: all := by
    intro w hw
    obtain ⟨i, hi⟩ := mem_wires.1 hw
    by_cases h0 : i = 0
    · subst h0
      rw [h.rooted] at hi
      cases hi
      simp
    · obtain ⟨p, c, hp, -, hc, hs⟩ := h.wellFormed.exists_parent (lt_size_of_wire? hi) h0
      rw [hi] at hs
      cases hs
      exact List.mem_cons_of_mem _ (hall _ c (h.hops i c hc))
  simpa [length_wires] using (h.once.subperm hsub).length_le

theorem trail (h : Swept next start done t) {i : Nat} {w : Wire} (hw : t.wire? i = some w) :
    Trail (fun u c => c ∈ next u) start (t.depth i) w := by
  induction i using Nat.strongRecOn generalizing w with
  | ind i ih =>
    by_cases h0 : i = 0
    · subst h0
      rw [h.rooted] at hw
      cases hw
      rw [h.wellFormed.depth_zero]
      exact .start
    · obtain ⟨p, c, hp, hlt, hc, hs⟩ := h.wellFormed.exists_parent (lt_size_of_wire? hw) h0
      rw [hw] at hs
      cases hs
      rw [depth_of_parent? hp hlt]
      exact .hop (ih p hlt (h.linked i p c hp hc)) (h.hops i c hc)

/-- When all nodes have been followed, a trail leads to no wire that is not in the tree, and is
not shorter than the way down to it. -/
theorem depth_le_of_trail (h : Swept next start t.size t) {n : Nat} {w : Wire}
    (hn : Trail (fun u c => c ∈ next u) start n w) : ∃ i, t.wire? i = some w ∧ t.depth i ≤ n := by
  induction hn with
  | start => exact ⟨0, h.rooted, Nat.le_of_eq h.wellFormed.depth_zero⟩
  | hop _ hc ih =>
    obtain ⟨i, hi, hle⟩ := ih
    obtain ⟨j, hj, hjle⟩ := h.closed i (lt_size_of_wire? hi) _ hi _ hc
    exact ⟨j, hj, by omega⟩

theorem isSearchTree (h : Swept next start t.size t) :
    IsSearchTree (fun u c => c ∈ next u) start t where
  wellFormed := h.wellFormed
  rooted := h.rooted
  wires w := by
    rw [mem_wires]
    constructor
    · rintro ⟨i, hi⟩
      exact ⟨_, h.trail hi⟩
    · rintro ⟨n, hn⟩
      obtain ⟨i, hi, -⟩ := h.depth_le_of_trail hn
      exact ⟨i, hi⟩
  once := h.once
  hops i hi h0 := by
    obtain ⟨p, c, hp, -, hc, hs⟩ := h.wellFormed.exists_parent hi h0
    exact ⟨p, c.source, c, hp, h.linked i p c hp hc, hc, h.hops i c hc, hs⟩
  shortest i w hw := by
    refine ⟨h.trail hw, fun n hn => ?_⟩
    obtain ⟨j, hj, hle⟩ := h.depth_le_of_trail hn
    rw [eq_of_wire? h.once hw hj]
    exact hle
  sorted := h.sorted

end Swept

/-- A search whose connections lead to the wires of a list has found all there is to find after
two steps more than the list has wires. -/
theorem sweep_spec (hsource : ∀ w, ∀ c ∈ next w, c.source = w) (start : Wire) {all : List Wire}
    (hall : ∀ w, ∀ c ∈ next w, c.sink ∈ all) {steps : Nat} (hsteps : all.length + 2 ≤ steps) :
    IsSearchTree (fun u c => c ∈ next u) start (sweep next steps 0 (ofRoot start)) ∧
      (sweep next steps 0 (ofRoot start)).size < steps := by
  have hbound : ∀ done t, Swept next start done t → t.size ≤ all.length + 1 :=
    fun _ _ h => h.size_le hall
  have hswept := (swept_ofRoot next start).sweep hsource hbound (by omega : _ < steps + 0)
  have := hbound _ _ hswept
  exact ⟨hswept.isSearchTree, by omega⟩

end Fabric.RouteTree
