import Fabric.Proofs.RouteTree.Recursion
/-!
# Flattening

The flat tree has one node for the root and one for each switched node, and its children are the
true children. So it mirrors the tree that it comes from, and flattening it again goes through the
same steps.
-/

namespace Fabric.RouteTree

variable {t u flat out : RouteTree}

theorem isSwitched_eq (t : RouteTree) (n : Nat) :
    t.isSwitched n = (t.link? n).any Connection.isSwitched := by
  unfold isSwitched link?
  cases t.node? n <;> rfl

theorem trueChildren_eq_children {n : Nat} (h : ∀ m ∈ t.children n, t.isSwitched m) :
    t.trueChildren n = t.children n := by
  have hplain : (t.children n).filter (fun m => !t.isSwitched m) = [] :=
    List.filter_eq_nil_iff.2 fun m hm => by simp [h m hm]
  unfold trueChildren
  cases hsize : t.size with
  | zero =>
    have hnone : t.node? n = none := by
      rw [← Option.not_isSome_iff_eq_none, node?_isSome]
      omega
    simp [children, hnone]
  | succ depth =>
    rw [switchedFrom_succ, hplain, List.filter_eq_self.2 h, List.flatMap_nil, switchedFrom_nil,
      List.append_nil]

theorem link_of_mem_trueChildren (ht : t.WellFormed) {n m : Nat} (hm : m ∈ t.trueChildren n) :
    ∃ c, t.link? m = some c ∧ t.wire? m = some c.sink := by
  have hlt := lt_of_mem_trueChildren ht hm
  obtain ⟨p, c, -, -, hc, hw⟩ := ht.exists_parent hlt.2 (by omega)
  exact ⟨c, hc, hw⟩

/-! ## Adding true children -/

structure Gained (t : RouteTree) (dst : Nat) (ns : List Nat) (flat grown : RouteTree) : Prop where
  size : grown.size = flat.size + ns.length
  wire : ∀ m < flat.size, grown.wire? m = flat.wire? m
  link : ∀ m < flat.size, grown.link? m = flat.link? m
  below : grown.children dst = flat.children dst ++ List.range' flat.size ns.length
  apart : ∀ m < flat.size, m ≠ dst → grown.children m = flat.children m
  wires : ∀ k n, ns[k]? = some n → grown.wire? (flat.size + k) = t.wire? n
  links : ∀ k n, ns[k]? = some n → grown.link? (flat.size + k) = t.link? n
  leaves : ∀ k < ns.length, grown.children (flat.size + k) = []

theorem gained_growAll {ns : List Nat} {dst : Nat} (hdst : dst < flat.size)
    (hns : ∀ n ∈ ns, ∃ c, t.link? n = some c ∧ t.wire? n = some c.sink) :
    (t.growAll dst flat ns).2 = ns.zipIdx flat.size ∧
      Gained t dst ns flat (t.growAll dst flat ns).1 := by
  induction ns generalizing flat with
  | nil => exact ⟨rfl, rfl, fun _ _ => rfl, fun _ _ => rfl, (List.append_nil _).symm,
      fun _ _ _ => rfl, nofun, nofun, nofun⟩
  | cons n ns ih =>
    obtain ⟨⟨c, hc, hw⟩, hns⟩ := List.forall_mem_cons.1 hns
    have hsize : (flat.grow dst c).size = flat.size + 1 := size_grow flat dst c
    obtain ⟨hadded, h⟩ := @ih (flat.grow dst c) (by omega) hns
    have hgrow : t.growAll dst flat (n :: ns) = ((t.growAll dst (flat.grow dst c) ns).1,
        (n, flat.size) :: (t.growAll dst (flat.grow dst c) ns).2) := by
      rw [growAll, show (t.node? n).bind Node.link = some c from hc]
    rw [hgrow]
    have hshift : ∀ k, flat.size + (k + 1) = (flat.grow dst c).size + k := fun k => by omega
    refine ⟨by rw [hadded, hsize, List.zipIdx_cons], ?_, fun m hm => ?_, fun m hm => ?_, ?_,
      fun m hm hne => ?_, fun k n' hk => ?_, fun k n' hk => ?_, fun k hk => ?_⟩
    · rw [h.size, hsize, List.length_cons]
      omega
    · rw [h.wire m (by omega), wire?_grow_of_lt hm]
    · rw [h.link m (by omega), link?_grow_of_lt hm]
    · rw [h.below, children_grow_of_lt hdst, if_pos rfl, hsize, List.append_assoc, List.length_cons,
        List.range'_succ, List.singleton_append]
    · rw [h.apart m (by omega) hne, children_grow_of_lt hm, if_neg hne]
    · cases k with
      | zero =>
        obtain rfl : n = n' := Option.some.inj hk
        rw [Nat.add_zero, h.wire _ (by omega), wire?_grow_size, hw]
      | succ k => rw [hshift, h.wires k n' hk]
    · cases k with
      | zero =>
        obtain rfl : n = n' := Option.some.inj hk
        rw [Nat.add_zero, h.link _ (by omega), link?_grow_size, hc]
      | succ k => rw [hshift, h.links k n' hk]
    · cases k with
      | zero => rw [Nat.add_zero, h.apart _ (by omega) (by omega), children_grow_size]
      | succ k => rw [hshift, h.leaves k (Nat.lt_of_succ_lt_succ hk)]

/-! ## What a stack has copied so far -/

/-- The nodes of the flat tree are copies of the listed nodes. The children of a copy are those of
its true children, unless it waits on the stack and has none yet. -/
structure Copied (t : RouteTree) (old : List Nat) (stack : List (Nat × Nat)) (flat : RouteTree) :
    Prop where
  wellFormed : flat.WellFormed
  length : old.length = flat.size
  root : old[0]? = some 0
  wire : ∀ m n, old[m]? = some n → flat.wire? m = t.wire? n
  link : ∀ m n, old[m]? = some n → flat.link? m = t.link? n
  waiting : ∀ a ∈ stack, old[a.2]? = some a.1 ∧ flat.children a.2 = []
  once : (stack.map Prod.snd).Nodup
  settled : ∀ m n, old[m]? = some n → (n, m) ∈ stack ∨
    List.Forall₂ (fun c k => old[k]? = some c) (t.trueChildren n) (flat.children m)

theorem Copied.ofRoot {w : Wire} (ht : t.WellFormed) (hw : t.wire? 0 = some w) :
    Copied t [0] [(0, 0)] (RouteTree.ofRoot w) where
  wellFormed := .ofRoot w
  length := rfl
  root := rfl
  wire m n hm := by
    obtain ⟨rfl, rfl⟩ : m = 0 ∧ 0 = n := by simpa [List.getElem?_singleton] using hm
    exact hw.symm
  link m n hm := by
    obtain ⟨rfl, rfl⟩ : m = 0 ∧ 0 = n := by simpa [List.getElem?_singleton] using hm
    obtain ⟨w', children, h0⟩ := ht.root
    rw [link?_ofRoot, link?, h0]
    rfl
  waiting a ha := by
    obtain rfl := List.mem_singleton.1 ha
    exact ⟨rfl, rfl⟩
  once := List.nodup_singleton 0
  settled m n hm := by
    obtain ⟨rfl, rfl⟩ : m = 0 ∧ 0 = n := by simpa [List.getElem?_singleton] using hm
    exact .inl List.mem_cons_self

theorem Copied.lt_size {old : List Nat} {stack : List (Nat × Nat)} (h : Copied t old stack flat)
    {m n : Nat} (hm : old[m]? = some n) : m < flat.size :=
  h.length ▸ (List.getElem?_eq_some_iff.1 hm).1

theorem getElem?_append_iff {old new : List Nat} {m n : Nat} : (old ++ new)[m]? = some n ↔
    old[m]? = some n ∨ ∃ k, m = old.length + k ∧ new[k]? = some n := by
  rcases Nat.lt_or_ge m old.length with hlt | hle
  · rw [List.getElem?_append_left hlt]
    exact ⟨.inl, fun h => h.resolve_right fun ⟨k, hk, _⟩ => by omega⟩
  · rw [List.getElem?_append_right hle, List.getElem?_eq_none hle]
    refine ⟨fun h => .inr ⟨m - old.length, by omega, h⟩, ?_⟩
    rintro (h | ⟨k, rfl, h⟩)
    · cases h
    · rwa [Nat.add_sub_cancel_left]

/-- Taking the top pair adds copies of its true children, which then wait themselves. -/
theorem Copied.pop (ht : t.WellFormed) {old : List Nat} {src dst : Nat}
    {stack : List (Nat × Nat)} (h : Copied t old ((src, dst) :: stack) flat) :
    Copied t (old ++ t.trueChildren src)
      ((t.growAll dst flat (t.trueChildren src)).2.reverse ++ stack)
      (t.growAll dst flat (t.trueChildren src)).1 := by
  obtain ⟨⟨hsrc, hnone⟩, hwaiting⟩ := List.forall_mem_cons.1 h.waiting
  obtain ⟨hfresh, honce⟩ := List.nodup_cons.1 h.once
  have hdst : dst < flat.size := h.lt_size hsrc
  obtain ⟨hadded, hgain⟩ := gained_growAll hdst fun n hn => link_of_mem_trueChildren ht hn
  have hwf := (growAll_spec t h.wellFormed hdst (t.trueChildren src)).1
  rw [hadded]
  generalize (t.growAll dst flat (t.trueChildren src)).1 = grown at hgain hwf ⊢
  have hkeep : ∀ {m n}, old[m]? = some n → (old ++ t.trueChildren src)[m]? = some n :=
    fun hm => getElem?_append_iff.2 (.inl hm)
  have hnew : ∀ {k n}, (t.trueChildren src)[k]? = some n →
      (old ++ t.trueChildren src)[flat.size + k]? = some n :=
    fun hk => getElem?_append_iff.2 (.inr ⟨_, by rw [h.length], hk⟩)
  refine ⟨hwf, ?length, hkeep h.root, fun m n hm => ?wire, fun m n hm => ?link,
    fun a ha => ?waiting, ?once, fun m n hm => ?settled⟩
  case length =>
    rw [List.length_append, h.length, hgain.size]
  case wire =>
    rcases getElem?_append_iff.1 hm with hm | ⟨k, rfl, hk⟩
    · rw [hgain.wire m (h.lt_size hm), h.wire m n hm]
    · exact h.length ▸ hgain.wires k n hk
  case link =>
    rcases getElem?_append_iff.1 hm with hm | ⟨k, rfl, hk⟩
    · rw [hgain.link m (h.lt_size hm), h.link m n hm]
    · exact h.length ▸ hgain.links k n hk
  case waiting =>
    rcases List.mem_append.1 ha with ha | ha
    · obtain ⟨hle, hk⟩ :=
        List.mk_mem_zipIdx_iff_le_and_getElem?_sub.1 (List.mem_reverse.1 ha)
      obtain ⟨k, hk'⟩ := Nat.exists_eq_add_of_le hle
      rw [hk', Nat.add_sub_cancel_left] at hk
      rw [hk']
      exact ⟨hnew hk, hgain.leaves k (List.getElem?_eq_some_iff.1 hk).1⟩
    · obtain ⟨ho, hchildren⟩ := hwaiting a ha
      have hne : a.2 ≠ dst := fun he => hfresh (List.mem_map.2 ⟨a, ha, he⟩)
      exact ⟨hkeep ho, (hgain.apart _ (h.lt_size ho) hne).trans hchildren⟩
  case once =>
    rw [List.map_append, List.map_reverse, List.zipIdx_map_snd, List.nodup_append]
    refine ⟨List.nodup_reverse.2 List.nodup_range', honce, fun k hk m hm => ?_⟩
    obtain ⟨a, ha, rfl⟩ := List.mem_map.1 hm
    have hlt := h.lt_size (hwaiting a ha).1
    have hle := (List.mem_range'_1.1 (List.mem_reverse.1 hk)).1
    omega
  case settled =>
    rcases getElem?_append_iff.1 hm with hm | ⟨k, rfl, hk⟩
    · by_cases he : m = dst
      · -- The true children of the top pair have just been added.
        subst he
        obtain rfl : src = n := Option.some.inj (hsrc.symm.trans hm)
        refine .inr ?_
        rw [hgain.below, hnone, List.nil_append, List.forall₂_iff_get]
        refine ⟨List.length_range'.symm, fun k hk _ => ?_⟩
        rw [List.get_eq_getElem, List.get_eq_getElem, List.getElem_range', Nat.one_mul]
        exact hnew (List.getElem?_eq_getElem hk)
      · rw [hgain.apart m (h.lt_size hm) he]
        rcases h.settled m n hm with hwait | hsettled
        · refine .inl (List.mem_append_right _ ((List.mem_cons.1 hwait).resolve_left ?_))
          exact fun hpair => he (Prod.mk.inj hpair).2
        · exact .inr (hsettled.imp fun _ _ => hkeep)
    · refine .inl (List.mem_append_left _ (List.mem_reverse.2 ?_))
      rw [List.mk_mem_zipIdx_iff_le_and_getElem?_sub, h.length, Nat.add_sub_cancel_left]
      exact ⟨Nat.le_add_right _ _, hk⟩

/-- With nothing left on the stack, every node has the copies of its true children. -/
theorem Copied.run (ht : t.WellFormed) {old : List Nat} {stack : List (Nat × Nat)}
    (h : Copied t old stack flat) (hrun : t.FlattensTo stack flat out) :
    ∃ all, Copied t all [] out := by
  induction hrun generalizing old with
  | done flat => exact ⟨old, h⟩
  | pop _ ih => exact ih (h.pop ht)

theorem Copied.isSwitched {old : List Nat} (h : Copied t old [] flat) {m : Nat}
    (hm : m < flat.size) (h0 : m ≠ 0) : flat.isSwitched m := by
  obtain ⟨p, c, hp, hlt, -⟩ := h.wellFormed.exists_parent hm h0
  have hplt : p < old.length := by
    have := h.length
    omega
  -- Nothing waits, so the copy hangs below its parent as that of a true child.
  have hbelow := (h.settled p _ (List.getElem?_eq_getElem hplt)).resolve_left nofun
  obtain ⟨hlength, hpairs⟩ := List.forall₂_iff_get.1 hbelow
  obtain ⟨k, hk, hkm⟩ := List.mem_iff_getElem.1 (h.wellFormed.mem_children_iff.2 hp)
  have hmn := hpairs k (hlength ▸ hk) hk
  rw [List.get_eq_getElem, List.get_eq_getElem, hkm] at hmn
  rw [isSwitched_eq, h.link m _ hmn, ← isSwitched_eq]
  exact isSwitched_of_mem_trueChildren (List.getElem_mem _)

theorem Copied.mirrors {old : List Nat} (h : Copied t old [] flat) :
    Mirrors (fun n m => old[m]? = some n) t flat where
  root := h.root
  wire n m := h.wire m n
  link n m := h.link m n
  below n m hm := by
    have hall : ∀ k ∈ flat.children m, flat.isSwitched k := fun k hk => by
      have hlt := h.wellFormed.lt_of_mem_children hk
      exact h.isSwitched hlt.2 (by omega)
    rw [trueChildren_eq_children hall]
    exact (h.settled m n hm).resolve_left nofun

theorem WellFormed.exists_copied (ht : t.WellFormed) : ∃ old, Copied t old [] t.flattened := by
  obtain ⟨w, hw⟩ := exists_wire ht.size_pos
  exact (Copied.ofRoot ht hw).run ht (ht.flattensTo hw)

/-! ## Mirrored trees flatten alike -/

theorem FlattensTo.unique {out' : RouteTree} {stack : List (Nat × Nat)}
    (h : t.FlattensTo stack flat out) (h' : t.FlattensTo stack flat out') : out = out' := by
  induction h with
  | done flat => cases h' with | done => rfl
  | pop _ ih => cases h' with | pop h' => exact ih h'

section Alike

variable {R : Nat → Nat → Prop}

theorem Mirrors.growAll (h : Mirrors R t u) {ns ms : List Nat} (hns : List.Forall₂ R ns ms)
    (dst : Nat) (flat : RouteTree) : (u.growAll dst flat ms).1 = (t.growAll dst flat ns).1 ∧
      List.Forall₂ (fun a b => R a.1 b.1 ∧ a.2 = b.2) (t.growAll dst flat ns).2
        (u.growAll dst flat ms).2 := by
  induction hns generalizing flat with
  | nil => exact ⟨rfl, .nil⟩
  | @cons n m ns ms hnm _ ih =>
    have hlink : (u.node? m).bind Node.link = (t.node? n).bind Node.link := h.link n m hnm
    unfold RouteTree.growAll
    rw [hlink]
    cases (t.node? n).bind Node.link with
    | none => exact ih flat
    | some c =>
      obtain ⟨hgrown, hadded⟩ := ih (flat.grow dst c)
      exact ⟨hgrown, .cons ⟨hnm, rfl⟩ hadded⟩

/-- From stacks that go together, both trees add the same. -/
theorem Mirrors.flattensTo (h : Mirrors R t u) {stack stack' : List (Nat × Nat)}
    (hstack : List.Forall₂ (fun a b => R a.1 b.1 ∧ a.2 = b.2) stack stack')
    (hrun : t.FlattensTo stack flat out) : u.FlattensTo stack' flat out := by
  induction hrun generalizing stack' with
  | done flat =>
    cases hstack
    exact .done flat
  | @pop src dst stack flat out _ ih =>
    obtain ⟨⟨src', dst'⟩, stack', ⟨hsrc, rfl⟩, hrest, rfl⟩ := List.forall₂_cons_left_iff.1 hstack
    obtain ⟨hgrown, hadded⟩ := h.growAll (h.below _ _ hsrc) dst flat
    refine .pop ?_
    rw [hgrown]
    exact ih (List.rel_append (List.rel_reverse hadded) hrest)

theorem Mirrors.flattened_eq (h : Mirrors R t u) (ht : t.WellFormed) (hu : u.WellFormed) :
    u.flattened = t.flattened := by
  obtain ⟨w, hw⟩ := exists_wire ht.size_pos
  have hw' : u.wire? 0 = some w := (h.wire 0 0 h.root).trans hw
  refine (hu.flattensTo hw').unique (h.flattensTo ?_ (ht.flattensTo hw))
  exact .cons ⟨h.root, rfl⟩ .nil

/-- Trees that mirror one another have the same switched hops, each as often. -/
theorem Mirrors.perm_hops (h : Mirrors R t u) (ht : t.WellFormed) (hu : u.WellFormed) :
    ((u.nodes.toList.filter Node.isSwitched).map fun n => (n.wire, n.link)).Perm
      ((t.nodes.toList.filter Node.isSwitched).map fun n => (n.wire, n.link)) := by
  have hnode : ∀ n m, R n m → (u.node? m).map (fun n => (n.wire, n.link)) =
      (t.node? n).map fun n => (n.wire, n.link) := by
    intro n m hnm
    have hwire := h.wire n m hnm
    have hlink := h.link n m hnm
    unfold wire? at hwire
    unfold link? at hlink
    cases hm : u.node? m <;> cases hn : t.node? n <;> simp_all
  have hsame : (u.preorder 0).map (fun m => (u.node? m).map fun n => (n.wire, n.link)) =
      (t.preorder 0).map fun n => (t.node? n).map fun n => (n.wire, n.link) := by
    rw [map_preorder hu, map_preorder ht]
    exact h.recurse ht hu (fun n m as hnm => by rw [hnode n m hnm]) h.root
  have hperm := ((perm_preorder hu).map _).symm.trans (hsame ▸ (perm_preorder ht).map _)
  rw [List.map_cons, List.map_cons, hnode 0 0 h.root] at hperm
  have hhops := hperm.cons_inv.filterMap id
  simp only [List.filterMap_map, Function.id_comp] at hhops
  rwa [← List.map_filterMap, ← List.map_filterMap, filterMap_node?_isSwitched,
    filterMap_node?_isSwitched] at hhops

end Alike

theorem filter_isSwitched_eq_tail (ht : t.WellFormed)
    (hall : ∀ i < t.size, i ≠ 0 → t.isSwitched i) :
    t.nodes.toList.filter Node.isSwitched = t.nodes.toList.tail := by
  obtain ⟨w, children, h0⟩ := ht.root
  have hnode : ∀ i, t.nodes.toList[i]? = t.node? i := fun i => t.nodes.getElem?_toList
  cases hlist : t.nodes.toList with
  | nil => simp [← hnode, hlist] at h0
  | cons root rest =>
    have hroot : ¬ root.isSwitched := by
      obtain rfl : root = ⟨w, none, none, children⟩ := by simpa [← hnode, hlist] using h0
      exact nofun
    rw [List.filter_cons_of_neg hroot, List.tail_cons, List.filter_eq_self]
    intro n hn
    obtain ⟨i, hi⟩ := List.mem_iff_getElem?.1 hn
    have hi' : t.node? (i + 1) = some n := by rw [← hnode, hlist, List.getElem?_cons_succ, hi]
    have hsw := hall (i + 1) (lt_size_of_node? hi') (Nat.succ_ne_zero i)
    rwa [isSwitched, hi', Option.any_some] at hsw

/-! ## What flattening keeps -/

/-- Flattening a flat tree changes nothing, not even the numbers. A flat tree has switched nodes
only, apart from its root, and these are on the wires of the switched nodes that it comes from and
are reached by their connections, each as often as there. -/
theorem Built.flattened_spec (h : t.Built) : t.flattened.flattened = t.flattened ∧
    (∀ i < t.flattened.size, i ≠ 0 → t.flattened.isSwitched i) ∧
    t.flattened.size = 1 + t.pipCount ∧ t.flattened.pipCount = t.pipCount ∧
    (t.flattened.nodes.toList.tail.map fun n => (n.wire, n.link)).Perm
      ((t.nodes.toList.filter Node.isSwitched).map fun n => (n.wire, n.link)) := by
  have ht := h.wellFormed
  obtain ⟨old, hcopied⟩ := ht.exists_copied
  have hflat := hcopied.wellFormed
  have hall : ∀ i < t.flattened.size, i ≠ 0 → t.flattened.isSwitched i :=
    fun i hi h0 => hcopied.isSwitched hi h0
  have htail := filter_isSwitched_eq_tail hflat hall
  have hperm := hcopied.mirrors.perm_hops ht hflat
  have hcount : t.flattened.pipCount = t.pipCount := by
    simpa [pipCount, List.countP_eq_length_filter] using hperm.length_eq
  refine ⟨hcopied.mirrors.flattened_eq ht hflat, hall, ?_, hcount, htail ▸ hperm⟩
  have hpos := hflat.size_pos
  rw [← hcount, pipCount, List.countP_eq_length_filter, htail, List.length_tail,
    Array.length_toList]
  unfold size at hpos ⊢
  omega

/-- The forked tree has three hops, two of them switched. Flattening it twice leaves the root and
these two. -/
theorem Built.flattened_spec_forked : forked.size = 4 ∧ forked.flattened.flattened.size = 3 ∧
    forked.flattened.isSwitched 1 ∧ forked.flattened.link? 1 = forked.link? 2 := by
  obtain ⟨htwice, hall, hsize, hcount, -⟩ := grown_forked.built.flattened_spec
  rw [htwice, hsize]
  exact ⟨rfl, rfl, hall 1 (by rw [hsize]; decide) (by decide), by decide +kernel⟩

end Fabric.RouteTree
