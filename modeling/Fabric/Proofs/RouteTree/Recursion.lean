import Fabric.Proofs.RouteTree.TrueChildren
import Mathlib.Data.List.Forall2
import Mathlib.Data.List.Perm.Basic
/-!
# Recursion over true children

Something is worked out for a node from what has been worked out for its true children. From the
root, such a recursion comes to every switched node once, and two trees whose nodes go together
with their true children give the same.
-/

namespace Fabric.RouteTree

variable {α β : Type}

/-- What `f` makes of a node and of what it has made of the true children. The bounds hold in
well-formed trees. -/
def recurse (t : RouteTree) (f : Nat → List α → α) (n : Nat) : α :=
  f n (((t.trueChildren n).filter fun m => n < m ∧ m < t.size).attach.map
    fun m => t.recurse f m.1)
termination_by t.size - n
decreasing_by
  have hm := (List.mem_filter.1 m.2).2
  simp only [decide_eq_true_eq] at hm
  omega

def preorder (t : RouteTree) (n : Nat) : List Nat := t.recurse (fun m below => m :: below.flatten) n

variable {t u : RouteTree}

/-! ## Equations -/

theorem recurse_eq (ht : t.WellFormed) (f : Nat → List α → α) (n : Nat) :
    t.recurse f n = f n ((t.trueChildren n).map (t.recurse f)) := by
  have hall : (t.trueChildren n).filter (fun m => n < m ∧ m < t.size) = t.trueChildren n :=
    List.filter_eq_self.2 fun m hm => decide_eq_true (lt_of_mem_trueChildren ht hm)
  rw [recurse, List.attach_map_val, hall]

/-- What holds of a node where it holds of its true children holds of every node. -/
theorem WellFormed.down (ht : t.WellFormed) {P : Nat → Prop}
    (h : ∀ n, (∀ m ∈ t.trueChildren n, P m) → P n) (n : Nat) : P n := by
  induction hk : t.size - n using Nat.strongRecOn generalizing n with
  | ind k ih =>
    refine h n fun m hm => ih (t.size - m) ?_ m rfl
    have hlt := lt_of_mem_trueChildren ht hm
    omega

/-- A function of what a recursion gives is a recursion itself. -/
theorem map_recurse (ht : t.WellFormed) {f : Nat → List α → α} {g : Nat → List β → β} {h : α → β}
    (hfg : ∀ n as, h (f n as) = g n (as.map h)) (n : Nat) :
    h (t.recurse f n) = t.recurse g n := by
  induction n using ht.down with
  | h n ih =>
    rw [recurse_eq ht f, recurse_eq ht g, hfg, List.map_map]
    exact congrArg (g n) (List.map_congr_left ih)

theorem preorder_eq (ht : t.WellFormed) (n : Nat) :
    t.preorder n = n :: (t.trueChildren n).flatMap t.preorder :=
  recurse_eq ht _ n

theorem map_preorder (ht : t.WellFormed) (f : Nat → α) (n : Nat) :
    (t.preorder n).map f = t.recurse (fun m below => f m :: below.flatten) n :=
  map_recurse ht (h := List.map f) (fun m below => by rw [List.map_cons, List.map_flatten]) n

/-! ## Every switched node once -/

theorem exists_trueChild_above (ht : t.WellFormed) {n d : Nat} (hd : t.isSwitched d)
    (hdn : Relation.TransGen t.ChildOf d n) :
    ∃ m ∈ t.trueChildren n, Relation.ReflTransGen t.ChildOf d m := by
  induction d using Nat.strongRecOn with
  | ind d ih =>
    -- Either nothing switched is in between, or what is there has a smaller number.
    by_cases hplain : ∀ x, Relation.TransGen t.ChildOf x n → Relation.TransGen t.ChildOf d x →
        ¬ t.isSwitched x
    · exact ⟨d, (mem_trueChildren_iff ht).2 ⟨hd, hdn, hplain⟩, .refl⟩
    · push Not at hplain
      obtain ⟨x, hxn, hdx, hx⟩ := hplain
      obtain ⟨m, hm, hxm⟩ := ih x (lt_of_transGen ht hdx) hx hxn
      exact ⟨m, hm, hdx.to_reflTransGen.trans hxm⟩

theorem below_root (ht : t.WellFormed) {i : Nat} (hi : i < t.size) (h0 : i ≠ 0) :
    Relation.TransGen t.ChildOf i 0 := by
  induction i using Nat.strongRecOn with
  | ind i ih =>
    obtain ⟨p, c, hp, hlt, -⟩ := ht.exists_parent hi h0
    by_cases hp0 : p = 0
    · exact .single (hp0 ▸ hp)
    · exact .head hp (ih p hlt (by omega) hp0)

theorem mem_preorder_iff (ht : t.WellFormed) {n d : Nat} :
    d ∈ t.preorder n ↔ d = n ∨ t.isSwitched d ∧ Relation.TransGen t.ChildOf d n := by
  induction n using ht.down with
  | h n ih =>
    rw [preorder_eq ht, List.mem_cons, List.mem_flatMap]
    refine or_congr_right ⟨?_, ?_⟩
    · rintro ⟨m, hm, hd⟩
      obtain ⟨hsw, hmn, -⟩ := (mem_trueChildren_iff ht).1 hm
      rcases (ih m hm).1 hd with rfl | ⟨hd, hdm⟩
      · exact ⟨hsw, hmn⟩
      · exact ⟨hd, hdm.trans hmn⟩
    · rintro ⟨hd, hdn⟩
      obtain ⟨m, hm, hdm⟩ := exists_trueChild_above ht hd hdn
      refine ⟨m, hm, (ih m hm).2 ?_⟩
      rcases Relation.reflTransGen_iff_eq_or_transGen.1 hdm with he | hdm
      · exact .inl he.symm
      · exact .inr ⟨hd, hdm⟩

theorem above_of_mem_preorder (ht : t.WellFormed) {n d : Nat} (h : d ∈ t.preorder n) :
    Relation.ReflTransGen t.ChildOf d n := by
  rcases (mem_preorder_iff ht).1 h with rfl | ⟨-, hdn⟩
  · exact .refl
  · exact hdn.to_reflTransGen

theorem not_below_trueChild (ht : t.WellFormed) {n a b : Nat} (ha : a ∈ t.trueChildren n)
    (hb : b ∈ t.trueChildren n) : ¬ Relation.TransGen t.ChildOf a b := by
  obtain ⟨-, -, hplain⟩ := (mem_trueChildren_iff ht).1 ha
  obtain ⟨hb, hbn, -⟩ := (mem_trueChildren_iff ht).1 hb
  exact fun hab => hplain b hbn hab hb

theorem nodup_preorder (ht : t.WellFormed) (n : Nat) : (t.preorder n).Nodup := by
  induction n using ht.down with
  | h n ih =>
    rw [preorder_eq ht, List.nodup_cons, List.mem_flatMap, List.nodup_flatMap]
    refine ⟨?_, ih, (nodup_trueChildren ht n).pairwise_of_forall_ne
      fun a ha b hb hne d hda hdb => ?_⟩
    · rintro ⟨m, hm, hn⟩
      have hlt := lt_of_mem_trueChildren ht hm
      have hle := le_of_reflTransGen ht (above_of_mem_preorder ht hn)
      omega
    · -- Of two nodes above `d` one is above the other.
      rcases above_total (above_of_mem_preorder ht hda) (above_of_mem_preorder ht hdb) with h | h
      · rcases Relation.reflTransGen_iff_eq_or_transGen.1 h with he | h
        · exact hne he.symm
        · exact not_below_trueChild ht ha hb h
      · rcases Relation.reflTransGen_iff_eq_or_transGen.1 h with he | h
        · exact hne he
        · exact not_below_trueChild ht hb ha h

theorem not_isSwitched_root (ht : t.WellFormed) : ¬ t.isSwitched 0 := by
  obtain ⟨w, children, h0⟩ := ht.root
  rw [isSwitched, h0]
  exact nofun

/-- From the root, the recursion comes to the root and to all switched nodes. -/
theorem perm_preorder (ht : t.WellFormed) :
    (t.preorder 0).Perm (0 :: (List.range t.size).filter t.isSwitched) := by
  have hnodup : (0 :: (List.range t.size).filter t.isSwitched).Nodup :=
    List.nodup_cons.2 ⟨fun h0 => not_isSwitched_root ht (List.mem_filter.1 h0).2,
      List.nodup_range.filter _⟩
  refine (List.perm_ext_iff_of_nodup (nodup_preorder ht 0) hnodup).2 fun d => ?_
  rw [mem_preorder_iff ht, List.mem_cons, List.mem_filter, List.mem_range]
  refine or_congr_right ⟨?_, ?_⟩
  · rintro ⟨hd, hbelow⟩
    obtain ⟨p, hp, -⟩ := Relation.TransGen.head'_iff.1 hbelow
    exact ⟨lt_size_of_parent? hp, hd⟩
  · rintro ⟨hlt, hd⟩
    refine ⟨hd, below_root ht hlt ?_⟩
    rintro rfl
    exact not_isSwitched_root ht hd

/-! ## Nodes of the array -/

theorem filterMap_node?_range (t : RouteTree) :
    (List.range t.size).filterMap t.node? = t.nodes.toList := by
  have hsome : (List.range t.size).map t.node? = t.nodes.toList.map some := by
    refine List.ext_getElem? fun i => ?_
    rw [List.getElem?_map, List.getElem?_map, t.nodes.getElem?_toList]
    by_cases hi : i < t.size
    · obtain ⟨n, hn⟩ := exists_node hi
      have hn' : t.nodes[i]? = some n := hn
      rw [List.getElem?_range hi, Option.map_some, hn, hn', Option.map_some]
    · rw [List.getElem?_eq_none (by simpa using hi), Array.getElem?_eq_none (Nat.le_of_not_lt hi)]
      rfl
  calc (List.range t.size).filterMap t.node?
      = ((List.range t.size).map t.node?).filterMap id := by rw [List.filterMap_map]; rfl
    _ = t.nodes.toList := by rw [hsome, List.filterMap_map]; exact List.filterMap_some

theorem filterMap_node?_isSwitched (t : RouteTree) :
    ((List.range t.size).filter t.isSwitched).filterMap t.node? =
      t.nodes.toList.filter Node.isSwitched := by
  rw [← filterMap_node?_range, List.filter_filterMap, List.filterMap_filter]
  refine List.filterMap_congr fun i _ => ?_
  unfold isSwitched
  cases t.node? i with
  | none => simp
  | some n => by_cases hn : n.isSwitched <;> simp [Option.filter, hn]

theorem length_preorder (ht : t.WellFormed) : (t.preorder 0).length = 1 + t.pipCount := by
  have hnodes : ∀ i ∈ (List.range t.size).filter t.isSwitched, (t.node? i).isSome := fun i hi =>
    node?_isSome.2 (List.mem_range.1 (List.mem_filter.1 hi).1)
  have hcount := congrArg List.length (filterMap_node?_isSwitched t)
  rw [List.length_filterMap_eq_countP, List.countP_eq_length.2 hnodes] at hcount
  rw [(perm_preorder ht).length_eq, List.length_cons, hcount, pipCount,
    List.countP_eq_length_filter]
  exact Nat.add_comm _ 1

/-! ## Trees that mirror one another -/

/-- `R` pairs the roots, and with two nodes it pairs their true children in order. Two nodes of a
pair are on one wire and are reached by one connection. -/
structure Mirrors (R : Nat → Nat → Prop) (t u : RouteTree) : Prop where
  root : R 0 0
  wire : ∀ n m, R n m → u.wire? m = t.wire? n
  link : ∀ n m, R n m → u.link? m = t.link? n
  below : ∀ n m, R n m → List.Forall₂ R (t.trueChildren n) (u.trueChildren m)

/-- Recursions that make the same of both nodes of a pair give the same for them. -/
theorem Mirrors.recurse {R : Nat → Nat → Prop} (h : Mirrors R t u) (ht : t.WellFormed)
    (hu : u.WellFormed) {f g : Nat → List α → α} (hfg : ∀ n m as, R n m → g m as = f n as)
    {n m : Nat} (hnm : R n m) : u.recurse g m = t.recurse f n := by
  induction n using ht.down generalizing m with
  | h n ih =>
    have hbelow : (u.trueChildren m).map (u.recurse g) = (t.trueChildren n).map (t.recurse f) := by
      rw [← List.forall₂_eq_eq_eq, List.forall₂_map_left_iff, List.forall₂_map_right_iff]
      refine ((List.forall₂_and_left _ _).2 ⟨ih, h.below n m hnm⟩).flip.imp ?_
      exact fun m' n' hpair => hpair.1 hpair.2
    rw [recurse_eq ht, recurse_eq hu, hbelow]
    exact hfg n m _ hnm

end Fabric.RouteTree
