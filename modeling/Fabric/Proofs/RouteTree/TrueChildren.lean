import Fabric.Proofs.RouteTree.Renumbering
import Mathlib.Data.List.Shortlex
/-!
# True children

The true children of a node are the nearest nodes below it that switched connections lead to.
Each of them is at the end of exactly one way down, and they are listed by the length of these
ways, and among ways of one length by the places that their nodes have among the children.
-/

namespace Fabric.RouteTree

/-- The node that is reached from `n` by going to the child at each of these places in turn. -/
def follow? (t : RouteTree) (n : Nat) : List Nat → Option Nat
  | [] => some n
  | k :: ks => (t.children n)[k]?.bind (t.follow? · ks)

/-- Going down from `m` through nodes that are not switched, `d` is the first one that is. -/
inductive Surfaces (t : RouteTree) : Nat → Nat → Prop
  | here {d : Nat} (hd : t.isSwitched d) : Surfaces t d d
  | through {m c d : Nat} (hm : ¬ t.isSwitched m) (hc : c ∈ t.children m) (h : Surfaces t c d) :
      Surfaces t m d

variable {t : RouteTree}

/-! ## Ways down -/

theorem follow?_append (n : Nat) (ps qs : List Nat) :
    t.follow? n (ps ++ qs) = (t.follow? n ps).bind (t.follow? · qs) := by
  induction ps generalizing n with
  | nil => rfl
  | cons k ps ih =>
    simp only [List.cons_append, follow?, Option.bind_assoc, ih]

theorem follow?_concat {n m c k : Nat} {ps : List Nat} (hm : t.follow? n ps = some m)
    (hc : (t.children m)[k]? = some c) : t.follow? n (ps ++ [k]) = some c := by
  rw [follow?_append, hm, Option.bind_some, follow?, hc]
  rfl

theorem exists_of_follow?_concat {n d k : Nat} {ps : List Nat}
    (h : t.follow? n (ps ++ [k]) = some d) :
    ∃ m, t.follow? n ps = some m ∧ (t.children m)[k]? = some d := by
  rw [follow?_append, Option.bind_eq_some_iff] at h
  obtain ⟨m, hm, hd⟩ := h
  obtain ⟨c, hc, hcd⟩ := Option.bind_eq_some_iff.1 hd
  cases hcd
  exact ⟨m, hm, hc⟩

theorem reflTransGen_of_follow? (ht : t.WellFormed) {n d : Nat} {ps : List Nat}
    (h : t.follow? n ps = some d) : Relation.ReflTransGen t.ChildOf d n := by
  induction ps generalizing n with
  | nil =>
    cases h
    exact .refl
  | cons k ps ih =>
    obtain ⟨c, hc, hd⟩ := Option.bind_eq_some_iff.1 h
    exact (ih hd).tail (ht.mem_children_iff.1 (List.mem_of_getElem? hc))

theorem le_of_reflTransGen (ht : t.WellFormed) {d n : Nat}
    (h : Relation.ReflTransGen t.ChildOf d n) : n ≤ d := by
  induction h with
  | refl => exact Nat.le_refl _
  | tail _ hp ih => exact Nat.le_trans (Nat.le_of_lt (ht.parent_lt hp)) ih

theorem lt_of_transGen (ht : t.WellFormed) {d n : Nat}
    (h : Relation.TransGen t.ChildOf d n) : n < d := by
  obtain ⟨p, hp, hn⟩ := Relation.TransGen.head'_iff.1 h
  exact Nat.lt_of_le_of_lt (le_of_reflTransGen ht hn) (ht.parent_lt hp)

/-- Each node below another one is at the end of a single way down from there. -/
theorem follow?_unique (ht : t.WellFormed) {n d : Nat} {ps qs : List Nat}
    (hp : t.follow? n ps = some d) (hq : t.follow? n qs = some d) : ps = qs := by
  induction ps using List.reverseRecOn generalizing qs d with
  | nil =>
    cases hp
    cases qs with
    | nil => rfl
    | cons k qs =>
      obtain ⟨c, hc, hback⟩ := Option.bind_eq_some_iff.1 hq
      have hlt := (ht.lt_of_mem_children (List.mem_of_getElem? hc)).1
      have hle := le_of_reflTransGen ht (reflTransGen_of_follow? ht hback)
      omega
  | append_singleton ps k ih =>
    obtain ⟨m, hm, hk⟩ := exists_of_follow?_concat hp
    have hmd := ht.mem_children_iff.1 (List.mem_of_getElem? hk)
    cases qs using List.reverseRecOn with
    | nil =>
      cases hq
      have hlt := ht.parent_lt hmd
      have hle := le_of_reflTransGen ht (reflTransGen_of_follow? ht hm)
      omega
    | append_singleton qs l _ =>
      obtain ⟨m', hm', hl⟩ := exists_of_follow?_concat hq
      have hmd' := ht.mem_children_iff.1 (List.mem_of_getElem? hl)
      obtain rfl : m = m' := Option.some.inj (hmd.symm.trans hmd')
      have hlt : k < (t.children m).length := (List.getElem?_eq_some_iff.1 hk).1
      have hnodup := (ht.children_pairwise m).nodup
      obtain rfl : k = l := (List.getElem?_inj hlt hnodup).1 (hk.trans hl.symm)
      rw [ih hm hm']

/-! ## Nearest switched nodes -/

theorem above_total {a b d : Nat} (ha : Relation.ReflTransGen t.ChildOf d a)
    (hb : Relation.ReflTransGen t.ChildOf d b) :
    Relation.ReflTransGen t.ChildOf a b ∨ Relation.ReflTransGen t.ChildOf b a :=
  Relation.ReflTransGen.total_of_right_unique
    (fun _ _ _ hp hq => Option.some.inj (hp.symm.trans hq)) ha hb

theorem eq_or_above_parent {c m x : Nat} (hcm : t.ChildOf c m)
    (hcx : Relation.ReflTransGen t.ChildOf c x) :
    x = c ∨ Relation.ReflTransGen t.ChildOf m x := by
  rcases Relation.ReflTransGen.cases_head hcx with rfl | ⟨m', hm', hx⟩
  · exact .inl rfl
  · obtain rfl : m' = m := Option.some.inj (hm'.symm.trans hcm)
    exact .inr hx

theorem surfaces_iff (ht : t.WellFormed) {m d : Nat} :
    t.Surfaces m d ↔ t.isSwitched d ∧ Relation.ReflTransGen t.ChildOf d m ∧
      ∀ x, Relation.ReflTransGen t.ChildOf x m → Relation.TransGen t.ChildOf d x →
        ¬ t.isSwitched x := by
  constructor
  · intro h
    induction h with
    | here hd =>
      refine ⟨hd, .refl, fun x hx hdx => ?_⟩
      have hle := le_of_reflTransGen ht hx
      have hlt := lt_of_transGen ht hdx
      omega
    | @through m c d hm hc h ih =>
      obtain ⟨hd, hdc, hplain⟩ := ih
      have hcm := ht.mem_children_iff.1 hc
      refine ⟨hd, hdc.tail hcm, fun x hxm hdx => ?_⟩
      rcases above_total hdx.to_reflTransGen hdc with hxc | hcx
      · exact hplain x hxc hdx
      · -- Above `c` and not above `m` there is only `m`.
        rcases eq_or_above_parent hcm hcx with rfl | hmx
        · exact hplain x .refl hdx
        · have hle := le_of_reflTransGen ht hxm
          have hle' := le_of_reflTransGen ht hmx
          obtain rfl : x = m := by omega
          exact hm
  · rintro ⟨hd, hdm, hplain⟩
    induction hdm with
    | refl => exact .here hd
    | @tail c m hdc hcm ih =>
      have hbelow : Relation.TransGen t.ChildOf d m := .tail' hdc hcm
      refine .through (hplain m .refl hbelow) (ht.mem_children_iff.2 hcm) ?_
      exact ih fun x hx hdx => hplain x (hx.tail hcm) hdx

theorem mem_switchedFrom_iff (ht : t.WellFormed) {depth : Nat} {level : List Nat}
    (hlevel : t.InDepth depth level) {d : Nat} :
    d ∈ t.switchedFrom depth level ↔ ∃ m ∈ level, t.Surfaces m d := by
  induction depth generalizing level with
  | zero => simp [hlevel.eq_nil]
  | succ depth ih =>
    rw [switchedFrom_succ, List.mem_append, ih (hlevel.next ht)]
    constructor
    · rintro (hd | ⟨c, hc, hcd⟩)
      · obtain ⟨hd, hsw⟩ := List.mem_filter.1 hd
        exact ⟨d, hd, .here hsw⟩
      · obtain ⟨m, hm, hc⟩ := List.mem_flatMap.1 hc
        obtain ⟨hm, hplain⟩ := List.mem_filter.1 hm
        exact ⟨m, hm, .through (by simpa using hplain) hc hcd⟩
    · rintro ⟨m, hm, hmd⟩
      cases hmd with
      | here hd => exact .inl (List.mem_filter.2 ⟨hm, hd⟩)
      | through hplain hc hcd =>
        exact .inr ⟨_, List.mem_flatMap.2 ⟨m, List.mem_filter.2 ⟨hm, by simpa using hplain⟩, hc⟩,
          hcd⟩

/-- The true children are the switched nodes below with nothing switched in between. -/
theorem mem_trueChildren_iff (ht : t.WellFormed) {n d : Nat} :
    d ∈ t.trueChildren n ↔ t.isSwitched d ∧ Relation.TransGen t.ChildOf d n ∧
      ∀ x, Relation.TransGen t.ChildOf x n → Relation.TransGen t.ChildOf d x →
        ¬ t.isSwitched x := by
  rw [trueChildren, mem_switchedFrom_iff ht (inDepth_children ht n)]
  constructor
  · rintro ⟨c, hc, hcd⟩
    obtain ⟨hd, hdc, hplain⟩ := (surfaces_iff ht).1 hcd
    have hcn := ht.mem_children_iff.1 hc
    refine ⟨hd, .tail' hdc hcn, fun x hxn hdx => ?_⟩
    rcases above_total hdx.to_reflTransGen hdc with hxc | hcx
    · exact hplain x hxc hdx
    · rcases eq_or_above_parent hcn hcx with rfl | hnx
      · exact hplain x .refl hdx
      · have hlt := lt_of_transGen ht hxn
        have hle := le_of_reflTransGen ht hnx
        omega
  · rintro ⟨hd, hdn, hplain⟩
    obtain ⟨c, hdc, hcn⟩ := Relation.TransGen.tail'_iff.1 hdn
    refine ⟨c, ht.mem_children_iff.2 hcn, (surfaces_iff ht).2 ⟨hd, hdc, fun x hx hdx => ?_⟩⟩
    exact hplain x (.tail' hx hcn) hdx

/-! ## The order of the list -/

/-- Both nodes are reached from `n` by ways of length `k`, and the way to the first of them turns
off to an earlier child. -/
def Before (t : RouteTree) (n k : Nat) (a b : Nat) : Prop :=
  ∃ ps qs, t.follow? n ps = some a ∧ t.follow? n qs = some b ∧ ps.length = k ∧ qs.length = k ∧
    List.Lex (· < ·) ps qs

def Precedes (t : RouteTree) (n : Nat) (a b : Nat) : Prop :=
  ∃ ps qs, t.follow? n ps = some a ∧ t.follow? n qs = some b ∧ List.Shortlex (· < ·) ps qs

theorem Before.precedes {n k a b : Nat} (h : t.Before n k a b) : t.Precedes n a b := by
  obtain ⟨ps, qs, ha, hb, hp, hq, hlex⟩ := h
  exact ⟨ps, qs, ha, hb, .of_lex (hp.trans hq.symm) hlex⟩

/-- Two ways of one length that have turned off from one another never meet again. -/
theorem lex_append {α : Type} {r : α → α → Prop} {ps qs : List α} (h : List.Lex r ps qs)
    (hlen : ps.length = qs.length) (as bs : List α) : List.Lex r (ps ++ as) (qs ++ bs) := by
  induction h with
  | nil => simp at hlen
  | rel h => exact .rel h
  | cons _ ih => exact .cons (ih (by simpa using hlen))

theorem pairwise_flatMap_children {n k : Nat} {level : List Nat}
    (hreach : ∀ m ∈ level, ∃ ps, t.follow? n ps = some m ∧ ps.length = k)
    (hlevel : level.Pairwise (t.Before n k)) :
    (level.flatMap t.children).Pairwise (t.Before n (k + 1)) := by
  rw [List.pairwise_flatMap]
  -- Children of one node go by their places, those of two nodes by the ways to the nodes.
  constructor
  · intro m hm
    obtain ⟨ps, hps, hk⟩ := hreach m hm
    rw [List.pairwise_iff_getElem]
    intro i j hi hj hij
    exact ⟨ps ++ [i], ps ++ [j], follow?_concat hps (List.getElem?_eq_getElem hi),
      follow?_concat hps (List.getElem?_eq_getElem hj), by simp [hk], by simp [hk],
      List.Lex.append_left _ (.rel hij) ps⟩
  · refine hlevel.imp fun {a b} hab c hc d hd => ?_
    obtain ⟨ps, qs, ha, hb, hp, hq, hlex⟩ := hab
    obtain ⟨i, hi⟩ := List.mem_iff_getElem?.1 hc
    obtain ⟨j, hj⟩ := List.mem_iff_getElem?.1 hd
    exact ⟨ps ++ [i], qs ++ [j], follow?_concat ha hi, follow?_concat hb hj, by simp [hp],
      by simp [hq], lex_append hlex (hp.trans hq.symm) _ _⟩

theorem exists_of_mem_flatMap_children {n k : Nat} {level : List Nat}
    (hreach : ∀ m ∈ level, ∃ ps, t.follow? n ps = some m ∧ ps.length = k) :
    ∀ c ∈ level.flatMap t.children, ∃ ps, t.follow? n ps = some c ∧ ps.length = k + 1 := by
  intro c hc
  obtain ⟨m, hm, hc⟩ := List.mem_flatMap.1 hc
  obtain ⟨ps, hps, hk⟩ := hreach m hm
  obtain ⟨i, hi⟩ := List.mem_iff_getElem?.1 hc
  exact ⟨ps ++ [i], follow?_concat hps hi, by simp [hk]⟩

/-- What is found from a level on is in order, and no way to it is shorter than those to the
level. -/
theorem pairwise_switchedFrom {n depth k : Nat} {level : List Nat}
    (hreach : ∀ m ∈ level, ∃ ps, t.follow? n ps = some m ∧ ps.length = k)
    (hlevel : level.Pairwise (t.Before n k)) :
    (∀ d ∈ t.switchedFrom depth level, ∃ ps, t.follow? n ps = some d ∧ k ≤ ps.length) ∧
      (t.switchedFrom depth level).Pairwise (t.Precedes n) := by
  induction depth generalizing k level with
  | zero => simp [switchedFrom]
  | succ depth ih =>
    have hplain : ∀ m ∈ level.filter fun m => !t.isSwitched m,
        ∃ ps, t.follow? n ps = some m ∧ ps.length = k := fun m hm =>
      hreach m (List.mem_filter.1 hm).1
    obtain ⟨hlater, hrest⟩ := ih (exists_of_mem_flatMap_children hplain)
      (pairwise_flatMap_children hplain (hlevel.filter _))
    rw [switchedFrom_succ]
    constructor
    · intro d hd
      rcases List.mem_append.1 hd with hd | hd
      · obtain ⟨ps, hps, hk⟩ := hreach d (List.mem_filter.1 hd).1
        exact ⟨ps, hps, Nat.le_of_eq hk.symm⟩
      · obtain ⟨ps, hps, hk⟩ := hlater d hd
        exact ⟨ps, hps, by omega⟩
    · refine List.pairwise_append.2
        ⟨(hlevel.filter _).imp fun h => h.precedes, hrest, fun a ha b hb => ?_⟩
      obtain ⟨ps, hps, hk⟩ := hreach a (List.mem_filter.1 ha).1
      obtain ⟨qs, hqs, hk'⟩ := hlater b hb
      exact ⟨ps, qs, hps, hqs, .of_length_lt (by omega)⟩

theorem pairwise_trueChildren (n : Nat) : (t.trueChildren n).Pairwise (t.Precedes n) := by
  have hself : ∀ m ∈ [n], ∃ ps, t.follow? n ps = some m ∧ ps.length = 0 := by
    simp [follow?]
  have hchildren : t.children n = [n].flatMap t.children := by simp
  rw [trueChildren, hchildren]
  exact (pairwise_switchedFrom (exists_of_mem_flatMap_children hself)
    (pairwise_flatMap_children hself (List.pairwise_singleton _ _))).2

theorem nodup_trueChildren (ht : t.WellFormed) (n : Nat) : (t.trueChildren n).Nodup := by
  refine (pairwise_trueChildren n).imp fun {a b} hab he => ?_
  obtain ⟨ps, qs, ha, hb, hlex⟩ := hab
  subst he
  obtain rfl := follow?_unique ht ha hb
  exact irrefl_of (List.Shortlex (· < ·)) ps hlex

/-! ## Exactly the nearest switched nodes -/

/-- For every node of a tree, the queue that begins with its children runs empty and gives its true
children. Each of them is listed once; they are the nodes below it that are reached by a switched
connection and have only plain ones in between. The list follows the ways down to them: fewer hops
come first, and among equals the places that the nodes on the way have among the children. There is
one way down to each node. -/
theorem Built.trueChildren_spec (h : t.Built) {n : Nat} (hn : n < t.size) :
    t.trueChildren? n = some (t.trueChildren n) ∧ t.Lists (t.children n) (t.trueChildren n) ∧
    (t.trueChildren n).Nodup ∧
    (∀ d, d ∈ t.trueChildren n ↔ Relation.TransGen t.ChildOf d n ∧ t.isSwitched d ∧
      ∀ x, Relation.TransGen t.ChildOf x n → Relation.TransGen t.ChildOf d x →
        ¬ t.isSwitched x) ∧
    (t.trueChildren n).Pairwise (fun a b => ∃ ps qs, t.follow? n ps = some a ∧
      t.follow? n qs = some b ∧
        (ps.length < qs.length ∨ ps.length = qs.length ∧ List.Lex (· < ·) ps qs)) ∧
    ∀ d ps qs, t.follow? n ps = some d → t.follow? n qs = some d → ps = qs := by
  have ht := h.wellFormed
  refine ⟨?_, lists_trueChildren ht n, nodup_trueChildren ht n, fun d => ?_,
    (pairwise_trueChildren n).imp fun {a b} hab => ?_, fun d ps qs hp hq => follow?_unique ht hp hq⟩
  · obtain ⟨m, hm⟩ := exists_node hn
    rw [trueChildren?, hm, Option.map_some]
  · rw [mem_trueChildren_iff ht]
    exact and_left_comm
  · obtain ⟨ps, qs, ha, hb, hlex⟩ := hab
    exact ⟨ps, qs, ha, hb, List.shortlex_def.1 hlex⟩

/-- In the forked tree, both ends are true children of the root, past the plain wire. -/
theorem Built.trueChildren_spec_forked : forked.trueChildren 0 = [2, 3] ∧
    Relation.TransGen forked.ChildOf 3 0 ∧ ¬ forked.isSwitched 1 ∧
    forked.follow? 0 [0, 1] = some 3 := by
  have hlist : forked.trueChildren 0 = [2, 3] := by decide +kernel
  obtain ⟨-, -, -, hmem, -⟩ := grown_forked.built.trueChildren_spec (n := 0) (by decide)
  obtain ⟨hbelow, -, hplain⟩ := (hmem 3).1 (by rw [hlist]; simp)
  refine ⟨hlist, hbelow, hplain 1 (.single rfl) (.single rfl), rfl⟩

/-- A switched hop right below the root comes before those past the plain wire. -/
example : (forked.grow 0 ⟨.tile ⟨0⟩ ⟨0⟩, .tile ⟨0⟩ ⟨4⟩, .pip⟩).trueChildren 0 = [4, 2, 3] := by
  decide +kernel

end Fabric.RouteTree
