import Fabric.Key
import Mathlib.Data.List.Induction
/-!
# The last of several entries

Where several entries of a list are for one key, a table that is made from the list holds the last.
-/

namespace Fabric

variable {α β : Type}

def IsLastAt (kind : α → Prop) (as : List α) (i : Nat) : Prop :=
  (∃ a, as[i]? = some a ∧ kind a) ∧ ∀ j a, i < j → as[j]? = some a → ¬ kind a

namespace IsLastAt

variable {kind kind' : α → Prop} {as bs : List α} {i j : Nat}

theorem lt_length (h : IsLastAt kind as i) : i < as.length := by
  obtain ⟨⟨a, ha, -⟩, -⟩ := h
  exact (List.getElem?_eq_some_iff.1 ha).1

theorem nil : ¬ IsLastAt kind [] i := fun h => Nat.not_lt_zero i h.lt_length

theorem congr (h : ∀ a ∈ as, kind a ↔ kind' a) : IsLastAt kind as i ↔ IsLastAt kind' as i := by
  refine and_congr (exists_congr fun a => and_congr_right fun ha => ?_)
    (forall_congr' fun j => forall_congr' fun a => imp_congr_right fun _ =>
      imp_congr_right fun ha => ?_)
  · exact h a (List.mem_of_getElem? ha)
  · rw [h a (List.mem_of_getElem? ha)]

theorem map (f : β → α) (bs : List β) :
    IsLastAt kind (bs.map f) i ↔ IsLastAt (fun b => kind (f b)) bs i := by
  unfold IsLastAt
  simp only [List.getElem?_map, Option.map_eq_some_iff]
  constructor
  · rintro ⟨⟨a, ⟨b, hb, rfl⟩, hkind⟩, hlast⟩
    exact ⟨⟨b, hb, hkind⟩, fun j b' hj hb' => hlast j _ hj ⟨b', hb', rfl⟩⟩
  · rintro ⟨⟨b, hb, hkind⟩, hlast⟩
    refine ⟨⟨f b, ⟨b, hb, rfl⟩, hkind⟩, ?_⟩
    rintro j _ hj ⟨b', hb', rfl⟩
    exact hlast j b' hj hb'

theorem append_left (has : ∀ a ∈ as, ¬ kind a) :
    IsLastAt kind (as ++ bs) i ↔ ∃ j, i = as.length + j ∧ IsLastAt kind bs j := by
  constructor
  · rintro ⟨⟨a, ha, hkind⟩, hlast⟩
    rcases Nat.lt_or_ge i as.length with hi | hi
    · rw [List.getElem?_append_left hi] at ha
      exact absurd hkind (has a (List.mem_of_getElem? ha))
    · obtain ⟨j, rfl⟩ := Nat.exists_eq_add_of_le hi
      rw [List.getElem?_append_right hi, Nat.add_sub_cancel_left] at ha
      refine ⟨j, rfl, ⟨a, ha, hkind⟩, fun k b hk hb => hlast (as.length + k) b (by omega) ?_⟩
      rw [List.getElem?_append_right (by omega), Nat.add_sub_cancel_left]
      exact hb
  · rintro ⟨j, rfl, ⟨a, ha, hkind⟩, hlast⟩
    refine ⟨⟨a, ?_, hkind⟩, fun k b hk hb => hlast (k - as.length) b (by omega) ?_⟩
    · rw [List.getElem?_append_right (by omega), Nat.add_sub_cancel_left]
      exact ha
    · rw [List.getElem?_append_right (by omega)] at hb
      exact hb

theorem append_right (hbs : ∀ b ∈ bs, ¬ kind b) :
    IsLastAt kind (as ++ bs) i ↔ IsLastAt kind as i := by
  constructor
  · rintro ⟨⟨a, ha, hkind⟩, hlast⟩
    rcases Nat.lt_or_ge i as.length with hi | hi
    · rw [List.getElem?_append_left hi] at ha
      refine ⟨⟨a, ha, hkind⟩, fun j b hj hb => hlast j b hj ?_⟩
      rw [List.getElem?_append_left (List.getElem?_eq_some_iff.1 hb).1]
      exact hb
    · rw [List.getElem?_append_right hi] at ha
      exact absurd hkind (hbs a (List.mem_of_getElem? ha))
  · intro h
    have hi := h.lt_length
    obtain ⟨⟨a, ha, hkind⟩, hlast⟩ := h
    refine ⟨⟨a, ?_, hkind⟩, fun j b hj hb => ?_⟩
    · rw [List.getElem?_append_left hi]
      exact ha
    · rcases Nat.lt_or_ge j as.length with hlt | hge
      · rw [List.getElem?_append_left hlt] at hb
        exact hlast j b hj hb
      · rw [List.getElem?_append_right hge] at hb
        exact hbs b (List.mem_of_getElem? hb)

theorem concat (a : α) :
    IsLastAt kind (as ++ [a]) i ↔ kind a ∧ i = as.length ∨ ¬ kind a ∧ IsLastAt kind as i := by
  have hplace : (as ++ [a])[as.length]? = some a := by simp
  by_cases ha : kind a
  · simp only [ha, true_and, not_true, false_and, or_false]
    constructor
    · intro h
      by_contra hne
      have hlt := h.lt_length
      rw [List.length_append, List.length_singleton] at hlt
      exact h.2 as.length a (by omega) hplace ha
    · rintro rfl
      refine ⟨⟨a, hplace, ha⟩, fun j b hj hb => ?_⟩
      have hlt := (List.getElem?_eq_some_iff.1 hb).1
      rw [List.length_append, List.length_singleton] at hlt
      omega
  · simp only [ha, false_and, not_false_iff, true_and, false_or]
    exact append_right (by simpa using ha)

theorem mem_right (h : IsLastAt kind (as ++ bs) i) (hbs : ∃ b ∈ bs, kind b) {a : α}
    (ha : (as ++ bs)[i]? = some a) : a ∈ bs := by
  rcases Nat.lt_or_ge i as.length with hi | hi
  · obtain ⟨b, hb, hkind⟩ := hbs
    obtain ⟨j, hj⟩ := List.mem_iff_getElem?.1 hb
    have hplace : (as ++ bs)[as.length + j]? = some b := by
      rw [List.getElem?_append_right (by omega), Nat.add_sub_cancel_left]
      exact hj
    exact absurd hkind (h.2 _ b (by omega) hplace)
  · rw [List.getElem?_append_right hi] at ha
    exact List.mem_of_getElem? ha

theorem exists_of_mem {a : α} (ha : a ∈ as) (hkind : kind a) : ∃ i, IsLastAt kind as i := by
  induction as using List.reverseRecOn with
  | nil => cases ha
  | append_singleton as b ih =>
    by_cases hb : kind b
    · exact ⟨as.length, (concat b).2 (.inl ⟨hb, rfl⟩)⟩
    · have hold : a ∈ as := by
        rcases List.mem_append.1 ha with hold | hnew
        · exact hold
        · exact absurd (List.mem_singleton.1 hnew ▸ hkind) hb
      obtain ⟨i, hi⟩ := ih hold
      exact ⟨i, (concat b).2 (.inr ⟨hb, hi⟩)⟩

end IsLastAt

namespace Table

variable {κ : Type} [Ord κ] [Std.TransOrd κ] [Std.LawfulEqOrd κ]

/-- A table of places, filled from the front to the back, has the last place for each key. -/
theorem getElem?_ofList_places (as : List α) (keep : α → Bool) (key : α → κ) (k : κ) (i : Nat) :
    (Std.ExtTreeMap.ofList ((as.zipIdx.filter fun (a, _) => keep a).map fun (a, i) => (key a, i)) :
      Table κ Nat)[k]? = some i ↔ IsLastAt (fun a => keep a ∧ key a = k) as i := by
  rw [Std.ExtTreeMap.ofList_eq_insertMany_empty]
  induction as using List.reverseRecOn generalizing i with
  | nil => simpa using IsLastAt.nil
  | append_singleton as a ih =>
    rw [IsLastAt.concat, List.zipIdx_append, List.filter_append, List.map_append,
      Std.ExtTreeMap.insertMany_append, ← ih]
    cases hkeep : keep a with
    | false => simp [hkeep]
    | true =>
      simp only [List.zipIdx_cons, List.zipIdx_nil, List.filter_cons, hkeep, if_true,
        List.filter_nil, List.map_cons, List.map_nil, Std.ExtTreeMap.insertMany_list_singleton,
        Std.ExtTreeMap.getElem?_insert, Std.LawfulEqCmp.compare_eq_iff_eq, true_and, Nat.zero_add]
      by_cases hk : key a = k
      · simp [hk, eq_comm]
      · simp [hk]

/-- A table that is filled from the front to the back has the last entry for each key. -/
theorem getElem?_insertMany_empty (pairs : List (κ × β)) (k : κ) (b : β) :
    ((∅ : Table κ β).insertMany pairs)[k]? = some b ↔
      ∃ i, IsLastAt (fun pair => pair.1 = k) pairs i ∧ pairs[i]? = some (k, b) := by
  induction pairs using List.reverseRecOn with
  | nil => simp
  | append_singleton pairs pair ih =>
    obtain ⟨k', b'⟩ := pair
    rw [Std.ExtTreeMap.insertMany_append, Std.ExtTreeMap.insertMany_list_singleton,
      Std.ExtTreeMap.getElem?_insert]
    by_cases hk : k' = k
    · simp [IsLastAt.concat, hk]
    · rw [if_neg (mt Std.LawfulEqCmp.compare_eq_iff_eq.1 hk), ih]
      refine exists_congr fun i => ?_
      rw [IsLastAt.concat, or_iff_right fun h => hk h.1, and_iff_right hk]
      refine and_congr_right fun hi => ?_
      rw [List.getElem?_append_left hi.lt_length]

end Table

end Fabric
