import Fabric.Device.Build
import Fabric.Proofs.LastPlace
/-!
# What the sites of a description have

A site has what its type declares. Taken site by site, the BELs, BEL pins and site pins of a
description stand in lists, and a resource has its place in such a list for a number.
-/

namespace Fabric

structure SitePart (α : Type) where
  number : SiteId
  site : SiteDescription
  part : α

namespace DeviceDescription

variable {α : Type} (desc : DeviceDescription)

def typeOf? (s : SiteDescription) : Option SiteTypeDescription :=
  desc.siteTypes.find? fun t => t.name = s.type

def partsOf (parts : SiteTypeDescription → List α) (s : SiteDescription) : List α :=
  ((desc.typeOf? s).map parts).getD []

def declaredIn (sites : List SiteDescription) (parts : SiteTypeDescription → List α) :
    List (SitePart α) :=
  sites.zipIdx.flatMap fun (s, i) => (desc.partsOf parts s).map fun a => ⟨⟨i⟩, s, a⟩

abbrev declared (parts : SiteTypeDescription → List α) : List (SitePart α) :=
  desc.declaredIn desc.sites parts

abbrev allBels : List (SitePart BelDescription) := desc.declared SiteTypeDescription.bels

abbrev allBelPins : List (SitePart BelPinDescription) := desc.declared SiteTypeDescription.belPins

abbrev allSitePins : List (SitePart SitePinDescription) := desc.declared SiteTypeDescription.pins

variable {desc} {parts : SiteTypeDescription → List α} {sites : List SiteDescription}

theorem partsOf_eq {s : SiteDescription} {t : SiteTypeDescription} (ht : desc.typeOf? s = some t) :
    desc.partsOf parts s = parts t := by
  rw [partsOf, ht, Option.map_some, Option.getD_some]

theorem declaredIn_nil : desc.declaredIn [] parts = [] := rfl

theorem declaredIn_concat (s : SiteDescription) :
    desc.declaredIn (sites ++ [s]) parts =
      desc.declaredIn sites parts ++
        (desc.partsOf parts s).map fun a => ⟨⟨sites.length⟩, s, a⟩ := by
  simp [declaredIn, List.zipIdx_append]

theorem exists_of_getElem?_declaredIn {k : Nat} {e : SitePart α}
    (h : (desc.declaredIn sites parts)[k]? = some e) :
    ∃ j, sites[e.number.index]? = some e.site ∧ (desc.partsOf parts e.site)[j]? = some e.part ∧
      k = (desc.declaredIn (sites.take e.number.index) parts).length + j := by
  induction sites using List.reverseRecOn with
  | nil =>
    rw [declaredIn_nil] at h
    cases h
  | append_singleton sites s ih =>
    rw [declaredIn_concat, List.getElem?_append] at h
    split at h
    next =>
      obtain ⟨j, hs, hj, hk⟩ := ih h
      have hlt := (List.getElem?_eq_some_iff.1 hs).1
      refine ⟨j, ?_, hj, ?_⟩
      · rw [List.getElem?_append_left hlt, hs]
      · rw [List.take_append_of_le_length (Nat.le_of_lt hlt), hk]
    next hge =>
      rw [List.getElem?_map] at h
      obtain ⟨a, ha, rfl⟩ := Option.map_eq_some_iff.1 h
      refine ⟨_, ?_, ha, ?_⟩
      · simp
      · rw [List.take_left']
        · omega
        · rfl

theorem number_lt_of_mem_declaredIn {e : SitePart α} (he : e ∈ desc.declaredIn sites parts) :
    e.number.index < sites.length := by
  obtain ⟨k, hk⟩ := List.mem_iff_getElem?.1 he
  obtain ⟨j, hs, -, -⟩ := exists_of_getElem?_declaredIn hk
  exact (List.getElem?_eq_some_iff.1 hs).1

/-- The parts of one site stand together, behind those of the sites before. -/
theorem exists_declaredIn_eq (desc : DeviceDescription) (parts : SiteTypeDescription → List α)
    {sites : List SiteDescription} {i : Nat} {s : SiteDescription} (hs : sites[i]? = some s) :
    ∃ rest, desc.declaredIn sites parts =
        desc.declaredIn (sites.take i) parts ++
          ((desc.partsOf parts s).map (⟨⟨i⟩, s, ·⟩) ++ rest) ∧
      ∀ e ∈ rest, e.number.index ≠ i := by
  induction sites using List.reverseRecOn with
  | nil => simp at hs
  | append_singleton sites s' ih =>
    rw [declaredIn_concat]
    rcases Nat.lt_or_ge i sites.length with hi | hi
    · rw [List.getElem?_append_left hi] at hs
      obtain ⟨rest, hrest, hother⟩ := ih hs
      refine ⟨rest ++ (desc.partsOf parts s').map (⟨⟨sites.length⟩, s', ·⟩), ?_, ?_⟩
      · rw [List.take_append_of_le_length (Nat.le_of_lt hi), hrest]
        simp only [List.append_assoc]
      · intro e he
        rcases List.mem_append.1 he with hold | hnew
        · exact hother e hold
        · obtain ⟨a, -, rfl⟩ := List.mem_map.1 hnew
          exact Nat.ne_of_gt hi
    · obtain ⟨hlt, hget⟩ := List.getElem?_eq_some_iff.1 hs
      rw [List.length_append, List.length_singleton] at hlt
      obtain rfl : i = sites.length := by omega
      obtain rfl : s' = s := by simpa using hget
      refine ⟨[], ?_, by simp⟩
      rw [List.take_left' rfl, List.append_nil]

theorem getElem?_declaredIn {i j : Nat} {s : SiteDescription} {a : α} (hs : sites[i]? = some s)
    (ha : (desc.partsOf parts s)[j]? = some a) :
    (desc.declaredIn sites parts)[(desc.declaredIn (sites.take i) parts).length + j]? =
      some ⟨⟨i⟩, s, a⟩ := by
  obtain ⟨rest, hsites, -⟩ := exists_declaredIn_eq desc parts hs
  have hj := (List.getElem?_eq_some_iff.1 ha).1
  rw [hsites, List.getElem?_append_right (Nat.le_add_right _ _), Nat.add_sub_cancel_left,
    List.getElem?_append_left (by simpa using hj), List.getElem?_map, ha, Option.map_some]

/-- The last part of a kind that a site has is found among the parts of its type. -/
theorem isLastAt_declaredIn {i k : Nat} {s : SiteDescription} (hs : sites[i]? = some s)
    (kind : α → Prop) :
    IsLastAt (fun e => e.number.index = i ∧ kind e.part) (desc.declaredIn sites parts) k ↔
      ∃ j, k = (desc.declaredIn (sites.take i) parts).length + j ∧
        IsLastAt kind (desc.partsOf parts s) j := by
  obtain ⟨rest, hsites, hrest⟩ := exists_declaredIn_eq desc parts hs
  rw [hsites, IsLastAt.append_left]
  · refine exists_congr fun j => and_congr_right fun _ => ?_
    rw [IsLastAt.append_right fun e he h => hrest e he h.1, IsLastAt.map]
    exact IsLastAt.congr fun a _ => by simp
  · rintro e he ⟨hi, -⟩
    have hlt := number_lt_of_mem_declaredIn he
    rw [List.length_take] at hlt
    omega

theorem exists_typeOf?_of_mem_partsOf {s : SiteDescription} {a : α}
    (ha : a ∈ desc.partsOf parts s) : ∃ t, desc.typeOf? s = some t ∧ a ∈ parts t := by
  unfold partsOf at ha
  cases ht : desc.typeOf? s with
  | none =>
    rw [ht] at ha
    cases ha
  | some t =>
    rw [ht] at ha
    exact ⟨t, rfl, ha⟩

theorem exists_declared_iff {s : SiteId} {k : Nat} (kind : α → Prop) :
    (∃ e, (desc.declared parts)[k]? = some e ∧ e.number = s ∧ kind e.part) ↔
      ∃ sd j a, desc.sites[s.index]? = some sd ∧ (desc.partsOf parts sd)[j]? = some a ∧ kind a ∧
        k = (desc.declaredIn (desc.sites.take s.index) parts).length + j := by
  constructor
  · rintro ⟨e, he, rfl, hkind⟩
    obtain ⟨j, hs, ha, hk⟩ := exists_of_getElem?_declaredIn he
    exact ⟨e.site, j, e.part, hs, ha, hkind, hk⟩
  · rintro ⟨sd, j, a, hs, ha, hkind, rfl⟩
    exact ⟨_, getElem?_declaredIn hs ha, rfl, hkind⟩

theorem isLastAt_declared_iff {s : SiteId} {k : Nat} (kind : α → Prop) :
    IsLastAt (fun e => e.number = s ∧ kind e.part) (desc.declared parts) k ↔
      ∃ sd j, desc.sites[s.index]? = some sd ∧ IsLastAt kind (desc.partsOf parts sd) j ∧
        k = (desc.declaredIn (desc.sites.take s.index) parts).length + j := by
  have hnumber : ∀ {sd}, desc.sites[s.index]? = some sd →
      (IsLastAt (fun e => e.number = s ∧ kind e.part) (desc.declared parts) k ↔
        ∃ j, k = (desc.declaredIn (desc.sites.take s.index) parts).length + j ∧
          IsLastAt kind (desc.partsOf parts sd) j) := fun hs => by
    rw [← isLastAt_declaredIn hs kind]
    exact IsLastAt.congr fun e _ => by rw [Key.ext_iff]
  constructor
  · intro h
    obtain ⟨e, he, rfl, -⟩ := h.1
    obtain ⟨-, hs, -, -⟩ := exists_of_getElem?_declaredIn he
    obtain ⟨j, hk, hlast⟩ := (hnumber hs).1 h
    exact ⟨_, j, hs, hlast, hk⟩
  · rintro ⟨sd, j, hs, hlast, hk⟩
    exact (hnumber hs).2 ⟨j, hk, hlast⟩

end DeviceDescription

end Fabric
