import Fabric.NameTable
import Fabric.Proofs.Distinct
/-!
# Numbers and names

The two ways through a table of names are inverse to each other, and a name that has its
number keeps it. The numbers of a row of names have no gaps and follow the first appearances.
-/

namespace Fabric.NameTable

def Coherent (t : NameTable) : Prop := ∀ s w, t.lookup? s = some w ↔ t.name? w = some s

theorem lt_size_of_name? {t : NameTable} {w : WireName} {s : String} (h : t.name? w = some s) :
    w.index < t.size :=
  (Array.getElem?_eq_some_iff.1 h).1

theorem coherent_empty : empty.Coherent := by
  intro s w
  simp [empty, lookup?, name?]

theorem lookup?_intern (t : NameTable) (s s' : String) :
    (t.intern s).2.lookup? s' =
      if s' = s ∧ t.lookup? s = none then some ⟨t.size⟩ else t.lookup? s' := by
  cases h : t.lookup? s with
  | some w => simp [intern_of_lookup?_eq_some h]
  | none =>
    rw [intern_of_lookup?_eq_none h]
    simp only [lookup?, Std.ExtTreeMap.getElem?_insert, Std.LawfulEqCmp.compare_eq_iff_eq]
    by_cases hs : s = s'
    · simp [hs]
    · simp [hs, Ne.symm hs]

theorem Coherent.insert {t : NameTable} (h : t.Coherent) (s : String) :
    (t.insert s).Coherent := by
  unfold NameTable.insert
  cases hs : t.lookup? s with
  | some w =>
    rw [intern_of_lookup?_eq_some hs]
    exact h
  | none =>
    intro s' w
    rw [lookup?_intern, intern_of_lookup?_eq_none hs]
    have hold : t.name? ⟨t.size⟩ = none := by simp [name?, size]
    have hname : (⟨t.names.push s, t.index.insert s ⟨t.size⟩⟩ : NameTable).name? w =
        if w.index = t.size then some s else t.name? w := Array.getElem?_push
    rw [hname]
    by_cases hw : w.index = t.size
    · have hweq : w = ⟨t.size⟩ := Key.ext hw
      subst hweq
      by_cases hs' : s' = s
      · simp [hs', hs]
      · simp [hs', Ne.symm hs', h s', hold]
    · have hwne : (⟨t.size⟩ : WireName) ≠ w := fun he => hw (by rw [← he])
      by_cases hs' : s' = s
      · subst hs'
        simp [hs, hw, hwne, ← h s' w]
      · simp [hs', hw, h s' w]

theorem lookup?_insert_isSome (t : NameTable) (s s' : String)
    (h : s' = s ∨ (t.lookup? s').isSome) : ((t.insert s).lookup? s').isSome := by
  unfold insert
  rw [lookup?_intern]
  split
  · rfl
  · next hnew =>
    rcases h with rfl | h
    · rw [not_and] at hnew
      exact Option.isSome_iff_ne_none.2 (hnew rfl)
    · exact h

theorem coherent_foldl {t : NameTable} (h : t.Coherent) (names : List String) :
    (names.foldl insert t).Coherent := by
  induction names generalizing t with
  | nil => exact h
  | cons s names ih => exact ih (h.insert s)

theorem lookup?_foldl_isSome (t : NameTable) (names : List String) (s : String)
    (h : s ∈ names ∨ (t.lookup? s).isSome) : ((names.foldl insert t).lookup? s).isSome := by
  induction names generalizing t with
  | nil => simpa using h
  | cons s' names ih =>
    apply ih
    rcases h with h | h
    · rcases List.mem_cons.1 h with rfl | h
      · exact .inr (lookup?_insert_isSome t s s (.inl rfl))
      · exact .inl h
    · exact .inr (lookup?_insert_isSome t s' s (.inr h))

theorem coherent_ofList (names : List String) : (ofList names).Coherent :=
  coherent_foldl coherent_empty names

theorem exists_lookup?_ofList {names : List String} {s : String} (hs : s ∈ names) :
    ∃ w, (ofList names).lookup? s = some w ∧ w.index < (ofList names).size := by
  obtain ⟨w, hw⟩ := Option.isSome_iff_exists.1 (lookup?_foldl_isSome empty names s (.inl hs))
  exact ⟨w, hw, lt_size_of_name? ((coherent_ofList names s w).1 hw)⟩

/-! ## Rows of names -/

def internAll : List String → NameTable → List WireName × NameTable
  | [], t => ([], t)
  | s :: names, t =>
    let (w, t') := t.intern s
    let (ids, t'') := internAll names t'
    (w :: ids, t'')

theorem internAll_snd (names : List String) (t : NameTable) :
    (internAll names t).2 = names.foldl insert t := by
  induction names generalizing t with
  | nil => rfl
  | cons s names ih => exact ih (t.insert s)

theorem name?_intern {t : NameTable} (h : t.Coherent) (s : String) :
    (t.intern s).2.name? (t.intern s).1 = some s := by
  refine (h.insert s s _).1 ?_
  rw [insert, lookup?_intern]
  cases hs : t.lookup? s with
  | some w => simp [intern_of_lookup?_eq_some hs]
  | none => simp [intern_of_lookup?_eq_none hs]

/-- The table knows just these names, each at the place of its first appearance. -/
structure Holds (names : List String) (t : NameTable) : Prop where
  names : t.names.toList = names.eraseDups
  coherent : t.Coherent

namespace Holds

variable {names later : List String} {t t' : NameTable}

theorem empty : Holds [] NameTable.empty := ⟨rfl, coherent_empty⟩

theorem name?_eq (h : Holds names t) (w : WireName) : t.name? w = names.eraseDups[w.index]? := by
  rw [← h.names, Array.getElem?_toList]
  rfl

theorem size_eq (h : Holds names t) : t.size = names.eraseDups.length := by
  rw [← h.names, Array.length_toList]
  rfl

theorem lookup?_isSome (h : Holds names t) (s : String) : (t.lookup? s).isSome ↔ s ∈ names := by
  rw [Option.isSome_iff_exists, ← List.mem_eraseDups, List.mem_iff_getElem?]
  simp only [h.coherent s, h.name?_eq]
  constructor
  · rintro ⟨w, hw⟩
    exact ⟨w.index, hw⟩
  · rintro ⟨i, hi⟩
    exact ⟨⟨i⟩, hi⟩

theorem intern (h : Holds names t) (s : String) : Holds (names ++ [s]) (t.intern s).2 where
  names := by
    rw [eraseDups_concat]
    split
    next hs =>
      obtain ⟨w, hw⟩ := Option.isSome_iff_exists.1 ((h.lookup?_isSome s).2 hs)
      rw [intern_of_lookup?_eq_some hw, h.names]
    next hs =>
      have hnew : t.lookup? s = none := by
        rw [← Option.not_isSome_iff_eq_none, h.lookup?_isSome]
        exact hs
      rw [intern_of_lookup?_eq_none hnew, Array.toList_push, h.names]
  coherent := h.coherent.insert s

theorem internAll (h : Holds names t) (later : List String) :
    Holds (names ++ later) (internAll later t).2 := by
  induction later generalizing names t with
  | nil => rwa [List.append_nil]
  | cons s later ih =>
    rw [← List.singleton_append, ← List.append_assoc]
    exact ih (h.intern s)

/-- A number stands for its name for good. -/
theorem name?_later (h : Holds names t) (h' : Holds (names ++ later) t') {w : WireName}
    {s : String} (hw : t.name? w = some s) : t'.name? w = some s := by
  rw [h.name?_eq] at hw
  obtain ⟨hlt, rfl⟩ := List.getElem?_eq_some_iff.1 hw
  rw [h'.name?_eq]
  exact List.prefix_iff_getElem?.1 (eraseDups_prefix_append names later) w.index hlt

theorem forall₂_internAll (h : Holds names t) (later : List String) :
    List.Forall₂ (fun s w => (NameTable.internAll later t).2.name? w = some s) later
      (NameTable.internAll later t).1 := by
  induction later generalizing names t with
  | nil => exact .nil
  | cons s later ih =>
    have hnext := h.intern s
    exact .cons (hnext.name?_later (hnext.internAll later) (name?_intern h.coherent s)) (ih hnext)

/-- The names have different places, so the place of a name is its number. -/
theorem name?_eq_some_iff (h : Holds names t) {w : WireName} {s : String} (hs : s ∈ names) :
    t.name? w = some s ↔ w = ⟨names.eraseDups.idxOf s⟩ := by
  rw [h.name?_eq, Key.ext_iff]
  constructor
  · intro hw
    obtain ⟨hlt, rfl⟩ := List.getElem?_eq_some_iff.1 hw
    exact ((nodup_eraseDups names).idxOf_getElem w.index hlt).symm
  · intro hw
    rw [hw]
    exact List.getElem?_idxOf (List.mem_eraseDups.2 hs)

variable {ids : List WireName}

theorem ids_eq (h : Holds names t)
    (hgiven : List.Forall₂ (fun s w => t.name? w = some s) names ids) :
    ids = names.map fun s => ⟨names.eraseDups.idxOf s⟩ := by
  obtain ⟨hlength, hzip⟩ := List.forall₂_iff_zip.1 hgiven
  rw [eq_comm, ← List.forall₂_eq_eq_eq, List.forall₂_map_left_iff, List.forall₂_iff_zip]
  refine ⟨hlength, fun hmem => ?_⟩
  exact ((h.name?_eq_some_iff (List.of_mem_zip hmem).1).1 (hzip hmem)).symm

theorem eraseDups_ids (h : Holds names t)
    (hgiven : List.Forall₂ (fun s w => t.name? w = some s) names ids) :
    ids.eraseDups = (List.range t.size).map Key.mk := by
  have hinj : ∀ a ∈ names, ∀ b ∈ names, (⟨names.eraseDups.idxOf a⟩ : WireName) =
      ⟨names.eraseDups.idxOf b⟩ → a = b := by
    intro a ha b _ heq
    exact (List.idxOf_inj (List.mem_eraseDups.2 ha)).1 (congrArg Key.index heq)
  rw [h.ids_eq hgiven, eraseDups_map hinj, h.size_eq]
  refine List.ext_getElem (by simp) fun i hi _ => ?_
  simp only [List.length_map] at hi
  simp [(nodup_eraseDups names).idxOf_getElem i hi]

theorem lookup?_eq_some_iff (h : Holds names t)
    (hgiven : List.Forall₂ (fun s w => t.name? w = some s) names ids) (s : String) (w : WireName) :
    t.lookup? s = some w ↔ (s, w) ∈ names.zip ids := by
  constructor
  · intro hw
    have hs : s ∈ names := by
      rw [← h.lookup?_isSome, hw]
      rfl
    rw [h.coherent, h.name?_eq_some_iff hs] at hw
    obtain ⟨i, hi⟩ := List.mem_iff_getElem?.1 hs
    rw [h.ids_eq hgiven, List.mem_iff_getElem?]
    exact ⟨i, List.getElem?_zip_eq_some.2 ⟨hi, by rw [List.getElem?_map, hi, Option.map_some, hw]⟩⟩
  · intro hmem
    exact (h.coherent s w).2 (List.forall₂_zip hgiven hmem)

end Holds

/-- A row of names and the numbers that it has got, with the table that gave them. -/
structure Numbering (names : List String) (ids : List WireName) (t : NameTable) : Prop where
  /-- The numbers in the order in which they first came, without a gap from zero on. -/
  dense : ids.eraseDups = (List.range t.size).map Key.mk
  size : t.size = names.toFinset.card
  given : ∀ s w, t.lookup? s = some w ↔ (s, w) ∈ names.zip ids
  known : ∀ s, (t.lookup? s).isSome ↔ s ∈ names
  coherent : t.Coherent
  named : ∀ w, (t.name? w).isSome ↔ w ∈ ids
  /-- No number is lost in a word of 32 bits. -/
  fits : ∀ w ∈ ids, (UInt32.ofNat w.index).toNat = w.index
  /-- No later call changes the number of a name or the name of a number. -/
  later : ∀ more s w, (t.lookup? s = some w → (internAll more t).2.lookup? s = some w) ∧
    (t.name? w = some s → (internAll more t).2.name? w = some s)

/-- Numbers are given from zero on without a gap, in the order of first appearances. Names and
numbers lead to each other, and do so for good. -/
theorem numbering_internAll (names : List String) (hfew : names.toFinset.card < UInt32.size) :
    (internAll names empty).2 = ofList names ∧
    Numbering names (internAll names empty).1 (internAll names empty).2 := by
  have h : Holds names (internAll names empty).2 := Holds.empty.internAll names
  have hgiven := Holds.empty.forall₂_internAll names
  have hdense := h.eraseDups_ids hgiven
  have hsize : (internAll names empty).2.size = names.toFinset.card :=
    h.size_eq.trans (length_eraseDups names)
  have hids : ∀ w, w ∈ (internAll names empty).1 ↔ w.index < (internAll names empty).2.size := by
    intro w
    rw [← List.mem_eraseDups, hdense]
    simp [Key.ext_iff]
  refine ⟨internAll_snd names empty, hdense, hsize, h.lookup?_eq_some_iff hgiven, h.lookup?_isSome,
    h.coherent, fun w => ?_, fun w hw => ?_, fun more s w => ?_⟩
  · rw [hids, NameTable.name?, isSome_getElem?]
    rfl
  · have hlt := (hids w).1 hw
    exact UInt32.toNat_ofNat_of_lt' (by omega)
  · have hmore := h.internAll more
    refine ⟨fun hs => ?_, h.name?_later hmore⟩
    exact (hmore.coherent s w).2 (h.name?_later hmore ((h.coherent s w).1 hs))

/-- A name that comes again gets its old number, and a new one behind it the next. -/
theorem numbering_internAll_again :
    ["A1", "B1", "A1", "C1"].toFinset.card < UInt32.size ∧
    (internAll ["A1", "B1", "A1", "C1"] empty).1 = [⟨0⟩, ⟨1⟩, ⟨0⟩, ⟨2⟩] ∧
    Numbering ["A1", "B1", "A1", "C1"] [⟨0⟩, ⟨1⟩, ⟨0⟩, ⟨2⟩]
      (internAll ["A1", "B1", "A1", "C1"] empty).2 := by
  have hfew : ["A1", "B1", "A1", "C1"].toFinset.card < UInt32.size := by decide
  have hids : (internAll ["A1", "B1", "A1", "C1"] empty).1 = [⟨0⟩, ⟨1⟩, ⟨0⟩, ⟨2⟩] := by
    decide +kernel
  exact ⟨hfew, hids, hids ▸ (numbering_internAll _ hfew).2⟩

end Fabric.NameTable
