import Fabric.Proofs.Netlist.Mapping
/-!
# Pseudo pins

A pseudo pin is made for one BEL pin, and it is named for the number of pseudo pins that its cell
has got before. Nothing ever changes this number but the pseudo pin that comes next.
-/

namespace Fabric

open Relation (ReflTransGen)

def Pin.label (pin : Pin) : String × CellId × PinKind := (pin.name, pin.cell, pin.kind)

def Cell.roster (cell : Cell) : List PinId × Nat := (cell.pins, cell.pseudoPinCount)

namespace Netlist

variable {d : Device} {C : Prop} {nl nl' : Netlist}

def isPseudo (nl : Netlist) (p : PinId) : Bool := (nl.pin? p).any fun pin => pin.kind = .pseudo

def pseudoPins (nl : Netlist) (c : CellId) : List PinId :=
  ((List.range nl.pins.size).map fun i => (⟨i⟩ : PinId)).filter fun p =>
    (nl.pin? p).any fun pin => pin.kind = .pseudo ∧ pin.cell = c

theorem exists_pin_of_mem_pseudoPins {c : CellId} {p : PinId} (h : p ∈ nl.pseudoPins c) :
    ∃ pin, nl.pin? p = some pin ∧ pin.kind = .pseudo ∧ pin.cell = c := by
  obtain ⟨pin, hp, hpin⟩ := (Option.any_eq_true _ _).1 (List.mem_filter.1 h).2
  exact ⟨pin, hp, by simpa using hpin⟩

theorem any_eq_of_label {pin? pin?' : Option Pin} {f : String × CellId × PinKind → Bool}
    (h : pin?'.map Pin.label = pin?.map Pin.label) :
    (pin?'.any fun pin => f pin.label) = pin?.any fun pin => f pin.label := by
  have hany := congrArg (fun o => o.any f) h
  simpa only [Option.any_map] using hany

section labels

variable (hlabels : ∀ p, (nl'.pin? p).map Pin.label = (nl.pin? p).map Pin.label)

include hlabels

theorem isPseudo_eq_of_labels (p : PinId) : nl'.isPseudo p = nl.isPseudo p :=
  any_eq_of_label (f := fun l => l.2.2 = .pseudo) (hlabels p)

theorem pseudoPins_eq_of_labels (hsize : nl'.pins.size = nl.pins.size) (c : CellId) :
    nl'.pseudoPins c = nl.pseudoPins c := by
  unfold pseudoPins
  rw [hsize]
  exact List.filter_congr fun p _ =>
    any_eq_of_label (f := fun l => l.2.2 = .pseudo ∧ l.2.1 = c) (hlabels p)

end labels

theorem pseudoPins_addPin (nl : Netlist) (c : CellId) (name : String) (dir : PinDir)
    (kind : PinKind) (e : CellId) :
    (nl.addPin c name dir kind).pseudoPins e =
      nl.pseudoPins e ++ if kind = .pseudo ∧ c = e then [nl.nextPin] else [] := by
  have hsize : (nl.addPin c name dir kind).pins.size = nl.pins.size + 1 := Array.size_push ..
  unfold pseudoPins
  rw [hsize, List.range_succ, List.map_append, List.filter_append]
  congr 1
  · refine List.filter_congr fun p hp => ?_
    have hne : p ≠ nl.nextPin := by
      rintro rfl
      simp [nextPin] at hp
    rw [pin?_addPin, if_neg hne]
  · have hnew : (nl.addPin c name dir kind).pin? ⟨nl.pins.size⟩ =
        some { name, cell := c, dir, kind } := by rw [pin?_addPin]; exact if_pos rfl
    rw [List.map_singleton, List.filter_singleton, hnew]
    simp [nextPin]

section tie

variable (c : CellId) (name : String) (dir : PinDir)

theorem pin?_tie (b : BelPinId) (p : PinId) :
    ((nl.addPseudoPin c name dir).mapPin nl.nextPin b).pin? p = if p = nl.nextPin then
      some { name, cell := c, dir, kind := .pseudo, belPins := [b] } else nl.pin? p := by
  have hadded : (nl.addPseudoPin c name dir).pin? p = (nl.addPin c name dir .pseudo).pin? p := rfl
  rw [pin?_mapPin, hadded, pin?_addPin]
  split <;> rfl

theorem exists_cell_of_addPseudoPin {e : CellId} {cell' : Cell}
    (he : (nl.addPseudoPin c name dir).cell? e = some cell') : ∃ cell, nl.cell? e = some cell ∧
      cell'.pins = cell.pins ++ (if c = e then [nl.nextPin] else []) ∧
      cell'.pseudoPinCount = cell.pseudoPinCount + (if c = e then [nl.nextPin] else []).length := by
  unfold addPseudoPin at he
  rw [cell?_modifyCell, cell?_addPin] at he
  split at he
  next heq =>
    rw [Option.map_map] at he
    obtain ⟨cell, hcell, rfl⟩ := Option.map_eq_some_iff.1 he
    refine ⟨cell, hcell, ?_⟩
    rw [if_pos heq.symm]
    exact ⟨rfl, rfl⟩
  next hne =>
    refine ⟨cell', he, ?_⟩
    rw [if_neg (Ne.symm hne), List.append_nil]
    exact ⟨rfl, rfl⟩

end tie

/-! ## Numbering -/

/-- The pseudo pins of each cell are counted and numbered, and each is mapped to one BEL pin. -/
structure Numbered (nl : Netlist) : Prop where
  live : ∀ c cell, nl.cell? c = some cell → ∀ p ∈ cell.pins, (nl.pin? p).isSome
  counted : ∀ c cell, nl.cell? c = some cell → cell.pseudoPinCount = (nl.pseudoPins c).length
  listed : ∀ c cell, nl.cell? c = some cell → cell.pins.filter nl.isPseudo = nl.pseudoPins c
  named : ∀ c (i : Nat) p, (nl.pseudoPins c)[i]? = some p →
    ∃ pin, nl.pin? p = some pin ∧ IsPseudoName i pin.name
  single : ∀ p pin, nl.pin? p = some pin → pin.kind = .pseudo → ∃ b, pin.belPins = [b]

namespace Numbered

theorem congr (h : nl.Numbered) (hsize : nl'.pins.size = nl.pins.size)
    (hlabels : ∀ p, (nl'.pin? p).map Pin.label = (nl.pin? p).map Pin.label)
    (hcells : ∀ c, (nl'.cell? c).map Cell.roster = (nl.cell? c).map Cell.roster)
    (hsingle : ∀ p pin, nl'.pin? p = some pin → pin.kind = .pseudo → ∃ b, pin.belPins = [b]) :
    nl'.Numbered := by
  have back : ∀ c cell', nl'.cell? c = some cell' → ∃ cell, nl.cell? c = some cell ∧
      cell.pins = cell'.pins ∧ cell.pseudoPinCount = cell'.pseudoPinCount := by
    intro c cell' hc
    have hmap := hcells c
    rw [hc, Option.map_some, eq_comm] at hmap
    obtain ⟨cell, hcell, heq⟩ := Option.map_eq_some_iff.1 hmap
    have hpins := congrArg Prod.fst heq
    have hcount := congrArg Prod.snd heq
    exact ⟨cell, hcell, hpins, hcount⟩
  have hpseudo : nl'.isPseudo = nl.isPseudo := funext (isPseudo_eq_of_labels hlabels)
  have hlist := pseudoPins_eq_of_labels hlabels hsize
  constructor
  · intro c cell' hc p hp
    obtain ⟨cell, hcell, hpins, -⟩ := back c cell' hc
    have hsome := congrArg Option.isSome (hlabels p)
    simp only [Option.isSome_map] at hsome
    rw [hsome]
    exact h.live c cell hcell p (hpins ▸ hp)
  · intro c cell' hc
    obtain ⟨cell, hcell, -, hcount⟩ := back c cell' hc
    rw [← hcount, hlist]
    exact h.counted c cell hcell
  · intro c cell' hc
    obtain ⟨cell, hcell, hpins, -⟩ := back c cell' hc
    rw [← hpins, hpseudo, hlist]
    exact h.listed c cell hcell
  · intro c i p hi
    rw [hlist] at hi
    obtain ⟨pin, hp, hname⟩ := h.named c i p hi
    have hmap := hlabels p
    rw [hp, Option.map_some] at hmap
    obtain ⟨pin', hp', heq⟩ := Option.map_eq_some_iff.1 hmap
    have heqName : pin'.name = pin.name := congrArg Prod.fst heq
    exact ⟨pin', hp', heqName ▸ hname⟩
  · exact hsingle

theorem still (h : nl.Numbered) (hstill : Still C nl nl') : nl'.Numbered := by
  refine h.congr hstill.size (fun p => ?_) (fun c => ?_) fun p pin' hp hkind => ?_
  · have hmap := congrArg (Option.map Pin.label) (hstill.pins p)
    rw [Option.map_map, Option.map_map] at hmap
    exact hmap
  · have hmap := congrArg (Option.map Prod.snd) (hstill.cells c)
    rw [Option.map_map, Option.map_map] at hmap
    exact hmap
  · obtain ⟨pin, hpin, heq⟩ := hstill.exists_pin hp
    have hpinKind := congrArg Pin.kind heq
    have hmapped := congrArg Pin.belPins heq
    obtain ⟨b, hb⟩ := h.single p pin hpin (hpinKind.trans hkind)
    exact ⟨b, hmapped.symm.trans hb⟩

theorem pseudoPins_nextCell (h : nl.Mapped d) : nl.pseudoPins nl.nextCell = [] := by
  refine List.eq_nil_iff_forall_not_mem.2 fun p hp => ?_
  obtain ⟨pin, hpin, -, hcell⟩ := exists_pin_of_mem_pseudoPins hp
  have hlive := h.home p pin hpin
  rw [hcell, cell?_nextCell] at hlive
  cases hlive

theorem addCell (h : nl.Numbered) (hmapped : nl.Mapped d) (name type : String) :
    (nl.addCell name type).Numbered := by
  have hcases : ∀ c cell, (nl.addCell name type).cell? c = some cell →
      c = nl.nextCell ∧ cell.pins = [] ∧ cell.pseudoPinCount = 0 ∨ nl.cell? c = some cell := by
    intro c cell hc
    rw [cell?_addCell] at hc
    split at hc
    next heq =>
      cases hc
      exact .inl ⟨heq, rfl, rfl⟩
    next => exact .inr hc
  have hnone : (nl.addCell name type).pseudoPins nl.nextCell = [] := pseudoPins_nextCell hmapped
  constructor
  · intro c cell hc p hp
    rcases hcases c cell hc with ⟨-, hpins, -⟩ | hold
    · rw [hpins] at hp
      cases hp
    · exact h.live c cell hold p hp
  · intro c cell hc
    rcases hcases c cell hc with ⟨rfl, -, hcount⟩ | hold
    · rw [hcount, hnone]
      rfl
    · exact h.counted c cell hold
  · intro c cell hc
    rcases hcases c cell hc with ⟨rfl, hpins, -⟩ | hold
    · rw [hpins, hnone]
      rfl
    · exact h.listed c cell hold
  · exact h.named
  · exact h.single

/-- Pins that are made are numbered behind those that their cells have. -/
theorem grow (h : nl.Numbered) (added : CellId → List PinId)
    (hstays : ∀ p pin, nl.pin? p = some pin → nl'.pin? p = some pin)
    (hlive : ∀ c, ∀ p ∈ added c, (nl'.pin? p).isSome)
    (hcells : ∀ c cell', nl'.cell? c = some cell' → ∃ cell, nl.cell? c = some cell ∧
      cell'.pins = cell.pins ++ added c ∧
      cell'.pseudoPinCount = cell.pseudoPinCount + ((added c).filter nl'.isPseudo).length)
    (hlists : ∀ c, nl'.pseudoPins c = nl.pseudoPins c ++ (added c).filter nl'.isPseudo)
    (hnamed : ∀ c (i : Nat) p, ((added c).filter nl'.isPseudo)[i]? = some p →
      ∃ pin, nl'.pin? p = some pin ∧ IsPseudoName ((nl.pseudoPins c).length + i) pin.name)
    (hsingle : ∀ p pin, nl'.pin? p = some pin → pin.kind = .pseudo → ∃ b, pin.belPins = [b]) :
    nl'.Numbered := by
  constructor
  · intro c cell' hc p hp
    obtain ⟨cell, hcell, hpins, -⟩ := hcells c cell' hc
    rw [hpins, List.mem_append] at hp
    rcases hp with hp | hp
    · obtain ⟨pin, hpin⟩ := Option.isSome_iff_exists.1 (h.live c cell hcell p hp)
      exact Option.isSome_iff_exists.2 ⟨pin, hstays p pin hpin⟩
    · exact hlive c p hp
  · intro c cell' hc
    obtain ⟨cell, hcell, -, hcount⟩ := hcells c cell' hc
    rw [hcount, hlists, List.length_append, h.counted c cell hcell]
  · intro c cell' hc
    obtain ⟨cell, hcell, hpins, -⟩ := hcells c cell' hc
    have hold : cell.pins.filter nl'.isPseudo = nl.pseudoPins c := by
      rw [← h.listed c cell hcell]
      refine List.filter_congr fun p hp => ?_
      obtain ⟨pin, hpin⟩ := Option.isSome_iff_exists.1 (h.live c cell hcell p hp)
      unfold isPseudo
      rw [hstays p pin hpin, hpin]
    rw [hpins, List.filter_append, hold, hlists]
  · intro c i p hi
    rw [hlists, List.getElem?_append] at hi
    split at hi
    next =>
      obtain ⟨pin, hp, hname⟩ := h.named c i p hi
      exact ⟨pin, hstays p pin hp, hname⟩
    next hge =>
      obtain ⟨pin, hp, hname⟩ := hnamed c _ p hi
      rw [Nat.add_sub_cancel' (Nat.le_of_not_lt hge)] at hname
      exact ⟨pin, hp, hname⟩
  · exact hsingle

theorem addPin (h : nl.Numbered) (c : CellId) (name : String) (dir : PinDir) {kind : PinKind}
    (hkind : kind ≠ .pseudo) : (nl.addPin c name dir kind).Numbered := by
  let added (e : CellId) : List PinId := if e = c ∧ !kind.isPartition then [nl.nextPin] else []
  have hnew : (nl.addPin c name dir kind).isPseudo nl.nextPin = false := by
    unfold isPseudo
    rw [pin?_addPin, if_pos rfl]
    simpa using hkind
  have hmem : ∀ e, ∀ p ∈ added e, p = nl.nextPin := by
    intro e p hp
    exact List.mem_singleton.1 (List.mem_ite_nil_right.1 hp).2
  have hnone : ∀ e, (added e).filter (nl.addPin c name dir kind).isPseudo = [] := by
    intro e
    refine List.filter_eq_nil_iff.2 fun p hp => ?_
    rw [hmem e p hp, hnew]
    exact Bool.false_ne_true
  refine h.grow added (fun p pin hp => pin?_addPin_of_some nl hp c name dir kind)
    (fun e p hp => ?_) (fun e cell' he => ?_) (fun e => ?_) (fun e i p hi => ?_)
    fun p pin hp hpseudo => ?_
  · rw [hmem e p hp]
    exact isSome_pin?_addPin_new nl c name dir kind
  · obtain ⟨cell, hcell, rfl⟩ := exists_of_ite_map (cell?_addPin .. ▸ he)
    refine ⟨cell, hcell, ?_⟩
    rw [hnone]
    by_cases heq : e = c <;> cases hpart : kind.isPartition <;> simp [added, heq, hpart]
  · rw [hnone, pseudoPins_addPin, if_neg fun hc => hkind hc.1]
  · rw [hnone] at hi
    cases hi
  · rw [pin?_addPin] at hp
    split at hp
    · cases hp
      exact absurd hpseudo hkind
    · exact h.single p pin hp hpseudo

theorem tie (h : nl.Numbered) {c : CellId} {cell : Cell} (hcell : nl.cell? c = some cell)
    {name : String} (hname : IsPseudoName cell.pseudoPinCount name) (dir : PinDir) (b : BelPinId) :
    ((nl.addPseudoPin c name dir).mapPin nl.nextPin b).Numbered := by
  let tied := (nl.addPseudoPin c name dir).mapPin nl.nextPin b
  let added (e : CellId) : List PinId := if c = e then [nl.nextPin] else []
  have hpin : ∀ p, tied.pin? p = if p = nl.nextPin then
      some { name, cell := c, dir, kind := .pseudo, belPins := [b] } else nl.pin? p :=
    pin?_tie c name dir b
  have hnew : tied.pin? nl.nextPin = some
      { name, cell := c, dir, kind := .pseudo, belPins := [b] } := by rw [hpin, if_pos rfl]
  have hlabels : ∀ p, (tied.pin? p).map Pin.label =
      ((nl.addPin c name dir .pseudo).pin? p).map Pin.label := by
    intro p
    rw [hpin, pin?_addPin]
    split <;> rfl
  have hmem : ∀ e, ∀ p ∈ added e, c = e ∧ p = nl.nextPin := by
    intro e p hp
    obtain ⟨heq, hp⟩ := List.mem_ite_nil_right.1 hp
    exact ⟨heq, List.mem_singleton.1 hp⟩
  have hall : ∀ e, (added e).filter tied.isPseudo = added e := by
    intro e
    refine List.filter_eq_self.2 fun p hp => ?_
    rw [(hmem e p hp).2, isPseudo, hnew]
    rfl
  refine h.grow added (fun p pin hp => ?_) (fun e p hp => ?_) (fun e cell' he => ?_)
    (fun e => ?_) (fun e i p hi => ?_) fun p pin hp hpseudo => ?_
  · refine (hpin p).trans ?_
    rw [if_neg]
    · exact hp
    · rintro rfl
      rw [pin?_nextPin] at hp
      cases hp
  · rw [(hmem e p hp).2]
    exact Option.isSome_iff_exists.2 ⟨_, hnew⟩
  · rw [hall]
    exact exists_cell_of_addPseudoPin c name dir he
  · rw [hall]
    refine (pseudoPins_eq_of_labels hlabels (Array.size_modify ..) e).trans ?_
    rw [pseudoPins_addPin]
    simp [added]
  · rw [hall] at hi
    -- the new pin is the only one that is made
    obtain ⟨rfl, rfl⟩ := hmem e p (List.mem_of_getElem? hi)
    obtain rfl : i = 0 := by
      rw [show added c = [nl.nextPin] from if_pos rfl, List.getElem?_singleton] at hi
      exact (Option.ite_none_right_eq_some.1 hi).1
    refine ⟨_, hnew, ?_⟩
    rw [Nat.add_zero, ← h.counted c cell hcell]
    exact hname
  · replace hp := (hpin p).symm.trans hp
    split at hp
    · cases hp
      exact ⟨b, rfl⟩
    · exact h.single p pin hp hpseudo

theorem mounts (h : nl.Numbered) (hmapped : nl.Mapped d) (hstep : Mounts d C nl nl') :
    nl'.Numbered := by
  cases hstep with
  | still hstill => exact h.still hstill
  | cell name type => exact h.addCell hmapped name type
  | @place c _ _ _ s b =>
    refine h.congr rfl (fun _ => rfl) (fun e => ?_) h.single
    rw [cell?_place]
    split
    · rw [Option.map_map]
      rfl
    · rfl
  | pin _ name dir hkind => exact h.addPin _ name dir hkind
  | @map p b _ _ _ hkind =>
    refine h.congr (Array.size_modify ..) (fun q => ?_) (fun _ => rfl) fun q pin' hq hpseudo => ?_
    · rw [pin?_mapPin]
      split
      · rw [Option.map_map]
        rfl
      · rfl
    · obtain ⟨pin, hpin, rfl⟩ := exists_of_ite_map (pin?_mapPin .. ▸ hq)
      split at hpseudo
      next heq => exact absurd hpseudo (hkind pin (heq ▸ hpin))
      next hne =>
        rw [if_neg hne]
        exact h.single q pin hpin hpseudo
  | tie _ hcell _ _ hname => exact h.tie hcell hname _ _

end Numbered

theorem numbered_of_mounts (h : ReflTransGen (Mounts d C) nl nl') (hmapped : nl.Mapped d)
    (hnl : nl.Numbered) : nl'.Numbered := by
  induction h with
  | refl => exact hnl
  | tail hsteps hstep ih => exact ih.mounts (mapped_of_mounts hsteps hmapped) hstep

theorem numbered_empty (name : String) (mode : Mode) : (empty name mode).Numbered := by
  constructor <;> simp [empty, Netlist.addNet, pin?, cell?, pseudoPins]

end Netlist

end Fabric
