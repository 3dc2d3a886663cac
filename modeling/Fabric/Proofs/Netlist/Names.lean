import Fabric.Device.Build
import Fabric.Proofs.Netlist.Loading
/-!
# Names of nets

An entry of a description makes a net with its name or gives a constant its name. The names that the
constants have from the start keep their meaning, any other name of a constant is given up for the
next one.
-/

namespace Fabric

def NetKind.ofStatic (isVcc : Bool) : NetKind := if isVcc then .vcc else .gnd

namespace Netlist

def staticName (isVcc : Bool) : String := if isVcc then vccName else gndName

def IsStaticName (name : String) : Prop := name = vccName ∨ name = gndName

instance (name : String) : Decidable (IsStaticName name) := inferInstanceAs (Decidable (_ ∨ _))

def nameOf? (nl : Netlist) (n : NetId) : Option String := (nl.net? n).map Net.name

variable {d : Device} {nl nl' nl'' : Netlist} {n : NetId} {entry : NetDescription}

theorem isStaticName_iff {name : String} :
    IsStaticName name ↔ ∃ isVcc, name = staticName isVcc := by
  simp [IsStaticName, staticName, or_comm]

theorem staticNet_inj {b c : Bool} : staticNet b = staticNet c ↔ b = c := by
  revert b c
  decide

theorem staticName_inj {b c : Bool} : staticName b = staticName c ↔ b = c := by
  revert b c
  decide

theorem ofStatic_inj {b c : Bool} : NetKind.ofStatic b = NetKind.ofStatic c ↔ b = c := by
  revert b c
  decide

theorem ofStatic_ne_wire (b : Bool) : NetKind.ofStatic b ≠ .wire := by
  revert b
  decide

/-! ## One entry -/

structure Names (nl : Netlist) (entry : NetDescription) (n : NetId) (nl' : Netlist) : Prop where
  kind : (∃ isVcc, entry.kind = .ofStatic isVcc ∧ n = staticNet isVcc) ∨
    entry.kind = .wire ∧ nl.nameOf? n = none ∧ nl.netNamed? entry.name = none
  names : ∀ m, nl'.nameOf? m = if m = n then some entry.name else nl.nameOf? m
  index : ∀ name, nl'.netNamed? name =
    if name = entry.name then some n
    else if nl.nameOf? n = some name ∧ ¬ IsStaticName name then none
    else nl.netNamed? name

theorem Names.rejoins (h : Names nl entry n nl') (hrejoins : nl'.Rejoins nl'') :
    Names nl entry n nl'' where
  kind := h.kind
  names m := (hrejoins.nets m).trans (h.names m)
  index name := by
    rw [← h.index name, netNamed?, netNamed?, hrejoins.netIndex]

theorem names_renameNet (isVcc : Bool) (hkind : entry.kind = .ofStatic isVcc)
    (hlive : (nl.nameOf? (staticNet isVcc)).isSome) :
    Names nl entry (staticNet isVcc) (nl.renameNet (staticNet isVcc) entry.name) := by
  rw [nameOf?, Option.isSome_map] at hlive
  obtain ⟨net, hnet⟩ := Option.isSome_iff_exists.1 hlive
  refine ⟨.inl ⟨isVcc, hkind, rfl⟩, fun m => ?_, fun name => ?_⟩
  · unfold nameOf?
    rw [net?_renameNet]
    split
    next heq => rw [heq, hnet, Option.map_some, Option.map_some]
    next => rfl
  · have hopen : (nl.renameNet (staticNet isVcc) entry.name).netIndex =
        (if IsStaticName net.name then nl.netIndex
          else nl.netIndex.erase net.name).insert entry.name (staticNet isVcc) := by
      unfold renameNet
      rw [hnet]
      rfl
    have hold : nl.nameOf? (staticNet isVcc) = some net.name := by
      rw [nameOf?, hnet, Option.map_some]
    rw [netNamed?, hopen, hold]
    simp only [Std.ExtTreeMap.getElem?_insert, Std.LawfulEqCmp.compare_eq_iff_eq,
      @eq_comm _ entry.name, Option.some.injEq]
    refine if_congr Iff.rfl rfl ?_
    by_cases hstatic : IsStaticName net.name
    · rw [if_pos hstatic, if_neg fun h => h.2 (h.1 ▸ hstatic), netNamed?]
    · rw [if_neg hstatic, Std.ExtTreeMap.getElem?_erase, netNamed?]
      refine if_congr ?_ rfl rfl
      rw [Std.LawfulEqCmp.compare_eq_iff_eq]
      exact ⟨fun heq => ⟨heq, heq ▸ hstatic⟩, And.left⟩

theorem names_addNet (hkind : entry.kind = .wire) (hfree : nl.netNamed? entry.name = none) :
    Names nl entry nl.nextNet (nl.addNet entry.name .wire) := by
  have hnew : nl.nameOf? nl.nextNet = none := by
    simp [nameOf?, net?, nextNet]
  refine ⟨.inr ⟨hkind, hnew, hfree⟩, fun m => ?_, fun name => ?_⟩
  · unfold nameOf?
    rw [net?_addNet]
    split <;> rfl
  · simp [hnew, netNamed?, addNet, Std.ExtTreeMap.getElem?_insert, @eq_comm _ entry.name]

theorem names_of_openNet (hlive : ∀ isVcc, (nl.nameOf? (staticNet isVcc)).isSome)
    (h : nl.openNet entry = .ok (n, nl')) : Names nl entry n nl' := by
  unfold openNet at h
  split at h
  next hkind =>
    cases h
    exact names_renameNet true hkind (hlive true)
  next hkind =>
    cases h
    exact names_renameNet false hkind (hlive false)
  next hkind =>
    split at h
    · cases h
    next hfree =>
      cases h
      exact names_addNet hkind (by simpa using hfree)

theorem names_of_addDescribedNet {seen seen' : KeySet String}
    (hlive : ∀ isVcc, (nl.nameOf? (staticNet isVcc)).isSome)
    (h : addDescribedNet (seen, nl) entry = .ok (seen', nl')) :
    entry.name ∉ seen ∧ seen' = seen.insert entry.name ∧
      ∃ n opened, nl.openNet entry = .ok (n, opened) ∧ Names nl entry n nl' := by
  unfold addDescribedNet at h
  dsimp only at h
  split at h
  · cases h
  next hnew =>
    obtain ⟨⟨n, opened⟩, hopen, h⟩ := Checked.bind_eq_ok.1 h
    obtain ⟨joined, hjoin, h⟩ := Checked.bind_eq_ok.1 h
    cases Checked.pure_eq_ok.1 h
    have hrejoins : opened.Rejoins nl' := by
      refine Checked.foldlM_keeps (fun mid => opened.Rejoins mid)
        (fun mid path _ mid' hkeeps hsink => ?_) (.refl opened) hjoin
      unfold addDescribedSink at hsink
      split at hsink
      · cases hsink
      next p _ =>
        cases hsink
        exact hkeeps.trans (.attach mid n p)
    exact ⟨hnew, rfl, n, opened, hopen, (names_of_openNet hlive hopen).rejoins hrejoins⟩

/-! ## The entries so far -/

structure Listed (done : List NetDescription) (seen : KeySet String) (nl : Netlist) : Prop where
  seen : ∀ name, name ∈ seen ↔ ∃ entry ∈ done, entry.name = name
  live : ∀ isVcc, (nl.nameOf? (staticNet isVcc)).isSome
  names : ∀ n name, nl.nameOf? n = some name →
    (∃ isVcc, n = staticNet isVcc ∧ name = staticName isVcc) ∨
      ∃ entry ∈ done, entry.name = name ∧
        (entry.kind = .wire ∨ ∃ isVcc, entry.kind = .ofStatic isVcc ∧ n = staticNet isVcc)
  /-- So no net of another kind can get the name of a constant. -/
  taken : ∀ isVcc, (nl.netNamed? (staticName isVcc)).isSome
  untouched : ∀ isVcc, (∀ entry ∈ done, entry.name ≠ staticName isVcc) →
    nl.netNamed? (staticName isVcc) = some (staticNet isVcc)
  wires : ∀ entry ∈ done, entry.kind = .wire → ¬ IsStaticName entry.name

theorem Listed.step {done : List NetDescription} {seen : KeySet String} (h : Listed done seen nl)
    (hnames : Names nl entry n nl') : Listed (done ++ [entry]) (seen.insert entry.name) nl' where
  seen name := by
    simp [h.seen, or_comm]
  live isVcc := by
    rw [hnames.names]
    split
    · rfl
    · exact h.live isVcc
  names m name hm := by
    rw [hnames.names] at hm
    split at hm
    next heq =>
      refine .inr ⟨entry, by simp, Option.some.inj hm, ?_⟩
      rcases hnames.kind with ⟨isVcc, hkind, hn⟩ | ⟨hkind, -⟩
      · exact .inr ⟨isVcc, hkind, heq.trans hn⟩
      · exact .inl hkind
    next =>
      refine (h.names m name hm).imp_right ?_
      rintro ⟨entry', hmem, hold⟩
      exact ⟨entry', List.mem_append_left _ hmem, hold⟩
  taken isVcc := by
    rw [hnames.index]
    split
    · rfl
    · rw [if_neg fun h => h.2 (isStaticName_iff.2 ⟨isVcc, rfl⟩)]
      exact h.taken isVcc
  untouched isVcc hother := by
    have hne : staticName isVcc ≠ entry.name := (hother entry (by simp)).symm
    rw [hnames.index, if_neg hne, if_neg fun h => h.2 (isStaticName_iff.2 ⟨isVcc, rfl⟩)]
    exact h.untouched isVcc fun entry' hmem => hother entry' (List.mem_append_left _ hmem)
  wires entry' hmem hwire := by
    rcases List.mem_append.1 hmem with hold | hnew
    · exact h.wires entry' hold hwire
    · obtain rfl := List.mem_singleton.1 hnew
      rcases hnames.kind with ⟨isVcc, hkind, -⟩ | ⟨-, -, hfree⟩
      · exact absurd (hkind.symm.trans hwire) (ofStatic_ne_wire isVcc)
      · intro hstatic
        obtain ⟨isVcc, hname⟩ := isStaticName_iff.1 hstatic
        have htaken := h.taken isVcc
        rw [← hname, hfree] at htaken
        cases htaken

/-! ## One entry and those behind it -/

/-- The name that an entry gives a constant is given up for that of a later entry. -/
def Superseded (entry : NetDescription) (later : List NetDescription) : Prop :=
  entry.kind ≠ .wire ∧ ¬ IsStaticName entry.name ∧ ∃ entry' ∈ later, entry'.kind = entry.kind

theorem superseded_concat {later : List NetDescription} {entry' : NetDescription} :
    Superseded entry (later ++ [entry']) ↔ Superseded entry later ∨
      entry.kind ≠ .wire ∧ ¬ IsStaticName entry.name ∧ entry'.kind = entry.kind := by
  unfold Superseded
  simp only [List.mem_append, List.mem_singleton, or_and_right, exists_or, exists_eq_left,
    and_or_left]

structure Means (entry : NetDescription) (n : NetId) (later : List NetDescription)
    (nl : Netlist) : Prop where
  kind : ∀ isVcc, n = staticNet isVcc ↔ entry.kind = .ofStatic isVcc
  live : (nl.nameOf? n).isSome
  index : ∀ m, nl.netNamed? entry.name = some m ↔ m = n ∧ ¬ Superseded entry later
  names : ¬ IsStaticName entry.name →
    ∀ m, nl.nameOf? m = some entry.name ↔ m = n ∧ ¬ Superseded entry later

theorem means_of_names {before : List NetDescription} {seen : KeySet String}
    (hlisted : Listed before seen nl) (hnew : entry.name ∉ seen) (h : Names nl entry n nl') :
    Means entry n [] nl' where
  kind isVcc := by
    rcases h.kind with ⟨isVcc', hkind, rfl⟩ | ⟨hkind, hn, -⟩
    · rw [hkind, staticNet_inj, ofStatic_inj]
    · refine iff_of_false ?_ fun hstatic => ofStatic_ne_wire isVcc (hstatic.symm.trans hkind)
      rintro rfl
      have hlive := hlisted.live isVcc
      rw [hn] at hlive
      cases hlive
  live := by
    rw [h.names, if_pos rfl]
    rfl
  index m := by
    rw [h.index, if_pos rfl, Option.some.injEq]
    simp [Superseded, eq_comm]
  names hstatic m := by
    rw [h.names]
    -- No net has the name yet, for it is that of no constant and of no entry before.
    have hnever : nl.nameOf? m ≠ some entry.name := by
      intro hm
      rcases hlisted.names m _ hm with ⟨isVcc, -, hname⟩ | ⟨entry', hmem, hname, -⟩
      · exact hstatic (isStaticName_iff.2 ⟨isVcc, hname⟩)
      · exact hnew ((hlisted.seen _).2 ⟨entry', hmem, hname⟩)
    split
    next heq => simp [heq, Superseded]
    next hne => simp [hnever, hne]

namespace Means

variable {later : List NetDescription} {entry' : NetDescription} {k : NetId}

/-- A later entry takes the net of this one only if both are for the same constant. -/
theorem net_eq_iff (h : Means entry n later nl) (hnames : Names nl entry' k nl') :
    k = n ↔ entry.kind ≠ .wire ∧ entry'.kind = entry.kind := by
  rcases hnames.kind with ⟨isVcc, hkind, rfl⟩ | ⟨hkind, hk, -⟩
  · rw [eq_comm, h.kind, hkind, eq_comm]
    refine ⟨fun heq => ⟨heq ▸ ofStatic_ne_wire isVcc, heq⟩, And.right⟩
  · refine iff_of_false ?_ fun hsame => hsame.1 (hsame.2.symm.trans hkind)
    rintro rfl
    have hlive := h.live
    rw [hk] at hlive
    cases hlive

theorem superseded_concat_iff (h : Means entry n later nl) (hnames : Names nl entry' k nl') :
    Superseded entry (later ++ [entry']) ↔
      Superseded entry later ∨ ¬ IsStaticName entry.name ∧ k = n := by
  rw [superseded_concat, h.net_eq_iff hnames, and_left_comm]

theorem step (h : Means entry n later nl) (hnames : Names nl entry' k nl')
    (hne : entry.name ≠ entry'.name) : Means entry n (later ++ [entry']) nl' where
  kind := h.kind
  live := by
    rw [hnames.names]
    split
    · rfl
    · exact h.live
  index m := by
    rw [hnames.index, if_neg hne, h.superseded_concat_iff hnames]
    by_cases hstatic : IsStaticName entry.name
    · simp [hstatic, h.index]
    · by_cases hk : k = n
      · by_cases hold : Superseded entry later
        · simp [hstatic, hk, hold, h.names, h.index]
        · simp [hstatic, hk, hold, h.names]
      · simp [hstatic, hk, h.names, h.index]
  names hstatic m := by
    rw [hnames.names, h.superseded_concat_iff hnames]
    split
    next heq =>
      refine iff_of_false (fun h => hne (Option.some.inj h).symm) ?_
      rintro ⟨rfl, hkept⟩
      exact hkept (.inr ⟨hstatic, heq.symm⟩)
    next hother =>
      rw [h.names hstatic]
      refine and_congr_right fun hm => not_congr ⟨.inl, fun hgone => hgone.resolve_right ?_⟩
      exact fun hk => hother (hm.trans hk.2.symm)

end Means

/-! ## Whole descriptions -/

def naming (nl : Netlist) : Array (Option Net) × Table String NetId := (nl.nets, nl.netIndex)

theorem naming_of_addDescribedPin {cell : CellDescription} {c : CellId} {bel : Option BelId}
    {pin : PinDescription} (h : addDescribedPin d cell c bel nl pin = .ok nl') :
    nl'.naming = nl.naming := by
  unfold addDescribedPin at h
  split at h
  · cases h
    rfl
  · split at h
    · cases h
    next bel =>
      refine Checked.foldlM_keeps (fun mid => mid.naming = nl.naming)
        (fun mid name _ mid' hkeeps hmap => ?_) rfl h
      unfold addMapping at hmap
      split at hmap
      · cases hmap
      · split at hmap
        · cases hmap
        · cases hmap
          exact hkeeps

theorem naming_of_addDescribedCell {cell : CellDescription}
    (h : addDescribedCell d nl cell = .ok nl') : nl'.naming = nl.naming := by
  have hpins : ∀ {c : CellId} {bel : Option BelId} {mid : Netlist},
      cell.pins.foldlM (addDescribedPin d cell c bel) mid = .ok nl' → mid.naming = nl.naming →
      nl'.naming = nl.naming :=
    fun hfold hmid => Checked.foldlM_keeps (fun mid => mid.naming = nl.naming)
      (fun _ _ _ _ hkeeps hpin => (naming_of_addDescribedPin hpin).trans hkeeps) hmid hfold
  unfold addDescribedCell at h
  split at h
  · cases h
  · dsimp only at h
    split at h
    · exact hpins h rfl
    · split at h
      · cases h
      · exact hpins h rfl

theorem naming_of_addDescribedCells {cells : List CellDescription} {name : String} {mode : Mode}
    (h : cells.foldlM (addDescribedCell d) (empty name mode) = .ok nl) :
    nl.naming = (empty name mode).naming :=
  Checked.foldlM_keeps (fun mid => mid.naming = (empty name mode).naming)
    (fun _ _ _ _ hkeeps hcell => (naming_of_addDescribedCell hcell).trans hkeeps) rfl h

theorem listed_of_cells {cells : List CellDescription} {name : String} {mode : Mode}
    (h : cells.foldlM (addDescribedCell d) (empty name mode) = .ok nl) : Listed [] ∅ nl := by
  have hnaming := naming_of_addDescribedCells h
  have hname : ∀ n, nl.nameOf? n = (empty name mode).nameOf? n := by
    intro n
    unfold nameOf? net?
    rw [show nl.nets = (empty name mode).nets from congrArg Prod.fst hnaming]
  have hnamed : ∀ name', nl.netNamed? name' = (empty name mode).netNamed? name' := by
    intro name'
    unfold netNamed?
    rw [show nl.netIndex = (empty name mode).netIndex from congrArg Prod.snd hnaming]
  have hstatic : ∀ isVcc, (empty name mode).netNamed? (staticName isVcc) =
      some (staticNet isVcc) := by
    intro isVcc
    cases isVcc <;> simp [netNamed?, empty, Netlist.addNet, staticName, vccName, gndName] <;> rfl
  refine ⟨by simp, fun isVcc => ?_, fun n name' hn => .inl ?_, fun isVcc => ?_, fun isVcc _ => ?_,
    by simp⟩
  · rw [hname]
    cases isVcc <;> rfl
  · rw [hname] at hn
    unfold nameOf? empty at hn
    rw [net?_addNet, net?_addNet] at hn
    split at hn
    next heq => exact ⟨false, heq, (Option.some.inj hn).symm⟩
    · split at hn
      next heq => exact ⟨true, heq, (Option.some.inj hn).symm⟩
      · cases hn
  · rw [hnamed, hstatic]
    rfl
  · rw [hnamed, hstatic]

theorem listed_of_nets {nets : List NetDescription} {seen : KeySet String}
    (hlisted : Listed [] ∅ nl) (h : nets.foldlM addDescribedNet (∅, nl) = .ok (seen, nl')) :
    Listed nets seen nl' := by
  refine Checked.foldlM_done (fun done state => Listed done state.1 state.2)
    (fun done entry _ state state' _ hdone hstep => ?_) hlisted h
  obtain ⟨-, hseen, _, _, _, hnames⟩ := names_of_addDescribedNet hdone.live hstep
  rw [hseen]
  exact hdone.step hnames

theorem means_of_nets {before after : List NetDescription} {seen : KeySet String}
    (hlisted : Listed [] ∅ nl)
    (h : (before ++ entry :: after).foldlM addDescribedNet (∅, nl) = .ok (seen, nl')) :
    ∃ seen₁ nl₁ n opened, before.foldlM addDescribedNet (∅, nl) = .ok (seen₁, nl₁) ∧
      nl₁.openNet entry = .ok (n, opened) ∧ Means entry n after nl' := by
  rw [List.foldlM_append] at h
  obtain ⟨⟨seen₁, nl₁⟩, hbefore, h⟩ := Checked.bind_eq_ok.1 h
  rw [List.foldlM_cons] at h
  obtain ⟨⟨seen₂, nl₂⟩, hentry, hafter⟩ := Checked.bind_eq_ok.1 h
  have hlisted₁ := listed_of_nets hlisted hbefore
  obtain ⟨hnew, rfl, n, opened, hopen, hnames⟩ := names_of_addDescribedNet hlisted₁.live hentry
  refine ⟨seen₁, nl₁, n, opened, hbefore, hopen, ?_⟩
  -- behind the entry its name is taken, so no later entry has it
  refine (Checked.foldlM_done
    (fun later state => Means entry n later state.2 ∧
      Listed (before ++ [entry] ++ later) state.1 state.2)
    (fun later entry' _ state state' _ hdone hstep => ?_)
    ⟨means_of_names hlisted₁ hnew hnames, by simpa using hlisted₁.step hnames⟩ hafter).1
  obtain ⟨hmeans, hlisted'⟩ := hdone
  obtain ⟨hnew', hseen, _, _, _, hnames'⟩ := names_of_addDescribedNet hlisted'.live hstep
  have hne : entry.name ≠ entry'.name := by
    intro heq
    exact hnew' ((hlisted'.seen _).2 ⟨entry, by simp, heq⟩)
  rw [hseen, ← List.append_assoc]
  exact ⟨hmeans.step hnames' hne, hlisted'.step hnames'⟩

/-- The net that an entry is loaded into, in the netlist that the entries before it lead to. -/
def LoadedInto (d : Device) (desc : NetlistDescription) (before : List NetDescription)
    (entry : NetDescription) (n : NetId) : Prop :=
  ∃ placed seen nl opened, desc.cells.foldlM (addDescribedCell d) (empty desc.name desc.mode) =
      .ok placed ∧
    before.foldlM addDescribedNet (∅, placed) = .ok (seen, nl) ∧
    nl.openNet entry = .ok (n, opened)

/-- The entry gives a constant the name of the other one. -/
def Crosses (entry : NetDescription) : Prop :=
  ∃ isVcc, entry.kind = .ofStatic isVcc ∧ entry.name = staticName !isVcc

/-- A loaded netlist knows the entries and what the name of each means. -/
theorem names_of_ofDescription {desc : NetlistDescription} (h : ofDescription d desc = .ok nl) :
    (∃ seen, Listed desc.nets seen nl) ∧
    ∀ before entry after, desc.nets = before ++ entry :: after →
      ∃ n, LoadedInto d desc before entry n ∧ Means entry n after nl := by
  unfold ofDescription at h
  obtain ⟨placed, hplaced, h⟩ := Checked.bind_eq_ok.1 h
  obtain ⟨⟨seen, joined⟩, hjoined, h⟩ := Checked.bind_eq_ok.1 h
  cases Checked.pure_eq_ok.1 h
  have hlisted := listed_of_cells hplaced
  refine ⟨⟨seen, ?_⟩, fun before entry after hnets => ?_⟩
  · exact { listed_of_nets hlisted hjoined with }
  · rw [hnets] at hjoined
    obtain ⟨seen₁, nl₁, n, opened, hbefore, hopen, hmeans⟩ := means_of_nets hlisted hjoined
    exact ⟨n, ⟨placed, seen₁, nl₁, opened, hplaced, hbefore, hopen⟩, { hmeans with }⟩

section loaded

variable {desc : NetlistDescription} (h : ofDescription d desc = .ok nl)

include h

theorem netNamed?_of_nameOf? {name : String} (hname : nl.nameOf? n = some name)
    (hother : ¬ IsStaticName name) : nl.netNamed? name = some n := by
  obtain ⟨⟨seen, hlisted⟩, hentries⟩ := names_of_ofDescription h
  rcases hlisted.names n name hname with ⟨isVcc, -, rfl⟩ | ⟨entry, hmem, rfl, -⟩
  · exact absurd (isStaticName_iff.2 ⟨isVcc, rfl⟩) hother
  · obtain ⟨before, after, hnets⟩ := List.append_of_mem hmem
    obtain ⟨m, -, hmeans⟩ := hentries before entry after hnets
    exact (hmeans.index n).2 ((hmeans.names hother n).1 hname)

theorem kind_of_staticName (hstraight : ∀ entry ∈ desc.nets, ¬ Crosses entry) {isVcc : Bool}
    (hmem : entry ∈ desc.nets) (hname : entry.name = staticName isVcc) :
    entry.kind = .ofStatic isVcc := by
  obtain ⟨⟨seen, hlisted⟩, -⟩ := names_of_ofDescription h
  cases hkind : entry.kind with
  | wire => exact absurd (isStaticName_iff.2 ⟨isVcc, hname⟩) (hlisted.wires entry hmem hkind)
  | vcc =>
    cases isVcc with
    | true => rfl
    | false => exact absurd ⟨true, hkind, hname⟩ (hstraight entry hmem)
  | gnd =>
    cases isVcc with
    | true => exact absurd ⟨false, hkind, hname⟩ (hstraight entry hmem)
    | false => rfl

theorem net_of_staticName (hstraight : ∀ entry ∈ desc.nets, ¬ Crosses entry) {isVcc : Bool}
    (hname : nl.nameOf? n = some (staticName isVcc)) : n = staticNet isVcc := by
  obtain ⟨⟨seen, hlisted⟩, -⟩ := names_of_ofDescription h
  rcases hlisted.names n _ hname with ⟨isVcc', hn, hown⟩ | ⟨entry, hmem, hentry, hkind⟩
  · rw [hn, staticNet_inj, ← staticName_inj, hown]
  · have hfor := kind_of_staticName h hstraight hmem hentry
    rcases hkind with hwire | ⟨isVcc', hkind, rfl⟩
    · exact absurd (hfor.symm.trans hwire) (ofStatic_ne_wire isVcc)
    · rw [staticNet_inj, ← ofStatic_inj, ← hkind, hfor]

theorem netNamed?_staticName (hstraight : ∀ entry ∈ desc.nets, ¬ Crosses entry) (isVcc : Bool) :
    nl.netNamed? (staticName isVcc) = some (staticNet isVcc) := by
  obtain ⟨⟨seen, hlisted⟩, hentries⟩ := names_of_ofDescription h
  by_cases hnever : ∀ entry ∈ desc.nets, entry.name ≠ staticName isVcc
  · exact hlisted.untouched isVcc hnever
  · simp only [not_forall, not_not] at hnever
    obtain ⟨entry, hmem, hname⟩ := hnever
    obtain ⟨before, after, hnets⟩ := List.append_of_mem hmem
    obtain ⟨n, -, hmeans⟩ := hentries before entry after hnets
    have hkind := kind_of_staticName h hstraight hmem hname
    rw [← hname, ← (hmeans.kind isVcc).2 hkind]
    exact (hmeans.index n).2 ⟨rfl, fun hgone => hgone.2.1 (isStaticName_iff.2 ⟨isVcc, hname⟩)⟩

end loaded

/-- Every name leads to a net that is there. The name of an entry leads to the net that the entry
was loaded into, unless it is a name of a constant that a later entry for the constant replaces:
that leads nowhere. The name of every net leads to the net, and the names of the constants do so if
no constant is given the name of the other one. Such a crossing entry takes over a name that is to
stay with its own constant, so nothing is said of where the name of that entry leads. -/
theorem netNamed_of_ofDescription {desc : NetlistDescription} (h : ofDescription d desc = .ok nl) :
    (∀ name n, nl.netNamed? name = some n → (nl.net? n).isSome) ∧
    (∀ before entry after, desc.nets = before ++ entry :: after →
      ∃ n, LoadedInto d desc before entry n ∧ (¬ Crosses entry →
        ∀ m, nl.netNamed? entry.name = some m ↔ m = n ∧ ¬ Superseded entry after)) ∧
    (∀ n net, nl.net? n = some net → ¬ IsStaticName net.name →
      nl.netNamed? net.name = some n) ∧
    ((∀ entry ∈ desc.nets, ¬ Crosses entry) →
      (∀ isVcc, nl.netNamed? (staticName isVcc) = some (staticNet isVcc)) ∧
      ∀ n net, nl.net? n = some net → nl.netNamed? net.name = some n) := by
  have hname : ∀ {n net}, nl.net? n = some net → nl.nameOf? n = some net.name := by
    intro n net hn
    rw [nameOf?, hn, Option.map_some]
  refine ⟨fun name n hnamed => ?_, fun before entry after hnets => ?_, fun n net hn hother => ?_,
    fun hstraight => ⟨netNamed?_staticName h hstraight, fun n net hn => ?_⟩⟩
  · obtain ⟨net, hn, -⟩ := (closed_of_ofDescription h).named_net name n hnamed
    rw [hn]
    rfl
  · obtain ⟨n, hloaded, hmeans⟩ := (names_of_ofDescription h).2 before entry after hnets
    exact ⟨n, hloaded, fun _ => hmeans.index⟩
  · exact netNamed?_of_nameOf? h (hname hn) hother
  · by_cases hstatic : IsStaticName net.name
    · obtain ⟨isVcc, hkept⟩ := isStaticName_iff.1 hstatic
      rw [net_of_staticName h hstraight ((hname hn).trans (congrArg some hkept)), hkept]
      exact netNamed?_staticName h hstraight isVcc
    · exact netNamed?_of_nameOf? h (hname hn) hstatic

def emptyDevice : DeviceDescription where
  name := "empty"
  family := .other
  tiles := []
  siteTypes := []
  sites := []

def renamedTwice : NetlistDescription where
  name := "top"
  mode := .regular
  cells := []
  nets := [⟨"P1", .vcc, []⟩, ⟨"n", .wire, []⟩, ⟨"P2", .vcc, []⟩, ⟨"GND", .gnd, []⟩]
  staticNetOf := ∅
  staticRoutes := ∅

theorem netNamed_of_ofDescription_renamedTwice : ∃ d nl,
    Device.ofDescription emptyDevice = .ok d ∧ ofDescription d renamedTwice = .ok nl ∧
    (∀ entry ∈ renamedTwice.nets, ¬ Crosses entry) ∧
    nl.netNamed? "VCC" = some vcc ∧ nl.netNamed? "GND" = some gnd ∧
    nl.netNamed? "P1" = none ∧
    (∃ n, LoadedInto d renamedTwice (renamedTwice.nets.take 1) ⟨"n", .wire, []⟩ n ∧
      nl.netNamed? "n" = some n) ∧
    ∀ n net, nl.net? n = some net → nl.netNamed? net.name = some n := by
  have hd : Device.ofDescription emptyDevice =
      .ok ((Device.ofDescription emptyDevice).toOption.get rfl) := rfl
  have hloads : (ofDescription ((Device.ofDescription emptyDevice).toOption.get rfl)
      renamedTwice).toOption.isSome := by
    decide +kernel
  obtain ⟨nl, hnl⟩ := Option.isSome_iff_exists.1 hloads
  rw [Checked.toOption_eq_some] at hnl
  have hstraight : ∀ entry ∈ renamedTwice.nets, ¬ Crosses entry := by
    simp [renamedTwice, Crosses, NetKind.ofStatic, staticName, vccName, gndName]
  obtain ⟨-, hentries, -, hrest⟩ := netNamed_of_ofDescription hnl
  obtain ⟨hstatic, hlive⟩ := hrest hstraight
  obtain ⟨n, -, hfirst⟩ := hentries [] ⟨"P1", .vcc, []⟩ _ rfl
  obtain ⟨m, hloaded, hwire⟩ := hentries [⟨"P1", .vcc, []⟩] ⟨"n", .wire, []⟩ _ rfl
  refine ⟨_, nl, hd, hnl, hstraight, hstatic true, hstatic false, ?_, ⟨m, hloaded, ?_⟩, hlive⟩
  · refine Option.eq_none_iff_forall_ne_some.2 fun k hk => ?_
    refine ((hfirst (hstraight _ (by simp [renamedTwice])) k).1 hk).2 ⟨by decide, by decide, ?_⟩
    exact ⟨⟨"P2", .vcc, []⟩, by simp, rfl⟩
  · exact (hwire (hstraight _ (by simp [renamedTwice])) m).2 ⟨rfl, fun hgone => hgone.1 rfl⟩

/-- The first name that the constant is given is lost with the second one. -/
theorem netNamed_lost_renamedTwice : ∃ d nl before entry after n,
    Device.ofDescription emptyDevice = .ok d ∧ ofDescription d renamedTwice = .ok nl ∧
    renamedTwice.nets = before ++ entry :: after ∧ LoadedInto d renamedTwice before entry n ∧
    nl.netNamed? entry.name ≠ some n := by
  have hload : (do
      let d ← (Device.ofDescription emptyDevice).toOption
      let nl ← (ofDescription d renamedTwice).toOption
      return nl.netNamed? "P1") = some none := by
    decide +kernel
  simp only [Option.bind_eq_bind, Option.bind_eq_some_iff, Checked.toOption_eq_some,
    Option.pure_def, Option.some.injEq] at hload
  obtain ⟨d, hd, nl, hnl, hnone⟩ := hload
  refine ⟨d, nl, [], ⟨"P1", .vcc, []⟩, _, vcc, hd, hnl, rfl, ⟨_, _, _, _, rfl, rfl, rfl⟩, ?_⟩
  rw [hnone]
  exact nofun

end Netlist

end Fabric
