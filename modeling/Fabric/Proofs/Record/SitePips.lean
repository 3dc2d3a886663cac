import Fabric.Proofs.LastPlace
import Fabric.Proofs.Record.Mapping
/-!
# Site PIPs

A record about the PIPs of a site leaves two things behind: the wires that it puts in use, in place
of those of an earlier record, and the inputs that it chooses, beside those of earlier records. The
two go together where the last record about a site names every PIP again.
-/

namespace Fabric

open Relation (ReflTransGen)
open Netlist (Mounts)

/-! ## What a netlist knows of site PIPs -/

namespace Netlist

def usedWires (nl : Netlist) (s : SiteId) : KeySet WireName := (nl.usedSitePips[s]?).getD ∅

def chosenInputs (nl : Netlist) (s : SiteId) : Table String String :=
  (nl.sitePipValues[s]?).getD ∅

variable {d : Device} {nl nl' : Netlist}

theorem usedWires_congr (h : nl'.sitePips = nl.sitePips) (s : SiteId) :
    nl'.usedWires s = nl.usedWires s := by
  unfold usedWires
  rw [show nl'.usedSitePips = nl.usedSitePips from congrArg Prod.fst h]

theorem chosenInputs_congr (h : nl'.sitePips = nl.sitePips) (s : SiteId) :
    nl'.chosenInputs s = nl.chosenInputs s := by
  unfold chosenInputs
  rw [show nl'.sitePipValues = nl.sitePipValues from congrArg Prod.snd h]

section choose

variable (nl) (t : SiteId) (wires : KeySet WireName) (values : List (String × String)) (s : SiteId)

theorem usedWires_choose : ((nl.setUsedSitePips t wires).addSitePipValues t values).usedWires s =
    if t = s then wires else nl.usedWires s := by
  simp only [usedWires, addSitePipValues, setUsedSitePips, Std.ExtTreeMap.getElem?_insert,
    Std.LawfulEqCmp.compare_eq_iff_eq]
  split <;> rfl

theorem chosenInputs_choose :
    ((nl.setUsedSitePips t wires).addSitePipValues t values).chosenInputs s =
      if t = s then (nl.chosenInputs s).insertMany values else nl.chosenInputs s := by
  simp only [chosenInputs, addSitePipValues, setUsedSitePips, Std.ExtTreeMap.getElem?_alter,
    Std.LawfulEqCmp.compare_eq_iff_eq]
  split
  next heq => rw [heq, Option.getD_some]
  next => rfl

end choose

theorem sitePips_of_mounts (h : ReflTransGen (Mounts d False) nl nl') :
    nl'.sitePips = nl.sitePips := by
  induction h with
  | refl => rfl
  | tail _ hstep ih =>
    refine Eq.trans ?_ ih
    cases hstep with
    | still hstill => exact hstill.sitePips.resolve_left not_false
    | cell => rfl
    | place => rfl
    | pin => rfl
    | map => rfl
    | tie => rfl

end Netlist

namespace Record

variable {d : Device} {desc : DeviceDescription} {im im' : Importer}

/-! ## Records that choose no inputs -/

def Rests (nl : Netlist) (im : Importer) : Prop :=
  im.netlist.Consistent ∧ im.netlist.sitePips = nl.sitePips

theorem admits_rests (hd : Device.ofDescription desc = .ok d) (nl : Netlist) :
    Admits d (fun _ => True) False True (Rests nl) where
  adds _ _ hrests hadds :=
    ⟨hadds.consistent hrests.1, (Netlist.sitePips_of_mounts (hadds.mounts hd)).trans hrests.2⟩
  closed _ _ := .inl trivial

theorem admitsTies_rests (hd : Device.ofDescription desc = .ok d) (nl : Netlist) (isVcc : Bool)
    (names : List String) : AdmitsTies True (Rests nl) isVcc names where
  nodes im port node hrests := (admits_rests hd nl).adds im _ hrests (.portNode port node)
  consistent _ hrests := hrests.1
  closed _ _ := .inl trivial
  other _ _ _ _ := .inl trivial
  ties _ _ hrests _ _ _ _ hties :=
    ⟨hties.consistent hrests.1, (Netlist.sitePips_of_mounts (d := d) hties.mounts).trans hrests.2⟩

theorem rests_of_process (hd : Device.ofDescription desc = .ok d) (hc : im.netlist.Consistent)
    {kind : RecordKind} (hkind : kind ≠ .sitePips) (args : List String) :
    Ensures True (Rests im.netlist) (process d kind args) im fun _ _ => True :=
  (ensures_process (admits_rests hd im.netlist) ⟨hc, rfl⟩ kind args (fun _ _ => trivial) hkind
    (fun _ _ _ hrests hbounds => ⟨hbounds.consistent hrests.1,
      (Netlist.sitePips_of_mounts (d := d) hbounds.mounts).trans hrests.2⟩)
    fun isVcc _ => ensures_staticPorts (admitsTies_rests hd im.netlist isVcc args) ⟨hc, rfl⟩).post
    fun _ _ _ _ => trivial

/-! ## Records about site PIPs -/

/-- What a record that is taken in leaves behind. Routes of constants are found and entered after
that, and choose nothing. -/
theorem sitePips_of_record (hd : Device.ofDescription desc = .ok d) (hc : im.netlist.Consistent)
    (args : List String) :
    Ensures True (fun im' => im'.netlist.Consistent) (sitePips d args) im fun _ im' =>
      ∃ siteName tokens t choices, args = siteName :: tokens ∧ d.siteNamed? siteName = some t ∧
        Gathers d t tokens choices ∧ im'.netlist.sitePips =
          ((im.netlist.setUsedSitePips t choices.used).addSitePipValues t choices.values).sitePips
    := by
  unfold sitePips
  split
  · exact .of_throw hc
  next siteName tokens =>
    refine (reads_require hc).bind fun t ht => ?_
    refine (reads_readSitePips hc t tokens).bind fun choices hchoices => ?_
    refine Ensures.bind (ensures_edit hc (.inr ⟨_, rfl⟩) ?_) fun _ im' hc' hedited => ?_
    · intro nl hnl
      cases hnl
      exact hc.congr (fun _ => rfl) (fun _ => rfl) hc.pin_of_cell
    · obtain ⟨nl, hnl, rfl⟩ := hedited
      have hrests : Rests nl { im with netlist := nl } := ⟨hc', rfl⟩
      refine (ensures_routeTieOffs (admits_rests hd nl) hrests t).mono (fun _ h => h.1) ?_
      intro _ im' hrests' _
      have hchosen := congrArg Netlist.sitePips (Checked.pure_eq_ok.1 hnl)
      exact ⟨siteName, tokens, t, choices, rfl, ht, hchoices, hrests'.2.trans hchosen⟩

/-! ## What lines say of site PIPs -/

def choicesOf? (d : Device) (s : SiteId) : List String → Option (List (String × String))
  | keyword :: siteName :: tokens =>
    if keyword = RecordKind.sitePips.keyword ∧ d.siteNamed? siteName = some s then
      some (tokens.filterMap (Text.cutFirst ':'))
    else none
  | _ => none

def sitePipRecords (d : Device) (s : SiteId) (lines : List (Nat × List String)) :
    List (List (String × String)) :=
  lines.filterMap fun (_, words) => choicesOf? d s words

theorem choicesOf?_of_head {words : List String} (s : SiteId)
    (hwords : words.head? ≠ some RecordKind.sitePips.keyword) : choicesOf? d s words = none := by
  unfold choicesOf?
  split
  next keyword siteName tokens => exact if_neg fun h => hwords (congrArg some h.1)
  next => rfl

structure Noted (d : Device) (lines : List (Nat × List String)) (nl : Netlist) : Prop where
  used : ∀ s v, v ∈ nl.usedWires s ↔ ∃ choices, (sitePipRecords d s lines).getLast? = some choices ∧
    ∃ choice ∈ choices, Opens d s choice v
  chosen : ∀ s, nl.chosenInputs s =
    (∅ : Table String String).insertMany (sitePipRecords d s lines).flatten

namespace Noted

variable {lines : List (Nat × List String)} {nl nl' : Netlist}

theorem append (h : Noted d lines nl) {new : List (Nat × List String)}
    (hnew : ∀ line words, (line, words) ∈ new →
      words.head? ≠ some RecordKind.sitePips.keyword)
    (hrests : nl'.sitePips = nl.sitePips) : Noted d (lines ++ new) nl' := by
  have hrecords : ∀ s, sitePipRecords d s (lines ++ new) = sitePipRecords d s lines := by
    intro s
    unfold sitePipRecords
    have hnone : new.filterMap (fun (_, words) => choicesOf? d s words) = [] :=
      List.filterMap_eq_nil_iff.2 fun (line, words) hmem =>
        choicesOf?_of_head s (hnew line words hmem)
    rw [List.filterMap_append, hnone, List.append_nil]
  refine ⟨fun s v => ?_, fun s => ?_⟩
  · rw [Netlist.usedWires_congr hrests, hrecords]
    exact h.used s v
  · rw [Netlist.chosenInputs_congr hrests, hrecords]
    exact h.chosen s

theorem record (h : Noted d lines nl) (line : Nat) {siteName : String} {tokens : List String}
    {t : SiteId} (ht : d.siteNamed? siteName = some t) {choices : SitePipChoices}
    (hchoices : Gathers d t tokens choices)
    (hnew : nl'.sitePips =
      ((nl.setUsedSitePips t choices.used).addSitePipValues t choices.values).sitePips) :
    Noted d (lines ++ [(line, RecordKind.sitePips.keyword :: siteName :: tokens)]) nl' := by
  have hrecords : ∀ s, sitePipRecords d s
      (lines ++ [(line, RecordKind.sitePips.keyword :: siteName :: tokens)]) =
        sitePipRecords d s lines ++ if t = s then [choices.values] else [] := by
    intro s
    unfold sitePipRecords
    rw [List.filterMap_append]
    congr 1
    by_cases heq : t = s
    · simp [choicesOf?, ht, heq, hchoices.values]
    · simp [choicesOf?, ht, heq]
  refine ⟨fun s v => ?_, fun s => ?_⟩
  · rw [Netlist.usedWires_congr hnew, Netlist.usedWires_choose, hrecords]
    by_cases heq : t = s
    · subst heq
      simp [hchoices.used]
    · simpa [heq] using h.used s v
  · rw [Netlist.chosenInputs_congr hnew, Netlist.chosenInputs_choose, hrecords]
    by_cases heq : t = s
    · subst heq
      simp [h.chosen, Std.ExtTreeMap.insertMany_append]
    · simpa [heq] using h.chosen s

end Noted

theorem admitsLines_noted (hd : Device.ofDescription desc = .ok d)
    (lines : List (Nat × List String)) :
    AdmitsLines d True (fun im => im.netlist.Consistent) fun im rest =>
      ∃ done, lines = done ++ rest ∧ im.netlist.Consistent ∧ Noted d done im.netlist where
  adds _ _ hc hadds := hadds.consistent hc
  closed _ _ := .inl trivial
  blank im line rest := by
    rintro ⟨done, hlines, hc, hnoted⟩
    exact ⟨done ++ [(line, [])], by simp [hlines], hc, hnoted.append (by simp) rfl⟩
  static im im' line startLine keyword args words rest isVcc hstatic hstart hP hrun := by
    obtain ⟨done, hlines, hc, hnoted⟩ := hP
    have hrests := (ensures_staticNet (admits_rests hd im.netlist) ⟨hc, rfl⟩ isVcc line startLine
      args words.tail).state hrun
    refine ⟨done ++ [(line, keyword :: args), (startLine, words)], by simp [hlines], hrests.1, ?_⟩
    refine hnoted.append (fun line' words' hmem => ?_) hrests.2
    exact head_ne_keyword_of_static hstatic hstart hmem .sitePips
  record im line keyword args rest kind hstatic hkind hc hP := by
    obtain ⟨done, hlines, -, hnoted⟩ := hP
    obtain rfl := keyword_of_ofKeyword? hkind
    by_cases hchoose : kind = .sitePips
    · subst hchoose
      refine (sitePips_of_record hd hc args).post fun _ im' hc' hrecord => ?_
      obtain ⟨siteName, tokens, t, choices, rfl, ht, hchoices, hnew⟩ := hrecord
      exact ⟨_, by simp [hlines], hc', hnoted.record line ht hchoices hnew⟩
    · refine (rests_of_process hd hc hchoose args).mono (fun _ hrests => hrests.1) ?_
      intro _ im' hrests _
      refine ⟨done ++ [(line, kind.keyword :: args)], by simp [hlines], hrests.1, ?_⟩
      refine hnoted.append (fun line' words' hmem hkeyword => hchoose ?_) hrests.2
      cases List.mem_singleton.1 hmem
      exact RecordKind.keyword_injective (Option.some.inj hkeyword)

/-! ## Whole texts -/

theorem noted_of_ofDescription {netlist : NetlistDescription} {nl : Netlist}
    (hnl : Netlist.ofDescription d netlist = .ok nl) : Noted d [] nl := by
  have hempty := Netlist.sitePips_of_mounts (Netlist.mounts_of_ofDescription hnl)
  refine ⟨fun s v => ?_, fun s => ?_⟩
  · rw [Netlist.usedWires_congr hempty]
    simp [Netlist.usedWires, Netlist.empty, Netlist.addNet, sitePipRecords]
  · rw [Netlist.chosenInputs_congr hempty]
    simp [Netlist.chosenInputs, Netlist.empty, Netlist.addNet, sitePipRecords]

theorem noted_of_importText (hd : Device.ofDescription desc = .ok d)
    {netlist : NetlistDescription} {nl : Netlist} (hnl : Netlist.ofDescription d netlist = .ok nl)
    {text : String}
    (hrun : (Importer.ofNetlist nl).importText d text = .ok (.ok (), im')) :
    Noted d (numberedLines text) im'.netlist := by
  have hloaded : nl.Consistent := (Netlist.closed_of_ofDescription hnl).toConsistent
  obtain ⟨im₁, ⟨done, hlines, hc, hnoted⟩, hfinish⟩ := (ensures_importText
    (admitsLines_noted hd (numberedLines text)) hloaded
    ⟨[], rfl, hloaded, noted_of_ofDescription hnl⟩).result hrun
  have hrests := (ensures_finish (admits_rests hd im₁.netlist) (fun _ => trivial)
    ⟨hc, rfl⟩).state hfinish
  rw [hlines, List.append_nil, ← List.append_nil done]
  exact hnoted.append (by simp) hrests.2

/-! ## Agreement -/

/-- The last record names every PIP of the earlier ones again. -/
def Renewed (records : List (List (String × String))) : Prop :=
  ∀ choices, records.getLast? = some choices →
    ∀ choice ∈ records.flatten, ∃ choice' ∈ choices, choice'.1 = choice.1

/-- The last record names no PIP with two inputs. -/
def Decided (records : List (List (String × String))) : Prop :=
  ∀ choices, records.getLast? = some choices →
    ∀ choice ∈ choices, ∀ choice' ∈ choices, choice'.1 = choice.1 → choice' = choice

section agreement

variable {records : List (List (String × String))}

theorem mem_getLast {choices : List (String × String)} (hlast : records.getLast? = some choices)
    {pip : String} (hnamed : ∃ choice ∈ choices, choice.1 = pip) {i : Nat}
    (hi : IsLastAt (fun choice => choice.1 = pip) records.flatten i) {choice : String × String}
    (hplace : records.flatten[i]? = some choice) : choice ∈ choices := by
  obtain ⟨earlier, rfl⟩ := List.getLast?_eq_some_iff.1 hlast
  rw [List.flatten_append, List.flatten_singleton] at hi hplace
  exact hi.mem_right hnamed hplace

theorem Renewed.mem_of_chosen (h : Renewed records) {pip input : String}
    (hchosen : ((∅ : Table String String).insertMany records.flatten)[pip]? = some input) :
    ∃ choices, records.getLast? = some choices ∧ (pip, input) ∈ choices := by
  obtain ⟨i, hi, hplace⟩ := (Table.getElem?_insertMany_empty _ _ _).1 hchosen
  have hmem := List.mem_of_getElem? hplace
  have hne : records ≠ [] := by
    rintro rfl
    cases hmem
  have hlast := List.getLast?_eq_some_getLast hne
  exact ⟨_, hlast, mem_getLast hlast (h _ hlast _ hmem) hi hplace⟩

theorem Decided.chosen_of_mem (h : Decided records) {choices : List (String × String)}
    (hlast : records.getLast? = some choices) {pip input : String}
    (hmem : (pip, input) ∈ choices) :
    ((∅ : Table String String).insertMany records.flatten)[pip]? = some input := by
  have hflat : (pip, input) ∈ records.flatten :=
    List.mem_flatten.2 ⟨choices, List.mem_of_getLast? hlast, hmem⟩
  obtain ⟨i, hi⟩ : ∃ i, IsLastAt (fun choice => choice.1 = pip) records.flatten i := by
    apply IsLastAt.exists_of_mem hflat
    rfl
  obtain ⟨choice, hplace, hpip⟩ := hi.1
  obtain rfl := h choices hlast _ hmem choice (mem_getLast hlast ⟨_, hmem, rfl⟩ hi hplace) hpip
  exact (Table.getElem?_insertMany_empty _ _ _).2 ⟨i, hi, hplace⟩

end agreement

/-- The wires that the chosen inputs of a site open. -/
def IsChosenWire (d : Device) (nl : Netlist) (s : SiteId) (v : WireName) : Prop :=
  ∃ pip input, (nl.chosenInputs s)[pip]? = some input ∧ Opens d s (pip, input) v

/-- After an import the wires in use at a site are those of the last record about it, and the
chosen input of each PIP is the last one that any record names. So the wires of chosen inputs are
in use if the last record names every PIP again, and the wires in use are those of chosen inputs
if it names no PIP twice. -/
theorem sitePips_of_importText (hd : Device.ofDescription desc = .ok d)
    {netlist : NetlistDescription} {nl : Netlist} (hnl : Netlist.ofDescription d netlist = .ok nl)
    {text : String}
    (hrun : (Importer.ofNetlist nl).importText d text = .ok (.ok (), im')) (s : SiteId) :
    let records := sitePipRecords d s (numberedLines text)
    (∀ v, v ∈ im'.netlist.usedWires s ↔ ∃ choices, records.getLast? = some choices ∧
      ∃ choice ∈ choices, Opens d s choice v) ∧
    (∀ pip input, (im'.netlist.chosenInputs s)[pip]? = some input ↔
      ∃ i, IsLastAt (fun choice => choice.1 = pip) records.flatten i ∧
        records.flatten[i]? = some (pip, input)) ∧
    (Renewed records → ∀ v, IsChosenWire d im'.netlist s v → v ∈ im'.netlist.usedWires s) ∧
    (Decided records → ∀ v, v ∈ im'.netlist.usedWires s → IsChosenWire d im'.netlist s v) := by
  intro records
  have hnoted := noted_of_importText hd hnl hrun
  have hused := hnoted.used s
  have hchosen := hnoted.chosen s
  refine ⟨hused, fun pip input => ?_, fun hrenewed v hv => ?_, fun hdecided v hv => ?_⟩
  · rw [hchosen]
    exact Table.getElem?_insertMany_empty _ _ _
  · obtain ⟨pip, input, hinput, hopens⟩ := hv
    rw [hchosen] at hinput
    obtain ⟨choices, hlast, hmem⟩ := hrenewed.mem_of_chosen hinput
    exact (hused v).2 ⟨choices, hlast, _, hmem, hopens⟩
  · obtain ⟨choices, hlast, ⟨pip, input⟩, hmem, hopens⟩ := (hused v).1 hv
    refine ⟨pip, input, ?_, hopens⟩
    rw [hchosen]
    exact hdecided.chosen_of_mem hlast hmem

def selectors : DeviceDescription where
  name := "selectors"
  family := .other
  tiles := [⟨"T", "CLB", []⟩]
  siteTypes := [⟨"SLICE", [
    ⟨"intrasite:SLICE/M.A", [⟨"intrasite:SLICE/M.O", none, .pip⟩]⟩,
    ⟨"intrasite:SLICE/M.B", [⟨"intrasite:SLICE/M.O", none, .pip⟩]⟩,
    ⟨"intrasite:SLICE/N.A", [⟨"intrasite:SLICE/N.O", none, .pip⟩]⟩,
    ⟨"intrasite:SLICE/M.O", []⟩, ⟨"intrasite:SLICE/N.O", []⟩], [], []⟩]
  sites := [⟨"S", "SLICE", "T"⟩]

def bareDesign : NetlistDescription where
  name := "top"
  mode := .regular
  cells := []
  nets := []
  staticNetOf := ∅
  staticRoutes := ∅

theorem sitePips_of_importText_selectors : ∃ d nl im',
    Device.ofDescription selectors = .ok d ∧ Netlist.ofDescription d bareDesign = .ok nl ∧
    (Importer.ofNetlist nl).importText d "SITE_PIPS S M:A\nSITE_PIPS S N:A M:B" =
      .ok (.ok (), im') ∧
    (im'.netlist.chosenInputs ⟨0⟩).toList = [("M", "B"), ("N", "A")] ∧
    ∀ v, v ∈ im'.netlist.usedWires ⟨0⟩ ↔ IsChosenWire d im'.netlist ⟨0⟩ v := by
  have hrun : (do
      let d ← (Device.ofDescription selectors).toOption
      let nl ← (Netlist.ofDescription d bareDesign).toOption
      let (r, im') ← ((Importer.ofNetlist nl).importText d
        "SITE_PIPS S M:A\nSITE_PIPS S N:A M:B").toOption
      return (r.toOption, (im'.netlist.chosenInputs ⟨0⟩).toList,
        sitePipRecords d ⟨0⟩ (numberedLines "SITE_PIPS S M:A\nSITE_PIPS S N:A M:B"))) =
        some (some (), [("M", "B"), ("N", "A")], [[("M", "A")], [("N", "A"), ("M", "B")]]) := by
    decide +kernel
  simp only [Option.bind_eq_bind, Option.bind_eq_some_iff, Checked.toOption_eq_some,
    Option.pure_def, Option.some.injEq, Prod.mk.injEq] at hrun
  obtain ⟨d, hd, nl, hnl, ⟨r, im'⟩, hrun, rfl, hchosen, hrecords⟩ := hrun
  obtain ⟨-, -, hrenewed, hdecided⟩ := sitePips_of_importText hd hnl hrun ⟨0⟩
  rw [hrecords] at hrenewed hdecided
  refine ⟨d, nl, im', hd, hnl, hrun, hchosen, fun v => ⟨hdecided ?_ v, hrenewed ?_ v⟩⟩
  · rintro choices ⟨⟩
    decide
  · rintro choices ⟨⟩
    decide

/-- The second record takes the wires of the first one out of use and keeps its choice. -/
theorem sitePips_disagree_selectors : ∃ d nl im',
    Device.ofDescription selectors = .ok d ∧ Netlist.ofDescription d bareDesign = .ok nl ∧
    (Importer.ofNetlist nl).importText d "SITE_PIPS S M:A\nSITE_PIPS S N:A" =
      .ok (.ok (), im') ∧
    ¬ ∀ v, v ∈ im'.netlist.usedWires ⟨0⟩ ↔ IsChosenWire d im'.netlist ⟨0⟩ v := by
  have hrun : (do
      let d ← (Device.ofDescription selectors).toOption
      let nl ← (Netlist.ofDescription d bareDesign).toOption
      let (r, im') ← ((Importer.ofNetlist nl).importText d
        "SITE_PIPS S M:A\nSITE_PIPS S N:A").toOption
      return (r.toOption, (im'.netlist.usedWires ⟨0⟩).contains ⟨0⟩,
        (im'.netlist.chosenInputs ⟨0⟩)["M"]?,
        d.wireNamed? ("intrasite:" ++ d.siteTypeName ⟨0⟩ ++ "/" ++ "M" ++ "." ++ "A"),
        (d.connections (.site ⟨0⟩ ⟨0⟩)).isEmpty)) =
        some (some (), false, some "A", some ⟨0⟩, false) := by
    decide +kernel
  simp only [Option.bind_eq_bind, Option.bind_eq_some_iff, Checked.toOption_eq_some,
    Option.pure_def, Option.some.injEq, Prod.mk.injEq] at hrun
  obtain ⟨d, hd, nl, hnl, ⟨r, im'⟩, hrun, rfl, hunused, hchosen, hname, hconnected⟩ := hrun
  refine ⟨d, nl, im', hd, hnl, hrun, fun hagree => ?_⟩
  obtain ⟨c, hc⟩ := List.exists_mem_of_ne_nil _ (List.isEmpty_eq_false_iff.1 hconnected)
  have hmem := (hagree ⟨0⟩).2 ⟨"M", "A", hchosen, ⟨0⟩, hname, c, hc, .inl rfl⟩
  rw [Std.ExtTreeSet.mem_iff_contains, hunused] at hmem
  cases hmem

end Record

end Fabric
