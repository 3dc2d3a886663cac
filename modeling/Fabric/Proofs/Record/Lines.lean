import Fabric.Proofs.Record.Ports
/-!
# Records on lines

A text is taken in record by record. What each record keeps is kept by the whole text, and by
each beginning of it.
-/

namespace Fabric

open Relation (ReflTransGen)

namespace Record

variable {d : Device} {S : NetId → Prop} {C F : Prop} {I : Importer → Prop} {im im' : Importer}

/-! ## Constant nets -/

theorem ensures_staticNet (h : Admits d S C F I) (him : I im) (isVcc : Bool) (line startLine : Nat)
    (tokens starts : List String) :
    Ensures F I (staticNet d isVcc line startLine tokens starts) im fun _ _ => True := by
  have hn : ∀ im, I im → F ∨ (im.netlist.net? (Netlist.staticNet isVcc)).isSome :=
    fun im him => live_constant h him isVcc
  unfold staticNet atLine
  refine (reads_readPips him tokens).adapt.bind fun pips im him _ => ?_
  refine Ensures.adapt ?_
  refine .forM (fun token _ im him _ => ?_) him trivial
  refine (reads_findTileWire d him token).bind fun start _ => ?_
  refine (ensures_routeFrom h hn him pips start).bind fun s im him _ => ?_
  exact (ensures_editNet h him (.lead s.tree) (hn im him)).post fun _ _ _ _ => trivial

theorem ensures_finish (h : Admits d S C F I) (hS : ∀ isVcc, S (Netlist.staticNet isVcc))
    (him : I im) :
    Ensures F I finish im fun _ im' => ∀ isVcc, im'.netlist.UpToDate (Netlist.staticNet isVcc) := by
  have hlive := live_constant h him
  unfold finish
  refine (Reads.of_get him).bind fun _ heq => ?_
  subst heq
  refine (Reads.of_yields (Netlist.yields_updateNet (hlive true) _) him).bind fun vcc hvcc => ?_
  obtain ⟨hn, rfl⟩ := hvcc
  have hmid := h.adds im _ him (.note (.status (hS true)) hn)
  refine (Reads.of_yields (Netlist.yields_updateNet (live_constant h hmid false) _) him).bind
    fun gnd hgnd => ?_
  obtain ⟨hn', rfl⟩ := hgnd
  refine .of_set (h.adds _ _ hmid (.note (.status (hS false)) hn')) fun isVcc => ?_
  cases isVcc with
  | false => exact Netlist.upToDate_modifyNet hn' fun _ => rfl
  | true =>
    obtain ⟨net, hnet, hstatus⟩ :=
      Netlist.upToDate_modifyNet hn (f := Net.updateStatus) fun _ => rfl
    refine ⟨net, ?_, hstatus⟩
    rw [Netlist.net?_modifyNet, if_neg (by decide)]
    exact hnet

/-! ## Records -/

theorem ensures_process (h : Admits d S C F I) (him : I im) (kind : RecordKind) (args : List String)
    (hS : ∀ n, Settles d im kind args n → S n) (hC : kind = .sitePips → C)
    (hbounds : kind = .partitionPin → ∀ im im', I im → Bounds im im' → I im')
    (hties : ∀ isVcc, kind = .staticPorts isVcc →
      Ensures F I (staticPorts isVcc args) im fun _ _ => True) :
    Ensures F I (process d kind args) im
      fun _ im' => ∀ n, Settles d im kind args n → im'.netlist.UpToDate n := by
  cases kind with
  | sitePips => exact (ensures_sitePips h him (hC rfl) args).post fun _ _ _ _ => nofun
  | intersite => exact ensures_intersite h him args hS
  | intrasite =>
    exact (ensures_intrasite h him args hS).post fun _ _ _ hout _ hsettles => hout.upToDate hsettles
  | route => exact ensures_route h him args hS
  | routethroughs => exact (ensures_routethroughs h him args).post fun _ _ _ _ => nofun
  | staticSources isVcc => exact (ensures_staticSources h him isVcc args).post fun _ _ _ _ => nofun
  | partitionPin => exact (ensures_partitionPin h (hbounds rfl) him args).post fun _ _ _ _ => nofun
  | staticPorts isVcc => exact (hties isVcc rfl).post fun _ _ _ _ => nofun

structure AdmitsLines (d : Device) (F : Prop) (I : Importer → Prop)
    (P : Importer → List (Nat × List String) → Prop) : Prop
    extends Admits d (fun _ => True) True F I where
  blank : ∀ im line rest, P im ((line, []) :: rest) → P im rest
  static : ∀ im im' line startLine keyword args words rest isVcc,
    RecordKind.staticNet? keyword = some isVcc → words.head? = some RecordKind.startWires →
    P im ((line, keyword :: args) :: (startLine, words) :: rest) →
    (staticNet d isVcc line startLine args words.tail).run.run im = .ok (.ok (), im') → P im' rest
  record : ∀ im line keyword args rest kind, RecordKind.staticNet? keyword = none →
    RecordKind.ofKeyword? keyword = some kind → I im → P im ((line, keyword :: args) :: rest) →
    Ensures F I (process d kind args) im fun _ im' => P im' rest

theorem keyword_of_ofKeyword? {keyword : String} {kind : RecordKind}
    (hkind : RecordKind.ofKeyword? keyword = some kind) : kind.keyword = keyword := by
  simpa using List.find?_some hkind

theorem head_ne_keyword_of_static {keyword : String} {args words : List String} {isVcc : Bool}
    (hstatic : RecordKind.staticNet? keyword = some isVcc)
    (hstart : words.head? = some RecordKind.startWires) {line startLine line' : Nat}
    {words' : List String}
    (hmem : (line', words') ∈ [(line, keyword :: args), (startLine, words)]) (kind : RecordKind) :
    words'.head? ≠ some kind.keyword := by
  intro hkeyword
  rcases List.mem_pair.1 hmem with hfirst | hsecond
  · cases hfirst
    rw [Option.some.inj hkeyword, RecordKind.staticNet?_keyword] at hstatic
    cases hstatic
  · cases hsecond
    rw [hstart] at hkeyword
    exact kind.keyword_ne_startWires (Option.some.inj hkeyword).symm

theorem processLines_blank (line : Nat) (rest : List (Nat × List String)) :
    processLines d ((line, []) :: rest) = processLines d rest := by
  rw [processLines]

theorem processLines_static {keyword : String} {isVcc : Bool}
    (hstatic : RecordKind.staticNet? keyword = some isVcc) (line startLine : Nat)
    (args words : List String) (rest : List (Nat × List String)) :
    processLines d ((line, keyword :: args) :: (startLine, words) :: rest) =
      (do
        if words.head? ≠ some RecordKind.startWires then
          throw ⟨startLine, .missingStartWires keyword⟩
        staticNet d isVcc line startLine args words.tail
        processLines d rest) := by
  rw [processLines]
  exact hstatic

theorem processLines_record {keyword : String} {kind : RecordKind}
    (hstatic : RecordKind.staticNet? keyword = none)
    (hkind : RecordKind.ofKeyword? keyword = some kind) (line : Nat) (args : List String)
    (rest : List (Nat × List String)) :
    processLines d ((line, keyword :: args) :: rest) =
      (do
        atLine line (process d kind args)
        processLines d rest) := by
  rw [processLines, hkind]
  exact hstatic

/-- The lines are taken in, and `im'` takes in what comes behind them. -/
def Leads (d : Device) (im : Importer) (lines : List (Nat × List String)) (im' : Importer) : Prop :=
  ∀ rest, (processLines d (lines ++ rest)).run.run im = (processLines d rest).run.run im'

namespace Leads

variable {lines lines' : List (Nat × List String)} {im'' : Importer}

theorem nil (d : Device) (im : Importer) : Leads d im [] im := fun _ => rfl

theorem append (h : Leads d im lines im') (h' : Leads d im' lines' im'') :
    Leads d im (lines ++ lines') im'' := by
  intro rest
  rw [List.append_assoc, h, h']

theorem run (h : Leads d im lines im') : (processLines d lines).run.run im = .ok (.ok (), im') := by
  rw [← List.append_nil lines, h]
  unfold processLines
  rfl

theorem blank (d : Device) (im : Importer) (line : Nat) : Leads d im [(line, [])] im := by
  intro rest
  rw [List.singleton_append, processLines_blank]

theorem static {keyword : String} {isVcc : Bool}
    (hstatic : RecordKind.staticNet? keyword = some isVcc) {line startLine : Nat}
    {args words : List String}
    (hstart : words.head? = some RecordKind.startWires)
    (hrun : (staticNet d isVcc line startLine args words.tail).run.run im = .ok (.ok (), im')) :
    Leads d im [(line, keyword :: args), (startLine, words)] im' := by
  intro rest
  rw [List.cons_append, List.singleton_append, processLines_static hstatic,
    if_neg (not_not.2 hstart)]
  exact run_bind_of_ok hrun _

theorem record {keyword : String} {kind : RecordKind}
    (hstatic : RecordKind.staticNet? keyword = none)
    (hkind : RecordKind.ofKeyword? keyword = some kind) (line : Nat) {args : List String}
    (hrun : (process d kind args).run.run im = .ok (.ok (), im')) :
    Leads d im [(line, keyword :: args)] im' := by
  intro rest
  have hline : (atLine line (process d kind args)).run.run im = .ok (.ok (), im') := by
    unfold atLine
    rw [run_adapt, hrun]
    rfl
  rw [List.singleton_append, processLines_record hstatic hkind]
  exact run_bind_of_ok hline _

end Leads

theorem ensures_processLines {P : Importer → List (Nat × List String) → Prop}
    (h : AdmitsLines d F I P) {lines : List (Nat × List String)} (him : I im) (hP : P im lines) :
    Ensures F I (processLines d lines) im fun _ im' => P im' [] := by
  induction lines using processLines.induct (d := d) generalizing im with
  | case1 =>
    unfold processLines
    exact .of_pure him hP
  | case2 line rest ih =>
    rw [processLines_blank]
    exact ih him (h.blank im line rest hP)
  | case3 line keyword args isVcc hstatic =>
    unfold processLines
    simp only [hstatic]
    exact .of_throw him
  | case4 line keyword args isVcc startLine words rest hstatic hstart ih =>
    rw [processLines_static hstatic, if_pos hstart]
    exact .of_throw_bind him
  | case5 line keyword args isVcc startLine words rest hstatic hstart ih =>
    rw [processLines_static hstatic, if_neg hstart]
    refine (ensures_staticNet h.toAdmits him isVcc line startLine args words.tail).with_run.bind
      fun _ im' him' hrun => ?_
    exact ih him' (h.static im im' line startLine keyword args words rest isVcc hstatic
      (not_not.1 hstart) hP hrun.2)
  | case6 line keyword args rest hstatic hkind ih =>
    rw [processLines, hkind]
    · exact .of_throw_bind him
    · exact hstatic
  | case7 line keyword args rest hstatic kind hkind ih =>
    rw [processLines_record hstatic hkind]
    unfold atLine
    have hrecord := h.record im line keyword args rest kind hstatic hkind him hP
    exact hrecord.adapt.bind fun _ im' him' hP' => ih him' hP'

theorem ensures_importText {P : Importer → List (Nat × List String) → Prop}
    (h : AdmitsLines d F I P) {text : String} (him : I im) (hP : P im (numberedLines text)) :
    Ensures F I (importText d text) im fun _ im'' =>
      ∃ im', P im' [] ∧ finish.run.run im' = .ok (.ok (), im'') := by
  unfold importText
  refine (ensures_processLines h him hP).bind fun _ im' him' hP' => ?_
  exact (ensures_finish h.toAdmits (fun _ => trivial) him').with_run.post
    fun _ _ _ hrun => ⟨im', hP', hrun.2⟩

/-! ## Whole texts -/

structure Maintains (d : Device) (I : Importer → Prop) : Prop where
  consistent : ∀ im, I im → im.netlist.Consistent
  adds : ∀ im im', I im → Adds d (fun _ => True) True im im' → I im'
  bounds : ∀ im im', I im → Bounds im im' → I im'
  ties : ∀ im im' isVcc port, I im → Ties isVcc port im im' → I im'

namespace Maintains

variable (h : Maintains d I)

include h

theorem admitsTies (isVcc : Bool) (names : List String) : AdmitsTies True I isVcc names where
  nodes im port node him := h.adds im _ him (.portNode port node)
  consistent := h.consistent
  closed _ _ := .inl trivial
  other _ _ _ _ := .inl trivial
  ties im im' him _ _ port _ hties := h.ties im im' isVcc port him hties

theorem admitsLines : AdmitsLines d True I fun _ _ => True where
  adds := h.adds
  closed _ _ := .inl trivial
  blank _ _ _ _ := trivial
  static _ _ _ _ _ _ _ _ _ _ _ _ _ := trivial
  record _ _ _ args _ kind _ _ him _ :=
    (ensures_process ⟨h.adds, fun _ _ => .inl trivial⟩ him kind args (fun _ _ => trivial)
      (fun _ => trivial) (fun _ => h.bounds)
      fun isVcc _ => ensures_staticPorts (h.admitsTies isVcc args) him).post fun _ _ _ _ => trivial

end Maintains

inductive Change (d : Device) (im : Importer) : Importer → Prop
  | adds {im' : Importer} (h : Adds d (fun _ => True) True im im') : Change d im im'
  | bounds {im' : Importer} (h : Bounds im im') : Change d im im'
  | ties {im' : Importer} {isVcc : Bool} {port : CellId} (h : Ties isVcc port im im') :
      Change d im im'

/-- What all records keep, each of their changes keeps. -/
theorem Maintains.changes (h : Maintains d I) (him : I im)
    (hchanges : ReflTransGen (Change d) im im') : I im' := by
  induction hchanges with
  | refl => exact him
  | tail _ hchange ih =>
    cases hchange with
    | adds hadds => exact h.adds _ _ ih hadds
    | bounds hbounds => exact h.bounds _ _ ih hbounds
    | ties hties => exact h.ties _ _ _ _ ih hties

end Record

/-- A state that an import of a text comes to, between two lines or at its end. -/
inductive Importer.Reaches (d : Device) (text : String) (im : Importer) : Importer → Prop
  | lines {n : Nat} {r : Except ImportError Unit} {im' : Importer}
      (h : (Record.processLines d ((Record.numberedLines text).take n)).run.run im = .ok (r, im')) :
      Reaches d text im im'
  | text {r : Except ImportError Unit} {im' : Importer} (h : im.importText d text = .ok (r, im')) :
      Reaches d text im im'

theorem Record.Maintains.reaches {d : Device} {I : Importer → Prop} (h : Maintains d I)
    {im im' : Importer} (him : I im) {text : String} (hreaches : im.Reaches d text im') :
    I im' := by
  cases hreaches with
  | lines hrun => exact (ensures_processLines h.admitsLines him trivial).state hrun
  | text hrun => exact (ensures_importText h.admitsLines him trivial).state hrun

/-- An import comes to its states by changes. -/
theorem Record.changes_of_reaches {d : Device} {im im' : Importer} (hc : im.netlist.Consistent)
    {text : String} (h : im.Reaches d text im') : ReflTransGen (Change d) im im' := by
  have hmaintains : Maintains d fun im' =>
      im'.netlist.Consistent ∧ ReflTransGen (Change d) im im' :=
    { consistent := fun _ h => h.1
      adds := fun _ _ h hadds => ⟨hadds.consistent h.1, h.2.tail (.adds hadds)⟩
      bounds := fun _ _ h hbounds => ⟨hbounds.consistent h.1, h.2.tail (.bounds hbounds)⟩
      ties := fun _ _ _ _ h hties => ⟨hties.consistent h.1, h.2.tail (.ties hties)⟩ }
  exact (hmaintains.reaches ⟨hc, .refl⟩ h).2

end Fabric
