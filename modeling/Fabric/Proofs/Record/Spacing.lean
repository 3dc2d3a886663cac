import Fabric.Proofs.Record.Pieces
/-!
# Blank lines

Blank lines between records are passed over. Only a line that begins with a constant does not let
a blank line follow: whatever stands behind it has to be its start wires.
-/

namespace Fabric

namespace Record

variable {d : Device} {im im' : Importer} {E : Nat → Nat → Prop}

/-- The lines without the blank lines between records. The line behind one that begins with a
constant is not between records. -/
def essential : List (Nat × List String) → List (Nat × List String)
  | [] => []
  | (_, []) :: rest => essential rest
  | (line, keyword :: args) :: rest =>
    match RecordKind.staticNet? keyword, rest with
    | some _, [] => [(line, keyword :: args)]
    | some _, start :: rest => (line, keyword :: args) :: start :: essential rest
    | none, rest => (line, keyword :: args) :: essential rest

theorem essential_blank (line : Nat) (rest : List (Nat × List String)) :
    essential ((line, []) :: rest) = essential rest := by
  rw [essential]

theorem essential_static {keyword : String} {isVcc : Bool}
    (hstatic : RecordKind.staticNet? keyword = some isVcc) (line : Nat) (args : List String)
    (start : Nat × List String) (rest : List (Nat × List String)) :
    essential ((line, keyword :: args) :: start :: rest) =
      (line, keyword :: args) :: start :: essential rest := by
  rw [essential.eq_def]
  simp only [hstatic]

theorem essential_unstarted {keyword : String} {isVcc : Bool}
    (hstatic : RecordKind.staticNet? keyword = some isVcc) (line : Nat) (args : List String) :
    essential [(line, keyword :: args)] = [(line, keyword :: args)] := by
  rw [essential.eq_def]
  simp only [hstatic]

theorem essential_record {keyword : String} (hstatic : RecordKind.staticNet? keyword = none)
    (line : Nat) (args : List String) (rest : List (Nat × List String)) :
    essential ((line, keyword :: args) :: rest) = (line, keyword :: args) :: essential rest := by
  rw [essential]
  exact hstatic

/-- Of two blank lines behind VCC, the first is kept. -/
example : (essential (numberedLines "VCC\n\n\nROUTE")).map Prod.snd = [["VCC"], [], ["ROUTE"]] := by
  decide +kernel

/-- What is taken in depends on the essential lines alone. -/
theorem processLines_essential (d : Device) (lines : List (Nat × List String)) :
    processLines d (essential lines) = processLines d lines := by
  induction lines using processLines.induct (d := d) with
  | case1 => rfl
  | case2 line rest ih => rw [essential_blank, processLines_blank, ih]
  | case3 line keyword args isVcc hstatic => rw [essential_unstarted hstatic]
  | case4 line keyword args isVcc startLine words rest hstatic hstart ih =>
    rw [essential_static hstatic, processLines_static hstatic, processLines_static hstatic, ih]
  | case5 line keyword args isVcc startLine words rest hstatic hstart ih =>
    rw [essential_static hstatic, processLines_static hstatic, processLines_static hstatic, ih]
  | case6 line keyword args rest hstatic hkind ih =>
    rw [essential_record hstatic, processLines, processLines, ih]
    · exact hstatic
    · exact hstatic
  | case7 line keyword args rest hstatic kind hkind ih =>
    rw [essential_record hstatic, processLines_record hstatic hkind,
      processLines_record hstatic hkind, ih]

/-- Lines that differ in blank lines between records come to the same. -/
theorem outcome_of_essential {lines lines' : List (Nat × List String)}
    (h : SameWords E (essential lines) (essential lines')) (im : Importer) :
    Importer.SameOutcome E Eq ((do processLines d lines; finish).run.run im)
      ((do processLines d lines'; finish).run.run im) := by
  rw [← processLines_essential d lines, ← processLines_essential d lines']
  exact (uniform_eq d).outcome (fun _ _ heq => by rw [heq]) h rfl

/-! ## Blank lines that are put in -/

def Complete (lines : List (Nat × List String)) : Prop :=
  ∀ line keyword args, (line, keyword :: args) ∈ lines.getLast? →
    RecordKind.staticNet? keyword = none

theorem Complete.tail {l : Nat × List String} {lines : List (Nat × List String)}
    (h : Complete (l :: lines)) : Complete lines :=
  fun line keyword args hlast => h line keyword args (List.mem_getLast?_cons hlast)

theorem essential_append {lines : List (Nat × List String)} (h : Complete lines)
    (rest : List (Nat × List String)) :
    essential (lines ++ rest) = essential lines ++ essential rest := by
  induction lines using essential.induct with
  | case1 => rfl
  | case2 line lines ih =>
    rw [List.cons_append, essential_blank, essential_blank, ih h.tail]
  | case3 line keyword args isVcc hstatic =>
    -- the line that is last begins with a constant
    have hnone := h line keyword args rfl
    rw [hstatic] at hnone
    cases hnone
  | case4 line keyword args isVcc start lines hstatic ih =>
    rw [List.cons_append, List.cons_append, essential_static hstatic, essential_static hstatic,
      ih h.tail.tail, List.cons_append, List.cons_append]
  | case5 line keyword args lines hstatic ih =>
    rw [List.cons_append, essential_record hstatic, essential_record hstatic, ih h.tail,
      List.cons_append]

theorem essential_blank_append {lines : List (Nat × List String)} (h : ∀ l ∈ lines, l.2 = [])
    (rest : List (Nat × List String)) : essential (lines ++ rest) = essential rest := by
  induction lines with
  | nil => rfl
  | cons l lines ih =>
    obtain ⟨line, words⟩ := l
    obtain rfl : words = [] := h _ List.mem_cons_self
    rw [List.cons_append, essential_blank]
    exact ih fun l hl => h l (List.mem_cons_of_mem _ hl)

theorem SameWords.essential {lines lines' : List (Nat × List String)}
    (h : SameWords E lines lines') : SameWords E (essential lines) (essential lines') := by
  induction lines using Record.essential.induct generalizing lines' with
  | case1 =>
    cases h
    exact .nil
  | case2 line lines ih =>
    obtain ⟨line', rest', -, hrest, rfl⟩ := h.exists_cons
    rw [essential_blank, essential_blank]
    exact ih hrest
  | case3 line keyword args isVcc hstatic =>
    obtain ⟨line', rest', hline, hrest, rfl⟩ := h.exists_cons
    cases hrest
    rw [essential_unstarted hstatic, essential_unstarted hstatic]
    exact .cons ⟨hline, rfl⟩ .nil
  | case4 line keyword args isVcc start lines hstatic ih =>
    obtain ⟨line', next', hline, hnext, rfl⟩ := h.exists_cons
    obtain ⟨start', rest', hstart, hrest, rfl⟩ := List.forall₂_cons_left_iff.1 hnext
    rw [essential_static hstatic, essential_static hstatic]
    exact .cons ⟨hline, rfl⟩ (.cons hstart (ih hrest))
  | case5 line keyword args lines hstatic ih =>
    obtain ⟨line', rest', hline, hrest, rfl⟩ := h.exists_cons
    rw [essential_record hstatic, essential_record hstatic]
    exact .cons ⟨hline, rfl⟩ (ih hrest)

theorem le_length_of_mem_numberedLines {text : String} {l : Nat × List String}
    (h : l ∈ numberedLines text) : l.1 ≤ (Text.lines text).length := by
  obtain ⟨⟨line, i⟩, hline, rfl⟩ := List.mem_map.1 h
  exact List.snd_lt_of_mem_zipIdx hline

theorem sameWords_of_map_eq {lines lines' : List (Nat × List String)}
    (h : lines.map Prod.snd = lines'.map Prod.snd) :
    SameWords (fun line line' => ∃ i : Nat, lines[i]?.map Prod.fst = some line ∧
      lines'[i]?.map Prod.fst = some line') lines lines' := by
  refine List.forall₂_iff_get.2 ⟨?_, fun i hi hi' => ⟨⟨i, ?_, ?_⟩, ?_⟩⟩
  · simpa using congrArg List.length h
  · simp [hi]
  · simp [hi']
  · have hwords := congrArg (fun words => words[i]?) h
    simpa [hi, hi'] using hwords

def essentialWords (text : String) : List (List String) :=
  (essential (numberedLines text)).map Prod.snd

/-- The lines have the same place among the essential lines of the texts. -/
def Counterparts (text text' : String) (line line' : Nat) : Prop :=
  ∃ i : Nat, (essential (numberedLines text))[i]?.map Prod.fst = some line ∧
    (essential (numberedLines text'))[i]?.map Prod.fst = some line'

theorem Leads.refuses_blank {lines : List (Nat × List String)} (h : Leads d im lines im')
    {keyword : String} {isVcc : Bool} (hstatic : RecordKind.staticNet? keyword = some isVcc)
    (line startLine : Nat) (args : List String) (rest : List (Nat × List String)) :
    (processLines d (lines ++ (line, keyword :: args) :: (startLine, []) :: rest)).run.run im =
      .ok (.error ⟨startLine, .missingStartWires keyword⟩, im') := by
  rw [h, processLines_static hstatic, if_pos (by simp)]
  rfl

def spacedText : String := "\n \nVCC INT/SWITCH.N->P\nSTART_WIRES INT/N\n\n\t\nBOGUS\n\n"

end Record

namespace Importer

variable {d : Device}

/-- Blank lines between records have no meaning. Texts that differ in nothing else come to the same
importer, to the same fault, or to a refusal of the same line for the same cause. -/
theorem importText_respaced (d : Device) (im : Importer) {text text' : String}
    (h : Record.essentialWords text = Record.essentialWords text') :
    SameOutcome (Record.Counterparts text text') Eq (im.importText d text)
      (im.importText d text') :=
  Record.outcome_of_essential (Record.sameWords_of_map_eq h) im

/-- The refusal moves from line 3 to line 7. -/
theorem importText_respaced_bogus : ∃ d nl im',
    Device.ofDescription Record.inlet = .ok d ∧
    Netlist.ofDescription d Record.twoPorts = .ok nl ∧
    Record.essentialWords Record.bogusText = Record.essentialWords Record.spacedText ∧
    (ofNetlist nl).importText d Record.bogusText =
      .ok (.error ⟨3, .unrecognizedToken "BOGUS"⟩, im') ∧
    (ofNetlist nl).importText d Record.spacedText =
      .ok (.error ⟨7, .unrecognizedToken "BOGUS"⟩, im') := by
  have hwords : Record.essentialWords Record.bogusText =
      Record.essentialWords Record.spacedText := by
    decide +kernel
  have hlines :
      (Record.essential (Record.numberedLines Record.bogusText)).map Prod.fst = [1, 2, 3] ∧
      (Record.essential (Record.numberedLines Record.spacedText)).map Prod.fst = [3, 4, 7] := by
    decide +kernel
  have hrun : (do
      let d ← (Device.ofDescription Record.inlet).toOption
      let nl ← (Netlist.ofDescription d Record.twoPorts).toOption
      let (r, _) ← ((ofNetlist nl).importText d Record.bogusText).toOption
      return r) = some (.error ⟨3, .unrecognizedToken "BOGUS"⟩) := by
    decide +kernel
  simp only [Option.bind_eq_bind, Option.bind_eq_some_iff, Checked.toOption_eq_some,
    Option.pure_def, Option.some.injEq] at hrun
  obtain ⟨d, hd, nl, hnl, ⟨r, im'⟩, hrun, rfl⟩ := hrun
  have hspaced := importText_respaced d (ofNetlist nl) hwords
  rw [hrun] at hspaced
  generalize hx : (ofNetlist nl).importText d Record.spacedText = x at hspaced
  cases hspaced with
  | @refused _ line _ _ cause hline him =>
    obtain ⟨i, hi, hi'⟩ := hline
    rw [← List.getElem?_map, hlines.1] at hi
    rw [← List.getElem?_map, hlines.2] at hi'
    obtain rfl : line = 7 := by
      match i with
      | 0 => cases hi
      | 1 => cases hi
      | 2 => exact (Option.some.inj hi').symm
      | i + 3 => cases hi
    subst him
    exact ⟨d, nl, im', hd, hnl, hwords, hrun, hx⟩

/-- Blank lines may be put in behind any line that does not begin with a constant. They are counted
in the number of a line that is refused behind them. -/
theorem importText_insert_blank (d : Device) (im : Importer) {a blank : String} (b : String)
    (ha : Text.EndsLine a) (hblank : Text.EndsLine blank)
    (hwords : ∀ line ∈ Text.lines blank, Text.words line = [])
    (hcomplete : Record.Complete (Record.numberedLines a)) :
    SameOutcome
      (fun line line' => line = if line' ≤ (Text.lines a).length then line'
        else line' + (Text.lines blank).length) Eq
      (im.importText d (a ++ (blank ++ b))) (im.importText d (a ++ b)) := by
  refine Record.outcome_of_essential ?_ im
  have hfirst : Record.SameWords (fun line line' => line' ≤ (Text.lines a).length ∧ line = line')
      (Record.numberedLines a) (Record.numberedLines a) :=
    List.forall₂_same.2 fun l hl => ⟨⟨Record.le_length_of_mem_numberedLines hl, rfl⟩, rfl⟩
  have hrest := Record.sameWords_numberedFrom (Text.lines a).length (Text.lines blank).length
    (Text.lines b)
  have hnone : ∀ l ∈ Record.numberedFrom (Text.lines a).length (Text.lines blank), l.2 = [] :=
    fun l hl => by
      obtain ⟨⟨line, i⟩, hline, rfl⟩ := List.mem_map.1 hl
      exact hwords line (List.fst_mem_of_mem_zipIdx hline)
  rw [Record.numberedLines_append ha, Record.numberedLines_append ha, Text.lines_append hblank,
    Record.numberedFrom_append, Record.essential_append hcomplete,
    Record.essential_append hcomplete, Record.essential_blank_append hnone]
  refine List.rel_append (hfirst.essential.imp fun l l' h => ⟨?_, h.2⟩)
    (hrest.essential.imp fun l l' h => ⟨?_, h.2⟩)
  · exact h.1.2.trans (if_pos h.1.1).symm
  · exact h.1.2.trans (if_neg (not_le.2 h.1.1)).symm

/-- Directly behind a line that begins with a constant, a blank line is refused. -/
theorem importText_blank_start : ∃ d nl im₁ im₂,
    Device.ofDescription Record.inlet = .ok d ∧
    Netlist.ofDescription d Record.twoPorts = .ok nl ∧
    (ofNetlist nl).importText d ("VCC INT/SWITCH.N->P\n" ++ "START_WIRES INT/N") =
      .ok (.ok (), im₁) ∧
    (ofNetlist nl).importText d ("VCC INT/SWITCH.N->P\n" ++ ("\n" ++ "START_WIRES INT/N")) =
      .ok (.error ⟨2, .missingStartWires "VCC"⟩, im₂) := by
  have hrun : (do
      let d ← (Device.ofDescription Record.inlet).toOption
      let nl ← (Netlist.ofDescription d Record.twoPorts).toOption
      let (r, _) ← ((ofNetlist nl).importText d
        ("VCC INT/SWITCH.N->P\n" ++ "START_WIRES INT/N")).toOption
      let (r', _) ← ((ofNetlist nl).importText d
        ("VCC INT/SWITCH.N->P\n" ++ ("\n" ++ "START_WIRES INT/N"))).toOption
      return (r, r')) = some (.ok (), .error ⟨2, .missingStartWires "VCC"⟩) := by
    decide +kernel
  simp only [Option.bind_eq_bind, Option.bind_eq_some_iff, Checked.toOption_eq_some,
    Option.pure_def, Option.some.injEq, Prod.mk.injEq] at hrun
  obtain ⟨d, hd, nl, hnl, ⟨r, im₁⟩, hrun, ⟨r', im₂⟩, hrun', rfl, rfl⟩ := hrun
  exact ⟨d, nl, im₁, im₂, hd, hnl, hrun, hrun'⟩

end Importer

end Fabric
