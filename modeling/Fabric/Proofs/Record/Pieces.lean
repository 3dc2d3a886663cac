import Fabric.Proofs.Record.Progress
import Fabric.Proofs.Record.Resemblance
/-!
# Importing in pieces

An import that ends brings the status of the constant nets up to date, and that is all that its end
does. As no record looks at it, a text may be cut behind any line where an import may end.
-/

namespace Fabric

namespace Text

def EndsLine (a : String) : Prop := ∀ c ∈ a.toList.getLast?, c = '\n'

theorem endsLine_of_getLast? {a : String} (h : a.toList.getLast? = some '\n') : EndsLine a := by
  intro c hc
  rw [h] at hc
  exact (Option.some.inj hc).symm

theorem lines_append {a : String} (ha : EndsLine a) (b : String) :
    lines (a ++ b) = lines a ++ lines b := by
  unfold lines
  rw [String.toList_append]
  cases hlast : a.toList.getLast? with
  | none => rw [List.getLast?_eq_none_iff.1 hlast, List.nil_append, linesFrom_nil_nil]; rfl
  | some c =>
    obtain ⟨cs, hcs⟩ := List.getLast?_eq_some_iff.1 hlast
    rw [ha c hlast] at hcs
    rw [hcs, List.append_assoc, List.singleton_append, linesFrom_append_newline, List.map_append]

end Text

namespace Record

variable {d : Device} {im im' : Importer}

/-! ## Lines that have been taken in -/

theorem ensures_run {σ ε φ α : Type} (act : ExceptT ε (StateT σ (Except φ)) α) (s : σ) :
    Ensures True (fun _ => True) act s fun a s' => act.run.run s = .ok (.ok a, s') := by
  unfold Ensures
  split
  · trivial
  next r s' hrun => exact ⟨trivial, fun a ha => by rw [hrun, ha]⟩

theorem admitsLines_leads (d : Device) (im₀ : Importer) (lines : List (Nat × List String)) :
    AdmitsLines d True (fun _ => True) fun im rest =>
      ∃ done, done ++ rest = lines ∧ Leads d im₀ done im where
  adds _ _ _ _ := trivial
  closed _ _ := .inl trivial
  blank im line rest h := by
    obtain ⟨done, rfl, hleads⟩ := h
    exact ⟨done ++ [(line, [])], by simp, hleads.append (.blank d im line)⟩
  static im im' line startLine keyword args words rest isVcc hstatic hstart h hrun := by
    obtain ⟨done, rfl, hleads⟩ := h
    refine ⟨done ++ [(line, keyword :: args), (startLine, words)], by simp, ?_⟩
    exact hleads.append (.static hstatic hstart hrun)
  record im line keyword args rest kind hstatic hkind _ h := by
    refine (ensures_run (process d kind args) im).post fun _ im' _ hrun => ?_
    obtain ⟨done, rfl, hleads⟩ := h
    refine ⟨done ++ [(line, keyword :: args)], by simp, ?_⟩
    exact hleads.append (.record hstatic hkind line hrun)

theorem leads_of_run {lines : List (Nat × List String)}
    (h : (processLines d lines).run.run im = .ok (.ok (), im')) : Leads d im lines im' := by
  obtain ⟨done, hdone, hleads⟩ :=
    (ensures_processLines (admitsLines_leads d im lines) trivial ⟨[], rfl, .nil d im⟩).result h
  rw [List.append_nil] at hdone
  rw [← hdone]
  exact hleads

/-! ## Lines of a text that is put together -/

def numberedFrom (k : Nat) (lines : List String) : List (Nat × List String) :=
  (lines.zipIdx k).map fun (line, i) => (i + 1, Text.words line)

theorem numberedFrom_append (k : Nat) (lines lines' : List String) :
    numberedFrom k (lines ++ lines') =
      numberedFrom k lines ++ numberedFrom (k + lines.length) lines' := by
  unfold numberedFrom
  rw [List.zipIdx_append, List.map_append]

theorem numberedLines_append {a : String} (ha : Text.EndsLine a) (b : String) :
    numberedLines (a ++ b) =
      numberedLines a ++ numberedFrom (Text.lines a).length (Text.lines b) := by
  have happend := numberedFrom_append 0 (Text.lines a) (Text.lines b)
  rw [← Text.lines_append ha, Nat.zero_add] at happend
  exact happend

theorem sameWords_numberedFrom (k j : Nat) (lines : List String) :
    SameWords (fun line line' => k < line' ∧ line = line' + j) (numberedFrom (k + j) lines)
      (numberedFrom k lines) := by
  unfold SameWords numberedFrom
  rw [List.zipIdx_eq_map_add, List.zipIdx_eq_map_add (i := k), List.map_map, List.map_map,
    List.forall₂_map_left_iff, List.forall₂_map_right_iff, List.forall₂_same]
  rintro ⟨line, i⟩ -
  show (k < k + i + 1 ∧ k + j + i + 1 = k + i + 1 + j) ∧ Text.words line = Text.words line
  exact ⟨by omega, rfl⟩

end Record

/-- A text may be imported in pieces. When its first piece ends with a line and is imported, the
whole comes to what the rest comes to afterwards: to the same importer, to the same fault, or to
a refusal for the same cause, with a line number that counts the lines of the first piece too. After
a refusal the importers differ in the status of the constant nets at most. -/
theorem Importer.importText_append {d : Device} {im im₁ : Importer} {a b : String}
    (ha : a.toList.getLast? = some '\n') (h : im.importText d a = .ok (.ok (), im₁)) :
    SameOutcome (fun line line' => line = line' + (Text.lines a).length) Resembles
      (im.importText d (a ++ b)) (im₁.importText d b) := by
  unfold importText Record.importText at h ⊢
  rw [Record.run_bind] at h
  obtain ⟨⟨r, im₀⟩, hlines, hfinish⟩ := Checked.bind_eq_ok.1 h
  cases r with
  | error e => cases hfinish
  | ok =>
    -- the rest begins behind the lines of the first piece here, and behind its end over there
    have hleads := Record.leads_of_run hlines
    rw [Record.numberedLines_append (Text.endsLine_of_getLast? ha)]
    have hrest : (do
        Record.processLines d (Record.numberedLines a ++
          Record.numberedFrom (Text.lines a).length (Text.lines b))
        Record.finish).run.run im = (do
        Record.processLines d (Record.numberedFrom (Text.lines a).length (Text.lines b))
        Record.finish).run.run im₀ := by
      rw [Record.run_bind, Record.run_bind, hleads]
    rw [hrest]
    have hwords := Record.sameWords_numberedFrom 0 (Text.lines a).length (Text.lines b)
    rw [Nat.zero_add] at hwords
    exact (Record.uniform_resembles d).outcome (fun _ _ h => Record.run_finish_of_resembles h)
      (hwords.imp fun _ _ h => ⟨h.1.2, h.2⟩) (Record.resembles_of_finish hfinish)

def Record.bogusText : String := "VCC INT/SWITCH.N->P\nSTART_WIRES INT/N\nBOGUS"

/-- The end of the first import brings VCC up to date in between. The refusal is that of the third
line, and of the fourth when the pieces are one. -/
theorem Importer.importText_append_tie : ∃ d nl im₁ im₂ im₂',
    Device.ofDescription Record.inlet = .ok d ∧
    Netlist.ofDescription d Record.twoPorts = .ok nl ∧
    (ofNetlist nl).importText d "VCC_PART_PINS tie\n" = .ok (.ok (), im₁) ∧
    im₁.importText d Record.bogusText = .ok (.error ⟨3, .unrecognizedToken "BOGUS"⟩, im₂) ∧
    (ofNetlist nl).importText d ("VCC_PART_PINS tie\n" ++ Record.bogusText) =
      .ok (.error ⟨4, .unrecognizedToken "BOGUS"⟩, im₂') ∧ im₂'.Resembles im₂ := by
  have hrun : (do
      let d ← (Device.ofDescription Record.inlet).toOption
      let nl ← (Netlist.ofDescription d Record.twoPorts).toOption
      let (r, im₁) ← ((ofNetlist nl).importText d "VCC_PART_PINS tie\n").toOption
      let (r', _) ← (im₁.importText d Record.bogusText).toOption
      return (r, r')) = some (.ok (), .error ⟨3, .unrecognizedToken "BOGUS"⟩) := by
    decide +kernel
  simp only [Option.bind_eq_bind, Option.bind_eq_some_iff, Checked.toOption_eq_some,
    Option.pure_def, Option.some.injEq, Prod.mk.injEq] at hrun
  obtain ⟨d, hd, nl, hnl, ⟨r, im₁⟩, hfirst, ⟨r', im₂⟩, hsecond, rfl, rfl⟩ := hrun
  have hwhole := importText_append (b := Record.bogusText) (by decide) hfirst
  rw [hsecond] at hwhole
  generalize hx : (ofNetlist nl).importText d _ = x at hwhole
  cases hwhole with
  | @refused line _ im₂' _ cause hline him =>
    have hcount : (Text.lines "VCC_PART_PINS tie\n").length = 1 := by decide
    rw [hcount] at hline
    subst hline
    exact ⟨d, nl, im₁, im₂, im₂', hd, hnl, hfirst, hsecond, hx, him⟩

end Fabric
