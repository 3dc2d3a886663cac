import Fabric.Proofs.Record.Lines
import Fabric.Proofs.Record.SideBySide
/-!
# What a text of records comes to

Two texts with the same words on their lines are taken in alike when they begin in importers that
no record tells apart. Lines have a number for the sake of refusals only.
-/

namespace Fabric

/-- What two imports come to is the same: importers that are equal, refusals for the same cause,
where `E` relates the lines and `R` the importers, or the same fault. -/
inductive Importer.SameOutcome (E : Nat → Nat → Prop) (R : Importer → Importer → Prop) :
    Except Fault (Except ImportError Unit × Importer) →
    Except Fault (Except ImportError Unit × Importer) → Prop
  | taken (im : Importer) : SameOutcome E R (.ok (.ok (), im)) (.ok (.ok (), im))
  | refused {line line' : Nat} {im im' : Importer} (cause : RecordError) (hline : E line line')
      (him : R im im') :
      SameOutcome E R (.ok (.error ⟨line, cause⟩, im)) (.ok (.error ⟨line', cause⟩, im'))
  | fault (f : Fault) : SameOutcome E R (.error f) (.error f)

namespace Record

variable {d : Device} {R : Importer → Importer → Prop} {E : Nat → Nat → Prop}
  {im im' : Importer} {α β : Type}

abbrev SameWords (E : Nat → Nat → Prop) (lines lines' : List (Nat × List String)) : Prop :=
  List.Forall₂ (fun l l' => E l.1 l'.1 ∧ l.2 = l'.2) lines lines'

theorem SameWords.exists_cons {line : Nat} {words : List String}
    {rest lines' : List (Nat × List String)} (h : SameWords E ((line, words) :: rest) lines') :
    ∃ line' rest', E line line' ∧ SameWords E rest rest' ∧ lines' = (line', words) :: rest' := by
  obtain ⟨⟨line', words'⟩, rest', ⟨hline, rfl⟩, hrest, rfl⟩ := List.forall₂_cons_left_iff.1 h
  exact ⟨line', rest', hline, hrest, rfl⟩

structure SameCause (E : Nat → Nat → Prop) (e e' : ImportError) : Prop where
  line : E e.line e'.line
  cause : e.cause = e'.cause

theorem Alike.atLine {Q : α → β → Prop} {act : RecordM α} {act' : RecordM β}
    (h : Alike R Eq Q act act' im im') {line line' : Nat} (hline : E line line') :
    Alike R (SameCause E) Q (atLine line act) (atLine line' act') im im' :=
  h.adapt fun _ _ heq => ⟨hline, heq⟩

def leadStarts (d : Device) (n : NetId) (pips : PipSet) (starts : List String) : RecordM Unit :=
  starts.forM fun token => do
    let start ← findTileWire d token
    let s ← routeFrom d n pips start
    editNet n fun net => net.addIntersite s.tree

theorem staticNet_eq (isVcc : Bool) (line startLine : Nat) (tokens starts : List String) :
    staticNet d isVcc line startLine tokens starts = (do
      let pips ← atLine line (readPips tokens)
      atLine startLine (leadStarts d (Netlist.staticNet isVcc) pips starts)) := rfl

/-- No record tells the importers that `R` relates apart. -/
structure Uniform (d : Device) (R : Importer → Importer → Prop) : Prop where
  process : ∀ kind args im im', R im im' →
    Alike R Eq Eq (process d kind args) (process d kind args) im im'
  pips : ∀ tokens im im', R im im' → Alike R Eq Eq (readPips tokens) (readPips tokens) im im'
  starts : ∀ n pips starts im im', R im im' →
    Alike R Eq Eq (leadStarts d n pips starts) (leadStarts d n pips starts) im im'

theorem uniform_eq (d : Device) : Uniform d Eq where
  process _ _ _ _ heq := heq ▸ .refl _ _
  pips _ _ _ heq := heq ▸ .refl _ _
  starts _ _ _ _ _ heq := heq ▸ .refl _ _

namespace Uniform

variable (h : Uniform d R)

include h

theorem staticNet (him : R im im') {line line' startLine startLine' : Nat} (hline : E line line')
    (hstart : E startLine startLine') (isVcc : Bool) (tokens starts : List String) :
    Alike R (SameCause E) Eq (staticNet d isVcc line startLine tokens starts)
      (staticNet d isVcc line' startLine' tokens starts) im im' := by
  rw [staticNet_eq, staticNet_eq]
  refine ((h.pips tokens im im' him).atLine hline).bind_same fun pips im im' him => ?_
  exact (h.starts _ pips starts im im' him).atLine hstart

/-- Lines with the same words are taken in alike. -/
theorem processLines {lines lines' : List (Nat × List String)} (hlines : SameWords E lines lines')
    (him : R im im') :
    Alike R (SameCause E) Eq (processLines d lines) (processLines d lines') im im' := by
  induction lines using processLines.induct (d := d) generalizing lines' im im' with
  | case1 =>
    cases hlines
    unfold Record.processLines
    exact .of_pure him rfl
  | case2 line rest ih =>
    obtain ⟨line', rest', -, hrest, rfl⟩ := hlines.exists_cons
    rw [processLines_blank, processLines_blank]
    exact ih hrest him
  | case3 line keyword args isVcc hstatic =>
    obtain ⟨line', rest', hline, hrest, rfl⟩ := hlines.exists_cons
    cases hrest
    unfold Record.processLines
    simp only [hstatic]
    exact .of_throw him ⟨hline, rfl⟩
  | case4 line keyword args isVcc startLine words rest hstatic hstart ih =>
    -- the refusal is that of the second line
    obtain ⟨line', next', -, hnext, rfl⟩ := hlines.exists_cons
    obtain ⟨startLine', rest', hline, -, rfl⟩ := hnext.exists_cons
    rw [processLines_static hstatic, processLines_static hstatic, if_pos hstart, if_pos hstart]
    exact .of_throw_bind him ⟨hline, rfl⟩
  | case5 line keyword args isVcc startLine words rest hstatic hstart ih =>
    obtain ⟨line', next', hline, hnext, rfl⟩ := hlines.exists_cons
    obtain ⟨startLine', rest', hstartLine, hrest, rfl⟩ := hnext.exists_cons
    rw [processLines_static hstatic, processLines_static hstatic, if_neg hstart, if_neg hstart]
    refine (h.staticNet him hline hstartLine isVcc args words.tail).bind_same
      fun _ im im' him => ?_
    exact ih hrest him
  | case6 line keyword args rest hstatic hkind ih =>
    obtain ⟨line', rest', hline, -, rfl⟩ := hlines.exists_cons
    rw [Record.processLines, Record.processLines, hkind]
    · exact .of_throw_bind him ⟨hline, rfl⟩
    · exact hstatic
    · exact hstatic
  | case7 line keyword args rest hstatic kind hkind ih =>
    obtain ⟨line', rest', hline, hrest, rfl⟩ := hlines.exists_cons
    rw [processLines_record hstatic hkind, processLines_record hstatic hkind]
    refine ((h.process kind args im im' him).atLine hline).bind_same fun _ im im' him => ?_
    exact ih hrest him

end Uniform

/-! ## Whole texts -/

theorem run_finish (im : Importer) : finish.run.run im =
    (do
      let nl ← im.netlist.updateNet Netlist.vcc Net.updateStatus
      nl.updateNet Netlist.gnd Net.updateStatus).map fun nl =>
        (.ok (), { im with netlist := nl }) := by
  unfold finish
  change ((liftM (im.netlist.updateNet Netlist.vcc Net.updateStatus) : ImportM Netlist) >>=
    fun nl =>
    liftM (nl.updateNet Netlist.gnd Net.updateStatus) >>= fun nl =>
      set { im with netlist := nl }).run.run im = _
  rw [run_lift_bind]
  cases im.netlist.updateNet Netlist.vcc Net.updateStatus with
  | error f => rfl
  | ok nl =>
    rw [Checked.ok_bind, Checked.ok_bind, run_lift_bind]
    cases nl.updateNet Netlist.gnd Net.updateStatus <;> rfl

/-- Lines with the same words come to the same, to the end of the import. -/
theorem Uniform.outcome (h : Uniform d R)
    (hfinish : ∀ im im', R im im' → finish.run.run im = finish.run.run im')
    {lines lines' : List (Nat × List String)} (hlines : SameWords E lines lines') (him : R im im') :
    Importer.SameOutcome E R ((do Record.processLines d lines; finish).run.run im)
      ((do Record.processLines d lines'; finish).run.run im') := by
  have hrun := h.processLines hlines him
  unfold Alike at hrun
  rw [run_bind, run_bind]
  generalize (Record.processLines d lines).run.run im = x at hrun ⊢
  generalize (Record.processLines d lines').run.run im' = y at hrun ⊢
  cases hrun with
  | error heq =>
    subst heq
    exact .fault _
  | @ok r r' hr =>
    obtain ⟨r, t⟩ := r
    obtain ⟨r', t'⟩ := r'
    obtain ⟨hr, ht⟩ := hr
    cases hr with
    | @error e e' he =>
      obtain ⟨line, cause⟩ := e
      obtain ⟨line', cause'⟩ := e'
      obtain ⟨hline, rfl⟩ := he
      exact .refused cause hline ht
    | ok =>
      -- the end does not refuse, so it is a fault or gives one importer from both
      change Importer.SameOutcome E R (finish.run.run t) (finish.run.run t')
      rw [hfinish t t' ht, run_finish]
      generalize (t'.netlist.updateNet Netlist.vcc Net.updateStatus >>= fun nl =>
        nl.updateNet Netlist.gnd Net.updateStatus) = settled
      cases settled with
      | error f => exact .fault f
      | ok nl => exact .taken _

end Record

end Fabric
