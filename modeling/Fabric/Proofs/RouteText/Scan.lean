import Fabric.RouteText.Token
/-!
# Tokens and their texts

A text of tokens with blanks between them is read back as these tokens if each name in it is one
that can be read back. All names that are read from a text are such names.
-/

namespace Fabric.RouteToken

def IsWritable : RouteToken → Prop
  | name s => IsName s
  | _ => True

theorem isNameChar_iff {c : Char} : isNameChar c ↔ ofChar? c = none ∧ Text.isBlank c = false := by
  simp [isNameChar]

theorem ofChar?_blank : ofChar? ' ' = none := rfl

theorem isBlank_blank : Text.isBlank ' ' = true := by decide

/-! ## Reading what was written -/

theorem scanFrom_append {cs : List Char} (h : ∀ c ∈ cs, isNameChar c) (run rest : List Char) :
    scanFrom run (cs ++ rest) = scanFrom (cs.reverse ++ run) rest := by
  induction cs generalizing run with
  | nil => rfl
  | cons c cs ih =>
    obtain ⟨hc, hblank⟩ := isNameChar_iff.1 (h c (by simp))
    have hrest : ∀ c ∈ cs, isNameChar c := fun x hx => h x (by simp [hx])
    rw [List.cons_append, scanFrom, hc]
    simp only [hblank, Bool.false_eq_true, if_false]
    rw [ih hrest]
    simp

theorem scanFrom_nil_append_name {s : String} (hs : IsName s) (rest : List Char) :
    scanFrom [] (s.toList ++ rest) = scanFrom s.toList.reverse rest := by
  rw [scanFrom_append hs.2, List.append_nil]

theorem pushName_reverse {s : String} (hs : IsName s) (rest : List RouteToken) :
    pushName s.toList.reverse rest = name s :: rest := by
  have hne : s.toList.reverse ≠ [] := by simpa using hs.1
  rw [pushName, List.isEmpty_eq_false_iff.2 hne, List.reverse_reverse, String.ofList_toList]
  simp

theorem scanFrom_text {t : RouteToken} (ht : t.IsWritable) : scanFrom [] t.text.toList = [t] := by
  cases t with
  | name s =>
    have hs := scanFrom_nil_append_name ht []
    rw [List.append_nil] at hs
    rw [text, hs, scanFrom, pushName_reverse ht]
  | _ => rfl

theorem scanFrom_text_blank {t : RouteToken} (ht : t.IsWritable) (rest : List Char) :
    scanFrom [] (t.text.toList ++ ' ' :: rest) = t :: scanFrom [] rest := by
  cases t with
  | name s =>
    rw [text, scanFrom_nil_append_name ht, scanFrom, ofChar?_blank]
    simp only [isBlank_blank, if_true]
    rw [pushName_reverse ht]
  | _ => rfl

/-- What was written is read back. -/
theorem scan_join {ts : List RouteToken} (h : ∀ t ∈ ts, t.IsWritable) : scan (join ts) = ts := by
  induction ts with
  | nil => rfl
  | cons t ts ih =>
    have ht : t.IsWritable := h t (by simp)
    have hts : ∀ u ∈ ts, u.IsWritable := fun u hu => h u (by simp [hu])
    cases ts with
    | nil =>
      rw [scan, join, List.map_singleton, String.intercalate_singleton]
      exact scanFrom_text ht
    | cons u us =>
      have hjoin : join (t :: u :: us) = t.text ++ " " ++ join (u :: us) :=
        String.intercalate_cons_cons
      have hchars : (join (t :: u :: us)).toList =
          t.text.toList ++ ' ' :: (join (u :: us)).toList := by
        rw [hjoin, String.toList_append, String.toList_append, List.append_assoc]
        rfl
      rw [scan, hchars, scanFrom_text_blank ht]
      exact congrArg (t :: ·) (ih hts)

/-! ## The names of a text -/

theorem isWritable_of_mem_pushName {run : List Char} (hrun : ∀ c ∈ run, isNameChar c)
    {rest : List RouteToken} (hrest : ∀ t ∈ rest, t.IsWritable) :
    ∀ t ∈ pushName run rest, t.IsWritable := by
  unfold pushName
  split
  · exact hrest
  next hne =>
    refine List.forall_mem_cons.2 ⟨⟨?_, ?_⟩, hrest⟩
    · simpa using hne
    · simpa using hrun

theorem isWritable_of_ofChar? {c : Char} {t : RouteToken} (h : ofChar? c = some t) :
    t.IsWritable := by
  unfold ofChar? at h
  split at h <;> cases h <;> trivial

theorem forall_mem_nil_isNameChar : ∀ c ∈ ([] : List Char), isNameChar c := by simp

theorem isWritable_of_mem_scanFrom {run : List Char} (hrun : ∀ c ∈ run, isNameChar c)
    (cs : List Char) : ∀ t ∈ scanFrom run cs, t.IsWritable := by
  induction cs generalizing run with
  | nil => exact isWritable_of_mem_pushName hrun (by simp)
  | cons c cs ih =>
    unfold scanFrom
    split
    next t ht =>
      refine isWritable_of_mem_pushName hrun
        (List.forall_mem_cons.2 ⟨?_, ih forall_mem_nil_isNameChar⟩)
      exact isWritable_of_ofChar? ht
    next hc =>
      split
      next => exact isWritable_of_mem_pushName hrun (ih forall_mem_nil_isNameChar)
      next hblank =>
        refine ih (List.forall_mem_cons.2 ⟨?_, hrun⟩)
        exact isNameChar_iff.2 ⟨hc, by simpa using hblank⟩

theorem isName_of_mem_scan {s w : String} (h : name w ∈ scan s) : IsName w :=
  isWritable_of_mem_scanFrom forall_mem_nil_isNameChar s.toList _ h

end Fabric.RouteToken
