import Fabric.Pip
import Fabric.Proofs.Checked
import Fabric.Text.Blank
import Mathlib.Data.Finset.Card
import Mathlib.Data.List.TakeWhile
/-!
# What PIP tokens name

A token is cut at the first slash, at the next dot and at the first place where an arrow fits. The
set of PIPs that a list of tokens gives holds just the pairs that the tokens name, so neither the
order of the tokens nor their repetition matters.
-/

namespace Fabric

/-! ## Arrows -/

namespace Arrow

def Fits (a : Arrow) (sink cs : List Char) : Prop := cs = a.text.toList ++ sink ∧ sink ≠ []

def Splits (a : Arrow) (source sink cs : List Char) : Prop :=
  ∃ behind, cs = source ++ behind ∧ source ≠ [] ∧ a.Fits sink behind

/-- The source is the shortest that an arrow splits off, and the arrow is the first of those that
split it off in the order in which arrows are tried. -/
structure SplitsFirst (a : Arrow) (source sink cs : List Char) : Prop where
  splits : a.Splits source sink cs
  shortest : ∀ (b : Arrow) (source' sink' : List Char), b.Splits source' sink' cs →
    source.length ≤ source'.length
  first : ∃ before after, all = before ++ a :: after ∧
    ∀ b ∈ before, ∀ sink', ¬ b.Splits source sink' cs

variable {a : Arrow} {c : Char} {cs source sink : List Char}

theorem mem_all (a : Arrow) : a ∈ all := by cases a <;> decide

theorem try_eq_some_iff (hline : '\n' ∉ cs) {b : Arrow} :
    (match b.text.toList.isPrefixOf? cs with
      | some rest => if rest ≠ [] ∧ '\n' ∉ rest then some (b, rest) else none
      | none => none) = some (a, sink) ↔ b = a ∧ b.Fits sink cs := by
  cases hrest : b.text.toList.isPrefixOf? cs with
  | none =>
    refine iff_of_false (by simp) ?_
    rintro ⟨-, heq, -⟩
    rw [List.isPrefixOf?_eq_some_iff_append_eq.2 heq.symm] at hrest
    cases hrest
  | some rest =>
    have heq := List.isPrefixOf?_eq_some_iff_append_eq.1 hrest
    have hrestLine : '\n' ∉ rest := fun h => hline (heq ▸ List.mem_append_right _ h)
    have hfits : b.Fits sink cs ↔ rest = sink ∧ rest ≠ [] := by
      unfold Fits
      rw [← heq, List.append_cancel_left_eq]
      exact and_congr_right fun h => by rw [h]
    rw [hfits]
    by_cases hne : rest = []
    · simp [hne]
    · simp [hne, hrestLine]

theorem read?_eq_some_iff (hline : '\n' ∉ cs) :
    read? cs = some (a, sink) ↔ a.Fits sink cs ∧
      ∃ before after, all = before ++ a :: after ∧ ∀ b ∈ before, ∀ sink', ¬ b.Fits sink' cs := by
  rw [read?, List.findSome?_eq_some_iff]
  constructor
  · rintro ⟨before, b, after, hall, hb, hbefore⟩
    obtain ⟨rfl, hfits⟩ := (try_eq_some_iff hline).1 hb
    refine ⟨hfits, before, after, hall, fun b' hb' sink' h => ?_⟩
    have hsome := (try_eq_some_iff hline).2 ⟨rfl, h⟩
    exact nomatch hsome.symm.trans (hbefore b' hb')
  · rintro ⟨hfits, before, after, hall, hbefore⟩
    refine ⟨before, a, after, hall, (try_eq_some_iff hline).2 ⟨rfl, hfits⟩, fun b hb => ?_⟩
    refine Option.eq_none_iff_forall_ne_some.2 fun ⟨b', sink'⟩ h => ?_
    exact hbefore b hb sink' ((try_eq_some_iff hline).1 h).2

theorem not_fits_of_read? (hline : '\n' ∉ cs) (hread : read? cs = none) (a : Arrow)
    (sink : List Char) : ¬ a.Fits sink cs := by
  intro hfits
  have hsome := (try_eq_some_iff hline).2 ⟨rfl, hfits⟩
  exact nomatch hsome.symm.trans (List.findSome?_eq_none_iff.1 hread a (mem_all a))

theorem not_splits_nil : ¬ a.Splits source sink [] := by
  rintro ⟨behind, heq, hne, -⟩
  exact hne (List.append_eq_nil_iff.1 heq.symm).1

theorem splits_cons_iff : a.Splits source sink (c :: cs) ↔
    source = [c] ∧ a.Fits sink cs ∨
      ∃ source', source = c :: source' ∧ a.Splits source' sink cs := by
  constructor
  · rintro ⟨behind, heq, hne, hfits⟩
    obtain ⟨d, ds, rfl⟩ := List.exists_cons_of_ne_nil hne
    obtain ⟨rfl, rfl⟩ := List.cons_eq_cons.1 heq
    cases ds with
    | nil => exact .inl ⟨rfl, hfits⟩
    | cons d ds => exact .inr ⟨d :: ds, rfl, behind, rfl, List.cons_ne_nil _ _, hfits⟩
  · rintro (⟨rfl, hfits⟩ | ⟨source', rfl, behind, rfl, -, hfits⟩)
    · exact ⟨cs, rfl, List.cons_ne_nil _ _, hfits⟩
    · exact ⟨behind, rfl, List.cons_ne_nil _ _, hfits⟩

theorem Splits.ne_nil (h : a.Splits source sink cs) : source ≠ [] := by
  obtain ⟨-, -, hne, -⟩ := h
  exact hne

theorem splits_singleton : a.Splits [c] sink (c :: cs) ↔ a.Fits sink cs := by
  rw [splits_cons_iff]
  constructor
  · rintro (⟨-, h⟩ | ⟨source', h, hs⟩)
    · exact h
    · exact absurd (List.cons_eq_cons.1 h).2.symm hs.ne_nil
  · exact fun h => .inl ⟨rfl, h⟩

theorem splitsFirst_singleton (hline : '\n' ∉ cs) :
    a.SplitsFirst [c] sink (c :: cs) ↔ read? cs = some (a, sink) := by
  rw [read?_eq_some_iff hline]
  constructor
  · intro h
    obtain ⟨before, after, hall, hbefore⟩ := h.first
    exact ⟨splits_singleton.1 h.splits, before, after, hall,
      fun b hb sink' hfits => hbefore b hb sink' (splits_singleton.2 hfits)⟩
  · rintro ⟨hfits, before, after, hall, hbefore⟩
    exact {
      splits := splits_singleton.2 hfits
      shortest := fun b source' sink' h => List.length_pos_iff.2 h.ne_nil
      first := ⟨before, after, hall,
        fun b hb sink' h => hbefore b hb sink' (splits_singleton.1 h)⟩ }

theorem SplitsFirst.eq_singleton (h : a.SplitsFirst source sink (c :: cs)) {b : Arrow}
    {rest : List Char} (hfits : b.Fits rest cs) : source = [c] := by
  have hlen : source.length ≤ 1 := h.shortest b [c] rest (splits_singleton.2 hfits)
  rcases splits_cons_iff.1 h.splits with ⟨hsource, -⟩ | ⟨source', rfl, hs⟩
  · exact hsource
  · have hpos := List.length_pos_iff.2 hs.ne_nil
    rw [List.length_cons] at hlen
    omega

theorem splitsFirst_cons_iff (hnone : ∀ b sink', ¬ Fits b sink' cs) :
    a.SplitsFirst source sink (c :: cs) ↔
      ∃ source', source = c :: source' ∧ a.SplitsFirst source' sink cs := by
  have hsplits : ∀ b source' sink', Splits b source' sink' (c :: cs) ↔
      ∃ s, source' = c :: s ∧ Splits b s sink' cs := by
    intro b source' sink'
    rw [splits_cons_iff, or_iff_right fun h => hnone b sink' h.2]
  constructor
  · intro h
    obtain ⟨source', rfl, hs⟩ := (hsplits _ _ _).1 h.splits
    obtain ⟨before, after, hall, hbefore⟩ := h.first
    refine ⟨source', rfl, hs, fun b s sink' hb => ?_, before, after, hall, fun b hb sink' hs => ?_⟩
    · have hle := h.shortest b (c :: s) sink' ((hsplits _ _ _).2 ⟨s, rfl, hb⟩)
      exact Nat.le_of_succ_le_succ hle
    · exact hbefore b hb sink' ((hsplits _ _ _).2 ⟨source', rfl, hs⟩)
  · rintro ⟨source', rfl, h⟩
    obtain ⟨before, after, hall, hbefore⟩ := h.first
    refine ⟨(hsplits _ _ _).2 ⟨source', rfl, h.splits⟩, fun b s sink' hb => ?_, before, after, hall,
      fun b hb sink' hs => ?_⟩
    · obtain ⟨s', rfl, hs'⟩ := (hsplits _ _ _).1 hb
      exact Nat.succ_le_succ (h.shortest b s' sink' hs')
    · obtain ⟨s', heq, hs'⟩ := (hsplits _ _ _).1 hs
      cases heq
      exact hbefore b hb sink' hs'

end Arrow

/-! ## Reading tokens -/

namespace PipToken

variable {a : Arrow} {acc cs source sink : List Char}

/-- Cutting finds the first split, with what has been read before put in front of its source. -/
theorem cutArrow?_eq_some_iff (hline : '\n' ∉ cs) :
    cutArrow? acc cs = some (source, a, sink) ↔
      ∃ s, source = acc.reverse ++ s ∧ a.SplitsFirst s sink cs := by
  induction cs generalizing acc with
  | nil =>
    refine iff_of_false (by simp [cutArrow?]) ?_
    rintro ⟨s, -, hs⟩
    exact Arrow.not_splits_nil hs.splits
  | cons c cs ih =>
    obtain ⟨hc, hcs⟩ : c ≠ '\n' ∧ '\n' ∉ cs :=
      ⟨fun h => hline (h ▸ List.mem_cons_self), fun h => hline (List.mem_cons_of_mem _ h)⟩
    rw [cutArrow?, if_neg hc]
    cases hread : Arrow.read? cs with
    | some r =>
      obtain ⟨b, rest⟩ := r
      constructor
      · intro h
        cases h
        exact ⟨[c], List.reverse_cons, (Arrow.splitsFirst_singleton hcs).2 hread⟩
      · rintro ⟨s, rfl, hs⟩
        obtain rfl := hs.eq_singleton ((Arrow.read?_eq_some_iff hcs).1 hread).1
        rw [Arrow.splitsFirst_singleton hcs, hread] at hs
        cases hs
        simp
    | none =>
      rw [ih hcs]
      simp only [Arrow.splitsFirst_cons_iff (Arrow.not_fits_of_read? hcs hread),
        List.reverse_cons, List.append_assoc, List.singleton_append]
      constructor
      · rintro ⟨s, rfl, hs⟩
        exact ⟨c :: s, rfl, s, rfl, hs⟩
      · rintro ⟨-, rfl, s, rfl, hs⟩
        exact ⟨s, rfl, hs⟩

theorem cut_iff {sep : Char} {before after cs : List Char} (hne : after ≠ []) :
    (cs.takeWhile (· ≠ sep) = before ∧ (cs.dropWhile (· ≠ sep)).drop 1 = after) ↔
      cs = before ++ sep :: after ∧ sep ∉ before := by
  constructor
  · rintro ⟨rfl, rfl⟩
    obtain ⟨c, rest, hdrop⟩ : ∃ c rest, cs.dropWhile (· ≠ sep) = c :: rest :=
      List.exists_cons_of_ne_nil fun h => hne (by rw [h]; rfl)
    have hhead := List.head?_dropWhile_not (fun d => decide (d ≠ sep)) cs
    rw [hdrop] at hhead
    obtain rfl : c = sep := by simpa using hhead
    refine ⟨?_, fun hmem => by simpa using List.mem_takeWhile_imp hmem⟩
    calc cs = cs.takeWhile (· ≠ c) ++ cs.dropWhile (· ≠ c) := List.takeWhile_append_dropWhile.symm
      _ = cs.takeWhile (· ≠ c) ++ c :: (cs.dropWhile (· ≠ c)).drop 1 := by rw [hdrop]; rfl
  · rintro ⟨rfl, hmem⟩
    have hall : ∀ c ∈ before, decide (c ≠ sep) = true := fun c hc =>
      decide_eq_true fun h => hmem (h ▸ hc)
    rw [List.takeWhile_append_of_pos hall, List.dropWhile_append_of_pos hall]
    simp

/-- The token is tile, slash, type, dot, source, arrow and sink, cut at the first slash, at the
next dot and at the first place where an arrow fits. -/
structure Reads (token : String) (t : PipToken) : Prop where
  text : token = t.text
  tile : t.tile.toList ≠ [] ∧ '/' ∉ t.tile.toList
  tileType : t.tileType.toList ≠ [] ∧ '.' ∉ t.tileType.toList
  cut : t.arrow.SplitsFirst t.source.toList t.sink.toList
    (t.source ++ t.arrow.text ++ t.sink).toList

variable {token : String} {t : PipToken}

/-- A token of one line is read just as it is made up. -/
theorem read?_eq_some_iff (hline : '\n' ∉ token.toList) :
    read? token = some t ↔ Reads token t := by
  constructor
  · intro h
    unfold read? at h
    dsimp only at h
    generalize htile : token.toList.takeWhile (· ≠ '/') = tile at h
    generalize hafterTile : (token.toList.dropWhile (· ≠ '/')).drop 1 = afterTile at h
    generalize htype : afterTile.takeWhile (· ≠ '.') = tileType at h
    generalize hafterType : (afterTile.dropWhile (· ≠ '.')).drop 1 = afterType at h
    split at h
    next => cases h
    next hne =>
      obtain ⟨htileNe, htypeNe⟩ := not_or.1 hne
      obtain ⟨⟨source, a, sink⟩, hcut, rfl⟩ := Option.map_eq_some_iff.1 h
      have hafterNe : afterType ≠ [] := by
        rintro rfl
        cases hcut
      obtain ⟨rfl, hdot⟩ := (cut_iff hafterNe).1 ⟨htype, hafterType⟩
      obtain ⟨htoken, hslash⟩ := (cut_iff (by simp)).1 ⟨htile, hafterTile⟩
      have hafterLine : '\n' ∉ afterType := fun hmem => hline <| by
        simp only [htoken, List.mem_append, List.mem_cons, hmem, or_true]
      obtain ⟨s, hsource, hs⟩ := (cutArrow?_eq_some_iff hafterLine).1 hcut
      obtain rfl : source = s := hsource
      obtain ⟨behind, rfl, -, rfl, -⟩ := hs.splits
      exact {
        text := String.toList_inj.1 (by rw [htoken, text]; simp)
        tile := by simpa using ⟨htileNe, hslash⟩
        tileType := by simpa using ⟨htypeNe, hdot⟩
        cut := by simpa using hs }
  · intro h
    have htoken : token.toList = t.tile.toList ++ '/' :: (t.tileType.toList ++ '.' ::
        (t.source ++ t.arrow.text ++ t.sink).toList) := by
      rw [h.text, text]
      simp
    have hcut : (t.source ++ t.arrow.text ++ t.sink).toList ≠ [] := by
      intro hnil
      have hs := h.cut.splits
      rw [hnil] at hs
      exact Arrow.not_splits_nil hs
    obtain ⟨htype, hafterType⟩ := (cut_iff hcut).2 ⟨rfl, h.tileType.2⟩
    obtain ⟨htile, hafterTile⟩ := (cut_iff (by simp)).2 ⟨htoken, h.tile.2⟩
    unfold read?
    dsimp only
    rw [hafterTile, htile, htype, hafterType, if_neg (by simp [h.tile.1, h.tileType.1])]
    rw [(cutArrow?_eq_some_iff _).2 ⟨t.source.toList, rfl, h.cut⟩]
    · simp
    · intro hmem
      refine hline ?_
      simp only [htoken, List.mem_append, List.mem_cons, hmem, or_true]

/-- An arrow needs something behind it, so a shorter one is read where the longer one ends the
token. -/
example : read? "T/S.A->>" = some ⟨"T", "S", "A", .plain, ">"⟩ := by decide

/-- A token of one line that nothing makes up cannot be read. -/
theorem read?_eq_none_iff (hline : '\n' ∉ token.toList) :
    read? token = none ↔ ¬ ∃ t, Reads token t := by
  simp only [Option.eq_none_iff_forall_ne_some, ne_eq, read?_eq_some_iff hline, not_exists]

theorem mem_pips_iff {p : Pip} :
    p ∈ t.pips ↔ p = t.forward ∨ t.arrow.isTwoWay ∧ p = t.forward.reverse := by
  unfold pips
  cases t.arrow.isTwoWay <;> simp [or_comm]

end PipToken

/-! ## Sets of PIPs -/

namespace PipSet

variable {s s' : PipSet} {token : String} {tokens : List String}

theorem ext_contains (h : ∀ p, s.contains p = s'.contains p) : s = s' := by
  cases s with
  | mk pips =>
    cases s' with
    | mk pips' => exact congrArg mk (Std.ExtTreeSet.ext_mem fun p => by
        rw [← Std.ExtTreeSet.contains_iff_mem, ← Std.ExtTreeSet.contains_iff_mem]
        exact Bool.eq_iff_iff.1 (h p))

theorem contains_empty (p : Pip) : empty.contains p = false := Std.ExtTreeSet.contains_empty

theorem contains_foldl_add (ps : List Pip) (p : Pip) :
    (ps.foldl add s).contains p ↔ p ∈ ps ∨ s.contains p := by
  induction ps generalizing s with
  | nil => simp
  | cons q ps ih =>
    rw [List.foldl_cons, ih, contains_add, List.mem_cons, Bool.or_eq_true, beq_iff_eq,
      eq_comm (a := q), or_left_comm, or_assoc]

theorem exists_card_eq_size (s : PipSet) :
    ∃ pips : Finset Pip, (∀ p, p ∈ pips ↔ s.contains p) ∧ pips.card = s.size := by
  have hnodup : s.pips.toList.Nodup := by
    refine Std.ExtTreeSet.distinct_toList.imp fun hne heq => hne ?_
    exact heq ▸ Std.ReflCmp.compare_self
  refine ⟨s.pips.toList.toFinset, fun p => ?_, ?_⟩
  · rw [List.mem_toFinset, Std.ExtTreeSet.mem_toList]
    exact Std.ExtTreeSet.contains_iff_mem.symm
  · rw [List.toFinset_card_of_nodup hnodup]
    exact Std.ExtTreeSet.length_toList

theorem addToken_of_reads (hline : '\n' ∉ token.toList) {t : PipToken}
    (ht : PipToken.Reads token t) : s.addToken token = .ok (t.pips.foldl add s) := by
  rw [addToken, (PipToken.read?_eq_some_iff hline).2 ht]

theorem addToken_of_not_reads (hline : '\n' ∉ token.toList) (ht : ¬ ∃ t, PipToken.Reads token t) :
    s.addToken token = .error token := by
  rw [addToken, (PipToken.read?_eq_none_iff hline).2 ht]

theorem foldlM_addToken_eq_error_iff (hline : ∀ token ∈ tokens, '\n' ∉ token.toList) {e : String} :
    tokens.foldlM addToken s = .error e ↔ ∃ before after, tokens = before ++ e :: after ∧
      (∀ token ∈ before, ∃ t, PipToken.Reads token t) ∧ ¬ ∃ t, PipToken.Reads e t := by
  induction tokens generalizing s with
  | nil =>
    refine iff_of_false nofun ?_
    rintro ⟨before, after, h, -⟩
    exact List.append_ne_nil_of_right_ne_nil before (List.cons_ne_nil e after) h.symm
  | cons token tokens ih =>
    rw [List.forall_mem_cons] at hline
    rw [List.foldlM_cons]
    by_cases ht : ∃ t, PipToken.Reads token t
    · obtain ⟨t, hread⟩ := ht
      rw [addToken_of_reads hline.1 hread, Checked.ok_bind, ih hline.2]
      constructor
      · rintro ⟨before, after, rfl, hbefore, he⟩
        exact ⟨token :: before, after, rfl, List.forall_mem_cons.2 ⟨⟨t, hread⟩, hbefore⟩, he⟩
      · rintro ⟨before, after, heq, hbefore, he⟩
        rcases List.cons_eq_append_iff.1 heq with ⟨rfl, h⟩ | ⟨before', rfl, h⟩
        · cases h
          exact absurd ⟨t, hread⟩ he
        · exact ⟨before', after, h, (List.forall_mem_cons.1 hbefore).2, he⟩
    · rw [addToken_of_not_reads hline.1 ht]
      constructor
      · intro h
        cases h
        exact ⟨[], tokens, rfl, by simp, ht⟩
      · rintro ⟨before, after, heq, hbefore, he⟩
        rcases List.cons_eq_append_iff.1 heq with ⟨rfl, h⟩ | ⟨before', rfl, h⟩
        · cases h
          rfl
        · exact absurd (hbefore token List.mem_cons_self) ht

theorem foldlM_addToken_eq_ok (hline : ∀ token ∈ tokens, '\n' ∉ token.toList)
    (h : tokens.foldlM addToken s = .ok s') :
    (∀ token ∈ tokens, ∃ t, PipToken.Reads token t) ∧ ∀ p, s'.contains p ↔
      s.contains p ∨ ∃ token ∈ tokens, ∃ t, PipToken.Reads token t ∧ p ∈ t.pips := by
  induction tokens generalizing s with
  | nil =>
    cases h
    simp
  | cons token tokens ih =>
    rw [List.forall_mem_cons] at hline
    rw [List.foldlM_cons] at h
    by_cases ht : ∃ t, PipToken.Reads token t
    · obtain ⟨t, hread⟩ := ht
      rw [addToken_of_reads hline.1 hread, Checked.ok_bind] at h
      obtain ⟨hall, hcontains⟩ := ih hline.2 h
      have hunique : ∀ t', PipToken.Reads token t' ↔ t' = t := by
        intro t'
        rw [← PipToken.read?_eq_some_iff hline.1, (PipToken.read?_eq_some_iff hline.1).2 hread,
          Option.some_inj, eq_comm]
      refine ⟨List.forall_mem_cons.2 ⟨⟨t, hread⟩, hall⟩, fun p => ?_⟩
      rw [hcontains, contains_foldl_add]
      simp only [List.mem_cons, exists_eq_or_imp, hunique, exists_eq_left]
      rw [or_comm (a := p ∈ t.pips), or_assoc]
    · rw [addToken_of_not_reads hline.1 ht] at h
      cases h

/-- Tokens give a set when each of them is made up as a token, and the first that is not is the
error. The set holds what its tokens name, counts it once, and comes from any list of the same
tokens. -/
theorem ofTokens_spec (hblank : ∀ token ∈ tokens, ∀ c ∈ token.toList, ¬ Text.isBlank c) :
    ((∃ s, ofTokens tokens = .ok s) ↔ ∀ token ∈ tokens, ∃ t, PipToken.Reads token t) ∧
    (∀ e, ofTokens tokens = .error e ↔ ∃ before after, tokens = before ++ e :: after ∧
      (∀ token ∈ before, ∃ t, PipToken.Reads token t) ∧ ¬ ∃ t, PipToken.Reads e t) ∧
    ∀ s, ofTokens tokens = .ok s →
      (∀ p, s.contains p ↔ ∃ token ∈ tokens, ∃ t, PipToken.Reads token t ∧
        (p = t.forward ∨ t.arrow.isTwoWay ∧ p = t.forward.reverse)) ∧
      (∃ pips : Finset Pip, (∀ p, p ∈ pips ↔ s.contains p) ∧ pips.card = s.size) ∧
      ∀ tokens' : List String, (∀ token, token ∈ tokens' ↔ token ∈ tokens) →
        ofTokens tokens' = .ok s := by
  have hlines : ∀ tokens' : List String, (∀ token, token ∈ tokens' ↔ token ∈ tokens) →
      ∀ token ∈ tokens', '\n' ∉ token.toList := fun tokens' hsame token ht hmem =>
    hblank token ((hsame token).1 ht) '\n' hmem (by decide)
  have hok : ∀ tokens' : List String, (∀ token, token ∈ tokens' ↔ token ∈ tokens) →
      (∀ token ∈ tokens, ∃ t, PipToken.Reads token t) → ∃ s, ofTokens tokens' = .ok s := by
    intro tokens' hsame hall
    cases h : ofTokens tokens' with
    | ok s => exact ⟨s, rfl⟩
    | error e =>
      obtain ⟨before, after, htokens, -, he⟩ :=
        (foldlM_addToken_eq_error_iff (hlines tokens' hsame)).1 h
      exact absurd (hall e ((hsame e).1 (by simp [htokens]))) he
  have hcontains : ∀ tokens' : List String, (∀ token, token ∈ tokens' ↔ token ∈ tokens) →
      ∀ s, ofTokens tokens' = .ok s → ∀ p, s.contains p ↔ ∃ token ∈ tokens, ∃ t,
        PipToken.Reads token t ∧ (p = t.forward ∨ t.arrow.isTwoWay ∧ p = t.forward.reverse) := by
    intro tokens' hsame s hs p
    rw [(foldlM_addToken_eq_ok (hlines tokens' hsame) hs).2, contains_empty]
    simp only [Bool.false_eq_true, false_or, hsame, PipToken.mem_pips_iff]
  have hself : ∀ token, token ∈ tokens ↔ token ∈ tokens := fun _ => Iff.rfl
  have hiff : (∃ s, ofTokens tokens = .ok s) ↔ ∀ token ∈ tokens, ∃ t, PipToken.Reads token t :=
    ⟨fun ⟨s, hs⟩ => (foldlM_addToken_eq_ok (hlines tokens hself) hs).1, hok tokens hself⟩
  refine ⟨hiff, fun e => foldlM_addToken_eq_error_iff (hlines tokens hself), fun s hs => ?_⟩
  refine ⟨hcontains tokens hself s hs, s.exists_card_eq_size, fun tokens' hsame => ?_⟩
  obtain ⟨s', hs'⟩ := hok tokens' hsame (hiff.1 ⟨s, hs⟩)
  rw [hs']
  refine congrArg Except.ok (ext_contains fun p => Bool.eq_iff_iff.2 ?_)
  rw [hcontains tokens hself s hs, hcontains tokens' hsame s' hs']

/-- Two tokens, one of them two-way and one written twice, name three PIPs. -/
theorem ofTokens_twoWay : ∃ s, ofTokens ["CLK/HROW.A<->B", "INT/L.C->>D", "INT/L.C->>D"] = .ok s ∧
    s.contains ⟨"CLK/A", "CLK/B"⟩ ∧ s.contains ⟨"CLK/B", "CLK/A"⟩ ∧ s.contains ⟨"INT/C", "INT/D"⟩ ∧
    ofTokens ["INT/L.C->>D", "CLK/HROW.A<->B"] = .ok s := by
  have hfirst : PipToken.Reads "CLK/HROW.A<->B" ⟨"CLK", "HROW", "A", .twoWay, "B"⟩ :=
    (PipToken.read?_eq_some_iff (by decide)).1 (by decide)
  have hsecond : PipToken.Reads "INT/L.C->>D" ⟨"INT", "L", "C", .buffered, "D"⟩ :=
    (PipToken.read?_eq_some_iff (by decide)).1 (by decide)
  have hblank : ∀ token ∈ ["CLK/HROW.A<->B", "INT/L.C->>D", "INT/L.C->>D"],
      ∀ c ∈ token.toList, ¬ Text.isBlank c := by
    have hall : (["CLK/HROW.A<->B", "INT/L.C->>D", "INT/L.C->>D"].all fun token =>
        token.toList.all fun c => !Text.isBlank c) = true := by
      decide
    simpa only [List.all_eq_true, Bool.not_eq_true', ← Bool.not_eq_true] using hall
  obtain ⟨hok, -, hset⟩ := ofTokens_spec hblank
  obtain ⟨s, hs⟩ := hok.2 (by simpa using ⟨⟨_, hfirst⟩, ⟨_, hsecond⟩⟩)
  obtain ⟨hcontains, -, hsame⟩ := hset s hs
  refine ⟨s, hs, ?_, ?_, ?_, hsame _ (by simp [or_comm])⟩
  · exact (hcontains _).2 ⟨_, by simp, _, hfirst, .inl (by decide)⟩
  · exact (hcontains _).2 ⟨_, by simp, _, hfirst, .inr (by decide)⟩
  · exact (hcontains _).2 ⟨_, by simp, _, hsecond, .inl (by decide)⟩

end PipSet

end Fabric
