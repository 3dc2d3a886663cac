import Mathlib.Data.List.Chain
import Fabric.Proofs.RouteText.Grammar
import Fabric.Proofs.RouteText.Scan
/-!
# The texts that are read

The grammar of written routes as one would put it on paper, without the trees: a group is a name
with names and groups in any order behind it, between braces. A text is read if and only if its
tokens are such groups with tokens between them that are skipped, and then every group gives one
tree. What the grammar rules out can be seen from the braces alone.
-/

namespace Fabric

namespace RouteToken

/-! ## The tokens of a text -/

/-- The text is made of these tokens. A name goes on as far as it can. -/
inductive Spells : List Char → List RouteToken → Prop
  | nil : Spells [] []
  | blank {c : Char} {cs : List Char} {us : List RouteToken} :
      Text.isBlank c → Spells cs us → Spells (c :: cs) us
  | delimiter {c : Char} {t : RouteToken} {cs : List Char} {us : List RouteToken} :
      ofChar? c = some t → Spells cs us → Spells (c :: cs) (t :: us)
  | name {w : String} {cs : List Char} {us : List RouteToken} :
      IsName w → (∀ c ∈ cs.head?, ¬ isNameChar c) → Spells cs us →
        Spells (w.toList ++ cs) (.name w :: us)

theorem ofChar?_of_isBlank {c : Char} (h : Text.isBlank c) : ofChar? c = none := by
  unfold ofChar?
  split <;> first | rfl | exact absurd h (by decide)

theorem scanFrom_of_head {run cs : List Char} (h : ∀ c ∈ cs.head?, ¬ isNameChar c) :
    scanFrom run cs = pushName run (scanFrom [] cs) := by
  cases cs with
  | nil => rfl
  | cons c cs =>
    have hc : ¬ isNameChar c := h c rfl
    rw [scanFrom, scanFrom]
    cases ht : ofChar? c with
    | some t => rfl
    | none =>
      have hblank : Text.isBlank c = true := by
        by_contra hblank
        exact hc (isNameChar_iff.2 ⟨ht, by simpa using hblank⟩)
      simp only [hblank, if_true]
      rfl

theorem Spells.scanFrom_eq {cs : List Char} {us : List RouteToken} (h : Spells cs us) :
    scanFrom [] cs = us := by
  induction h with
  | nil => rfl
  | @blank c cs us hc _ ih =>
    rw [scanFrom, ofChar?_of_isBlank hc]
    simp only [hc, if_true]
    exact ih
  | delimiter ht _ ih =>
    rw [scanFrom, ht]
    exact congrArg _ ih
  | name hw hcs _ ih =>
    rw [scanFrom_nil_append_name hw, scanFrom_of_head hcs, pushName_reverse hw, ih]

theorem spells_pushName {run cs : List Char} {us : List RouteToken}
    (hrun : ∀ c ∈ run, isNameChar c) (hcs : ∀ c ∈ cs.head?, ¬ isNameChar c) (h : Spells cs us) :
    Spells (run.reverse ++ cs) (pushName run us) := by
  unfold pushName
  split
  next hnil =>
    obtain rfl := List.isEmpty_iff.1 hnil
    exact h
  next hne =>
    have hw : IsName (.ofList run.reverse) := ⟨by simpa using hne, by simpa using hrun⟩
    have hname := Spells.name hw hcs h
    rwa [String.toList_ofList] at hname

theorem spells_scanFrom (cs : List Char) {run : List Char} (hrun : ∀ c ∈ run, isNameChar c) :
    Spells (run.reverse ++ cs) (scanFrom run cs) := by
  induction cs generalizing run with
  | nil => exact spells_pushName hrun (by simp) .nil
  | cons c cs ih =>
    have hrest : Spells ([].reverse ++ cs) (scanFrom [] cs) := ih forall_mem_nil_isNameChar
    rw [List.reverse_nil, List.nil_append] at hrest
    unfold scanFrom
    split
    next t ht =>
      have hc : ¬ isNameChar c := by simp [isNameChar, ht]
      exact spells_pushName hrun (by simpa using hc) (.delimiter ht hrest)
    next ht =>
      split
      next hblank =>
        have hc : ¬ isNameChar c := by simp [isNameChar, hblank]
        exact spells_pushName hrun (by simpa using hc) (.blank hblank hrest)
      next hblank =>
        have hc : isNameChar c := isNameChar_iff.2 ⟨ht, by simpa using hblank⟩
        have hlong := ih (List.forall_mem_cons.2 ⟨hc, hrun⟩)
        rwa [List.reverse_cons, List.append_assoc] at hlong

/-- The tokens of a text are those that it is made of, and no others. -/
theorem scan_eq_iff {s : String} {us : List RouteToken} : scan s = us ↔ Spells s.toList us := by
  constructor
  · rintro rfl
    exact spells_scanFrom s.toList forall_mem_nil_isNameChar
  · exact Spells.scanFrom_eq

end RouteToken

namespace RouteText

open RouteToken

/-! ## The grammar without trees -/

/-- Names and groups in any order. A group is a brace, a name, items and the closing brace. -/
inductive Items : List RouteToken → Prop
  | nil : Items []
  | name {w : String} {us : List RouteToken} : Items us → Items (.name w :: us)
  | group {w : String} {us vs : List RouteToken} :
      Items us → Items vs → Items (.openBrace :: .name w :: us ++ .closeBrace :: vs)

inductive Group : List RouteToken → Prop
  | mk {w : String} {us : List RouteToken} :
      Items us → Group (.openBrace :: .name w :: us ++ [.closeBrace])

/-- The groups, in order, with skipped tokens before, between and behind them. -/
inductive Interleaves : List (List RouteToken) → List RouteToken → Prop
  | nil : Interleaves [] []
  | skip {t : RouteToken} {gs : List (List RouteToken)} {us : List RouteToken} :
      IsSkipped t → Interleaves gs us → Interleaves gs (t :: us)
  | group {g : List RouteToken} {gs : List (List RouteToken)} {us : List RouteToken} :
      Group g → Interleaves gs us → Interleaves (g :: gs) (g ++ us)

def ReadAs (g : List RouteToken) (t : RouteText) : Prop := ∃ us, g = .openBrace :: us ∧ IsGroup us t

theorem Items.exists_isChildren {us : List RouteToken} (h : Items us) :
    ∃ cs, IsChildren (us ++ [.closeBrace]) cs := by
  induction h with
  | nil => exact ⟨[], .close⟩
  | @name w us _ ih =>
    obtain ⟨cs, hcs⟩ := ih
    exact ⟨[⟨w, cs⟩], .last hcs⟩
  | @group w us vs _ _ ihus ihvs =>
    obtain ⟨cs, hcs⟩ := ihus
    obtain ⟨ds, hds⟩ := ihvs
    have hbranch := IsChildren.branch (.mk (w := w) hcs) hds
    exact ⟨⟨w, cs⟩ :: ds, by simpa using hbranch⟩

theorem Group.exists_readAs {g : List RouteToken} (h : Group g) : ∃ t, ReadAs g t := by
  obtain ⟨hus⟩ := h
  obtain ⟨cs, hcs⟩ := hus.exists_isChildren
  exact ⟨⟨_, cs⟩, _, rfl, .mk hcs⟩

theorem exists_items_of_isChildren {us : List RouteToken} {cs : List RouteText}
    (h : IsChildren us cs) : ∃ vs, us = vs ++ [.closeBrace] ∧ Items vs := by
  cases h with
  | close => exact ⟨[], rfl, .nil⟩
  | @last w ts cs hcs =>
    obtain ⟨vs, rfl, hvs⟩ := exists_items_of_isChildren hcs
    exact ⟨.name w :: vs, rfl, .name hvs⟩
  | branch hc hcs =>
    obtain ⟨xs, rfl, hxs⟩ := exists_items_of_isChildren hcs
    cases hc with
    | @mk w _ _ hds =>
      obtain ⟨vs, rfl, hvs⟩ := exists_items_of_isChildren hds
      exact ⟨.openBrace :: .name w :: vs ++ .closeBrace :: xs, by simp, .group hvs hxs⟩

theorem ReadAs.group {g : List RouteToken} {t : RouteText} (h : ReadAs g t) : Group g := by
  obtain ⟨us, rfl, ⟨hcs⟩⟩ := h
  obtain ⟨vs, rfl, hvs⟩ := exists_items_of_isChildren hcs
  exact .mk hvs

theorem Interleaves.exists_isGroups {gs : List (List RouteToken)} {us : List RouteToken}
    (h : Interleaves gs us) : ∃ ts, IsGroups us ts ∧ List.Forall₂ ReadAs gs ts := by
  induction h with
  | nil => exact ⟨[], .nil, .nil⟩
  | skip ht _ ih =>
    obtain ⟨ts, hts, hread⟩ := ih
    exact ⟨ts, .skip ht hts, hread⟩
  | group hg _ ih =>
    obtain ⟨ts, hts, hread⟩ := ih
    obtain ⟨t, us', rfl, ht⟩ := hg.exists_readAs
    exact ⟨t :: ts, .group ht hts, .cons ⟨us', rfl, ht⟩ hread⟩

theorem IsGroups.exists_interleaves {us : List RouteToken} {ts : List RouteText}
    (h : IsGroups us ts) : ∃ gs, Interleaves gs us := by
  induction h with
  | nil => exact ⟨[], .nil⟩
  | skip ht _ ih =>
    obtain ⟨gs, hgs⟩ := ih
    exact ⟨gs, .skip ht hgs⟩
  | group hg _ ih =>
    obtain ⟨gs, hgs⟩ := ih
    exact ⟨_, .group (ReadAs.group ⟨_, rfl, hg⟩) hgs⟩

/-! ## What the grammar rules out

The groups of a text in the grammar are closed, so the braces in front of a token say whether it
stands in a group.
-/

/-- More groups have been opened than closed. -/
def Open (us : List RouteToken) : Prop := us.count .closeBrace < us.count .openBrace

instance (us : List RouteToken) : Decidable (Open us) :=
  inferInstanceAs (Decidable (us.count .closeBrace < us.count .openBrace))

/-- A token that can not stand where it is, or that is missing at the end. -/
inductive Misplaced (us : List RouteToken) : Prop
  | emptyGroup : [.openBrace, .closeBrace] <:+: us → Misplaced us
  | leadingGroup : [.openBrace, .openBrace] <:+: us → Misplaced us
  | skippedInside {pre post : List RouteToken} {t : RouteToken} :
      us = pre ++ t :: post → IsSkipped t → Open pre → Misplaced us
  | nameOutside {pre post : List RouteToken} {w : String} :
      us = pre ++ .name w :: post → ¬ Open pre → Misplaced us
  | closeOutside {pre post : List RouteToken} :
      us = pre ++ .closeBrace :: post → ¬ Open pre → Misplaced us
  | unclosed : Open us → Misplaced us

theorem Items.not_isSkipped {us : List RouteToken} (h : Items us) : ∀ t ∈ us, ¬ IsSkipped t := by
  induction h with
  | nil => simp
  | name _ ih => exact List.forall_mem_cons.2 ⟨by simp [IsSkipped], ih⟩
  | group _ _ ihus ihvs =>
    simp only [List.cons_append, List.forall_mem_cons, List.forall_mem_append]
    exact ⟨by simp [IsSkipped], by simp [IsSkipped], ihus, by simp [IsSkipped], ihvs⟩

theorem Group.not_isSkipped {g : List RouteToken} (h : Group g) : ∀ t ∈ g, ¬ IsSkipped t := by
  obtain ⟨hus⟩ := h
  exact (Items.group hus .nil).not_isSkipped

theorem Items.count_eq {us : List RouteToken} (h : Items us) :
    us.count .openBrace = us.count .closeBrace := by
  induction h with
  | nil => rfl
  | name _ ih => simpa using ih
  | group _ _ ihus ihvs =>
    simp only [List.cons_append, List.count_cons, List.count_append, ihus, ihvs]
    simp
    omega

theorem Group.count_eq {g : List RouteToken} (h : Group g) :
    g.count .openBrace = g.count .closeBrace := by
  obtain ⟨hus⟩ := h
  exact (Items.group hus .nil).count_eq

/-- Items close no more groups than they open, from their start to any place in them. -/
theorem Items.count_take_le {us : List RouteToken} (h : Items us) (n : Nat) :
    (us.take n).count .closeBrace ≤ (us.take n).count .openBrace := by
  induction h generalizing n with
  | nil => simp
  | name _ ih =>
    cases n with
    | zero => simp
    | succ n => simpa using ih n
  | @group w us vs hus _ ihus ihvs =>
    match n with
    | 0 | 1 => simp
    | n + 2 =>
      rw [List.cons_append, List.cons_append, List.take_succ_cons, List.take_succ_cons,
        List.take_append]
      have hvs := ihvs (n - us.length - 1)
      have hus := ihus n
      cases hrest : n - us.length with
      | zero =>
        simp
        omega
      | succ m =>
        rw [hrest, Nat.add_sub_cancel] at hvs
        simp only [List.take_succ_cons, List.count_cons, List.count_append]
        simp
        omega

theorem Group.open_of_append {g pre post : List RouteToken} (h : Group g) (hg : g = pre ++ post)
    (hpre : pre ≠ []) (hpost : post ≠ []) : Open pre := by
  obtain @⟨w, us, hus⟩ := h
  match pre with
  | [] => exact absurd rfl hpre
  | [a] =>
    obtain rfl : RouteToken.openBrace = a := List.head_eq_of_cons_eq hg
    decide
  | a :: b :: pre =>
    simp only [List.cons_append, List.cons.injEq] at hg
    obtain ⟨rfl, rfl, hrest⟩ := hg
    -- Behind the brace and the name, items close no more than they open.
    have htake : pre = us.take pre.length := by
      rcases List.append_eq_append_iff.1 hrest with ⟨as, rfl, has⟩ | ⟨bs, rfl, -⟩
      · obtain rfl : as = [] := by cases as <;> simp_all
        simp
      · simp
    have hle := hus.count_take_le pre.length
    rw [← htake] at hle
    simpa [Open, Nat.lt_succ_iff] using hle

theorem Open.append_iff {us vs : List RouteToken}
    (h : us.count .openBrace = us.count .closeBrace) : Open (us ++ vs) ↔ Open vs := by
  unfold Open
  rw [List.count_append, List.count_append, h]
  omega

theorem IsSkipped.count_eq {t : RouteToken} (h : IsSkipped t) :
    [t].count .openBrace = [t].count .closeBrace := by
  rcases h with rfl | rfl | rfl <;> rfl

theorem Interleaves.not_open {gs : List (List RouteToken)} {us : List RouteToken}
    (h : Interleaves gs us) : ¬ Open us := by
  induction h with
  | nil => decide
  | skip ht _ ih => exact (Open.append_iff ht.count_eq).not.2 ih
  | group hg _ ih => exact (Open.append_iff hg.count_eq).not.2 ih

theorem Interleaves.open_of_append {gs : List (List RouteToken)} {us pre post : List RouteToken}
    {t : RouteToken} (h : Interleaves gs us) (hus : us = pre ++ t :: post) :
    (IsSkipped t → ¬ Open pre) ∧ (t ≠ .openBrace → ¬ IsSkipped t → Open pre) := by
  induction h generalizing pre with
  | nil => simp at hus
  | @skip u gs us hu _ ih =>
    cases pre with
    | nil =>
      obtain rfl : u = t := List.head_eq_of_cons_eq hus
      exact ⟨fun _ => by decide, fun _ hn => absurd hu hn⟩
    | cons v pre =>
      simp only [List.cons_append, List.cons.injEq] at hus
      obtain ⟨rfl, rfl⟩ := hus
      have hiff : Open ([u] ++ pre) ↔ Open pre := Open.append_iff hu.count_eq
      rw [List.singleton_append] at hiff
      rw [hiff]
      exact ih rfl
  | @group g gs us hg _ ih =>
    -- The token is behind the group, and maybe the first one there, or it is inside.
    rcases List.append_eq_append_iff.1 hus with ⟨as, rfl, has⟩ | ⟨bs, rfl, hbs⟩
    · rw [Open.append_iff hg.count_eq]
      exact ih has
    · cases bs with
      | nil =>
        rw [List.append_nil] at hg
        have hiff : Open (pre ++ []) ↔ Open [] := Open.append_iff hg.count_eq
        rw [List.append_nil] at hiff
        rw [hiff]
        exact ih (hbs.symm.trans (List.nil_append _).symm)
      | cons u bs =>
        simp only [List.cons_append, List.cons.injEq] at hbs
        obtain ⟨rfl, -⟩ := hbs
        refine ⟨fun ht => absurd ht (hg.not_isSkipped t (by simp)), fun ht _ => ?_⟩
        refine hg.open_of_append rfl ?_ (by simp)
        rintro rfl
        obtain ⟨-⟩ := hg
        simp_all

def Named (t u : RouteToken) : Prop := t = .openBrace → ∃ w, u = .name w

theorem Items.isChain_append {us vs : List RouteToken} (h : Items us) (hvs : vs.IsChain Named) :
    (us ++ vs).IsChain Named := by
  induction h generalizing vs with
  | nil => exact hvs
  | name _ ih => exact List.isChain_cons.2 ⟨by simp [Named], ih hvs⟩
  | @group w us' vs' _ _ ihus ihvs =>
    rw [List.append_assoc]
    have hclose : (.closeBrace :: (vs' ++ vs)).IsChain Named :=
      List.isChain_cons.2 ⟨by simp [Named], ihvs hvs⟩
    have hname : (.name w :: (us' ++ .closeBrace :: (vs' ++ vs))).IsChain Named :=
      List.isChain_cons.2 ⟨by simp [Named], ihus hclose⟩
    exact List.isChain_cons.2 ⟨by simp [Named], hname⟩

theorem Interleaves.isChain {gs : List (List RouteToken)} {us : List RouteToken}
    (h : Interleaves gs us) : us.IsChain Named := by
  induction h with
  | nil => exact .nil
  | skip ht _ ih =>
    refine List.isChain_cons.2 ⟨?_, ih⟩
    rcases ht with rfl | rfl | rfl <;> simp [Named]
  | group hg _ ih =>
    obtain ⟨hus⟩ := hg
    exact (Items.group hus .nil).isChain_append ih

/-- No token of a text in the grammar is misplaced. -/
theorem Misplaced.not_interleaves {gs : List (List RouteToken)} {us : List RouteToken}
    (h : Misplaced us) : ¬ Interleaves gs us := by
  intro hgs
  cases h with
  | emptyGroup hinfix =>
    have hpair := hgs.isChain.infix hinfix
    simp [Named] at hpair
  | leadingGroup hinfix =>
    have hpair := hgs.isChain.infix hinfix
    simp [Named] at hpair
  | skippedInside hus ht hopen => exact (hgs.open_of_append hus).1 ht hopen
  | nameOutside hus hopen =>
    exact hopen ((hgs.open_of_append hus).2 (by simp) (by simp [IsSkipped]))
  | closeOutside hus hopen =>
    exact hopen ((hgs.open_of_append hus).2 (by simp) (by simp [IsSkipped]))
  | unclosed hopen => exact hgs.not_open hopen

/-! ## Reading -/

theorem parseAll_eq_ok_iff {s : String} {ts : List RouteText} :
    parseAll s = .ok ts ↔ IsGroups (scan s) ts :=
  readGroups_eq_ok_iff

/-- Every text has exactly one row of tokens. It is read if and only if these interleave groups
and skipped tokens, then as one tree for each group, in order, with the names of the text as their
wires. A text with a misplaced token is refused. -/
theorem parseAll_grammar (s : String) : ∃ us, (∀ vs, Spells s.toList vs ↔ vs = us) ∧
    ((∃ ts, parseAll s = .ok ts) ↔ ∃ gs, Interleaves gs us) ∧
    (∀ gs ts, Interleaves gs us → parseAll s = .ok ts →
      List.Forall₂ ReadAs gs ts ∧ ts.flatMap wires = names us) ∧
    (Misplaced us → ∃ e, parseAll s = .error e) := by
  have haccept : (∃ ts, parseAll s = .ok ts) ↔ ∃ gs, Interleaves gs (scan s) := by
    constructor
    · rintro ⟨ts, hts⟩
      exact (parseAll_eq_ok_iff.1 hts).exists_interleaves
    · rintro ⟨gs, hgs⟩
      obtain ⟨ts, hts, -⟩ := hgs.exists_isGroups
      exact ⟨ts, parseAll_eq_ok_iff.2 hts⟩
  refine ⟨scan s, fun vs => scan_eq_iff.symm.trans eq_comm, haccept, ?_, ?_⟩
  · intro gs ts hgs hts
    obtain ⟨ts', hts', hread⟩ := hgs.exists_isGroups
    obtain rfl : ts' = ts := by
      have hts'' := parseAll_eq_ok_iff.2 hts'
      rw [hts] at hts''
      exact (Except.ok.inj hts'').symm
    exact ⟨hread, hts'.wires_eq⟩
  · intro hmis
    cases hs : parseAll s with
    | error e => exact ⟨e, rfl⟩
    | ok ts =>
      obtain ⟨gs, hgs⟩ := haccept.1 ⟨ts, hs⟩
      exact absurd hgs hmis.not_interleaves

/-- A group in a group and a group behind it, in the quotes of a constant net. -/
theorem parseAll_grammar_quoted :
    let s := "\"(\x7bA\x7bB\x7dC\x7d)(\x7bD\x7d)\""
    ∃ gs ts, Interleaves gs (scan s) ∧ parseAll s = .ok ts ∧ List.Forall₂ ReadAs gs ts ∧
      ts.flatMap wires = ["A", "B", "C", "D"] := by
  intro s
  obtain ⟨us, hus, haccept, htrees, -⟩ := parseAll_grammar s
  obtain rfl : scan s = us := (hus _).1 (scan_eq_iff.1 rfl)
  have hread : parseAll s = .ok [⟨"A", [⟨"B", []⟩, ⟨"C", []⟩]⟩, ⟨"D", []⟩] := by decide +kernel
  obtain ⟨gs, hgs⟩ := haccept.1 ⟨_, hread⟩
  exact ⟨gs, _, hgs, hread, (htrees gs _ hgs hread).1, rfl⟩

end RouteText

end Fabric
