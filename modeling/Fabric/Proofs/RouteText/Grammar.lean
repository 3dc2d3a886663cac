import Fabric.Proofs.Checked
import Fabric.RouteText.Parser
/-!
# The grammar of written routes

A group is read from the tokens that the grammar gives it, whatever follows them, and from no
others.
-/

namespace Fabric

namespace RouteToken

def names (ts : List RouteToken) : List String :=
  ts.filterMap fun
    | name w => some w
    | _ => none

theorem mem_names {w : String} {ts : List RouteToken} : w ∈ names ts ↔ name w ∈ ts := by
  rw [names, List.mem_filterMap]
  constructor
  · rintro ⟨t, ht, hw⟩
    cases t <;> cases hw
    exact ht
  · intro h
    exact ⟨name w, h, rfl⟩

@[simp] theorem names_append (ts us : List RouteToken) : names (ts ++ us) = names ts ++ names us :=
  List.filterMap_append

end RouteToken

namespace RouteText

mutual

/-- The tokens are those of a group after its opening brace. -/
inductive IsGroup : List RouteToken → RouteText → Prop
  | mk {w : String} {ts : List RouteToken} {cs : List RouteText} :
      IsChildren ts cs → IsGroup (.name w :: ts) ⟨w, cs⟩

/-- The tokens are those of a group after a wire that has these children. -/
inductive IsChildren : List RouteToken → List RouteText → Prop
  | close : IsChildren [.closeBrace] []
  | last {w : String} {ts : List RouteToken} {cs : List RouteText} :
      IsChildren ts cs → IsChildren (.name w :: ts) [⟨w, cs⟩]
  | branch {ts us : List RouteToken} {c : RouteText} {cs : List RouteText} :
      IsGroup ts c → IsChildren us cs → IsChildren (.openBrace :: ts ++ us) (c :: cs)

end

mutual

theorem IsGroup.wires_eq {us : List RouteToken} {t : RouteText} (h : IsGroup us t) :
    t.wires = RouteToken.names us := by
  cases h with
  | mk hcs => rw [wires, hcs.wiresAll_eq]; rfl

theorem IsChildren.wiresAll_eq {us : List RouteToken} {cs : List RouteText}
    (h : IsChildren us cs) : wiresAll cs = RouteToken.names us := by
  cases h with
  | close => rfl
  | last hcs => rw [wiresAll, wires, hcs.wiresAll_eq, wiresAll, List.append_nil]; rfl
  | branch hc hcs => rw [wiresAll, hc.wires_eq, hcs.wiresAll_eq, RouteToken.names_append]; rfl

end

/-! ## Reading without bounds -/

def groupOf (ts : List RouteToken) : Except RouteTextError (RouteText × List RouteToken) :=
  (readGroup ts).map fun r => (r.1, r.2.1)

def childrenOf (ts : List RouteToken) :
    Except RouteTextError (List RouteText × List RouteToken) :=
  (readChildren ts).map fun r => (r.1, r.2.1)

theorem groupOf_name (w : String) (ts : List RouteToken) :
    groupOf (.name w :: ts) = (childrenOf ts).map fun r => (⟨w, r.1⟩, r.2) := by
  unfold groupOf childrenOf
  rw [readGroup]
  cases readChildren ts <;> rfl

theorem childrenOf_close (ts : List RouteToken) :
    childrenOf (.closeBrace :: ts) = .ok ([], ts) := by
  unfold childrenOf
  rw [readChildren]
  rfl

theorem childrenOf_name (w : String) (ts : List RouteToken) :
    childrenOf (.name w :: ts) = (childrenOf ts).map fun r => ([⟨w, r.1⟩], r.2) := by
  unfold childrenOf
  rw [readChildren]
  cases readChildren ts <;> rfl

theorem childrenOf_branch (ts : List RouteToken) :
    childrenOf (.openBrace :: ts) =
      (groupOf ts).bind fun g => (childrenOf g.2).map fun r => (g.1 :: r.1, r.2) := by
  unfold childrenOf groupOf
  rw [readChildren]
  cases readGroup ts with
  | error e => rfl
  | ok g =>
    obtain ⟨c, mid, hmid⟩ := g
    dsimp only [bind, Except.bind, Except.map]
    cases readChildren mid <;> rfl

theorem readGroups_branch (ts : List RouteToken) :
    readGroups (.openBrace :: ts) =
      (groupOf ts).bind fun g => (readGroups g.2).map (g.1 :: ·) := by
  unfold groupOf
  rw [readGroups]
  cases readGroup ts with
  | error e => rfl
  | ok g =>
    obtain ⟨t, rest, hrest⟩ := g
    dsimp only [bind, Except.bind, Except.map]
    cases readGroups rest <;> rfl

/-! ## What is read -/

mutual

theorem groupOf_append {ts : List RouteToken} {t : RouteText} (h : IsGroup ts t)
    (rest : List RouteToken) : groupOf (ts ++ rest) = .ok (t, rest) := by
  cases h with
  | mk hcs => rw [List.cons_append, groupOf_name, childrenOf_append hcs rest]; rfl

theorem childrenOf_append {ts : List RouteToken} {cs : List RouteText} (h : IsChildren ts cs)
    (rest : List RouteToken) : childrenOf (ts ++ rest) = .ok (cs, rest) := by
  cases h with
  | close => exact childrenOf_close rest
  | last hcs => rw [List.cons_append, childrenOf_name, childrenOf_append hcs rest]; rfl
  | branch hc hcs =>
    rw [List.append_assoc, List.cons_append, childrenOf_branch, groupOf_append hc]
    change Except.map _ (childrenOf _) = _
    rw [childrenOf_append hcs rest]
    rfl

end

theorem exists_of_groupOf {ts : List RouteToken} {r : RouteText × List RouteToken}
    (h : groupOf ts = .ok r) : ∃ w us cs, ts = .name w :: us ∧ childrenOf us = .ok (cs, r.2) ∧
      r.1 = ⟨w, cs⟩ := by
  match ts with
  | .name w :: us =>
    rw [groupOf_name] at h
    obtain ⟨⟨cs, rest⟩, hcs, rfl⟩ := Checked.map_eq_ok.1 h
    exact ⟨w, us, cs, rfl, hcs, rfl⟩
  | .openBrace :: us =>
    unfold groupOf at h
    rw [readGroup] at h
    cases hg : readGroup us <;> rw [hg] at h <;> cases h
  | [] | .closeBrace :: _ | .openParen :: _ | .closeParen :: _ | .quote :: _ =>
    unfold groupOf at h
    rw [readGroup] at h
    · cases h
    all_goals simp

theorem exists_of_childrenOf {ts : List RouteToken} {r : List RouteText × List RouteToken}
    (h : childrenOf ts = .ok r) : ts = .closeBrace :: r.2 ∧ r.1 = [] ∨
      (∃ w us cs, ts = .name w :: us ∧ childrenOf us = .ok (cs, r.2) ∧ r.1 = [⟨w, cs⟩]) ∨
      ∃ us c mid cs, ts = .openBrace :: us ∧ groupOf us = .ok (c, mid) ∧
        childrenOf mid = .ok (cs, r.2) ∧ r.1 = c :: cs := by
  match ts with
  | .closeBrace :: us =>
    rw [childrenOf_close] at h
    cases h
    exact .inl ⟨rfl, rfl⟩
  | .name w :: us =>
    rw [childrenOf_name] at h
    obtain ⟨⟨cs, rest⟩, hcs, rfl⟩ := Checked.map_eq_ok.1 h
    exact .inr (.inl ⟨w, us, cs, rfl, hcs, rfl⟩)
  | .openBrace :: us =>
    rw [childrenOf_branch] at h
    obtain ⟨⟨c, mid⟩, hc, h⟩ := Checked.bind_eq_ok.1 h
    obtain ⟨⟨cs, rest⟩, hcs, rfl⟩ := Checked.map_eq_ok.1 h
    exact .inr (.inr ⟨us, c, mid, cs, rfl, hc, hcs, rfl⟩)
  | [] | .openParen :: _ | .closeParen :: _ | .quote :: _ =>
    unfold childrenOf at h
    rw [readChildren] at h
    · cases h
    all_goals simp

/-- What has been read is a group, or children, in front of the tokens left. -/
theorem sound_of_length {n : Nat} : ∀ ts : List RouteToken, ts.length = n →
    (∀ t rest, groupOf ts = .ok (t, rest) → ∃ us, ts = us ++ rest ∧ IsGroup us t) ∧
      ∀ cs rest, childrenOf ts = .ok (cs, rest) → ∃ us, ts = us ++ rest ∧ IsChildren us cs := by
  -- A branch leaves fewer tokens to the children behind it, but not the tail of the list.
  induction n using Nat.strongRecOn with
  | ind n ih =>
    rintro ts rfl
    constructor
    · intro t rest h
      obtain ⟨w, us, cs, rfl, hcs, rfl⟩ := exists_of_groupOf h
      obtain ⟨vs, rfl, hvs⟩ := (ih _ (by simp) us rfl).2 cs rest hcs
      exact ⟨.name w :: vs, rfl, .mk hvs⟩
    · intro cs rest h
      rcases exists_of_childrenOf h with
        ⟨rfl, rfl⟩ | ⟨w, us, ds, rfl, hds, rfl⟩ | ⟨us, c, mid, ds, rfl, hc, hds, rfl⟩
      · exact ⟨[.closeBrace], rfl, .close⟩
      · obtain ⟨vs, rfl, hvs⟩ := (ih _ (by simp) us rfl).2 ds rest hds
        exact ⟨.name w :: vs, rfl, .last hvs⟩
      · obtain ⟨vs, rfl, hvs⟩ := (ih _ (by simp) us rfl).1 c mid hc
        have hlt : mid.length < (RouteToken.openBrace :: (vs ++ mid)).length := by
          simp only [List.length_cons, List.length_append]
          omega
        obtain ⟨xs, rfl, hxs⟩ := (ih _ hlt mid rfl).2 ds rest hds
        exact ⟨.openBrace :: vs ++ xs, by simp, .branch hvs hxs⟩

theorem groupOf_eq_ok_iff {ts : List RouteToken} {t : RouteText} {rest : List RouteToken} :
    groupOf ts = .ok (t, rest) ↔ ∃ us, ts = us ++ rest ∧ IsGroup us t := by
  constructor
  · exact (sound_of_length ts rfl).1 t rest
  · rintro ⟨us, rfl, hus⟩
    exact groupOf_append hus rest

/-! ## Whole texts -/

def IsSkipped (t : RouteToken) : Prop := t = .quote ∨ t = .openParen ∨ t = .closeParen

inductive IsGroups : List RouteToken → List RouteText → Prop
  | nil : IsGroups [] []
  | skip {t : RouteToken} {us : List RouteToken} {ts : List RouteText} :
      IsSkipped t → IsGroups us ts → IsGroups (t :: us) ts
  | group {us vs : List RouteToken} {t : RouteText} {ts : List RouteText} :
      IsGroup us t → IsGroups vs ts → IsGroups (.openBrace :: us ++ vs) (t :: ts)

theorem IsGroups.wires_eq {us : List RouteToken} {ts : List RouteText} (h : IsGroups us ts) :
    ts.flatMap wires = RouteToken.names us := by
  induction h with
  | nil => rfl
  | skip ht _ ih =>
    rw [ih]
    rcases ht with rfl | rfl | rfl <;> rfl
  | group hg _ ih =>
    rw [List.flatMap_cons, ih, hg.wires_eq, RouteToken.names_append]
    rfl

theorem readGroups_skip {t : RouteToken} (ht : IsSkipped t) (us : List RouteToken) :
    readGroups (t :: us) = readGroups us := by
  rcases ht with rfl | rfl | rfl <;> rw [readGroups]

theorem readGroups_of_isGroups {us : List RouteToken} {ts : List RouteText}
    (h : IsGroups us ts) : readGroups us = .ok ts := by
  induction h with
  | nil => rw [readGroups]
  | skip ht _ ih => rw [readGroups_skip ht, ih]
  | group hg _ ih =>
    rw [List.cons_append, readGroups_branch, groupOf_append hg]
    change Except.map _ (readGroups _) = _
    rw [ih]
    rfl

theorem isGroups_of_readGroups {n : Nat} : ∀ (us : List RouteToken) (ts : List RouteText),
    us.length = n → readGroups us = .ok ts → IsGroups us ts := by
  induction n using Nat.strongRecOn with
  | ind n ih =>
    rintro us ts rfl h
    match us with
    | [] =>
      rw [readGroups] at h
      cases h
      exact .nil
    | .quote :: us =>
      rw [readGroups] at h
      exact .skip (.inl rfl) (ih _ (by simp) us ts rfl h)
    | .openParen :: us =>
      rw [readGroups] at h
      exact .skip (.inr (.inl rfl)) (ih _ (by simp) us ts rfl h)
    | .closeParen :: us =>
      rw [readGroups] at h
      exact .skip (.inr (.inr rfl)) (ih _ (by simp) us ts rfl h)
    | .openBrace :: us =>
      rw [readGroups_branch] at h
      obtain ⟨⟨t, rest⟩, ht, h⟩ := Checked.bind_eq_ok.1 h
      obtain ⟨ts', hts, rfl⟩ := Checked.map_eq_ok.1 h
      obtain ⟨vs, rfl, hvs⟩ := groupOf_eq_ok_iff.1 ht
      have hlt : rest.length < (RouteToken.openBrace :: (vs ++ rest)).length := by
        simp only [List.length_cons, List.length_append]
        omega
      exact .group hvs (ih _ hlt rest ts' rfl hts)
    | .closeBrace :: us | .name w :: us =>
      rw [readGroups] at h
      · cases h
      all_goals simp

/-- Exactly the texts of the grammar are read, as the groups that they are made of. -/
theorem readGroups_eq_ok_iff {us : List RouteToken} {ts : List RouteText} :
    readGroups us = .ok ts ↔ IsGroups us ts :=
  ⟨isGroups_of_readGroups us ts rfl, readGroups_of_isGroups⟩

end RouteText

end Fabric
