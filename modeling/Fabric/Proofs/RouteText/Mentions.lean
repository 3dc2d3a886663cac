import Fabric.Proofs.RouteText.Grafting
import Fabric.Proofs.RouteText.RouteValue
/-!
# What a written route mentions

A written route names the root of its tree and all wires that switched connections lead to, however
far down they are. A value mentions the names of all routes in it, and a joined route those of both
its parts.
-/

namespace Fabric

namespace RouteText

/-! ## The wires of a joined route -/

theorem Grafts.mem_wires_iff {w v : String} {new : List RouteText} {t u : RouteText}
    (h : Grafts w new t u) : v ∈ u.wires ↔ v ∈ t.wires ∨ v ∈ wiresAll new := by
  obtain ⟨before, s, after, ht, -, -, hu⟩ := h.subtrees_eq
  rw [hu, ← map_wire_subtrees t, ht, List.map_append, List.map_append, map_wire_subtrees]
  simp only [List.mem_append]
  tauto

/-- A joined route has the wires of both its parts. -/
theorem mem_wires_joinAt? {staticRoute moduleRoute u : RouteText} {node : String}
    {moduleIsDriven : Bool} (h : staticRoute.joinAt? moduleRoute node moduleIsDriven = some u)
    {v : String} (hv : v ∈ staticRoute.wires ∨ v ∈ moduleRoute.wires) : v ∈ u.wires := by
  have hparts : v ∈ (drivingOf staticRoute moduleRoute moduleIsDriven).wires ∨
      v ∈ (drivenOf staticRoute moduleRoute moduleIsDriven).wires := by
    cases moduleIsDriven
    · exact hv.symm
    · exact hv
  rw [joinAt?_eq] at h
  obtain ⟨hnode, h⟩ := Option.ite_none_right_eq_some.1 h
  rw [(grafts_of_graft? h).mem_wires_iff]
  rcases hparts with hv | hv
  · exact .inl hv
  · -- The root of the driven route is the node, which the driving one has.
    rw [wires_eq_cons, hnode, List.mem_cons] at hv
    refine hv.imp_left ?_
    rintro rfl
    exact (graft?_isSome _ _ _).1 (by rw [h]; rfl)

/-! ## Values -/

def Mentions (value w : String) : Prop := ∃ before after, value = before ++ " " ++ w ++ " " ++ after

theorem mentions_join {as bs : List RouteToken} (ha : as ≠ []) (hb : bs ≠ []) (w : String) :
    Mentions (RouteToken.join (as ++ .name w :: bs)) w := by
  refine ⟨RouteToken.join as, RouteToken.join bs, ?_⟩
  have ha' : as.map RouteToken.text ≠ [] := by simpa using ha
  have hb' : bs.map RouteToken.text ≠ [] := by simpa using hb
  have hrest : " ".intercalate (w :: bs.map RouteToken.text) =
      w ++ " " ++ " ".intercalate (bs.map RouteToken.text) := by
    rw [← List.singleton_append, String.intercalate_append_of_ne_nil (by simp) hb',
      String.intercalate_singleton]
  rw [RouteToken.join, List.map_append, List.map_cons, RouteToken.text,
    String.intercalate_append_of_ne_nil ha' (by simp), hrest]
  simp only [RouteToken.join, String.append_assoc]

theorem inner_subset_innerAll {c : RouteText} {cs : List RouteText} (hc : c ∈ cs) :
    c.inner ⊆ innerAll cs := by
  match cs, hc with
  | [d], hc =>
    rw [List.mem_singleton.1 hc, innerAll]
    exact List.Subset.refl _
  | d :: e :: es, hc =>
    rw [innerAll]
    intro u hu
    rw [List.mem_append, List.mem_cons, List.mem_cons]
    rcases List.mem_cons.1 hc with rfl | hc
    · exact .inl (.inr hu)
    · exact .inr (.inr (inner_subset_innerAll hc hu))

theorem name_mem_inner {w : String} {t : RouteText} (h : w ∈ t.wires) :
    RouteToken.name w ∈ t.inner := by
  induction t using RouteText.induction with
  | mk v cs ih =>
    rw [inner]
    rcases List.mem_cons.1 h with rfl | h
    · exact List.mem_cons_self
    · obtain ⟨c, hc, hw⟩ := mem_wiresAll.1 h
      exact List.mem_cons_of_mem _ (inner_subset_innerAll hc (ih c hc hw))

theorem mentions_of_mem_inner {w : String} (ts vs : List RouteToken) {us : List RouteToken}
    (h : RouteToken.name w ∈ us) (ht : ts ≠ []) (hv : vs ≠ []) :
    Mentions (RouteToken.join (ts ++ us ++ vs)) w := by
  obtain ⟨as, bs, rfl⟩ := List.append_of_mem h
  have hsplit : ts ++ (as ++ .name w :: bs) ++ vs = (ts ++ as) ++ .name w :: (bs ++ vs) := by simp
  rw [hsplit]
  exact mentions_join (by simp [ht]) (by simp [hv]) w

theorem mentions_text {t : RouteText} {w : String} (h : w ∈ t.wires) : Mentions t.text w :=
  mentions_of_mem_inner [.openBrace] [.closeBrace] (name_mem_inner h) (by simp) (by simp)

/-- The value of a net mentions the wires of all its routes. -/
theorem mentions_routeValue {ts : List RouteText} {value w : String}
    (hvalue : routeValue? ts = some value) {t : RouteText} (ht : t ∈ ts) (hw : w ∈ t.wires) :
    Mentions value w := by
  match ts, hvalue, ht with
  | [u], hvalue, ht =>
    cases hvalue
    rw [List.mem_singleton.1 ht] at hw
    exact mentions_text hw
  | u :: u' :: us, hvalue, ht =>
    cases hvalue
    refine mentions_of_mem_inner [.quote] [.quote] (List.mem_flatMap.2 ⟨t, ht, ?_⟩) (by simp)
      (by simp)
    simp [tokens, name_mem_inner hw]

end RouteText

end Fabric
