import Fabric.Proofs.RouteText.Grammar
import Fabric.Proofs.RouteText.Scan
import Fabric.RouteText.Printer
/-!
# Reading written routes back

What is written follows the grammar of what is read, and every name that is read can be written
again. So a route is read back as it was, and a text that can be read has a normal form.
-/

namespace Fabric.RouteText

/-! ## Written routes follow the grammar -/

/-- A group that goes on to the end of the group around it needs no opening brace. -/
theorem IsGroup.isChildren {us : List RouteToken} {t : RouteText} (h : IsGroup us t) :
    IsChildren us [t] := by
  cases h with
  | mk hcs => exact .last hcs

theorem isChildren_innerAll {cs : List RouteText}
    (h : ∀ c ∈ cs, IsGroup (c.inner ++ [.closeBrace]) c) :
    IsChildren (innerAll cs ++ [.closeBrace]) cs := by
  match cs, h with
  | [], _ => exact .close
  | [c], h => exact (h c List.mem_cons_self).isChildren
  | c :: d :: ds, h =>
    rw [List.forall_mem_cons] at h
    have hgroup := IsChildren.branch h.1 (isChildren_innerAll h.2)
    rw [innerAll]
    simpa using hgroup

theorem isGroup_inner (t : RouteText) : IsGroup (t.inner ++ [.closeBrace]) t := by
  induction t using RouteText.induction with
  | mk w cs ih =>
    rw [inner, List.cons_append]
    exact .mk (isChildren_innerAll ih)

theorem isGroups_tokens_append (t : RouteText) {us : List RouteToken} {ts : List RouteText}
    (h : IsGroups us ts) : IsGroups (t.tokens ++ us) (t :: ts) := by
  have hgroup := IsGroups.group (isGroup_inner t) h
  simpa [tokens] using hgroup

theorem isGroups_tokens (t : RouteText) : IsGroups t.tokens [t] := by
  have hgroup := isGroups_tokens_append t .nil
  rwa [List.append_nil] at hgroup

theorem isGroups_quotedTokens (ts : List RouteText) : IsGroups (quotedTokens ts) ts := by
  refine .skip (.inl rfl) ?_
  induction ts with
  | nil => exact .skip (.inl rfl) .nil
  | cons t ts ih =>
    have hgroup : IsGroups (.openParen :: (t.tokens ++ .closeParen :: _)) (t :: ts) :=
      .skip (.inr (.inl rfl)) (isGroups_tokens_append t (.skip (.inr (.inr rfl)) ih))
    simpa using hgroup

/-! ## Names -/

theorem isWritable_of_mem_innerAll {cs : List RouteText}
    (h : ∀ c ∈ cs, ∀ u ∈ c.inner, u.IsWritable) : ∀ u ∈ innerAll cs, u.IsWritable := by
  match cs, h with
  | [], _ => simp [innerAll]
  | [c], h => exact h c List.mem_cons_self
  | c :: d :: ds, h =>
    rw [List.forall_mem_cons] at h
    rw [innerAll, List.forall_mem_append, List.forall_mem_cons, List.forall_mem_cons]
    exact ⟨⟨trivial, h.1⟩, trivial, isWritable_of_mem_innerAll h.2⟩

theorem isWritable_of_mem_inner {t : RouteText} (h : ∀ w ∈ t.wires, RouteToken.IsName w) :
    ∀ u ∈ t.inner, u.IsWritable := by
  induction t using RouteText.induction with
  | mk w cs ih =>
    rw [wires, List.forall_mem_cons] at h
    rw [inner, List.forall_mem_cons]
    refine ⟨h.1, isWritable_of_mem_innerAll fun c hc => ih c hc fun v hv => ?_⟩
    exact h.2 v (mem_wiresAll.2 ⟨c, hc, hv⟩)

theorem isWritable_of_mem_tokens {t : RouteText} (h : ∀ w ∈ t.wires, RouteToken.IsName w) :
    ∀ u ∈ t.tokens, u.IsWritable := by
  rw [tokens, List.forall_mem_append, List.forall_mem_cons]
  exact ⟨⟨trivial, isWritable_of_mem_inner h⟩, by simp [RouteToken.IsWritable]⟩

theorem isWritable_of_mem_quotedTokens {ts : List RouteText}
    (h : ∀ t ∈ ts, ∀ w ∈ t.wires, RouteToken.IsName w) :
    ∀ u ∈ quotedTokens ts, u.IsWritable := by
  rw [quotedTokens, List.forall_mem_append, List.forall_mem_cons]
  refine ⟨⟨trivial, ?_⟩, by simp [RouteToken.IsWritable]⟩
  intro u hu
  obtain ⟨t, ht, hu⟩ := List.mem_flatMap.1 hu
  rw [List.mem_append, List.mem_cons, List.mem_singleton] at hu
  rcases hu with (rfl | hu) | rfl
  · trivial
  · exact isWritable_of_mem_tokens (h t ht) u hu
  · trivial

/-! ## Reading back -/

theorem parseAll_join {us : List RouteToken} {ts : List RouteText}
    (hus : ∀ u ∈ us, u.IsWritable) (h : IsGroups us ts) :
    parseAll (RouteToken.join us) = .ok ts := by
  rw [parseAll, RouteToken.scan_join hus]
  exact readGroups_eq_ok_iff.2 h

theorem parseAll_text {t : RouteText} (h : ∀ w ∈ t.wires, RouteToken.IsName w) :
    parseAll t.text = .ok [t] :=
  parseAll_join (isWritable_of_mem_tokens h) (isGroups_tokens t)

theorem parse_eq_ok_of_parseAll {s : String} {t : RouteText} {ts : List RouteText}
    (h : parseAll s = .ok (t :: ts)) : parse s = .ok t := by
  rw [parse, h]
  rfl

theorem isName_of_parseAll {s : String} {ts : List RouteText} (h : parseAll s = .ok ts)
    {t : RouteText} (ht : t ∈ ts) {w : String} (hw : w ∈ t.wires) : RouteToken.IsName w := by
  have hnames := (readGroups_eq_ok_iff.1 h).wires_eq
  have hmem : w ∈ RouteToken.names (RouteToken.scan s) := by
    rw [← hnames]
    exact List.mem_flatMap.2 ⟨t, ht, hw⟩
  exact RouteToken.isName_of_mem_scan (RouteToken.mem_names.1 hmem)

/-- The value of one route or more is read back as these routes. -/
theorem parseAll_routeValue {ts : List RouteText} (hne : ts ≠ [])
    (h : ∀ t ∈ ts, ∀ w ∈ t.wires, RouteToken.IsName w) :
    ∃ s, routeValue? ts = some s ∧ parseAll s = .ok ts := by
  match ts with
  | [] => exact absurd rfl hne
  | [t] => exact ⟨_, rfl, parseAll_text (h t List.mem_cons_self)⟩
  | t :: u :: ts =>
    exact ⟨_, rfl, parseAll_join (isWritable_of_mem_quotedTokens h) (isGroups_quotedTokens _)⟩

/-- A route of names is read back from its text, and so is each route that was read from any
text. -/
theorem parse_text_roundTrip :
    (∀ t : RouteText, (∀ w ∈ t.wires, RouteToken.IsName w) →
      parse t.text = .ok t ∧ parseAll t.text = .ok [t]) ∧
    ∀ s ts, parseAll s = .ok ts → ∀ t ∈ ts, parse t.text = .ok t := by
  constructor
  · intro t h
    have hall := parseAll_text h
    exact ⟨parse_eq_ok_of_parseAll hall, hall⟩
  · intro s ts h t ht
    have hnames : ∀ w ∈ t.wires, RouteToken.IsName w := fun _ hw => isName_of_parseAll h ht hw
    exact parse_eq_ok_of_parseAll (parseAll_text hnames)

/-- An explicit last group is read as the continuation that it is written as. -/
theorem parse_text_roundTrip_lastGroup :
    let t : RouteText := ⟨"A", [⟨"B", [⟨"D", []⟩]⟩, ⟨"C", []⟩]⟩
    (∀ w ∈ t.wires, RouteToken.IsName w) ∧ parseAll t.text = .ok [t] ∧
      t.text = "\x7b A \x7b B D \x7d C \x7d" ∧
      parseAll "\x7bA\x7bB D\x7d\x7bC\x7d\x7d" = .ok [t] ∧ parse t.text = .ok t := by
  intro t
  have hnames : ∀ w ∈ t.wires, RouteToken.IsName w := by decide
  have hread : parseAll "\x7bA\x7bB D\x7d\x7bC\x7d\x7d" = .ok [t] := by decide +kernel
  exact ⟨hnames, (parse_text_roundTrip.1 t hnames).2, rfl, hread,
    parse_text_roundTrip.2 _ _ hread t List.mem_cons_self⟩

end Fabric.RouteText
