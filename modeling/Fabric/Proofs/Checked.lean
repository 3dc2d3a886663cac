import Mathlib.Data.List.Forall2
/-!
# Steps that may fail

Loading and importing go step by step and stop at the first error. What every step keeps
holds at the end when there is no error.
-/

namespace Fabric.Checked

variable {α β ε : Type}

theorem bind_eq_ok {x : Except ε α} {f : α → Except ε β} {b : β} :
    x >>= f = .ok b ↔ ∃ a, x = .ok a ∧ f a = .ok b := by
  cases x with
  | error e => simp [bind, Except.bind]
  | ok a => simp [bind, Except.bind]

theorem pure_eq_ok {a b : α} : (pure a : Except ε α) = .ok b ↔ b = a := by
  rw [show (pure a : Except ε α) = .ok a from rfl, Except.ok.injEq, eq_comm]

theorem ok_bind (a : α) (f : α → Except ε β) : (Except.ok a >>= f) = f a := rfl

theorem discard_eq_ok {x : Except ε α} {u : PUnit} : discard x = .ok u ↔ ∃ a, x = .ok a := by
  cases x with
  | error e => simp [discard, Functor.discard, Functor.mapConst, Except.map]
  | ok a => simp [discard, Functor.discard, Functor.mapConst, Except.map]

theorem map_eq_ok {x : Except ε α} {f : α → β} {b : β} :
    x.map f = .ok b ↔ ∃ a, x = .ok a ∧ f a = b := by
  cases x with
  | error e => simp [Except.map]
  | ok a => simp [Except.map]

theorem toOption_eq_some {x : Except ε α} {a : α} : x.toOption = some a ↔ x = .ok a := by
  cases x <;> simp [Except.toOption]

theorem foldlM_keeps (keeps : β → Prop) {f : β → α → Except ε β} {as : List α}
    (hstep : ∀ b, ∀ a ∈ as, ∀ b', keeps b → f b a = .ok b' → keeps b') {b b' : β}
    (hb : keeps b) (h : as.foldlM f b = .ok b') : keeps b' := by
  induction as generalizing b with
  | nil =>
    cases h
    exact hb
  | cons a as ih =>
    rw [List.foldlM_cons] at h
    obtain ⟨c, hc, h⟩ := bind_eq_ok.1 h
    refine ih (fun b d hd => hstep b d (by simp [hd])) ?_ h
    exact hstep b a (by simp) c hb hc

/-- What is said of the state may depend on what has been gone through. -/
theorem foldlM_done {f : β → α → Except ε β} {as : List α} (P : List α → β → Prop)
    (hstep : ∀ done a rest b b', as = done ++ a :: rest → P done b → f b a = .ok b' →
      P (done ++ [a]) b')
    {b b' : β} (hb : P [] b) (h : as.foldlM f b = .ok b') : P as b' := by
  have aux : ∀ done rest b, as = done ++ rest → P done b → rest.foldlM f b = .ok b' → P as b' := by
    intro done rest
    induction rest generalizing done with
    | nil =>
      intro b has hb h
      cases h
      rwa [has, List.append_nil]
    | cons a rest ih =>
      intro b has hb h
      rw [List.foldlM_cons] at h
      obtain ⟨c, hc, h⟩ := bind_eq_ok.1 h
      exact ih (done ++ [a]) c (by rw [has, List.append_assoc]; rfl)
        (hstep done a rest b c has hb hc) h
  exact aux [] as b rfl hb h

theorem exists_foldlM_eq_ok (keeps : β → Prop) {f : β → α → Except ε β} {as : List α}
    (hstep : ∀ b, ∀ a ∈ as, keeps b → ∃ b', f b a = .ok b' ∧ keeps b') {b : β} (hb : keeps b) :
    ∃ b', as.foldlM f b = .ok b' ∧ keeps b' := by
  induction as generalizing b with
  | nil => exact ⟨b, rfl, hb⟩
  | cons a as ih =>
    obtain ⟨c, hc, hkeeps⟩ := hstep b a (by simp) hb
    obtain ⟨b', hrest, hb'⟩ := ih (fun b d hd => hstep b d (by simp [hd])) hkeeps
    refine ⟨b', ?_, hb'⟩
    rw [List.foldlM_cons]
    exact bind_eq_ok.2 ⟨c, hc, hrest⟩

theorem mapM_forall₂ {f : α → Except ε β} {as : List α} {bs : List β}
    (h : as.mapM f = .ok bs) : List.Forall₂ (fun a b => f a = .ok b) as bs := by
  induction as generalizing bs with
  | nil =>
    rw [List.mapM_nil] at h
    cases h
    exact .nil
  | cons a as ih =>
    rw [List.mapM_cons] at h
    obtain ⟨b, hb, h⟩ := bind_eq_ok.1 h
    obtain ⟨cs, hcs, h⟩ := bind_eq_ok.1 h
    cases h
    exact .cons hb (ih hcs)

theorem exists_of_mem_mapM {f : α → Except ε β} {as : List α} {bs : List β}
    (h : as.mapM f = .ok bs) {b : β} (hb : b ∈ bs) : ∃ a ∈ as, f a = .ok b := by
  have hall := mapM_forall₂ h
  clear h
  induction hall with
  | nil => simp at hb
  | cons hab _ ih =>
    rcases List.mem_cons.1 hb with rfl | hb
    · exact ⟨_, by simp, hab⟩
    · obtain ⟨a, ha, hfa⟩ := ih hb
      exact ⟨a, by simp [ha], hfa⟩

theorem exists_mem_of_mapM {f : α → Except ε β} {as : List α} {bs : List β}
    (h : as.mapM f = .ok bs) {a : α} (ha : a ∈ as) : ∃ b ∈ bs, f a = .ok b := by
  have hall := mapM_forall₂ h
  clear h
  induction hall with
  | nil => simp at ha
  | cons hab _ ih =>
    rcases List.mem_cons.1 ha with rfl | ha
    · exact ⟨_, by simp, hab⟩
    · obtain ⟨b, hb, hfa⟩ := ih ha
      exact ⟨b, by simp [hb], hfa⟩

theorem exists_mapM_eq_ok {f : α → Except ε β} {as : List α}
    (h : ∀ a ∈ as, ∃ b, f a = .ok b) : ∃ bs, as.mapM f = .ok bs := by
  induction as with
  | nil => exact ⟨[], rfl⟩
  | cons a as ih =>
    obtain ⟨b, hb⟩ := h a (by simp)
    obtain ⟨bs, hbs⟩ := ih fun x hx => h x (by simp [hx])
    exact ⟨b :: bs, by rw [List.mapM_cons, hb, ok_bind, hbs]; rfl⟩

theorem getElem?_of_forall₂ {R : α → β → Prop} {as : List α} {bs : List β}
    (h : List.Forall₂ R as bs) {i : Nat} {a : α} (ha : as[i]? = some a) :
    ∃ b, bs[i]? = some b ∧ R a b := by
  induction h generalizing i with
  | nil => simp at ha
  | cons hab _ ih =>
    cases i with
    | zero =>
      cases ha
      exact ⟨_, rfl, hab⟩
    | succ i => exact ih ha

/-! ## Both at once

What a step comes to, where an error may be allowed or not. -/

def Yields (F : Prop) (x : Except ε α) (Q : α → Prop) : Prop :=
  match x with
  | .error _ => F
  | .ok a => Q a

namespace Yields

variable {F : Prop} {x : Except ε α} {P Q : α → Prop}

theorem of_ok {a : α} (ha : Q a) : Yields F (.ok a : Except ε α) Q := ha

theorem of_eq (hx : F ∨ ∃ a, x = .ok a) (hQ : ∀ a, x = .ok a → Q a) : Yields F x Q := by
  cases x with
  | error e =>
    rcases hx with hF | ⟨a, ha⟩
    · exact hF
    · cases ha
  | ok a => exact hQ a rfl

theorem result (h : Yields F x Q) {a : α} (hx : x = .ok a) : Q a := by
  subst hx
  exact h

theorem exists_eq_ok (h : Yields F x Q) : F ∨ ∃ a, x = .ok a := by
  cases x with
  | error e => exact .inl h
  | ok a => exact .inr ⟨a, rfl⟩

theorem mono (h : Yields F x P) (hQ : ∀ a, P a → Q a) : Yields F x Q := by
  cases x with
  | error e => exact h
  | ok a => exact hQ a h

theorem bind {f : α → Except ε β} {Q : β → Prop} (h : Yields F x P)
    (hf : ∀ a, P a → Yields F (f a) Q) : Yields F (x >>= f) Q := by
  cases x with
  | error e => exact h
  | ok a => exact hf a h

theorem foldlM {f : β → α → Except ε β} {as : List α} {P : β → Prop}
    (hf : ∀ b, ∀ a ∈ as, P b → Yields F (f b a) P) {b : β} (hb : P b) :
    Yields F (as.foldlM f b) P := by
  induction as generalizing b with
  | nil => exact hb
  | cons a as ih =>
    rw [List.foldlM_cons]
    exact (hf b a (by simp) hb).bind fun c hc => ih (fun b d hd => hf b d (by simp [hd])) hc

end Yields

/-! ## Side by side

What two steps come to when they are compared: both fail, with errors that `E` relates, or both
give results that `Q` relates. -/

inductive Alike {ε' γ : Type} (E : ε → ε' → Prop) (Q : α → γ → Prop) :
    Except ε α → Except ε' γ → Prop
  | ok {a : α} {c : γ} (h : Q a c) : Alike E Q (.ok a) (.ok c)
  | error {e : ε} {e' : ε'} (h : E e e') : Alike E Q (.error e) (.error e')

namespace Alike

variable {ε' γ δ : Type} {E : ε → ε' → Prop} {x : Except ε α} {y : Except ε' γ} {P Q : α → γ → Prop}

theorem refl (x : Except ε α) : Alike Eq Eq x x := by
  cases x with
  | error e => exact .error rfl
  | ok a => exact .ok rfl

theorem eq {x y : Except ε α} (h : Alike Eq Eq x y) : x = y := by
  cases h with
  | ok h => rw [h]
  | error h => rw [h]

theorem mono (h : Alike E P x y) (hQ : ∀ a c, P a c → Q a c) : Alike E Q x y := by
  cases h with
  | ok h => exact .ok (hQ _ _ h)
  | error h => exact .error h

theorem map {f : α → β} {g : γ → δ} {Q : β → δ → Prop} (h : Alike E P x y)
    (hfg : ∀ a c, P a c → Q (f a) (g c)) : Alike E Q (x.map f) (y.map g) := by
  cases h with
  | ok h => exact .ok (hfg _ _ h)
  | error h => exact .error h

theorem mapError {ζ ζ' : Type} {f : ε → ζ} {g : ε' → ζ'} {E' : ζ → ζ' → Prop} (h : Alike E Q x y)
    (hfg : ∀ e e', E e e' → E' (f e) (g e')) : Alike E' Q (x.mapError f) (y.mapError g) := by
  cases h with
  | ok h => exact .ok h
  | error h => exact .error (hfg _ _ h)

theorem bind {f : α → Except ε β} {g : γ → Except ε' δ} {Q : β → δ → Prop} (h : Alike E P x y)
    (hfg : ∀ a c, P a c → Alike E Q (f a) (g c)) : Alike E Q (x >>= f) (y >>= g) := by
  cases h with
  | ok h => exact hfg _ _ h
  | error h => exact .error h

theorem bind_same {x : Except ε α} {f : α → Except ε β} {g : α → Except ε δ} {Q : β → δ → Prop}
    (hfg : ∀ a, Alike Eq Q (f a) (g a)) : Alike Eq Q (x >>= f) (x >>= g) :=
  (refl x).bind fun a _ heq => heq ▸ hfg a

theorem discard (h : Alike E P x y) : Alike E Eq (Functor.discard x) (Functor.discard y) := by
  cases h with
  | ok h => exact .ok rfl
  | error h => exact .error h

theorem foldlM {as : List β} {f : α → β → Except ε α} {g : γ → β → Except ε' γ}
    (hfg : ∀ b ∈ as, ∀ a c, P a c → Alike E P (f a b) (g c b)) {a : α} {c : γ} (hac : P a c) :
    Alike E P (as.foldlM f a) (as.foldlM g c) := by
  induction as generalizing a c with
  | nil => exact .ok hac
  | cons b as ih =>
    rw [List.foldlM_cons, List.foldlM_cons]
    exact (hfg b (by simp) a c hac).bind fun a' c' h => ih (fun b' hb => hfg b' (by simp [hb])) h

end Alike

end Fabric.Checked
