import Fabric.Proofs.Record.Runs
/-!
# Runs side by side

Two runs that begin in related states may come to the same: to the same fault, or to related
states and related results. One rule for each construct carries that over from the steps of two
actions to the actions.
-/

namespace Fabric.Record

variable {σ ε ε' δ δ' φ α β γ γ' : Type}

/-- The runs stop at the same fault, or they end in states that `R` relates, both refused with
errors that `E` relates or both with results that `Q` relates. -/
def Alike (R : σ → σ → Prop) (E : ε → ε' → Prop) (Q : α → β → Prop)
    (act : ExceptT ε (StateT σ (Except φ)) α) (act' : ExceptT ε' (StateT σ (Except φ)) β)
    (s s' : σ) : Prop :=
  Checked.Alike Eq (fun r r' => Checked.Alike E Q r.1 r'.1 ∧ R r.2 r'.2) (act.run.run s)
    (act'.run.run s')

namespace Alike

variable {R : σ → σ → Prop} {E : ε → ε' → Prop} {Q P : α → β → Prop} {s s' : σ}
  {act : ExceptT ε (StateT σ (Except φ)) α} {act' : ExceptT ε' (StateT σ (Except φ)) β}

theorem refl (act : ExceptT ε (StateT σ (Except φ)) α) (s : σ) : Alike Eq Eq Eq act act s s :=
  (Checked.Alike.refl (act.run.run s)).mono fun r _ heq => heq ▸ ⟨.refl r.1, rfl⟩

/-! ## Steps -/

theorem of_pure {a : α} {b : β} (hs : R s s') (hab : Q a b) :
    Alike R E Q (pure a : ExceptT ε (StateT σ (Except φ)) α) (pure b) s s' :=
  .ok ⟨.ok hab, hs⟩

theorem of_throw {e : ε} {e' : ε'} (hs : R s s') (he : E e e') :
    Alike R E Q (throw e : ExceptT ε (StateT σ (Except φ)) α) (throw e') s s' :=
  .ok ⟨.error he, hs⟩

theorem of_get (hs : R s s') :
    Alike R E R (get : ExceptT ε (StateT σ (Except φ)) σ) get s s' :=
  .ok ⟨.ok hs, hs⟩

theorem of_set {t t' : σ} (ht : R t t') :
    Alike R E Eq (set t : ExceptT ε (StateT σ (Except φ)) PUnit) (set t') s s' :=
  .ok ⟨.ok rfl, ht⟩

theorem of_modify {f g : σ → σ} (hfg : R (f s) (g s')) :
    Alike R E Eq (modify f : ExceptT ε (StateT σ (Except φ)) PUnit) (modify g) s s' :=
  .ok ⟨.ok rfl, hfg⟩

theorem of_lift {x : Except φ α} {y : Except φ β} (hxy : Checked.Alike Eq Q x y) (hs : R s s') :
    Alike R E Q (liftM x : ExceptT ε (StateT σ (Except φ)) α) (liftM y) s s' := by
  cases hxy with
  | ok h => exact .ok ⟨.ok h, hs⟩
  | error h => exact .error h

theorem bind {f : α → ExceptT ε (StateT σ (Except φ)) γ}
    {g : β → ExceptT ε' (StateT σ (Except φ)) γ'} {Q : γ → γ' → Prop}
    (h : Alike R E P act act' s s')
    (hfg : ∀ a b t t', R t t' → P a b → Alike R E Q (f a) (g b) t t') :
    Alike R E Q (act >>= f) (act' >>= g) s s' := by
  unfold Alike at h ⊢
  rw [run_bind, run_bind]
  refine h.bind fun r r' hr => ?_
  obtain ⟨r, t⟩ := r
  obtain ⟨r', t'⟩ := r'
  obtain ⟨hr, ht⟩ := hr
  cases hr with
  | ok hab => exact hfg _ _ t t' ht hab
  | error he => exact .ok ⟨.error he, ht⟩

theorem bind_same {act : ExceptT ε (StateT σ (Except φ)) α}
    {act' : ExceptT ε' (StateT σ (Except φ)) α}
    {f : α → ExceptT ε (StateT σ (Except φ)) γ} {g : α → ExceptT ε' (StateT σ (Except φ)) γ'}
    {Q : γ → γ' → Prop} (h : Alike R E Eq act act' s s')
    (hfg : ∀ a t t', R t t' → Alike R E Q (f a) (g a) t t') :
    Alike R E Q (act >>= f) (act' >>= g) s s' :=
  h.bind fun a _ t t' ht heq => heq ▸ hfg a t t' ht

theorem of_throw_bind {e : ε} {e' : ε'} {f : α → ExceptT ε (StateT σ (Except φ)) γ}
    {g : β → ExceptT ε' (StateT σ (Except φ)) γ'} {Q : γ → γ' → Prop} (hs : R s s') (he : E e e') :
    Alike R E Q (throw e >>= f) (throw e' >>= g) s s' :=
  bind (P := fun _ _ => False) (of_throw hs he) fun _ _ _ _ _ h => h.elim

theorem discard (h : Alike R E P act act' s s') :
    Alike R E Eq (Functor.discard act) (Functor.discard act') s s' := by
  have hact : ∀ {ε α : Type} (act : ExceptT ε (StateT σ (Except φ)) α),
      Functor.discard act = act >>= fun _ => pure ⟨⟩ := by
    intro ε α act
    rw [bind_pure_comp, Functor.discard, map_const]
    rfl
  rw [hact, hact]
  exact h.bind fun _ _ _ _ ht _ => of_pure ht rfl

theorem adapt {g : ε → δ} {g' : ε' → δ'} {E' : δ → δ' → Prop} (h : Alike R E Q act act' s s')
    (hg : ∀ e e', E e e' → E' (g e) (g' e')) : Alike R E' Q (act.adapt g) (act'.adapt g') s s' := by
  unfold Alike at h ⊢
  rw [run_adapt, run_adapt]
  exact h.map fun _ _ hr => ⟨hr.1.mapError hg, hr.2⟩

/-! ## Loops -/

theorem forM {as : List γ} {f : γ → ExceptT ε (StateT σ (Except φ)) PUnit}
    {g : γ → ExceptT ε' (StateT σ (Except φ)) PUnit}
    (hfg : ∀ a ∈ as, ∀ s s', R s s' → Alike R E Eq (f a) (g a) s s') (hs : R s s') :
    Alike R E Eq (as.forM f) (as.forM g) s s' := by
  induction as generalizing s s' with
  | nil => exact of_pure hs rfl
  | cons a as ih =>
    unfold List.forM
    refine (hfg a (by simp) s s' hs).bind fun _ _ t t' ht _ => ?_
    exact ih (fun b hb => hfg b (by simp [hb])) ht

theorem foldlM {as : List γ} {f : α → γ → ExceptT ε (StateT σ (Except φ)) α}
    {g : β → γ → ExceptT ε' (StateT σ (Except φ)) β}
    (hfg : ∀ c ∈ as, ∀ a b s s', R s s' → P a b → Alike R E P (f a c) (g b c) s s') {a : α} {b : β}
    (hs : R s s') (hab : P a b) : Alike R E P (as.foldlM f a) (as.foldlM g b) s s' := by
  induction as generalizing a b s s' with
  | nil => exact of_pure hs hab
  | cons c as ih =>
    rw [List.foldlM_cons, List.foldlM_cons]
    refine (hfg c (by simp) a b s s' hs hab).bind fun a' b' t t' ht hab' => ?_
    exact ih (fun d hd => hfg d (by simp [hd])) ht hab'

theorem filterM {as : List γ} {f : γ → ExceptT ε (StateT σ (Except φ)) Bool}
    {g : γ → ExceptT ε' (StateT σ (Except φ)) Bool}
    (hfg : ∀ a ∈ as, ∀ s s', R s s' → Alike R E Eq (f a) (g a) s s') (hs : R s s') :
    Alike R E Eq (as.filterM f) (as.filterM g) s s' := by
  have aux : ∀ (kept : List γ) (s s' : σ), R s s' →
      Alike R E Eq (as.filterAuxM f kept) (as.filterAuxM g kept) s s' := by
    clear hs
    induction as with
    | nil => exact fun kept s s' hs => of_pure hs rfl
    | cons a as ih =>
      intro kept s s' hs
      unfold List.filterAuxM
      refine (hfg a (by simp) s s' hs).bind fun b b' t t' ht hb => ?_
      subst hb
      exact ih (fun c hc => hfg c (by simp [hc])) _ t t' ht
  unfold List.filterM
  refine (aux [] s s' hs).bind fun kept kept' t t' ht hkept => ?_
  subst hkept
  exact of_pure ht rfl

end Alike

end Fabric.Record
