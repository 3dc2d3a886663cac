import Fabric.Proofs.Checked
import Fabric.Record.State
/-!
# Runs of records

What is said of a run is said of the state it ends in, refused or not, and of the result it has
if it is not refused. A run may also stop at a fault. Whether it may is left open, so that
one walk through a record tells what it changes and, where the numbers are good, that it gets
to its end.
-/

namespace Fabric.Record

variable {σ ε ε' φ α β : Type} {F : Prop} {I : σ → Prop}

theorem run_bind (act : ExceptT ε (StateT σ (Except φ)) α)
    (f : α → ExceptT ε (StateT σ (Except φ)) β) (s : σ) :
    (act >>= f).run.run s = act.run.run s >>= fun r =>
      match r.1 with
      | .ok a => (f a).run.run r.2
      | .error e => .ok (.error e, r.2) := by
  change (act.run.run s >>= fun r => _) = _
  congr 1
  funext r
  rcases r with ⟨_ | _, _⟩ <;> rfl

theorem run_bind_of_ok {act : ExceptT ε (StateT σ (Except φ)) α} {s s' : σ} {a : α}
    (h : act.run.run s = .ok (.ok a, s')) (f : α → ExceptT ε (StateT σ (Except φ)) β) :
    (act >>= f).run.run s = (f a).run.run s' := by
  rw [run_bind, h]
  rfl

theorem run_lift_bind (x : Except φ α) (f : α → ExceptT ε (StateT σ (Except φ)) β) (s : σ) :
    ((liftM x : ExceptT ε (StateT σ (Except φ)) α) >>= f).run.run s =
      x >>= fun a => (f a).run.run s := by
  cases x <;> rfl

theorem run_adapt (act : ExceptT ε (StateT σ (Except φ)) α) (g : ε → ε') (s : σ) :
    (act.adapt g).run.run s = (act.run.run s).map fun r => (r.1.mapError g, r.2) := by
  change ((act.run.run s).map _ : Except φ _) = _
  congr 1

/-- A run from `s` ends in a state of `I`, with what `Q` says of its result, or at a fault if
there may be one. -/
def Ensures (F : Prop) (I : σ → Prop) (act : ExceptT ε (StateT σ (Except φ)) α) (s : σ)
    (Q : α → σ → Prop) : Prop :=
  match act.run.run s with
  | .error _ => F
  | .ok (r, s') => I s' ∧ ∀ a, r = .ok a → Q a s'

namespace Ensures

variable {act : ExceptT ε (StateT σ (Except φ)) α} {s : σ} {Q P : α → σ → Prop}

/-! ## Reading off what was shown -/

theorem state (h : Ensures F I act s Q) {r : Except ε α} {s' : σ}
    (hrun : act.run.run s = .ok (r, s')) : I s' := by
  unfold Ensures at h
  rw [hrun] at h
  exact h.1

theorem result (h : Ensures F I act s Q) {a : α} {s' : σ}
    (hrun : act.run.run s = .ok (.ok a, s')) : Q a s' := by
  unfold Ensures at h
  rw [hrun] at h
  exact h.2 a rfl

theorem exists_run (h : Ensures False I act s Q) : ∃ r s', act.run.run s = .ok (r, s') := by
  unfold Ensures at h
  split at h
  · exact h.elim
  next r s' hrun => exact ⟨r, s', hrun⟩

theorem mono {J : σ → Prop} (h : Ensures F I act s Q) (hI : ∀ s, I s → J s)
    (hQ : ∀ a s', I s' → Q a s' → P a s') : Ensures F J act s P := by
  unfold Ensures at h ⊢
  split at h
  · exact h
  · exact ⟨hI _ h.1, fun a ha => hQ a _ h.1 (h.2 a ha)⟩

theorem post (h : Ensures F I act s Q) (hQ : ∀ a s', I s' → Q a s' → P a s') :
    Ensures F I act s P :=
  h.mono (fun _ hs => hs) hQ

theorem with_run (h : Ensures F I act s Q) :
    Ensures F I act s fun a s' => Q a s' ∧ act.run.run s = .ok (.ok a, s') := by
  unfold Ensures at h ⊢
  split at h
  · exact h
  next r s' hrun =>
    refine ⟨h.1, fun a ha => ⟨h.2 a ha, ?_⟩⟩
    rw [hrun, ha]

/-! ## Steps -/

theorem of_pure {a : α} (hs : I s) (ha : Q a s) :
    Ensures F I (pure a : ExceptT ε (StateT σ (Except φ)) α) s Q := by
  refine ⟨hs, fun b hb => ?_⟩
  cases hb
  exact ha

theorem of_throw {e : ε} (hs : I s) :
    Ensures F I (throw e : ExceptT ε (StateT σ (Except φ)) α) s Q :=
  ⟨hs, fun a ha => by cases ha⟩

theorem of_get {Q : σ → σ → Prop} (hs : I s) (hQ : Q s s) :
    Ensures F I (get : ExceptT ε (StateT σ (Except φ)) σ) s Q := by
  refine ⟨hs, fun b hb => ?_⟩
  cases hb
  exact hQ

theorem of_set {s' : σ} {Q : PUnit → σ → Prop} (hs : I s') (hQ : Q ⟨⟩ s') :
    Ensures F I (set s' : ExceptT ε (StateT σ (Except φ)) PUnit) s Q :=
  ⟨hs, fun _ _ => hQ⟩

theorem of_modify {f : σ → σ} {Q : PUnit → σ → Prop} (hs : I (f s)) (hQ : Q ⟨⟩ (f s)) :
    Ensures F I (modify f : ExceptT ε (StateT σ (Except φ)) PUnit) s Q :=
  ⟨hs, fun _ _ => hQ⟩

theorem of_lift {x : Except φ α} (hx : F ∨ ∃ a, x = .ok a) (hs : I s)
    (hQ : ∀ a, x = .ok a → Q a s) :
    Ensures F I (liftM x : ExceptT ε (StateT σ (Except φ)) α) s Q := by
  cases x with
  | error e =>
    rcases hx with hF | ⟨a, ha⟩
    · exact hF
    · cases ha
  | ok a =>
    refine ⟨hs, fun b hb => ?_⟩
    cases hb
    exact hQ a rfl

theorem bind {f : α → ExceptT ε (StateT σ (Except φ)) β} {Q : β → σ → Prop}
    (h : Ensures F I act s P) (hf : ∀ a s', I s' → P a s' → Ensures F I (f a) s' Q) :
    Ensures F I (act >>= f) s Q := by
  unfold Ensures at h ⊢
  rw [run_bind]
  split at h
  next e he => rw [he]; exact h
  next r s' hr =>
    rw [hr]
    cases r with
    | error e => exact ⟨h.1, fun a ha => by cases ha⟩
    | ok a => exact hf a s' h.1 (h.2 a rfl)

theorem of_throw_bind {e : ε} {f : α → ExceptT ε (StateT σ (Except φ)) β} {Q : β → σ → Prop}
    (hs : I s) : Ensures F I (throw e >>= f) s Q :=
  bind (P := fun _ _ => False) (of_throw hs) fun _ _ _ h => h.elim

theorem discard_exists (h : Ensures F I act s Q) :
    Ensures F I (Functor.discard act) s fun _ s' => ∃ a, Q a s' := by
  have hact : Functor.discard act = act >>= fun _ => pure ⟨⟩ := by
    rw [bind_pure_comp, Functor.discard, map_const]
    rfl
  rw [hact]
  exact h.bind fun a _ hs' ha => of_pure hs' ⟨a, ha⟩

theorem discard (h : Ensures F I act s Q) : Ensures F I (Functor.discard act) s fun _ _ => True :=
  h.discard_exists.post fun _ _ _ _ => trivial

theorem adapt {g : ε → ε'} (h : Ensures F I act s Q) : Ensures F I (act.adapt g) s Q := by
  unfold Ensures at h ⊢
  rw [run_adapt]
  split at h
  next e he => rw [he]; exact h
  next r s' hr =>
    rw [hr]
    refine ⟨h.1, fun a ha => ?_⟩
    cases r with
    | error e => cases ha
    | ok b => exact h.2 a (congrArg Except.ok (Except.ok.inj ha))

end Ensures

/-! ## Looking on -/

abbrev Reads (F : Prop) (I : σ → Prop) (act : ExceptT ε (StateT σ (Except φ)) α) (s : σ)
    (Q : α → Prop) : Prop :=
  Ensures F I act s fun a s' => s' = s ∧ Q a

namespace Reads

variable {s : σ} {P : α → Prop}

theorem of_pure {a : α} (hs : I s) (ha : P a) :
    Reads F I (pure a : ExceptT ε (StateT σ (Except φ)) α) s P :=
  Ensures.of_pure hs ⟨rfl, ha⟩

theorem of_throw {e : ε} (hs : I s) :
    Reads F I (throw e : ExceptT ε (StateT σ (Except φ)) α) s P :=
  Ensures.of_throw hs

theorem of_get (hs : I s) :
    Reads F I (get : ExceptT ε (StateT σ (Except φ)) σ) s fun s' => s = s' :=
  Ensures.of_get hs ⟨rfl, rfl⟩

theorem of_lift {x : Except φ α} (hx : F ∨ ∃ a, x = .ok a) (hs : I s) (hP : ∀ a, x = .ok a → P a) :
    Reads F I (liftM x : ExceptT ε (StateT σ (Except φ)) α) s P :=
  Ensures.of_lift hx hs fun a ha => ⟨rfl, hP a ha⟩

theorem of_yields {x : Except φ α} (hx : Checked.Yields F x P) (hs : I s) :
    Reads F I (liftM x : ExceptT ε (StateT σ (Except φ)) α) s P :=
  of_lift hx.exists_eq_ok hs fun _ => hx.result

theorem bind {act : ExceptT ε (StateT σ (Except φ)) α}
    {f : α → ExceptT ε (StateT σ (Except φ)) β} {Q : β → σ → Prop} (h : Reads F I act s P)
    (hf : ∀ a, P a → Ensures F I (f a) s Q) : Ensures F I (act >>= f) s Q := by
  refine Ensures.bind h fun a s' _ ha => ?_
  obtain ⟨rfl, ha⟩ := ha
  exact hf a ha

/-- What is said of the result may depend on what has been gone through. -/
theorem foldlM_done {as : List α} {f : β → α → ExceptT ε (StateT σ (Except φ)) β}
    {P : List α → β → Prop}
    (hf : ∀ done, ∀ a ∈ as, ∀ b, P done b → Reads F I (f b a) s (P (done ++ [a])))
    (done : List α) (hs : I s) {b : β} (hb : P done b) :
    Reads F I (as.foldlM f b) s (P (done ++ as)) := by
  induction as generalizing done b with
  | nil => exact of_pure hs (by rwa [List.append_nil])
  | cons a as ih =>
    rw [List.foldlM_cons, List.append_cons]
    exact (hf done a (by simp) b hb).bind fun b' hb' =>
      ih (fun done c hc => hf done c (by simp [hc])) (done ++ [a]) hb'

end Reads

namespace Ensures

variable {s : σ}

/-! ## Loops -/

theorem forM_done {as : List α} {f : α → ExceptT ε (StateT σ (Except φ)) PUnit}
    {P : List α → σ → Prop}
    (hf : ∀ done, ∀ a ∈ as, ∀ s, I s → P done s → Ensures F I (f a) s fun _ => P (done ++ [a]))
    (done : List α) (hs : I s) (hP : P done s) :
    Ensures F I (as.forM f) s fun _ => P (done ++ as) := by
  induction as generalizing done s with
  | nil => exact of_pure hs (by rwa [List.append_nil])
  | cons a as ih =>
    unfold List.forM
    refine (hf done a (by simp) s hs hP).bind fun _ s' hs' hP' => ?_
    rw [List.append_cons]
    exact ih (fun done b hb => hf done b (by simp [hb])) (done ++ [a]) hs' hP'

theorem forM {as : List α} {f : α → ExceptT ε (StateT σ (Except φ)) PUnit} {P : σ → Prop}
    (hf : ∀ a ∈ as, ∀ s, I s → P s → Ensures F I (f a) s fun _ => P) (hs : I s) (hP : P s) :
    Ensures F I (as.forM f) s fun _ => P :=
  forM_done (P := fun _ => P) (fun _ => hf) [] hs hP

theorem filterM_done {as : List α} {f : α → ExceptT ε (StateT σ (Except φ)) Bool}
    {P : List α → List α → σ → Prop}
    (hf : ∀ done picked, ∀ a ∈ as, ∀ s, I s → P done picked s → Ensures F I (f a) s fun b =>
      P (done ++ [a]) (if b then picked ++ [a] else picked))
    (hs : I s) (hP : P [] [] s) : Ensures F I (as.filterM f) s fun picked => P as picked := by
  have aux : ∀ (done kept : List α) (s : σ), I s → P done kept.reverse s →
      Ensures F I (as.filterAuxM f kept) s fun kept' => P (done ++ as) kept'.reverse := by
    clear hs hP
    induction as with
    | nil => exact fun done kept s hs hP => of_pure hs (by rwa [List.append_nil])
    | cons a as ih =>
      intro done kept s hs hP
      unfold List.filterAuxM
      refine (hf done kept.reverse a (by simp) s hs hP).bind fun b s' hs' hP' => ?_
      rw [List.append_cons]
      refine ih (fun done picked c hc => hf done picked c (by simp [hc])) _ _ s' hs' ?_
      cases b with
      | false => exact hP'
      | true => rwa [cond_true, List.reverse_cons]
  unfold List.filterM
  exact (aux [] [] s hs hP).bind fun _ s' hs' hP' => of_pure hs' hP'

theorem filterM {as : List α} {f : α → ExceptT ε (StateT σ (Except φ)) Bool} {P : σ → Prop}
    (hf : ∀ a ∈ as, ∀ s, I s → P s → Ensures F I (f a) s fun _ => P) (hs : I s) (hP : P s) :
    Ensures F I (as.filterM f) s fun _ => P :=
  filterM_done (P := fun _ _ => P) (fun _ _ => hf) hs hP

end Ensures

end Fabric.Record
