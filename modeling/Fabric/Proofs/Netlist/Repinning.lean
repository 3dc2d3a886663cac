import Fabric.Proofs.Netlist.Rewiring
/-!
# What rewiring leaves of a net

A net that stays keeps all that was found out about its route. A net that is made for a port
begins without any.
-/

namespace Fabric

def Net.Repins (net net' : Net) : Prop :=
  ∃ pins source routedSinks, net' = { net with pins, source, routedSinks }

namespace Net.Repins

variable {net net' net'' : Net}

theorem refl (net : Net) : net.Repins net := ⟨_, _, _, rfl⟩

theorem trans (h : net.Repins net') (h' : net'.Repins net'') : net.Repins net'' := by
  obtain ⟨_, _, _, rfl⟩ := h
  obtain ⟨_, _, _, rfl⟩ := h'
  exact ⟨_, _, _, rfl⟩

theorem addPin (net : Net) (p : PinId) (dir : PinDir) : net.Repins (net.addPin p dir) :=
  ⟨_, _, _, rfl⟩

theorem removePin (net : Net) (p : PinId) : net.Repins (net.removePin p) := ⟨_, _, _, rfl⟩

theorem setSource (net : Net) (p : PinId) : net.Repins (net.setSource p) := ⟨_, _, _, rfl⟩

end Net.Repins

namespace Netlist

/-- A net that was there has become what `R` allows. A new one, which has a new number, is what
`R` allows of a net that nothing is known of. -/
structure Evolves (R : NetId → Net → Net → Prop) (nl nl' : Netlist) : Prop where
  size_le : nl.nets.size ≤ nl'.nets.size
  old_or_new : ∀ n net', nl'.net? n = some net' →
    (∃ net, nl.net? n = some net ∧ R n net net') ∨
      nl.nets.size ≤ n.index ∧ ∃ name kind, R n { name, kind } net'

abbrev Repins : Netlist → Netlist → Prop := Evolves fun _ => Net.Repins

variable {nl nl' nl'' : Netlist}

namespace Evolves

variable {R R' : NetId → Net → Net → Prop}

theorem refl (hR : ∀ n net, R n net net) (nl : Netlist) : Evolves R nl nl :=
  ⟨Nat.le_refl _, fun n net hn => .inl ⟨net, hn, hR n net⟩⟩

theorem trans (hR : ∀ n net net' net'', R n net net' → R n net' net'' → R n net net'')
    (h : Evolves R nl nl') (h' : Evolves R nl' nl'') : Evolves R nl nl'' where
  size_le := Nat.le_trans h.size_le h'.size_le
  old_or_new n net'' hn'' := by
    have hsize := h.size_le
    rcases h'.old_or_new n net'' hn'' with ⟨net', hn', hR'⟩ | ⟨hbeyond, hnew⟩
    · rcases h.old_or_new n net' hn' with ⟨net, hn, hold⟩ | ⟨hbeyond, name, kind, hnew⟩
      · exact .inl ⟨net, hn, hR n net net' net'' hold hR'⟩
      · exact .inr ⟨hbeyond, name, kind, hR n _ net' net'' hnew hR'⟩
    · exact .inr ⟨by omega, hnew⟩

theorem mono (h : Evolves R nl nl') (hR : ∀ n net net', R n net net' → R' n net net') :
    Evolves R' nl nl' where
  size_le := h.size_le
  old_or_new n net' hn' := by
    rcases h.old_or_new n net' hn' with ⟨net, hn, hold⟩ | ⟨hbeyond, name, kind, hnew⟩
    · exact .inl ⟨net, hn, hR n net net' hold⟩
    · exact .inr ⟨hbeyond, name, kind, hR n _ net' hnew⟩

/-- What `R` hands on from net to net, and new nets have from the beginning, all nets have. -/
theorem forall_net (h : Evolves R nl nl') {P : Net → Prop}
    (hR : ∀ n net net', R n net net' → P net → P net')
    (hnew : ∀ name kind, P { name, kind }) (hold : ∀ n net, nl.net? n = some net → P net) :
    ∀ n net', nl'.net? n = some net' → P net' := by
  intro n net' hn'
  rcases h.old_or_new n net' hn' with ⟨net, hn, hstep⟩ | ⟨-, name, kind, hstep⟩
  · exact hR n net net' hstep (hold n net hn)
  · exact hR n _ net' hstep (hnew name kind)

theorem of_old (h : Evolves R nl nl') {n : NetId} {net net' : Net} (hn : nl.net? n = some net)
    (hn' : nl'.net? n = some net') : R n net net' := by
  rcases h.old_or_new n net' hn' with ⟨old, hold, hR⟩ | ⟨hbeyond, -⟩
  · obtain rfl : old = net := Option.some.inj (hold.symm.trans hn)
    exact hR
  · have hlt := lt_size_of_net? hn
    omega

theorem of_nets (hsize : nl.nets.size ≤ nl'.nets.size)
    (h : ∀ n net', nl'.net? n = some net' → ∃ net, nl.net? n = some net ∧ R n net net') :
    Evolves R nl nl' :=
  ⟨hsize, fun n net' hn' => .inl (h n net' hn')⟩

theorem of_eq (hR : ∀ n net, R n net net) (h : nl'.nets = nl.nets) : Evolves R nl nl' := by
  refine of_nets (Nat.le_of_eq (congrArg Array.size h).symm) fun n net' hn' => ?_
  unfold net? at hn' ⊢
  rw [h] at hn'
  exact ⟨net', hn', hR n net'⟩

theorem modifyNet (hR : ∀ n net, R n net net) (nl : Netlist) {n : NetId} {f : Net → Net}
    (hf : ∀ net, R n net (f net)) : Evolves R nl (nl.modifyNet n f) := by
  refine of_nets (by simp [Netlist.modifyNet]) fun m net' hm => ?_
  obtain ⟨net, hnet, rfl⟩ := exists_of_ite_map (net?_modifyNet .. ▸ hm)
  refine ⟨net, hnet, ?_⟩
  split
  next heq => exact heq ▸ hf net
  next => exact hR m net

theorem attach_of_off (hR : ∀ n net, R n net net)
    (hadd : ∀ n net p dir, R n net (net.addPin p dir)) {n : NetId} (hn : (nl.net? n).isSome)
    {p : PinId} (hoff : nl.netOf? p = none) : Evolves R nl (nl.attach n p) := by
  cases hp : nl.pin? p with
  | none =>
    rw [attach_of_no_pin hp]
    exact refl hR nl
  | some pin =>
    refine of_nets (Rewires.attach hn p).size_le fun m net' hm => ?_
    obtain ⟨net, hnet, rfl⟩ := exists_of_ite_map (net?_attach_of_off hp hoff m ▸ hm)
    refine ⟨net, hnet, ?_⟩
    split
    · exact hadd m net p pin.dir
    · exact hR m net

end Evolves

namespace Repins

theorem refl (nl : Netlist) : nl.Repins nl := Evolves.refl (fun _ => .refl) nl

theorem trans (h : nl.Repins nl') (h' : nl'.Repins nl'') : nl.Repins nl'' :=
  Evolves.trans (fun _ _ _ _ => .trans) h h'

theorem of_eq (h : nl'.nets = nl.nets) : nl.Repins nl' := Evolves.of_eq (fun _ => .refl) h

theorem detach (nl : Netlist) (n : NetId) (p : PinId) : nl.Repins (nl.detach n p) := by
  refine .of_nets (Rewires.detach n p).size_le fun m net' hm => ?_
  obtain ⟨net, hnet, rfl⟩ := exists_of_ite_map (net?_detach nl n p m ▸ hm)
  refine ⟨net, hnet, ?_⟩
  split
  · exact .removePin net p
  · exact .refl net

theorem attach_of_off {n : NetId} (hn : (nl.net? n).isSome) {p : PinId}
    (hoff : nl.netOf? p = none) : nl.Repins (nl.attach n p) :=
  Evolves.attach_of_off (fun _ => .refl) (fun _ => .addPin) hn hoff

theorem attach {n : NetId} (hn : (nl.net? n).isSome) (p : PinId) : nl.Repins (nl.attach n p) := by
  cases hp : nl.netOf? p with
  | none => exact attach_of_off hn hp
  | some m =>
    by_cases hm : m = n
    · rw [attach_of_on (hm ▸ hp)]
      exact refl nl
    · have hn' : ((nl.detach m p).net? n).isSome := by
        rw [net?_detach, if_neg (Ne.symm hm)]
        exact hn
      have hoff : (nl.detach m p).netOf? p = none := by rw [netOf?_detach, if_pos ⟨rfl, hp⟩]
      rw [attach_of_other hp hm]
      exact (detach nl m p).trans (attach_of_off hn' hoff)

theorem attachSource {n : NetId} (hn : (nl.net? n).isSome) (p : PinId) :
    nl.Repins (nl.attachSource n p) :=
  (attach hn p).trans (Evolves.modifyNet (fun _ => .refl) _ fun net => .setSource net p)

theorem removeNet (nl : Netlist) (n : NetId) : nl.Repins (nl.removeNet n) := by
  have hsize : nl.nets.size ≤ (nl.removeNet n).nets.size := by
    unfold Netlist.removeNet
    split <;> simp
  refine .of_nets hsize fun m net' hm => ?_
  rw [net?_removeNet] at hm
  split at hm
  · cases hm
  · exact ⟨net', hm, .refl net'⟩

theorem addNet (nl : Netlist) (name : String) (kind : NetKind) :
    nl.Repins (nl.addNet name kind) where
  size_le := by simp [Netlist.addNet]
  old_or_new n net' hn' := by
    rw [net?_addNet] at hn'
    split at hn'
    next hn =>
      cases hn'
      subst hn
      exact .inr ⟨Nat.le_refl _, name, kind, .refl _⟩
    next => exact .inl ⟨net', hn', .refl net'⟩

end Repins

end Netlist

end Fabric
