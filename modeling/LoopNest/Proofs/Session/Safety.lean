import LoopNest.Proofs.Session.Steps

/-!
# Safety of sessions

Whatever calls are made, and whatever the host and the called entry points do, the executions of a
session count their bound slots, kernels are called only while they are loaded and only with a buffer
for each argument, and a handle is of no use before it was given and after it was released
(`Session.run_safe`).
-/

namespace LoopNest.Session

variable {ω : Type} {s s' : Session} {h : Nat} {c : Call} {r : Except Diagnostic Reply}

/-! ## Invariant -/

/-- What holds of every session that calls lead to. -/
structure Sound (s : Session) : Prop where
  last : s.handles.last < HandleTable.limit
  live : ∀ h v, s.handles.find? h = some v → 0 < h ∧ h ≤ s.handles.last
  kernels : ∀ h id, s.handles.find? h = some (.kernel id) → id < s.kernels.length
  running : ∀ h id, s.handles.find? h = some (.execution id) → id < s.executions.length
  owner : ∀ h h' id, s.handles.find? h = some (.kernel id) → s.handles.find? h' = some (.kernel id) → h = h'
  executions : ∀ x ∈ s.executions, ∃ k, s.kernels[x.1]? = some k ∧ x.2.Sound k

/-- A handle is given: the next number stands for an entity, and nothing else changes. -/
structure Gives (s : Session) (v : Entity) (h : Nat) (s' : Session) : Prop where
  next : h = s.handles.last + 1
  small : h < HandleTable.limit
  last : s'.handles.last = h
  find : ∀ k, s'.handles.find? k = if k = h then some v else s.handles.find? k
  same : s' = { s with handles := s'.handles }

theorem give_gives {v : Entity} (hlast : s.handles.last < HandleTable.limit)
    (hlive : ∀ h v, s.handles.find? h = some v → 0 < h ∧ h ≤ s.handles.last)
    (hg : s.give v = some (h, s')) : Gives s v h s' := by
  have hwrap : s.handles.wrap v =
      if s.handles.draw.1 = 0 then (0, s.handles.draw.2)
      else (s.handles.draw.1, s.handles.draw.2.store s.handles.draw.1 v) := rfl
  rw [give, hwrap] at hg
  by_cases hzero : s.handles.draw.1 = 0
  · simp only [if_pos hzero, if_true] at hg
    cases hg
  · have hsmall : s.handles.last + 1 < HandleTable.limit := by
      refine Nat.lt_of_le_of_ne hlast fun heq => hzero ?_
      exact (congrArg (· % HandleTable.limit) heq).trans (Nat.mod_self _)
    have hnext : s.handles.draw.1 = s.handles.last + 1 := Nat.mod_eq_of_lt hsmall
    simp only [hnext, Nat.succ_ne_zero, if_false] at hg
    cases hg
    have hfresh : s.handles.last + 1 ∉ s.handles.draw.2.keys := fun hk => by
      obtain ⟨v, hv⟩ := HandleTable.exists_find? hk
      have := (hlive _ v hv).2
      omega
    refine ⟨rfl, hsmall, ?_, fun k => HandleTable.find?_store hfresh, rfl⟩
    rw [HandleTable.store_of_fresh hfresh]
    exact hnext

namespace Sound

theorem empty : Sound {} where
  last := by decide
  live := nofun
  kernels := nofun
  running := nofun
  owner := nofun
  executions := nofun

theorem give {v : Entity} (hs : Sound s) (hg : Gives s v h s')
    (hkernel : ∀ id, v = .kernel id → id < s.kernels.length ∧ ∀ h, s.handles.find? h ≠ some (.kernel id))
    (hexecution : ∀ id, v = .execution id → id < s.executions.length) : Sound s' := by
  have hkernels : s'.kernels = s.kernels := by rw [hg.same]
  have hexecutions : s'.executions = s.executions := by rw [hg.same]
  constructor
  · rw [hg.last]
    exact hg.small
  · intro k w hw
    rw [hg.find] at hw
    rw [hg.last]
    have := hg.next
    split at hw
    · omega
    · have := hs.live k w hw
      omega
  · intro k id hk
    rw [hg.find] at hk
    rw [hkernels]
    split at hk
    · exact (hkernel id (Option.some.inj hk)).1
    · exact hs.kernels k id hk
  · intro k id hk
    rw [hg.find] at hk
    rw [hexecutions]
    split at hk
    · exact hexecution id (Option.some.inj hk)
    · exact hs.running k id hk
  · intro k k' id hk hk'
    rw [hg.find] at hk hk'
    split at hk
    · rename_i hkh
      split at hk'
      · rename_i hkh'
        exact hkh.trans hkh'.symm
      · exact absurd hk' ((hkernel id (Option.some.inj hk)).2 k')
    · split at hk'
      · exact absurd hk ((hkernel id (Option.some.inj hk')).2 k)
      · exact hs.owner k k' id hk hk'
  · rw [hkernels, hexecutions]
    exact hs.executions

theorem remove (hs : Sound s) : Sound { s with handles := s.handles.remove h } where
  last := hs.last
  live k v hk := hs.live k v (HandleTable.find?_remove_eq_some.mp hk).2
  kernels k id hk := hs.kernels k id (HandleTable.find?_remove_eq_some.mp hk).2
  running k id hk := hs.running k id (HandleTable.find?_remove_eq_some.mp hk).2
  owner k k' id hk hk' :=
    hs.owner k k' id (HandleTable.find?_remove_eq_some.mp hk).2 (HandleTable.find?_remove_eq_some.mp hk').2
  executions := hs.executions

theorem setKernel {id : Nat} {k k' : Kernel} (hs : Sound s) (hk : s.kernels[id]? = some k)
    (hformals : k'.formals = k.formals) : Sound (s.setKernel id k') := by
  refine ⟨hs.last, hs.live, fun h i hi => ?_, hs.running, hs.owner, fun x hx => ?_⟩
  · exact Nat.lt_of_lt_of_eq (hs.kernels h i hi) List.length_set.symm
  · obtain ⟨k₁, hk₁, hsound⟩ := hs.executions x hx
    by_cases hid : id = x.1
    · subst hid
      cases hk.symm.trans hk₁
      exact ⟨k', List.getElem?_set_self (List.getElem?_eq_some_iff.mp hk).1, hsound.congr hformals⟩
    · exact ⟨k₁, (List.getElem?_set_ne hid).trans hk₁, hsound⟩

theorem setExecution {id kernelId : Nat} {e e' : Execution} {k : Kernel} (hs : Sound s)
    (he : s.executions[id]? = some (kernelId, e)) (hk : s.kernels[kernelId]? = some k)
    (hsound : e'.Sound k) : Sound (s.setExecution id e') := by
  refine ⟨hs.last, hs.live, hs.kernels, fun h i hi => ?_, hs.owner, fun x hx => ?_⟩
  · exact Nat.lt_of_lt_of_eq (hs.running h i hi) (List.length_modify ..).symm
  obtain ⟨i, hi⟩ := List.mem_iff_getElem?.mp hx
  change (s.executions.modify id _)[i]? = _ at hi
  rw [List.getElem?_modify] at hi
  by_cases hid : id = i
  · subst hid
    rw [he] at hi
    simp only [if_true, Option.map_eq_map, Option.map_some] at hi
    cases hi
    exact ⟨k, hk, hsound⟩
  · simp only [if_neg hid, id_map'] at hi
    exact hs.executions x (List.mem_of_getElem? hi)

theorem addKernel {k : Kernel} (hs : Sound s) : Sound { s with kernels := s.kernels ++ [k] } := by
  refine ⟨hs.last, hs.live, fun h id hid => ?_, hs.running, hs.owner, fun x hx => ?_⟩
  · rw [List.length_append]
    exact Nat.lt_add_right _ (hs.kernels h id hid)
  · obtain ⟨k₁, hk₁, hsound⟩ := hs.executions x hx
    exact ⟨k₁, (List.getElem?_append_left (List.getElem?_eq_some_iff.mp hk₁).1).trans hk₁, hsound⟩

theorem addExecution {id : Nat} {k : Kernel} (hs : Sound s) (hk : s.kernels[id]? = some k) :
    Sound { s with executions := s.executions ++ [(id, .ofKernel k)] } := by
  refine ⟨hs.last, hs.live, hs.kernels, fun h i hi => ?_, hs.owner, fun x hx => ?_⟩
  · rw [List.length_append]
    exact Nat.lt_add_right _ (hs.running h i hi)
  rcases List.mem_append.mp hx with hx | hx
  · exact hs.executions x hx
  · cases List.mem_singleton.mp hx
    exact ⟨k, hk, .ofKernel k⟩

theorem setBuffers {buffers : List Buffer} (hs : Sound s) : Sound { s with buffers } :=
  ⟨hs.last, hs.live, hs.kernels, hs.running, hs.owner, hs.executions⟩

theorem kernel_eq {id : Nat} (hs : Sound s) (hv : s.handles.find? h = some (.kernel id)) :
    ∃ k, s.kernels[id]? = some k ∧ s.kernel h = .ok (id, k) := by
  obtain ⟨k, hk⟩ : ∃ k, s.kernels[id]? = some k := ⟨_, List.getElem?_eq_getElem (hs.kernels h id hv)⟩
  have h0 := Nat.ne_of_gt (hs.live h _ hv).1
  refine ⟨k, hk, ?_⟩
  have hunwrap : s.handles.unwrap "*runtime.Kernel" Entity.kernel? h = .ok id :=
    HandleTable.unwrap_of_find? h0 hv _ _
  rw [kernel, hunwrap]
  simp only [Bind.bind, Except.bind, hk]

theorem execution_eq {id : Nat} (hs : Sound s) (hv : s.handles.find? h = some (.execution id)) :
    ∃ e k, s.execution h = .ok (id, e, k) := by
  obtain ⟨x, hx⟩ : ∃ x, s.executions[id]? = some x := ⟨_, List.getElem?_eq_getElem (hs.running h id hv)⟩
  obtain ⟨k, hk, -⟩ := hs.executions x (List.mem_of_getElem? hx)
  have h0 := Nat.ne_of_gt (hs.live h _ hv).1
  refine ⟨x.2, k, ?_⟩
  have hunwrap : s.handles.unwrap "*runtime.Execution" Entity.execution? h = .ok id :=
    HandleTable.unwrap_of_find? h0 hv _ _
  rw [execution, hunwrap]
  simp only [Bind.bind, Except.bind, hx, hk]

/-- The execution of a handle. -/
theorem execution {id : Nat} {e : Execution} {k : Kernel} (hs : Sound s)
    (he : s.execution h = .ok (id, e, k)) :
    e.Sound k := by
  obtain ⟨-, -, kernelId, hget, hk⟩ := execution_eq_ok he
  obtain ⟨k', hk', hsound⟩ := hs.executions _ (List.mem_of_getElem? hget)
  cases hk.symm.trans hk'
  exact hsound

theorem gives {v : Entity} (hs : Sound s) (hg : s.give v = some (h, s')) : Gives s v h s' :=
  give_gives hs.last hs.live hg

/-- Every call keeps the invariant. -/
theorem moves (hs : Sound s) (hm : Moves s c r s') : Sound s' := by
  cases hm with
  | refuse | source => exact hs
  | emit hg | newCode hg => exact hs.give (hs.gives hg) nofun nofun
  | build _ hg =>
    refine hs.addKernel.give (hs.addKernel.gives hg) (fun id hid => ?_) nofun
    cases hid
    refine ⟨by simp, fun h hh => ?_⟩
    exact Nat.lt_irrefl _ (hs.kernels h _ hh)
  | newExecution hk hg =>
    have hadd := hs.addExecution (kernel_eq_ok hk).2.2
    refine hadd.give (hadd.gives hg) nofun fun id hid => ?_
    cases hid
    simp
  | load hk hformals => exact hs.setKernel (kernel_eq_ok hk).2.2 hformals
  | unload hk => exact hs.setKernel (kernel_eq_ok hk).2.2 rfl
  | bind he hok =>
    obtain ⟨-, -, kernelId, hget, hk⟩ := execution_eq_ok he
    exact hs.setBuffers.setExecution hget hk ((hs.execution he).attach hok)
  | clear he =>
    obtain ⟨-, -, kernelId, hget, hk⟩ := execution_eq_ok he
    exact hs.setExecution hget hk (hs.execution he).clear
  | execute hf =>
    obtain ⟨id, e, -, -, -, hk, -⟩ := foreignCall_eq_ok hf
    exact hs.setBuffers.setKernel hk rfl
  | releaseCode => exact hs.remove
  | releaseKernel hk _ hformals => exact (hs.setKernel (kernel_eq_ok hk).2.2 hformals).remove
  | releaseExecution he =>
    obtain ⟨-, -, kernelId, hget, hk⟩ := execution_eq_ok he
    exact (hs.setExecution hget hk (hs.execution he).clear).remove

end Sound

/-! ## Released handles and unloaded kernels -/

/-- A number that was drawn and does not stand for anything. -/
def Gone (s : Session) (h : Nat) : Prop := h ≤ s.handles.last ∧ s.handles.find? h = none

/-- A kernel of the session that only some handles can stand for. -/
def Owned (s : Session) (id : Nat) (P : Nat → Prop) : Prop :=
  id < s.kernels.length ∧ ∀ h, s.handles.find? h = some (.kernel id) → P h

/-- A kernel is not loaded. -/
def Unloaded (s : Session) (id : Nat) : Prop := ∀ k, s.kernels[id]? = some k → k.entry = none

section

variable {id j k : Nat} {P : Nat → Prop} {v : Entity}

theorem Gives.gone (hg : Gives s v h s') (hk : s.Gone k) : s'.Gone k := by
  have hnext := hg.next
  have hle := hk.1
  refine ⟨by rw [hg.last]; omega, ?_⟩
  rw [hg.find, if_neg (by omega)]
  exact hk.2

theorem Gone.remove (hk : s.Gone k) : Gone { s with handles := s.handles.remove h } k := by
  refine ⟨hk.1, ?_⟩
  show (s.handles.remove h).find? k = none
  rw [HandleTable.find?_remove, hk.2, ite_self]

/-- A handle that is gone is not given again. -/
theorem Moves.gone (hm : Moves s c r s') (hs : Sound s) (hk : s.Gone k) : s'.Gone k := by
  cases hm with
  | emit hg | newCode hg => exact (hs.gives hg).gone hk
  | build _ hg => exact (hs.addKernel.gives hg).gone hk
  | newExecution hkernel hg => exact ((hs.addExecution (kernel_eq_ok hkernel).2.2).gives hg).gone hk
  | releaseCode => exact hk.remove
  | releaseKernel => exact Gone.remove (s := s.setKernel _ _) hk
  | releaseExecution => exact Gone.remove (s := s.setExecution _ _) hk
  | _ => exact hk

theorem Gives.owned (hg : Gives s v h s') (hv : v ≠ .kernel id) (hown : s.Owned id P) : s'.Owned id P := by
  refine ⟨by rw [hg.same]; exact hown.1, fun k hk => ?_⟩
  rw [hg.find] at hk
  split at hk
  · exact absurd (Option.some.inj hk) hv
  · exact hown.2 k hk

theorem Owned.remove (hown : s.Owned id P) : Owned { s with handles := s.handles.remove h } id P :=
  ⟨hown.1, fun k hk => hown.2 k (HandleTable.find?_remove_eq_some.mp hk).2⟩

theorem Owned.setKernel {k : Kernel} (hown : s.Owned id P) : (s.setKernel j k).Owned id P :=
  ⟨Nat.lt_of_lt_of_eq hown.1 List.length_set.symm, hown.2⟩

/-- No other handle comes to stand for a kernel. -/
theorem Moves.owned (hm : Moves s c r s') (hs : Sound s) (hown : s.Owned id P) : s'.Owned id P := by
  cases hm with
  | emit hg | newCode hg => exact (hs.gives hg).owned nofun hown
  | @build _ _ _ k _ _ hg =>
    have hadd : Owned { s with kernels := s.kernels ++ [k] } id P :=
      ⟨by rw [List.length_append]; exact Nat.lt_add_right _ hown.1, hown.2⟩
    refine (hs.addKernel.gives hg).owned (fun heq => ?_) hadd
    cases heq
    exact Nat.lt_irrefl _ hown.1
  | newExecution hkernel hg =>
    exact ((hs.addExecution (kernel_eq_ok hkernel).2.2).gives hg).owned nofun hown
  | load | unload => exact hown.setKernel
  | execute => exact Owned.setKernel (s := { s with buffers := _ }) hown
  | releaseCode => exact hown.remove
  | releaseKernel => exact hown.setKernel.remove
  | releaseExecution => exact Owned.remove (s := s.setExecution _ _) hown
  | _ => exact hown

theorem Unloaded.setKernel {k : Kernel} (hu : s.Unloaded id) (hk : j = id → k.entry = none) :
    (s.setKernel j k).Unloaded id := by
  intro k' hk'
  change (s.kernels.set j k)[id]? = some k' at hk'
  by_cases hj : j = id
  · have hlt := (List.getElem?_eq_some_iff.mp hk').1
    rw [List.length_set] at hlt
    rw [hj, List.getElem?_set_self hlt] at hk'
    cases hk'
    exact hk hj
  · rw [List.getElem?_set_ne hj] at hk'
    exact hu k' hk'

theorem Gives.unloaded (hg : Gives s v h s') (hu : s.Unloaded id) : s'.Unloaded id := by
  rw [hg.same]
  exact hu

/-- A kernel that is not loaded stays so until a handle for it is loaded. -/
theorem Moves.unloaded (hm : Moves s c r s') (hs : Sound s) (hid : id < s.kernels.length)
    (hu : s.Unloaded id) (hload : ∀ h, c = .load h → s.handles.find? h ≠ some (.kernel id)) :
    s'.Unloaded id := by
  cases hm with
  | emit hg | newCode hg => exact (hs.gives hg).unloaded hu
  | @build _ _ _ k _ hentry hg =>
    refine (hs.addKernel.gives hg).unloaded fun k' hk' => ?_
    change (s.kernels ++ [k])[id]? = some k' at hk'
    rw [List.getElem?_append_left hid] at hk'
    exact hu k' hk'
  | newExecution hkernel hg => exact ((hs.addExecution (kernel_eq_ok hkernel).2.2).gives hg).unloaded hu
  | load hk =>
    refine hu.setKernel fun hj => ?_
    subst hj
    exact absurd (kernel_eq_ok hk).2.1 (hload _ rfl)
  | unload => exact hu.setKernel fun _ => rfl
  | execute hf =>
    refine Unloaded.setKernel (s := { s with buffers := _ }) hu fun hj => ?_
    subst hj
    obtain ⟨_, e, -, -, -, hk, harguments⟩ := foreignCall_eq_ok hf
    rw [Execution.arguments, hu _ hk] at harguments
    cases harguments
  | releaseKernel _ hentry => exact hu.setKernel fun _ => hentry
  | _ => exact hu

end

/-! ## Runs -/

/-- Calls one after the other, with what they give. Between the calls anything can happen to the host. -/
inductive Run (ω : Type) : Session → List (Call × Except Diagnostic Reply) → Session → Prop where
  | nil {s : Session} : Run ω s [] s
  | cons {s s₁ s₂ : Session} {c : Call} {r : Except Diagnostic Reply} {call : Caller} {host : Host ω}
    {t t' : Stage ω} {rest : List (Call × Except Diagnostic Reply)} :
    s.stepWith call host c t = .ok (r, s₁) t' → Run ω s₁ rest s₂ → Run ω s ((c, r) :: rest) s₂

variable {past : List (Call × Except Diagnostic Reply)}

namespace Run

theorem sound (hrun : Run ω s past s') (hs : Sound s) : Sound s' := by
  induction hrun with
  | nil => exact hs
  | cons hstep _ ih => exact ih (hs.moves (stepWith_moves _ _ _ _ _ hstep))

theorem gone {k : Nat} (hrun : Run ω s past s') (hs : Sound s) (hk : s.Gone k) : s'.Gone k := by
  induction hrun with
  | nil => exact hk
  | cons hstep _ ih =>
    have hm := stepWith_moves _ _ _ _ _ hstep
    exact ih (hs.moves hm) (hm.gone hs hk)

theorem owned {id : Nat} {P : Nat → Prop} (hrun : Run ω s past s') (hs : Sound s) (hown : s.Owned id P) :
    s'.Owned id P := by
  induction hrun with
  | nil => exact hown
  | cons hstep _ ih =>
    have hm := stepWith_moves _ _ _ _ _ hstep
    exact ih (hs.moves hm) (hm.owned hs hown)

/-- A kernel stays unloaded while none of its handles is loaded. -/
theorem unloaded {id : Nat} {P : Nat → Prop} (hrun : Run ω s past s') (hs : Sound s) (hown : s.Owned id P)
    (hu : s.Unloaded id) (hload : ∀ h r, (.load h, r) ∈ past → ¬ P h) : s'.Unloaded id := by
  induction hrun with
  | nil => exact hu
  | cons hstep _ ih =>
    have hm := stepWith_moves _ _ _ _ _ hstep
    refine ih (hs.moves hm) (hm.owned hs hown) ?_ fun h r hmem => hload h r (.tail _ hmem)
    refine hm.unloaded hs hown.1 hu fun h hc hfind => ?_
    subst hc
    exact hload h _ (.head _) (hown.2 h hfind)

theorem not_isLoaded {id : Nat} {P : Nat → Prop} (hrun : Run ω s past s') (hs : Sound s)
    (hown : s.Owned id P) (hu : s.Unloaded id) (hload : ∀ h r, (.load h, r) ∈ past → ¬ P h) :
    ∃ k, s'.kernels[id]? = some k ∧ k.isLoaded = false := by
  have hk := List.getElem?_eq_getElem (hrun.owned hs hown).1
  refine ⟨_, hk, ?_⟩
  rw [Kernel.isLoaded, hrun.unloaded hs hown hu hload _ hk]
  rfl

end Run

/-! ## Safety -/

theorem Gives.find?_eq_some {v : Entity} (hg : Gives s v h s') {k : Nat} {w : Entity}
    (hw : s'.handles.find? k = some w) : k = h ∨ s.handles.find? k = some w := by
  rw [hg.find] at hw
  split at hw
  · exact .inl ‹_›
  · exact .inr hw

/-- A handle that is live was live, or is given. -/
theorem Moves.find?_eq_some (hm : Moves s c r s') (hs : Sound s) {k : Nat} {w : Entity}
    (hw : s'.handles.find? k = some w) : s.handles.find? k = some w ∨ r = .ok (.handle k) := by
  cases hm with
  | emit hg | newCode hg =>
    obtain rfl | hw := (hs.gives hg).find?_eq_some hw
    · exact .inr rfl
    · exact .inl hw
  | build _ hg =>
    obtain rfl | hw := (hs.addKernel.gives hg).find?_eq_some hw
    · exact .inr rfl
    · exact .inl hw
  | newExecution hk hg =>
    obtain rfl | hw := ((hs.addExecution (kernel_eq_ok hk).2.2).gives hg).find?_eq_some hw
    · exact .inr rfl
    · exact .inl hw
  | releaseCode | releaseKernel | releaseExecution => exact .inl (HandleTable.find?_remove_eq_some.mp hw).2
  | _ => exact .inl hw

theorem Run.given (hrun : Run ω s past s') (hs : Sound s) {k : Nat} {w : Entity}
    (hw : s'.handles.find? k = some w) :
    s.handles.find? k = some w ∨ ∃ c, (c, .ok (.handle k)) ∈ past := by
  induction hrun with
  | nil => exact .inl hw
  | cons hstep _ ih =>
    have hm := stepWith_moves _ _ _ _ _ hstep
    rcases ih (hs.moves hm) hw with hw | ⟨c, hc⟩
    · rcases hm.find?_eq_some hs hw with hw | hr
      · exact .inl hw
      · exact .inr ⟨_, by rw [← hr]; exact .head _⟩
    · exact .inr ⟨c, .tail _ hc⟩

/-- The handle that a call releases. -/
def Call.released : Call → Option Nat
  | .releaseCode h | .releaseKernel h | .releaseExecution h => some h
  | _ => none

/-- A handle is gone after its release, whatever else fails. -/
theorem Sound.released {call : Caller} {host : Host ω} {t t' : Stage ω} {kind : Kind} (hs : Sound s)
    (hc : c.released = some h) (hsubject : c.subject = some (h, kind)) (hhas : s.Has h kind)
    (hstep : s.stepWith call host c t = .ok (r, s') t') : s'.Gone h := by
  obtain ⟨h0, v, hv, hkind⟩ := hhas
  have hle := (hs.live h v hv).2
  have hgone : (s.handles.remove h).find? h = none := by rw [HandleTable.find?_remove, if_pos rfl]
  cases c <;> cases hc <;> cases hsubject
  case releaseCode =>
    cases v <;> cases hkind
    have hcode : s.code h = .ok _ := HandleTable.unwrap_of_find? h0 hv _ _
    obtain ⟨hanswer, -⟩ := EStateM.Result.ok.inj hstep
    rw [releaseCode_code hcode] at hanswer
    cases hanswer
    exact ⟨hle, hgone⟩
  case releaseKernel =>
    cases v <;> cases hkind
    obtain ⟨k, -, hk⟩ := hs.kernel_eq hv
    obtain ⟨k', -, -, hs'⟩ := releaseKernel_kernel hk t _ t' hstep
    cases hs'
    exact ⟨hle, hgone⟩
  case releaseExecution =>
    cases v <;> cases hkind
    obtain ⟨e, k, he⟩ := hs.execution_eq hv
    obtain ⟨hanswer, -⟩ := EStateM.Result.ok.inj hstep
    rw [releaseExecution_execution he] at hanswer
    cases hanswer
    exact ⟨hle, hgone⟩

/-- An execution that can be called: its kernel is loaded, and each of its slots has a buffer. -/
def Ready (s : Session) (h : Nat) (k : Kernel) (f : Entry) (ids : List Nat) : Prop :=
  ∃ id kernelId e, s.handles.find? h = some (.execution id) ∧ s.executions[id]? = some (kernelId, e) ∧
    s.kernels[kernelId]? = some k ∧ k.entry = some f ∧ e.slots = ids.map some

namespace Sound

/-- A call that does not execute a ready execution is the same however entry points are called. -/
theorem calls (hs : Sound s) (c : Call) (host : Host ω) :
    (∀ call call', s.stepWith call host c = s.stepWith call' host c) ∨
    ∃ h k f ids, c = .execute h ∧ s.Ready h k f ids ∧
      ∀ call call' : Caller, call f k.dtype ids s.buffers = call' f k.dtype ids s.buffers →
        s.stepWith call host c = s.stepWith call' host c := by
  by_cases hready : ∃ h x, c = .execute h ∧ s.foreignCall h = .ok x
  · obtain ⟨h, ⟨kernelId, k, f, ids⟩, rfl, hf⟩ := hready
    obtain ⟨id, e, -, hv, hget, hk, harguments⟩ := foreignCall_eq_ok hf
    obtain ⟨k', hk', hsound⟩ := hs.executions _ (List.mem_of_getElem? hget)
    cases hk.symm.trans hk'
    obtain ⟨hentry, hslots⟩ := Execution.arguments_eq_ok hsound harguments
    exact .inr ⟨h, k, f, ids, rfl, ⟨id, kernelId, e, hv, hget, hk, hentry, hslots⟩,
      fun call call' hsame => stepWith_execute hf hsame host⟩
  · refine .inl fun call call' => stepWith_independent (fun h hc => ?_) call call' host
    cases hf : s.foreignCall h with
    | error d => exact ⟨d, rfl⟩
    | ok x => exact absurd ⟨h, x, hc, hf⟩ hready

/-- The entry of a kernel after it was replaced by one that is not loaded. -/
theorem unloaded_setKernel {id : Nat} {k : Kernel} (hs : Sound s)
    (hv : s.handles.find? h = some (.kernel id)) (hk : k.entry = none) :
    (s.setKernel id k).Unloaded id := by
  intro k' hk'
  change (s.kernels.set id k)[id]? = some k' at hk'
  rw [List.getElem?_set_self (hs.kernels h id hv)] at hk'
  cases hk'
  exact hk

section

variable {id : Nat} {call : Caller} {host : Host ω} {t t' : Stage ω} {s₁ s₂ : Session}
  {after : List (Call × Except Diagnostic Reply)}

theorem unload (hs : Sound s) (hv : s.handles.find? h = some (.kernel id))
    (hstep : s.stepWith call host (.unload h) t = .ok (r, s₁) t') (hafter : Run ω s₁ after s₂)
    (hload : ∀ r, (.load h, r) ∉ after) : ∃ k, s₂.kernels[id]? = some k ∧ k.isLoaded = false := by
  obtain ⟨k, -, hk⟩ := hs.kernel_eq hv
  have hs₁ := hs.moves (stepWith_moves _ _ _ _ _ hstep)
  cases unload_kernel hk t _ t' hstep
  have hown : (s.setKernel id { k with entry := none }).Owned id (· = h) :=
    Owned.setKernel ⟨hs.kernels h id hv, fun h' hv' => hs.owner h' h id hv' hv⟩
  refine hafter.not_isLoaded hs₁ hown (hs.unloaded_setKernel hv rfl) ?_
  rintro h' r hmem rfl
  exact hload r hmem

theorem releaseKernel (hs : Sound s) (hv : s.handles.find? h = some (.kernel id))
    (hstep : s.stepWith call host (.releaseKernel h) t = .ok (r, s₁) t') (hafter : Run ω s₁ after s₂) :
    ∃ k, s₂.kernels[id]? = some k ∧ k.isLoaded = false := by
  obtain ⟨k, -, hk⟩ := hs.kernel_eq hv
  have hs₁ := hs.moves (stepWith_moves _ _ _ _ _ hstep)
  obtain ⟨k', hentry, -, heq⟩ := releaseKernel_kernel hk t _ t' hstep
  cases heq
  -- no handle for the kernel is left, so that it cannot be loaded
  have hown : Owned { s.setKernel id k' with handles := s.handles.remove h } id fun _ => False := by
    refine ⟨Nat.lt_of_lt_of_eq (hs.kernels h id hv) List.length_set.symm, fun h' hv' => ?_⟩
    obtain ⟨hne, hv'⟩ := HandleTable.find?_remove_eq_some.mp hv'
    exact hne (hs.owner h' h id hv' hv)
  exact hafter.not_isLoaded hs₁ hown (hs.unloaded_setKernel hv hentry) fun _ _ _ => not_false

end

end Sound

/-- What can be relied on in a session after some calls. -/
structure Safe (ω : Type) (past : List (Call × Except Diagnostic Reply)) (s : Session) : Prop where
  /-- Executions count their bound slots. -/
  counts : ∀ x ∈ s.executions, ∃ k, s.kernels[x.1]? = some k ∧ x.2.slots.length = k.formals.length ∧
    x.2.filled = x.2.slots.countP Option.isSome ∧ x.2.filled ≤ k.formals.length
  /-- No call depends on how entry points are called, unless it calls an execution that is ready. -/
  calls : ∀ (c : Call) (host : Host ω),
    (∀ call call', s.stepWith call host c = s.stepWith call' host c) ∨
    ∃ h k f ids, c = .execute h ∧ s.Ready h k f ids ∧
      ∀ call call' : Caller, call f k.dtype ids s.buffers = call' f k.dtype ids s.buffers →
        s.stepWith call host c = s.stepWith call' host c
  /-- An unloaded kernel is not loaded until its handle is. -/
  unloaded : ∀ {h id : Nat} {call : Caller} {host : Host ω} {t t' : Stage ω} {r : Except Diagnostic Reply}
    {s₁ s₂ : Session} {after : List (Call × Except Diagnostic Reply)},
    s.handles.find? h = some (.kernel id) → s.stepWith call host (.unload h) t = .ok (r, s₁) t' →
    Run ω s₁ after s₂ → (∀ r, (.load h, r) ∉ after) →
    ∃ k, s₂.kernels[id]? = some k ∧ k.isLoaded = false
  /-- A released kernel is never loaded again. -/
  releasedKernel : ∀ {h id : Nat} {call : Caller} {host : Host ω} {t t' : Stage ω}
    {r : Except Diagnostic Reply} {s₁ s₂ : Session} {after : List (Call × Except Diagnostic Reply)},
    s.handles.find? h = some (.kernel id) → s.stepWith call host (.releaseKernel h) t = .ok (r, s₁) t' →
    Run ω s₁ after s₂ → ∃ k, s₂.kernels[id]? = some k ∧ k.isLoaded = false
  /-- A buffer that cannot be bound changes nothing. -/
  bind : ∀ {h : Nat} {name : String} {b : Buffer} {call : Caller} {host : Host ω} {t t' : Stage ω}
    {d : Diagnostic} {s₁ : Session},
    s.stepWith call host (.bind h name b) t = .ok (.error d, s₁) t' → s₁ = s ∧ t' = t
  /-- A call on a handle that is zero, not live or of another kind is an error, and changes nothing. -/
  refused : ∀ {c : Call} {h : Nat} {kind : Kind}, c.subject = some (h, kind) →
    (h = 0 ∨ s.handles.find? h = none ∨ ∃ v, s.handles.find? h = some v ∧ v.kind ≠ kind) →
    ∀ (call : Caller) (host : Host ω) (t : Stage ω), ∃ d, s.stepWith call host c t = .ok (.error d, s) t
  /-- A live handle was given by a call. -/
  given : ∀ {h : Nat} {v : Entity}, s.handles.find? h = some v → ∃ c, (c, .ok (.handle h)) ∈ past
  /-- A released handle is never live again. -/
  released : ∀ {c : Call} {h : Nat} {kind : Kind} {call : Caller} {host : Host ω} {t t' : Stage ω}
    {r : Except Diagnostic Reply} {s₁ s₂ : Session} {after : List (Call × Except Diagnostic Reply)},
    c.released = some h → c.subject = some (h, kind) → s.Has h kind →
    s.stepWith call host c t = .ok (r, s₁) t' → Run ω s₁ after s₂ → s₂.handles.find? h = none

/-- Sessions are safe, whatever calls are made and whatever the host and the entry points do. -/
theorem run_safe (hrun : Run ω {} past s) : Safe ω past s := by
  have hs : Sound s := hrun.sound .empty
  constructor
  · intro x hx
    obtain ⟨k, hk, hsound⟩ := hs.executions x hx
    exact ⟨k, hk, hsound.slots, hsound.filled, hsound.filled_le⟩
  · exact hs.calls
  · exact hs.unload
  · exact hs.releaseKernel
  · exact stepWith_bind_error
  · intro c h kind hc hbad call host t
    refine stepWith_refused hc ?_ t
    rintro ⟨h0, v, hv, hkind⟩
    rcases hbad with hz | hnone | ⟨w, hw, hne⟩
    · exact h0 hz
    · cases hnone.symm.trans hv
    · cases hw.symm.trans hv
      exact hne hkind
  · intro h v hv
    exact (hrun.given .empty hv).resolve_left nofun
  · intro c h kind call host t t' r s₁ s₂ after hc hsubject hhas hstep hafter
    exact (hafter.gone (hs.moves (stepWith_moves _ _ _ _ _ hstep)) (hs.released hc hsubject hhas hstep)).2

/-- A host on which everything succeeds, with entry points that do nothing. -/
def willing : Host Unit where
  tempDir := ""
  baseName _ := "k"
  write _ _ w := .ok w
  read _ _ := .error (.opening "")
  remove _ w := .ok w
  compile _ _ _ w := .ok w
  load _ _ _ := .ok .other
  close _ w := .ok w

theorem Run.willing {t' : Stage Unit} {s'' : Session}
    (h : s.stepWith callOn willing c ⟨(), [], 0⟩ = .ok (r, s') t') (hrun : Run Unit s' past s'') :
    Run Unit s ((c, r) :: past) s'' := .cons h hrun

/-- The code of a kernel that works on two numbers in place. -/
def pair : C.Code := { (default : C.Code) with dtype := .float64, formals := [⟨"x", [2], true, true⟩] }

/-- A kernel is called once, and the handle of its code is released. -/
def called : List (Call × Except Diagnostic Reply) :=
  [(.newCode pair, .ok (.handle 1)), (.build 1 {}, .ok (.handle 2)), (.newExecution 2, .ok (.handle 3)),
    (.load 2, .ok .done), (.bind 3 "x" ⟨.float64, [1, 2]⟩, .ok (.bound 0)), (.execute 3, .ok .done),
    (.releaseCode 1, .ok .done)]

/-- After these calls the execution still has its buffer, and the released handle is refused. -/
theorem run_safe_called : ∃ s, Run Unit {} called s ∧ s.Has 2 .kernel ∧
    s.executions.map (·.2.filled) = [1] ∧ (∀ x ∈ s.executions, x.2.filled = x.2.slots.countP Option.isSome) ∧
    ∃ d, s.stepWith callOn willing (.build 1 {}) ⟨(), [], 0⟩ = .ok (.error d, s) ⟨(), [], 0⟩ := by
  have hrun : ∃ s, Run Unit {} called s ∧ s.Has 2 .kernel ∧ s.executions.map (·.2.filled) = [1] ∧
      s.handles.find? 1 = none := by
    exact ⟨_, .willing rfl <| .willing rfl <| .willing rfl <| .willing rfl <| .willing rfl <|
      .willing rfl <| .willing rfl .nil, ⟨by decide, _, rfl, rfl⟩, rfl, rfl⟩
  obtain ⟨s, hrun, hhas, hfilled, hgone⟩ := hrun
  have hsafe := run_safe hrun
  refine ⟨s, hrun, hhas, hfilled, fun x hx => ?_, hsafe.refused rfl (.inr (.inl hgone)) callOn willing _⟩
  obtain ⟨k, -, -, hcount, -⟩ := hsafe.counts x hx
  exact hcount

end LoopNest.Session
