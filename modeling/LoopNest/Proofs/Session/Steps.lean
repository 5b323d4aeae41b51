import LoopNest.Kernel.Session
import LoopNest.Proofs.Binding
import LoopNest.Proofs.Handles
import LoopNest.Proofs.Kernel

/-!
# Calls of a session

What a call can do to a session, whatever the host and the called entry points do (`Moves`). A call on a
handle that does not stand for what the call works on changes nothing (`stepWith_refused`).
-/

namespace LoopNest

/-- What a handle can stand for. -/
inductive Kind where
  | code
  | kernel
  | execution
deriving DecidableEq

def Entity.kind : Entity → Kind
  | .code _ => .code
  | .kernel _ => .kernel
  | .execution _ => .execution

namespace Session

open LoopNest.Action (Returns)

variable {ω : Type} {s s' : Session} {c : Call} {h : Nat} {d : Diagnostic}

/-- The handle that a call works on, and what it has to stand for. -/
def Call.subject : Call → Option (Nat × Kind)
  | .emit .. | .newCode _ => none
  | .source h | .releaseCode h | .build h _ => some (h, .code)
  | .load h | .unload h | .releaseKernel h | .newExecution h => some (h, .kernel)
  | .bind h _ _ | .clear h | .execute h | .releaseExecution h => some (h, .execution)

/-- A handle is live and stands for something of a kind. -/
def Has (s : Session) (h : Nat) (kind : Kind) : Prop :=
  h ≠ 0 ∧ ∃ v, s.handles.find? h = some v ∧ v.kind = kind

/-! ## Handles -/

theorem unwrap_error {τ : Type} (wanted : String) (view : Entity → Option τ) {kind : Kind}
    (hview : ∀ v x, view v = some x → v.kind = kind) (hno : ¬ s.Has h kind) :
    ∃ e, s.handles.unwrap wanted view h = .error e := by
  cases hr : s.handles.unwrap wanted view h with
  | error e => exact ⟨e, rfl⟩
  | ok x =>
    obtain ⟨h0, v, hv, hx⟩ := HandleTable.unwrap_eq_ok hr
    exact absurd ⟨h0, v, hv, hview v x hx⟩ hno

theorem code_error (hno : ¬ s.Has h .code) : ∃ e, s.code h = .error e :=
  unwrap_error _ _ (by rintro (_ | _ | _) x hx <;> first | rfl | cases hx) hno

theorem kernel_error (hno : ¬ s.Has h .kernel) : ∃ e, s.kernel h = .error e := by
  obtain ⟨e, he⟩ := unwrap_error "*runtime.Kernel" Entity.kernel?
    (by rintro (_ | _ | _) x hx <;> first | rfl | cases hx) hno
  exact ⟨e, by rw [kernel, he]; rfl⟩

theorem execution_error (hno : ¬ s.Has h .execution) : ∃ e, s.execution h = .error e := by
  obtain ⟨e, he⟩ := unwrap_error "*runtime.Execution" Entity.execution?
    (by rintro (_ | _ | _) x hx <;> first | rfl | cases hx) hno
  exact ⟨e, by rw [execution, he]; rfl⟩

theorem code_eq_ok {c : C.Code} (hc : s.code h = .ok c) :
    h ≠ 0 ∧ s.handles.find? h = some (.code c) := by
  obtain ⟨h0, v, hv, hx⟩ := HandleTable.unwrap_eq_ok hc
  cases v <;> cases hx
  exact ⟨h0, hv⟩

theorem bind_eq_ok {ε β γ : Type} {x : Except ε β} {f : β → Except ε γ} {c : γ} (h : (x >>= f) = .ok c) :
    ∃ b, x = .ok b ∧ f b = .ok c := by
  cases x with
  | error e => cases h
  | ok b => exact ⟨b, rfl, h⟩

theorem kernel_eq_ok {id : Nat} {k : Kernel} (hk : s.kernel h = .ok (id, k)) :
    h ≠ 0 ∧ s.handles.find? h = some (.kernel id) ∧ s.kernels[id]? = some k := by
  obtain ⟨n, hn, hk⟩ := bind_eq_ok hk
  obtain ⟨h0, v, hv, hx⟩ := HandleTable.unwrap_eq_ok hn
  split at hk
  · rename_i hget
    cases hk
    cases v <;> cases hx
    exact ⟨h0, hv, hget⟩
  · cases hk

theorem execution_eq_ok {id : Nat} {e : Execution} {k : Kernel} (he : s.execution h = .ok (id, e, k)) :
    h ≠ 0 ∧ s.handles.find? h = some (.execution id) ∧
      ∃ kernelId, s.executions[id]? = some (kernelId, e) ∧ s.kernels[kernelId]? = some k := by
  obtain ⟨n, hn, he⟩ := bind_eq_ok he
  obtain ⟨h0, v, hv, hx⟩ := HandleTable.unwrap_eq_ok hn
  split at he
  · cases he
  · rename_i kernelId e' hget
    split at he
    · rename_i hget'
      cases he
      cases v <;> cases hx
      exact ⟨h0, hv, kernelId, hget, hget'⟩
    · cases he

theorem foreignCall_eq_ok {kernelId : Nat} {k : Kernel} {f : Entry} {ids : List Nat}
    (hf : s.foreignCall h = .ok (kernelId, k, f, ids)) :
    ∃ id e, h ≠ 0 ∧ s.handles.find? h = some (.execution id) ∧
      s.executions[id]? = some (kernelId, e) ∧ s.kernels[kernelId]? = some k ∧
      e.arguments k = .ok (f, ids) := by
  obtain ⟨⟨id, e, k'⟩, he, hf⟩ := bind_eq_ok hf
  obtain ⟨⟨f', ids'⟩, harguments, hf⟩ := bind_eq_ok hf
  cases hexec : s.execution h with
  | error x =>
    rw [hexec] at he
    cases he
  | ok x =>
    rw [hexec] at he
    cases he
    obtain ⟨h0, hv, kernelId', hget, hget'⟩ := execution_eq_ok hexec
    have hid : ((s.executions[id]?).map (·.1)).getD 0 = kernelId' := by rw [hget]; rfl
    cases hf
    rw [hid]
    exact ⟨id, e, h0, hv, hget, hget', harguments⟩

theorem forget_eq (h0 : h ≠ 0) {v : Entity} (hv : s.handles.find? h = some v) :
    s.forget h = .ok { s with handles := s.handles.remove h } := by
  rcases s.handles.release_cases h with ⟨hz, -⟩ | ⟨-, -, hrel⟩ | ⟨-, hk, -⟩
  · exact absurd hz h0
  · rw [forget, hrel]
    rfl
  · exact absurd (HandleTable.mem_keys_of_find? hv) hk

/-! ## Calls -/

/-- What a call gives, and the session after it. -/
inductive Moves (s : Session) : Call → Except Diagnostic Reply → Session → Prop where
  | refuse {c : Call} {d : Diagnostic} : Moves s c (.error d) s
  | source {h : Nat} {text : String} : Moves s (.source h) (.ok (.text text)) s
  | emit {program : Typed.Program} {opts : CompileOptions} {code : C.Code} {h : Nat} {s' : Session} :
    s.give (.code code) = some (h, s') → Moves s (.emit program opts) (.ok (.handle h)) s'
  | newCode {code : C.Code} {h : Nat} {s' : Session} :
    s.give (.code code) = some (h, s') → Moves s (.newCode code) (.ok (.handle h)) s'
  | build {h h' : Nat} {opts : Kernel.BuildOptions} {k : Kernel} {s' : Session} : k.entry = none →
    give { s with kernels := s.kernels ++ [k] } (.kernel s.kernels.length) = some (h', s') →
    Moves s (.build h opts) (.ok (.handle h')) s'
  | newExecution {h h' id : Nat} {k : Kernel} {s' : Session} : s.kernel h = .ok (id, k) →
    give { s with executions := s.executions ++ [(id, .ofKernel k)] } (.execution s.executions.length) =
      some (h', s') →
    Moves s (.newExecution h) (.ok (.handle h')) s'
  | load {h id : Nat} {k k' : Kernel} : s.kernel h = .ok (id, k) → k'.formals = k.formals →
    Moves s (.load h) (.ok .done) (s.setKernel id k')
  | unload {h id : Nat} {k : Kernel} {r : Except Diagnostic Reply} : s.kernel h = .ok (id, k) →
    Moves s (.unload h) r (s.setKernel id { k with entry := none })
  | bind {h id : Nat} {name : String} {b : Buffer} {k : Kernel} {e e' : Execution} :
    s.execution h = .ok (id, e, k) → Execution.attach k name b s.buffers.length e = .ok () e' →
    Moves s (.bind h name b) (.ok (.bound s.buffers.length))
      (setExecution { s with buffers := s.buffers ++ [b] } id e')
  | clear {h id : Nat} {k : Kernel} {e : Execution} : s.execution h = .ok (id, e, k) →
    Moves s (.clear h) (.ok .done) (s.setExecution id e.clear)
  | execute {h id : Nat} {k : Kernel} {f f' : Entry} {ids : List Nat} {buffers : List Buffer} :
    s.foreignCall h = .ok (id, k, f, ids) →
    Moves s (.execute h) (.ok .done) (setKernel { s with buffers } id { k with entry := some f' })
  | releaseCode {h : Nat} {code : C.Code} : s.code h = .ok code →
    Moves s (.releaseCode h) (.ok .done) { s with handles := s.handles.remove h }
  | releaseKernel {h id : Nat} {k k' : Kernel} {r : Except Diagnostic Reply} : s.kernel h = .ok (id, k) →
    k'.entry = none → k'.formals = k.formals →
    Moves s (.releaseKernel h) r { s.setKernel id k' with handles := s.handles.remove h }
  | releaseExecution {h id : Nat} {k : Kernel} {e : Execution} : s.execution h = .ok (id, e, k) →
    Moves s (.releaseExecution h) (.ok .done)
      { s.setExecution id e.clear with handles := s.handles.remove h }

theorem answerHandle_returns (s : Session) (v : Entity) :
    Returns (s.answerHandle v : Action ω Answer) fun a =>
      ∃ h s', s.give v = some (h, s') ∧ a = (.ok (.handle h), s') := by
  refine .bind (.ofExcept (Q := fun r => s.give v = some r) fun r hr => ?_) fun r hr => ?_
  · cases hg : s.give v with
    | none =>
      rw [hg] at hr
      cases hr
    | some x =>
      rw [hg] at hr
      cases hr
      rfl
  · exact .pure ⟨r.1, r.2, hr, rfl⟩

variable {host : Host ω} {call : Caller}

theorem emit_returns (s : Session) (program : Typed.Program) (opts : CompileOptions) :
    Returns (s.emit program opts : Action ω Answer) fun a => Moves s (.emit program opts) a.1 a.2 := by
  refine .after fun r => ?_
  cases r with
  | error d => exact .pure .refuse
  | ok code =>
    rintro t a t' hrun
    obtain ⟨h, s', hg, rfl⟩ := answerHandle_returns s _ t a t' hrun
    exact .emit hg

theorem build_returns (s : Session) (h : Nat) (opts : Kernel.BuildOptions) :
    Returns (s.build host h opts) fun a => Moves s (.build h opts) a.1 a.2 := by
  rw [build]
  split
  · exact .pure .refuse
  · refine .bind (Kernel.build_returns opts).outcome fun r hr => ?_
    cases r with
    | error d => exact .pure .refuse
    | ok k =>
      rintro t a t' hrun
      obtain ⟨h', s', hg, rfl⟩ := answerHandle_returns _ _ t a t' hrun
      exact .build (hr k rfl).2 hg

theorem newExecution_returns (s : Session) (h : Nat) :
    Returns (s.newExecution h : Action ω Answer) fun a => Moves s (.newExecution h) a.1 a.2 := by
  rw [newExecution]
  split
  · exact .pure .refuse
  · rename_i id k hk
    rintro t a t' hrun
    obtain ⟨h', s', hg, rfl⟩ := answerHandle_returns _ _ t a t' hrun
    exact .newExecution hk hg

theorem load_returns (s : Session) (h : Nat) :
    Returns (s.load host h) fun a => Moves s (.load h) a.1 a.2 := by
  rw [load]
  split
  · exact .pure .refuse
  · rename_i id k hk
    refine .bind (Kernel.load_returns k).outcome fun r hr => ?_
    cases r with
    | error d => exact .pure .refuse
    | ok k' => exact .pure (.load hk (hr k' rfl))

/-- A kernel that has a handle is not loaded after it was unloaded, even if its library was not closed. -/
theorem unload_kernel {id : Nat} {k : Kernel} (hk : s.kernel h = .ok (id, k)) :
    Returns (s.unload host h) fun a => a.2 = s.setKernel id { k with entry := none } := by
  rw [unload, hk]
  refine .bind (Kernel.unload_returns k) fun r hr => ?_
  obtain ⟨k', problem⟩ := r
  cases hr
  exact .pure rfl

theorem unload_returns (s : Session) (h : Nat) :
    Returns (s.unload host h) fun a => Moves s (.unload h) a.1 a.2 := by
  cases hk : s.kernel h with
  | error e =>
    rw [unload, hk]
    exact .pure .refuse
  | ok x =>
    rintro t ⟨r, s'⟩ t' hrun
    cases unload_kernel hk t _ t' hrun
    exact .unload hk

/-- A kernel that has a handle is not loaded after its release, and the handle is forgotten, even if its
files were not removed. -/
theorem releaseKernel_kernel {id : Nat} {k : Kernel} (hk : s.kernel h = .ok (id, k)) :
    Returns (s.releaseKernel host h) fun a => ∃ k' : Kernel, k'.entry = none ∧ k'.formals = k.formals ∧
      a.2 = { s.setKernel id k' with handles := s.handles.remove h } := by
  rw [releaseKernel, hk]
  refine .bind (Kernel.clean_returns k) fun r hr => ?_
  obtain ⟨k', problem⟩ := r
  obtain ⟨h0, hv, -⟩ := kernel_eq_ok hk
  have hforget : (s.setKernel id k').forget h =
      .ok { s.setKernel id k' with handles := s.handles.remove h } := forget_eq h0 hv
  simp only [hforget]
  exact .pure ⟨k', hr.1, hr.2, rfl⟩

theorem releaseKernel_returns (s : Session) (h : Nat) :
    Returns (s.releaseKernel host h) fun a => Moves s (.releaseKernel h) a.1 a.2 := by
  cases hk : s.kernel h with
  | error e =>
    rw [releaseKernel, hk]
    exact .pure .refuse
  | ok x =>
    rintro t ⟨r, s'⟩ t' hrun
    obtain ⟨k', hentry, hformals, hs'⟩ := releaseKernel_kernel hk t _ t' hrun
    cases hs'
    exact .releaseKernel hk hentry hformals

theorem execute_returns (s : Session) (h : Nat) :
    Returns (s.execute call h : Action ω Answer) fun a => Moves s (.execute h) a.1 a.2 := by
  rw [execute]
  split
  · exact .pure .refuse
  · rename_i id k f ids hf
    exact .after fun r => .pure (.execute hf)

theorem setExecution_self {id kernelId : Nat} {e : Execution} (hget : s.executions[id]? = some (kernelId, e)) :
    s.setExecution id e = s := by
  have hsame : s.executions.modify id (fun x => (x.1, e)) = s.executions := by
    refine List.ext_getElem? fun i => ?_
    rw [List.getElem?_modify]
    by_cases hi : id = i
    · subst hi
      simp [hget]
    · simp [hi]
  rw [setExecution, hsame]

theorem bind_moves (s : Session) (h : Nat) (name : String) (b : Buffer) :
    Moves s (.bind h name b) (s.bind h name b).1 (s.bind h name b).2 := by
  rw [bind]
  split
  · exact .refuse
  · rename_i id e k he
    split
    · rename_i e' hok
      exact .bind he hok
    · rename_i d e' hbad
      obtain ⟨-, -, kernelId, hget, -⟩ := execution_eq_ok he
      rw [Execution.attach_error hbad, setExecution_self hget]
      exact .refuse

/-- A change of a session is made, or an error changes nothing. -/
theorem change_moves {c : Call} {r : Except Diagnostic (Reply × Session)}
    (hr : ∀ reply s', r = .ok (reply, s') → Moves s c (.ok reply) s') :
    Moves s c (s.change r).1 (s.change r).2 := by
  cases r with
  | error d => exact .refuse
  | ok x => exact hr x.1 x.2 rfl

theorem mapError_eq_ok {ε ε' β : Type} {x : Except ε β} {f : ε → ε'} {b : β} (h : x.mapError f = .ok b) :
    x = .ok b := by
  cases x with
  | error e => cases h
  | ok a =>
    cases h
    rfl

theorem clear_moves (s : Session) (h : Nat) : Moves s (.clear h) (s.clear h).1 (s.clear h).2 := by
  refine change_moves fun reply s' hr => ?_
  obtain ⟨⟨id, e, k⟩, he, hr⟩ := bind_eq_ok hr
  cases hr
  exact .clear (mapError_eq_ok he)

theorem source_moves (s : Session) (h : Nat) (r : Except Diagnostic (Reply × Session))
    (hr : r = do return (.text (← (s.code h).mapError refused).source, s)) :
    Moves s (.source h) (s.change r).1 (s.change r).2 := by
  refine change_moves fun reply s' hok => ?_
  obtain ⟨c, -, hok⟩ := bind_eq_ok (hr ▸ hok)
  cases hok
  exact .source

theorem releaseCode_code {code : C.Code} (hc : s.code h = .ok code) :
    s.releaseCode h = (.ok .done, { s with handles := s.handles.remove h }) := by
  obtain ⟨h0, hv⟩ := code_eq_ok hc
  rw [releaseCode, hc, forget_eq h0 hv]
  rfl

theorem releaseCode_moves (s : Session) (h : Nat) :
    Moves s (.releaseCode h) (s.releaseCode h).1 (s.releaseCode h).2 := by
  cases hc : s.code h with
  | error e =>
    rw [releaseCode, hc]
    exact .refuse
  | ok code =>
    rw [releaseCode_code hc]
    exact .releaseCode hc

theorem releaseExecution_execution {id : Nat} {e : Execution} {k : Kernel}
    (he : s.execution h = .ok (id, e, k)) : s.releaseExecution h =
      (.ok .done, { s.setExecution id e.clear with handles := s.handles.remove h }) := by
  obtain ⟨h0, hv, -⟩ := execution_eq_ok he
  have hforget : (s.setExecution id e.clear).forget h =
      .ok { s.setExecution id e.clear with handles := s.handles.remove h } := forget_eq h0 hv
  rw [releaseExecution, he]
  show s.change (do return (Reply.done, ← ((s.setExecution id e.clear).forget h).mapError refused)) = _
  rw [hforget]
  rfl

theorem releaseExecution_moves (s : Session) (h : Nat) :
    Moves s (.releaseExecution h) (s.releaseExecution h).1 (s.releaseExecution h).2 := by
  cases he : s.execution h with
  | error e =>
    rw [releaseExecution, he]
    exact .refuse
  | ok x =>
    rw [releaseExecution_execution he]
    exact .releaseExecution he

/-- What a call can do. -/
theorem stepWith_moves (s : Session) (c : Call) :
    Returns (s.stepWith call host c) fun a => Moves s c a.1 a.2 := by
  cases c with
  | emit program opts => exact emit_returns s program opts
  | newCode code =>
    rintro t a t' hrun
    obtain ⟨h, s', hg, rfl⟩ := answerHandle_returns _ _ t a t' hrun
    exact .newCode hg
  | source h => exact .pure (source_moves s h _ rfl)
  | releaseCode h => exact .pure (releaseCode_moves s h)
  | build h opts => exact build_returns s h opts
  | load h => exact load_returns s h
  | unload h => exact unload_returns s h
  | releaseKernel h => exact releaseKernel_returns s h
  | newExecution h => exact newExecution_returns s h
  | bind h name b => exact .pure (bind_moves s h name b)
  | clear h => exact .pure (clear_moves s h)
  | execute h => exact execute_returns s h
  | releaseExecution h => exact .pure (releaseExecution_moves s h)

/-- A call on a handle that is zero, is not live or stands for something else is an error, and changes
neither the session nor the host. -/
theorem stepWith_refused {c : Call} {kind : Kind} (hc : c.subject = some (h, kind)) (hno : ¬ s.Has h kind)
    (t : Stage ω) : ∃ d, s.stepWith call host c t = .ok (.error d, s) t := by
  cases c <;> cases hc
  case source | releaseCode =>
    obtain ⟨e, he⟩ := code_error hno
    exact ⟨_, by simp only [stepWith, releaseCode, he]; rfl⟩
  case build =>
    obtain ⟨e, he⟩ := code_error hno
    exact ⟨_, by simp only [stepWith, build, he]; rfl⟩
  case load | unload | releaseKernel | newExecution =>
    obtain ⟨e, he⟩ := kernel_error hno
    exact ⟨_, by simp only [stepWith, load, unload, releaseKernel, newExecution, he]; rfl⟩
  case bind | clear | releaseExecution =>
    obtain ⟨e, he⟩ := execution_error hno
    exact ⟨_, by simp only [stepWith, bind, clear, releaseExecution, he]; rfl⟩
  case execute =>
    obtain ⟨e, he⟩ := execution_error hno
    exact ⟨_, by simp only [stepWith, execute, foreignCall, he]; rfl⟩

/-- An error of binding a buffer changes neither the session nor the host. -/
theorem stepWith_bind_error {name : String} {b : Buffer} {t t' : Stage ω}
    (hrun : s.stepWith call host (.bind h name b) t = .ok (.error d, s') t') : s' = s ∧ t' = t := by
  obtain ⟨hanswer, rfl⟩ := EStateM.Result.ok.inj hrun
  have hmoves := bind_moves s h name b
  rw [hanswer] at hmoves
  cases hmoves
  exact ⟨rfl, rfl⟩

/-- Only an execution that can be called depends on how entry points are called. -/
theorem stepWith_independent (hc : ∀ h, c = .execute h → ∃ d, s.foreignCall h = .error d)
    (call call' : Caller) (host : Host ω) : s.stepWith call host c = s.stepWith call' host c := by
  cases c with
  | execute h =>
    obtain ⟨d, hd⟩ := hc h rfl
    simp only [stepWith, execute, hd]
  | _ => rfl

theorem stepWith_execute {id : Nat} {k : Kernel} {f : Entry} {ids : List Nat} {call call' : Caller}
    (hf : s.foreignCall h = .ok (id, k, f, ids))
    (hsame : call f k.dtype ids s.buffers = call' f k.dtype ids s.buffers) (host : Host ω) :
    s.stepWith call host (.execute h) = s.stepWith call' host (.execute h) := by
  simp only [stepWith, execute, hf, hsame]

end Session

end LoopNest
