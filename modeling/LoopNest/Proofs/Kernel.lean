import LoopNest.Kernel.Basic

/-!
# Kernels on a host

What the operations on kernels give, whatever the host does.
-/

namespace LoopNest

namespace Action

variable {ω β γ : Type} {m : Action ω β}

/-- What an action gives satisfies `Q`. -/
def Returns (m : Action ω β) (Q : β → Prop) : Prop := ∀ s b s', m s = .ok b s' → Q b

namespace Returns

variable {P Q : β → Prop}

theorem bind {f : β → Action ω γ} {Q : γ → Prop} (hm : Returns m P) (hf : ∀ b, P b → Returns (f b) Q) :
    Returns (m >>= f) Q := by
  intro s c s' hrun
  change EStateM.bind m f s = .ok c s' at hrun
  cases hb : m s with
  | ok b s₁ =>
    simp only [EStateM.bind, hb] at hrun
    exact hf b (hm s b s₁ hb) s₁ c s' hrun
  | error e s₁ =>
    simp only [EStateM.bind, hb] at hrun
    cases hrun

/-- An action of which only the effect counts. -/
theorem after {f : β → Action ω γ} {Q : γ → Prop} (hf : ∀ b, Returns (f b) Q) : Returns (m >>= f) Q :=
  bind (fun _ _ _ _ => trivial) fun b _ => hf b

theorem pure {b : β} (h : Q b) : Returns (pure b : Action ω β) Q := by
  rintro s _ _ ⟨⟩
  exact h

theorem fail (d : Diagnostic) : Returns (Action.fail d : Action ω β) Q := by
  rintro s _ _ ⟨⟩

theorem outcome (h : Returns m Q) : Returns (Action.outcome m) fun r => ∀ b, r = .ok b → Q b := by
  rintro s r s' hrun b rfl
  rw [Action.outcome] at hrun
  split at hrun
  · rename_i hm
    cases hrun
    exact h _ _ _ hm
  all_goals cases hrun

theorem ofExcept {r : Except Failure β} (h : ∀ b, r = .ok b → Q b) :
    Returns (Action.ofExcept r : Action ω β) Q := by
  cases r with
  | ok b => exact pure (h b rfl)
  | error e => rintro s _ _ ⟨⟩

end Returns

end Action

namespace Kernel

variable {ω : Type} {host : Host ω} {code : C.Code}

open LoopNest.Action (Returns)

/-- A kernel that is loaded keeps its arguments. -/
theorem load_returns (k : Kernel) : Returns (k.load host) (·.formals = k.formals) := by
  rw [load]
  split
  · exact .pure rfl
  · exact .after fun f => .after fun _ => .pure rfl

theorem unload_returns (k : Kernel) : Returns (k.unload host) (·.1 = { k with entry := none }) := by
  rw [unload]
  split
  · rename_i hloaded
    refine .pure ?_
    have hnone : k.entry = none := by simpa [isLoaded] using hloaded
    show k = { k with entry := none }
    rw [← hnone]
  · exact .after fun e => .after fun _ => .pure rfl

/-- A kernel that is cleaned up is not loaded, and keeps its arguments. -/
theorem clean_returns (k : Kernel) :
    Returns (k.clean host) fun r => r.1.entry = none ∧ r.1.formals = k.formals := by
  refine (unload_returns k).bind fun r hr => ?_
  obtain ⟨k', e⟩ := r
  cases hr
  show Returns (if _ then _ else _) _
  split
  · exact .pure ⟨rfl, rfl⟩
  · exact .after fun _ => .pure ⟨rfl, rfl⟩

/-- A kernel that is built has the arguments of its code, and is not loaded. -/
theorem build_returns (opts : BuildOptions) : Returns (build host code opts) fun k =>
    k.formals = code.formals.map Manifest.Formal.ofCode ∧ k.entry = none := by
  refine .after fun n => .after fun _ => .after fun _ => .after fun s => ?_
  split
  · refine .after fun _ => .after fun _ => .pure ⟨?_, rfl⟩
    cases hformals : code.formals with
    | nil => simp [formals, Manifest.arguments, Manifest.ofCode, hformals]
    | cons => simp [formals, Manifest.arguments, Manifest.ofCode, hformals]
  · exact .after fun _ => .after fun r => .fail _

end Kernel

end LoopNest
