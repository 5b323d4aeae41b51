import LoopNest.IR.Access
import LoopNest.Proofs.Index.Space

/-!
# Subscripts and operand indices, position by position

The index computations of nodes only move indices around. `subscript_rel` and `operandIndices_rel`
say so: related indices have related results. Together with `interleave_remove`, which computes the
operand indices of the shape itself, this says where every operand is accessed.
-/

namespace LoopNest

variable {σ τ : Type _}

theorem interleaveFrom_rel {R : σ → τ → Prop} {axes : List Int} {con : List σ} {con' : List τ}
    (hcon : List.Forall₂ R con con') {n pos : Nat} {free idx rest : List σ} {free' : List τ}
    (hfree : List.Forall₂ R free free')
    (h : interleaveFrom axes con n pos free = some (idx, rest)) :
    ∃ idx' rest', interleaveFrom axes con' n pos free' = some (idx', rest') ∧
      List.Forall₂ R idx idx' ∧ List.Forall₂ R rest rest' := by
  induction n generalizing pos free idx rest free' with
  | zero =>
    simp only [interleaveFrom, Option.some.injEq, Prod.mk.injEq] at h
    obtain ⟨rfl, rfl⟩ := h
    exact ⟨[], free', rfl, .nil, hfree⟩
  | succ n ih =>
    unfold interleaveFrom at h ⊢
    cases hidx : axes.idxOf? (pos : Int) with
    | some t =>
      simp only [hidx, Option.bind_eq_bind, Option.bind_eq_some_iff, Option.some.injEq,
        Prod.exists, Prod.mk.injEq] at h
      obtain ⟨c, hc, idx₁, rest₁, h₁, rfl, rfl⟩ := h
      obtain ⟨c', hc', hr⟩ := forall₂_getElem? hcon hc
      obtain ⟨idx', rest', h₂, hi, hrest⟩ := ih hfree h₁
      exact ⟨c' :: idx', rest', by simp [hc', h₂], .cons hr hi, hrest⟩
    | none =>
      simp only [hidx] at h
      cases hfree with
      | nil => simp at h
      | @cons f f' free free' hf hfree =>
        simp only [Option.bind_eq_bind, Option.bind_eq_some_iff, Option.some.injEq,
          Prod.exists, Prod.mk.injEq] at h
        obtain ⟨idx₁, rest₁, h₁, rfl, rfl⟩ := h
        obtain ⟨idx', rest', h₂, hi, hrest⟩ := ih hfree h₁
        exact ⟨f' :: idx', rest', by simp [h₂], .cons hf hi, hrest⟩

theorem interleaveFrom_remove {axes es : List Int} {rest xs : List Int} {pos : Nat}
    (h : ∀ t i : Nat, axes[t]? = some ((pos + i : Nat) : Int) → i < xs.length → es[t]? = xs[i]?) :
    interleaveFrom axes es xs.length pos (Shape.removeFrom axes pos xs ++ rest) =
      some (xs, rest) := by
  induction xs generalizing pos with
  | nil => rfl
  | cons d xs ih =>
    have hrest : ∀ t i : Nat, axes[t]? = some ((pos + 1 + i : Nat) : Int) → i < xs.length →
        es[t]? = xs[i]? := by
      intro t i ht hi
      have := h t (i + 1) (by rw [ht]; congr 2; omega) (by simpa using hi)
      simpa using this
    have ih' := ih hrest
    unfold interleaveFrom Shape.removeFrom
    cases hidx : axes.idxOf? (pos : Int) with
    | some t =>
      have ht : axes[t]? = some (pos : Int) := by
        rw [List.idxOf?] at hidx
        obtain ⟨hlt, he, _⟩ := List.findIdx?_eq_some_iff_getElem.mp hidx
        rw [List.getElem?_eq_getElem hlt]
        simpa using he
      have hmem : (pos : Int) ∈ axes := List.mem_of_getElem? ht
      have he : es[t]? = some d := by simpa using h t 0 (by simpa using ht) (by simp)
      simp [hidx, he, hmem, ih']
    | none =>
      have hmem : (pos : Int) ∉ axes := List.idxOf?_eq_none_iff.mp hidx
      simp [hidx, hmem, ih']

theorem mapM_getElem? {f : σ → Option τ} {l : List σ} {m : List τ} (h : l.mapM f = some m)
    {i : Nat} {x : σ} (hx : l[i]? = some x) : ∃ y, f x = some y ∧ m[i]? = some y := by
  induction l generalizing m i with
  | nil => simp at hx
  | cons a l ih =>
    simp only [List.mapM_cons, Option.bind_eq_bind, Option.bind_eq_some_iff, Option.pure_def,
      Option.some.injEq] at h
    obtain ⟨b, hb, m', hm, rfl⟩ := h
    cases i with
    | zero =>
      simp only [List.getElem?_cons_zero, Option.some.injEq] at hx
      subst hx
      exact ⟨b, hb, by simp⟩
    | succ i =>
      simp only [List.getElem?_cons_succ] at hx ⊢
      exact ih hm hx

theorem length_mapM {f : σ → Option τ} {l : List σ} {m : List τ} (h : l.mapM f = some m) :
    m.length = l.length := by
  induction l generalizing m with
  | nil => simp_all
  | cons a l ih =>
    simp only [List.mapM_cons, Option.bind_eq_bind, Option.bind_eq_some_iff, Option.pure_def,
      Option.some.injEq] at h
    obtain ⟨b, _, m', hm, rfl⟩ := h
    simp [ih hm]

theorem mapM_eq_some_map {f : σ → Option τ} {g : σ → τ} {l : List σ} (h : ∀ x ∈ l, f x = some (g x)) :
    l.mapM f = some (l.map g) := by
  induction l with
  | nil => rfl
  | cons x l ih =>
    rw [List.mapM_cons, h x (.head _), ih fun y hy => h y (List.mem_cons_of_mem _ hy)]
    rfl

theorem exists_of_mem_mapM {f : σ → Option τ} {l : List σ} {m : List τ} (h : l.mapM f = some m) {y : τ}
    (hy : y ∈ m) : ∃ x ∈ l, f x = some y := by
  obtain ⟨i, hi, rfl⟩ := List.mem_iff_getElem.mp hy
  have hlt : i < l.length := length_mapM h ▸ hi
  obtain ⟨y, hx, heq⟩ := mapM_getElem? h (List.getElem?_eq_getElem hlt)
  rw [List.getElem?_eq_getElem hi, Option.some_inj] at heq
  exact ⟨l[i], List.getElem_mem hlt, heq ▸ hx⟩

/-- The extents of given axes are extents of the shape. -/
theorem mem_of_mapM_at? {axes x es : List Int} (h : axes.mapM (at? x) = some es) {e : Int} (he : e ∈ es) :
    e ∈ x := by
  obtain ⟨_, -, heq⟩ := exists_of_mem_mapM h he
  exact List.mem_of_getElem? (at?_eq_some_iff.mp heq).2

theorem Shape.removeFrom_sublist (axes : List Int) (i : Nat) (s : Shape) :
    (removeFrom axes i s).Sublist s := by
  induction s generalizing i with
  | nil => exact .slnil
  | cons d s ih =>
    rw [removeFrom]
    split
    · exact (ih _).cons d
    · exact (ih _).cons_cons d

theorem Shape.remove_sublist (axes : List Int) (s : Shape) : (s.remove axes).Sublist s :=
  removeFrom_sublist axes 0 s

/-- The index list of an operand, computed from its own shape without the contracted axes and the
lengths of these, is its shape. -/
theorem interleave_remove {axes es : List Int} {x : Shape} (h : axes.mapM (at? x) = some es)
    (rest : List Int) : interleave x.rank axes (x.remove axes ++ rest) es = some (x, rest) := by
  refine interleaveFrom_remove fun t i ht hi => ?_
  obtain ⟨d, hd, he⟩ := mapM_getElem? h ht
  rw [he]
  simpa [at?] using hd.symm

/-- The subscripts of related indices are related. -/
theorem Node.subscript_rel {R : σ → τ → Prop} {n : Node} {fixed : Int → σ} {fixed' : Int → τ}
    (hfixed : List.Forall₂ R (n.fixed.map fixed) (n.fixed.map fixed'))
    {own sub : List σ} {own' : List τ} (hown : List.Forall₂ R own own')
    (h : n.subscript fixed own = some sub) :
    ∃ sub', n.subscript fixed' own' = some sub' ∧ List.Forall₂ R sub sub' :=
  backward_rel (List.rel_append hfixed hown) h

/-- The operand indices of related indices are related. -/
theorem Node.operandIndices_rel {R : σ → τ → Prop} {n : Node} {ranks : List (Option Nat)}
    {res con : List σ} {res' con' : List τ} {ops : List (List σ)} (hres : List.Forall₂ R res res')
    (hcon : List.Forall₂ R con con') (h : n.operandIndices ranks res con = some ops) :
    ∃ ops', n.operandIndices ranks res' con' = some ops' ∧
      List.Forall₂ (List.Forall₂ R) ops ops' := by
  unfold operandIndices at h ⊢
  cases hk : n.kind with
  | add | sub | mul | div =>
    simp only [hk, Option.some.injEq] at h ⊢
    subst h
    exact ⟨_, rfl, .cons hres (.cons hres .nil)⟩
  | scalarMul =>
    simp only [hk, Option.some.injEq] at h ⊢
    subst h
    exact ⟨_, rfl, .cons .nil (.cons hres .nil)⟩
  | scalarDiv =>
    simp only [hk, Option.some.injEq] at h ⊢
    subst h
    exact ⟨_, rfl, .cons hres (.cons .nil .nil)⟩
  | product =>
    simp only [hk, Option.bind_eq_bind, Option.bind_eq_some_iff] at h ⊢
    obtain ⟨split, hs, h⟩ := h
    split at h
    · cases h
      rename_i hle
      rw [hres.length_eq] at hle
      exact ⟨_, ⟨split, hs, if_pos hle⟩,
        .cons (List.forall₂_take _ hres) (.cons (List.forall₂_drop _ hres) .nil)⟩
    · cases h
  | contraction =>
    simp only [hk, Option.bind_eq_bind, Option.bind_eq_some_iff, Prod.exists] at h ⊢
    obtain ⟨r₀, hr₀, lhs, rest, h₁, r₁, hr₁, rhs, rest', h₂, h₃⟩ := h
    cases h₃
    obtain ⟨lhs', rest₁, h₁', hl, hrest⟩ := interleaveFrom_rel hcon hres h₁
    obtain ⟨rhs', rest₂, h₂', hr, _⟩ := interleaveFrom_rel hcon hrest h₂
    exact ⟨_, ⟨r₀, hr₀, lhs', rest₁, h₁', r₁, hr₁, rhs', rest₂, h₂', rfl⟩,
      .cons hl (.cons hr .nil)⟩
  | stack =>
    simp only [hk] at h ⊢
    cases hops : n.operands with
    | nil =>
      simp only [hops, Option.some.injEq] at h ⊢
      subst h
      exact ⟨[], rfl, .nil⟩
    | cons op rest =>
      cases hres with
      | nil => simp [hops] at h
      | cons _ hrest =>
        simp only [hops, Option.some.injEq] at h ⊢
        subst h
        refine ⟨_, rfl, ?_⟩
        rw [List.forall₂_map_left_iff, List.forall₂_map_right_iff, List.forall₂_same]
        exact fun _ _ => hrest
  | transposition =>
    simp only [hk, Option.bind_eq_bind, Option.bind_eq_some_iff, Option.pure_def] at h ⊢
    obtain ⟨idx, h₁, h₂⟩ := h
    cases h₂
    obtain ⟨idx', h₁', hr⟩ := backward_rel hres h₁
    exact ⟨_, ⟨idx', h₁', rfl⟩, .cons hr .nil⟩
  | invalid | identifier | constant | unknown =>
    simp only [hk, Option.some.injEq] at h ⊢
    subst h
    exact ⟨[], rfl, .nil⟩

end LoopNest
