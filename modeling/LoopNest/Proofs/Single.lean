import LoopNest.Proofs.Clause

/-!
# Tensors that are read once

What the passes keep to about the tensors that they add: each of them is read once, except for the
copies of overwritten tensors, and written along its own axes. The copies are not told from the
others by their symbols, so the names that need not be read once are a parameter (`Single`).
-/

namespace LoopNest

/-- Synthesized tensors are read once, unless they are exempt, and no axes are swapped where they are
written. They have no other role. -/
structure Single (exempt : String → Prop) (find : Symbols) (cs : List Clause) : Prop where
  role : ∀ name s, find name = some s → s.role.isSynthesized → s.role = .synthesized
  once : ∀ name s, find name = some s → s.role.isSynthesized → ¬ exempt name →
    (cs.flatMap fun c => c.tree.names).count name = 1
  straight : ∀ c ∈ cs, ∀ s, find c.name = some s → s.role.isSynthesized → c.target.perm = []

theorem Single.mono {exempt exempt' : String → Prop} {find : Symbols} {cs : List Clause}
    (h : Single exempt find cs)
    (hsub : ∀ name s, find name = some s → exempt name → exempt' name) : Single exempt' find cs :=
  ⟨h.role, fun name s hs hsynth hname => h.once name s hs hsynth fun hex => hname (hsub name s hs hex),
    h.straight⟩

/-- Nothing is asked where no tensor is synthesized. -/
theorem Single.of_declared {exempt : String → Prop} {find : Symbols} {cs : List Clause}
    (h : ∀ name s, find name = some s → s.role.isSynthesized = false) : Single exempt find cs := by
  have hnot : ∀ {name s}, find name = some s → s.role.isSynthesized → False := fun hs hsynth => by
    rw [h _ _ hs] at hsynth
    cases hsynth
  exact ⟨fun _ _ hs hsynth => (hnot hs hsynth).elim, fun _ _ hs hsynth => (hnot hs hsynth).elim,
    fun _ _ _ hs hsynth => (hnot hs hsynth).elim⟩

/-- The fixed indices are the first subscripts of every cell of a destination along its own axes. -/
theorem Node.fixed_prefix {n : Node} {sub : List Int} (hperm : n.perm = [])
    (h : (n.own? sub).isSome) : n.fixed <+: sub := by
  obtain ⟨idx, hidx⟩ := Option.isSome_iff_exists.mp h
  have hsub := (own?_eq_some_iff.mp hidx).1
  rw [subscript, hperm, List.map_id] at hsub
  exact ⟨idx, Option.some.inj hsub⟩

/-- Two parts of a synthesized tensor have no cell in common. -/
theorem Apart.disjoint {find : Symbols} {n m : Node} {s : Symbol} (h : Apart find n m)
    (hs : find n.name = some s) (hsynth : s.role.isSynthesized) (hn : n.perm = [])
    (hm : m.perm = []) : n.Disjoint m := by
  intro hname sub
  by_contra hboth
  simp only [not_or, ← ne_eq, Option.ne_none_iff_isSome] at hboth
  obtain ⟨hnm, hmn⟩ := h hname s hs hsynth
  exact (List.prefix_or_prefix_of_prefix (Node.fixed_prefix hn hboth.1)
    (Node.fixed_prefix hm hboth.2)).elim hnm hmn

/-- A synthesized tensor has no definition from a clause on that reads it. -/
theorem Single.name_ne {K : ShapeClass} {exempt : String → Prop} {find : Symbols}
    {l r : List Clause} {c d : Clause} {name : String} {s : Symbol}
    (h : Single exempt find (l ++ c :: r)) (hsound : Sound K find (l ++ c :: r))
    (hread : name ∈ c.tree.names) (hs : find name = some s) (hsynth : s.role.isSynthesized)
    (hd : d ∈ c :: r) : d.name ≠ name := by
  rintro rfl
  -- a cell of the definition was written before
  obtain ⟨s', hs', hviews, -⟩ := (hsound.fits d (by simp [hd])).declared
  cases hs.symm.trans hs'
  obtain ⟨sub, n, hn, -, hown⟩ := (hsound.fits d (by simp [hd])).exists_covers
  rw [List.mem_singleton.mp hn] at hown
  obtain ⟨idx, hidx⟩ := Option.isSome_iff_exists.mp hown
  obtain ⟨hsub, hin⟩ := Node.own?_eq_some_iff.mp hidx
  obtain ⟨sub', hsub', hrange⟩ := hviews.subscript_inRange hin
  cases hsub.symm.trans hsub'
  have hord := (ordered_append.mp hsound.ordered).2.1 d.name hread s hs
  obtain ⟨m, hm, hname, hown'⟩ :=
    hord.resolve_left (by rw [h.role _ s hs hsynth]; decide) sub hrange
  -- but definitions have no cell in common
  obtain ⟨e, he, rfl⟩ : ∃ e ∈ l, e.target = m := by simpa using hm
  have hapart := hsound.apart
  rw [List.map_append] at hapart
  have hsep := (List.pairwise_append.mp hapart).2.2 e.target (List.mem_map_of_mem he) d.target
    (List.mem_map_of_mem hd)
  have hperm : ∀ e ∈ l ++ c :: r, e.name = d.name → e.target.perm = [] := fun e he heq =>
    h.straight e he s (heq ▸ hs) hsynth
  rcases hsep.disjoint (hname ▸ hs) hsynth (hperm e (by simp [he]) hname)
    (hperm d (by simp only [List.mem_append]; exact .inr hd) rfl) hname sub with hnone | hnone
  · simp [hnone] at hown'
  · simp [hnone] at hown

/-- The tensors of other clauses are read once if those of some are. -/
def KeepsSingle (find : Symbols) (cs : List Clause) (find' : Symbols) (cs' : List Clause) : Prop :=
  ∀ exempt, Single exempt find cs → Single exempt find' cs'

theorem KeepsSingle.refl (find : Symbols) (cs : List Clause) : KeepsSingle find cs find cs :=
  fun _ h => h

theorem KeepsSingle.trans {find find₁ find₂ : Symbols} {cs cs₁ cs₂ : List Clause}
    (h : KeepsSingle find cs find₁ cs₁) (h' : KeepsSingle find₁ cs₁ find₂ cs₂) :
    KeepsSingle find cs find₂ cs₂ :=
  fun exempt hs => h' exempt (h exempt hs)

/-- No tensor is added. Those that stay are read as often as before, and what is written is part of
what was written. -/
theorem KeepsSingle.of_count {find find' : Symbols} {cs cs' : List Clause}
    (hfind : ∀ name s, find' name = some s → find name = some s)
    (hcount : ∀ name s, find' name = some s → (cs'.flatMap fun c => c.tree.names).count name =
      (cs.flatMap fun c => c.tree.names).count name)
    (htarget : ∀ c' ∈ cs', ∃ c ∈ cs, c.name = c'.name ∧ c.target.perm = c'.target.perm) :
    KeepsSingle find cs find' cs' := by
  intro exempt h
  refine ⟨fun name s hs => h.role name s (hfind name s hs), fun name s hs hsynth hname => ?_,
    fun c' hc' s hs hsynth => ?_⟩
  · rw [hcount name s hs]
    exact h.once name s (hfind name s hs) hsynth hname
  · obtain ⟨c, hc, hname, hperm⟩ := htarget c' hc'
    rw [← hperm]
    exact h.straight c hc s (hname ▸ hfind _ s hs) hsynth

/-- The clauses around a part that changes stay as they are. -/
theorem KeepsSingle.replace {find find' : Symbols} {l mid mid' r : List Clause}
    (hfind : ∀ name s, find' name = some s → find name = some s)
    (hcount : ∀ name s, find' name = some s → (mid'.flatMap fun c => c.tree.names).count name =
      (mid.flatMap fun c => c.tree.names).count name)
    (htarget : ∀ c' ∈ mid', ∃ c ∈ mid, c.name = c'.name ∧ c.target.perm = c'.target.perm) :
    KeepsSingle find (l ++ (mid ++ r)) find' (l ++ (mid' ++ r)) := by
  refine .of_count hfind (fun name s hs => ?_) fun c' hc' => ?_
  · simp only [List.flatMap_append, List.count_append, hcount name s hs]
  · simp only [List.mem_append] at hc' ⊢
    rcases hc' with hc' | hc' | hc'
    · exact ⟨c', .inl hc', rfl, rfl⟩
    · obtain ⟨c, hc, hsame⟩ := htarget c' hc'
      exact ⟨c, .inr (.inl hc), hsame⟩
    · exact ⟨c', .inr (.inr hc'), rfl, rfl⟩

/-- The tensors that other clauses have in common with some are read once if they were. Tensors that
are added may be read more often. -/
def KeepsOldSingle (find : Symbols) (cs : List Clause) (find' : Symbols) (cs' : List Clause) : Prop :=
  ∀ exempt, Single exempt find cs → Single (fun name => exempt name ∨ find name = none) find' cs'

theorem KeepsOldSingle.refl (find : Symbols) (cs : List Clause) : KeepsOldSingle find cs find cs :=
  fun _ h => h.mono fun _ _ _ => .inl

theorem KeepsOldSingle.trans {find find₁ find₂ : Symbols} {cs cs₁ cs₂ : List Clause}
    (h : KeepsOldSingle find cs find₁ cs₁) (h' : KeepsOldSingle find₁ cs₁ find₂ cs₂)
    (hext : find.Extends find₁) : KeepsOldSingle find cs find₂ cs₂ := by
  intro exempt hs
  refine (h' _ (h exempt hs)).mono fun name _ _ hname => hname.elim id fun hnone => .inr ?_
  cases hs : find name with
  | none => rfl
  | some s =>
    rw [hext name s hs] at hnone
    cases hnone

end LoopNest
