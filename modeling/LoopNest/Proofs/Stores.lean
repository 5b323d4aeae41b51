import LoopNest.Proofs.Accesses
import LoopNest.Proofs.Index.Regrouping

/-!
# Stores that commute

The computation of an element ends with a store to one place (`runElement_store`), and commutes with
every store to a place that it does not access (`store_runElement`). So two elements can be computed
in any order when neither accesses the place of the other (`runElement_comm`). Places are compared by
their positions in memory: subscripts that differ may stand for one position.
-/

namespace LoopNest

namespace OrderedMap

variable {κ : Type _} {ν : Type _} [DecidableEq κ] {k k' : κ} {f g : ν → Option ν}

/-- Changes of different keys can be made in either order, and so can those of one value that
commute. -/
theorem change?_comm (m : OrderedMap κ ν)
    (h : k = k' → ∀ v, m.get? k = some v → (f v).bind g = (g v).bind f) :
    (m.change? k f).bind (·.change? k' g) = (m.change? k' g).bind (·.change? k f) := by
  obtain ⟨entries⟩ := m
  suffices H : (changeIn? k f entries).bind (changeIn? k' g) =
      (changeIn? k' g entries).bind (changeIn? k f) by
    simpa only [change?, Option.bind_map, Option.map_bind, Function.comp_def] using
      congrArg (Option.map OrderedMap.mk) H
  simp only [get?] at h
  induction entries with
  | nil => rfl
  | cons e rest ih =>
    obtain ⟨key, v⟩ := e
    have hrest : key ≠ k → (changeIn? k f rest).bind (changeIn? k' g) =
        (changeIn? k' g rest).bind (changeIn? k f) := fun hk => ih fun heq v hv => h heq v (by
      simpa [List.find?_cons, hk] using hv)
    by_cases hk : key = k
    · subst hk
      by_cases hk' : key = k'
      · subst hk'
        simpa only [changeIn?, if_true, Option.bind_map, Option.map_bind, Function.comp_def] using
          congrArg (Option.map fun v => (key, v) :: rest) (h rfl v (by simp))
      · simp only [changeIn?, if_true, if_neg hk', Option.bind_map, Function.comp_def]
        cases f v <;> cases changeIn? k' g rest <;> rfl
    · by_cases hk' : key = k'
      · subst hk'
        simp only [changeIn?, if_true, if_neg hk, Option.bind_map, Function.comp_def]
        cases g v <;> cases changeIn? k f rest <;> rfl
      · simpa only [changeIn?, if_neg hk, if_neg hk', Option.bind_map, Option.map_bind,
          Function.comp_def] using congrArg (Option.map ((key, v) :: ·)) (hrest hk)

/-- Two changes of one value are one change. -/
theorem change?_change? (m : OrderedMap κ ν) :
    (m.change? k f).bind (·.change? k g) = m.change? k fun v => (f v).bind g := by
  obtain ⟨entries⟩ := m
  suffices H : (changeIn? k f entries).bind (changeIn? k g) =
      changeIn? k (fun v => (f v).bind g) entries by
    simpa only [change?, Option.bind_map, Option.map_bind, Function.comp_def] using
      congrArg (Option.map OrderedMap.mk) H
  induction entries with
  | nil => rfl
  | cons e rest ih =>
    obtain ⟨key, v⟩ := e
    by_cases hk : key = k
    · simp only [changeIn?, if_pos hk, Option.bind_map, Option.map_bind, Function.comp_def]
    · simpa only [changeIn?, if_neg hk, Option.bind_map, Option.map_bind, Function.comp_def] using
        congrArg (Option.map ((key, v) :: ·)) ih

theorem change?_congr {m : OrderedMap κ ν} (h : ∀ v, m.get? k = some v → f v = g v) :
    m.change? k f = m.change? k g := by
  obtain ⟨entries⟩ := m
  refine congrArg (Option.map OrderedMap.mk) ?_
  simp only [get?] at h
  induction entries with
  | nil => rfl
  | cons e rest ih =>
    obtain ⟨key, v⟩ := e
    by_cases hk : key = k
    · rw [changeIn?, changeIn?, if_pos hk, if_pos hk, h v (by simp [hk])]
    · rw [changeIn?, changeIn?, if_neg hk, if_neg hk, ih fun v hv => h v (by
        simpa [List.find?_cons, hk] using hv)]

end OrderedMap

variable {α : Type}

/-! ## Tensors -/

namespace Tensor

variable {t : Tensor α} {sub sub' : List Int}

/-- The position of a subscript in the data, if it has one. -/
def position? (t : Tensor α) (sub : List Int) : Option Nat :=
  (t.offset sub).bind fun o => if 0 ≤ o ∧ o < t.data.size then some o.toNat else none

theorem position?_ne (h : t.offset sub ≠ t.offset sub') {i j : Nat} (hi : t.position? sub = some i)
    (hj : t.position? sub' = some j) : i ≠ j := by
  simp only [position?, Option.bind_eq_some_iff, Option.ite_none_right_eq_some,
    Option.some.injEq] at hi hj
  obtain ⟨o, ho, hb, rfl⟩ := hi
  obtain ⟨o', ho', hb', rfl⟩ := hj
  intro heq
  exact h (by rw [ho, ho', show o = o' by omega])

/-- The tensor with another element at a position. -/
def setAt (t : Tensor α) (v : α) (i : Nat) : Tensor α :=
  { t with data := t.data.setIfInBounds i v }

theorem set?_eq (t : Tensor α) (sub : List Int) (v : α) :
    t.set? sub v = (t.position? sub).map (t.setAt v) := by
  rw [set?, position?, Option.bind_eq_bind, Option.map_bind]
  refine Option.bind_congr fun o _ => ?_
  rw [Function.comp_apply, apply_ite (Option.map _)]
  rfl

theorem position?_setAt (t : Tensor α) (v : α) (i : Nat) (sub : List Int) :
    (t.setAt v i).position? sub = t.position? sub := by
  rw [position?, position?, setAt, Array.size_setIfInBounds]
  rfl

/-- Stores at different positions can be made in either order. -/
theorem set?_comm (h : t.offset sub ≠ t.offset sub') (v w : α) :
    (t.set? sub v).bind (·.set? sub' w) = (t.set? sub' w).bind (·.set? sub v) := by
  simp only [set?_eq, Option.bind_map, Function.comp_def, position?_setAt]
  cases hi : t.position? sub with
  | none => cases t.position? sub' <;> rfl
  | some i =>
    cases hj : t.position? sub' with
    | none => rfl
    | some j =>
      simp only [Option.bind_some, Option.map_some, setAt,
        Array.setIfInBounds_comm v w (position?_ne h hi hj)]

/-- Of two stores at one position the second one counts. -/
theorem set?_set? (t : Tensor α) (sub : List Int) (v w : α) :
    (t.set? sub v).bind (·.set? sub w) = t.set? sub w := by
  simp only [set?_eq, Option.bind_map, Function.comp_def, position?_setAt]
  cases t.position? sub with
  | none => rfl
  | some i => simp only [Option.bind_some, Option.map_some, setAt, Array.setIfInBounds_setIfInBounds]

end Tensor

/-! ## Memories -/

variable {S : Shapes} {mem mem' : Memory α}

/-- Subscripts of declared tensors that stand for different elements. -/
def Separate (S : Shapes) (a b : String × List Int) : Prop :=
  a.1 = b.1 → ∃ stored, S a.1 = some stored ∧ rowMajor stored a.2 ≠ rowMajor stored b.2

theorem Separate.symm {a b : String × List Int} (h : Separate S a b) : Separate S b a := by
  intro heq
  obtain ⟨stored, hS, hne⟩ := h heq.symm
  exact ⟨stored, heq ▸ hS, hne.symm⟩

/-- Stores an element. -/
def Memory.put? (place : String × List Int) (v : α) (mem : Memory α) : Option (Memory α) :=
  mem.change? place.1 (·.set? place.2 v)

theorem storeAt_eq_put? {n : Node} {idx sub : List Int} (hsub : n.subscript id idx = some sub) (v : α)
    (mem : Memory α) : storeAt mem n idx v = mem.put? (n.name, sub) v := by
  rw [storeAt, hsub]
  rfl

namespace Memory

variable {a b : String × List Int}

theorem put?_comm (h : Separate S a b) (v w : α) :
    CommuteOn (Formed S) (put? a v) (put? b w : Memory α → Option (Memory α)) := by
  intro mem hmem
  refine OrderedMap.change?_comm mem fun heq t ht => Tensor.set?_comm ?_ v w
  obtain ⟨stored, hS, hne⟩ := h heq
  obtain ⟨t', ht', hdims, -⟩ := hmem a.1 stored hS
  cases ht.symm.trans ht'
  rwa [Tensor.offset, Tensor.offset, hdims]

/-- A store commutes with one of a value that it does not change. -/
theorem put?_comm_bind (h : Separate S a b) (v : α) {value : Memory α → Option α}
    (hvalue : ∀ mem mem' : Memory α, mem.Formed S → mem.put? a v = some mem' →
      value mem' = value mem) :
    CommuteOn (Formed S) (put? a v) fun mem => (value mem).bind fun w => mem.put? b w := by
  intro mem hmem
  have heq : (mem.put? a v).bind (fun mem' => (value mem').bind fun w => mem'.put? b w) =
      (mem.put? a v).bind fun mem' => (value mem).bind fun w => mem'.put? b w :=
    Option.bind_congr fun mem' hput => by rw [hvalue mem mem' hmem hput]
  show (mem.put? a v).bind _ = ((value mem).bind _).bind _
  rw [heq]
  cases value mem with
  | none => cases mem.put? a v <;> rfl
  | some w => exact put?_comm h v w mem hmem

theorem put?_put? (a : String × List Int) (v w : α) (mem : Memory α) :
    (mem.put? a v).bind (put? a w) = mem.put? a w := by
  rw [put?, show (put? a w : Memory α → _) = (·.change? a.1 (·.set? a.2 w)) from rfl,
    OrderedMap.change?_change?]
  simp only [Tensor.set?_set?]

/-- A store leaves the other elements as they are. -/
theorem cellsOf_put? (hmem : mem.Formed S) (h : Separate S b a) {v : α} (hput : mem.put? a v = some mem') :
    cellsOf mem' b.1 b.2 = cellsOf mem b.1 b.2 := by
  rcases mem.change?_cases a.1 (·.set? a.2 v) with
    ⟨hnone, -⟩ | ⟨t, t', mem₁, ht, hset, hsome, -, hget⟩
  · rw [put?, hnone] at hput
    cases hput
  · rw [put?, hsome] at hput
    cases hput
    rw [cellsOf, cellsOf, hget]
    by_cases heq : b.1 = a.1
    · obtain ⟨stored, hS, hne⟩ := h heq
      obtain ⟨u, hu, hdims, -⟩ := hmem b.1 stored hS
      rw [heq, ht] at hu
      cases hu
      rw [if_pos heq, heq, ht, Option.bind_eq_bind, Option.bind_some, Option.bind_some,
        Tensor.get?_set? hset, if_neg]
      rwa [Tensor.offset, Tensor.offset, hdims]
    · rw [if_neg heq]

end Memory

/-! ## Elements -/

variable [Scalar α] {C : Node → Prop} {dst : Node} {expr : Tree} {result sub : List Int}

/-- The element of a destination at an index of the result, with its subscript, and the expression
that computes it. -/
structure Element (C : Node → Prop) (S : Shapes) (dst : Node) (expr : Tree) (result sub : List Int) :
    Prop where
  declared : ∃ stored, S dst.name = some stored
  subscript : dst.subscript id result = some sub
  indexed : expr.Indexed C S result

/-- The places that the computation of an element accesses. -/
def placesOf {τ : Type} (fixed : Int → τ) (dst : Node) (expr : Tree) (result sub : List τ) :
    List (String × List τ) :=
  (dst.name, sub) :: (expr.loads fixed result 0).map Load.place

/-- The places at indices of one type are those at indices of another one, under a map. -/
theorem Tree.Indexed.placesOf_map {σ τ : Type} {t : Tree} {idx : List τ} (h : t.Indexed C S idx)
    (fixed : Int → τ) (dst : Node) (sub : List τ) (g : τ → σ) :
    placesOf (g ∘ fixed) dst t (idx.map g) (sub.map g) =
      (placesOf fixed dst t idx sub).map fun b => (b.1, b.2.map g) := by
  rw [placesOf, placesOf, h.loads_map, List.map_cons, List.map_map, List.map_map]
  rfl

theorem Tree.Indexed.eval_put? {t : Tree} {idx : List Int} (h : t.Indexed C S idx) (next : Nat)
    {a : String × List Int} (hsep : ∀ l ∈ t.loads id idx next, Separate S l.place a)
    (hmem : mem.Formed S) {v : α} (hput : mem.put? a v = some mem') :
    t.eval (cellsOf mem') idx = t.eval (cellsOf mem) idx :=
  h.eval_congr_loads next fun l hl => Memory.cellsOf_put? hmem (hsep l hl) hput

namespace Element

variable (h : Element C S dst expr result sub)
include h

omit [Scalar α] in
theorem storeAt_eq (v : α) (mem : Memory α) :
    storeAt mem dst result v = mem.put? (dst.name, sub) v := storeAt_eq_put? h.subscript v mem

theorem runElement_of_ne {i : NodeId} {n : Node} {ts : List Tree} (hk : n.kind ≠ .contraction)
    (mem : Memory α) : Program.runElement dst (.node i n ts) result mem =
      ((Tree.node i n ts).eval (cellsOf mem) result).bind fun v => mem.put? (dst.name, sub) v := by
  rw [Program.runElement, if_neg hk]
  simp only [h.storeAt_eq]
  rfl

theorem accumulate_eq {n : Node} {t₀ t₁ : Tree} {k i₀ i₁ : List Int}
    (hops : n.operandIndices ([t₀, t₁].map Tree.rank?) result k = some [i₀, i₁]) (mem : Memory α) :
    n.accumulate dst [t₀, t₁] result k mem =
      ((t₀.eval (cellsOf mem) i₀).bind fun x => (t₁.eval (cellsOf mem) i₁).bind fun y =>
        (cellsOf mem dst.name sub).map (· + x * y)).bind fun v => mem.put? (dst.name, sub) v := by
  simp only [Node.accumulate, Tree.evalAll_eq_map, Tree.termWith_eq hops, loadAt, h.subscript,
    h.storeAt_eq, Option.bind_eq_bind, Option.bind_some, Option.bind_assoc, Option.bind_map]
  rfl

/-- An element is computed and stored when all places that it accesses are there. -/
theorem runElement_isSome_iff (hmem : mem.Formed S) :
    (Program.runElement dst expr result mem).isSome ↔
      ∀ b ∈ placesOf id dst expr result sub, (Event.load b.1 b.2).Allocated S := by
  obtain ⟨stored, hS⟩ := h.declared
  rw [LoopNest.runElement_isSome_iff hS h.subscript h.indexed hmem, placesOf, List.forall_mem_cons,
    List.forall_mem_map]
  cases expr with
  | missing => cases h.indexed.typed
  | node i n ts => exact forall_elementSteps Iff.rfl

/-- A memory keeps its form when an element is computed. -/
theorem formed (hmem : mem.Formed S) (hrun : Program.runElement dst expr result mem = some mem') :
    mem'.Formed S := by
  obtain ⟨stored, hS⟩ := h.declared
  exact hmem.runElement hS hrun

/-- An element ends with a store to its own place. -/
theorem runElement_put? (hrun : Program.runElement dst expr result mem = some mem') :
    ∃ v, mem.put? (dst.name, sub) v = some mem' := by
  cases expr with
  | missing => cases hrun
  | node i n ts =>
    by_cases hk : n.kind = .contraction
    · obtain ⟨t₀, t₁, es, rfl, hes, -, -⟩ := h.indexed.contraction hk
      rw [Program.runElement_contraction hk hes, Option.bind_eq_some_iff] at hrun
      obtain ⟨mem₁, hstore, hloop⟩ := hrun
      rw [h.storeAt_eq] at hstore
      -- each addition overwrites the sum so far
      refine foldlM_preserves (fun m => ∃ v, mem.put? (dst.name, sub) v = some m) ⟨0, hstore⟩
        (fun m k _ hm m' hadd => ?_) hloop
      obtain ⟨v, hv⟩ := hm
      simp only [Node.accumulate, h.storeAt_eq, Option.bind_eq_bind, Option.bind_eq_some_iff] at hadd
      obtain ⟨x, -, sum, -, hadd⟩ := hadd
      refine ⟨sum + x, ?_⟩
      rw [← Memory.put?_put? _ v, hv]
      exact hadd
    · rw [h.runElement_of_ne hk, Option.bind_eq_some_iff] at hrun
      obtain ⟨v, -, hstore⟩ := hrun
      exact ⟨v, hstore⟩

/-- An element commutes with a store to a place that it does not access. -/
theorem put?_runElement {a : String × List Int}
    (hsep : ∀ b ∈ placesOf id dst expr result sub, Separate S b a) (v : α) :
    CommuteOn (Memory.Formed S) (Memory.put? a v) (Program.runElement dst expr result) := by
  rw [placesOf, List.forall_mem_cons, List.forall_mem_map] at hsep
  obtain ⟨hdst, hloads⟩ := hsep
  obtain ⟨stored, hS⟩ := h.declared
  cases expr with
  | missing => cases h.indexed.typed
  | node i n ts =>
    by_cases hk : n.kind = .contraction
    · obtain ⟨t₀, t₁, es, rfl, hes, -, hpair⟩ := h.indexed.contraction hk
      have hadd : ∀ k ∈ visits es,
          CommuteOn (Memory.Formed S) (Memory.put? a v) (n.accumulate dst [t₀, t₁] result k) := by
        intro k hk'
        obtain ⟨i₀, i₁, hops, h₀, h₁⟩ := hpair k (length_of_mem_visits hk')
        have hall : ∀ l ∈ t₀.loads id i₀ (0 + n.lhsAxes.length) ++
            t₁.loads id i₁ (0 + n.lhsAxes.length + t₀.sums), Separate S l.place a := by
          intro l hl
          refine hloads (l.within 0 k) ?_
          rw [Tree.loads_contraction hk hes, List.mem_flatMap]
          refine ⟨k, hk', List.mem_map_of_mem ?_⟩
          rwa [List.map_id, hops, Option.getD_some, Tree.loadsOperands_pair]
        rw [List.forall_mem_append] at hall
        simp only [funext (h.accumulate_eq hops)]
        refine Memory.put?_comm_bind hdst.symm v fun mem mem' hmem hput => ?_
        rw [h₀.eval_put? _ hall.1 hmem hput, h₁.eval_put? _ hall.2 hmem hput,
          Memory.cellsOf_put? (b := (dst.name, sub)) hmem hdst hput]
      simp only [funext (Program.runElement_contraction hk hes), h.storeAt_eq]
      exact .bind (fun mem hmem mem' hput => hmem.storeAt hS (h.storeAt_eq 0 mem ▸ hput))
        (Memory.put?_comm hdst.symm v 0)
        (.foldlM (fun k _ mem hmem mem' hrun => hmem.accumulate hS hrun) hadd)
    · simp only [funext (h.runElement_of_ne hk)]
      exact Memory.put?_comm_bind hdst.symm v fun mem mem' hmem hput =>
        h.indexed.eval_put? 0 hloads hmem hput

/-- Two elements can be computed in either order when neither accesses the place of the other. -/
theorem runElement_comm {dst' : Node} {expr' : Tree} {result' sub' : List Int}
    (h' : Element C S dst' expr' result' sub')
    (hsep : ∀ b ∈ placesOf id dst expr result sub, Separate S b (dst'.name, sub'))
    (hsep' : ∀ b ∈ placesOf id dst' expr' result' sub', Separate S b (dst.name, sub)) :
    CommuteOn (Memory.Formed S) (Program.runElement dst expr result)
      (Program.runElement dst' expr' result' : Memory α → Option (Memory α)) := by
  intro mem hmem
  cases hrun : Program.runElement dst expr result mem with
  | none =>
    cases hrun' : Program.runElement dst' expr' result' mem with
    | none => rfl
    | some mem' =>
      obtain ⟨w, hput'⟩ := h'.runElement_put? hrun'
      have := h.put?_runElement hsep w mem hmem
      rw [hput', hrun] at this
      exact this.symm
  | some mem₁ =>
    obtain ⟨v, hput⟩ := h.runElement_put? hrun
    have hcomm := h'.put?_runElement hsep' v mem hmem
    rw [hput] at hcomm
    rw [Option.bind_some] at hcomm ⊢
    rw [hcomm]
    cases hrun' : Program.runElement dst' expr' result' mem with
    | none => rfl
    | some mem₂ =>
      obtain ⟨w, hput'⟩ := h'.runElement_put? hrun'
      have hcomm' := h.put?_runElement hsep w mem hmem
      have hstores := Memory.put?_comm (hsep' _ (.head _)).symm v w mem hmem
      rw [hput'] at hcomm' hstores
      rw [hrun] at hcomm'
      rw [hput] at hstores
      rw [Option.bind_some] at hcomm' hstores ⊢
      rw [Option.bind_some, hcomm']
      exact hstores.symm

end Element

end LoopNest
