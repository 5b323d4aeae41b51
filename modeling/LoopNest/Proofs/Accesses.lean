import LoopNest.Proofs.Acceptance
import LoopNest.Proofs.Determinacy
import LoopNest.Proofs.Safety
import LoopNest.Proofs.Tree.Loads

/-!
# What an element accesses

`elementSteps` lists what the computation of one element of an assignment does: the loads of the
expression, each with the values of the contracted indices around it, and the accesses of the
destination. The interpreter follows this list (`runElementTraced_follows`). The accesses that are
listed by name for the assignment, with values in place of the names, are what is loaded and stored
(`Program.Accepted.accesses_faithful`).
-/

namespace LoopNest

/-! ## Computations that follow a list of events -/

namespace Traced

variable {β γ σ : Type}

/-- What happens in a computation is what is listed; if it fails, the first part of it. -/
def Follows (x : Traced β) (es : List Event) : Prop :=
  match x.result with
  | .ok _ => x.events = es
  | .error _ => x.events <+: es

namespace Follows

variable {x : Traced β} {es es' : List Event}

theorem pure (b : β) : Follows (pure b) [] := rfl

theorem access (e : Event) (o : Option β) : Follows (access e o) [e] := by
  cases o with
  | none => exact List.prefix_rfl
  | some b => rfl

theorem bind (hx : Follows x es) {f : β → Traced γ} (hf : ∀ b, Follows (f b) es') :
    Follows (x >>= f) (es ++ es') := by
  obtain ⟨result, events⟩ := x
  cases result with
  | error e => exact List.IsPrefix.trans hx (List.prefix_append es es')
  | ok b =>
    obtain rfl : events = es := hx
    have hb := hf b
    show match (f b).result with
      | .ok _ => events ++ (f b).events = events ++ es'
      | .error _ => events ++ (f b).events <+: events ++ es'
    rw [Follows] at hb
    cases hresult : (f b).result with
    | ok c =>
      rw [hresult] at hb
      exact congrArg (events ++ ·) hb
    | error e =>
      rw [hresult] at hb
      exact (List.prefix_append_right_inj events).mpr hb

theorem loop {f : Int → σ → Traced σ} {es : Int → List Event} (n : Nat) (start : Int)
    (h : ∀ i s, start ≤ i → i < start + n → Follows (f i s) (es i)) (s : σ) :
    Follows (loop n start f s) ((List.range n).flatMap fun (i : Nat) => es (start + i)) := by
  induction n generalizing start s with
  | zero => exact .pure s
  | succ n ih =>
    rw [List.range_succ_eq_map, List.flatMap_cons, List.flatMap_map, Int.natCast_zero, Int.add_zero]
    refine (h start s (Int.le_refl _) (by omega)).bind fun s => ?_
    have hnext : ∀ i : Nat, start + ↑i.succ = start + 1 + i := by omega
    simp only [hnext]
    exact ih (start + 1) (fun i s lo hi => h i s (by omega) (by omega)) s

theorem forEachFrom {dims : List Int} {f : List Int → σ → Traced σ} {es : List Int → List Event}
    (h : ∀ k ∈ indices (dims.map (max 1)), ∀ s, Follows (f k s) (es k)) (s : σ) :
    Follows (forEachFrom dims f s) ((indices (dims.map (max 1))).flatMap es) := by
  induction dims generalizing f es s with
  | nil =>
    rw [List.map_nil, indices, List.flatMap_cons, List.flatMap_nil, List.append_nil]
    exact h [] (by simp [indices]) s
  | cons d dims ih =>
    have hd : (max 1 d).toNat = max 1 d.toNat := by omega
    rw [List.map_cons, indices, List.flatMap_assoc, hd]
    simp only [List.flatMap_map]
    have hloop := loop (max 1 d.toNat) 0 (fun i s lo hi => ih (fun k hk s => h (i :: k) (by
        rw [mem_indices] at hk ⊢
        exact .cons lo (by omega) hk) s) s) s
    simp only [Int.zero_add] at hloop
    exact hloop

theorem forEach {dims : List Int} {f : List Int → σ → Traced σ} {es : List Int → List Event}
    (h : ∀ k ∈ visits dims, ∀ s, Follows (f k s) (es k)) (s : σ) :
    Follows (forEach dims f s) ((visits dims).flatMap es) := by
  unfold Traced.forEach
  by_cases h0 : 0 ∈ dims
  · rw [if_pos (List.contains_iff_mem.mpr h0), visits, if_pos h0]
    exact .pure s
  · rw [visits, if_neg h0] at *
    rw [if_neg (by simpa using h0)]
    exact forEachFrom h s

end Follows

end Traced

open Traced (Follows demand demand_bind)

variable {α : Type} [Scalar α] {C : Node → Prop} {S : Shapes} {cells : Cells α}

/-! ## Expressions -/

/-- The event of a load. -/
def Load.event (l : Load Int) : Event := .load l.name l.sub

namespace Tree

/-- The product of two operands is computed after their loads. -/
theorem termTraced_follows {n : Node} {t₀ t₁ : Tree} {idx k i₀ i₁ : List Int}
    {l₀ l₁ : List Event} (hops : n.operandIndices ([t₀, t₁].map Tree.rank?) idx k = some [i₀, i₁])
    (h₀ : Follows (t₀.evalTraced cells i₀) l₀) (h₁ : Follows (t₁.evalTraced cells i₁) l₁) :
    Follows (n.termTraced [t₀, t₁] (evalAllTraced cells [t₀, t₁]) idx k) (l₀ ++ l₁) := by
  rw [Node.termTraced, demand_bind hops]
  refine h₀.bind fun x => ?_
  rw [← List.append_nil l₁]
  exact h₁.bind fun y => .pure _

/-- The evaluation of an expression loads what is listed. -/
theorem Indexed.evalTraced_follows {t : Tree} {idx : List Int} (h : t.Indexed C S idx)
    (next : Nat) : Follows (t.evalTraced cells idx) ((t.loads id idx next).map Load.event) := by
  refine h.inductionOn
    (motive := fun t idx => ∀ next,
      Follows (t.evalTraced cells idx) ((t.loads id idx next).map Load.event))
    id ?_ ?_ ?_ ?_ ?_ next
  · intro i n stored idx sub hk _ _ _ hsub next
    rw [loads_ident hk hsub, evalTraced]
    simp only [Node.evalTraced, hk]
    rw [loadTraced, demand_bind hsub]
    exact .access _ _
  · intro i n idx hk next
    rw [loads_constant hk, evalTraced]
    simp only [Node.evalTraced, hk]
    exact .pure _
  · intro i n t₀ t₁ idx i₀ i₁ op hop hops h₀ h₁ next
    rw [loads_arith hop hops, evalTraced, Node.evalTraced_arith hop, demand_bind hops,
      List.map_append, ← List.append_nil (List.map _ (t₁.loads _ _ _))]
    exact (h₀ _).bind fun x => (h₁ _).bind fun y => .pure _
  · intro i n t₀ t₁ es idx hk hes _ hops next
    rw [loads_contraction hk hes, evalTraced, List.map_flatMap]
    simp only [Node.evalTraced, hk]
    rw [demand_bind hes]
    refine .forEach (fun k hk sum => ?_) 0
    obtain ⟨i₀, i₁, h, h₀, h₁⟩ := hops k (by simpa using length_of_mem_visits hk)
    rw [List.map_id, h, Option.getD_some, loadsOperands_pair, List.map_map,
      ← List.append_nil (List.map _ _), List.map_append]
    exact (termTraced_follows h (h₀ _) (h₁ _)).bind fun x => .pure _
  · intro i n t idx i' hk hi h next
    rw [loads_transposition hk hi, evalTraced]
    simp only [Node.evalTraced, hk]
    show Follows (demand (backward n.pairs idx) >>= _) _
    rw [demand_bind hi]
    exact h _

end Tree

/-! ## Elements -/

/-- What the computation of an element does. -/
inductive ElementStep where
  /-- A load of the expression. -/
  | load (l : Load Int)
  /-- The sum so far is loaded from the destination. -/
  | resume
  /-- The destination is stored to. -/
  | store

namespace ElementStep

/-- The event of a step, given the element of the destination. -/
def event (name : String) (sub : List Int) : ElementStep → Event
  | .load l => l.event
  | .resume => .load name sub
  | .store => .store name sub

/-- The element that the expression loads at given values of the contracted indices. -/
def loadAt? (κ : Nat → Int) : ElementStep → Option (String × List Int)
  | .load l => if l.isAt κ then some l.place else none
  | _ => none

theorem filterMap_loadAt? (κ : Nat → Int) (ls : List (Load Int)) :
    (ls.map load).filterMap (loadAt? κ) = (ls.filter (·.isAt κ)).map Load.place := by
  rw [List.filterMap_map, ← List.filterMap_eq_map, List.filterMap_filter]
  exact congrArg (List.filterMap · ls) (funext fun l => by simp [loadAt?])

end ElementStep

/-- What the computation of an element does, in order: a contraction at the root accumulates in the
destination, any other expression is evaluated first. -/
def elementSteps (expr : Tree) (result : List Int) : List ElementStep :=
  match expr with
  | .missing => []
  | .node i n ts =>
    if n.kind = .contraction then
      .store :: (visits ((n.contractedExtents ts).getD [])).flatMap fun k =>
        ((Tree.loadsOperands id ts
          ((n.operandIndices (ts.map Tree.rank?) result k).getD []) n.lhsAxes.length).map
            fun l => ElementStep.load (l.within 0 k)) ++ [.resume, .store]
    else ((Tree.node i n ts).loads id result 0).map .load ++ [.store]

/-- Among the steps of an element are the loads of its expression. -/
theorem filterMap_elementSteps (κ : Nat → Int) (expr : Tree) (result : List Int) :
    (elementSteps expr result).filterMap (ElementStep.loadAt? κ) =
      ((expr.loads id result 0).filter (·.isAt κ)).map Load.place := by
  cases expr with
  | missing => rfl
  | node i n ts =>
    rw [elementSteps]
    split
    · rename_i hk
      rw [Tree.loads_node, hk, List.filterMap_cons_none rfl, List.filterMap_flatMap, List.filter_flatMap,
        List.map_flatMap]
      refine List.flatMap_congr fun k _ => ?_
      rw [List.filterMap_append, List.map_id, Nat.zero_add, ← ElementStep.filterMap_loadAt?,
        List.map_map, show [ElementStep.resume, .store].filterMap (ElementStep.loadAt? κ) = [] from rfl,
        List.append_nil]
      rfl
    · rw [List.filterMap_append, ElementStep.filterMap_loadAt?,
        show [ElementStep.store].filterMap (ElementStep.loadAt? κ) = [] from rfl, List.append_nil]

/-- What is done to compute an element is to load for the expression and to access the destination. -/
theorem forall_elementSteps {P : Event → Prop} {i : NodeId} {n : Node} {ts : List Tree}
    {result sub : List Int} {name : String} (hP : P (.load name sub) ↔ P (.store name sub)) :
    (∀ s ∈ elementSteps (.node i n ts) result, P (s.event name sub)) ↔
      P (.store name sub) ∧ ∀ l ∈ (Tree.node i n ts).loads id result 0, P l.event := by
  rw [elementSteps]
  split
  · rename_i hk
    simp only [Tree.loads_node, hk, List.forall_mem_cons, List.forall_mem_flatMap, List.forall_mem_append,
      List.forall_mem_map, List.map_id, Nat.zero_add, ElementStep.event, hP]
    exact and_congr_right fun hstore => forall₂_congr fun k _ =>
      and_iff_left ⟨hstore, hstore, List.forall_mem_nil _⟩
  · rw [List.forall_mem_append, List.forall_mem_map, List.forall_mem_singleton]
    exact and_comm

section

variable {dst : Node} {result sub : List Int}

omit [Scalar α] in
theorem loadTraced_follows (hsub : dst.subscript id result = some sub) :
    Follows (loadTraced cells dst result) [.load dst.name sub] := by
  rw [loadTraced, demand_bind hsub]
  exact .access _ _

omit [Scalar α] in
theorem storeTraced_follows (hsub : dst.subscript id result = some sub) (mem : Memory α) (v : α) :
    Follows (storeTraced mem dst result v) [.store dst.name sub] := by
  rw [storeTraced, demand_bind hsub]
  exact .access _ _

/-- The interpreter does what is listed to compute an element. -/
theorem runElementTraced_follows {expr : Tree} (h : expr.Indexed C S result)
    (hsub : dst.subscript id result = some sub) (mem : Memory α) :
    Follows (Program.runElementTraced dst expr result mem)
      ((elementSteps expr result).map (ElementStep.event dst.name sub)) := by
  cases expr with
  | missing => cases h.typed
  | node i n ts =>
    rw [Program.runElementTraced, elementSteps]
    by_cases hk : n.kind = .contraction
    · rw [if_pos hk, if_pos hk, List.map_cons]
      refine (storeTraced_follows hsub mem 0).bind fun mem => ?_
      obtain ⟨t₀, t₁, es, rfl, hes, -, hpair⟩ := h.contraction hk
      rw [demand_bind hes, hes, Option.getD_some, List.map_flatMap]
      refine .forEach (fun k hk' mem => ?_) mem
      obtain ⟨i₀, i₁, hops, h₀, h₁⟩ := hpair k (length_of_mem_visits hk')
      rw [hops, Option.getD_some, Tree.loadsOperands_pair, List.map_append, List.map_map,
        List.map_append]
      refine (Tree.termTraced_follows hops (h₀.evalTraced_follows _)
        (h₁.evalTraced_follows _)).bind fun term => ?_
      exact (loadTraced_follows hsub).bind fun sum => storeTraced_follows hsub mem _
    · rw [if_neg hk, if_neg hk, List.map_append, List.map_map]
      exact (h.evalTraced_follows 0).bind fun v => storeTraced_follows hsub mem v

end

/-! ## Elements that are there -/

namespace Memory.Formed

variable {mem mem' : Memory α} {name : String} {stored : Shape} {sub : List Int}

omit [Scalar α] in
/-- Whether a tensor has an element at a subscript depends on its shape alone. -/
theorem isSome_iff (h : mem.Formed S) (hS : S name = some stored) :
    (cellsOf mem name sub).isSome ↔ (Event.load name sub).Allocated S := by
  obtain ⟨t, ht, hdims, hsize⟩ := h name stored hS
  rw [cellsOf, ht, Option.bind_eq_bind, Option.bind_some, Tensor.get?, Tensor.offset, hdims]
  constructor
  · intro hsome
    cases ho : rowMajor stored sub with
    | none =>
      rw [ho] at hsome
      cases hsome
    | some o =>
      rw [ho, Option.bind_eq_bind, Option.bind_some] at hsome
      by_cases hneg : o < 0
      · rw [if_pos hneg] at hsome
        cases hsome
      · rw [if_neg hneg, Option.isSome_iff_exists] at hsome
        obtain ⟨v, hv⟩ := hsome
        have hlt := (Array.getElem?_eq_some_iff.mp hv).1
        exact ⟨stored, o, hS, ho, by omega, by omega⟩
  · rintro ⟨stored', o, hS', ho, lo, hi⟩
    rw [hS] at hS'
    cases hS'
    rw [ho, Option.bind_eq_bind, Option.bind_some, if_neg (by omega),
      Array.getElem?_eq_getElem (by omega)]
    rfl

omit [Scalar α] in
theorem storeAt_isSome_iff (h : mem.Formed S) {n : Node} {idx : List Int} (hS : S n.name = some stored)
    (hsub : n.subscript id idx = some sub) (v : α) :
    (storeAt mem n idx v).isSome ↔ (Event.store n.name sub).Allocated S := by
  obtain ⟨t, ht, hdims, hsize⟩ := h n.name stored hS
  have hset : (t.set? sub v).isSome ↔ (Event.store n.name sub).Allocated S := by
    rw [Option.isSome_iff_exists]
    constructor
    · rintro ⟨t', ht'⟩
      obtain ⟨o, ho, ⟨lo, hi⟩, -⟩ := Tensor.set?_eq_some_iff.mp ht'
      exact ⟨stored, o, hS, by rwa [Tensor.offset, hdims] at ho, lo, by omega⟩
    · rintro ⟨stored', o, hS', ho, lo, hi⟩
      rw [hS] at hS'
      cases hS'
      exact ⟨_, Tensor.set?_eq_some_iff.mpr ⟨o, by rwa [Tensor.offset, hdims], ⟨lo, by omega⟩, rfl⟩⟩
  rw [← hset]
  rcases storeAt_cases hsub ht v with ⟨hnone, hset⟩ | ⟨t', mem', hset, hsome, -⟩
  · rw [hnone, hset]
    exact Iff.rfl
  · rw [hsome, hset]
    exact Iff.rfl

omit [Scalar α] in
theorem storeAt (h : mem.Formed S) {n : Node} {idx : List Int} (hS : S n.name = some stored) {v : α}
    (hstore : LoopNest.storeAt mem n idx v = some mem') : mem'.Formed S := by
  obtain ⟨t, ht, -⟩ := h n.name stored hS
  have hsub := hstore
  rw [LoopNest.storeAt, Option.bind_eq_bind, Option.bind_eq_some_iff] at hsub
  obtain ⟨sub, hsub, -⟩ := hsub
  rcases storeAt_cases hsub ht v with ⟨hnone, -⟩ | ⟨t', mem₁, hset, hsome, hget⟩
  · rw [hnone] at hstore
    cases hstore
  · rw [hsome] at hstore
    cases hstore
    exact h.store ht hset hget

end Memory.Formed

theorem Tree.Indexed.eval_isSome_iff_allocated {t : Tree} {idx : List Int} (h : t.Indexed C S idx)
    {mem : Memory α} (hmem : mem.Formed S) (next : Nat) :
    (t.eval (cellsOf mem) idx).isSome ↔ ∀ l ∈ t.loads id idx next, l.event.Allocated S := by
  rw [h.eval_isSome_iff next]
  refine forall₂_congr fun l hl => ?_
  obtain ⟨stored, hstored, -⟩ := h.loads_declared next l hl
  exact hmem.isSome_iff hstored

/-- Adds the product of the operands at some contracted indices to the sum in the destination. -/
def Node.accumulate (n dst : Node) (ts : List Tree) (result k : List Int) (mem : Memory α) :
    Option (Memory α) := do
  let term ← n.termWith ts (Tree.evalAll (cellsOf mem) ts) result k
  storeAt mem dst result ((← loadAt (cellsOf mem) dst result) + term)

theorem Program.runElement_contraction {dst : Node} {i : NodeId} {n : Node} {ts : List Tree}
    {es result : List Int} (hk : n.kind = .contraction) (hes : n.contractedExtents ts = some es)
    (mem : Memory α) : runElement dst (.node i n ts) result mem =
      (storeAt mem dst result 0).bind fun mem =>
        (visits es).foldlM (fun mem k => n.accumulate dst ts result k mem) mem := by
  rw [runElement, if_pos hk]
  refine bind_congr fun mem => ?_
  rw [hes, Option.bind_eq_bind, Option.bind_some, forEach_eq_visits]
  rfl

section

variable {dst : Node} {result sub : List Int} {stored : Shape} {mem mem' : Memory α}
  (hS : S dst.name = some stored) (hsub : dst.subscript id result = some sub)
include hS

theorem Memory.Formed.accumulate {n : Node} {ts : List Tree} {k : List Int} (hmem : mem.Formed S)
    (hrun : n.accumulate dst ts result k mem = some mem') : mem'.Formed S := by
  simp only [Node.accumulate, Option.bind_eq_bind, Option.bind_eq_some_iff] at hrun
  obtain ⟨term, -, sum, -, hstore⟩ := hrun
  exact hmem.storeAt hS hstore

/-- A memory keeps its form when an element is computed. -/
theorem Memory.Formed.runElement {expr : Tree} (hmem : mem.Formed S)
    (hrun : Program.runElement dst expr result mem = some mem') : mem'.Formed S := by
  cases expr with
  | missing => cases hrun
  | node i n ts =>
    rw [Program.runElement] at hrun
    split at hrun
    · simp only [Option.bind_eq_bind, Option.bind_eq_some_iff] at hrun
      obtain ⟨mem₁, hstore, es, -, hloop⟩ := hrun
      rw [forEach_eq_visits] at hloop
      exact foldlM_preserves (Memory.Formed S) (hmem.storeAt hS hstore)
        (fun mem k _ hmem mem' hrun => hmem.accumulate hS hrun) hloop
    · simp only [Option.bind_eq_bind, Option.bind_eq_some_iff] at hrun
      obtain ⟨v, -, hstore⟩ := hrun
      exact hmem.storeAt hS hstore

include hsub

theorem accumulate_isSome_iff {n : Node} {t₀ t₁ : Tree} {k i₀ i₁ : List Int}
    (hops : n.operandIndices ([t₀, t₁].map Tree.rank?) result k = some [i₀, i₁])
    (h₀ : t₀.Indexed C S i₀) (h₁ : t₁.Indexed C S i₁) (hmem : mem.Formed S) (m₀ m₁ : Nat) :
    (n.accumulate dst [t₀, t₁] result k mem).isSome ↔
      (∀ l ∈ t₀.loads id i₀ m₀ ++ t₁.loads id i₁ m₁, l.event.Allocated S) ∧
        (Event.store dst.name sub).Allocated S := by
  rw [List.forall_mem_append, ← h₀.eval_isSome_iff_allocated hmem,
    ← h₁.eval_isSome_iff_allocated hmem, Node.accumulate, Tree.evalAll_eq_map, Tree.termWith_eq hops]
  have hload : (loadAt (cellsOf mem) dst result).isSome ↔ (Event.store dst.name sub).Allocated S := by
    rw [loadAt, hsub]
    exact hmem.isSome_iff hS
  cases t₀.eval (cellsOf mem) i₀ with
  | none => simp
  | some x =>
    cases t₁.eval (cellsOf mem) i₁ with
    | none => simp
    | some y =>
      rw [Option.bind_some, Option.bind_some, Option.bind_eq_bind, Option.bind_some]
      cases hl : loadAt (cellsOf mem) dst result with
      | none =>
        rw [hl] at hload
        simpa using hload
      | some v =>
        rw [Option.bind_some, hmem.storeAt_isSome_iff hS hsub]
        simp

/-- An element is computed and stored when all that this accesses is there. -/
theorem runElement_isSome_iff {expr : Tree} (h : expr.Indexed C S result) (hmem : mem.Formed S) :
    (Program.runElement dst expr result mem).isSome ↔
      ∀ s ∈ elementSteps expr result, (s.event dst.name sub).Allocated S := by
  cases expr with
  | missing => cases h.typed
  | node i n ts =>
    rw [elementSteps]
    by_cases hk : n.kind = .contraction
    · obtain ⟨t₀, t₁, es, rfl, hes, -, hpair⟩ := h.contraction hk
      rw [if_pos hk, List.forall_mem_cons, Program.runElement_contraction hk hes, hes,
        Option.getD_some, List.forall_mem_flatMap]
      have hstore := hmem.storeAt_isSome_iff hS hsub 0
      cases hmem₁ : storeAt mem dst result 0 with
      | none =>
        rw [hmem₁] at hstore
        exact iff_of_false Bool.false_ne_true fun hall => Bool.false_ne_true (hstore.mpr hall.1)
      | some mem₁ =>
        rw [hmem₁] at hstore
        rw [Option.bind_some]
        have hformed := hmem.storeAt hS hmem₁
        refine Iff.trans (isSome_foldlM_iff (Memory.Formed S) hformed fun mem k hk' hmem =>
          ⟨?_, fun mem' hrun => hmem.accumulate hS hrun⟩) (and_iff_right (hstore.mp rfl)).symm
        obtain ⟨i₀, i₁, hops, h₀, h₁⟩ := hpair k (length_of_mem_visits hk')
        rw [accumulate_isSome_iff hS hsub hops h₀ h₁ hmem, hops, Option.getD_some,
          Tree.loadsOperands_pair]
        refine Iff.trans (and_congr ?_ ?_) List.forall_mem_append.symm
        · rw [List.forall_mem_map]
          exact Iff.rfl
        · simp [ElementStep.event, Event.Allocated]
    · rw [if_neg hk, List.forall_mem_append, List.forall_mem_map, List.forall_mem_singleton,
        Program.runElement, if_neg hk]
      refine Iff.trans ?_ (and_congr_left fun _ => h.eval_isSome_iff_allocated hmem 0)
      cases hv : (Tree.node i n ts).eval (cellsOf mem) result with
      | none => simp
      | some v =>
        rw [Option.bind_eq_bind, Option.bind_some, hmem.storeAt_isSome_iff hS hsub]
        simp [ElementStep.event]

end

/-! ## Accesses by name -/

/-- The index that a name stands for, at an index of the result and at values of the contracted
indices. -/
def IndexName.value (result : List Int) (κ : Nat → Int) : IndexName → Int
  | .result axis => result[axis]?.getD 0
  | .sum t => κ t
  | .fixed k => k

/-- The element that is accessed, at an index of the result and at values of the contracted indices. -/
def Access.placeAt (result : List Int) (κ : Nat → Int) (a : Access IndexName) : String × List Int :=
  (a.map (IndexName.value result κ)).place

theorem IndexName.map_value_results (result : List Int) (κ : Nat → Int) :
    (results result.length).map (value result κ) = result := by
  rw [results, List.map_map]
  refine List.ext_getElem (by simp) fun i hi hi' => ?_
  simp [value, hi']

namespace Program

/-- No expression of a program has a stack. -/
def StackFree (p : Program) : Prop :=
  ∀ a ∈ p.assignments, ∀ n ∈ (p.tree a.expr).labels, n.kind ≠ .stack

instance {p : Program} : Decidable p.StackFree :=
  inferInstanceAs (Decidable (∀ a ∈ p.assignments, ∀ n ∈ (p.tree a.expr).labels, n.kind ≠ .stack))

variable {p : Program} {a : Assignment}

theorem Accepted.mem_clauses (ha : a ∈ p.assignments) : p.clause a ∈ p.clauses :=
  List.mem_map_of_mem ha

theorem Accepted.places (h : p.Accepted) (ha : a ∈ p.assignments) : p.Places a (p.clause a) := by
  obtain ⟨_, hpass⟩ := h.passes.1 a ha
  exact ⟨hpass.target, hpass.root.symm, hpass.stored⟩

theorem Accepted.indexed (h : p.Accepted) (hstack : p.StackFree) (ha : a ∈ p.assignments) {τ : Type}
    {idx : List τ} (hlen : idx.length = (p.clause a).target.shape.length) :
    (p.tree a.expr).Indexed (fun _ => True) p.find.shapes idx := by
  obtain ⟨_, hpass⟩ := h.passes.1 a ha
  exact ⟨h.typed _ (mem_clauses ha), hstack a ha, hlen.trans (by rw [hpass.shape])⟩

/-- The accesses of an assignment, listed by name, are those of its elements. -/
structure Faithful (p : Program) (a : Assignment) (dst : Node) (write : List IndexName)
    (reads : List (Access IndexName)) : Prop where
  /-- The write is listed first. -/
  listed : p.accesses a = some (⟨a.dst, dst.name, write, true⟩ :: reads)
  /-- There is one read for each identifier of the expression, in depth-first order. -/
  identifiers : ∃ is, (p.tree a.expr).idents = some is ∧
    reads.map (fun r => (r.node, r.name)) = is.map fun i => (i.1, i.2.name)
  /-- With values in place of the names, the reads are what the expression loads at these values. -/
  loads : ∀ (result : List Int) (κ : Nat → Int), result.length = dst.shape.length →
    (p.tree a.expr).Visited κ 0 → reads.map (Access.placeAt result κ) =
      (elementSteps (p.tree a.expr) result).filterMap (ElementStep.loadAt? κ)
  /-- The interpreter does what is listed, and stores to the element that the write names. -/
  follows : ∀ (result : List Int) (κ : Nat → Int), result.length = dst.shape.length →
    ∀ {α : Type} [Scalar α] (mem : Memory α),
      Follows (runElementTraced dst (p.tree a.expr) result mem)
        ((elementSteps (p.tree a.expr) result).map
          (ElementStep.event dst.name (write.map (IndexName.value result κ))))
  /-- It runs to the end if everything that is listed is there. -/
  completes : ∀ (result : List Int) (κ : Nat → Int), result.length = dst.shape.length →
    ∀ {α : Type} [Scalar α] (mem : Memory α), mem.Formed p.find.shapes →
      ((runElement dst (p.tree a.expr) result mem).isSome ↔
        ∀ s ∈ elementSteps (p.tree a.expr) result,
          (s.event dst.name (write.map (IndexName.value result κ))).Allocated p.find.shapes)

/-- In an accepted program without stacks, the accesses that are listed for an assignment are those
of its elements. -/
theorem Accepted.accesses_faithful (h : p.Accepted) (hstack : p.StackFree) (ha : a ∈ p.assignments) :
    ∃ dst write reads, p.dst? a = some dst ∧ p.Faithful a dst write reads := by
  have hplaces := h.places ha
  have hfits := h.fits_all _ (Accepted.mem_clauses ha)
  obtain ⟨s, hs, hviews, -⟩ := hfits.declared
  obtain ⟨write, reads, next, haccesses, hwrite, hreads, -⟩ :=
    hplaces.accesses_spec hfits (P := fun _ => True) (fun _ => trivial) (fun _ => trivial)
      fun _ _ => trivial
  obtain ⟨is, hidents, his⟩ := Tree.StoredIn.idents_places hplaces.stored
  have hsub : ∀ {result : List Int} (κ : Nat → Int),
      result.length = (p.clause a).target.shape.length →
      (p.clause a).target.subscript id result = some (write.map (IndexName.value result κ)) := by
    intro result κ hlen
    rw [← hlen] at hwrite
    have hvalue := Node.subscript_map (IndexName.value result κ) hwrite
    rwa [IndexName.map_value_results] at hvalue
  refine ⟨(p.clause a).target, write, reads, hplaces.dst?_eq, haccesses,
    ⟨is, hplaces.tree_eq ▸ hidents, (hfits.typed.readsAt_idents hreads .root).trans his.symm⟩,
    fun result κ hlen hvisited => ?_,
    fun result κ hlen _ _ mem =>
      runElementTraced_follows (h.indexed hstack ha hlen) (hsub κ hlen) mem,
    fun result κ hlen _ _ mem hmem =>
      runElement_isSome_iff (Symbols.shapes_eq hs) (hsub κ hlen) (h.indexed hstack ha hlen) hmem⟩
  rw [filterMap_elementSteps]
  obtain ⟨reads', hreads', heq⟩ :=
    (h.indexed hstack ha hlen).readsAt_eq_loads 0 hvisited
  rw [← heq]
  rw [← hlen] at hreads
  have hvalue := Tree.readsAt_map (IndexName.value result κ) hreads
  rw [IndexName.map_value_results, ← hplaces.tree_eq] at hvalue
  cases hreads'.symm.trans hvalue
  rw [List.map_map]
  rfl

/-- `w^[0 1] = contract(contract(x, [1], y, [0]), [1], z, [0])` -/
def chainedProduct : Program where
  name := "p"
  symbols := .ofList [⟨"x", [2, 3], .input⟩, ⟨"y", [3, 4], .input⟩, ⟨"z", [4, 5], .input⟩,
    ⟨"w", [5, 2], .output⟩]
  names := { taken := ["w", "z", "y", "x"] }
  nodes := #[{ kind := .identifier, name := "x", shape := [2, 3] },
    { kind := .identifier, name := "y", shape := [3, 4] },
    { kind := .contraction, shape := [2, 4], operands := [0, 1], lhsAxes := [1], rhsAxes := [0] },
    { kind := .identifier, name := "z", shape := [4, 5] },
    { kind := .contraction, shape := [2, 5], operands := [2, 3], lhsAxes := [1], rhsAxes := [0] },
    { kind := .identifier, name := "w", shape := [2, 5], perm := [⟨0, 1⟩] }]
  assignments := [{ dst := 5, expr := 4 }]

theorem chainedProduct_accepted : chainedProduct.Accepted where
  verified := Program.verify_of_ledger rfl rfl (by decide) rfl rfl
  reads := by decide

/-- The accesses of a product of three matrices that is stored transposed. -/
theorem accesses_faithful_chainedProduct : chainedProduct.Accepted ∧ chainedProduct.StackFree ∧
    (⟨5, 4, none⟩ : Assignment) ∈ chainedProduct.assignments ∧
    ∃ dst write reads, chainedProduct.dst? ⟨5, 4, none⟩ = some dst ∧
      chainedProduct.Faithful ⟨5, 4, none⟩ dst write reads :=
  ⟨chainedProduct_accepted, by decide, by decide,
    chainedProduct_accepted.accesses_faithful (by decide) (by decide)⟩

/-- The outer sum is numbered first, and the inner one runs for each of its values. -/
example : (chainedProduct.accesses ⟨5, 4, none⟩).map (List.map fun r => (r.name, r.index)) =
    some [("w", [.result 1, .result 0]), ("x", [.result 0, .sum 1]), ("y", [.sum 1, .sum 0]),
      ("z", [.sum 0, .result 1])] := by decide

end Program

end LoopNest
