import LoopNest.Proofs.Typed.Evaluation

/-!
# Initial memories

A program is started on inputs that fill the tensors they are given to (`Inputs.Fill`). Both
evaluators then start from the same memory: every tensor holds its given values, or zeros
(`Symbol.start`).
-/

namespace LoopNest

variable {α : Type} [Scalar α] {K : ShapeClass}

/-- Values are given to inputs only, as many as their shapes ask for. -/
def Inputs.Fill (inputs : Inputs α) (find : Symbols) : Prop :=
  ∀ name vals, inputs.lookup name = some vals →
    ∃ s, find name = some s ∧ s.role.isInput = true ∧ (vals.length : Int) = s.shape.size

omit [Scalar α] in
theorem Inputs.fill_nil (find : Symbols) : Inputs.Fill ([] : Inputs α) find := by
  intro name vals hvals
  cases hvals

omit [Scalar α] in
theorem Inputs.Fill.cons {inputs : Inputs α} {find : Symbols} (h : inputs.Fill find) {name : String}
    {vals : List α} {s : Symbol} (hs : find name = some s) (hrole : s.role.isInput = true)
    (hlen : (vals.length : Int) = s.shape.size) : Inputs.Fill ((name, vals) :: inputs) find := by
  intro name' vals' hvals
  rw [List.lookup_cons] at hvals
  split at hvals
  · rename_i hname
    obtain rfl : name' = name := by simpa using hname
    cases hvals
    exact ⟨s, hs, hrole, hlen⟩
  · exact h name' vals' hvals

/-- What a tensor holds at the start. -/
def Symbol.start (inputs : Inputs α) (s : Symbol) : Tensor α :=
  ⟨s.shape, ((inputs.lookup s.name).map List.toArray).getD (Array.replicate s.shape.size.toNat 0)⟩

/-- A symbol can be given what the inputs have for it. -/
structure Symbol.Accepts (s : Symbol) (inputs : Inputs α) : Prop where
  holds : holdsElements 8 s.shape.size = true
  role : (inputs.lookup s.name).isSome → s.role.isInput = true
  length : ∀ vals ∈ inputs.lookup s.name, (vals.length : Int) = s.shape.size

theorem Symbol.Accepts.size_start {s : Symbol} {inputs : Inputs α} (h : s.Accepts inputs) :
    ((s.start inputs).data.size : Int) = s.shape.size := by
  have hold := h.holds
  simp only [holdsElements, Bool.and_eq_true, decide_eq_true_eq] at hold
  rw [Symbol.start]
  cases hlookup : inputs.lookup s.name with
  | none =>
    rw [Option.map_none, Option.getD_none, Array.size_replicate]
    omega
  | some vals =>
    rw [Option.map_some, Option.getD_some, List.size_toArray]
    exact h.length vals hlookup

theorem initialMemory_spec {inputs : Inputs α} {symbols : List Symbol}
    (hnd : (symbols.map Symbol.name).Nodup) (h : ∀ s ∈ symbols, s.Accepts inputs) (mem : Memory α) :
    ∃ mem', Program.initialMemory inputs symbols mem = .ok mem' ∧
      (∀ s ∈ symbols, mem'.get? s.name = some (s.start inputs)) ∧
      ∀ name, name ∉ symbols.map Symbol.name → mem'.get? name = mem.get? name := by
  induction symbols generalizing mem with
  | nil => exact ⟨mem, rfl, by simp, fun _ _ => rfl⟩
  | cons s rest ih =>
    rw [List.map_cons, List.nodup_cons] at hnd
    have hs := h s (.head _)
    have hzeros : Tensor.zeros (α := α) s.shape =
        some ⟨s.shape, Array.replicate s.shape.size.toNat 0⟩ := if_pos hs.holds
    obtain ⟨mem', hrun, hget, hother⟩ := ih hnd.2 (fun s' hs' => h s' (List.mem_cons_of_mem _ hs'))
      (mem.insert s.name (s.start inputs))
    refine ⟨mem', ?_, ?_, ?_⟩
    · rw [Program.initialMemory, hzeros, ← hrun]
      cases hlookup : inputs.lookup s.name with
      | none =>
        rw [Symbol.start, hlookup]
        rfl
      | some vals =>
        have hlen : vals.length = s.shape.size.toNat := by
          have := hs.length vals hlookup
          omega
        rw [Symbol.start, hlookup]
        simp [orFault, bind, Except.bind, hs.role (by simp [hlookup]), hlen]
    · intro s' hs'
      rcases List.mem_cons.mp hs' with rfl | hs'
      · rw [hother _ hnd.1, OrderedMap.get?_insert, if_pos rfl]
      · exact hget s' hs'
    · intro name hname
      rw [List.map_cons, List.mem_cons, not_or] at hname
      rw [hother name hname.2, OrderedMap.get?_insert, if_neg hname.1]

/-- When there is a memory to start from, the inputs are accepted. -/
theorem accepts_of_initialMemory {inputs : Inputs α} {symbols : List Symbol} {mem mem' : Memory α}
    (h : Program.initialMemory inputs symbols mem = .ok mem') : ∀ s ∈ symbols, s.Accepts inputs := by
  induction symbols generalizing mem with
  | nil => exact List.forall_mem_nil _
  | cons s rest ih =>
    rw [Program.initialMemory, Tensor.zeros] at h
    cases hold : holdsElements 8 s.shape.size with
    | false =>
      rw [hold] at h
      cases h
    | true =>
      rw [hold, if_pos rfl] at h
      have hsize := hold
      simp only [holdsElements, Bool.and_eq_true, decide_eq_true_eq] at hsize
      rw [List.forall_mem_cons]
      cases hlookup : inputs.lookup s.name with
      | none =>
        rw [hlookup] at h
        exact ⟨⟨hold, by simp [hlookup], by simp [hlookup]⟩, ih h⟩
      | some vals =>
        rw [hlookup] at h
        cases hrole : s.role.isInput with
        | false => simp [orFault, bind, Except.bind, hrole, throw, throwThe, MonadExceptOf.throw] at h
        | true =>
          by_cases hlen : vals.length = s.shape.size.toNat
          · simp only [orFault, bind, Except.bind, hrole, Array.size_replicate, hlen, Bool.not_true,
              Bool.false_eq_true, if_false, ne_eq, not_true_eq_false] at h
            refine ⟨⟨hold, fun _ => hrole, fun vals' hvals => ?_⟩, ih h⟩
            rw [hlookup] at hvals
            cases hvals
            omega
          · simp [orFault, bind, Except.bind, hrole, hlen, throw, throwThe, MonadExceptOf.throw] at h

/-- Whole-tensor evaluation starts from the same memory. -/
theorem Typed.initialMemory_eq {inputs : Inputs α} {symbols : List Symbol}
    (h : ∀ s ∈ symbols, s.Accepts inputs) (mem : Memory α) :
    Typed.initialMemory inputs symbols mem = Program.initialMemory inputs symbols mem := by
  induction symbols generalizing mem with
  | nil => rfl
  | cons s rest ih =>
    have hrest := ih fun s' hs' => h s' (List.mem_cons_of_mem _ hs')
    rw [Typed.initialMemory, Program.initialMemory]
    cases hlookup : inputs.lookup s.name with
    | none => simp only [hrest]
    | some vals => simp [hrest, (h s (.head _)).role (by simp [hlookup])]

/-- The memory at the start holds every tensor with all its elements. -/
theorem start_full (hK : K.Bounded) {inputs : Inputs α} {s : Symbol} (hs : K.Mem s.shape)
    (h : s.Accepts inputs) : (s.start inputs).Full s.shape :=
  ⟨rfl, by rw [h.size_start, hK.size_eq hs]⟩

omit [Scalar α] in
theorem Inputs.Fill.accepts {inputs : Inputs α} {find : Symbols} (h : inputs.Fill find)
    {s : Symbol} (hs : find s.name = some s) (hold : holdsElements 8 s.shape.size = true) :
    s.Accepts inputs := by
  refine ⟨hold, fun hsome => ?_, fun vals hvals => ?_⟩
  · obtain ⟨vals, hvals⟩ := Option.isSome_iff_exists.mp hsome
    obtain ⟨s', hs', hrole, -⟩ := h s.name vals hvals
    rw [hs] at hs'
    cases hs'
    exact hrole
  · obtain ⟨s', hs', -, hlen⟩ := h s.name vals hvals
    rw [hs] at hs'
    cases hs'
    exact hlen

theorem ShapeClass.Bounded.holds_size (hK : K.Bounded) {sh : Shape} (hs : K.Mem sh) :
    holdsElements 8 sh.size = true := by
  rw [hK.size_eq hs]
  exact hK hs

/-- The interpreter starts with every tensor in place. -/
theorem Program.Tidy.initialMemory_spec {p : Program} (htidy : p.Tidy) (hK : K.Bounded)
    (hmem : ∀ name s, p.find name = some s → K.Mem s.shape) {inputs : Inputs α}
    (h : inputs.Fill p.find) :
    ∃ mem, Program.initialMemory inputs p.symbols.all {} = .ok mem ∧ mem.Fits p.find.shapes ∧
      ∀ name s, p.find name = some s → mem.get? name = some (s.start inputs) := by
  have hall : ∀ s ∈ p.symbols.all, s.Accepts inputs := fun s hs =>
    have hfind := htidy.mem_all.mp hs
    h.accepts hfind (hK.holds_size (hmem _ s hfind))
  obtain ⟨mem, hrun, hget, -⟩ := LoopNest.initialMemory_spec htidy.names_nodup hall {}
  have hstart : ∀ name s, p.find name = some s → mem.get? name = some (s.start inputs) := by
    intro name s hs
    have hname := htidy.name_eq hs
    subst hname
    exact hget s (htidy.mem_all.mpr hs)
  refine ⟨mem, hrun, fun name stored hS => ?_, hstart⟩
  rw [Symbols.shapes, Option.map_eq_some_iff] at hS
  obtain ⟨s, hs, rfl⟩ := hS
  have hname := htidy.name_eq hs
  subst hname
  exact ⟨_, hstart _ s hs, start_full hK (hmem _ s hs) (hall s (htidy.mem_all.mpr hs))⟩

namespace Typed

theorem Program.Checked.mem_decls {p : Program} (h : p.Checked K) {d : Symbol} :
    d ∈ p.decls ↔ p.decl? d.name = some d := by
  constructor
  · intro hd
    cases hfind : p.decl? d.name with
    | none => simp [Program.decl?] at hfind; exact absurd rfl (hfind d hd)
    | some d' =>
      have hmem := List.mem_of_find?_eq_some hfind
      have hname : d'.name = d.name := by simpa using List.find?_some hfind
      rw [List.inj_on_of_nodup_map h.nodup hmem hd hname]
  · exact List.mem_of_find?_eq_some

theorem Program.Checked.decl?_name {p : Program} {name : String} {d : Symbol}
    (hd : p.decl? name = some d) : d.name = name := by
  simpa using List.find?_some hd

/-- Whole-tensor evaluation starts with every tensor in place. -/
theorem Program.Checked.initialMemory_spec {p : Program} (hp : p.Checked K) (hK : K.Bounded)
    {inputs : Inputs α} (h : inputs.Fill p.decl?) :
    ∃ mem, Typed.initialMemory inputs p.decls {} = .ok mem ∧
      mem.Fits (Symbols.shapes p.decl?) ∧
      ∀ name d, p.decl? name = some d → mem.get? name = some (d.start inputs) := by
  have hall : ∀ d ∈ p.decls, d.Accepts inputs := fun d hd =>
    h.accepts (hp.mem_decls.mp hd) (hK.holds_size (hp.mem d hd))
  obtain ⟨mem, hrun, hget, -⟩ := LoopNest.initialMemory_spec hp.nodup hall {}
  have hstart : ∀ name d, p.decl? name = some d → mem.get? name = some (d.start inputs) := by
    intro name d hd
    have hname := Program.Checked.decl?_name hd
    subst hname
    exact hget d (hp.mem_decls.mpr hd)
  refine ⟨mem, by rw [Typed.initialMemory_eq hall, hrun], fun name stored hS => ?_, hstart⟩
  rw [Symbols.shapes, Option.map_eq_some_iff] at hS
  obtain ⟨d, hd, rfl⟩ := hS
  have hname := Program.Checked.decl?_name hd
  subst hname
  have hmem := hp.mem_decls.mpr hd
  exact ⟨_, hstart _ d hd, start_full hK (hp.mem d hmem) (hall d hmem)⟩

end Typed

end LoopNest
