import LoopNest.Proofs.Changes
import LoopNest.Proofs.Code.Files
import LoopNest.Proofs.Determinacy

/-!
# Kernels and the interpreter

A kernel, run as its text is read, leaves in its arguments what the interpreter leaves in the formal
tensors (`run_emit`). The kernel has fewer arrays than the program has tensors: only the arguments and
the buffers that are written (`Program.live`). What nothing reads before it is written may hold anything
at the start: the buffers, and the arguments for outputs that are not inputs.
-/

namespace LoopNest

/-! ## Live tensors -/

theorem Role.isFormal_iff {r : Role} : r.isFormal = true ↔ r.isInput = true ∨ r.isOutput = true := by
  have hmask : r.flags &&& 3 = r.flags &&& 1 ||| r.flags &&& 2 :=
    UInt8.toNat_inj.mp (Nat.and_or_distrib_left r.flags.toNat 1 2)
  rw [Role.isFormal, Role.isInput, Role.isOutput, hmask, bne_iff_ne, bne_iff_ne, bne_iff_ne, Ne,
    UInt8.or_eq_zero_iff, not_and_or]

namespace Program

/-- The tensors that a kernel has arrays for. -/
def live (p : Program) : Symbols := fun name =>
  (p.find name).filter fun s => s.role.isFormal || p.written.contains name

variable {p : Program} {name : String} {s : Symbol}

theorem live_eq_some_iff : p.live name = some s ↔
    p.find name = some s ∧ (s.role.isFormal = true ∨ name ∈ p.written) := by
  rw [live, Option.filter_eq_some_iff, Bool.or_eq_true, List.contains_iff_mem]

theorem mem_formals (h : p.Tidy) : s ∈ p.symbols.formals ↔
    p.find s.name = some s ∧ s.role.isFormal = true := by
  rw [SymbolTable.formals, List.mem_append, List.mem_filter, List.mem_filter, h.mem_all, Role.isFormal_iff]
  cases s.role.isInput <;> simp

theorem mem_buffers (h : p.Tidy) : s ∈ p.symbols.buffers ↔
    p.find s.name = some s ∧ s.role.isFormal = false := by
  rw [SymbolTable.buffers, List.mem_filter, h.mem_all, Bool.not_eq_true']

/-- Each array of a kernel has a name of its own. -/
theorem arrays_nodup (h : p.Tidy) :
    ((p.symbols.formals ++ p.symbols.buffers).map Symbol.name).Nodup := by
  have hall : p.symbols.all.Nodup := .of_map Symbol.name h.names_nodup
  refine List.Nodup.map_on (fun s hs s' hs' hname => ?_) ?_
  · have hfind : ∀ s ∈ p.symbols.formals ++ p.symbols.buffers, p.find s.name = some s := fun s hs =>
      (List.mem_append.mp hs).elim (fun hs => ((mem_formals h).mp hs).1) fun hs => ((mem_buffers h).mp hs).1
    have heq := hfind s hs
    rw [hname, hfind s' hs'] at heq
    exact (Option.some.inj heq).symm
  · refine List.Nodup.append ?_ (hall.filter _) fun s hs hs' => ?_
    · refine (hall.filter _).append (hall.filter _) fun s hs hs' => ?_
      simp_all
    · have hformal := ((mem_formals h).mp hs).2
      rw [((mem_buffers h).mp hs').2] at hformal
      cases hformal

end Program

/-- What a clause reads is an input or is written by some clause. -/
theorem Sound.reads {K : ShapeClass} {find : Symbols} {cs : List Clause} (h : Sound K find cs) {c : Clause}
    (hc : c ∈ cs) {name : String} (hname : name ∈ c.tree.names) {s : Symbol} (hs : find name = some s) :
    s.role.isInput = true ∨ ∃ d ∈ cs, d.name = name := by
  obtain ⟨l, r, rfl⟩ := List.append_of_mem hc
  refine ((ordered_append.mp h.ordered).2.1 name hname s hs).imp_right fun hfilled => ?_
  obtain ⟨sub, hsub⟩ := exists_inRange (K.pos (h.symbols name s hs))
  obtain ⟨n, hn, hname, -⟩ := hfilled sub hsub
  rw [List.append_nil, List.mem_reverse, List.mem_map] at hn
  obtain ⟨d, hd, rfl⟩ := hn
  exact ⟨d, List.mem_append_left _ hd, hname⟩

namespace Lowered

variable {K : ShapeClass} {p : Typed.Program} {r q : Program} {cs : List Clause} (h : Lowered K p r q cs)
include h

theorem tidy : r.Tidy := by
  rcases h.fused with rfl | ⟨extent, axes, rfl, -⟩
  · exact h.stage.tidy
  · exact h.stage.tidy.congr rfl rfl

/-- The tensors that a lowered program writes are those of its clauses. -/
theorem mem_written {name : String} : name ∈ r.written ↔ ∃ c ∈ cs, c.name = name := by
  obtain ⟨xs, hass, rfl, hplaces⟩ := h.paired
  rw [Program.written, hass, List.mem_filterMap]
  constructor
  · rintro ⟨a, ha, hname⟩
    obtain ⟨x, hx, rfl⟩ := List.mem_map.mp ha
    rw [(hplaces x hx).dst?_eq] at hname
    exact ⟨x.2, List.mem_map_of_mem hx, Option.some.inj hname⟩
  · rintro ⟨c, hc, rfl⟩
    obtain ⟨x, hx, rfl⟩ := List.mem_map.mp hc
    exact ⟨x.1, List.mem_map_of_mem hx, by rw [(hplaces x hx).dst?_eq]; rfl⟩

/-- The clauses read and write live tensors only. -/
theorem fits_live : ∀ c ∈ cs, c.Fits K r.live := by
  intro c hc
  have hfits := h.stage.sound.fits c hc
  have hlive : ∀ {name s}, q.find name = some s → s.role.isFormal = true ∨ (∃ c ∈ cs, c.name = name) →
      r.live name = some s := fun hs hor =>
    Program.live_eq_some_iff.2 ⟨by rw [h.find_eq, hs], hor.imp_right h.mem_written.mpr⟩
  obtain ⟨s, hs, hviews, hrole⟩ := hfits.declared
  refine ⟨hfits.kind, ⟨s, hlive hs (.inr ⟨c, hc, rfl⟩), hviews, hrole⟩, hfits.shape,
    hfits.typed.mono fun name hname => ?_⟩
  obtain ⟨s, hs⟩ := hfits.declared_name hname
  have hread := (h.stage.sound.reads hc hname hs).imp_left fun hinput => Role.isFormal_iff.2 (.inl hinput)
  rw [Symbols.shapes, Symbols.shapes, hs, hlive hs hread]

end Lowered

namespace C

variable {α : Type}

/-! ## Arguments -/

/-- An array holds a tensor in a layout. -/
structure Stores (layout : Layout) (t : Tensor α) (a : Array α) : Prop where
  size : (a.size : Int) = Shape.count t.dims
  elements : ∀ sub, InRange t.dims sub → a[(position layout t.dims sub).toNat]? = t.get? sub

/-- That an array holds a tensor can be seen from the elements at all indices. -/
theorem Stores.of_indices {layout : Layout} {t : Tensor α} {a : Array α} (vals : List α)
    (hsize : (a.size : Int) = Shape.count t.dims)
    (harray : (indices t.dims).map (fun sub => a[(position layout t.dims sub).toNat]?) = vals.map some)
    (htensor : (indices t.dims).map t.get? = vals.map some) : Stores layout t a :=
  ⟨hsize, fun _ hsub => List.map_inj_left.mp (harray.trans htensor.symm) _ (mem_indices.mpr hsub)⟩

/-- An array can be passed for a formal tensor: it has all elements, and they are those of the tensor if
the kernel may read them. -/
structure Supplies [Scalar α] (layout : Layout) (inputs : Inputs α) (s : Symbol) (a : Array α) : Prop where
  size : (a.size : Int) = Shape.count s.shape
  holds : s.role.isInput = true → Stores layout (s.start inputs) a

theorem exists_mapM_rel {σ τ υ : Type _} {f : τ → Option υ} {g : σ → τ} {R : σ → υ → Prop} {l : List σ}
    (h : ∀ x ∈ l, ∃ y, f (g x) = some y ∧ R x y) :
    ∃ ys, (l.map g).mapM f = some ys ∧ List.Forall₂ R l ys := by
  induction l with
  | nil => exact ⟨[], rfl, .nil⟩
  | cons x l ih =>
    obtain ⟨y, hy, hR⟩ := h x (.head _)
    obtain ⟨ys, hys, hRs⟩ := ih fun x' hx' => h x' (List.mem_cons_of_mem _ hx')
    exact ⟨y :: ys, by simp [hy, hys], .cons hR hRs⟩

namespace Emits

variable {p : Program} {opts : EmitOptions} {code : Code} {f : Function} (h : Emits p opts code f)
variable (htidy : p.Tidy)
include h htidy

/-- Each array has a name of its own. -/
theorem arrays_nodup : (f.params ++ f.buffers.map (·.1)).Nodup := by
  rw [h.params, h.buffers, List.map_map]
  show (p.symbols.formals.map Symbol.name ++
    (p.symbols.buffers.filter fun s => p.written.contains s.name).map Symbol.name).Nodup
  rw [← List.map_append]
  exact (Program.arrays_nodup htidy).sublist (((List.Sublist.refl _).append List.filter_sublist).map _)

variable {args : List (Array α)} (hargs : args.length = p.symbols.formals.length)
  (contents : String → Nat → α)
include hargs

theorem start_nodup : (startArrays f.params f.buffers contents args).keys.Nodup := by
  have hkeys : (startArrays f.params f.buffers contents args).keys = f.params ++ f.buffers.map (·.1) := by
    rw [OrderedMap.keys, startArrays, List.map_append,
      List.map_fst_zip (by rw [h.params, List.length_map, hargs]), List.map_map]
    rfl
  rw [hkeys]
  exact h.arrays_nodup htidy

/-- A kernel starts with its arguments. -/
theorem start_formal {x : Symbol × Array α} (hx : x ∈ p.symbols.formals.zip args) :
    (startArrays f.params f.buffers contents args).get? x.1.name = some x.2 := by
  refine (OrderedMap.get?_eq_some_iff (h.start_nodup htidy hargs contents)).mpr (List.mem_append_left _ ?_)
  rw [h.params, List.zip_map_left]
  exact List.mem_map.mpr ⟨x, hx, rfl⟩

/-- There is a buffer for each tensor that is written and is no argument. -/
theorem start_buffer {s : Symbol} (hfind : p.find s.name = some s) (hbuffer : s.role.isFormal = false)
    (hwritten : s.name ∈ p.written) : ∃ a, (startArrays f.params f.buffers contents args).get? s.name = some a ∧
      a.size = s.shape.size.toNat := by
  refine ⟨Array.ofFn fun i : Fin s.shape.size.toNat => contents s.name i,
    (OrderedMap.get?_eq_some_iff (h.start_nodup htidy hargs contents)).mpr (List.mem_append_right _ ?_),
    Array.size_ofFn⟩
  rw [h.buffers, List.map_map]
  exact List.mem_map.mpr ⟨s, List.mem_filter.mpr
    ⟨(Program.mem_buffers htidy).mpr ⟨hfind, hbuffer⟩, List.contains_iff_mem.mpr hwritten⟩, rfl⟩

end Emits

/-- A formal tensor with its contents after the kernel. -/
def Leaves (layout : Layout) (m : Memory α) (s : Symbol) (a : Array α) : Prop :=
  ∃ t, m.get? s.name = some t ∧ Stores layout t a

/-- What a kernel does to the array that is passed for a formal tensor. If the tensor is written, or if
the array holds what the tensor starts with, the array holds the tensor at the end. If the tensor is not
written, the array is left as it is. -/
structure Returns [Scalar α] (p : Program) (layout : Layout) (inputs : Inputs α) (m : Memory α)
    (x : Symbol × Array α) (out : Array α) : Prop where
  leaves : x.1.name ∈ p.written ∨ Stores layout (x.1.start inputs) x.2 → Leaves layout m x.1 out
  same : x.1.name ∉ p.written → out = x.2

/-- Arrays of one tensor are the same if they have the same elements at its indices. -/
theorem array_ext {layout : Layout} {dims : List Int} {a b : Array α} (hpos : ∀ d ∈ dims, 0 < d)
    (ha : (a.size : Int) = Shape.count dims) (hb : (b.size : Int) = Shape.count dims)
    (h : ∀ sub, InRange dims sub → a[(position layout dims sub).toNat]? = b[(position layout dims sub).toNat]?) :
    a = b := by
  apply Array.ext_getElem?
  intro i
  by_cases hi : (i : Int) < Shape.count dims
  · obtain ⟨sub, hsub, hposition⟩ := exists_position layout hpos (Int.natCast_nonneg i) hi
    have heq := h sub hsub
    rwa [hposition, Int.toNat_natCast] at heq
  · rw [Array.getElem?_eq_none (by omega), Array.getElem?_eq_none (by omega)]

end C

/-! ## Lowered programs -/

namespace Lowered

open C Typed

variable {α : Type} [Scalar α] {K : ShapeClass} {p : Typed.Program} {r q : Program} {cs : List Clause}
variable (h : Lowered K p r q cs)
include h

theorem addressable (hcount : ∀ s ∈ r.symbols.all, Shape.count s.shape < 0x80000000) :
    Addressable q.find.shapes := by
  intro name stored hS
  rw [Symbols.shapes, Option.map_eq_some_iff] at hS
  obtain ⟨s, hs, rfl⟩ := hS
  refine ⟨K.pos (h.stage.sound.symbols name s hs), hcount s ?_⟩
  rw [h.tidy.mem_all, h.find_eq, h.stage.tidy.name_eq hs, hs]

theorem find_live {name : String} {s : Symbol} (hs : r.live name = some s) : q.find name = some s := by
  rw [← h.find_eq]
  exact (Program.live_eq_some_iff.1 hs).1

theorem live_shapes {name : String} {stored : Shape} (hS : r.live.shapes name = some stored) :
    q.find.shapes name = some stored := by
  rw [Symbols.shapes, Option.map_eq_some_iff] at hS
  obtain ⟨s, hs, rfl⟩ := hS
  exact Symbols.shapes_eq (h.find_live hs)

/-- The interpreter runs the clauses on what the tensors start with. -/
theorem interpret_spec (hS : Addressable q.find.shapes) {inputs : Inputs α} (hinputs : inputs.Fill q.find) :
    ∃ mem m, r.interpret inputs = .ok m ∧ m.Fits q.find.shapes ∧
      (∀ name s, q.find name = some s → mem.get? name = some (s.start inputs)) ∧
      Cells.Agree q.find.shapes (cellsOf m) (runClauses cs (cellsOf mem)) := by
  have hholdable : ∀ name s, q.find name = some s → holdable.Mem s.shape := fun name s hs => by
    obtain ⟨hpos, hlt⟩ := hS name s.shape (Symbols.shapes_eq hs)
    have hcount := Shape.count_pos hpos
    refine ⟨hpos, ?_⟩
    rw [holdsElements, Bool.and_eq_true, decide_eq_true_eq, decide_eq_true_eq, arrayBytes]
    omega
  obtain ⟨mem, hinit, hmem, hstart⟩ :=
    h.stage.tidy.initialMemory_spec holdable_bounded hholdable hinputs
  obtain ⟨m, hm, hfits, -, hcells⟩ := h.run_spec (fun name stored hstored =>
    Int.le_of_lt (Int.lt_trans (hS name stored hstored).2 (by decide))) hmem
  refine ⟨mem, m, ?_, hfits, hstart, hcells⟩
  rw [Program.interpret, h.symbols_eq, hinit]
  exact hm

/-- The cells whose contents at the start of a kernel matter: those of inputs. -/
def Supplied (p : Program) (name : String) (sub : List Int) : Prop :=
  ∃ s, p.live name = some s ∧ InRange s.shape sub ∧ s.role.isInput = true

/-- The clauses leave the same in the tensors that they write when they start with the same in these
cells. -/
theorem written_cells {σ τ : Cells α} (hsame : ∀ name sub, Supplied r name sub → σ name sub = τ name sub)
    {name : String} {s : Symbol} (hs : r.live name = some s) (hwritten : name ∈ r.written) {sub : List Int}
    (hsub : InRange s.shape sub) : runClauses cs σ name sub = runClauses cs τ name sub := by
  obtain ⟨c, hc, rfl⟩ := h.mem_written.mp hwritten
  refine h.stage.sound.ordered.runClauses_eq h.stage.sound.fits (P := Supplied r) ?_ hsame
    (.inr (h.stage.sound.filled c hc s (h.find_live hs) sub hsub))
  rintro name stored sub hstored hsub (⟨s, hs, hinput⟩ | ⟨n, hn, -⟩)
  · rw [Symbols.shapes_eq hs] at hstored
    cases hstored
    exact ⟨s, Program.live_eq_some_iff.2 ⟨by rw [h.find_eq, hs], .inl (Role.isFormal_iff.2 (.inl hinput))⟩,
      hsub, hinput⟩
  · cases hn

/-- The clauses leave a tensor that they do not write as it is. -/
theorem other_cells {name : String} (hother : name ∉ r.written) (σ : Cells α) :
    runClauses cs σ name = σ name :=
  runClauses_of_notMem (fun c hc heq => hother (h.mem_written.mpr ⟨c, hc, heq⟩)) σ

section

variable {opts : EmitOptions} {code : Code} {f : Function} (hf : Emits r opts code f) {inputs : Inputs α}
  {args : List (Array α)} (hargs : List.Forall₂ (Supplies opts.layout inputs) r.symbols.formals args)
  (contents : String → Nat → α)
include hf hargs

theorem start_formal {s : Symbol} (hs : s ∈ r.symbols.formals) : ∃ a, Supplies opts.layout inputs s a ∧
    (startArrays f.params f.buffers contents args).get? s.name = some a := by
  obtain ⟨i, hi⟩ := List.mem_iff_getElem?.mp hs
  obtain ⟨a, ha, hsupplies⟩ := forall₂_getElem? hargs hi
  refine ⟨a, hsupplies, hf.start_formal h.tidy hargs.length_eq.symm contents (x := (s, a)) ?_⟩
  exact List.mem_iff_getElem?.mpr ⟨i, List.getElem?_zip_eq_some.mpr ⟨hi, ha⟩⟩

theorem start_holds (hS : Addressable r.live.shapes) :
    Holds r.live.shapes (startArrays f.params f.buffers contents args) := by
  intro name stored hstored
  obtain ⟨hpos, hlt⟩ := hS name stored hstored
  rw [Symbols.shapes, Option.map_eq_some_iff] at hstored
  obtain ⟨s, hs, rfl⟩ := hstored
  obtain ⟨hfind, hlive⟩ := Program.live_eq_some_iff.1 hs
  obtain rfl := h.tidy.name_eq hfind
  cases hformal : s.role.isFormal with
  | true =>
    obtain ⟨a, hsupplies, ha⟩ := h.start_formal hf hargs contents
      ((Program.mem_formals h.tidy).mpr ⟨hfind, hformal⟩)
    exact ⟨a, ha, hsupplies.size⟩
  | false =>
    have hwritten := hlive.resolve_left (by rw [hformal]; decide)
    obtain ⟨a, ha, hsize⟩ := hf.start_buffer h.tidy hargs.length_eq.symm contents hfind hformal hwritten
    have hcount := Shape.count_pos hpos
    rw [Shape.size_eq_count hpos (by omega)] at hsize
    exact ⟨a, ha, by omega⟩

/-- In the cells that matter, a kernel starts with what the tensors start with. -/
theorem start_cells {mem : Memory α}
    (hstart : ∀ name s, q.find name = some s → mem.get? name = some (s.start inputs)) (name : String)
    (sub : List Int) (hsupplied : Supplied r name sub) :
    cellsIn opts.layout r.live.shapes (startArrays f.params f.buffers contents args) name sub =
      cellsOf mem name sub := by
  obtain ⟨s, hs, hsub, hinput⟩ := hsupplied
  have hfind := (Program.live_eq_some_iff.1 hs).1
  obtain rfl := h.tidy.name_eq hfind
  obtain ⟨a, hsupplies, ha⟩ := h.start_formal hf hargs contents
    ((Program.mem_formals h.tidy).mpr ⟨hfind, Role.isFormal_iff.2 (.inl hinput)⟩)
  rw [cellsIn_eq (Symbols.shapes_eq hs) ha, cellsOf, hstart s.name s (h.find_live hs)]
  exact (hsupplies.holds hinput).elements sub hsub

end

/-- The function of a lowered program leaves in its arguments what the interpreter leaves in the formal
tensors. -/
theorem function_spec (hcount : ∀ s ∈ r.symbols.all, Shape.count s.shape < 0x80000000) {opts : EmitOptions}
    {code : Code} {f : Function} (hf : Emits r opts code f)
    (hruns : Runs (α := α) opts.layout r.live.shapes f.body (runClauses cs)) {inputs : Inputs α}
    (hinputs : inputs.Fill q.find) :
    ∃ m, r.interpret inputs = .ok m ∧ ∀ contents args,
      List.Forall₂ (Supplies opts.layout inputs) r.symbols.formals args →
        ∃ outs, f.run id contents args = some outs ∧
          List.Forall₂ (Returns r opts.layout inputs m) (r.symbols.formals.zip args) outs := by
  have hS := h.addressable hcount
  obtain ⟨mem, m, hm, hfits, hstart, hcells⟩ := h.interpret_spec hS hinputs
  refine ⟨m, hm, fun contents args hargs => ?_⟩
  have hS' : Addressable r.live.shapes := fun name stored hstored => hS name stored (h.live_shapes hstored)
  obtain ⟨A, hrun, hholds, hcells'⟩ := hruns _ hS' (h.start_holds hf hargs contents hS')
  have hnames : f.params = (r.symbols.formals.zip args).map fun x => x.1.name := by
    have hfirst := List.map_fst_zip (Nat.le_of_eq hargs.length_eq)
    exact hf.params.trans ((congrArg _ hfirst.symm).trans List.map_map)
  rw [Function.run, hrun, hnames]
  refine exists_mapM_rel fun x hx => ?_
  have hargument := hf.start_formal h.tidy hargs.length_eq.symm contents hx
  obtain ⟨s, a⟩ := x
  obtain ⟨hfind, hformal⟩ := (Program.mem_formals h.tidy).mp (List.of_mem_zip hx).1
  have hlive := Program.live_eq_some_iff.2 ⟨hfind, .inl hformal⟩
  have hshape := Symbols.shapes_eq hlive
  obtain ⟨out, hout, hsize⟩ := hholds s.name s.shape hshape
  obtain ⟨t, ht, hdims, -⟩ := hfits s.name s.shape (h.live_shapes hshape)
  -- what the clauses leave in the array, and what they leave in the memory
  have harray : ∀ sub, InRange s.shape sub → out[(position opts.layout s.shape sub).toNat]? = runClauses cs
      (cellsIn opts.layout r.live.shapes (startArrays f.params f.buffers contents args)) s.name sub :=
    fun sub hsub => (cellsIn_eq hshape hout sub).symm.trans (hcells' s.name _ sub hshape hsub)
  have htensor : ∀ sub, InRange s.shape sub → t.get? sub = runClauses cs (cellsOf mem) s.name sub := by
    intro sub hsub
    rw [← hcells s.name _ sub (h.live_shapes hshape) hsub, cellsOf, ht]
    rfl
  have hstores : (∀ sub, InRange s.shape sub → out[(position opts.layout s.shape sub).toNat]? = t.get? sub) →
      Leaves opts.layout m s out := fun hall => by
    rw [← hdims] at hsize hall
    exact ⟨t, ht, hsize, hall⟩
  by_cases hwritten : s.name ∈ r.written
  · refine ⟨out, hout, fun _ => hstores fun sub hsub => ?_, fun hother => absurd hwritten hother⟩
    rw [harray sub hsub, htensor sub hsub]
    exact h.written_cells (h.start_cells hf hargs contents hstart) hlive hwritten hsub
  · have hsupplies := (List.forall₂_iff_zip.mp hargs).2 hx
    have hkept : ∀ sub, InRange s.shape sub → out[(position opts.layout s.shape sub).toNat]? =
        a[(position opts.layout s.shape sub).toNat]? := fun sub hsub => by
      rw [harray sub hsub, h.other_cells hwritten, cellsIn_eq hshape hargument]
    have hsame : out = a := array_ext (hS' s.name _ hshape).1 hsize hsupplies.size hkept
    refine ⟨out, hout, fun hor => hstores fun sub hsub => ?_, fun _ => hsame⟩
    have hheld := hor.resolve_left hwritten
    rw [htensor sub hsub, h.other_cells hwritten, cellsOf, hstart s.name s (h.find_live hlive), hsame]
    exact hheld.elements sub hsub

end Lowered

/-! ## Names -/

theorem isWord_of_isIdentifier {name : String} (h : Typed.isIdentifier name) : C.IsWord name := by
  have hstart : ∀ {c : Char}, Typed.isIdentStart c = true → Compiler.Token.isNameChar c = true := by
    intro c hc
    rw [Typed.isIdentStart, Bool.or_eq_true] at hc
    rcases hc with hc | hc <;> simp [Compiler.Token.isNameChar, Char.isAlphanum, hc]
  intro c hc
  rw [Typed.isIdentifier] at h
  split at h
  · rename_i hnil
    rw [hnil] at hc
    cases hc
  · rename_i c' cs hcs
    rw [hcs] at hc
    rw [Bool.and_eq_true, List.all_eq_true] at h
    rcases List.mem_cons.mp hc with rfl | hc
    · exact hstart h.1
    · rcases Bool.or_eq_true_iff.mp (h.2 c hc) with hc | hc
      · exact hstart hc
      · exact C.isNameChar_of_isDigit hc

/-- The names of a lowered program can stand in a text: they are those of the typed program and those
that the passes hand out. -/
theorem lower_spelled {p : Typed.Program} {fuse : Bool} {q : Program} (h : lower p fuse = .ok q) :
    C.IsWord q.name ∧ C.Spelled q := by
  cases hbuild : build p with
  | error e =>
    rw [lower, hbuild] at h
    cases h
  | ok q₀ =>
    rw [lower, hbuild] at h
    obtain ⟨hvalid, hhead, hname⟩ := build_eq_ok hbuild
    have hp := Typed.Program.Valid.checked hvalid p.within_positive
    have htidy := build_tidy hbuild
    have hleads := runPasses_leads (passes_make fuse) h
    refine ⟨?_, .of_find (hleads.keeps (fun ht hstep _ => ht.step hstep) htidy) ?_⟩
    · rw [hleads.name, hname]
      exact isWord_of_isIdentifier hvalid.isIdentifier_name
    · refine hleads.named htidy (fun root hroot n => ?_) fun name s hs => ?_
      · have hword : ∀ root ∈ passRoots, C.IsWord root := by decide
        intro c hc
        rw [NameSupply.numbered, String.toList_append] at hc
        exact (List.mem_append.mp hc).elim (hword root hroot c) (C.isWord_natural n c)
      · rw [Program.find, hhead.1] at hs
        have hdecl := hp.find_ofList ▸ hs
        obtain rfl := htidy.name_eq (by rwa [Program.find, hhead.1])
        exact isWord_of_isIdentifier (hp.fits s (List.mem_of_find?_eq_some hdecl)).name

namespace Lowered

variable {K : ShapeClass} {p : Typed.Program} {r q : Program} {cs : List Clause} (h : Lowered K p r q cs)
variable {opts : EmitOptions} {code : C.Code} {f : C.Function} (hf : C.Emits r opts code f)
include h

theorem places_live : ∀ a ∈ r.assignments, ∃ c, r.Places a c ∧ c.Fits K.nodes r.live := fun a ha => by
  obtain ⟨c, hc, hplaces⟩ := h.exists_clause ha
  exact ⟨c, hplaces, h.fits_live c hc⟩

include hf

/-- The text of the kernel of a lowered program is read as its function. -/
theorem read?_source (hspelled : C.Spelled r) (hname : C.IsFunctionName f.name) (constant : String → Float) :
    C.Source.read? constant f.element code.source = some (f.reading constant) :=
  hf.read?_source h.places_live (fun _ _ hs => (Program.live_eq_some_iff.1 hs).1) hspelled hname constant

/-- The kernel of a lowered program runs as it is read. -/
theorem run_reading {α : Type} [Scalar α] {constant : String → Float} (hconstant : C.Faithful α constant r)
    (contents : String → Nat → α) {args : List (Array α)} (hargs : args.length = r.symbols.formals.length) :
    (f.reading constant).run id contents args = f.run id contents args := by
  refine C.Function.run_reading (V := ⟨fun _ => True, C.FaithfulAt α constant⟩) (fun _ hv => hv)
    (hf.usesAll h.places_live (fun _ _ _ => trivial) hconstant) (hf.arrays_nodup h.tidy) id contents ?_
  rw [hf.params, List.length_map, hargs]

end Lowered

/-- Code for columns of single precision that uses flat loops. -/
def columns : EmitOptions := { layout := .columnMajor, dtype := .float32, coalesce := true }

/-- Inputs for both tensors of `symmetrized`. -/
def symmetrizedInputs : Inputs Float := [("x", [1, 2]), ("a", [1, 2, 3, 4])]

theorem symmetrizedInputs_fill : symmetrizedInputs.Fill symmetrized.decl? :=
  .cons (.cons (Inputs.fill_nil _) rfl rfl rfl) rfl rfl rfl

/-- The kernel takes the columns of the matrix one after the other. -/
theorem symmetrized_supplies {q : Program} (h : lower symmetrized true = .ok q) :
    List.Forall₂ (C.Supplies .columnMajor symmetrizedInputs) q.symbols.formals [#[1, 2], #[1, 3, 2, 4]] := by
  have hformals : symmetrizedSymbols.formals = [⟨"x", [2], .input⟩, ⟨"a", [2, 2], .inout⟩] := by decide
  rw [(lower_symmetrized h).1, hformals]
  have hx : C.Stores .columnMajor (Symbol.start symmetrizedInputs ⟨"x", [2], .input⟩) #[1, 2] :=
    .of_indices [1, 2] rfl rfl rfl
  have ha : C.Stores .columnMajor (Symbol.start symmetrizedInputs ⟨"a", [2, 2], .inout⟩) #[1, 3, 2, 4] :=
    .of_indices [1, 2, 3, 4] rfl rfl rfl
  exact .cons ⟨rfl, fun _ => hx⟩ (.cons ⟨rfl, fun _ => ha⟩ .nil)

end LoopNest
