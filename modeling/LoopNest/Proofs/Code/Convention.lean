import LoopNest.Proofs.Code.Refinement
import LoopNest.Proofs.Kernel

/-!
# The calling convention

The arguments of a kernel are the formal tensors of the typed program in the order of their
declarations, and all that numbers them agrees: the parameters of the function and the entry point that
hands the arguments on, as the text of the kernel is read, the description of the code, and the kernel
that is built from it (`emit_convention`). All other arrays of the function are buffers that it allocates
and frees.
-/

namespace LoopNest

theorem RawText.ofText_injective {a b : String} (h : ofText a = ofText b) : a = b :=
  String.toByteArray_inj.mp (ByteArray.ext (Array.toList_inj.mp (RawText.mk.inj h)))

/-! ## Formal tensors -/

/-- The formal tensors of a typed program: the inputs, then the outputs that are not inputs. -/
def Typed.Program.formals (p : Typed.Program) : List Symbol :=
  p.decls.filter (·.role.isInput) ++ p.decls.filter fun s => s.role.isOutput && !s.role.isInput

theorem Program.Declares.formals_eq {p : Typed.Program} {q : Program} (h : q.Declares p.decls) :
    q.symbols.formals = p.formals := by
  have hfilter : ∀ P : Symbol → Bool, (∀ s : Symbol, s.role = .synthesized → P s = false) →
      q.symbols.all.filter P = p.decls.filter P := by
    intro P hP
    rw [← h.declared, SymbolTable.declared, List.filter_filter]
    refine List.filter_congr fun s hs => ?_
    cases hsynth : s.role.isSynthesized with
    | false => simp
    | true => rw [hP s (h.others s hs hsynth), Bool.false_and]
  rw [SymbolTable.formals, Typed.Program.formals]
  congr 1
  · exact hfilter _ fun s hs => by rw [hs]; rfl
  · exact hfilter _ fun s hs => by rw [hs]; rfl

/-- The symbols of a program that was built are the declared ones. -/
theorem Typed.Program.Checked.declares {K : ShapeClass} {p : Typed.Program} (h : p.Checked K)
    {q : LoopNest.Program} (htidy : q.Tidy) (hsym : q.symbols = SymbolTable.ofList p.decls) :
    q.Declares p.decls := by
  have hall : q.symbols.all = p.decls := by
    rw [hsym, SymbolTable.all, OrderedMap.values, h.entries_ofList, List.map_map]
    exact List.map_id p.decls
  have hdeclared : ∀ s ∈ p.decls, s.role.isSynthesized = false := fun s hs => (h.fits s hs).declared
  refine ⟨?_, fun s hs hsynth => ?_, htidy.taken⟩
  · rw [SymbolTable.declared, hall, List.filter_eq_self]
    intro s hs
    rw [hdeclared s hs, Bool.not_false]
  · rw [hdeclared s (hall ▸ hs)] at hsynth
    cases hsynth

/-! ## Positions -/

section

variable {τ υ : Type _} [BEq υ] [LawfulBEq υ] {f : τ → υ} {l : List τ} {i : Nat} {x : τ}

/-- The first place of a key that occurs once. -/
theorem findIdx?_of_nodup (hnd : (l.map f).Nodup) (hi : l[i]? = some x) :
    l.findIdx? (f · == f x) = some i := by
  induction l generalizing i with
  | nil => cases hi
  | cons y l ih =>
    rw [List.map_cons, List.nodup_cons] at hnd
    cases i with
    | zero =>
      cases hi
      rw [List.findIdx?_cons, beq_self_eq_true]
      rfl
    | succ i =>
      have hmem : f x ∈ l.map f := List.mem_map_of_mem (List.mem_of_getElem? hi)
      have hne : (f y == f x) = false := beq_eq_false_iff_ne.mpr fun heq => hnd.1 (heq ▸ hmem)
      rw [List.findIdx?_cons, hne, ih hnd.2 hi]
      rfl

/-- The last place of a key that occurs once. -/
theorem findIdx?_reverse_of_nodup (hnd : (l.map f).Nodup) (hi : l[i]? = some x) :
    l.reverse.findIdx? (f · == f x) = some (l.length - 1 - i) := by
  have hlt := (List.getElem?_eq_some_iff.mp hi).1
  apply findIdx?_of_nodup
  · rw [List.map_reverse]
    exact List.nodup_reverse.mpr hnd
  · rw [List.getElem?_reverse (by omega), ← hi]
    congr 1
    omega

end

namespace Kernel

variable {code : C.Code}

theorem position_eq {k : Kernel} {i : Nat} {a : C.Formal}
    (h : k.formals = code.formals.map Manifest.Formal.ofCode)
    (hnd : (code.formals.map (·.name)).Nodup) (hi : code.formals[i]? = some a) :
    k.position a.name = .ok i := by
  have hnames : (k.formals.map (·.name)).Nodup := by
    rw [h, List.map_map]
    have := hnd.map fun _ _ => RawText.ofText_injective
    rwa [List.map_map] at this
  have hget : k.formals[i]? = some (.ofCode a) := by rw [h, List.getElem?_map, hi, Option.map_some]
  have hlt := (List.getElem?_eq_some_iff.mp hget).1
  have hfind := findIdx?_reverse_of_nodup hnames hget
  rw [position, show RawText.ofText a.name = (Manifest.Formal.ofCode a).name from rfl, hfind]
  exact congrArg Except.ok (by omega)

end Kernel

/-! ## Functions and texts -/

namespace C

/-- The arrays of a function: the parameters are the arguments of the code, the buffers differ from them
and from one another, and statements work with nothing else. -/
structure Arranged (c : Code) (params : List String) (buffers : List (String × Int)) (body : List Stmt) :
    Prop where
  formals : params = c.formals.map (·.name)
  nodup : (params ++ buffers.map (·.1)).Nodup
  arrays : ∀ name ∈ Stmt.tensorsAll body, name ∈ params ∨ name ∈ buffers.map (·.1)

/-- The text of a kernel is that of its code: both have the names of the function and of its entry point,
which passes its arguments on as they come, and what the function allocates at the start it frees at the
end. -/
structure Source.Keeps (s : Source) (c : Code) : Prop extends Arranged c s.params s.buffers s.body where
  name : s.name = c.funcName
  entry : s.entry = c.entry
  passed : s.passed = List.range c.formals.length
  freed : s.freed = s.buffers.map (·.1)

/-- What is read of a function keeps to the arrangement of its code. -/
theorem Emits.keeps {p : Program} {opts : EmitOptions} {c : Code} {f : Function} (h : Emits p opts c f)
    (harranged : Arranged c f.params f.buffers f.body) (constant : String → Float) :
    (f.reading constant).Keeps c := by
  refine ⟨⟨harranged.formals, harranged.nodup, fun name hname => harranged.arrays name ?_⟩, h.funcName.symm,
    h.entry.symm, ?_, rfl⟩
  · rwa [Function.reading, Stmt.tensorsAll_reading] at hname
  · show List.range f.params.length = _
    rw [harranged.formals, List.length_map]

/-- An argument has its position in the description of the code and in every kernel that is built from
it. -/
structure Numbered (c : Code) (i : Nat) (name : String) : Prop where
  code : c.position? name = some i
  kernel : ∀ {ω : Type} (host : Host ω) (opts : Kernel.BuildOptions) (s s' : Stage ω) (k : Kernel),
    Kernel.build host c opts s = .ok k s' → k.position name = .ok i

theorem numbered {c : Code} (hnd : (c.formals.map (·.name)).Nodup) {i : Nat} {a : Formal}
    (ha : c.formals[i]? = some a) : Numbered c i a.name :=
  ⟨findIdx?_of_nodup hnd ha, fun _ opts s s' k hk =>
    Kernel.position_eq (Kernel.build_returns opts s k s' hk).1 hnd ha⟩

end C

/-! ## Lowered programs -/

namespace Lowered

variable {K : ShapeClass} {p : Typed.Program} {r q : Program} {cs : List Clause} (h : Lowered K p r q cs)
include h

theorem live_arrays {name : String} {s : Symbol} (hs : r.live name = some s) :
    name ∈ r.symbols.formals.map (·.name) ∨
      name ∈ (r.symbols.buffers.filter fun s => r.written.contains s.name).map Symbol.name := by
  obtain ⟨hfind, hlive⟩ := Program.live_eq_some_iff.mp hs
  obtain rfl := h.tidy.name_eq hfind
  cases hformal : s.role.isFormal with
  | true => exact .inl (List.mem_map_of_mem ((Program.mem_formals h.tidy).mpr ⟨hfind, hformal⟩))
  | false =>
    have hwritten := hlive.resolve_left (by rw [hformal]; decide)
    exact .inr (List.mem_map_of_mem (List.mem_filter.mpr
      ⟨(Program.mem_buffers h.tidy).mpr ⟨hfind, hformal⟩, List.contains_iff_mem.mpr hwritten⟩))

/-- The kernel of a lowered program has an array for each tensor that it works with. -/
theorem arranged {opts : EmitOptions} {c : C.Code} {f : C.Function} (hf : C.Emits r opts c f) :
    C.Arranged c f.params f.buffers f.body := by
  refine ⟨?_, hf.arrays_nodup h.tidy, ?_⟩
  · rw [hf.params, hf.formals, List.map_map]
    rfl
  · refine (hf.usesAll (V := ⟨fun name => name ∈ f.params ∨ name ∈ f.buffers.map (·.1), fun _ => True⟩)
      h.places_live (fun name s hs => ?_) fun _ _ _ _ _ => trivial).tensors
    rw [hf.params, hf.buffers, List.map_map]
    exact h.live_arrays hs

end Lowered

/-- The passes of a valid program succeed one after the other, and each leaves the declared tensors as
they are, in their order. -/
theorem runPasses_take {p : Typed.Program} (hvalid : p.Valid) (hcoh : p.Coherent) (fuse : Bool) (n : Nat) :
    ∃ q₀ q, build p = .ok q₀ ∧ runPasses q₀ ((passes fuse).take n) = .ok q ∧ q.Declares p.decls := by
  have hp := Typed.Program.Valid.checked hvalid p.within_positive
  obtain ⟨q₀, cs₀, hbuild, -, -, -, htidy, -, -, hsym, -⟩ := build_spec hvalid hcoh hp
  obtain ⟨r, q, cs, hlower, -⟩ := lower_spec hvalid hcoh hp fuse
  have hrun : runPasses q₀ ((passes fuse).take n ++ (passes fuse).drop n) = .ok r := by
    rw [lower, hbuild] at hlower
    rw [List.take_append_drop]
    exact hlower
  obtain ⟨qₙ, htake, -⟩ := runPasses_append hrun
  have hleads : q₀.Leads qₙ :=
    runPasses_leads (fun pass hpass => passes_make fuse pass (List.mem_of_mem_take hpass)) htake
  exact ⟨q₀, qₙ, hbuild, htake, hleads.declares (hp.declares htidy hsym)⟩

end LoopNest
