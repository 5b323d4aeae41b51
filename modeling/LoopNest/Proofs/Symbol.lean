import LoopNest.IR.Basic
import Mathlib.Data.List.Nodup
import Mathlib.Data.List.Perm.Basic

/-!
# Symbol tables and fresh names

What the operations of ordered maps do to look-ups, and that a fresh name was not taken: it was
neither registered nor handed out before (`NameSupply.Reached.unused`). A table is `Keyed` when its
keys are the names of its symbols, each of them once, and a program is `Tidy` when all of these are
taken, too.
-/

namespace LoopNest

namespace OrderedMap

variable {κ : Type _} {ν : Type _} [DecidableEq κ]

theorem get?_insert (m : OrderedMap κ ν) (k k' : κ) (v : ν) :
    (m.insert k v).get? k' = if k' = k then some v else m.get? k' := by
  obtain ⟨entries⟩ := m
  simp only [insert, get?]
  induction entries with
  | nil =>
    simp only [insertIn, List.find?_cons]
    by_cases h : k = k' <;> simp [h, eq_comm]
  | cons e rest ih =>
    unfold insertIn
    by_cases he : e.1 = k
    · by_cases h : k = k' <;> simp_all [eq_comm]
    · by_cases h : e.1 = k'
      · have hk : k' ≠ k := fun hk => he (h.trans hk)
        simp [h, hk]
      · simp [he, h, ih]

theorem keys_insert (m : OrderedMap κ ν) (k : κ) (v : ν) (h : k ∉ m.keys) :
    (m.insert k v).entries = m.entries ++ [(k, v)] := by
  obtain ⟨entries⟩ := m
  simp only [insert, keys] at h ⊢
  induction entries with
  | nil => rfl
  | cons e rest ih =>
    simp only [List.map_cons, List.mem_cons, not_or] at h
    rw [insertIn, if_neg fun he => h.1 he.symm, ih h.2, List.cons_append]

theorem get?_eq_none_iff {m : OrderedMap κ ν} {k : κ} : m.get? k = none ↔ k ∉ m.keys := by
  simp only [get?, keys, Option.map_eq_none_iff, List.find?_eq_none, decide_eq_true_eq,
    List.mem_map, not_exists, not_and]

theorem mem_of_get? {m : OrderedMap κ ν} {k : κ} {v : ν} (h : m.get? k = some v) :
    (k, v) ∈ m.entries := by
  obtain ⟨e, he, rfl⟩ := Option.map_eq_some_iff.mp h
  have hkey : e.1 = k := by simpa using List.find?_some he
  exact hkey ▸ List.mem_of_find?_eq_some he

theorem get?_eq_some_iff {m : OrderedMap κ ν} (h : m.keys.Nodup) {k : κ} {v : ν} :
    m.get? k = some v ↔ (k, v) ∈ m.entries := by
  obtain ⟨entries⟩ := m
  simp only [keys, get?, Option.map_eq_some_iff] at h ⊢
  induction entries with
  | nil => simp
  | cons e rest ih =>
    simp only [List.map_cons, List.nodup_cons] at h
    by_cases he : e.1 = k
    · have hnot : (k, v) ∉ rest := fun hmem => h.1 (he ▸ List.mem_map_of_mem (f := Prod.fst) hmem)
      simp only [List.find?_cons, he, decide_true, List.mem_cons, hnot, or_false]
      constructor
      · rintro ⟨a, ha, rfl⟩
        cases ha
        rw [← he]
      · rintro rfl
        exact ⟨_, rfl, rfl⟩
    · have hne : (k, v) ≠ e := fun h => he (h ▸ rfl)
      simp only [List.find?_cons, he, decide_false, List.mem_cons, hne, false_or]
      exact ih h.2

theorem get?_erase {m : OrderedMap κ ν} (h : m.keys.Nodup) (k k' : κ) :
    (m.erase k).get? k' = if k' = k then none else m.get? k' := by
  obtain ⟨entries⟩ := m
  simp only [keys, erase, get?] at h ⊢
  induction entries with
  | nil => simp
  | cons e rest ih =>
    simp only [List.map_cons, List.nodup_cons] at h
    by_cases he : e.1 = k
    · simp only [he, decide_true, List.eraseP_cons_of_pos]
      by_cases hk : k' = k
      · subst hk
        rw [if_pos rfl, Option.map_eq_none_iff, List.find?_eq_none]
        intro x hx hx'
        exact h.1 (he ▸ of_decide_eq_true hx' ▸ List.mem_map_of_mem (f := Prod.fst) hx)
      · simp [hk, he, eq_comm]
    · rw [List.eraseP_cons_of_neg (by simpa using he)]
      by_cases hk : e.1 = k'
      · have : k' ≠ k := fun h => he (hk.trans h)
        simp [hk, this]
      · simpa [List.find?_cons, hk] using ih h.2

theorem erase_sublist (m : OrderedMap κ ν) (k : κ) : (m.erase k).entries.Sublist m.entries :=
  List.eraseP_sublist

end OrderedMap

/-! ## Fresh names -/

theorem repr_injective {m n : Nat} (h : toString m = toString n) : m = n := by
  have h' : m.repr = n.repr := h
  rw [← Nat.ofDigitChars_ten_toDigits (n := m), ← Nat.ofDigitChars_ten_toDigits (n := n),
    ← Nat.toList_repr, ← Nat.toList_repr, h']

namespace NameSupply

theorem numbered_injective (root : String) {i j : Nat}
    (h : numbered root i = numbered root j) : i = j :=
  repr_injective (String.append_right_inj root |>.mp h)

/-- The search of `firstFree` finds a number. More candidates are tried than there are taken names, and
they are all different. -/
theorem exists_firstFree (s : NameSupply) (root : String) :
    ∃ k, s.firstFree root = s.nextOf root + k ∧ numbered root (s.nextOf root + k) ∉ s.taken ∧
      ∀ j < k, numbered root (s.nextOf root + j) ∈ s.taken := by
  simp only [firstFree]
  split
  · rename_i k hk
    obtain ⟨hfree, -, htaken⟩ := List.find?_range_eq_some.mp hk
    refine ⟨k, rfl, by simpa [isTaken] using hfree, fun j hj => ?_⟩
    simpa [isTaken] using htaken j hj
  · rename_i hnone
    rw [List.find?_eq_none] at hnone
    have hsub : (List.range (s.taken.length + 1)).map (fun i => numbered root (s.nextOf root + i)) ⊆
        s.taken := by
      intro name hname
      obtain ⟨i, hi, rfl⟩ := List.mem_map.mp hname
      simpa [isTaken] using hnone i hi
    have hnd : ((List.range (s.taken.length + 1)).map
        fun i => numbered root (s.nextOf root + i)).Nodup :=
      List.nodup_range.map fun i j hij => by
        have := numbered_injective root hij
        omega
    have := (List.subperm_of_subset hnd hsub).length_le
    rw [List.length_map, List.length_range] at this
    omega

/-- A fresh name was not taken before. -/
theorem fresh_notMem (s : NameSupply) (root : String) : (s.fresh root).1 ∉ s.taken := by
  obtain ⟨k, hk, hfree, -⟩ := s.exists_firstFree root
  rw [fresh, hk]
  exact hfree

theorem name_notMem (s : NameSupply) (root : String) : (s.name root).1 ∉ s.taken := by
  rw [name]
  split
  · exact s.fresh_notMem root
  · rename_i hfree
    simpa [isTaken] using hfree

/-- The number of a fresh name is written in digits. -/
theorem fresh_toList {s : NameSupply} {root : String} {c : Char}
    (h : c ∈ (s.fresh root).1.toList) : c ∈ root.toList ∨ c.isDigit := by
  simp only [fresh, numbered, String.toList_append, List.mem_append] at h
  refine h.imp_right fun h => ?_
  rw [show toString (s.firstFree root) = (s.firstFree root).repr from rfl, Nat.toList_repr] at h
  exact Nat.isDigit_of_mem_toDigits (by omega) (by omega) h

/-- A fresh name can be told from texts with fixed indices. -/
theorem fresh_plain (s : NameSupply) {root : String} (hroot : '\x7b' ∉ root.toList) :
    '\x7b' ∉ (s.fresh root).1.toList :=
  fun h => (fresh_toList h).elim hroot (by decide)

theorem taken_fresh (s : NameSupply) (root : String) :
    (s.fresh root).2.taken = (s.fresh root).1 :: s.taken := rfl

theorem taken_name (s : NameSupply) (root : String) :
    (s.name root).2.taken = (s.name root).1 :: s.taken := by
  rw [name]
  split
  · exact s.taken_fresh root
  · rfl

/-- The search for a free name, one number after the other: from `i` on it ends at `j`. -/
inductive Finds (s : NameSupply) (root : String) : Nat → Nat → Prop
  | free : numbered root i ∉ s.taken → Finds s root i i
  | next : numbered root i ∈ s.taken → Finds s root (i + 1) j → Finds s root i j

theorem finds_of_taken {s : NameSupply} {root : String} {k i : Nat}
    (htaken : ∀ j < k, numbered root (i + j) ∈ s.taken) (hfree : numbered root (i + k) ∉ s.taken) :
    s.Finds root i (i + k) := by
  induction k generalizing i with
  | zero => exact .free hfree
  | succ k ih =>
    have hrest := ih (i := i + 1) (fun j hj => by
      rw [Nat.add_right_comm]
      exact htaken (j + 1) (by omega)) (by rwa [Nat.add_right_comm])
    rw [Nat.add_right_comm] at hrest
    exact .next (htaken 0 (by omega)) hrest

/-- However many names are taken, the search ends. -/
theorem finds_firstFree (s : NameSupply) (root : String) :
    s.Finds root (s.nextOf root) (s.firstFree root) := by
  obtain ⟨k, hk, hfree, htaken⟩ := s.exists_firstFree root
  rw [hk]
  exact finds_of_taken htaken hfree

/-- A supply that calls lead to from the empty one, and the names that they have registered or
returned. -/
inductive Reached : NameSupply → List String → Prop
  | new : Reached {} []
  | register (names : List String) : Reached s used → Reached (s.register names) (names ++ used)
  | name (root : String) : Reached s used → Reached (s.name root).2 ((s.name root).1 :: used)
  | fresh (root : String) : Reached s used → Reached (s.fresh root).2 ((s.fresh root).1 :: used)

theorem Reached.mem_taken {s : NameSupply} {used : List String} (h : Reached s used) {name : String} :
    name ∈ s.taken ↔ name ∈ used := by
  induction h with
  | new => rfl
  | register names _ ih => simp only [NameSupply.register, List.mem_append, List.mem_reverse, ih]
  | name root _ ih => rw [taken_name, List.mem_cons, List.mem_cons, ih]
  | fresh root _ ih => rw [taken_fresh, List.mem_cons, List.mem_cons, ih]

/-- The names that are returned next were neither registered nor returned before. -/
theorem Reached.unused {s : NameSupply} {used : List String} (h : Reached s used) (root : String) :
    (s.fresh root).1 ∉ used ∧ (s.name root).1 ∉ used :=
  ⟨fun hmem => s.fresh_notMem root (h.mem_taken.mpr hmem),
    fun hmem => s.name_notMem root (h.mem_taken.mpr hmem)⟩

end NameSupply

/-! ## Tables -/

theorem Role.synthesized_ne_input : Role.synthesized ≠ Role.input := by decide

theorem Role.isSynthesized_synthesized : Role.synthesized.isSynthesized = true := by decide

/-- The symbol of each name. -/
abbrev Symbols := String → Option Symbol

/-- The keys of a symbol table are the names of its symbols, each of them once. -/
structure SymbolTable.Keyed (t : SymbolTable) : Prop where
  nodup : t.table.keys.Nodup
  named : ∀ e ∈ t.table.entries, e.2.name = e.1

namespace SymbolTable.Keyed

variable {t : SymbolTable}

theorem name_eq (h : t.Keyed) {name : String} {s : Symbol} (hs : t.find? name = some s) :
    s.name = name :=
  h.named (name, s) ((OrderedMap.get?_eq_some_iff h.nodup).mp hs)

/-- The symbols have different names. -/
theorem names_nodup (h : t.Keyed) : (t.all.map Symbol.name).Nodup := by
  have hnames : t.all.map Symbol.name = t.table.keys := by
    rw [SymbolTable.all, OrderedMap.values, OrderedMap.keys, List.map_map]
    exact List.map_congr_left fun e he => h.named e he
  exact hnames ▸ h.nodup

theorem mem_all (h : t.Keyed) {s : Symbol} : s ∈ t.all ↔ t.find? s.name = some s := by
  rw [SymbolTable.find?, OrderedMap.get?_eq_some_iff h.nodup, SymbolTable.all,
    OrderedMap.values, List.mem_map]
  constructor
  · rintro ⟨e, he, rfl⟩
    have := h.named e he
    rwa [this]
  · exact fun hmem => ⟨_, hmem, rfl⟩

end SymbolTable.Keyed

namespace Program

/-- The keys of the symbol table are the names of its symbols, each of them once, and they are
taken. -/
structure Tidy (p : Program) : Prop where
  nodup : p.symbols.table.keys.Nodup
  named : ∀ e ∈ p.symbols.table.entries, e.2.name = e.1
  taken : ∀ name ∈ p.symbols.table.keys, name ∈ p.names.taken

/-- The symbol of each name. -/
abbrev find (p : Program) : Symbols := p.symbols.find?

namespace Tidy

variable {p : Program}

theorem congr {p' : Program} (h : p.Tidy) (hsym : p'.symbols = p.symbols)
    (hnames : p'.names = p.names) : p'.Tidy :=
  ⟨hsym ▸ h.nodup, hsym ▸ h.named, hsym ▸ hnames ▸ h.taken⟩

theorem mem_taken (h : p.Tidy) {name : String} {s : Symbol} (hs : p.find name = some s) :
    name ∈ p.names.taken :=
  h.taken name (Classical.not_not.mp fun hnot => by
    have := OrderedMap.get?_eq_none_iff.2 hnot
    rw [find, SymbolTable.find?, this] at hs
    cases hs)

theorem keyed (h : p.Tidy) : p.symbols.Keyed := ⟨h.nodup, h.named⟩

theorem name_eq (h : p.Tidy) {name : String} {s : Symbol} (hs : p.find name = some s) :
    s.name = name := h.keyed.name_eq hs

theorem find_fresh (h : p.Tidy) (root : String) : p.find (p.names.fresh root).1 = none := by
  cases hs : p.find (p.names.fresh root).1 with
  | none => rfl
  | some s => exact absurd (h.mem_taken hs) (p.names.fresh_notMem root)

/-- The symbols have different names. -/
theorem names_nodup (h : p.Tidy) : (p.symbols.all.map Symbol.name).Nodup := h.keyed.names_nodup

theorem mem_all (h : p.Tidy) {s : Symbol} : s ∈ p.symbols.all ↔ p.find s.name = some s :=
  h.keyed.mem_all

end Tidy

/-- Declaring a tensor under a fresh name keeps the table tidy. -/
theorem Tidy.synthesize {p : Program} (h : p.Tidy) (root : String) (shape : Shape) :
    (p.synthesize root shape).2.Tidy := by
  have hkey : (p.names.fresh root).1 ∉ p.symbols.table.keys :=
    fun hmem => p.names.fresh_notMem root (h.taken _ hmem)
  have hent := OrderedMap.keys_insert p.symbols.table (p.names.fresh root).1
    (⟨(p.names.fresh root).1, shape, .synthesized⟩ : Symbol) hkey
  have hkeys : (p.synthesize root shape).2.symbols.table.keys =
      p.symbols.table.keys ++ [(p.names.fresh root).1] := by
    simp only [Program.synthesize, SymbolTable.declare, OrderedMap.keys] at hent ⊢
    rw [hent, List.map_append]
    rfl
  refine ⟨?_, ?_, ?_⟩
  · rw [hkeys, List.nodup_append]
    refine ⟨h.nodup, List.nodup_singleton _, fun a ha b hb hab => hkey ?_⟩
    rwa [← List.mem_singleton.mp hb, ← hab]
  · simp only [Program.synthesize, SymbolTable.declare]
    intro e he
    rw [hent, List.mem_append, List.mem_singleton] at he
    rcases he with he | rfl
    · exact h.named e he
    · rfl
  · intro name hname
    rw [hkeys, List.mem_append, List.mem_singleton] at hname
    simp only [Program.synthesize, NameSupply.taken_fresh, List.mem_cons]
    exact hname.symm.imp_right (h.taken name)

theorem find_synthesize (p : Program) (root : String) (shape : Shape) (name : String) :
    (p.synthesize root shape).2.find name =
      if name = (p.names.fresh root).1 then
        some ⟨(p.names.fresh root).1, shape, .synthesized⟩
      else p.find name :=
  OrderedMap.get?_insert ..

/-- Removing a tensor keeps the table tidy. -/
theorem Tidy.remove {p : Program} (h : p.Tidy) (name : String) :
    ({ p with symbols := p.symbols.remove name } : Program).Tidy := by
  have hsub := p.symbols.table.erase_sublist name
  refine ⟨h.nodup.sublist (hsub.map _), fun e he => h.named e (hsub.subset he), fun n hn => ?_⟩
  exact h.taken n ((hsub.map _).subset hn)

theorem Tidy.find_remove {p : Program} (h : p.Tidy) (name name' : String) :
    ({ p with symbols := p.symbols.remove name } : Program).find name' =
      if name' = name then none else p.find name' :=
  OrderedMap.get?_erase h.nodup ..

end Program

end LoopNest
