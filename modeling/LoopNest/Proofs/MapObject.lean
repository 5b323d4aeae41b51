import LoopNest.Data.MapObject
import LoopNest.Proofs.Symbol

/-!
# Ordered maps as objects

The parts of a map represent an ordered map (`MapParts.Represents`), and storing and deleting do to
them what they do to the ordered map. Different maps have no part in common (`MapRef.Apart`), so a
call on one leaves the others as they are. After any calls every map represents the ordered map that
the calls on it make, and answers as it does (`MapWorld.run_represents`).
-/

namespace LoopNest

/-- A visit of images visits the elements and takes their images. -/
theorem visit_map {α σ τ : Type} (f : α → τ) (yield : τ → σ → σ × Bool) (l : List α) (s : σ) :
    visit yield (l.map f) s = visit (fun a => yield (f a)) l s := by
  induction l generalizing s with
  | nil => rfl
  | cons a l ih =>
    rw [List.map_cons, visit, visit]
    split <;> simp_all

variable {κ ν : Type} [DecidableEq κ]

theorem findIdx?_eq_none_iff_notMem {ks : List κ} {k : κ} :
    ks.findIdx? (· = k) = none ↔ k ∉ ks := by
  rw [List.findIdx?_eq_none_iff]
  exact ⟨fun h hk => of_decide_eq_false (h k hk) rfl,
    fun h _ hmem => decide_eq_false fun heq => h (heq ▸ hmem)⟩

namespace OrderedMap

theorem position?_eq (m : OrderedMap κ ν) (k : κ) : m.position? k = m.keys.findIdx? (· = k) := by
  rw [position?, keys, List.findIdx?_map]
  rfl

theorem position?_eq_none_iff {m : OrderedMap κ ν} {k : κ} : m.position? k = none ↔ k ∉ m.keys := by
  rw [position?_eq, findIdx?_eq_none_iff_notMem]

/-- Where a key is, it stands between the keys before it and those after it. -/
theorem exists_of_position? {m : OrderedMap κ ν} {k : κ} {i : Nat} (h : m.position? k = some i) :
    ∃ before after, m.keys = before ++ k :: after ∧ before.length = i := by
  rw [position?_eq, List.findIdx?_eq_some_iff_getElem] at h
  obtain ⟨hlt, hk, -⟩ := h
  refine ⟨m.keys.take i, m.keys.drop (i + 1), ?_, by rw [List.length_take]; omega⟩
  rw [← of_decide_eq_true hk, List.getElem_cons_drop, List.take_append_drop]

theorem keys_insert_of_mem {m : OrderedMap κ ν} {k : κ} (h : k ∈ m.keys) (v : ν) :
    (m.insert k v).keys = m.keys := by
  obtain ⟨entries⟩ := m
  simp only [insert, keys] at h ⊢
  induction entries with
  | nil => cases h
  | cons e rest ih =>
    rw [insertIn]
    split
    · rename_i he
      rw [List.map_cons, List.map_cons, he]
    · rename_i he
      rw [List.map_cons, List.mem_cons] at h
      rw [List.map_cons, List.map_cons, ih (h.resolve_left fun h => he h.symm)]

theorem keys_erase (m : OrderedMap κ ν) (k : κ) : (m.erase k).keys = m.keys.eraseP (· = k) := by
  rw [keys, keys, List.eraseP_map]
  rfl

theorem erase_of_notMem {m : OrderedMap κ ν} {k : κ} (h : k ∉ m.keys) : m.erase k = m := by
  rw [erase, List.eraseP_of_forall_not fun e he => by
    simpa using fun heq : e.1 = k => h (heq ▸ List.mem_map_of_mem he)]

/-- Storing the entries of a map one after the other makes the map again. -/
theorem foldl_insert (m : OrderedMap κ ν) (h : m.keys.Nodup) :
    m.entries.foldl (fun done e => done.insert e.1 e.2) {} = m := by
  suffices ∀ (rest : List (κ × ν)) (done : OrderedMap κ ν), (done.keys ++ rest.map (·.1)).Nodup →
      rest.foldl (fun done e => done.insert e.1 e.2) done = ⟨done.entries ++ rest⟩ by
    simpa using this m.entries {} h
  intro rest
  induction rest with
  | nil => intro done _; rw [List.foldl_nil, List.append_nil]
  | cons e rest ih =>
    intro done hnd
    have hnot : e.1 ∉ done.keys := fun hmem =>
      (List.nodup_append.mp hnd).2.2 e.1 hmem e.1 List.mem_cons_self rfl
    have hins : done.insert e.1 e.2 = ⟨done.entries ++ [e]⟩ :=
      congrArg OrderedMap.mk (keys_insert done e.1 e.2 hnot)
    have hkeys : (done.insert e.1 e.2).keys ++ rest.map (·.1) =
        done.keys ++ (e :: rest).map (·.1) := by
      rw [hins, keys, keys, List.map_append, List.append_assoc]
      rfl
    rw [List.foldl_cons, ih _ (hkeys ▸ hnd), hins, List.append_assoc]
    rfl

end OrderedMap

namespace MapParts

variable [Hashable κ] {x : MapParts κ ν} {m : OrderedMap κ ν}

/-- The parts are those of an ordered map: its keys, the position of every key, and the value of every
key. -/
structure Represents (x : MapParts κ ν) (m : OrderedMap κ ν) : Prop where
  nodup : m.keys.Nodup
  keys : x.keys = m.keys
  positions : ∀ k, x.positions[k]? = m.position? k
  values : ∀ k, x.values[k]? = m.get? k

theorem represents_empty : Represents ({} : MapParts κ ν) {} where
  nodup := List.nodup_nil
  keys := rfl
  positions _ := Std.HashMap.getElem?_empty
  values _ := Std.HashMap.getElem?_empty

theorem Represents.mem_values (h : x.Represents m) {k : κ} : k ∈ x.values ↔ k ∈ m.keys := by
  rw [Std.HashMap.mem_iff_isSome_getElem?, h.values, ← not_iff_not, ← OrderedMap.get?_eq_none_iff,
    Bool.not_eq_true, Option.isSome_eq_false_iff, Option.isNone_iff_eq_none]

theorem Represents.mem_positions (h : x.Represents m) {k : κ} : k ∈ x.positions ↔ k ∈ m.keys := by
  rw [Std.HashMap.mem_iff_isSome_getElem?, h.positions, ← not_iff_not,
    ← OrderedMap.position?_eq_none_iff, Bool.not_eq_true, Option.isSome_eq_false_iff,
    Option.isNone_iff_eq_none]

/-! ## Storing and deleting -/

/-- Storing keeps the positions of a present key and appends a new one. -/
theorem Represents.store (h : x.Represents m) (k : κ) (v : ν) :
    (x.store k v).Represents (m.insert k v) := by
  have hvalues : ∀ k', (x.values.insert k v)[k']? = (m.insert k v).get? k' := by
    intro k'
    rw [Std.HashMap.getElem?_insert, OrderedMap.get?_insert, h.values]
    simp only [beq_iff_eq, eq_comm (a := k)]
  by_cases hk : k ∈ m.keys
  · have hkeys := OrderedMap.keys_insert_of_mem hk v
    rw [MapParts.store, if_pos (h.mem_values.mpr hk)]
    exact ⟨hkeys ▸ h.nodup, h.keys.trans hkeys.symm, fun k' => by
      rw [h.positions, OrderedMap.position?_eq, OrderedMap.position?_eq, hkeys], hvalues⟩
  · have hkeys : (m.insert k v).keys = m.keys ++ [k] := by
      rw [OrderedMap.keys, OrderedMap.keys_insert m k v hk, List.map_append]
      rfl
    rw [MapParts.store, if_neg (mt h.mem_values.mp hk)]
    refine ⟨?_, by rw [hkeys, h.keys], fun k' => ?_, hvalues⟩
    · rw [hkeys]
      exact List.nodup_append.mpr ⟨h.nodup, List.nodup_singleton k, by
        simp only [List.mem_singleton]
        rintro a ha _ rfl rfl
        exact hk ha⟩
    · rw [Std.HashMap.getElem?_insert, h.positions, h.keys, OrderedMap.position?_eq,
        OrderedMap.position?_eq, hkeys, List.findIdx?_append]
      by_cases hk' : k = k'
      · subst hk'
        simp [findIdx?_eq_none_iff_notMem.2 hk, List.findIdx?_cons]
      · simp [hk', List.findIdx?_cons]

/-- Keys that are numbered have their places as positions, and all others keep theirs. -/
theorem getElem?_renumber {ks : List κ} (h : ks.Nodup) (i : Nat) (positions : Std.HashMap κ Nat)
    (k : κ) : (renumber i ks positions)[k]? =
      ((ks.findIdx? (· = k)).map (· + i)).or positions[k]? := by
  induction ks generalizing i positions with
  | nil => rfl
  | cons k' ks ih =>
    obtain ⟨hnot, hnd⟩ := List.nodup_cons.mp h
    rw [renumber, ih hnd, Std.HashMap.getElem?_insert, List.findIdx?_cons]
    by_cases hk : k' = k
    · subst hk
      simp [findIdx?_eq_none_iff_notMem.2 hnot]
    · cases ks.findIdx? (· = k) <;> simp [hk, Nat.add_assoc, Nat.add_comm 1]

/-- Deleting closes the gap: the keys after the deleted one move up by one. -/
theorem Represents.delete (h : x.Represents m) (k : κ) :
    ∃ x', x.delete? k = some x' ∧ x'.Represents (m.erase k) := by
  rw [delete?, h.positions]
  cases hpos : m.position? k with
  | none => exact ⟨x, rfl, by rwa [OrderedMap.erase_of_notMem (OrderedMap.position?_eq_none_iff.1 hpos)]⟩
  | some i =>
    obtain ⟨before, after, hsplit, rfl⟩ := OrderedMap.exists_of_position? hpos
    have hnd := hsplit ▸ h.nodup
    have hbefore : k ∉ before := fun hmem =>
      (List.nodup_append.mp hnd).2.2 k hmem k List.mem_cons_self rfl
    obtain ⟨hafter, hndafter⟩ := List.nodup_cons.mp (List.nodup_append.mp hnd).2.1
    have hxkeys : x.keys = before ++ k :: after := h.keys.trans hsplit
    have hkeys : (m.erase k).keys = before ++ after := by
      rw [OrderedMap.keys_erase, hsplit, List.eraseP_append_right _ fun y hy =>
        by simpa using fun heq : y = k => hbefore (heq ▸ hy),
        List.eraseP_cons_of_pos (by simp)]
    have htake : x.keys.take before.length ++ x.keys.drop (before.length + 1) = before ++ after := by
      rw [hxkeys, List.take_left, ← List.drop_drop, List.drop_left, List.drop_one, List.tail_cons]
    simp only [htake]
    rw [if_neg (by rw [hxkeys, List.length_append, List.length_cons]; omega), List.drop_left]
    refine ⟨_, rfl, ?nodup, hkeys.symm, fun k' => ?positions, fun k' => ?values⟩
    case nodup => exact h.nodup.sublist ((m.erase_sublist k).map _)
    case positions =>
      rw [getElem?_renumber hndafter, Std.HashMap.getElem?_erase, h.positions,
        OrderedMap.position?_eq, OrderedMap.position?_eq, hkeys, hsplit, List.findIdx?_append,
        List.findIdx?_append, List.findIdx?_cons]
      by_cases hk : k = k'
      · subst hk
        simp [findIdx?_eq_none_iff_notMem.2 hbefore, findIdx?_eq_none_iff_notMem.2 hafter]
      · by_cases hmem : k' ∈ after
        · -- The key has moved up, so it is not among those that keep their positions.
          have hnone : before.findIdx? (· = k') = none :=
            findIdx?_eq_none_iff_notMem.2 fun hb =>
              (List.nodup_append.mp hnd).2.2 k' hb k' (List.mem_cons_of_mem k hmem) rfl
          obtain ⟨j, hj⟩ := Option.ne_none_iff_exists'.mp
            (mt findIdx?_eq_none_iff_notMem.1 (not_not.mpr hmem))
          simp [hk, hnone, hj]
        · simp [hk, findIdx?_eq_none_iff_notMem.2 hmem]
    case values =>
      rw [Std.HashMap.getElem?_erase, OrderedMap.get?_erase h.nodup, h.values]
      simp only [beq_iff_eq, eq_comm (a := k)]

/-! ## The answers of a map -/

/-- The three parts agree on what the keys are and where they are. -/
structure WellFormed (x : MapParts κ ν) : Prop where
  nodup : x.keys.Nodup
  mem_values : ∀ k, k ∈ x.values ↔ k ∈ x.keys
  mem_positions : ∀ k, k ∈ x.positions ↔ k ∈ x.keys
  position : ∀ (i : Nat) (k : κ), x.keys[i]? = some k → x.positions[k]? = some i
  size_values : x.values.size = x.size
  size_positions : x.positions.size = x.size

/-- Every question has the answer that an ordered map gives to it. -/
structure Answers [Inhabited ν] (x : MapParts κ ν) (m : OrderedMap κ ν) : Prop where
  load : ∀ k, x.load? k = m.get? k
  index : ∀ k, x.index? k = m.position? k
  entryAt : ∀ i, x.entryAt? i = at? m.entries i
  iter : ∀ {σ : Type} (yield : κ → ν → σ → σ × Bool) (s : σ),
    x.iter yield s = visit (fun e => yield e.1 e.2) m.entries s
  iterKeys : ∀ {σ : Type} (yield : κ → σ → σ × Bool) (s : σ), x.iterKeys yield s = visit yield m.keys s
  iterValues : ∀ {σ : Type} (yield : ν → σ → σ × Bool) (s : σ),
    x.iterValues yield s = visit yield m.values s
  size : x.size = m.size

/-- A table with the keys of a list that has no key twice has as many entries as the list. -/
theorem size_eq_length {α : Type} {t : Std.HashMap κ α} {ks : List κ} (hnd : ks.Nodup)
    (h : ∀ k, k ∈ t ↔ k ∈ ks) : t.size = ks.length := by
  rw [← Std.HashMap.length_keys]
  refine List.Perm.length_eq ((List.perm_ext_iff_of_nodup Std.HashMap.nodup_keys hnd).mpr fun k => ?_)
  rw [Std.HashMap.mem_keys, h]

theorem Represents.wellFormed (h : x.Represents m) : x.WellFormed := by
  have hnd : x.keys.Nodup := h.keys ▸ h.nodup
  have hvalues : ∀ k, k ∈ x.values ↔ k ∈ x.keys := fun k => by rw [h.mem_values, h.keys]
  have hpositions : ∀ k, k ∈ x.positions ↔ k ∈ x.keys := fun k => by rw [h.mem_positions, h.keys]
  refine ⟨hnd, hvalues, hpositions, fun i k hk => ?_, size_eq_length hnd hvalues,
    size_eq_length hnd hpositions⟩
  obtain ⟨hi, rfl⟩ := List.getElem?_eq_some_iff.mp hk
  rw [h.positions, OrderedMap.position?_eq, ← h.keys, List.findIdx?_eq_some_iff_getElem]
  exact ⟨hi, decide_eq_true rfl, fun j hj heq =>
    absurd (hnd.getElem_inj_iff.mp (of_decide_eq_true heq)) (by omega)⟩

section

variable [Inhabited ν]

/-- The entries of the ordered map are its keys with the values that the parts have for them. -/
theorem Represents.entries (h : x.Represents m) :
    m.entries = x.keys.map fun k => (k, x.valueOf k) := by
  rw [h.keys, OrderedMap.keys, List.map_map]
  refine (List.map_id _).symm.trans (List.map_congr_left fun e he => ?_)
  have hget : m.get? e.1 = some e.2 := (OrderedMap.get?_eq_some_iff h.nodup).mpr he
  simp [valueOf, h.values, hget]

theorem Represents.answers (h : x.Represents m) : x.Answers m where
  load := h.values
  index := h.positions
  entryAt i := by
    rw [h.entries, entryAt?, at?, at?]
    split
    · rfl
    · rw [List.getElem?_map]
      cases x.keys[i.toNat]? <;> rfl
  iter yield s := by rw [h.entries, visit_map, MapParts.iter]
  iterKeys yield s := by rw [MapParts.iterKeys, h.keys]
  iterValues yield s := by rw [OrderedMap.values, h.entries, List.map_map, visit_map]; rfl
  size := by rw [MapParts.size, h.keys, OrderedMap.keys, List.length_map, OrderedMap.size]

/-- Storing the keys of a map with their values in an empty one makes parts for the same map. -/
theorem Represents.foldl_store (h : x.Represents m) :
    (x.keys.foldl (fun (y : MapParts κ ν) k => y.store k (x.valueOf k)) {}).Represents m := by
  suffices ∀ (ks : List κ) (y : MapParts κ ν) (done : OrderedMap κ ν), y.Represents done →
      (ks.foldl (fun y k => y.store k (x.valueOf k)) y).Represents
        (ks.foldl (fun done k => done.insert k (x.valueOf k)) done) by
    have hmade := this x.keys {} {} represents_empty
    rwa [← List.foldl_map (f := fun k => (k, x.valueOf k))
      (g := fun (done : OrderedMap κ ν) e => done.insert e.1 e.2), ← h.entries,
      OrderedMap.foldl_insert m h.nodup] at hmade
  intro ks
  induction ks with
  | nil => exact fun y done hy => hy
  | cons k ks ih => exact fun y done hy => ih _ _ (hy.store k _)

end

end MapParts

/-! ## Maps in memory -/

/-- Two maps have no part in common. -/
structure MapRef.Apart (r c : MapRef) : Prop where
  keys : r.keys ≠ c.keys
  positions : r.positions ≠ c.positions
  values : r.values ≠ c.values

theorem MapRef.Apart.symm {r c : MapRef} (h : r.Apart c) : c.Apart r :=
  ⟨h.keys.symm, h.positions.symm, h.values.symm⟩

namespace MapHeap

variable [Hashable κ] {h : MapHeap κ ν} {r c : MapRef} {x y : MapParts κ ν} {m : OrderedMap κ ν}

theorem read?_eq_some_iff : h.read? r = some x ↔ h.keys[r.keys]? = some x.keys ∧
    h.positions[r.positions]? = some x.positions ∧ h.values[r.values]? = some x.values := by
  obtain ⟨keys, positions, values⟩ := x
  cases hk : h.keys[r.keys]? <;> cases hp : h.positions[r.positions]? <;>
    cases hv : h.values[r.values]? <;> simp [read?, hk, hp, hv]

theorem read?_write_self (hr : h.read? r = some x) (y : MapParts κ ν) :
    (h.write r y).read? r = some y := by
  obtain ⟨hk, hp, hv⟩ := read?_eq_some_iff.1 hr
  have set_self : ∀ {α : Type} {l : List α} {i : Nat} {a : α}, l[i]? = some a → ∀ b,
      (l.set i b)[i]? = some b := fun hi b =>
    List.getElem?_set_self (List.getElem?_eq_some_iff.mp hi).1
  exact read?_eq_some_iff.2 ⟨set_self hk _, set_self hp _, set_self hv _⟩

/-- Writing a map leaves those alone that have no part in common with it. -/
theorem read?_write_of_apart (hrc : r.Apart c) (y : MapParts κ ν) :
    (h.write c y).read? r = h.read? r := by
  rw [read?, read?, write, List.getElem?_set_ne hrc.keys.symm,
    List.getElem?_set_ne hrc.positions.symm, List.getElem?_set_ne hrc.values.symm]

theorem read?_create_self (h : MapHeap κ ν) : h.create.2.read? h.create.1 = some {} := by
  simp [read?_eq_some_iff, create]

/-- A new map takes nothing from a map that is there. -/
theorem read?_create (hr : h.read? r = some x) : h.create.2.read? r = some x := by
  obtain ⟨hk, hp, hv⟩ := read?_eq_some_iff.1 hr
  have append : ∀ {α : Type} {l : List α} {i : Nat} {a : α}, l[i]? = some a → ∀ l',
      (l ++ l')[i]? = some a := fun hi l' => by
    rw [List.getElem?_append_left (List.getElem?_eq_some_iff.mp hi).1, hi]
  exact read?_eq_some_iff.2 ⟨append hk _, append hp _, append hv _⟩

theorem apart_create (hr : h.read? r = some x) : r.Apart h.create.1 := by
  obtain ⟨hk, hp, hv⟩ := read?_eq_some_iff.1 hr
  have ne : ∀ {α : Type} {l : List α} {i : Nat} {a : α}, l[i]? = some a → i ≠ l.length := fun hi =>
    Nat.ne_of_lt (List.getElem?_eq_some_iff.mp hi).1
  exact ⟨ne hk, ne hp, ne hv⟩

variable [Inhabited ν]

/-- Copying changes the map that is copied to, and no map apart from it. -/
theorem copyFrom?_spec (hrc : r.Apart c) (hr : h.read? r = some x) (hc : h.read? c = some y)
    (ks : List κ) : ∃ h', copyFrom? r c ks h = some h' ∧
      h'.read? c = some (ks.foldl (fun y k => y.store k (x.valueOf k)) y) ∧
      ∀ {d : MapRef}, d.Apart c → h'.read? d = h.read? d := by
  induction ks generalizing h y with
  | nil => exact ⟨h, rfl, hc, fun _ => rfl⟩
  | cons k ks ih =>
    have hstep : (do h.store? c k ((← h.read? r).valueOf k)) =
        some (h.write c (y.store k (x.valueOf k))) := by simp [store?, hr, hc]
    obtain ⟨h', hcopy, hread, hframe⟩ := ih
      ((read?_write_of_apart hrc _).trans hr) (read?_write_self hc (y.store k (x.valueOf k)))
    refine ⟨h', ?_, hread, fun hd => (hframe hd).trans (read?_write_of_apart hd _)⟩
    rw [copyFrom?, List.foldlM_cons, hstep]
    exact hcopy

/-- A clone is new, represents the same ordered map, and leaves what is there as it is. -/
theorem clone?_spec (hr : h.read? r = some x) (hx : x.Represents m) :
    ∃ c h' y, h.clone? r = some (c, h') ∧ h'.read? c = some y ∧ y.Represents m ∧
      ∀ {d : MapRef} {z : MapParts κ ν}, h.read? d = some z →
        d.Apart c ∧ h'.read? d = some z := by
  obtain ⟨h', hcopy, hread, hframe⟩ :=
    copyFrom?_spec (apart_create hr) (read?_create hr) h.read?_create_self x.keys
  refine ⟨h.create.1, h', _, ?_, hread, hx.foldl_store, fun hd =>
    ⟨apart_create hd, (hframe (apart_create hd)).trans (read?_create hd)⟩⟩
  simp [clone?, read?_create hr, hcopy]

end MapHeap

/-! ## Calls -/

theorem getElem?_append_singleton {α : Type} {l : List α} {a b : α} {i : Nat} :
    (l ++ [a])[i]? = some b ↔ l[i]? = some b ∨ (i = l.length ∧ a = b) := by
  rcases Nat.lt_trichotomy i l.length with hi | rfl | hi
  · rw [List.getElem?_append_left hi]
    exact (or_iff_left fun h => absurd h.1 (by omega)).symm
  · simp
  · rw [List.getElem?_eq_none (by simp; omega), List.getElem?_eq_none (by omega)]
    simp
    omega

namespace MapWorld

variable [Hashable κ] {w : MapWorld κ ν} {ms : List (OrderedMap κ ν)} {x : MapParts κ ν}
  {m : OrderedMap κ ν} {n : Nat} {r : MapRef}

/-- The maps represent ordered maps, in the order in which they were made, and are apart. -/
structure Tracks (w : MapWorld κ ν) (ms : List (OrderedMap κ ν)) : Prop where
  length : w.maps.length = ms.length
  apart : ∀ {i j : Nat} {r c : MapRef}, i ≠ j → w.maps[i]? = some r → w.maps[j]? = some c → r.Apart c
  represents : ∀ {i : Nat} {r : MapRef} {m : OrderedMap κ ν}, w.maps[i]? = some r →
    ms[i]? = some m → ∃ x, w.heap.read? r = some x ∧ x.Represents m

theorem tracks_start : Tracks (start : MapWorld κ ν) [{}] where
  length := rfl
  apart {i j _ _} hij hi hj := by
    have hi' := (List.getElem?_eq_some_iff.mp hi).1
    have hj' := (List.getElem?_eq_some_iff.mp hj).1
    simp only [start, List.length_singleton] at hi' hj'
    omega
  represents {i r m} hi hm := by
    obtain rfl : i = 0 := by simpa using (List.getElem?_eq_some_iff.mp hm).1
    cases hi
    cases hm
    exact ⟨{}, MapHeap.read?_create_self {}, MapParts.represents_empty⟩

theorem Tracks.exists_represents (h : Tracks w ms) (hr : w.maps[n]? = some r) :
    ∃ m x, w.heap.read? r = some x ∧ ms[n]? = some m ∧ x.Represents m := by
  have hlt : n < ms.length := h.length ▸ (List.getElem?_eq_some_iff.mp hr).1
  obtain ⟨x, hread, hx⟩ := h.represents hr (List.getElem?_eq_getElem hlt)
  exact ⟨ms[n], x, hread, List.getElem?_eq_getElem hlt, hx⟩

/-- Writing one map changes what that map represents. -/
theorem Tracks.write (h : Tracks w ms) (hr : w.maps[n]? = some r) (hread : w.heap.read? r = some y)
    (hx : x.Represents m) : Tracks { w with heap := w.heap.write r x } (ms.set n m) where
  length := by rw [List.length_set, h.length]
  apart := h.apart
  represents {i c m'} hi hm := by
    by_cases hn : n = i
    · subst hn
      obtain rfl : r = c := Option.some.inj (hr.symm.trans hi)
      have hlt : n < ms.length := h.length ▸ (List.getElem?_eq_some_iff.mp hr).1
      rw [List.getElem?_set_self hlt] at hm
      cases hm
      exact ⟨x, MapHeap.read?_write_self hread x, hx⟩
    · rw [List.getElem?_set_ne hn] at hm
      obtain ⟨z, hz, hrep⟩ := h.represents hi hm
      exact ⟨z, (MapHeap.read?_write_of_apart (h.apart (Ne.symm hn) hi hr) x).trans hz, hrep⟩

theorem Tracks.append (h : Tracks w ms) {heap : MapHeap κ ν} (hread : heap.read? r = some x)
    (hx : x.Represents m) (hframe : ∀ {d : MapRef} {z : MapParts κ ν}, w.heap.read? d = some z →
      d.Apart r ∧ heap.read? d = some z) : Tracks ⟨heap, w.maps ++ [r]⟩ (ms ++ [m]) where
  length := by rw [List.length_append, List.length_append, h.length]; rfl
  apart {i j c d} hij hi hj := by
    have hold : ∀ {i : Nat} {c : MapRef}, w.maps[i]? = some c → c.Apart r := fun hi => by
      obtain ⟨_, _, hz, -⟩ := h.exists_represents hi
      exact (hframe hz).1
    rcases getElem?_append_singleton.1 hi with hi | ⟨rfl, rfl⟩ <;>
      rcases getElem?_append_singleton.1 hj with hj | ⟨rfl, rfl⟩
    · exact h.apart hij hi hj
    · exact hold hi
    · exact (hold hj).symm
    · exact absurd rfl hij
  represents {i c m'} hi hm := by
    rcases getElem?_append_singleton.1 hi with hi | ⟨rfl, rfl⟩ <;>
      rcases getElem?_append_singleton.1 hm with hm | ⟨hlen, rfl⟩
    · obtain ⟨z, hz, hrep⟩ := h.represents hi hm
      exact ⟨z, (hframe hz).2, hrep⟩
    · have hlt := (List.getElem?_eq_some_iff.mp hi).1
      have hlength := h.length
      omega
    · have hlt := (List.getElem?_eq_some_iff.mp hm).1
      have hlength := h.length
      omega
    · exact ⟨x, hread, hx⟩

/-- A number is that of a map and of an ordered map, or of neither. -/
theorem Tracks.get (h : Tracks w ms) (n : Nat) :
    (w.maps[n]? = none ∧ ms[n]? = none) ∨
      ∃ r m x, w.maps[n]? = some r ∧ ms[n]? = some m ∧ w.heap.read? r = some x ∧ x.Represents m := by
  cases hr : w.maps[n]? with
  | none =>
    rw [List.getElem?_eq_none_iff, h.length, ← List.getElem?_eq_none_iff] at hr
    exact .inl ⟨rfl, hr⟩
  | some r =>
    obtain ⟨m, x, hread, hm, hx⟩ := h.exists_represents hr
    exact .inr ⟨r, m, x, rfl, hm, hread, hx⟩

variable [Inhabited ν]

/-- A call does to the maps what it does to the ordered maps they represent. -/
theorem Tracks.step (h : Tracks w ms) (call : MapCall κ ν) :
    Option.Rel Tracks (w.step? call) (call.perform? ms) := by
  cases call with
  | store on k v =>
    rcases h.get on with ⟨hr, hm⟩ | ⟨r, m, x, hr, hm, hread, hx⟩
    · simp [step?, MapCall.perform?, hr, hm]
    · simpa [step?, MapCall.perform?, MapHeap.store?, hr, hm, hread] using
        Option.Rel.some (h.write hr hread (hx.store k v))
  | delete on k =>
    rcases h.get on with ⟨hr, hm⟩ | ⟨r, m, x, hr, hm, hread, hx⟩
    · simp [step?, MapCall.perform?, hr, hm]
    · obtain ⟨y, hy, hrep⟩ := hx.delete k
      simpa [step?, MapCall.perform?, MapHeap.delete?, hr, hm, hread, hy] using
        Option.Rel.some (h.write hr hread hrep)
  | clone on =>
    rcases h.get on with ⟨hr, hm⟩ | ⟨r, m, x, hr, hm, hread, hx⟩
    · simp [step?, MapCall.perform?, hr, hm]
    · obtain ⟨c, heap, y, hclone, hc, hrep, hframe⟩ := MapHeap.clone?_spec hread hx
      simpa [step?, MapCall.perform?, hr, hm, hclone] using Option.Rel.some (h.append hc hrep hframe)

theorem Tracks.run (h : Tracks w ms) (calls : List (MapCall κ ν)) :
    Option.Rel Tracks (w.run? calls) (calls.foldlM MapCall.perform? ms) := by
  induction calls generalizing w ms with
  | nil => exact .some h
  | cons call calls ih =>
    rw [run?, List.foldlM_cons, List.foldlM_cons]
    have hcall := h.step call
    generalize w.step? call = w', call.perform? ms = ms' at hcall ⊢
    cases hcall with
    | none => exact .none
    | some h' => exact ih h'

end MapWorld

/-- Ordered maps have a result after every call exactly if there is a map for every call. -/
theorem MapCall.isSome_foldlM_perform? (calls : List (MapCall κ ν)) (ms : List (OrderedMap κ ν)) :
    (calls.foldlM perform? ms).isSome ↔ Known ms.length calls := by
  induction calls generalizing ms with
  | nil => exact ⟨fun _ => trivial, fun _ => rfl⟩
  | cons call calls ih =>
    rw [List.foldlM_cons]
    have hknown : ∀ on : Nat, ms[on]? = none → ¬ on < ms.length := fun on hon =>
      Nat.not_lt.mpr (List.getElem?_eq_none_iff.mp hon)
    cases call with
    | store on k v =>
      cases hm : ms[on]? with
      | none => simp [perform?, Known, hknown on hm]
      | some m => simp [perform?, Known, ih, (List.getElem?_eq_some_iff.mp hm).1]
    | delete on k =>
      cases hm : ms[on]? with
      | none => simp [perform?, Known, hknown on hm]
      | some m => simp [perform?, Known, ih, (List.getElem?_eq_some_iff.mp hm).1]
    | clone on =>
      cases hm : ms[on]? with
      | none => simp [perform?, Known, hknown on hm]
      | some m => simp [perform?, Known, ih, (List.getElem?_eq_some_iff.mp hm).1]

/-- After any calls on one empty map and its clones, the parts of every map agree, and it answers as the
ordered map that the calls on it make; a clone starts as the ordered map that its original was then, and
only the calls on it change it. There is a result unless a call is on a map that was not made. -/
theorem MapWorld.run_represents [Hashable κ] [Inhabited ν] (calls : List (MapCall κ ν)) :
    (((start : MapWorld κ ν).run? calls).isSome ↔ MapCall.Known 1 calls) ∧
    Option.Rel
      (fun w ms => w.maps.length = ms.length ∧ ∀ (n : Nat) (m : OrderedMap κ ν), ms[n]? = some m →
        ∃ x, w.parts? n = some x ∧ x.WellFormed ∧ x.Answers m)
      ((start : MapWorld κ ν).run? calls) (MapCall.performAll? calls) := by
  have hrun := tracks_start.run calls
  have hknown := MapCall.isSome_foldlM_perform? calls [({} : OrderedMap κ ν)]
  rw [MapCall.performAll?]
  generalize (start : MapWorld κ ν).run? calls = w', calls.foldlM MapCall.perform? [{}] = ms' at *
  cases hrun with
  | none => exact ⟨hknown, .none⟩
  | some h =>
    refine ⟨hknown, .some ⟨h.length, fun n m hm => ?_⟩⟩
    obtain ⟨-, hnone⟩ | ⟨r, m', x, hr, hm', hread, hx⟩ := h.get n
    · cases hm.symm.trans hnone
    · obtain rfl := Option.some.inj (hm.symm.trans hm')
      exact ⟨x, by simp [parts?, hr, hread], hx.wellFormed, hx.answers⟩

end LoopNest
