import LoopNest.Kernel.Session
import LoopNest.Proofs.Handles
import Mathlib.Data.List.Nodup
import Mathlib.Data.List.Perm.Subperm
import Mathlib.Logic.Function.Basic

/-!
# Handle tables with several clients

Any number of clients use one table, and their steps come in any order. A client that wants a handle
draws a number in one step and stores its value in another one. A client that counts goes through the
table while the others change it: it meets each handle at most once, it meets those that are live all
the time, and of those that come or go meanwhile it may meet any. All other operations are one step.

As long as fewer than `limit` numbers are drawn, the clients can rely on `Promised` (`run_promised`).
-/

namespace LoopNest.HandleTable

universe u w

variable {ι : Type w} {ν : Type u}

/-! ## Clients -/

/-- What a client is doing. -/
inductive Client (ν : Type u) where
  | idle
  /-- It drew a number for a value that it has not stored yet. -/
  | storing (h : Nat) (v : ν)
  /-- It counts. The handles that were live all the time since it began, and those that were live at
  some time. -/
  | counting (always ever : List Nat)
  /-- It found no number left. -/
  | stopped

/-- What a client does after it drew a number for a value. -/
def Client.drawn (h : Nat) (v : ν) : Client ν := if h = 0 then .stopped else .storing h v

/-- A client that counts works on the table as it is now. -/
def Client.meets (t : HandleTable ν) : Client ν → Client ν
  | .counting always ever => .counting (always.filter (· ∈ t.keys)) (ever ++ t.keys)
  | c => c

theorem Client.meets_eq_storing {t : HandleTable ν} {c : Client ν} {h : Nat} {v : ν} :
    c.meets t = .storing h v ↔ c = .storing h v := by
  cases c <;> simp [Client.meets]

/-- A table and what its clients are doing. -/
structure Shared (ι : Type w) (ν : Type u) where
  table : HandleTable ν := {}
  clients : ι → Client ν := fun _ => .idle

/-- What is observed of a step. -/
inductive Event (ν : Type u) where
  /-- A number was drawn. -/
  | drew (h : Nat)
  /-- A handle was given for a value. -/
  | wrapped (h : Nat) (v : ν)
  /-- A handle was looked up, where a value of some type was wanted. -/
  | unwrapped (h : Nat) (wanted : String) (isType : ν → Bool) (result : Except HandleError ν)
  | released (h : Nat) (result : Except HandleError Unit)
  /-- A client began to count. -/
  | counting
  /-- A client came to the end of its count. -/
  | counted (n : Nat)

/-- What is observed, and of which clients. -/
abbrev History (ι : Type w) (ν : Type u) := List (ι × Event ν)

variable {p q past : History ι ν} {h : Nat} {v : ν}

/-- The number of numbers drawn: one for each value that is not zero and that a handle is wanted for. -/
def draws (past : History ι ν) : Nat :=
  past.countP fun e => match e.2 with
    | .drew _ => true
    | _ => false

/-- The handles that were released. -/
def releases (past : History ι ν) : List Nat :=
  past.filterMap fun e => match e.2 with
    | .released h (.ok ()) => if h = 0 then none else some h
    | _ => none

theorem draws_append : draws (p ++ q) = draws p + draws q := List.countP_append

theorem draws_le_append : draws p ≤ draws (p ++ q) := by
  rw [draws_append]
  exact Nat.le_add_right ..

theorem releases_append : releases (p ++ q) = releases p ++ releases q := List.filterMap_append

variable [HandleValue ν]

/-- The handles that were given for values that are not zero. -/
def wraps (past : History ι ν) : List Nat :=
  past.filterMap fun e => match e.2 with
    | .wrapped h v => if HandleValue.isZero v then none else some h
    | _ => none

/-- A handle was given for a value that is not zero. -/
def Returned (past : History ι ν) (h : Nat) (v : ν) : Prop :=
  HandleValue.isZero v = false ∧ ∃ i, (i, .wrapped h v) ∈ past

/-- Each client that drew a number has stored its value. -/
def Quiet (past : History ι ν) : Prop := draws past = (wraps past).length

/-- What a client can rely on when something is observed of it after the events before. -/
def Promised (past : History ι ν) (i : ι) : Event ν → Prop
  | .drew _ | .counting => True
  | .wrapped h v => if HandleValue.isZero v then h = 0 else h ≠ 0 ∧ h ∉ wraps past ∧ h ∉ releases past
  | .unwrapped h wanted isType r =>
    (∀ v, Returned past h v → h ∉ releases past → r = seen h wanted (Option.guard isType) v) ∧
      (h ∉ wraps past ∨ h ∈ releases past → r = .error (if h = 0 then .null else .unknown h))
  | .released h r => h ≠ 0 → (r = .ok () ↔ h ∈ wraps past ∧ h ∉ releases past)
  | .counted n => ∀ before since, past = before ++ (i, .counting) :: since →
    (∀ e ∈ since, e.1 ≠ i) → Quiet before → draws since = 0 →
    ∃ mid after, since = mid ++ after ∧
      n + (releases (before ++ (i, .counting) :: mid)).length = draws (before ++ (i, .counting) :: mid)

theorem wraps_append : wraps (p ++ q) = wraps p ++ wraps q := List.filterMap_append

theorem returned_append : Returned (p ++ q) h v ↔ Returned p h v ∨ Returned q h v := by
  simp only [Returned, List.mem_append, exists_or, and_or_left]

theorem mem_wraps : h ∈ wraps past ↔ ∃ v, Returned past h v := by
  rw [wraps, List.mem_filterMap]
  constructor
  · rintro ⟨⟨i, e⟩, hmem, he⟩
    cases e with
    | wrapped k v =>
      cases hv : HandleValue.isZero v with
      | true => simp [hv] at he
      | false =>
        simp only [hv, Bool.false_eq_true, if_false, Option.some.injEq] at he
        exact ⟨v, hv, i, he ▸ hmem⟩
    | _ => cases he
  · rintro ⟨v, hv, i, hmem⟩
    exact ⟨_, hmem, by simp [hv]⟩

/-- Without a handle that was given, no value has one. -/
theorem not_returned (hw : wraps past = []) : ¬ Returned past h v := by
  intro hret
  have := mem_wraps.2 ⟨v, hret⟩
  rw [hw] at this
  cases this

/-! ## Steps -/

section

variable [DecidableEq ι]

/-- A step of a client. -/
inductive Step (i : ι) : Shared ι ν → Event ν → Shared ι ν → Prop where
  | zero {s : Shared ι ν} {v : ν} : s.clients i = .idle → HandleValue.isZero v = true →
    Step i s (.wrapped 0 v) s
  | draw {s : Shared ι ν} {v : ν} : s.clients i = .idle → HandleValue.isZero v = false →
    Step i s (.drew s.table.draw.1)
      ⟨s.table.draw.2, Function.update s.clients i (.drawn s.table.draw.1 v)⟩
  | store {s : Shared ι ν} {h : Nat} {v : ν} : s.clients i = .storing h v →
    Step i s (.wrapped h v)
      ⟨s.table.store h v, fun j => (Function.update s.clients i .idle j).meets (s.table.store h v)⟩
  | unwrap {s : Shared ι ν} {h : Nat} {wanted : String} {isType : ν → Bool} : s.clients i = .idle →
    Step i s (.unwrapped h wanted isType (s.table.unwrap wanted (Option.guard isType) h)) s
  | release {s : Shared ι ν} {h : Nat} {t : HandleTable ν} : s.clients i = .idle →
    s.table.release h = .ok t →
    Step i s (.released h (.ok ())) ⟨t, fun j => (s.clients j).meets t⟩
  | refuse {s : Shared ι ν} {h : Nat} {e : HandleError} : s.clients i = .idle →
    s.table.release h = .error e → Step i s (.released h (.error e)) s
  | count {s : Shared ι ν} : s.clients i = .idle →
    Step i s .counting ⟨s.table, Function.update s.clients i (.counting s.table.keys s.table.keys)⟩
  | counted {s : Shared ι ν} {always ever met : List Nat} : s.clients i = .counting always ever →
    met.Nodup → always ⊆ met → met ⊆ ever →
    Step i s (.counted met.length) ⟨s.table, Function.update s.clients i .idle⟩

/-- Steps of clients in some order. -/
inductive Run : Shared ι ν → History ι ν → Shared ι ν → Prop where
  | nil {s : Shared ι ν} : Run s [] s
  | cons {i : ι} {s s' s'' : Shared ι ν} {e : Event ν} {rest : History ι ν} :
    Step i s e s' → Run s' rest s'' → Run s ((i, e) :: rest) s''

end

/-! ## Invariant -/

/-- The clients that drew a number for a value which they have not stored yet. -/
abbrev Pending (ι : Type w) (ν : Type u) := List (ι × Nat × ν)

/-- The state after some events. Each number up to the last one was given or is pending, and the live
handles are those that were given and not released. -/
structure Consistent (past : History ι ν) (s : Shared ι ν) (pending : Pending ι ν) : Prop where
  last : s.table.last = draws past
  numbers : (pending.map (·.2.1) ++ wraps past).Perm (List.range' 1 (draws past))
  clients : ∀ i h v, s.clients i = .storing h v ↔ (i, h, v) ∈ pending
  values : ∀ x ∈ pending, HandleValue.isZero x.2.2 = false
  find : ∀ h v, s.table.find? h = some v ↔ Returned past h v ∧ h ∉ releases past
  keys : s.table.keys.Nodup
  released : (releases past).Nodup
  given : releases past ⊆ wraps past
  count : s.table.keys.length + (releases past).length = (wraps past).length

namespace Consistent

variable {s s' : Shared ι ν} {pending : Pending ι ν} (c : Consistent past s pending)

theorem start : Consistent ([] : History ι ν) {} [] where
  last := rfl
  numbers := .refl _
  clients _ _ _ := ⟨nofun, nofun⟩
  values := nofun
  find _ _ := ⟨nofun, fun hr => absurd hr.1 (not_returned rfl)⟩
  keys := .nil
  released := .nil
  given := nofun
  count := rfl

include c

theorem nodup : (pending.map (·.2.1) ++ wraps past).Nodup :=
  c.numbers.nodup_iff.mpr List.nodup_range'

theorem mem_keys : h ∈ s.table.keys ↔ h ∈ wraps past ∧ h ∉ releases past := by
  constructor
  · intro hk
    obtain ⟨v, hv⟩ := exists_find? hk
    have hret := (c.find h v).mp hv
    exact ⟨mem_wraps.2 ⟨v, hret.1⟩, hret.2⟩
  · rintro ⟨hw, hr⟩
    obtain ⟨v, hv⟩ := mem_wraps.1 hw
    exact mem_keys_of_find? ((c.find h v).mpr ⟨hv, hr⟩)

theorem ne_zero (hw : h ∈ pending.map (·.2.1) ++ wraps past) : h ≠ 0 := by
  have := List.mem_range'_1.mp (c.numbers.mem_iff.mp hw)
  omega

theorem ne_zero_of_wraps (hw : h ∈ wraps past) : h ≠ 0 :=
  c.ne_zero (List.mem_append_right _ hw)

/-- A number that is pending was not given yet. -/
theorem not_mem_wraps {i : ι} (hp : (i, h, v) ∈ pending) : h ∉ wraps past := fun hw =>
  (List.nodup_append.mp c.nodup).2.2 _ (List.mem_map_of_mem hp) _ hw rfl

theorem not_mem_keys {i : ι} (hp : (i, h, v) ∈ pending) : h ∉ s.table.keys := fun hk =>
  c.not_mem_wraps hp (c.mem_keys.mp hk).1

/-- Events that neither give nor release a handle. -/
theorem silent {q : History ι ν} (hd : draws q = 0) (hw : wraps q = []) (hr : releases q = [])
    (htable : s'.table = s.table)
    (hclients : ∀ i h v, s'.clients i = .storing h v ↔ s.clients i = .storing h v) :
    Consistent (past ++ q) s' pending := by
  have hreturned : ∀ h v, Returned (past ++ q) h v ↔ Returned past h v := fun h v => by
    rw [returned_append, or_iff_left (not_returned hw)]
  constructor
  · rw [htable, draws_append, hd]
    exact c.last
  · rw [wraps_append, hw, draws_append, hd, List.append_nil]
    exact c.numbers
  · exact fun i h v => (hclients i h v).trans (c.clients i h v)
  · exact c.values
  · intro h v
    rw [htable, hreturned, releases_append, hr, List.append_nil]
    exact c.find h v
  · rw [htable]
    exact c.keys
  · rw [releases_append, hr, List.append_nil]
    exact c.released
  · rw [releases_append, hr, List.append_nil, wraps_append, hw, List.append_nil]
    exact c.given
  · rw [htable, releases_append, hr, List.append_nil, wraps_append, hw, List.append_nil]
    exact c.count

/-- The next number is one that was not drawn before. -/
theorem draw [DecidableEq ι] {i : ι} (hv : HandleValue.isZero v = false) (hfew : draws past + 1 < limit)
    (hidle : s.clients i = .idle) :
    s.table.draw.1 = draws past + 1 ∧
    Consistent (past ++ [(i, .drew s.table.draw.1)])
      ⟨s.table.draw.2, Function.update s.clients i (.drawn s.table.draw.1 v)⟩
      ((i, draws past + 1, v) :: pending) := by
  have hnext : s.table.draw.1 = draws past + 1 := by
    show (s.table.last + 1) % limit = _
    rw [c.last, Nat.mod_eq_of_lt hfew]
  have hdraws : draws (past ++ [(i, Event.drew s.table.draw.1)]) = draws past + 1 := draws_append
  have hwraps : wraps (past ++ [(i, Event.drew s.table.draw.1)]) = wraps past :=
    wraps_append.trans (List.append_nil _)
  have hreleases : releases (past ++ [(i, Event.drew s.table.draw.1)]) = releases past :=
    releases_append.trans (List.append_nil _)
  refine ⟨hnext, ?_⟩
  constructor
  · rw [hdraws]
    exact hnext
  · rw [hdraws, hwraps, List.range'_1_concat, Nat.add_comm 1]
    exact (c.numbers.cons _).trans (List.perm_append_singleton _ _).symm
  · intro j k x
    have hdrawn : Client.drawn (draws past + 1) v = .storing (draws past + 1) v := if_neg (Nat.succ_ne_zero _)
    rw [List.mem_cons, ← c.clients, hnext]
    by_cases hj : j = i
    · subst hj
      simp only [Function.update_self, hdrawn, hidle]
      simp [eq_comm]
    · simp [hj]
  · exact List.forall_mem_cons.mpr ⟨hv, c.values⟩
  · intro k x
    rw [hreleases, returned_append, or_iff_left (not_returned rfl)]
    exact c.find k x
  · exact c.keys
  · rw [hreleases]
    exact c.released
  · rw [hreleases, hwraps]
    exact c.given
  · rw [hreleases, hwraps]
    exact c.count

/-- A number that was drawn was given or is pending. -/
theorem length_pending : pending.length + (wraps past).length = draws past := by
  have := c.numbers.length_eq
  rwa [List.length_append, List.length_map, List.length_range'] at this

theorem quiet_iff : Quiet past ↔ ∀ i h v, s.clients i ≠ .storing h v := by
  have hlen := c.length_pending
  rw [Quiet]
  constructor
  · intro hq i h v hs
    have := List.length_pos_of_mem ((c.clients i h v).mp hs)
    omega
  · intro hs
    cases pending with
    | nil => exact hlen.symm.trans (Nat.zero_add _)
    | cons x _ => exact absurd ((c.clients x.1 x.2.1 x.2.2).mpr (.head _)) (hs x.1 x.2.1 x.2.2)

theorem perm {pending' : Pending ι ν} (hperm : pending.Perm pending') : Consistent past s pending' where
  last := c.last
  numbers := ((hperm.symm.map _).append_right _).trans c.numbers
  clients i h v := (c.clients i h v).trans hperm.mem_iff
  values x hx := c.values x (hperm.mem_iff.mpr hx)
  find := c.find
  keys := c.keys
  released := c.released
  given := c.given
  count := c.count

omit c in
/-- A value that is stored under its number. -/
theorem store [DecidableEq ι] {i : ι} (c : Consistent past s ((i, h, v) :: pending)) :
    Consistent (past ++ [(i, .wrapped h v)])
      ⟨s.table.store h v, fun j => (Function.update s.clients i .idle j).meets (s.table.store h v)⟩
      pending := by
  have hv : HandleValue.isZero v = false := c.values _ (.head _)
  have hnew : h ∉ wraps past := c.not_mem_wraps (.head _)
  have hfresh : h ∉ s.table.keys := c.not_mem_keys (.head _)
  have hunreleased : h ∉ releases past := fun hr => hnew (c.given hr)
  have hothers : ∀ x ∈ pending, x.1 ≠ i := by
    rintro ⟨j, k, x⟩ hx rfl
    have hnd := (List.nodup_append.mp c.nodup).1
    cases ((c.clients j h v).mpr (.head _)).symm.trans ((c.clients j k x).mpr (.tail _ hx))
    exact (List.nodup_cons.mp hnd).1 (List.mem_map_of_mem hx)
  have hwraps : wraps (past ++ [(i, Event.wrapped h v)]) = wraps past ++ [h] := by
    rw [wraps_append]
    simp [wraps, hv]
  have hdraws : draws (past ++ [(i, Event.wrapped h v)]) = draws past := draws_append
  have hreleases : releases (past ++ [(i, Event.wrapped h v)]) = releases past :=
    releases_append.trans (List.append_nil _)
  have hreturned : ∀ k x, Returned [(i, Event.wrapped h v)] k x ↔ k = h ∧ x = v := by
    intro k x
    constructor
    · rintro ⟨-, j, hj⟩
      cases List.mem_singleton.mp hj
      exact ⟨rfl, rfl⟩
    · rintro ⟨rfl, rfl⟩
      exact ⟨hv, i, .head _⟩
  have hlast : (s.table.store h v).last = s.table.last := by rw [store_of_fresh hfresh]
  constructor
  · rw [hlast, hdraws]
    exact c.last
  · rw [hwraps, hdraws]
    refine .trans ?_ c.numbers
    rw [← List.append_assoc]
    exact List.perm_append_singleton _ _
  · intro j k x
    show (Function.update s.clients i .idle j).meets _ = _ ↔ _
    rw [Client.meets_eq_storing]
    by_cases hj : j = i
    · subst hj
      rw [Function.update_self]
      exact ⟨nofun, fun hx => absurd rfl (hothers _ hx)⟩
    · rw [Function.update_of_ne hj, c.clients, List.mem_cons]
      exact or_iff_right fun heq => hj (congrArg Prod.fst heq)
  · exact fun x hx => c.values x (.tail _ hx)
  · intro k x
    show (s.table.store h v).find? k = _ ↔ _
    rw [find?_store hfresh, hreleases, returned_append, hreturned]
    by_cases hk : k = h
    · subst hk
      rw [if_pos rfl, Option.some.injEq]
      constructor
      · rintro rfl
        exact ⟨.inr ⟨rfl, rfl⟩, hunreleased⟩
      · rintro ⟨hret | ⟨-, rfl⟩, -⟩
        · exact absurd (mem_wraps.2 ⟨x, hret⟩) hnew
        · rfl
    · rw [if_neg hk, c.find, or_iff_left fun heq => hk heq.1]
  · show (s.table.store h v).keys.Nodup
    rw [keys_store hfresh, ← List.concat_eq_append]
    exact List.Nodup.concat hfresh c.keys
  · rw [hreleases]
    exact c.released
  · rw [hreleases, hwraps]
    exact fun k hk => List.mem_append_left _ (c.given hk)
  · show (s.table.store h v).keys.length + _ = _
    rw [keys_store hfresh, hreleases, hwraps, List.length_append, List.length_append, ← c.count]
    exact Nat.add_right_comm ..

/-- A handle that is released. -/
theorem release {i : ι} (h0 : h ≠ 0) (hk : h ∈ s.table.keys) :
    Consistent (past ++ [(i, .released h (.ok ()))])
      ⟨s.table.remove h, fun j => (s.clients j).meets (s.table.remove h)⟩ pending := by
  have hlive := c.mem_keys.mp hk
  have hreleases : releases (past ++ [(i, Event.released h (.ok ()))]) = releases past ++ [h] := by
    rw [releases_append]
    simp [releases, h0]
  have hwraps : wraps (past ++ [(i, Event.released h (.ok ()))]) = wraps past :=
    wraps_append.trans (List.append_nil _)
  have hdraws : draws (past ++ [(i, Event.released h (.ok ()))]) = draws past := draws_append
  constructor
  · rw [hdraws]
    exact c.last
  · rw [hwraps, hdraws]
    exact c.numbers
  · exact fun j k x => Client.meets_eq_storing.trans (c.clients j k x)
  · exact c.values
  · intro k x
    show (s.table.remove h).find? k = _ ↔ _
    rw [find?_remove_eq_some, c.find, hreleases, returned_append, or_iff_left (not_returned rfl),
      List.mem_append, List.mem_singleton, not_or, and_left_comm, and_comm (a := k ≠ h)]
  · show (s.table.remove h).keys.Nodup
    rw [keys_remove]
    exact c.keys.filter _
  · rw [hreleases, ← List.concat_eq_append]
    exact List.Nodup.concat hlive.2 c.released
  · rw [hreleases, hwraps]
    exact List.append_subset.mpr ⟨c.given, List.cons_subset.mpr ⟨hlive.1, nofun⟩⟩
  · show (s.table.remove h).keys.length + _ = _
    have := length_keys_remove c.keys hk
    have := c.count
    rw [hreleases, hwraps, List.length_append, List.length_singleton]
    omega

variable [DecidableEq ι] {i : ι} {e : Event ν}

theorem step (hstep : Step i s e s') (hfew : draws (past ++ [(i, e)]) < limit) :
    ∃ pending', Consistent (past ++ [(i, e)]) s' pending' := by
  cases hstep with
  | @zero v _ hv =>
    exact ⟨pending, c.silent rfl (by simp [wraps, hv]) rfl rfl fun _ _ _ => .rfl⟩
  | draw hidle hv =>
    rw [draws_append] at hfew
    exact ⟨_, (c.draw hv hfew hidle).2⟩
  | store hs =>
    obtain ⟨l, r, rfl⟩ := List.append_of_mem ((c.clients _ _ _).mp hs)
    exact ⟨l ++ r, (c.perm List.perm_middle).store⟩
  | unwrap => exact ⟨pending, c.silent rfl rfl rfl rfl fun _ _ _ => .rfl⟩
  | @release h t _ hrel =>
    rcases s.table.release_cases h with ⟨rfl, ht⟩ | ⟨h0, hk, ht⟩ | ⟨-, -, ht⟩ <;> cases hrel.symm.trans ht
    · exact ⟨pending, c.silent rfl rfl rfl rfl fun _ _ _ => Client.meets_eq_storing⟩
    · exact ⟨pending, c.release h0 hk⟩
  | refuse => exact ⟨pending, c.silent rfl rfl rfl rfl fun _ _ _ => .rfl⟩
  | count hidle =>
    refine ⟨pending, c.silent rfl rfl rfl rfl fun j h v => ?_⟩
    by_cases hj : j = i
    · subst hj
      simp [hidle]
    · simp [hj]
  | counted hcounting =>
    refine ⟨pending, c.silent rfl rfl rfl rfl fun j h v => ?_⟩
    by_cases hj : j = i
    · subst hj
      simp [hcounting]
    · simp [hj]

/-- What is observed of a step is promised, where counts are left to `Run.counted`. -/
theorem promised (hstep : Step i s e s') (he : ∀ n, e ≠ .counted n) : Promised past i e := by
  cases hstep with
  | zero _ hv => exact (if_pos hv).mpr rfl
  | draw => trivial
  | store hs =>
    have hmem := (c.clients _ _ _).mp hs
    have hnew := c.not_mem_wraps hmem
    refine (if_neg (by rw [c.values _ hmem]; decide)).mpr ⟨?_, hnew, fun hr => hnew (c.given hr)⟩
    exact c.ne_zero (List.mem_append_left _ (List.mem_map_of_mem hmem))
  | @unwrap h wanted isType _ =>
    constructor
    · intro v hret hr
      have h0 := c.ne_zero_of_wraps (mem_wraps.2 ⟨v, hret⟩)
      exact unwrap_of_find? h0 ((c.find h v).mpr ⟨hret, hr⟩) _ _
    · intro hgone
      by_cases h0 : h = 0
      · rw [if_pos h0, h0]
        rfl
      · rw [if_neg h0]
        refine unwrap_of_find?_none h0 (find?_eq_none_iff.mpr fun hk => ?_) _ _
        exact hgone.elim (fun hw => hw (c.mem_keys.mp hk).1) (c.mem_keys.mp hk).2
  | @release h t _ hrel =>
    intro h0
    refine iff_of_true rfl (c.mem_keys.mp ?_)
    rcases s.table.release_cases h with ⟨hz, -⟩ | ⟨-, hk, -⟩ | ⟨-, -, ht⟩
    · exact absurd hz h0
    · exact hk
    · cases hrel.symm.trans ht
  | @refuse h d _ hrel =>
    intro h0
    refine iff_of_false nofun fun hlive => ?_
    rcases s.table.release_cases h with ⟨hz, -⟩ | ⟨-, -, ht⟩ | ⟨-, hk, -⟩
    · exact absurd hz h0
    · cases hrel.symm.trans ht
    · exact hk (c.mem_keys.mpr hlive)
  | count => trivial
  | counted => exact absurd rfl (he _)

omit c in
theorem run {more : History ι ν} (c : Consistent past s pending) (hrun : Run s more s')
    (hfew : draws (past ++ more) < limit) : ∃ pending', Consistent (past ++ more) s' pending' := by
  induction hrun generalizing past pending with
  | nil => exact ⟨pending, by rwa [List.append_nil]⟩
  | @cons i s s₁ s' e rest hstep _ ih =>
    rw [← List.singleton_append, ← List.append_assoc] at hfew ⊢
    obtain ⟨pending', c'⟩ := c.step hstep (Nat.lt_of_le_of_lt draws_le_append hfew)
    exact ih c' hfew

omit c in
theorem of_run (hrun : Run {} past s) (hfew : draws past < limit) :
    ∃ pending, Consistent past s pending := start.run hrun hfew

end Consistent

/-! ## Counting -/

section

variable [DecidableEq ι] {i j : ι} {s s' : Shared ι ν} {e : Event ν} {pending : Pending ι ν}

/-- A client counts handles that were live at the start, while no handle is given. -/
structure Counts (i : ι) (start : List Nat) (s : Shared ι ν) : Prop where
  quiet : ∀ j h v, s.clients j ≠ .storing h v
  live : s.table.keys ⊆ start
  meets : ∃ always ever, s.clients i = .counting always ever ∧ s.table.keys ⊆ always ∧ ever ⊆ start

theorem Step.counts {start : List Nat} (hstep : Step j s e s') (hj : j ≠ i)
    (hdraws : draws [(j, e)] = 0) (hcounts : Counts i start s) : Counts i start s' := by
  obtain ⟨hquiet, hlive, always, ever, hi, halways, hever⟩ := hcounts
  have hupdate : ∀ d : Client ν, (∀ h v, d ≠ .storing h v) →
      Counts i start ⟨s.table, Function.update s.clients j d⟩ := by
    intro d hd
    refine ⟨fun k h v => ?_, hlive, always, ever, ?_, halways, hever⟩
    · by_cases hk : k = j
      · subst hk
        simpa using hd h v
      · simpa [hk] using hquiet k h v
    · simpa [hj.symm] using hi
  cases hstep with
  | zero | unwrap | refuse => exact ⟨hquiet, hlive, always, ever, hi, halways, hever⟩
  | draw => cases hdraws
  | store hs => exact absurd hs (hquiet _ _ _)
  | @release h t _ hrel =>
    have hsub : t.keys ⊆ s.table.keys := by
      rcases s.table.release_cases h with ⟨-, ht⟩ | ⟨-, -, ht⟩ | ⟨-, -, ht⟩ <;> cases hrel.symm.trans ht
      · exact List.Subset.refl _
      · exact keys_remove_subset
    refine ⟨fun k h v hk => hquiet k h v (Client.meets_eq_storing.1 hk), fun k hk => hlive (hsub hk),
      always.filter (· ∈ t.keys), ever ++ t.keys, by simp [hi, Client.meets], fun k hk => ?_, ?_⟩
    · exact List.mem_filter.mpr ⟨halways (hsub hk), decide_eq_true hk⟩
    · exact List.append_subset.mpr ⟨hever, fun k hk => hlive (hsub hk)⟩
  | count => exact hupdate _ nofun
  | counted => exact hupdate _ nofun

theorem Run.counts {start : List Nat} {more : History ι ν} (hrun : Run s more s')
    (hothers : ∀ e ∈ more, e.1 ≠ i) (hdraws : draws more = 0) (hcounts : Counts i start s) :
    Counts i start s' := by
  induction hrun with
  | nil => exact hcounts
  | @cons j s s₁ s' e rest hstep _ ih =>
    rw [← List.singleton_append, draws_append, Nat.add_eq_zero_iff] at hdraws
    rw [List.forall_mem_cons] at hothers
    exact ih hothers.2 hdraws.2 (hstep.counts hothers.1 hdraws.1 hcounts)

theorem Step.length_keys (hstep : Step i s e s') (c : Consistent past s pending) :
    s.table.keys.length ≤ s'.table.keys.length + 1 := by
  cases hstep with
  | store hs =>
    rw [keys_store (c.not_mem_keys ((c.clients _ _ _).mp hs)), List.length_append]
    omega
  | @release h t _ hrel =>
    rcases s.table.release_cases h with ⟨-, ht⟩ | ⟨-, hk, ht⟩ | ⟨-, -, ht⟩ <;> cases hrel.symm.trans ht
    · exact Nat.le_succ _
    · exact Nat.le_of_eq (length_keys_remove c.keys hk).symm
  | _ => exact Nat.le_succ _

/-- A number between the numbers of live handles at the end and at the start is that number at some
moment, since a step takes at most one handle away. -/
theorem Run.exists_length_keys {more : History ι ν} {n : Nat} (hrun : Run s more s')
    (c : Consistent past s pending) (hfew : draws (past ++ more) < limit)
    (hlo : s'.table.keys.length ≤ n) (hhi : n ≤ s.table.keys.length) :
    ∃ mid after t pending', more = mid ++ after ∧ Consistent (past ++ mid) t pending' ∧
      t.table.keys.length = n := by
  induction hrun generalizing past pending with
  | nil =>
    exact ⟨[], [], _, pending, rfl, by rwa [List.append_nil], Nat.le_antisymm hlo hhi⟩
  | @cons i s s₁ s' e rest hstep _ ih =>
    rcases Nat.eq_or_lt_of_le hhi with heq | hlt
    · exact ⟨[], _, s, pending, rfl, by rwa [List.append_nil], heq.symm⟩
    · rw [← List.singleton_append, ← List.append_assoc] at hfew
      obtain ⟨pending', c'⟩ := c.step hstep (Nat.lt_of_le_of_lt draws_le_append hfew)
      have := hstep.length_keys c
      obtain ⟨mid, after, t, pending'', rfl, ct, hn⟩ := ih c' hfew hlo (by omega)
      refine ⟨(i, e) :: mid, after, t, pending'', rfl, ?_, hn⟩
      rwa [List.append_assoc] at ct

theorem Run.append {p q : History ι ν} {s'' : Shared ι ν} (h : Run s (p ++ q) s'') :
    ∃ s', Run s p s' ∧ Run s' q s'' := by
  induction p generalizing s with
  | nil => exact ⟨s, .nil, h⟩
  | cons x p ih =>
    cases h with
    | cons hstep hrest =>
      obtain ⟨s', hp, hq⟩ := ih hrest
      exact ⟨s', .cons hstep hp, hq⟩

/-- The count of a client that counted while no handle was given. -/
theorem Run.counted {before since : History ι ν} {n : Nat}
    (hrun : Run {} (before ++ (i, .counting) :: since) s) (hstep : Step i s (.counted n) s')
    (hfew : draws (before ++ (i, .counting) :: since) < limit) (hothers : ∀ e ∈ since, e.1 ≠ i)
    (hquiet : Quiet before) (hdraws : draws since = 0) :
    ∃ mid after, since = mid ++ after ∧
      n + (releases (before ++ (i, .counting) :: mid)).length = draws (before ++ (i, .counting) :: mid) := by
  obtain ⟨s₀, hbefore, hrest⟩ := hrun.append
  cases hrest with
  | @cons _ _ s₁ _ _ _ hcount hsince =>
    rw [← List.singleton_append, ← List.append_assoc] at hfew
    have hfew₁ := Nat.lt_of_le_of_lt draws_le_append hfew
    obtain ⟨pending₀, c₀⟩ := Consistent.of_run hbefore (Nat.lt_of_le_of_lt draws_le_append hfew₁)
    obtain ⟨pending₁, c₁⟩ := c₀.step hcount hfew₁
    have hcounts : Counts i s₁.table.keys s₁ := by
      have hquiet₁ : Quiet (before ++ [(i, Event.counting)]) := by
        rw [Quiet, draws_append, wraps_append, List.length_append, hquiet]
        rfl
      refine ⟨c₁.quiet_iff.mp hquiet₁, List.Subset.refl _, ?_⟩
      cases hcount with
      | count => exact ⟨_, _, Function.update_self .., List.Subset.refl _, List.Subset.refl _⟩
    obtain ⟨-, -, always, ever, hi, halways, hever⟩ := hsince.counts hothers hdraws hcounts
    obtain ⟨pending, c⟩ := c₁.run hsince hfew
    obtain ⟨met, hnd, hlo, hhi, rfl⟩ : ∃ met : List Nat, met.Nodup ∧ always ⊆ met ∧ met ⊆ ever ∧
        n = met.length := by
      cases hstep with
      | counted hmet hnd hlo hhi =>
        cases hi.symm.trans hmet
        exact ⟨_, hnd, hlo, hhi, rfl⟩
    obtain ⟨mid, after, t, pending', rfl, ct, hn⟩ := hsince.exists_length_keys c₁ hfew
      (c.keys.subperm fun k hk => hlo (halways hk)).length_le
      (hnd.subperm fun k hk => hever (hhi hk)).length_le
    refine ⟨mid, after, rfl, ?_⟩
    rw [← List.singleton_append (x := (i, Event.counting)), ← List.append_assoc, ← hn, ct.count]
    -- No handle was given since the count began, so that none is pending at that moment.
    have hmid : draws mid = 0 := Nat.le_zero.mp (hdraws ▸ draws_le_append)
    have hwraps := ct.length_pending
    have hsame : draws (before ++ [(i, Event.counting)] ++ mid) = draws before := by
      rw [draws_append, draws_append, hmid]
      rfl
    have hle : draws before ≤ (wraps (before ++ [(i, Event.counting)] ++ mid)).length := by
      rw [wraps_append, wraps_append, List.length_append, List.length_append, hquiet]
      omega
    omega

/-! ## What clients can rely on -/

/-- Clients of one table can rely on all that they observe, in whatever order they take their steps, if
fewer than `limit` numbers are drawn. No two values get the same handle, not even after it was
released, and no handle is released twice. From when it is given until it is released, a handle gives
its value, and it gives none after that. When no value is being stored, the live handles are as many as
the values less the releases. -/
theorem run_promised (hrun : Run {} past s) (hfew : draws past < limit) :
    (wraps past).Nodup ∧ (releases past).Nodup ∧
    (∀ before i e after, past = before ++ (i, e) :: after → Promised before i e) ∧
    (∀ h v, Returned past h v → ∀ {τ : Type} (wanted : String) (view : ν → Option τ),
      s.table.unwrap wanted view h =
        if h ∈ releases past then .error (.unknown h) else seen h wanted view v) ∧
    (Quiet past ↔ ∀ i h v, s.clients i ≠ .storing h v) ∧
    (Quiet past → s.table.count + (releases past).length = draws past) := by
  obtain ⟨pending, c⟩ := Consistent.of_run hrun hfew
  refine ⟨(List.nodup_append.mp c.nodup).2.1, c.released, ?_, ?_, c.quiet_iff, ?_⟩
  · rintro before i e after rfl
    have hfew' := Nat.lt_of_le_of_lt draws_le_append hfew
    obtain ⟨s₁, hbefore, hrest⟩ := hrun.append
    cases hrest with
    | @cons _ _ s₂ _ _ _ hstep _ =>
      obtain ⟨pending₁, c₁⟩ := Consistent.of_run hbefore hfew'
      by_cases he : ∃ n, e = .counted n
      · obtain ⟨n, rfl⟩ := he
        rintro before since rfl hothers hquiet hdraws
        exact hbefore.counted hstep hfew' hothers hquiet hdraws
      · exact c₁.promised hstep fun n hn => he ⟨n, hn⟩
  · intro h v hret τ wanted view
    have h0 := c.ne_zero_of_wraps (mem_wraps.2 ⟨v, hret⟩)
    by_cases hr : h ∈ releases past
    · rw [if_pos hr]
      exact unwrap_of_find?_none h0 (find?_eq_none_iff.mpr fun hk => (c.mem_keys.mp hk).2 hr) _ _
    · rw [if_neg hr]
      exact unwrap_of_find? h0 ((c.find h v).mpr ⟨hret, hr⟩) _ _
  · intro hquiet
    rw [count_eq, c.count]
    exact hquiet.symm

end

/-- Two clients store their values in the opposite order of their numbers, and one of them counts while
the other releases its handle. -/
def overlapping : History Bool Entity :=
  [(false, .drew 1), (true, .drew 2), (true, .wrapped 2 (.execution 0)), (false, .wrapped 1 (.kernel 0)),
    (false, .counting), (true, .released 2 (.ok ())), (false, .counted 2),
    (true, .unwrapped 2 "*runtime.Execution" (fun _ => true) (.error (.unknown 2)))]

theorem run_promised_overlapping : ∃ s : Shared Bool Entity, Run {} overlapping s ∧
    draws overlapping < limit ∧ (wraps overlapping).Nodup ∧
    (∀ i, s.clients i = .idle) ∧ s.table.count + (releases overlapping).length = 2 ∧
    s.table.unwrap "*runtime.Kernel" some 1 = .ok (.kernel 0) ∧
    s.table.unwrap "*runtime.Execution" some 2 = .error (.unknown 2) := by
  have hfew : draws overlapping < limit := by decide
  have hrun : ∃ s : Shared Bool Entity, Run {} overlapping s ∧ ∀ i, s.clients i = .idle := by
    refine ⟨_, .cons (.draw (v := .kernel 0) rfl rfl) <| .cons (.draw (v := .execution 0) rfl rfl) <|
      .cons (.store rfl) <| .cons (.store rfl) <| .cons (.count rfl) <| .cons (.release rfl rfl) <|
      .cons (.counted rfl (show [2, 1].Nodup by decide) (by decide) (by decide)) <|
      .cons (.unwrap rfl) .nil, ?_⟩
    rintro (_ | _) <;> rfl
  obtain ⟨s, hrun, hidle⟩ := hrun
  obtain ⟨hnd, -, -, hunwrap, hquiet, hcount⟩ := run_promised hrun hfew
  have h₁ : Returned overlapping 1 (.kernel 0) := ⟨rfl, false, by simp [overlapping]⟩
  have h₂ : Returned overlapping 2 (.execution 0) := ⟨rfl, true, by simp [overlapping]⟩
  refine ⟨s, hrun, hfew, hnd, hidle, hcount (hquiet.mpr fun i h v hs => ?_), hunwrap 1 _ h₁ _ _,
    hunwrap 2 _ h₂ _ _⟩
  rw [hidle i] at hs
  cases hs

end LoopNest.HandleTable
