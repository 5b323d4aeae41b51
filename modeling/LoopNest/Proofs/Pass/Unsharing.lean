import LoopNest.Pass.Lift
import LoopNest.Proofs.Reporting
import LoopNest.Proofs.Tree.Copying

/-!
# Every node gets one place

`unshare` walks over the table and changes it on the way, so a stored tree is not always what it was
at the start. What stays is its stripped form: `Unsharing` says this of all trees of the original
table, and that nodes not yet seen are untouched. A tree that was walked over is in place: its nodes
are new or seen from then on, and they are not changed any more. In the end every node has one
place, and where every node had one before, nothing has happened (`unshare_forest`).
-/

namespace LoopNest.Pass

variable {nodes₀ : Array Node} {p p' : Program} {seen seen' : List NodeId}

/-- The state of the walk over an original table. -/
structure Unsharing (nodes₀ : Array Node) (p : Program) (seen : List NodeId) : Prop where
  same : ∀ t : Tree, t.StoredIn nodes₀ →
    ∃ t' : Tree, t'.StoredIn p.nodes ∧ t'.root = t.root ∧ t'.strip = t.strip
  unseen : ∀ x < nodes₀.size, x ∉ seen → p.nodes[x]? = nodes₀[x]?
  size : nodes₀.size ≤ p.nodes.size

/-- Nodes in place: they have one place each, and they are new, or were seen on the way from `seen`
to `seen'`. -/
structure Placed (base : Nat) (seen : List NodeId) (size : Nat) (seen' ids : List NodeId) :
    Prop where
  nodup : ids.Nodup
  fresh : ∀ x ∈ ids, (x < base → x ∉ seen ∧ x ∈ seen') ∧ (base ≤ x → size ≤ x)

/-- The nodes in place keep what they hold, except for some. -/
def Kept (base : Nat) (seen : List NodeId) (except : NodeId → Prop) (p p' : Program) : Prop :=
  ∀ x < p.nodes.size, (x < base → x ∈ seen) → ¬ except x → p'.nodes[x]? = p.nodes[x]?

/-- Nothing but the table of nodes and the assignments changes. -/
def OnlyCode (p p' : Program) : Prop :=
  p' = { p with nodes := p'.nodes, assignments := p'.assignments }

theorem OnlyCode.trans {q : Program} (h : OnlyCode p q) (h' : OnlyCode q p') : OnlyCode p p' := by
  rw [OnlyCode] at *
  rw [h', h]

theorem Kept.trans {base : Nat} {except : NodeId → Prop} {q : Program}
    (h : Kept base seen except p q) (h' : Kept base seen' except q p') (hsub : seen ⊆ seen')
    (hsize : p.nodes.size ≤ q.nodes.size) : Kept base seen except p p' := by
  intro x hx hbase hne
  rw [h' x (Nat.lt_of_lt_of_le hx hsize) (fun hb => hsub (hbase hb)) hne, h x hx hbase hne]

theorem Kept.size_le {except : NodeId → Prop} (h : Unsharing nodes₀ p' seen')
    (hk : Kept nodes₀.size seen except p p') (hne : ∀ x, except x → x < nodes₀.size) :
    p.nodes.size ≤ p'.nodes.size := by
  by_contra hlt
  have hsize := h.size
  have hx := hk p'.nodes.size (by omega) (by omega) fun he => Nat.not_lt.mpr hsize (hne _ he)
  rw [Array.getElem?_eq_none (Nat.le_refl _)] at hx
  have := Array.getElem?_eq_none_iff.mp hx.symm
  omega

/-- Nodes in place keep what they hold. -/
theorem Placed.node_eq {size : Nat} {ids : List NodeId} {except : NodeId → Prop} {q : Program}
    (h : Placed nodes₀.size seen size seen' ids) (hk : Kept nodes₀.size seen' except q p')
    {x : NodeId} (hx : x ∈ ids) (hlt : x < q.nodes.size) (hne : ¬ except x) :
    p'.nodes[x]? = q.nodes[x]? :=
  hk x hlt (fun hb => ((h.fresh x hx).1 hb).2) hne

/-- Trees of nodes in place stay there. -/
theorem Placed.storedIn {size : Nat} {ids : List NodeId} {except : NodeId → Prop} {q : Program}
    (h : Placed nodes₀.size seen size seen' ids) (hk : Kept nodes₀.size seen' except q p')
    {t : Tree} (ht : t.StoredIn q.nodes) (hids : ∀ x ∈ t.ids, x ∈ ids ∧ ¬ except x) :
    t.StoredIn p'.nodes :=
  ht.frame fun x hx => h.node_eq hk (hids x hx).1 (ht.lt_size x hx) (hids x hx).2

/-- Nodes that are put in place one after the other. -/
theorem Placed.append {ids ids' : List NodeId} {seen₁ : List NodeId} {size size₁ : Nat}
    (h : Placed nodes₀.size seen size seen₁ ids) (h' : Placed nodes₀.size seen₁ size₁ seen' ids')
    (hsub : seen ⊆ seen₁) (hsub' : seen₁ ⊆ seen') (hsize : size ≤ size₁)
    (hlt : ∀ x ∈ ids, x < size₁) : Placed nodes₀.size seen size seen' (ids ++ ids') := by
  refine ⟨?_, ?_⟩
  · rw [List.nodup_append]
    refine ⟨h.nodup, h'.nodup, ?_⟩
    rintro x hx _ hy rfl
    by_cases hb : x < nodes₀.size
    · exact ((h'.fresh x hy).1 hb).1 ((h.fresh x hx).1 hb).2
    · exact Nat.not_le.mpr (hlt x hx) ((h'.fresh x hy).2 (Nat.not_lt.mp hb))
  · intro x hx
    rw [List.mem_append] at hx
    rcases hx with hx | hx
    · exact ⟨fun hb => ⟨((h.fresh x hx).1 hb).1, hsub' ((h.fresh x hx).1 hb).2⟩, (h.fresh x hx).2⟩
    · refine ⟨fun hb => ⟨fun hmem => ((h'.fresh x hx).1 hb).1 (hsub hmem),
        ((h'.fresh x hx).1 hb).2⟩, fun hb => ?_⟩
      exact Nat.le_trans hsize ((h'.fresh x hx).2 hb)

/-- The node of which a slot is an operand. -/
def Slot.IsParent (slot : Slot) (x : NodeId) : Prop := ∃ k, slot = .operand x k

/-- The program after a node was put at a slot. -/
def SlotSet (i : Nat) (id : NodeId) (p p' : Program) : Slot → Prop
  | .root => p'.assignments = p.assignments.modify i fun a => { a with expr := id }
  | .operand parent k => p'.assignments = p.assignments ∧ p'.nodes[parent]? =
      p.nodes[parent]?.map fun n => { n with operands := n.operands.set k id }

/-- Nothing has to change when the slot holds the node already. -/
theorem SlotSet.self {i : Nat} {slot : Slot} {a : Assignment} {id : NodeId}
    (ha : p.assignments[i]? = some a) (hid : p.slotNode? a slot = some id)
    (hass : p'.assignments = p.assignments)
    (hnode : ∀ parent k, slot = .operand parent k → p'.nodes[parent]? = p.nodes[parent]?) :
    SlotSet i id p p' slot := by
  cases slot with
  | root =>
    obtain ⟨hi, rfl⟩ := List.getElem?_eq_some_iff.mp ha
    simp only [Program.slotNode?, Option.some.injEq] at hid
    subst hid
    rw [SlotSet, hass]
    refine List.ext_getElem (by simp) fun j h₁ h₂ => ?_
    rw [List.getElem_modify]
    split
    · rename_i hij
      subst hij
      rfl
    · rfl
  | operand parent k =>
    simp only [Program.slotNode?, Program.operand?, Program.node?, Option.bind_eq_bind,
      Option.bind_eq_some_iff] at hid
    obtain ⟨m, hm, hk⟩ := hid
    obtain ⟨hlt, rfl⟩ := List.getElem?_eq_some_iff.mp hk
    refine ⟨hass, (hnode parent k rfl).trans ?_⟩
    rw [hm, Option.map_some, List.set_getElem_self]

theorem SlotSet.of_setSlot? {i : Nat} {slot : Slot} {a : Assignment} {x : NodeId} (id : NodeId)
    (ha : p.assignments[i]? = some a) (hx : p.slotNode? a slot = some x) :
    ∃ p', p.setSlot? i slot id = some p' ∧ SlotSet i id p p' slot ∧ OnlyCode p p' ∧
      p'.nodes.size = p.nodes.size ∧ ∀ y, ¬ Slot.IsParent slot y → p'.nodes[y]? = p.nodes[y]? := by
  cases slot with
  | root =>
    have hi : i < p.assignments.length := (List.getElem?_eq_some_iff.mp ha).1
    exact ⟨_, Program.setSlot?_root hi id, rfl, rfl, rfl, fun _ _ => rfl⟩
  | operand parent k =>
    simp only [Program.slotNode?, Program.operand?, Option.bind_eq_bind,
      Option.bind_eq_some_iff] at hx
    obtain ⟨n, hn, hk⟩ := hx
    refine ⟨_, Program.setSlot?_operand hn (List.getElem?_eq_some_iff.mp hk).1 id, ⟨rfl, ?_⟩, rfl, ?_,
      fun y hy => ?_⟩
    · rw [Program.getElem?_modifyNode, if_pos rfl]
    · simp [Program.modifyNode]
    · rw [Program.getElem?_modifyNode, if_neg]
      rintro rfl
      exact hy ⟨k, rfl⟩

theorem Unsharing.grow (h : Unsharing nodes₀ p seen) (hg : p.Grows p') :
    Unsharing nodes₀ p' seen := by
  refine ⟨fun t ht => ?_, fun x hx hseen => ?_, Nat.le_trans h.size hg.size_le⟩
  · obtain ⟨t', h₁, h₂, h₃⟩ := h.same t ht
    exact ⟨t', hg.storedIn h₁, h₂, h₃⟩
  · rw [hg.getElem?_eq (Nat.lt_of_lt_of_le hx h.size), h.unseen x hx hseen]

/-- Putting a copy of a seen tree at a slot of a seen node. -/
theorem Unsharing.set {i : Nat} {slot : Slot} {u s : Tree} (h : Unsharing nodes₀ p seen)
    (hu : u.StoredIn p.nodes) (hs : s.StoredIn p'.nodes) (hstrip : s.strip = u.strip)
    {a : Assignment} (hslot : p.slotNode? a slot = some u.root)
    (hset : SlotSet i s.root p p' slot) (hsize : p'.nodes.size = p.nodes.size)
    (hkeep : ∀ y, ¬ Slot.IsParent slot y → p'.nodes[y]? = p.nodes[y]?)
    (hparent : ∀ x, Slot.IsParent slot x → x ∈ seen) : Unsharing nodes₀ p' seen := by
  refine ⟨fun t ht => ?_, fun x hx hseen => ?_, hsize ▸ h.size⟩
  · obtain ⟨t', h₁, h₂, h₃⟩ := h.same t ht
    cases slot with
    | root => exact ⟨t', h₁.frame fun x _ => hkeep x (by rintro ⟨k, ⟨⟩⟩), h₂, h₃⟩
    | operand parent k =>
      obtain ⟨t'', h₄, h₅, h₆⟩ := Tree.StoredIn.graft
        (fun x _ hx => hkeep x (by rintro ⟨k, ⟨⟩⟩; exact hx rfl)) hset.2 hu hs hstrip
        (fun n hn => by
          simpa [Program.slotNode?, Program.operand?, Program.node?, hn] using hslot) h₁
      exact ⟨t'', h₄, h₅.trans h₂, h₆.trans h₃⟩
  · rw [hkeep x fun hp => hseen (hparent x hp), h.unseen x hx hseen]

/-! ## The walk -/

/-- What the walk does at a slot that holds the root of an original tree. -/
def UnsharedAt (nodes₀ : Array Node) (fuel i : Nat) (slot : Slot) (t : Tree) (seen : List NodeId)
    (p : Program) : Prop :=
  ∃ (seen' : List NodeId) (p' : Program) (s : Tree),
    unshareAt fuel i slot t.root seen p = .ok seen' p' ∧
    Unsharing nodes₀ p' seen' ∧ seen ⊆ seen' ∧ s.strip = t.strip ∧ s.StoredIn p'.nodes ∧
    Placed nodes₀.size seen p.nodes.size seen' s.ids ∧
    Kept nodes₀.size seen (Slot.IsParent slot) p p' ∧ SlotSet i s.root p p' slot ∧ OnlyCode p p'

/-- The step at a node that was reached before: a copy is put at the slot. -/
theorem unshareAt_seen {fuel i : Nat} {slot : Slot} {t : Tree} (ht : t.StoredIn nodes₀)
    (h : Unsharing nodes₀ p seen) {a : Assignment} (ha : p.assignments[i]? = some a)
    (hslot : p.slotNode? a slot = some t.root) (hparent : ∀ x, Slot.IsParent slot x → x ∈ seen)
    (hseen : t.root ∈ seen) : UnsharedAt nodes₀ (fuel + 1) i slot t seen p := by
  obtain ⟨u, hu, hroot, hstrip⟩ := h.same t ht
  obtain ⟨s, p₁, hclone, hg, hs⟩ := Program.clone_spec hu
  have hslot₁ : p₁.slotNode? a slot = some u.root := by
    rw [hroot, ← hslot]
    cases slot with
    | root => rfl
    | operand parent k =>
      simp only [Program.slotNode?, Program.operand?, Program.node?, Option.bind_eq_bind,
        Option.bind_eq_some_iff] at hslot ⊢
      obtain ⟨n, hn, -⟩ := hslot
      rw [hg.node_eq hn, hn]
  obtain ⟨p₂, hset, hset₁, hcode, hsize, hkeep⟩ :=
    SlotSet.of_setSlot? s.root (hg.assignments ▸ ha) hslot₁
  -- the slot is not part of the copy, which is made of new nodes
  have hnot : ∀ x ∈ s.ids, ¬ Slot.IsParent slot x := by
    rintro x hx ⟨k, rfl⟩
    simp only [Program.slotNode?, Program.operand?, Option.bind_eq_bind,
      Option.bind_eq_some_iff] at hslot
    obtain ⟨n, hn, -⟩ := hslot
    exact Nat.not_lt.mpr (hs.new x hx) (Array.getElem?_eq_some_iff.mp hn).1
  have hs₂ : s.StoredIn p₂.nodes := hs.stored.frame fun x hx => hkeep x (hnot x hx)
  refine ⟨seen, p₂, s, ?_, ?_, fun _ h => h, hs.strip.trans hstrip, hs₂, ?_, ?_, ?_, ?_⟩
  · have hcontains : seen.contains t.root = true := by simpa using hseen
    rw [unshareAt, if_pos hcontains, Edit.bind_ok (Edit.update_run (hroot ▸ hclone)),
      Edit.bind_ok (Edit.setSlot_run hset)]
    rfl
  · exact (h.grow hg).set (hg.storedIn hu) hs₂ hs.strip hslot₁ hset₁ hsize hkeep hparent
  · refine ⟨hs.nodup, fun x hx => ?_⟩
    exact ⟨fun hb => absurd (Nat.le_trans h.size (hs.new x hx)) (Nat.not_le.mpr hb),
      fun _ => hs.new x hx⟩
  · exact fun x hx _ hne => (hkeep x hne).trans (hg.getElem?_eq hx)
  · cases slot with
    | root => exact hset₁.trans (by rw [hg.assignments])
    | operand parent k =>
      refine ⟨hset₁.1.trans hg.assignments, hset₁.2.trans ?_⟩
      simp only [Program.slotNode?, Program.operand?, Option.bind_eq_bind,
        Option.bind_eq_some_iff] at hslot
      obtain ⟨n, hn, -⟩ := hslot
      rw [hg.getElem?_eq (Array.getElem?_eq_some_iff.mp hn).1]
  · obtain ⟨ext, rfl⟩ := hg
    exact hcode

/-- The walk succeeds at every slot that holds the root of the tree. -/
def Walks (nodes₀ : Array Node) (fuel i : Nat) (t : Tree) : Prop :=
  ∀ {slot : Slot} {seen : List NodeId} {p : Program} {a : Assignment}, Unsharing nodes₀ p seen →
    p.assignments[i]? = some a → p.slotNode? a slot = some t.root →
    (∀ x, Slot.IsParent slot x → x ∈ seen ∧ x < nodes₀.size) →
    UnsharedAt nodes₀ fuel i slot t seen p

theorem operand_isParent {id x : NodeId} {k : Nat} : Slot.IsParent (.operand id k) x ↔ x = id := by
  constructor
  · rintro ⟨_, ⟨⟩⟩
    rfl
  · rintro rfl
    exact ⟨k, rfl⟩

theorem slotNode?_operand {a : Assignment} {id x : NodeId} {k : Nat} {n : Node}
    (hn : p.nodes[id]? = some n) (hk : n.operands[k]? = some x) :
    p.slotNode? a (.operand id k) = some x := by
  simp [Program.slotNode?, Program.operand?, Program.node?, hn, hk]

/-- The walk over the operands of a node that is seen for the first time. The operands in `ss` have
been replaced already, those of `us` are still as they were. -/
theorem unshareOperands {fuel i : Nat} {id : NodeId} {n : Node} {a : Assignment} {us : List Tree}
    (hid : id < nodes₀.size) (hus : ∀ u ∈ us, Walks nodes₀ fuel i u) {ss : List NodeId}
    {seen : List NodeId} {p : Program} (h : Unsharing nodes₀ p seen)
    (ha : p.assignments[i]? = some a) (hmem : id ∈ seen)
    (hn : p.nodes[id]? = some { n with operands := ss ++ us.map Tree.root }) :
    ∃ (seen' : List NodeId) (p' : Program) (vs : List Tree),
      ((List.range' ss.length us.length).foldlM (fun seen k => do
        let op ← Edit.query (·.operand? id k)
        unshareAt fuel i (.operand id k) op seen) seen : Edit (List NodeId)) p = .ok seen' p' ∧
      Unsharing nodes₀ p' seen' ∧ seen ⊆ seen' ∧ vs.map Tree.strip = us.map Tree.strip ∧
      (∀ v ∈ vs, v.StoredIn p'.nodes) ∧
      Placed nodes₀.size seen p.nodes.size seen' (vs.flatMap Tree.ids) ∧
      Kept nodes₀.size seen (· = id) p p' ∧
      p'.nodes[id]? = some { n with operands := ss ++ vs.map Tree.root } ∧
      p'.assignments = p.assignments ∧ OnlyCode p p' := by
  induction us generalizing ss seen p with
  | nil =>
    exact ⟨seen, p, [], rfl, h, fun _ h => h, rfl, by simp, ⟨by simp, by simp⟩,
      fun _ _ _ _ => rfl, hn, rfl, rfl⟩
  | cons u us ih =>
    have hop : p.slotNode? a (.operand id ss.length) = some u.root :=
      slotNode?_operand hn (by simp)
    obtain ⟨seen₁, p₁, s, h₁, hinv, hsub, hstrip, hstored, hplaced, hkept, ⟨hass, hset⟩, hcode⟩ :=
      hus u (.head _) h ha hop fun x hx => by
        rw [operand_isParent] at hx
        exact hx ▸ ⟨hmem, hid⟩
    have hn₁ : p₁.nodes[id]? = some { n with operands := (ss ++ [s.root]) ++ us.map Tree.root } := by
      rw [hset, hn]
      simp
    obtain ⟨seen₂, p₂, vs, h₂, hinv₂, hsub₂, hstrip₂, hstored₂, hplaced₂, hkept₂, hn₂, hass₂,
      hcode₂⟩ :=
      ih (fun v hv => hus v (List.mem_cons_of_mem _ hv)) hinv (hass ▸ ha) (hsub hmem) hn₁
    have hkept' : Kept nodes₀.size seen (· = id) p p₁ := fun x hx hb hne =>
      hkept x hx hb fun hp => hne (operand_isParent.1 hp)
    have hsize := Kept.size_le hinv hkept' fun x hx => hx ▸ hid
    have hnot : ∀ x ∈ s.ids, ¬ x = id := by
      rintro x hx rfl
      exact ((hplaced.fresh x hx).1 hid).1 hmem
    have hstored' : s.StoredIn p₂.nodes :=
      hplaced.storedIn hkept₂ hstored fun x hx => ⟨hx, hnot x hx⟩
    refine ⟨seen₂, p₂, s :: vs, ?_, hinv₂, fun _ h => hsub₂ (hsub h), by simp [hstrip, hstrip₂],
      by simpa using ⟨hstored', hstored₂⟩, hplaced.append hplaced₂ hsub hsub₂ hsize hstored.lt_size,
      hkept'.trans hkept₂ hsub hsize, by simpa using hn₂, hass₂.trans hass, hcode.trans hcode₂⟩
    rw [List.length_cons, List.range'_succ, List.foldlM_cons, Edit.bind_ok]
    · simpa using h₂
    · rw [Edit.bind_ok (Edit.query_run hop)]
      exact h₁

/-- The walk below a node of the original table: its tree ends up in place, with the same stripped
form. -/
theorem walks {fuel i : Nat} {t : Tree} (ht : t.StoredIn nodes₀) (hfuel : t.depth ≤ fuel) :
    Walks nodes₀ fuel i t := by
  induction t using Tree.inductionOn generalizing fuel with
  | missing => cases ht
  | node id n ts ih =>
    intro slot seen p a h ha hslot hparent
    cases fuel with
    | zero =>
      rw [Tree.depth] at hfuel
      omega
    | succ fuel =>
      by_cases hseen : id ∈ seen
      · exact unshareAt_seen ht h ha hslot (fun x hx => (hparent x hx).1) hseen
      have hid : id < nodes₀.size := (Array.getElem?_eq_some_iff.mp ht.node_eq).1
      have hn : p.nodes[id]? = some { n with operands := [] ++ ts.map Tree.root } := by
        rw [h.unseen id hid hseen, ht.node_eq, List.nil_append, ← ht.operands_eq]
      have hinv : Unsharing nodes₀ p (id :: seen) :=
        ⟨h.same, fun x hx hx' => h.unseen x hx fun hmem => hx' (List.mem_cons_of_mem _ hmem), h.size⟩
      have hops : ∀ u ∈ ts, Walks nodes₀ fuel i u := by
        intro u hu
        have : u.depth < (Tree.node id n ts).depth := Tree.depth_lt hu
        exact @ih u hu fuel (ht.operand hu) (by omega)
      obtain ⟨seen', p', vs, h₁, hinv', hsub, hstrip, hstored, hplaced, hkept, hn', hass, hcode⟩ :=
        unshareOperands hid hops hinv ha (.head _) hn
      have hsub' : seen ⊆ seen' := fun x hx => hsub (List.mem_cons_of_mem _ hx)
      -- the parent of the slot was seen before, so it is not the node itself
      have hne : ∀ x, Slot.IsParent slot x → x ≠ id := by
        rintro x hx rfl
        exact hseen (hparent x hx).1
      refine ⟨seen', p', .node id { n with operands := vs.map Tree.root } vs, ?_, hinv', hsub',
        Tree.strip_node_eq (Node.alike_operands _ _) hstrip, .node hn' rfl hstored, ⟨?_, ?_⟩, ?_, ?_,
        hcode⟩
      · have hcontains : seen.contains id = false := by simpa using hseen
        rw [unshareAt, Tree.root_node, if_neg (by simpa using hseen),
          Edit.bind_ok (Edit.node_run hn), List.range_eq_range']
        simpa using h₁
      · rw [Tree.ids_node, List.nodup_cons]
        exact ⟨fun hmem => ((hplaced.fresh id hmem).1 hid).1 (.head _), hplaced.nodup⟩
      · intro x hx
        rw [Tree.ids_node, List.mem_cons] at hx
        rcases hx with rfl | hx
        · exact ⟨fun _ => ⟨hseen, hsub (.head _)⟩, fun hb => absurd hid (Nat.not_lt.mpr hb)⟩
        · refine ⟨fun hb => ⟨fun hmem => ?_, ((hplaced.fresh x hx).1 hb).2⟩, (hplaced.fresh x hx).2⟩
          exact ((hplaced.fresh x hx).1 hb).1 (List.mem_cons_of_mem _ hmem)
      · intro x hx hb hnp
        by_cases hx' : x = id
        · exact absurd (hb (hx' ▸ hid)) (hx' ▸ hseen)
        · exact hkept x hx (fun h => List.mem_cons_of_mem _ (hb h)) hx'
      · refine .self ha hslot hass fun parent k hp => ?_
        have hp' := hparent parent ⟨k, hp⟩
        exact hkept parent (Nat.lt_of_lt_of_le hp'.2 h.size)
          (fun _ => List.mem_cons_of_mem _ hp'.1) (hne parent ⟨k, hp⟩)

/-! ## The assignments -/

/-- A clause with the same destination and the same expression, made of other nodes. -/
structure Clause.Copies (c c' : Clause) : Prop where
  target : c.target.Alike c'.target
  strip : c'.tree.strip = c.tree.strip
  fuseAxis : c'.fuseAxis = c.fuseAxis

/-- A node is the root of an original tree, or of a copy of it that is made of new nodes. The walk
changes neither: what it sets are operands of original nodes. -/
def Replaces (nodes₀ : Array Node) (p : Program) (t : Tree) (x : NodeId) : Prop :=
  x = t.root ∨ ∃ s : Tree, s.root = x ∧ s.StoredIn p.nodes ∧ s.strip = t.strip ∧
    ∀ y ∈ s.ids, nodes₀.size ≤ y

theorem Replaces.kept {t : Tree} {x : NodeId} (h : Replaces nodes₀ p t x)
    (hk : Kept nodes₀.size seen (fun _ => False) p p') : Replaces nodes₀ p' t x := by
  rcases h with h | ⟨s, hroot, hs, hstrip, hnew⟩
  · exact .inl h
  · refine .inr ⟨s, hroot, hs.frame fun y hy => ?_, hstrip, hnew⟩
    exact hk y (hs.lt_size y hy) (fun hb => absurd hb (Nat.not_lt.mpr (hnew y hy))) not_false

theorem Replaces.exists_tree {t : Tree} {x : NodeId} (h : Replaces nodes₀ p t x)
    (hinv : Unsharing nodes₀ p seen) (ht : t.StoredIn nodes₀) :
    ∃ s : Tree, s.StoredIn p.nodes ∧ s.root = x ∧ s.strip = t.strip := by
  rcases h with rfl | ⟨s, hroot, hs, hstrip, -⟩
  · exact hinv.same t ht
  · exact ⟨s, hs, hroot, hstrip⟩

theorem Clause.Copies.name {c c' : Clause} (h : Clause.Copies c c') : c'.name = c.name := by
  rw [LoopNest.Clause.name, h.target]

/-- A destination gets a node that was not seen before. -/
theorem unshareDst_spec (h : Unsharing nodes₀ p seen) {t : Tree} {n : Node}
    (ht : t.StoredIn nodes₀) (hn : nodes₀[t.root]? = some n) {i : Nat} {a : Assignment}
    (ha : p.assignments[i]? = some a) (hadst : a.dst = t.root) :
    ∃ dst' n' p', unshareDst i a seen p = .ok dst' p' ∧ Unsharing nodes₀ p' (dst' :: seen) ∧
      p'.nodes[dst']? = some n' ∧ n.Alike n' ∧ Replaces nodes₀ p' t dst' ∧
      Placed nodes₀.size seen p.nodes.size (dst' :: seen) [dst'] ∧
      Kept nodes₀.size seen (fun _ => False) p p' ∧
      p'.assignments = p.assignments.modify i (fun a => { a with dst := dst' }) ∧
      OnlyCode p p' := by
  have hlt : a.dst < nodes₀.size := hadst ▸ (Array.getElem?_eq_some_iff.mp hn).1
  have hcons : ∀ {q : Program} {x : NodeId}, Unsharing nodes₀ q seen →
      Unsharing nodes₀ q (x :: seen) := fun hq =>
    ⟨hq.same, fun y hy hy' => hq.unseen y hy fun hmem => hy' (List.mem_cons_of_mem _ hmem), hq.size⟩
  by_cases hseen : a.dst ∈ seen
  · obtain ⟨u, hu, hroot, hstrip⟩ := h.same _ ht
    obtain ⟨s, p₁, hclone, hg, hs⟩ := Program.clone_spec hu
    obtain ⟨m, ts, htree, hroot'⟩ := ht.exists_node
    have hm : m = n := Option.some.inj (hroot'.symm.trans hn)
    rw [htree] at hstrip
    obtain ⟨id, n', ts', rfl, halike, -⟩ := Tree.eq_node_of_strip (hs.strip.trans hstrip)
    have hcopy : Replaces nodes₀ p₁ t id := .inr ⟨_, rfl, hs.stored, hs.strip.trans (htree ▸ hstrip),
      fun y hy => Nat.le_trans h.size (hs.new y hy)⟩
    refine ⟨id, n', p₁.modifyAssignment i fun a => { a with dst := id }, ?_, ?_, hs.stored.node_eq,
      hm ▸ halike, hcopy, ⟨List.nodup_singleton _, fun x hx => ?_⟩, ?_, ?_, ?_⟩
    · rw [unshareDst, if_pos (by simpa using hseen), hadst,
        Edit.bind_ok (Edit.update_run (hroot ▸ hclone))]
      rfl
    · have hinv : Unsharing nodes₀ p₁ (id :: seen) := hcons (h.grow hg)
      exact ⟨hinv.same, hinv.unseen, hinv.size⟩
    · have hnew := hs.new id (by simp)
      rw [List.mem_singleton.mp hx]
      exact ⟨fun hb => absurd (Nat.le_trans h.size hnew) (Nat.not_le.mpr hb), fun _ => hnew⟩
    · exact fun x hx _ _ => hg.getElem?_eq hx
    · rw [← hg.assignments]
      rfl
    · obtain ⟨ext, rfl⟩ := hg
      rfl
  · refine ⟨a.dst, n, p, ?_, hcons h, ?_, .refl n, .inl hadst, ⟨List.nodup_singleton _, fun x hx => ?_⟩,
      fun _ _ _ _ => rfl, ?_, rfl⟩
    · rw [unshareDst, if_neg (by simpa using hseen)]
      rfl
    · rw [h.unseen _ hlt hseen, hadst, hn]
    · rw [List.mem_singleton.mp hx]
      exact ⟨fun _ => ⟨hseen, .head _⟩, fun hb => absurd hlt (Nat.not_lt.mpr hb)⟩
    · obtain ⟨hi, rfl⟩ := List.getElem?_eq_some_iff.mp ha
      refine (List.ext_getElem (by simp) fun j h₁ h₂ => ?_).symm
      rw [List.getElem_modify]
      split
      · rename_i hij
        subst hij
        rfl
      · rfl

/-- A clause of the original table. What its destination holds besides is a tree as well. -/
structure Original (nodes₀ : Array Node) (c : Clause) : Prop where
  dst : ∃ t : Tree, t.StoredIn nodes₀ ∧ t.root = c.dst
  target : nodes₀[c.dst]? = some c.target
  tree : c.tree.StoredIn nodes₀

/-- One assignment: its destination and its expression are put in place. -/
theorem unshareFrom_step {c : Clause} (hc : Original nodes₀ c) {before after : List Assignment}
    (h : Unsharing nodes₀ p seen) (hass : p.assignments = before ++ c.assignment :: after) :
    ∃ (p' : Program) (c' : Clause) (seen' : List NodeId),
      (∀ n, unshareFrom (n + 1) before.length seen p =
        unshareFrom n (before.length + 1) seen' p') ∧
      Unsharing nodes₀ p' seen' ∧ Clause.Copies c c' ∧
      (∀ t : Tree, t.StoredIn nodes₀ → t.root = c.dst → Replaces nodes₀ p' t c'.dst) ∧
      seen ⊆ seen' ∧ p'.nodes[c'.dst]? = some c'.target ∧ c'.tree.StoredIn p'.nodes ∧
      Placed nodes₀.size seen p.nodes.size seen' c'.ids ∧
      Kept nodes₀.size seen (fun _ => False) p p' ∧
      p'.assignments = before ++ c'.assignment :: after ∧ OnlyCode p p' := by
  have ha : p.assignments[before.length]? = some c.assignment := by simp [hass]
  obtain ⟨⟨t, ht, hroot⟩, htarget, htree⟩ := hc
  obtain ⟨dst, n, p₁, h₁, hinv₁, hn, halike, hdst, hplaced₁, hkept₁, hass₁, hcode₁⟩ :=
    unshareDst_spec h ht (hroot ▸ htarget) ha hroot.symm
  have ha₁ : p₁.assignments = before ++ ⟨dst, c.tree.root, c.fuseAxis⟩ :: after := by
    rw [hass₁, hass, modify_append_cons]
    rfl
  obtain ⟨seen₂, p₂, s, h₂, hinv₂, hsub₂, hstrip, hstored, hplaced₂, hkept₂, hset, hcode₂⟩ :=
    walks (i := before.length) htree (Nat.le_trans htree.depth_le hinv₁.size) hinv₁
      (show p₁.assignments[before.length]? = some ⟨dst, c.tree.root, c.fuseAxis⟩ by simp [ha₁])
      (show p₁.slotNode? _ .root = some c.tree.root from rfl) (by rintro x ⟨k, ⟨⟩⟩)
  have hkept₂' : Kept nodes₀.size (dst :: seen) (fun _ => False) p₁ p₂ := fun x hx hb _ =>
    hkept₂ x hx hb (by rintro ⟨k, ⟨⟩⟩)
  have hsize₁ := Kept.size_le hinv₁ hkept₁ fun _ h => h.elim
  have hsub : seen ⊆ dst :: seen := fun _ h => List.mem_cons_of_mem _ h
  have hlt : dst < p₁.nodes.size := (Array.getElem?_eq_some_iff.mp hn).1
  have hplaced : Placed nodes₀.size seen p.nodes.size seen₂ (dst :: s.ids) :=
    hplaced₁.append hplaced₂ hsub hsub₂ hsize₁ fun x hx => List.mem_singleton.mp hx ▸ hlt
  refine ⟨p₂, ⟨dst, n, s, c.fuseAxis⟩, seen₂, fun k => ?run, hinv₂, ⟨halike, hstrip, rfl⟩,
    fun u hu huroot => ?replaces, fun _ h => hsub₂ (hsub h), ?target, hstored, hplaced,
    hkept₁.trans hkept₂' hsub hsize₁, ?assignments, hcode₁.trans hcode₂⟩
  case run =>
    rw [unshareFrom, Edit.bind_ok (Edit.assignment_run ha), Edit.bind_ok h₁,
      Edit.bind_ok (Edit.query_some_run _)]
    exact Edit.bind_ok h₂
  case replaces =>
    cases hu.unique ht (huroot.trans hroot.symm)
    exact hdst.kept hkept₂'
  case target => exact (hplaced₁.node_eq hkept₂' (.head _) hlt not_false).trans hn
  case assignments =>
    rw [SlotSet] at hset
    rw [hset, ha₁, modify_append_cons]
    rfl

theorem unshareFrom_spec {rest : List Clause} (hrest : ∀ c ∈ rest, Original nodes₀ c)
    {before : List Assignment} {seen : List NodeId} {p : Program} (h : Unsharing nodes₀ p seen)
    (hass : p.assignments = before ++ rest.map Clause.assignment) :
    ∃ (p' : Program) (new : List Clause) (seen' : List NodeId),
      unshareFrom rest.length before.length seen p = .ok () p' ∧ Unsharing nodes₀ p' seen' ∧
      List.Forall₂ Clause.Copies rest new ∧
      List.Forall₂ (fun c c' => ∀ t : Tree, t.StoredIn nodes₀ → t.root = c.dst →
        Replaces nodes₀ p' t c'.dst) rest new ∧ seen ⊆ seen' ∧
      (∀ c ∈ new, p'.nodes[c.dst]? = some c.target ∧ c.tree.StoredIn p'.nodes) ∧
      Placed nodes₀.size seen p.nodes.size seen' (new.flatMap Clause.ids) ∧
      Kept nodes₀.size seen (fun _ => False) p p' ∧
      p'.assignments = before ++ new.map Clause.assignment ∧ OnlyCode p p' := by
  induction rest generalizing before seen p with
  | nil =>
    exact ⟨p, [], seen, rfl, h, .nil, .nil, fun _ h => h, by simp, ⟨by simp, by simp⟩,
      fun _ _ _ _ => rfl, hass, rfl⟩
  | cons c rest ih =>
    rw [List.forall_mem_cons] at hrest
    obtain ⟨p₁, c', seen₁, h₁, hinv₁, hcopy, hdst, hsub₁, htarget, htree, hplaced₁, hkept₁, hass₁,
      hcode₁⟩ := unshareFrom_step hrest.1 h hass
    obtain ⟨p₂, new, seen₂, h₂, hinv₂, hcopies, hdsts, hsub₂, hstored, hplaced₂, hkept₂, hass₂,
      hcode₂⟩ := ih hrest.2 hinv₁ (hass₁.trans (List.append_cons ..))
    have hsize := Kept.size_le hinv₁ hkept₁ fun _ h => h.elim
    have hlt : ∀ x ∈ c'.ids, x < p₁.nodes.size := by
      intro x hx
      rcases List.mem_cons.mp hx with rfl | hx
      · exact (Array.getElem?_eq_some_iff.mp htarget).1
      · exact htree.lt_size x hx
    refine ⟨p₂, c' :: new, seen₂, ?run, hinv₂, .cons hcopy hcopies,
      .cons (fun t ht hroot => (hdst t ht hroot).kept hkept₂) hdsts, fun _ h => hsub₂ (hsub₁ h),
      List.forall_mem_cons.mpr ⟨⟨?target, ?tree⟩, hstored⟩,
      hplaced₁.append hplaced₂ hsub₁ hsub₂ hsize hlt, hkept₁.trans hkept₂ hsub₁ hsize,
      by simpa using hass₂, hcode₁.trans hcode₂⟩
    case run =>
      rw [List.length_append, List.length_singleton] at h₂
      exact (h₁ _).trans h₂
    case target =>
      exact (hplaced₁.node_eq hkept₂ (.head _) (hlt c'.dst (.head _)) not_false).trans htarget
    case tree =>
      exact hplaced₁.storedIn hkept₂ htree fun x hx => ⟨List.mem_cons_of_mem _ hx, not_false⟩

/-- After `unshare` every node has one place. The clauses are copies of what they were, and the
destinations keep what is below them. -/
theorem unshare_spec {cs : List Clause} (h : p.Laid cs) (hcs : ∀ c ∈ cs, Original p.nodes c) :
    ∃ p' cs', unshare p = .ok () p' ∧ p'.Laid cs' ∧ Unshared cs' ∧
      List.Forall₂ Clause.Copies cs cs' ∧
      List.Forall₂ (Program.SameTrees p p') p.assignments p'.assignments ∧ OnlyCode p p' := by
  have hinv : Unsharing p.nodes p [] :=
    ⟨fun t ht => ⟨t, ht, rfl, rfl⟩, fun _ _ _ => rfl, Nat.le_refl _⟩
  obtain ⟨p', cs', seen', hrun, hinv', hcopies, hdsts, -, hstored, hplaced, -, hass, hcode⟩ :=
    unshareFrom_spec hcs hinv (show p.assignments = [] ++ _ from h.assignments)
  have hlaid : p'.Laid cs' := ⟨hass, fun c hc => (hstored c hc).1, fun c hc => (hstored c hc).2⟩
  have hsame : List.Forall₂ (Program.SameTrees p p') p.assignments p'.assignments := by
    rw [h.assignments, hlaid.assignments, List.forall₂_map_left_iff, List.forall₂_map_right_iff]
    refine List.forall₂_iff_get.mpr ⟨hcopies.length_eq, fun k hk hk' => ?_⟩
    have hcopy := (List.forall₂_iff_get.mp hcopies).2 k hk hk'
    have hreplaces := (List.forall₂_iff_get.mp hdsts).2 k hk hk'
    have hc := cs.get_mem ⟨k, hk⟩
    have hc' := cs'.get_mem ⟨k, hk'⟩
    obtain ⟨t, ht, hroot⟩ := (hcs _ hc).dst
    obtain ⟨s, hs, hsroot, hstrip⟩ := (hreplaces t ht hroot).exists_tree hinv' ht
    refine ⟨?_, ?_, hcopy.fuseAxis⟩
    · simp only [Clause.assignment]
      rw [← hroot, ← hsroot, ht.tree_eq, hs.tree_eq, hstrip]
    · simp only [Clause.assignment]
      rw [h.tree_eq hc, hlaid.tree_eq hc', hcopy.strip]
  refine ⟨p', cs', ?_, hlaid, hplaced.nodup, hcopies, hsame, hcode⟩
  rw [unshare, Edit.bind_ok (Edit.query_some_run _), h.assignments, List.length_map]
  exact hrun

/-- A destination without operands is a tree by itself. -/
theorem Program.Laid.original {cs : List Clause} (h : p.Laid cs)
    (hdst : ∀ c ∈ cs, c.target.operands = []) : ∀ c ∈ cs, Original p.nodes c := fun c hc =>
  ⟨⟨.node c.dst c.target [], .node (h.target c hc) (hdst c hc) (by simp), rfl⟩, h.target c hc,
    h.stored c hc⟩

/-- In a table without cycles there is a tree below every destination. -/
theorem Program.Laid.original_of_acyclic {cs : List Clause} (h : p.Laid cs) (hacyclic : p.Acyclic) :
    ∀ c ∈ cs, Original p.nodes c := fun c hc =>
  ⟨hacyclic.exists_storedIn (h.lt_size hc (.head _)), h.target c hc, h.stored c hc⟩

/-! ## Nodes with one place -/

/-- The walk over the operands of a node, when the walk over each of them only notes its nodes. The
operands `us` are left. -/
theorem unshareOperands_settled {fuel i : Nat} {id : NodeId} {n : Node} {l us : List Tree}
    (hn : p.nodes[id]? = some n) (hops : n.operands = (l ++ us).map Tree.root)
    (hus : ∀ u ∈ us, ∀ (slot : Slot) (seen : List NodeId), (∀ x ∈ u.ids, x ∉ seen) →
      unshareAt fuel i slot u.root seen p = .ok (u.ids.reverse ++ seen) p)
    (hnd : (us.flatMap Tree.ids).Nodup) (seen : List NodeId)
    (hnew : ∀ x ∈ us.flatMap Tree.ids, x ∉ seen) :
    ((List.range' l.length us.length).foldlM (fun seen k => do
      let op ← Edit.query (·.operand? id k)
      unshareAt fuel i (.operand id k) op seen) seen : Edit (List NodeId)) p =
        .ok ((us.flatMap Tree.ids).reverse ++ seen) p := by
  induction us generalizing l seen with
  | nil => rfl
  | cons u us ih =>
    rw [List.flatMap_cons] at hnd hnew ⊢
    obtain ⟨-, hrest, hdisj⟩ := List.nodup_append.mp hnd
    have hop : p.operand? id l.length = some u.root := by
      simp [Program.operand?, Program.node?, hn, hops]
    have hwalk := hus u (.head _) (.operand id l.length) seen fun x hx =>
      hnew x (List.mem_append_left _ hx)
    have hafter := ih (l := l ++ [u]) (by simpa using hops)
      (fun v hv => hus v (List.mem_cons_of_mem _ hv)) hrest (u.ids.reverse ++ seen) fun x hx hmem => by
        rcases List.mem_append.mp hmem with hmem | hmem
        · exact hdisj x (List.mem_reverse.mp hmem) x hx rfl
        · exact hnew x (List.mem_append_right _ hx) hmem
    rw [List.length_cons, List.range'_succ, List.foldlM_cons, Edit.bind_ok]
    · rw [List.reverse_append, List.append_assoc]
      simpa using hafter
    · exact (Edit.bind_ok (Edit.query_run hop)).trans hwalk

/-- The walk only notes the nodes of a tree none of which was reached before. -/
theorem unshareAt_settled {t : Tree} (ht : t.StoredIn p.nodes) (hnd : t.ids.Nodup) {fuel i : Nat}
    (hfuel : t.depth ≤ fuel) (slot : Slot) (seen : List NodeId) (hnew : ∀ x ∈ t.ids, x ∉ seen) :
    unshareAt fuel i slot t.root seen p = .ok (t.ids.reverse ++ seen) p := by
  induction t using Tree.inductionOn generalizing fuel slot seen with
  | missing => cases ht
  | node id n ts ih =>
    rw [Tree.ids_node] at hnd hnew ⊢
    obtain ⟨hid, hnd⟩ := List.nodup_cons.mp hnd
    obtain ⟨hnot, hnew⟩ := List.forall_mem_cons.mp hnew
    cases fuel with
    | zero =>
      rw [Tree.depth] at hfuel
      omega
    | succ fuel =>
      have hus : ∀ u ∈ ts, ∀ (slot : Slot) (seen : List NodeId), (∀ x ∈ u.ids, x ∉ seen) →
          unshareAt fuel i slot u.root seen p = .ok (u.ids.reverse ++ seen) p := by
        intro u hu slot seen hnew
        have hdepth : u.depth < (Tree.node id n ts).depth := Tree.depth_lt hu
        exact ih u hu (ht.operand hu) ((List.nodup_flatMap.mp hnd).1 u hu) (by omega) slot seen hnew
      have hlen : n.operands.length = ts.length := by rw [ht.operands_eq, List.length_map]
      rw [unshareAt, Tree.root_node, if_neg (by simpa using hnot),
        Edit.bind_ok (Edit.node_run ht.node_eq), hlen, List.range_eq_range', List.reverse_cons,
        List.append_assoc]
      refine unshareOperands_settled (l := []) ht.node_eq ht.operands_eq hus hnd _ fun x hx hmem => ?_
      rcases List.mem_cons.mp hmem with rfl | hmem
      · exact hid hx
      · exact hnew x hx hmem

theorem unshareFrom_settled (h : p.Laid cs) {l r : List Clause} (hcs : l ++ r = cs)
    (hnd : (r.flatMap Clause.ids).Nodup) (seen : List NodeId)
    (hnew : ∀ x ∈ r.flatMap Clause.ids, x ∉ seen) :
    unshareFrom r.length l.length seen p = .ok () p := by
  induction r generalizing l seen with
  | nil => rfl
  | cons c r ih =>
    have hc : c ∈ cs := by simp [← hcs]
    have ha : p.assignments[l.length]? = some c.assignment := by simp [h.assignments, ← hcs]
    rw [List.flatMap_cons, List.nodup_append, Clause.ids, List.nodup_cons] at hnd
    have hdst : c.dst ∉ seen := hnew c.dst (by simp [Clause.ids])
    have hstored := h.stored c hc
    have hwalk := unshareAt_settled hstored hnd.1.2 (i := l.length) hstored.depth_le .root
      (c.dst :: seen) fun x hx hmem => by
        rcases List.mem_cons.mp hmem with rfl | hmem
        · exact hnd.1.1 hx
        · exact hnew x (by simp [Clause.ids, hx]) hmem
    have hrest := ih (l := l ++ [c]) (by simpa using hcs) hnd.2.1
      (c.tree.ids.reverse ++ c.dst :: seen) fun x hx hmem => by
        simp only [List.mem_append, List.mem_reverse, List.mem_cons] at hmem
        rcases hmem with hmem | rfl | hmem
        · exact hnd.2.2 x (List.mem_cons_of_mem _ hmem) x hx rfl
        · exact hnd.2.2 c.dst (.head _) c.dst hx rfl
        · exact hnew x (by rw [List.flatMap_cons]; exact List.mem_append_right _ hx) hmem
    rw [List.length_append, List.length_singleton] at hrest
    have hplace : unshareDst l.length c.assignment seen p = .ok c.dst p := by
      rw [unshareDst, if_neg (by simpa [Clause.assignment] using hdst)]
      rfl
    rw [List.length_cons, unshareFrom, Edit.bind_ok (Edit.assignment_run ha), Edit.bind_ok hplace,
      Edit.bind_ok (Edit.query_some_run _)]
    exact (Edit.bind_ok hwalk).trans hrest

/-- No node is copied where every node has one place. -/
theorem unshare_settled (h : p.Laid cs) (hun : Unshared cs) : unshare p = .ok () p := by
  rw [unshare, Edit.bind_ok (Edit.query_some_run _), h.assignments, List.length_map]
  exact unshareFrom_settled h (l := []) rfl hun [] (by simp)

/-! ## A forest of the same trees -/

/-- What is reached from destinations and roots, with an entry for each way to reach it. -/
def Program.reached (p : Program) : List NodeId :=
  p.assignments.flatMap fun a => (p.tree a.dst).ids ++ (p.tree a.expr).ids

/-- A destination without operands is all that is reached from it, in a copy as well. -/
theorem ids_of_sameTrees {a a' : Assignment} (h : p.SameTrees p' a a') {dst : Node}
    (hdst : p.dst? a = some dst) (hops : dst.operands = []) : (p'.tree a'.dst).ids = [a'.dst] := by
  have hstored : (Tree.node a.dst dst []).StoredIn p.nodes := .node hdst hops (by simp)
  have htree : p.tree a.dst = .node a.dst dst [] := hstored.tree_eq
  obtain ⟨id, n, ts, hcopy, -, hts⟩ := Tree.eq_node_of_strip (htree ▸ h.dst)
  rw [List.map_nil, List.map_eq_nil_iff] at hts
  rw [hcopy, Program.root_of_unfold hcopy, hts]
  rfl

/-- `unshare` makes a forest of the same trees: whatever was shared, afterwards each node has one
place among destinations and expressions, the unfolded trees differ in the numbers of their nodes
only, and no node is made when nothing was shared. Destinations are identifiers, without operands,
so that nothing else can be reached from them. -/
theorem unshare_forest (h : p.Stored) :
    ∃ p', unshare p = .ok () p' ∧ p'.Unshared ∧
      List.Forall₂ (p.SameTrees p') p.assignments p'.assignments ∧ OnlyCode p p' ∧
      ((∀ a ∈ p.assignments, ∀ dst, p.dst? a = some dst → dst.operands = []) →
        (Program.reached p').Nodup) ∧
      (p.Unshared → p' = p) := by
  have horiginal := Program.Laid.original_of_acyclic h.laid h.acyclic
  obtain ⟨p', cs', hrun, hlaid, hunshared, -, hsame, hcode⟩ := unshare_spec h.laid horiginal
  have hforest : p'.Unshared := hlaid.unshared hunshared
  refine ⟨p', hrun, hforest, hsame, hcode, fun hops => ?_, fun hun => ?_⟩
  · have hreached : Program.reached p' =
        p'.assignments.flatMap fun a => a.dst :: (p'.tree a.expr).ids := by
      refine List.flatMap_congr fun a' ha' => ?_
      obtain ⟨a, ha, htrees⟩ := exists_of_forall₂ hsame ha'
      obtain ⟨dst, hdst⟩ := h.exists_dst ha
      rw [ids_of_sameTrees htrees hdst (hops a ha dst hdst)]
      rfl
    rw [hreached]
    exact hforest
  · have hclauses : Unshared p.clauses := by
      rw [Unshared, Program.clauses, List.flatMap_map]
      exact hun
    cases hrun.symm.trans (unshare_settled h.laid hclauses)
    rfl

/-- `y = x + x` and `z = (x + x) * y`, where every name and the sum have one node each. -/
def sharedSum : Program where
  name := "p"
  symbols := .ofList [⟨"x", [1], .input⟩, ⟨"y", [1], .output⟩, ⟨"z", [1], .output⟩]
  names := { taken := ["z", "y", "x"] }
  nodes := #[{ kind := .identifier, name := "x", shape := [1] },
    { kind := .add, shape := [1], operands := [0, 0] },
    { kind := .identifier, name := "y", shape := [1] },
    { kind := .mul, shape := [1], operands := [1, 2] },
    { kind := .identifier, name := "z", shape := [1] }]
  assignments := [{ dst := 2, expr := 1 }, { dst := 4, expr := 3 }]

theorem sharedSum_stored : sharedSum.Stored := by
  refine ⟨⟨id, fun id n hn op hop => ?_⟩, by decide⟩
  match id with
  | 0 | 1 | 2 | 3 | 4 => cases hn; revert op; decide
  | _ + 5 => cases hn

/-- `x` is shared by operands, the sum by statements and `y` by a destination and an expression. -/
theorem unshare_forest_sharedSum : sharedSum.Stored ∧ ¬ sharedSum.Unshared ∧
    ∃ p', unshare sharedSum = .ok () p' ∧ p'.Unshared ∧
      List.Forall₂ (sharedSum.SameTrees p') sharedSum.assignments p'.assignments ∧
      (Program.reached p').Nodup := by
  obtain ⟨p', hrun, hforest, hsame, -, hreached, -⟩ := unshare_forest sharedSum_stored
  exact ⟨sharedSum_stored, by decide, p', hrun, hforest, hsame, hreached (by decide)⟩

end LoopNest.Pass
