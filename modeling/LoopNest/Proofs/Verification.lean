import LoopNest.IR.Verify
import LoopNest.Proofs.Clause
import LoopNest.Proofs.Symbol

/-!
# Programs that pass the checks

`Program.verify` goes over the assignments with a ledger. `Verified` says in terms of clauses what
it asks beyond the shape of every clause. For the clauses of a verified program nothing is noted
(`Ledger.Clean.assignments`), so no violation is found (`Program.verify_eq_none`). Sound clauses are
verified: synthesized destinations are told apart by their texts, which are different because such
clauses are `Apart` (`Sound.verified`).
-/

namespace LoopNest

/-! ## Texts of destinations -/

theorem Int.mem_toList_repr {a : Int} {c : Char} (h : c ∈ (toString a).toList) :
    c = '-' ∨ c.isDigit := by
  rw [Int.toString_eq_repr, Int.repr_eq_if] at h
  split at h
  · rw [Nat.toList_repr] at h
    exact .inr (Nat.isDigit_of_mem_toDigits (by omega) (by omega) h)
  · simp only [String.toList_append, List.mem_append, Nat.toList_repr] at h
    rcases h with h | h
    · left
      simpa using h
    · exact .inr (Nat.isDigit_of_mem_toDigits (by omega) (by omega) h)

theorem Int.toString_injective {a b : Int} (h : toString a = toString b) : a = b := by
  have hdash : ∀ n m : Nat, n.repr ≠ "-" ++ m.repr := by
    intro n m he
    have hmem : '-' ∈ n.repr.toList := by
      rw [he]
      simp
    rw [Nat.toList_repr] at hmem
    exact absurd (Nat.isDigit_of_mem_toDigits (by omega) (by omega) hmem) (by decide)
  rw [Int.toString_eq_repr, Int.toString_eq_repr, Int.repr_eq_if, Int.repr_eq_if] at h
  split at h <;> split at h
  · have := repr_injective (show toString a.toNat = toString b.toNat from h)
    omega
  · exact absurd h (hdash _ _)
  · exact absurd h.symm (hdash _ _)
  · have := repr_injective (show toString (-a).toNat = toString (-b).toNat from
      (String.append_right_inj _).mp h)
    omega

theorem renderCommas_injective {l m : List Int} (hl : l ≠ []) (hm : m ≠ [])
    (h : renderCommas l = renderCommas m) : l = m := by
  have hsplit : ∀ l : List Int, l ≠ [] →
      (renderCommas l).toList.splitOn ',' = l.map fun i => (toString i).toList := by
    intro l hl
    rw [renderCommas, String.toList_intercalate, List.map_map]
    refine List.splitOn_intercalate ',' ?_ (by simpa using hl)
    intro cs hcs hmem
    obtain ⟨i, _, rfl⟩ := List.mem_map.mp hcs
    rcases Int.mem_toList_repr hmem with h | h
    · cases h
    · exact absurd h (by decide)
  have heq := (hsplit l hl).symm.trans ((congrArg (fun s : String => s.toList.splitOn ',') h).trans
    (hsplit m hm))
  exact List.map_injective_iff.mpr
    (fun _ _ h => Int.toString_injective (String.toList_inj.mp h)) heq

/-- The text under which the definition of a part of a synthesized tensor is counted. -/
def definitionText (name : String) (fixed : List Int) : String :=
  { name, fixed : Node }.renderIdent

theorem definitionText_injective {name name' : String} {fixed fixed' : List Int}
    (hname : '\x7b' ∉ name.toList) (hname' : '\x7b' ∉ name'.toList)
    (h : definitionText name fixed = definitionText name' fixed') :
    name = name' ∧ fixed = fixed' := by
  have htext : ∀ (n : String) (f : List Int), (definitionText n f).toList =
      n.toList ++ if f.isEmpty then [] else '\x7b' :: ((renderCommas f).toList ++ ['\x7d']) := by
    intro n f
    unfold definitionText Node.renderIdent
    cases f <;> simp
  have hsplit : ∀ (n : String) (f : List Int), '\x7b' ∉ n.toList →
      (definitionText n f).toList.splitOn '\x7b' =
        n.toList :: if f.isEmpty then [] else
          ((renderCommas f).toList ++ ['\x7d']).splitOn '\x7b' := by
    intro n f hn
    rw [htext]
    cases f with
    | nil => simpa using List.splitOn_eq_singleton hn
    | cons i f => simpa using List.splitOn_append_cons_self_of_not_mem hn _
  have heq := (hsplit _ _ hname).symm.trans
    ((congrArg (fun s : String => s.toList.splitOn '\x7b') h).trans (hsplit _ _ hname'))
  have hn : name = name' := String.toList_inj.mp (List.cons.inj heq).1
  subst hn
  refine ⟨rfl, ?_⟩
  have hrest := (htext name fixed).symm.trans ((congrArg String.toList h).trans (htext name fixed'))
  have hrest := List.append_cancel_left hrest
  cases fixed with
  | nil => cases fixed' with
    | nil => rfl
    | cons => simp at hrest
  | cons i f => cases fixed' with
    | nil => simp at hrest
    | cons j g =>
      simp only [List.isEmpty_cons, Bool.false_eq_true, if_false, List.cons.injEq, true_and] at hrest
      exact renderCommas_injective (by simp) (by simp)
        (String.toList_inj.mp (List.append_cancel_right hrest))

theorem definitionText_whole (name : String) : definitionText name [] = name := by
  simp [definitionText, Node.renderIdent]

/-- A text without fixed indices is the name of its tensor. -/
theorem name_eq_of_definitionText {name name' : String} {fixed : List Int}
    (hname : '\x7b' ∉ name.toList) (h : definitionText name' fixed = name) : name' = name := by
  cases fixed with
  | nil => rwa [definitionText_whole] at h
  | cons i f =>
    refine absurd ?_ hname
    rw [← h]
    simp [definitionText, Node.renderIdent]

/-! ## What is checked of clauses -/

/-- The texts of the definition that a clause is for a synthesized tensor. -/
def Clause.definition (find : Symbols) (c : Clause) : List String :=
  match find c.name with
  | none => []
  | some s => if s.role.isSynthesized then [definitionText c.name c.target.fixed] else []

/-- Every tensor that is read is an input or was written before, if only in part. -/
def WrittenFirst (find : Symbols) : List String → List Clause → Prop
  | _, [] => True
  | written, c :: cs =>
    (∀ name ∈ c.tree.names, ∀ s, find name = some s → s.role.isInput ∨ name ∈ written) ∧
      WrittenFirst find (c.name :: written) cs

/-- What is checked of clauses beyond their shapes: tensors are written before they are read, and
synthesized ones are defined, no part of them twice. -/
structure Verified (find : Symbols) (cs : List Clause) : Prop where
  ordered : WrittenFirst find [] cs
  definitions : (cs.flatMap (Clause.definition find)).Nodup
  defined : ∀ name s, find name = some s → s.role.isSynthesized → ∃ c ∈ cs, c.name = name

theorem writtenFirst_append {find : Symbols} {written : List String} {cs ds : List Clause} :
    WrittenFirst find written (cs ++ ds) ↔
      WrittenFirst find written cs ∧ WrittenFirst find ((cs.map Clause.name).reverse ++ written) ds := by
  induction cs generalizing written with
  | nil => simp [WrittenFirst]
  | cons c cs ih => simp [WrittenFirst, ih, and_assoc]

theorem WrittenFirst.mono {find : Symbols} {cs : List Clause} {written written' : List String}
    (h : WrittenFirst find written cs) (hsub : written ⊆ written') : WrittenFirst find written' cs := by
  induction cs generalizing written written' with
  | nil => trivial
  | cons c cs ih =>
    exact ⟨fun name hname s hs => (h.1 name hname s hs).imp_right fun hmem => hsub hmem,
      ih h.2 (List.cons_subset_cons _ hsub)⟩

theorem WrittenFirst.extend {N : NodeClass} {find find' : Symbols} {cs : List Clause}
    {written : List String} (h : WrittenFirst find written cs) (hfits : ∀ c ∈ cs, c.Fits N find)
    (hext : find.Extends find') : WrittenFirst find' written cs := by
  induction cs generalizing written with
  | nil => trivial
  | cons c cs ih =>
    refine ⟨fun name hname s hs => ?_, ih h.2 fun d hd => hfits d (List.mem_cons_of_mem _ hd)⟩
    obtain ⟨s', hs'⟩ := (hfits c (.head _)).declared_name hname
    rw [hext _ _ hs'] at hs
    cases hs
    exact h.1 name hname s hs'

theorem Clause.mem_definition {find : Symbols} {c : Clause} {text : String} :
    text ∈ c.definition find ↔ ∃ s, find c.name = some s ∧ s.role.isSynthesized = true ∧
      text = definitionText c.name c.target.fixed := by
  unfold definition
  cases find c.name with
  | none => simp
  | some s => cases hsynth : s.role.isSynthesized <;> simp [hsynth]

theorem Clause.definition_of_synthesized {find : Symbols} {c : Clause} {s : Symbol}
    (hs : find c.name = some s) (hsynth : s.role.isSynthesized = true) :
    c.definition find = [definitionText c.name c.target.fixed] := by
  unfold definition
  rw [hs]
  exact if_pos hsynth

theorem Clause.nodup_definition (find : Symbols) (c : Clause) : (c.definition find).Nodup := by
  unfold definition
  split
  · exact .nil
  · split
    · exact List.nodup_singleton _
    · exact .nil

theorem Clause.reverse_definition (find : Symbols) (c : Clause) :
    (c.definition find).reverse = c.definition find := by
  unfold definition
  split
  · rfl
  · split <;> rfl

theorem Clause.definition_congr {find find' : Symbols} {c c' : Clause}
    (hfind : find' c'.name = find c.name) (hname : c'.name = c.name)
    (hfixed : c'.target.fixed = c.target.fixed) : c'.definition find' = c.definition find := by
  unfold definition
  rw [hfind, hname, hfixed]

theorem Clause.definition_extend {N : NodeClass} {find find' : Symbols} {c : Clause}
    (h : c.Fits N find) (hext : find.Extends find') : c.definition find' = c.definition find := by
  obtain ⟨s, hs, -⟩ := h.declared
  exact definition_congr ((hext _ _ hs).trans hs.symm) rfl rfl

/-- The definitions of synthesized tensors have different texts. -/
theorem Sound.nodup_definitions {K : ShapeClass} {find : Symbols} {cs : List Clause}
    (h : Sound K find cs) : (cs.flatMap (Clause.definition find)).Nodup := by
  rw [List.nodup_flatMap]
  refine ⟨fun c _ => c.nodup_definition find, (List.pairwise_map.mp h.apart).imp fun {c d} had => ?_⟩
  intro text hc hd
  obtain ⟨s, hs, hsynth, rfl⟩ := Clause.mem_definition.1 hc
  obtain ⟨s', hs', hsynth', heq⟩ := Clause.mem_definition.1 hd
  obtain ⟨hname, hfixed⟩ := definitionText_injective (h.plain _ s hs hsynth)
    (h.plain _ s' hs' hsynth') heq
  exact (had hname s hs hsynth).1 (hfixed ▸ List.prefix_rfl)

/-- A tensor that was written whole was written. -/
theorem Ordered.writtenFirst {find : Symbols} {cs : List Clause} {written : List Node}
    (h : Ordered find written cs) (hpos : ∀ name s, find name = some s → ∀ d ∈ s.shape, 0 < d) :
    WrittenFirst find (written.map (·.name)) cs := by
  induction cs generalizing written with
  | nil => trivial
  | cons c cs ih =>
    refine ⟨fun name hname s hs => (h.1 name hname s hs).imp_right fun hfill => ?_, ih h.2⟩
    obtain ⟨sub, hsub⟩ := exists_inRange (hpos name s hs)
    obtain ⟨n, hn, hname, -⟩ := hfill sub hsub
    exact List.mem_map.mpr ⟨n, hn, hname⟩

theorem Sound.verified {K : ShapeClass} {find : Symbols} {cs : List Clause} (h : Sound K find cs) :
    Verified find cs :=
  ⟨h.ordered.writtenFirst fun name s hs => K.pos (h.symbols name s hs), h.nodup_definitions,
    h.defined⟩

/-! ## Nodes -/

theorem Node.checkShape_self (n : Node) {s : Shape} (h : n.shape = s) : n.checkShape s = [] :=
  if_pos h

theorem checkContracted_eq {x y : Shape} {ls rs es : List Int} (hx : ls.mapM (at? x) = some es)
    (hy : rs.mapM (at? y) = some es) : checkContracted x y ls rs = ([], false) := by
  induction ls generalizing rs es with
  | nil => rfl
  | cons l ls ih =>
    simp only [List.mapM_cons, Option.bind_eq_bind, Option.bind_eq_some_iff, Option.pure_def,
      Option.some.injEq] at hx
    obtain ⟨d, hd, es', hes', rfl⟩ := hx
    cases rs with
    | nil => simp at hy
    | cons r rs =>
      simp only [List.mapM_cons, Option.bind_eq_bind, Option.bind_eq_some_iff, Option.pure_def,
        Option.some.injEq, List.cons.injEq] at hy
      obtain ⟨d', hd', es'', hes'', rfl, rfl⟩ := hy
      simp [checkContracted, hd, hd', ih hes' hes'']

/-- A well-shaped node breaks no rule. -/
theorem Node.Fits.check_eq_nil {S : Shapes} {n : Node} {shapes : List Shape}
    (h : n.Fits S shapes) : n.check shapes = [] := by
  cases h with
  | identifier hk => simp [check, hk, NodeKind.arity?, checkOperands]
  | constant hk hs => simp [check, hk, NodeKind.arity?, checkOperands, n.checkShape_self hs]
  | elementwise hk =>
    cases hkind : n.kind <;> simp_all [NodeKind.isElementwise] <;>
      simp [check, hkind, NodeKind.arity?, checkOperands, n.checkShape_self]
  | scalarMul hk | scalarDiv hk =>
    simp [check, hk, NodeKind.arity?, checkOperands, n.checkShape_self]
  | product hk hs => simp [check, hk, NodeKind.arity?, checkOperands, n.checkShape_self hs]
  | contraction hk hx hy hs =>
    have hlen : n.lhsAxes.length = n.rhsAxes.length := by
      rw [← length_mapM hx, ← length_mapM hy]
    simp [check, hk, NodeKind.arity?, checkOperands, hlen, checkContracted_eq hx hy,
      n.checkShape_self hs]
  | @stack s ops hk _ hs hops =>
    have hshape := n.checkShape_self hs
    simp only [List.length_cons, Int.natCast_add, Int.natCast_one] at hshape
    simp [check, hk, NodeKind.arity?, checkOperands, hshape]
    exact hops
  | @transposition x hk hx =>
    have hnone : firstOutside? n.pairs x.length = none :=
      firstOutside?_eq_none_iff.mpr (within_of_forward hx)
    simp [check, hk, NodeKind.arity?, checkOperands, hnone, Shape.permute, hx, n.checkShape_self]

/-- A part of a stored tensor breaks no rule of destinations. -/
theorem Node.Views.checkIdent_eq_nil {p : Program} {n : Node} {s : Symbol} (h : n.Views s.shape)
    (hs : p.find n.name = some s) : p.checkIdent n = [] := by
  obtain ⟨lead, hfwd, hlead⟩ := h
  have hstored : p.storedShape? n = some s.shape := by
    rw [Program.storedShape?, show p.symbols.find? n.name = some s from hs]
    rfl
  have hlen : lead.length = n.fixed.length := hlead.length_eq.symm
  have hrank : lead.length + n.shape.length = s.shape.length := by
    rw [← length_forward hfwd, List.length_append]
  have hnone : firstOutside? n.perm s.shape.length = none :=
    firstOutside?_eq_none_iff.mpr (within_of_forward hfwd)
  have hfixed : n.checkFixed (lead ++ n.shape) = [] := by
    rw [checkFixed, List.filterMap_eq_nil_iff]
    rintro ⟨f, extent⟩ hmem
    have hzip : n.fixed.zip (lead ++ n.shape) = n.fixed.zip lead := by
      conv_lhs => rw [← List.append_nil n.fixed]
      rw [List.zip_append hlen.symm]
      simp
    rw [hzip] at hmem
    have hin : ∀ (ds is : List Int), InRange ds is → ∀ f extent, (f, extent) ∈ is.zip ds →
        0 ≤ f ∧ f < extent := by
      intro ds is h
      induction h with
      | nil => simp
      | cons lo hi _ ih =>
        intro f extent hmem
        rcases List.mem_cons.mp hmem with hmem | hmem
        · cases hmem
          exact ⟨lo, hi⟩
        · exact ih f extent hmem
    have := hin lead n.fixed hlead f extent hmem
    exact if_neg (by omega)
  simp [Program.checkIdent, Shape.rank, hstored, hrank, hnone, hfwd, hfixed, ← hlen]

/-! ## The ledger -/

section
variable {p : Program} {opts : VerifyOptions} {i : Nat} {l : Ledger}

/-- Nothing was noted so far. -/
structure Ledger.Clean (l : Ledger) (seen : List NodeId) (written reads defs : List String) :
    Prop where
  found : l.found = []
  seen : l.seen ⊆ seen
  written : l.written = written
  reads : l.reads = reads
  defs : l.defs = defs

theorem Ledger.note_nil (l : Ledger) (i : Option Nat) : l.note i [] = l := by
  simp [note]

theorem Ledger.Clean.reach {seen : List NodeId} {written reads defs : List String}
    (h : l.Clean seen written reads defs) (id : NodeId) (hid : opts.noSharing → id ∉ seen) :
    ∃ l', l.reach p opts i id = some l' ∧ l'.Clean (id :: seen) written reads defs := by
  unfold Ledger.reach
  cases hshare : opts.noSharing with
  | false =>
    exact ⟨l, rfl, h.found, List.subset_cons_of_subset _ h.seen, h.written, h.reads, h.defs⟩
  | true =>
    have hnot : l.seen.contains id = false := by
      simpa using fun hmem => hid hshare (h.seen hmem)
    simp only [hnot, Bool.not_true, Bool.false_eq_true, if_false]
    exact ⟨_, rfl, h.found, List.cons_subset_cons _ h.seen, h.written, h.reads, h.defs⟩

/-- What is asked of a place of an expression. -/
structure PlaceFits (p : Program) (opts : VerifyOptions) (written : List String) (n : Node) :
    Prop where
  kind : n.kind ∉ opts.noKinds
  operands : ∃ ops, n.operands.mapM p.node? = some ops ∧ n.check (ops.map (·.shape)) = []
  read : n.kind = .identifier → ∃ s, p.find n.name = some s ∧
    (s.role.isInput ∨ n.name ∈ written)

/-- The tensors that are read at places. -/
def placeReads (pls : List (Slot × NodeId × Node)) : List String :=
  pls.filterMap fun pl => if pl.2.2.kind = .identifier then some pl.2.2.name else none

theorem placeReads_places (slot : Slot) (t : Tree) : placeReads (t.places slot) = t.names := by
  rw [Tree.names, ← (Tree.map_places slot t).1, List.filterMap_map]
  rfl

theorem Ledger.Clean.place {seen : List NodeId} {written reads defs : List String}
    (h : l.Clean seen written reads defs) (hnested : opts.noNested = []) (slot : Slot) (id : NodeId)
    {n : Node} (hid : opts.noSharing → id ∉ seen) (hn : PlaceFits p opts written n) :
    ∃ l', l.place p opts i (slot, id, n) = some l' ∧
      l'.Clean (id :: seen) written (placeReads [(slot, id, n)] ++ reads) defs := by
  obtain ⟨l₁, h₁, hc⟩ := h.reach (p := p) (i := i) id hid
  obtain ⟨ops, hops, hcheck⟩ := hn.operands
  have hkinds : opts.noKinds.contains n.kind = false := by simpa using hn.kind
  unfold Ledger.place
  cases slot <;>
  · simp only [h₁, Option.bind_eq_bind, Option.bind_some, hkinds, Bool.false_eq_true, if_false,
      hops, hcheck, Ledger.note_nil, hnested, List.contains_nil, Option.pure_def]
    by_cases hk : n.kind = .identifier
    · obtain ⟨s, hs, hread⟩ := hn.read hk
      rw [if_pos hk, Ledger.read, show p.symbols.find? n.name = some s from hs]
      have : (s.role.isInput || l₁.written.contains n.name) = true := by
        rw [hc.written]
        simpa using hread
      simp only [this, if_true]
      exact ⟨_, rfl, hc.found, hc.seen, hc.written, by simp [placeReads, hk, hc.reads], hc.defs⟩
    · rw [if_neg hk]
      exact ⟨l₁, rfl, hc.found, hc.seen, hc.written, by simp [placeReads, hk, hc.reads], hc.defs⟩

theorem Ledger.Clean.places {seen : List NodeId} {written reads defs : List String}
    (h : l.Clean seen written reads defs) (hnested : opts.noNested = [])
    (pls : List (Slot × NodeId × Node))
    (hids : opts.noSharing → (pls.map (fun pl => pl.2.1)).Nodup ∧
      ∀ pl ∈ pls, pl.2.1 ∉ seen)
    (hn : ∀ pl ∈ pls, PlaceFits p opts written pl.2.2) :
    ∃ l', l.places p opts i pls = some l' ∧
      l'.Clean ((pls.map (fun pl => pl.2.1)).reverse ++ seen) written
        ((placeReads pls).reverse ++ reads) defs := by
  induction pls generalizing l seen reads with
  | nil => exact ⟨l, rfl, h⟩
  | cons pl pls ih =>
    obtain ⟨slot, id, n⟩ := pl
    obtain ⟨l₁, h₁, hc⟩ := h.place (i := i) hnested slot id
      (fun hs => (hids hs).2 _ (.head _)) (hn _ (.head _))
    have hids' : opts.noSharing → (pls.map (fun pl => pl.2.1)).Nodup ∧
        ∀ pl ∈ pls, pl.2.1 ∉ id :: seen := by
      intro hs
      obtain ⟨hnd, hseen⟩ := hids hs
      simp only [List.map_cons, List.nodup_cons, List.mem_map, not_exists, not_and] at hnd
      refine ⟨hnd.2, fun pl hpl hmem => ?_⟩
      rcases List.mem_cons.mp hmem with hmem | hmem
      · exact hnd.1 pl hpl hmem
      · exact hseen pl (List.mem_cons_of_mem _ hpl) hmem
    obtain ⟨l₂, h₂, hc₂⟩ := ih hc hids' fun pl hpl => hn pl (List.mem_cons_of_mem _ hpl)
    refine ⟨l₂, by simp [Ledger.places, h₁, h₂], ?_⟩
    have hreads : (placeReads ((slot, id, n) :: pls)).reverse =
        (placeReads pls).reverse ++ placeReads [(slot, id, n)] := by
      unfold placeReads
      by_cases hk : n.kind = .identifier <;> simp [hk]
    rw [hreads, List.append_assoc]
    simpa using hc₂

end

/-- The nodes that stand at the operands of a stored node. -/
theorem Tree.StoredIn.mapM_roots {nodes : Array Node} {ts : List Tree}
    (h : ∀ t ∈ ts, t.StoredIn nodes) : ∃ ops : List Node,
      (ts.map Tree.root).mapM (fun id => nodes[id]?) = some ops ∧
        ops.map (·.shape) = ts.map Tree.shape := by
  induction ts with
  | nil => exact ⟨[], rfl, rfl⟩
  | cons t ts ih =>
    obtain ⟨ops, h₁, h₂⟩ := ih fun t ht => h t (List.mem_cons_of_mem _ ht)
    cases h t (.head _) with
    | @node _ m _ hm _ _ => exact ⟨m :: ops, by simp [hm, h₁], by simp [h₂]⟩

theorem Tree.mem_places {nodes : Array Node} {C : Node → Prop} {S : Shapes} {t : Tree}
    (h : t.StoredIn nodes) (ht : t.Typed C S) {slot : Slot} :
    ∀ pl ∈ t.places slot, ∃ ops : List Node, pl.2.2.operands.mapM (fun id => nodes[id]?) = some ops ∧
      pl.2.2.Fits S (ops.map (·.shape)) := by
  have hoperands : ∀ {id : NodeId} {n : Node} {ts : List Tree}, (Tree.node id n ts).StoredIn nodes ∧
      (Tree.node id n ts).Typed C S → ∀ t ∈ ts, t.StoredIn nodes ∧ t.Typed C S := by
    rintro id n ts ⟨hstored, htyped⟩ t ht
    cases htyped with
    | node _ _ hts => exact ⟨hstored.operand ht, hts t ht⟩
  intro pl hpl
  obtain ⟨⟨ts, hstored, htyped⟩, -⟩ := places_spec (P := fun t => t.StoredIn nodes ∧ t.Typed C S)
    hoperands ⟨h, ht⟩ pl hpl
  cases htyped with
  | node _ hfits _ =>
    obtain ⟨ops, hops, hshapes⟩ := StoredIn.mapM_roots fun t ht => hstored.operand ht
    exact ⟨ops, by rw [hstored.operands_eq, hops], hshapes ▸ hfits⟩

/-! ## Assignments -/

section
variable {N : NodeClass} {p : Program} {opts : VerifyOptions} {l : Ledger}

theorem Ledger.Clean.assignment {cs : List Clause} (hlaid : p.Laid cs) {c : Clause} (hc : c ∈ cs)
    (hfits : c.Fits N p.find) {seen : List NodeId} {written reads defs : List String}
    (h : l.Clean seen written reads defs) (hnested : opts.noNested = [])
    (hreads : ∀ name ∈ c.tree.names, ∀ s, p.find name = some s → s.role.isInput ∨ name ∈ written)
    (hkinds : ∀ n ∈ c.tree.labels, n.kind ∉ opts.noKinds)
    (hids : opts.noSharing → c.ids.Nodup ∧ ∀ x ∈ c.ids, x ∉ seen) (i : Nat) :
    ∃ l', l.assignment p opts i c.assignment = some l' ∧
      l'.Clean (c.ids.reverse ++ seen) (c.name :: written) (c.tree.names.reverse ++ reads)
        (c.definition p.find ++ defs) := by
  obtain ⟨s, hs, hv, hrole⟩ := hfits.declared
  have hstored := hlaid.stored c hc
  obtain ⟨n, ts, htree, hroot⟩ := hstored.exists_node
  obtain ⟨l₁, h₁, hc₁⟩ := h.reach (p := p) (i := i) c.dst
    fun hs => (hids hs).2 _ (.head _)
  have hplaces : ∀ pl ∈ c.tree.places .root, PlaceFits p opts written pl.2.2 := by
    intro pl hpl
    have hlabel : pl.2.2 ∈ c.tree.labels := by
      rw [← (Tree.map_places .root c.tree).1]
      exact List.mem_map_of_mem hpl
    obtain ⟨ops, hops, hf⟩ := Tree.mem_places hstored hfits.typed pl hpl
    refine ⟨hkinds _ hlabel, ⟨ops, hops, hf.check_eq_nil⟩, fun hk => ?_⟩
    have hname : pl.2.2.name ∈ c.tree.names := by
      rw [Tree.names, List.mem_filterMap]
      exact ⟨pl.2.2, hlabel, if_pos hk⟩
    obtain ⟨s, hs⟩ := hfits.declared_name hname
    exact ⟨s, hs, hreads _ hname s hs⟩
  have hidseq : (c.tree.places .root).map (fun pl => pl.2.1) = c.tree.ids :=
    (Tree.map_places .root c.tree).2
  obtain ⟨l₂, h₂, hc₂⟩ := hc₁.places (p := p) (i := i) hnested (c.tree.places .root)
    (fun hs => by
      obtain ⟨hnd, hseen⟩ := hids hs
      rw [Clause.ids, List.nodup_cons] at hnd
      rw [hidseq]
      refine ⟨hnd.2, fun pl hpl hmem => ?_⟩
      have hmem' : pl.2.1 ∈ c.tree.ids := hidseq ▸ List.mem_map_of_mem (f := fun pl => pl.2.1) hpl
      rcases List.mem_cons.mp hmem with hmem | hmem
      · exact hnd.1 (hmem ▸ hmem')
      · exact hseen _ (List.mem_cons_of_mem _ hmem') hmem)
    hplaces
  rw [hidseq, placeReads_places] at hc₂
  have hnode : p.node? c.tree.root = some n := hroot
  have hshape : c.target.shape = n.shape := by
    rw [← hfits.shape, htree]
    rfl
  have hwalk : (p.tree c.tree.root).walk = some (c.tree.places .root) := by
    rw [hlaid.tree_eq hc, Tree.walk, hstored.walkFrom_eq]
  unfold Ledger.assignment
  simp only [hlaid.dst?_eq hc, Option.bind_eq_bind, Option.bind_some, hfits.kind, ne_eq,
    not_true_eq_false, if_false, show (c.assignment).dst = c.dst from rfl, h₁,
    hv.checkIdent_eq_nil hs, Ledger.note_nil, show (c.assignment).expr = c.tree.root from rfl,
    hnode, hshape, if_true, hwalk, h₂, show p.symbols.find? c.target.name = some s from hs,
    if_neg hrole, Option.pure_def]
  refine ⟨_, rfl, ?_⟩
  have hseen : l₂.seen ⊆ c.ids.reverse ++ seen := by
    simpa [Clause.ids] using hc₂.seen
  cases hsynth : s.role.isSynthesized with
  | false =>
    refine ⟨hc₂.found, hseen, ?_, hc₂.reads, ?_⟩
    · simp [hc₂.written]
    · simp [Clause.definition, hs, hsynth, hc₂.defs]
  | true =>
    refine ⟨hc₂.found, hseen, ?_, hc₂.reads, ?_⟩
    · simp [hc₂.written]
    · simp [Clause.definition, hs, hsynth, hc₂.defs, definitionText]

theorem Ledger.Clean.assignments {cs : List Clause} (hlaid : p.Laid cs) {rest : List Clause}
    (hrest : ∀ c ∈ rest, c ∈ cs) (hfits : ∀ c ∈ cs, c.Fits N p.find) {seen : List NodeId}
    {written reads defs : List String} (h : l.Clean seen written reads defs)
    (hnested : opts.noNested = []) (hord : WrittenFirst p.find written rest)
    (hkinds : ∀ c ∈ cs, ∀ n ∈ c.tree.labels, n.kind ∉ opts.noKinds)
    (hids : opts.noSharing → (rest.flatMap Clause.ids).Nodup ∧
      ∀ x ∈ rest.flatMap Clause.ids, x ∉ seen) (i : Nat) :
    ∃ l', l.assignments p opts i (rest.map Clause.assignment) = some l' ∧ l'.found = [] ∧
      l'.reads = (rest.flatMap fun c => c.tree.names).reverse ++ reads ∧
      l'.defs = (rest.flatMap (Clause.definition p.find)).reverse ++ defs := by
  induction rest generalizing l seen written reads defs i with
  | nil => exact ⟨l, rfl, h.found, by simpa using h.reads, by simpa using h.defs⟩
  | cons c rest ih =>
    have hc := hrest c (.head _)
    obtain ⟨l₁, h₁, hc₁⟩ := h.assignment hlaid hc (hfits c hc) hnested hord.1 (hkinds c hc)
      (fun hs => by
        obtain ⟨hnd, hseen⟩ := hids hs
        rw [List.flatMap_cons, List.nodup_append] at hnd
        exact ⟨hnd.1, fun x hx => hseen x (by simp [hx])⟩) i
    obtain ⟨l₂, h₂, hfound, hreads, hdefs⟩ := ih (fun d hd => hrest d (List.mem_cons_of_mem _ hd)) hc₁
      hord.2 (fun hs => by
        obtain ⟨hnd, hseen⟩ := hids hs
        rw [List.flatMap_cons, List.nodup_append] at hnd
        refine ⟨hnd.2.1, fun x hx hmem => ?_⟩
        rw [List.mem_append, List.mem_reverse] at hmem
        rcases hmem with hmem | hmem
        · exact hnd.2.2 x hmem x hx rfl
        · exact hseen x (by simp only [List.flatMap_cons, List.mem_append, hx, or_true]) hmem) (i + 1)
    refine ⟨l₂, by simp [Ledger.assignments, h₁, h₂], hfound, ?_, ?_⟩
    · rw [hreads, List.flatMap_cons, List.reverse_append, List.append_assoc]
    · rw [hdefs, List.flatMap_cons, List.reverse_append, c.reverse_definition, List.append_assoc]

/-- Nothing is found when the ledger of the assignments is clean, no definition is counted twice and
every synthesized tensor is defined. -/
theorem Program.verify_of_ledger {defined : List String}
    (hl : Ledger.assignments {} p opts 0 p.assignments = some l) (hfound : l.found = [])
    (hdefs : l.defs.Nodup) (hdefined : p.assignments.mapM (fun a => (p.dst? a).map (·.name)) = some defined)
    (hsynth : l.checkSynthesized p opts defined = []) : p.verify opts = some none := by
  have hcheck : l.checkDefs = [] := by
    rw [Ledger.checkDefs, List.filterMap_eq_nil_iff]
    intro d hd
    rw [List.mem_mergeSort, List.mem_eraseDups] at hd
    exact if_pos (List.count_eq_one_of_mem hdefs hd)
  have hviol : p.violations opts = some [] := by
    rw [Program.violations, hl]
    simp only [Option.bind_eq_bind, Option.bind_some, hcheck, Ledger.note_nil, hdefined, hsynth, hfound,
      Option.pure_def]
  rw [Program.verify, hviol]
  rfl

/-- The clauses of a verified program pass the checks: no violation is found. -/
theorem Program.verify_eq_none {cs : List Clause} (hlaid : p.Laid cs) (htidy : p.Tidy)
    (hfits : ∀ c ∈ cs, c.Fits N p.find) (hs : Verified p.find cs)
    (hsingle : opts.singleUse → ∀ name s, p.find name = some s → s.role.isSynthesized →
      (cs.flatMap fun c => c.tree.names).count name = 1) (hnested : opts.noNested = [])
    (hshare : opts.noSharing → Unshared cs)
    (hkinds : ∀ c ∈ cs, ∀ n ∈ c.tree.labels, n.kind ∉ opts.noKinds) :
    p.verify opts = some none := by
  have hstart : ({} : Ledger).Clean [] [] [] [] := ⟨rfl, by simp, rfl, rfl, rfl⟩
  obtain ⟨l, hl, hfound, hreads, hdefs⟩ := hstart.assignments (i := 0) hlaid (fun _ h => h) hfits hnested
    hs.ordered hkinds fun h => ⟨hshare h, by simp⟩
  have hnd : l.defs.Nodup := by
    rw [hdefs, List.append_nil]
    exact List.nodup_reverse.mpr hs.definitions
  have hdefined : p.assignments.mapM (fun a => (p.dst? a).map (·.name)) =
      some (cs.map Clause.name) := by
    rw [hlaid.assignments, List.mapM_map]
    exact mapM_eq_some_map fun c hc => by simp [hlaid.dst?_eq hc]
  have hsynth : l.checkSynthesized p opts (cs.map Clause.name) = [] := by
    rw [Ledger.checkSynthesized, List.flatMap_eq_nil_iff]
    intro s hmem
    obtain ⟨hmem, hsynth⟩ := List.mem_filter.mp hmem
    have hfind := htidy.mem_all.mp hmem
    obtain ⟨c, hc, hname⟩ := hs.defined s.name s hfind hsynth
    have honce : (opts.singleUse && l.reads.count s.name != 1) = false := by
      rw [hreads, List.append_nil, List.count_reverse]
      cases hopt : opts.singleUse with
      | false => rfl
      | true => simp [hsingle hopt s.name s hfind hsynth]
    have hdefined : (cs.map Clause.name).contains s.name = true := by simpa using ⟨c, hc, hname⟩
    rw [honce, hdefined]
    rfl
  exact verify_of_ledger (hlaid.assignments ▸ hl) hfound hnd hdefined hsynth

end

end LoopNest
