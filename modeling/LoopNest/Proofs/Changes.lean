import LoopNest.Compile
import LoopNest.Proofs.Edit

/-!
# What edits do to symbols and names

Whatever an edit does to the code, it changes the symbols in two ways only (`Program.Step`): a tensor
is declared under a fresh name, or a tensor that was found to be synthesized is removed. Each pass
makes such steps, whether it succeeds or stops in the middle (`Edit.Makes`), so that what one step
keeps is kept by all of them (`Program.Steps.keeps`): the declared tensors stay what they are, in
their order (`Program.Leads.declares`), and a name that was once taken is not handed out again
(`Program.Steps.spares`). Passes name the tensors that they add after a few roots
(`Program.Leads.named`).
-/

namespace LoopNest

/-- Two programs over the same symbols and names. -/
def Program.SameNames (p p' : Program) : Prop := p'.symbols = p.symbols ∧ p'.names = p.names

/-- What a step does to the symbols. -/
inductive Change
  | code
  | synthesize (root : String) (shape : Shape)
  | remove (name : String)

/-- The name that a step hands out, if it does. -/
def Change.handedOut (p : Program) : Change → List String
  | .synthesize root _ => [(p.names.fresh root).1]
  | .code | .remove _ => []

/-- The roots of the names that passes hand out. -/
def passRoots : List String := [Pass.liftRoot, Pass.unstackRoot, Pass.copyRoot]

/-- A change as passes make it. -/
def Change.Passes : Change → Prop
  | .synthesize root _ => root ∈ passRoots
  | .code | .remove _ => True

namespace Program

/-- A step from one program to another. -/
inductive Step : Program → Change → Program → Prop
  | code : p.SameNames q → Step p .code q
  | synthesize (root : String) (shape : Shape) :
    Step p (.synthesize root shape) (p.synthesize root shape).2
  | remove {p : Program} {name : String} {s : Symbol} : p.find name = some s →
    s.role.isSynthesized = true → Step p (.remove name) { p with symbols := p.symbols.remove name }

/-- One step after the other. The history lists each of them with the program before it. -/
inductive Steps : Program → List (Program × Change) → Program → Prop
  | refl : Steps p [] p
  | cons : p.Step c q → Steps q history p' → Steps p ((p, c) :: history) p'

variable {p p' q : Program}

theorem SameNames.refl (p : Program) : p.SameNames p := ⟨rfl, rfl⟩

theorem SameNames.trans (h : p.SameNames q) (h' : q.SameNames p') : p.SameNames p' :=
  ⟨h'.1.trans h.1, h'.2.trans h.2⟩

namespace Steps

variable {history later : List (Program × Change)}

theorem single {c : Change} (h : p.Step c q) : p.Steps [(p, c)] q := .cons h .refl

theorem append (h : p.Steps history q) (h' : q.Steps later p') : p.Steps (history ++ later) p' := by
  induction h with
  | refl => exact h'
  | cons hstep _ ih => exact .cons hstep (ih h')

theorem split {earlier : List (Program × Change)} (h : p.Steps (earlier ++ later) p') :
    ∃ q, p.Steps earlier q ∧ q.Steps later p' := by
  induction earlier generalizing p with
  | nil => exact ⟨p, .refl, h⟩
  | cons e earlier ih =>
    cases h with
    | cons hstep hrest =>
      obtain ⟨q, hearlier, hlater⟩ := ih hrest
      exact ⟨q, .cons hstep hearlier, hlater⟩

/-- What every step of a kind keeps is kept. -/
theorem keeps_of {I : Program → Prop} {C : Change → Prop}
    (hstep : ∀ {p q : Program} {c : Change}, I p → p.Step c q → C c → I q) (hp : I p)
    (h : p.Steps history q) (hall : ∀ e ∈ history, C e.2) : I q := by
  induction h with
  | refl => exact hp
  | cons hc _ ih =>
    rw [List.forall_mem_cons] at hall
    exact ih (hstep hp hc hall.1) hall.2

/-- What every step keeps is kept. -/
theorem keeps {I : Program → Prop} (hstep : ∀ {p q : Program} {c : Change}, I p → p.Step c q → I q)
    (hp : I p) (h : p.Steps history q) : I q :=
  keeps_of (C := fun _ => True) (fun hp hc _ => hstep hp hc) hp h fun _ _ => trivial

end Steps

theorem Tidy.step (h : p.Tidy) {c : Change} (hstep : p.Step c q) : q.Tidy := by
  cases hstep with
  | code hsame => exact h.congr hsame.1 hsame.2
  | synthesize root shape => exact h.synthesize root shape
  | remove => exact h.remove _

theorem Step.taken_eq {c : Change} (h : p.Step c q) :
    q.names.taken = c.handedOut p ++ p.names.taken := by
  cases h with
  | code hsame => rw [hsame.2, Change.handedOut, List.nil_append]
  | synthesize => rfl
  | remove => rfl

theorem Step.taken_nodup {c : Change} (h : p.Step c q) (hnd : p.names.taken.Nodup) :
    q.names.taken.Nodup := by
  rw [h.taken_eq]
  cases c with
  | code => exact hnd
  | synthesize root shape => exact List.nodup_cons.mpr ⟨p.names.fresh_notMem root, hnd⟩
  | remove name => exact hnd

/-- The names handed out are added to the taken ones, the latest in front. -/
theorem Steps.taken_eq {history : List (Program × Change)} (h : p.Steps history q) :
    q.names.taken = (history.flatMap fun e => e.2.handedOut e.1).reverse ++ p.names.taken := by
  induction h with
  | refl => rfl
  | cons hstep _ ih =>
    have hone : ∀ (c : Change) (p : Program), (c.handedOut p).reverse = c.handedOut p := by
      rintro (_ | _ | _) p <;> rfl
    rw [ih, hstep.taken_eq, List.flatMap_cons, List.reverse_append, hone, List.append_assoc]

/-- The names of removed tensors stay taken. -/
theorem Steps.removed_taken (hp : p.Tidy) {history : List (Program × Change)} (h : p.Steps history q)
    {before : Program} {name : String} (hmem : (before, Change.remove name) ∈ history) :
    name ∈ q.names.taken := by
  induction h with
  | refl => cases hmem
  | cons hstep hrest ih =>
    rcases List.mem_cons.mp hmem with heq | hmem
    · cases heq
      cases hstep with
      | remove hs =>
        rw [hrest.taken_eq]
        exact List.mem_append_right _ (hp.mem_taken hs)
    · exact ih (hp.step hstep) hmem

/-- Each tensor that is declared in the course of a history gets a name that no tensor has at the time,
and that none had which was removed before. -/
def Spares (history : List (Program × Change)) : Prop :=
  ∀ earlier q root shape later, history = earlier ++ (q, .synthesize root shape) :: later →
    q.find (q.synthesize root shape).1.name = none ∧
    ∀ before name, (before, .remove name) ∈ earlier → name ≠ (q.synthesize root shape).1.name

theorem Steps.spares (hp : p.Tidy) {history : List (Program × Change)} (h : p.Steps history q) :
    Spares history := by
  rintro earlier r root shape later rfl
  obtain ⟨r', hearlier, hlater⟩ := h.split
  cases hlater with
  | cons hstep _ =>
    have hr : r.Tidy := hearlier.keeps (fun h hstep => h.step hstep) hp
    refine ⟨hr.find_fresh root, ?_⟩
    rintro before name hmem rfl
    exact r.names.fresh_notMem root (hearlier.removed_taken hp hmem)

/-! ### What passes do -/

/-- A program of the same name that passes come to in steps. -/
structure Leads (p q : Program) : Prop where
  steps : ∃ history, p.Steps history q ∧ ∀ e ∈ history, Change.Passes e.2
  name : q.name = p.name

/-- Two programs of one name over the same symbols and names. -/
def SameHead (p q : Program) : Prop := p.SameNames q ∧ q.name = p.name

theorem SameHead.refl (p : Program) : p.SameHead p := ⟨.refl p, rfl⟩

theorem SameHead.trans (h : p.SameHead q) (h' : q.SameHead p') : p.SameHead p' :=
  ⟨h.1.trans h'.1, h'.2.trans h.2⟩

namespace Leads

theorem refl : p.Leads p := ⟨⟨[], .refl, nofun⟩, rfl⟩

theorem trans (h : p.Leads q) (h' : q.Leads p') : p.Leads p' := by
  obtain ⟨history, hsteps, hall⟩ := h.steps
  obtain ⟨later, hlater, hall'⟩ := h'.steps
  exact ⟨⟨history ++ later, hsteps.append hlater, List.forall_mem_append.mpr ⟨hall, hall'⟩⟩,
    h'.name.trans h.name⟩

theorem single {c : Change} (hstep : p.Step c q) (hc : c.Passes) (hname : q.name = p.name) : p.Leads q :=
  ⟨⟨[(p, c)], .single hstep, List.forall_mem_singleton.mpr hc⟩, hname⟩

theorem of_sameHead (h : p.SameHead q) : p.Leads q := .single (.code h.1) trivial h.2

/-- What every step of a pass keeps is kept. -/
theorem keeps {I : Program → Prop}
    (hstep : ∀ {p q : Program} {c : Change}, I p → p.Step c q → c.Passes → I q) (hp : I p)
    (h : p.Leads q) : I q := by
  obtain ⟨history, hsteps, hall⟩ := h.steps
  exact hsteps.keeps_of hstep hp hall

end Leads

theorem addTransposition_sameHead {x id : NodeId} {pairs : List Swap}
    (h : p.addTransposition x pairs = some (id, p')) : p.SameHead p' := by
  simp only [addTransposition, Option.bind_eq_bind, Option.bind_eq_some_iff, Option.pure_def,
    Option.some.injEq] at h
  obtain ⟨n, -, s, -, h⟩ := h
  cases h
  exact ⟨⟨rfl, rfl⟩, rfl⟩

theorem setSlot?_sameHead {i : Nat} {slot : Slot} {id : NodeId} (h : p.setSlot? i slot id = some p') :
    p.SameHead p' := by
  cases slot with
  | root =>
    simp only [setSlot?, Option.ite_none_right_eq_some] at h
    exact Option.some.inj h.2 ▸ ⟨⟨rfl, rfl⟩, rfl⟩
  | operand =>
    simp only [setSlot?, Option.bind_eq_bind, Option.bind_eq_some_iff,
      Option.ite_none_right_eq_some] at h
    obtain ⟨n, -, -, h⟩ := h
    exact Option.some.inj h ▸ ⟨⟨rfl, rfl⟩, rfl⟩

theorem mapThread_sameHead {f : Program → NodeId → Option (NodeId × Program)}
    (hf : ∀ (p p' : Program) (id id' : NodeId), f p id = some (id', p') → p.SameHead p')
    {ids ids' : List NodeId} (h : mapThread f p ids = some (ids', p')) : p.SameHead p' := by
  induction ids generalizing p ids' with
  | nil =>
    cases h
    exact .refl _
  | cons id ids ih =>
    simp only [mapThread, Option.bind_eq_bind, Option.bind_eq_some_iff, Option.pure_def,
      Option.some.injEq, Prod.exists, Prod.mk.injEq] at h
    obtain ⟨b, q, hb, bs, q', hbs, -, rfl⟩ := h
    exact (hf _ _ _ _ hb).trans (ih hbs)

theorem cloneWithin_sameHead {fuel : Nat} {id id' : NodeId}
    (h : cloneWithin fuel p id = some (id', p')) : p.SameHead p' := by
  induction fuel generalizing p p' id id' with
  | zero => cases h
  | succ fuel ih =>
    simp only [cloneWithin, Option.bind_eq_bind, Option.bind_eq_some_iff, Option.pure_def,
      Option.some.injEq, Prod.exists] at h
    obtain ⟨n, -, ops, q, hops, h⟩ := h
    have hsame := mapThread_sameHead (fun _ _ _ _ => ih) hops
    cases h
    exact hsame

end Program

/-! ## Edits -/

namespace Edit

variable {β γ : Type} {p : Program}

theorem after_error {e : Edit β} {d : Failure} {q : Program} (h : e p = .error d q) :
    e.after p = q := by
  rw [after, h]

theorem after_bind_ok {e : Edit β} {f : β → Edit γ} {b : β} {q : Program} (h : e p = .ok b q) :
    (e >>= f).after p = (f b).after q := by
  rw [after, bind_ok h, after]

theorem after_bind_error {e : Edit β} {f : β → Edit γ} {d : Failure} {q : Program}
    (h : e p = .error d q) : (e >>= f).after p = q := by
  apply after_error
  · change EStateM.bind e f p = _
    rw [EStateM.bind, h]

/-- An edit of a program goes from it to the one it leaves in steps of passes. -/
def MakesAt (e : Edit β) (p : Program) : Prop := p.Leads (e.after p)

/-- An edit makes steps, whatever the program and whether it succeeds or fails. -/
def Makes (e : Edit β) : Prop := ∀ p, e.MakesAt p

namespace Makes

variable {e : Edit β} {f : β → Edit γ}

/-- An edit that leaves programs as they are. -/
theorem none (h : ∀ p, e.after p = p) : e.Makes := fun p => (congrArg p.Leads (h p)).mpr .refl

theorem pure (b : β) : Makes (pure b : Edit β) := .none fun _ => rfl

theorem get : Makes (get : Edit Program) := .none fun _ => rfl

theorem fail (d : Diagnostic) : Makes (Edit.fail d : Edit β) := .none fun _ => rfl

theorem query (g : Program → Option β) : Makes (Edit.query g) := by
  apply Makes.none
  intro p
  cases h : g p with
  | none => exact after_error (d := .fault) (by rw [Edit.query, h])
  | some b => exact after_ok (query_run h)

theorem bind (he : e.Makes) (hf : ∀ b, (f b).Makes) : (e >>= f).Makes := by
  intro p
  have hfirst := he p
  rw [MakesAt] at hfirst ⊢
  cases hrun : e p with
  | ok b q =>
    rw [after_ok hrun] at hfirst
    rw [after_bind_ok hrun]
    exact hfirst.trans (hf b q)
  | error d q =>
    rw [after_error hrun] at hfirst
    rwa [after_bind_error hrun]

/-- What was read off the program holds while it is unchanged. -/
theorem bind_query {g : Program → Option β} (h : ∀ b, g p = some b → (f b).MakesAt p) :
    (Edit.query g >>= f).MakesAt p := by
  cases hg : g p with
  | none =>
    have hfault : Edit.query g p = .error .fault p := by rw [Edit.query, hg]
    rw [MakesAt, after_bind_error hfault]
    exact .refl
  | some b =>
    rw [MakesAt, after_bind_ok (query_run hg)]
    exact h b hg

theorem within (d : Diagnostic → Diagnostic) (he : e.Makes) : (Edit.within d e).Makes := by
  intro p
  have hafter : (Edit.within d e).after p = e.after p := by
    cases hrun : e p with
    | ok b q => rw [after_ok hrun, after_ok (within_run hrun)]
    | error f q =>
      rw [after_error hrun]
      exact after_error (d := f.map d) (by rw [Edit.within, hrun])
  rw [MakesAt, hafter]
  exact he p

theorem check (f : Program → Option (Option Diagnostic)) : Makes (Edit.check f) := by
  apply (query f).bind
  rintro (_ | d)
  · exact .pure ()
  · exact .fail d

theorem verify (opts : VerifyOptions) : Makes (Edit.verify opts) := .check _

theorem foldlM {τ : Type} {f : β → τ → Edit β} (hf : ∀ b x, (f b x).Makes) (l : List τ) (b : β) :
    (l.foldlM f b).Makes := by
  induction l generalizing b with
  | nil => exact .pure b
  | cons x l ih =>
    rw [List.foldlM_cons]
    exact (hf b x).bind ih

theorem forM {τ : Type} {f : τ → Edit Unit} (hf : ∀ x, (f x).Makes) (l : List τ) :
    (l.forM f).Makes := by
  induction l with
  | nil => exact .pure ()
  | cons x l ih => exact (hf x).bind fun _ => ih

theorem update {g : Program → Option (β × Program)} (h : ∀ p b q, g p = some (b, q) → p.Leads q) :
    (Edit.update g).Makes := by
  intro p
  rw [MakesAt]
  cases hg : g p with
  | none =>
    have hfault : Edit.update g p = .error .fault p := by simp only [Edit.update, hg]
    rw [after_error hfault]
    exact .refl
  | some r =>
    rw [after_ok (update_run hg)]
    exact h p r.1 r.2 hg

theorem change {g : Program → Option Program} (h : ∀ p q, g p = some q → p.Leads q) :
    (Edit.change g).Makes := by
  intro p
  rw [MakesAt]
  cases hg : g p with
  | none =>
    have hfault : Edit.change g p = .error .fault p := by simp only [Edit.change, hg]
    rw [after_error hfault]
    exact .refl
  | some q =>
    rw [after_ok (change_run hg)]
    exact h p q hg

theorem of_sameHead {g : Program → Option Program} (h : ∀ p q, g p = some q → p.SameHead q) :
    (Edit.change g).Makes :=
  .change fun p q hg => .of_sameHead (h p q hg)

theorem of_sameHead_update {g : Program → Option (β × Program)}
    (h : ∀ p b q, g p = some (b, q) → p.SameHead q) : (Edit.update g).Makes :=
  .update fun p b q hg => .of_sameHead (h p b q hg)

theorem addView (name : String) (shape : Shape) (fixed : List Int) (perm : List Swap) :
    Makes (Edit.addView name shape fixed perm) :=
  .of_sameHead_update fun _ _ _ h => by cases h; exact ⟨⟨rfl, rfl⟩, rfl⟩

theorem addIdent (name : String) (shape : Shape) : Makes (Edit.addIdent name shape) :=
  .of_sameHead_update fun _ _ _ h => by cases h; exact ⟨⟨rfl, rfl⟩, rfl⟩

theorem synthesize {root : String} (hroot : root ∈ passRoots) (shape : Shape) :
    Makes (Edit.synthesize root shape) :=
  .update fun p b q h => by
    cases h
    exact .single (.synthesize root shape) hroot rfl

theorem modifyNode (id : NodeId) (f : Node → Node) : Makes (Edit.modifyNode id f) :=
  .of_sameHead fun p p' h => by
    obtain ⟨n, -, rfl⟩ := Option.map_eq_some_iff.mp h
    exact ⟨⟨rfl, rfl⟩, rfl⟩

theorem setSlot (i : Nat) (slot : Slot) (id : NodeId) : Makes (Edit.setSlot i slot id) :=
  .of_sameHead fun _ _ => Program.setSlot?_sameHead

theorem setOperand (parent : NodeId) (index : Nat) (id : NodeId) :
    Makes (Edit.setOperand parent index id) :=
  .of_sameHead fun _ _ => Program.setSlot?_sameHead

theorem addTransposition (x : NodeId) (pairs : List Swap) : Makes (Edit.addTransposition x pairs) :=
  .of_sameHead_update fun _ _ _ => Program.addTransposition_sameHead

theorem clone (id : NodeId) : Makes (Edit.update (·.clone id)) :=
  .of_sameHead_update fun _ _ _ => Program.cloneWithin_sameHead

/-- Changes of the list of assignments, or of their shared loop. -/
theorem assignments {g : Program → Program}
    (h : ∀ p : Program, p.SameHead (g p)) : Makes (Edit.change fun p => some (g p)) :=
  .of_sameHead fun p p' hg => by cases hg; exact h p

/-- A tensor that was found to be synthesized is removed first. -/
theorem remove {name : String} {s : Symbol} (hs : p.find name = some s)
    (hsynth : s.role.isSynthesized = true) (he : e.Makes) :
    (do Edit.change fun p => some { p with symbols := p.symbols.remove name }; e).MakesAt p := by
  have hremove : p.Leads { p with symbols := p.symbols.remove name } :=
    .single (.remove hs hsynth) trivial rfl
  exact hremove.trans (he _)

end Makes

/-- The program that edits leave one after the other, those that fail included. -/
def afterAll (es : List (Edit β)) (p : Program) : Program := es.foldl (fun p e => e.after p) p

theorem afterAll_leads {es : List (Edit β)} (h : ∀ e ∈ es, e.Makes) (p : Program) :
    p.Leads (afterAll es p) := by
  induction es generalizing p with
  | nil => exact .refl
  | cons e es ih =>
    have hfirst : p.Leads (e.after p) := h e (.head _) p
    exact hfirst.trans (ih (fun e he => h e (List.mem_cons_of_mem _ he)) (e.after p))

end Edit

/-! ## Passes -/

namespace Pass

open Edit (Makes)

variable {p : Program}

/-! ### Lifting -/

theorem unshareAt_makes (fuel i : Nat) (slot : Slot) (id : NodeId) (seen : List NodeId) :
    Makes (unshareAt fuel i slot id seen) := by
  induction fuel generalizing slot id seen with
  | zero => exact .query _
  | succ fuel ih =>
    rw [unshareAt]
    split
    · exact (Makes.clone id).bind fun copy => (Makes.setSlot i slot copy).bind fun _ => .pure seen
    · refine (Makes.query _).bind fun n => ?_
      exact .foldlM (fun seen k => (Makes.query _).bind fun op => ih _ op seen) _ _

theorem unshareDst_makes (i : Nat) (a : Assignment) (seen : List NodeId) :
    Makes (unshareDst i a seen) := by
  rw [unshareDst]
  split
  · apply (Makes.clone _).bind
    intro copy
    exact Makes.bind (.assignments fun _ => ⟨⟨rfl, rfl⟩, rfl⟩) fun _ => .pure copy
  · exact .pure _

theorem unshareFrom_makes (n i : Nat) (seen : List NodeId) : Makes (unshareFrom n i seen) := by
  induction n generalizing i seen with
  | zero => exact .pure ()
  | succ n ih =>
    refine (Makes.query _).bind fun a => (unshareDst_makes i a seen).bind fun dst => ?_
    refine (Makes.query _).bind fun fuel => ?_
    exact (unshareAt_makes fuel i .root a.expr _).bind fun seen => ih (i + 1) seen

theorem hoist_makes (i : Nat) (slot : Slot) : Makes (hoist i slot) := by
  refine (Makes.query _).bind fun a => (Makes.query _).bind fun removed => ?_
  refine (Makes.query _).bind fun n => (Makes.synthesize (by decide) _).bind fun symbol => ?_
  refine (Makes.addIdent _ _).bind fun read => (Makes.setSlot _ _ _).bind fun _ => ?_
  refine (Makes.addIdent _ _).bind fun dst => ?_
  exact Makes.bind (.assignments fun _ => ⟨⟨rfl, rfl⟩, rfl⟩) fun _ => .pure read

theorem liftAt_makes (pred : NodeKind → Bool) (fuel i : Nat) : Makes (liftAt pred fuel i) := by
  induction fuel generalizing i with
  | zero => exact .query _
  | succ fuel ih =>
    refine (Makes.query _).bind fun a => (Makes.query _).bind fun slot => ?_
    cases slot with
    | none => exact .pure i
    | some slot => exact (hoist_makes i slot).bind fun _ => (ih i).bind fun j => ih (j + 1)

theorem liftFrom_makes (pred : NodeKind → Bool) (n i : Nat) : Makes (liftFrom pred n i) := by
  induction n generalizing i with
  | zero => exact .pure ()
  | succ n ih =>
    exact (Makes.query _).bind fun fuel => (liftAt_makes pred fuel i).bind fun j => ih (j + 1)

theorem lift_makes (pred : NodeKind → Bool) : Makes (lift pred) := by
  apply ((Makes.query _).bind fun n => unshareFrom_makes n 0 []).bind
  intro _
  refine (Makes.query _).bind fun n => (liftFrom_makes pred n 0).bind fun _ => ?_
  exact (Makes.verify _).bind fun _ => .check _

/-! ### Stacks -/

/-- A member whose definition can write its slice itself is a synthesized tensor. -/
theorem renamable_synthesized {i j : Nat} {m : NodeId} {n : Node} {dstName : String}
    (hn : p.node? m = some n) (h : renamable p i m dstName = some (some j)) :
    ∃ s, p.find n.name = some s ∧ s.role.isSynthesized = true := by
  simp only [renamable, hn, Option.bind_eq_bind, Option.bind_some] at h
  split at h
  · cases h
  cases hs : p.symbols.find? n.name with
  | none =>
    rw [hs] at h
    cases h
  | some s =>
    refine ⟨s, hs, Bool.of_not_eq_false fun hsynth => ?_⟩
    simp only [hs, hsynth, Bool.not_false, if_true] at h
    cases h

theorem unstackMembers_makes (i : Nat) (dst : Node) (stack : NodeId) (k : Nat)
    (before slices : List Assignment) (ms : List NodeId) :
    Makes (unstackMembers i dst stack k before slices ms) := by
  induction ms generalizing k before slices with
  | nil => exact .pure _
  | cons m ms ih =>
    intro p
    refine Makes.bind_query fun n hn => ?_
    split
    · exact ((Makes.query _).bind fun text => .fail _) p
    refine Makes.bind_query fun j hj => ?_
    cases j with
    | none =>
      refine (Makes.query _).bind (fun reads => ?_) p
      split
      · refine (Makes.synthesize (by decide) _).bind fun symbol => (Makes.addIdent _ _).bind fun early => ?_
        refine (Makes.addIdent _ _).bind fun read => (Makes.addView _ _ _ _).bind fun view => ?_
        exact ih _ _ _
      · exact (Makes.addView _ _ _ _).bind fun view => ih _ _ _
    | some j =>
      obtain ⟨s, hs, hsynth⟩ := renamable_synthesized hn hj
      apply Makes.remove hs hsynth
      apply (Makes.addView _ _ _ _).bind
      intro view
      exact Makes.bind (.assignments fun _ => ⟨⟨rfl, rfl⟩, rfl⟩) fun _ => ih _ _ _

theorem unstackAt_makes (i : Nat) : Makes (unstackAt i) := by
  refine (Makes.query _).bind fun a => (Makes.query _).bind fun root => ?_
  split
  · refine (Makes.query _).bind fun dst => ?_
    apply (Makes.within _ (unstackMembers_makes i dst a.expr 0 [] [] root.operands)).bind
    intro (before, slices)
    exact .assignments fun _ => ⟨⟨rfl, rfl⟩, rfl⟩
  · exact .pure ()

theorem unstackBelow_makes (n : Nat) : Makes (unstackBelow n) := by
  induction n with
  | zero => exact .pure ()
  | succ n ih => exact (unstackAt_makes n).bind fun _ => ih

theorem unstack_makes : Makes unstack :=
  (Makes.query _).bind fun n => (unstackBelow_makes n).bind fun _ => .verify _

/-! ### Copies -/

theorem redirect_makes (i : Nat) (name : String) (slots : List Slot) :
    Makes (redirect i name slots) := by
  induction slots with
  | nil => exact .pure ()
  | cons slot slots ih =>
    refine (Makes.query _).bind fun a => (Makes.query _).bind fun id => ?_
    refine (Makes.query _).bind fun old => ?_
    exact (Makes.addView _ _ _ _).bind fun read => (Makes.setSlot i slot read).bind fun _ => ih

theorem copyAt_makes (i : Nat) : Makes (copyAt i) := by
  refine (Makes.query _).bind fun a => (Makes.query _).bind fun slots => ?_
  split
  · exact .pure false
  refine (Makes.query _).bind fun dst => (Makes.query _).bind fun stored => ?_
  refine (Makes.synthesize (by decide) _).bind fun symbol => (redirect_makes i _ slots).bind fun _ => ?_
  refine (Makes.addIdent _ _).bind fun copy => (Makes.addIdent _ _).bind fun read => ?_
  exact Makes.bind (.assignments fun _ => ⟨⟨rfl, rfl⟩, rfl⟩) fun _ => .pure true

theorem copyFrom_makes (n i : Nat) : Makes (copyFrom n i) := by
  induction n generalizing i with
  | zero => exact .pure ()
  | succ n ih =>
    apply (copyAt_makes i).bind
    intro copied
    split
    · exact ih (i + 2)
    · exact ih (i + 1)

theorem aliasCopy_makes : Makes aliasCopy :=
  (Makes.query _).bind fun n => (copyFrom_makes n 0).bind fun _ => .verify _

/-! ### Transpositions -/

theorem transposeOperand_makes (id : NodeId) (pairs : List Swap) (k : Nat) :
    Makes (transposeOperand id pairs k) :=
  (Makes.query _).bind fun op => (Makes.addTransposition op pairs).bind fun t => .setOperand id k t

theorem turnOperand_makes (id : NodeId) (pairs : List Swap) (k : Nat) :
    Makes (turnOperand id pairs k) := by
  rw [turnOperand]
  split
  · exact .pure ()
  · exact transposeOperand_makes id pairs k

theorem pushBelow_makes (i : Nat) (slot : Slot) (tid : NodeId) (t : Node) (xid : NodeId) (x : Node) :
    Makes (pushBelow i slot tid t xid x) := by
  have hset : Makes (do
      Edit.modifyNode xid fun n => { n with shape := t.shape }
      Edit.setSlot i slot xid) :=
    (Makes.modifyNode _ _).bind fun _ => .setSlot _ _ _
  unfold pushBelow
  cases x.kind with
  | identifier => exact (Makes.addView _ _ _ _).bind fun read => .setSlot _ _ read
  | constant => exact .setSlot _ _ _
  | add | sub | mul | div =>
    exact (Makes.forM (transposeOperand_makes xid t.pairs) _).bind fun _ => hset
  | scalarMul | scalarDiv => exact (transposeOperand_makes _ _ _).bind fun _ => hset
  | transposition =>
    refine (Makes.query _).bind fun inner => ?_
    exact (Makes.modifyNode _ _).bind fun _ => .setOperand _ _ inner
  | product =>
    refine (Makes.query _).bind fun op => (Makes.query _).bind fun lhs => ?_
    refine (Makes.query _).bind fun swaps => ?_
    cases swaps with
    | none => exact (hoist_makes _ _).bind fun _ => .pure ()
    | some swaps =>
      exact (turnOperand_makes _ _ _).bind fun _ => (turnOperand_makes _ _ _).bind fun _ => hset
  | contraction | stack => exact (hoist_makes _ _).bind fun _ => .pure ()
  | invalid | unknown => exact .fail _

theorem push_makes (i : Nat) (slot : Slot) : Makes (push i slot) := by
  refine (Makes.query _).bind fun a => (Makes.query _).bind fun tid => ?_
  refine (Makes.query _).bind fun t => (Makes.query _).bind fun xid => ?_
  exact (Makes.query _).bind fun x => pushBelow_makes i slot tid t xid x

theorem untransposeFrom_makes (fuel i : Nat) : Makes (untransposeFrom fuel i) := by
  induction fuel generalizing i with
  | zero => exact .query _
  | succ fuel ih =>
    refine Makes.get.bind fun p => ?_
    split
    · exact .pure ()
    refine (Makes.query _).bind fun slot => ?_
    cases slot with
    | none => exact ih (i + 1)
    | some slot =>
      refine (Makes.query _).bind fun dst => ?_
      exact (Makes.within _ (push_makes i slot)).bind fun _ => ih i

theorem untranspose_makes : Makes untranspose :=
  Makes.get.bind fun p => (untransposeFrom_makes (pushBound p) 0).bind fun _ => .verify _

/-! ### The shared loop -/

theorem fuse_sameHead {p : Program} {r : Bool × Program} (h : fuse p = some r) :
    p.SameHead r.2 := by
  rw [fuse] at h
  split at h
  · cases h
    exact .refl p
  · simp only [Option.bind_eq_bind, Option.bind_eq_some_iff] at h
    obtain ⟨written, -, axes, -, h⟩ := h
    split at h
    · cases h
      exact .refl p
    · cases h
      exact ⟨⟨rfl, rfl⟩, rfl⟩

theorem fusePass_makes : Makes fusePass :=
  .of_sameHead fun p p' h => by
    obtain ⟨r, hr, rfl⟩ := Option.map_eq_some_iff.mp h
    exact fuse_sameHead hr

/-- The passes, with any selection of nodes to lift. -/
inductive Rewrites : Edit Unit → Prop
  | lift (pred : NodeKind → Bool) : Rewrites (lift pred)
  | unstack : Rewrites unstack
  | aliasCopy : Rewrites aliasCopy
  | untranspose : Rewrites untranspose
  | fuse : Rewrites fusePass

theorem Rewrites.makes {e : Edit Unit} (h : Rewrites e) : e.Makes := by
  cases h with
  | lift pred => exact lift_makes pred
  | unstack => exact unstack_makes
  | aliasCopy => exact aliasCopy_makes
  | untranspose => exact untranspose_makes
  | fuse => exact fusePass_makes

end Pass

/-- Every pass of the compiler makes steps. -/
theorem passes_make (fuse : Bool) : ∀ pass ∈ passes fuse, pass.2.Makes := by
  have hloop : ∀ pass ∈ (if fuse then [("loopfuse", Pass.fusePass)] else []),
      Pass.Rewrites pass.2 := by
    cases fuse with
    | false => simp
    | true => simpa using Pass.Rewrites.fuse
  intro pass hpass
  apply Pass.Rewrites.makes
  rcases List.mem_append.mp hpass with hpass | hpass
  · simp only [List.mem_cons, List.not_mem_nil, or_false] at hpass
    rcases hpass with rfl | rfl | rfl | rfl
    · exact .lift _
    · exact .unstack
    · exact .aliasCopy
    · exact .untranspose
  · exact hloop pass hpass

theorem runPasses_leads {passes : List (String × Edit Unit)} (h : ∀ pass ∈ passes, pass.2.Makes)
    {p q : Program} (hrun : runPasses p passes = .ok q) : p.Leads q := by
  induction passes generalizing p with
  | nil =>
    cases hrun
    exact .refl
  | cons pass passes ih =>
    rw [runPasses] at hrun
    split at hrun
    · rename_i hpass
      have hfirst : p.Leads (pass.2.after p) := h pass (.head _) p
      rw [Edit.after_ok hpass] at hfirst
      exact hfirst.trans (ih (fun pass hmem => h pass (List.mem_cons_of_mem _ hmem)) hrun)
    · cases hrun

/-- Passes that succeed have succeeded up to any point. -/
theorem runPasses_append {first rest : List (String × Edit Unit)} {p r : Program}
    (h : runPasses p (first ++ rest) = .ok r) :
    ∃ q, runPasses p first = .ok q ∧ runPasses q rest = .ok r := by
  induction first generalizing p with
  | nil => exact ⟨p, rfl, h⟩
  | cons pass first ih =>
    rw [List.cons_append, runPasses] at h
    rw [runPasses]
    split at h
    · exact ih h
    · cases h

/-! ## Declared tensors -/

/-- The symbols that the compiler did not introduce, in order. -/
def SymbolTable.declared (t : SymbolTable) : List Symbol := t.all.filter (!·.role.isSynthesized)

/-- The declared symbols of a program are the given ones, the others have the role of synthesized
tensors, and all names are taken. -/
structure Program.Declares (decls : List Symbol) (p : Program) : Prop where
  declared : p.symbols.declared = decls
  others : ∀ s ∈ p.symbols.all, s.role.isSynthesized = true → s.role = .synthesized
  taken : ∀ name ∈ p.symbols.table.keys, name ∈ p.names.taken

namespace Program

variable {decls : List Symbol} {p p' : Program}

namespace Declares

theorem congr (h : p.Declares decls) (hsame : p.SameNames p') : p'.Declares decls := by
  obtain ⟨hsym, hnames⟩ := hsame
  exact ⟨hsym ▸ h.declared, hsym ▸ h.others, hsym ▸ hnames ▸ h.taken⟩

/-- A tensor that the compiler adds comes last. -/
theorem synthesize (h : p.Declares decls) (root : String) (shape : Shape) :
    (p.synthesize root shape).2.Declares decls := by
  have hkey : (p.names.fresh root).1 ∉ p.symbols.table.keys :=
    fun hmem => p.names.fresh_notMem root (h.taken _ hmem)
  have hentries := OrderedMap.keys_insert p.symbols.table (p.names.fresh root).1
    (⟨(p.names.fresh root).1, shape, .synthesized⟩ : Symbol) hkey
  refine ⟨?_, fun s hs hsynth => ?_, fun name hname => ?_⟩
  · rw [← h.declared]
    simp only [Program.synthesize, SymbolTable.declared, SymbolTable.all, SymbolTable.declare,
      OrderedMap.values, hentries, List.map_append, List.filter_append]
    rw [List.map_singleton, List.filter_singleton, Role.isSynthesized_synthesized]
    exact List.append_nil _
  · simp only [Program.synthesize, SymbolTable.all, SymbolTable.declare, OrderedMap.values, hentries,
      List.map_append, List.mem_append, List.map_cons, List.map_nil, List.mem_singleton] at hs
    rcases hs with hs | rfl
    · exact h.others s hs hsynth
    · rfl
  · simp only [Program.synthesize, SymbolTable.declare, OrderedMap.keys, hentries, List.map_append,
      List.mem_append, List.map_cons, List.map_nil, List.mem_singleton] at hname
    rw [Program.synthesize, NameSupply.taken_fresh, List.mem_cons]
    exact hname.symm.imp_right (h.taken name)

/-- Removing a synthesized tensor does not concern the declared ones. -/
theorem remove (h : p.Declares decls) {name : String} {s : Symbol} (hs : p.find name = some s)
    (hsynth : s.role.isSynthesized = true) :
    ({ p with symbols := p.symbols.remove name } : Program).Declares decls := by
  have hsub := p.symbols.table.erase_sublist name
  refine ⟨?_, fun s hs => h.others s ((hsub.map _).subset hs),
    fun n hn => h.taken n ((hsub.map _).subset hn)⟩
  · rw [← h.declared]
    simp only [find, SymbolTable.find?, OrderedMap.get?] at hs
    clear hsub
    simp only [SymbolTable.declared, SymbolTable.all, SymbolTable.remove, OrderedMap.values,
      OrderedMap.erase]
    revert hs
    induction p.symbols.table.entries with
    | nil => exact fun _ => rfl
    | cons e rest ih =>
      intro hs
      by_cases he : e.1 = name
      · simp only [List.find?_cons, he, decide_true, Option.map_some, Option.some.injEq] at hs
        simp [he, hs, hsynth]
      · simp only [List.find?_cons, he, decide_false] at hs
        rw [List.eraseP_cons_of_neg (by simpa using he)]
        simp only [List.map_cons, List.filter_cons, ih hs]

/-- No step of a pass changes the declared tensors. -/
theorem step {c : Change} (h : p.Declares decls) (hstep : p.Step c p') : p'.Declares decls := by
  cases hstep with
  | code hsame => exact h.congr hsame
  | synthesize root shape => exact h.synthesize root shape
  | remove hs hsynth => exact h.remove hs hsynth

end Declares

end Program

/-- Passes keep the declared tensors and their order. -/
theorem Program.Leads.declares {decls : List Symbol} {p q : Program} (h : p.Leads q)
    (hp : p.Declares decls) : q.Declares decls := h.keeps (fun hp hstep _ => hp.step hstep) hp

/-- The tensors that passes add are named after their roots. -/
theorem Program.Leads.named {P : String → Prop} {p q : Program} (h : p.Leads q) (htidy : p.Tidy)
    (hroots : ∀ root ∈ passRoots, ∀ n, P (NameSupply.numbered root n))
    (hp : ∀ name s, p.find name = some s → P name) : ∀ name s, q.find name = some s → P name := by
  refine (h.keeps (I := fun p => p.Tidy ∧ ∀ name s, p.find name = some s → P name) ?_ ⟨htidy, hp⟩).2
  rintro p q c ⟨htidy, hp⟩ hstep hc
  refine ⟨htidy.step hstep, fun name s hs => ?_⟩
  cases hstep with
  | code hsame =>
    rw [Program.find, hsame.1] at hs
    exact hp name s hs
  | synthesize root shape =>
    rw [Program.find_synthesize] at hs
    split at hs
    · rename_i hname
      exact hname ▸ hroots root hc _
    · exact hp name s hs
  | remove =>
    rw [htidy.find_remove] at hs
    split at hs
    · cases hs
    · exact hp name s hs

end LoopNest
