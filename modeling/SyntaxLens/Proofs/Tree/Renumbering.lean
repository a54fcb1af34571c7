import Mathlib.Data.List.Forall2
import Mathlib.Data.Set.Function
import SyntaxLens.Focus.Move
import SyntaxLens.Proofs.Tree.Cycles
import SyntaxLens.Proofs.Tree.Gathering

/-! # Renumbered arenas

Two arenas hold the same tree if the nodes that the roots reach correspond one to one: a node and
its counterpart have the same form, and their slots are holes together, lead outside together or
hold counterparts.  What the roots do not reach, and the order of the places, is of no account.

* `Node.Alike` compares two nodes slot by slot.  The functions of a node are compared once for any
  relation between the children.
* `Tree.Renumbering` is the correspondence.  Steps, paths and moves carry over
  (`Renumbering.resolve`, `Renumbering.move`), and so does the absence of cycles
  (`Renumbering.acyclicFrom`). -/

namespace SyntaxLens

/-! ### Nodes that are alike -/

section alike
variable {R : NodeId → NodeId → Prop}

/-- Two optional children that are both absent or related. -/
abbrev SlotRel (R : NodeId → NodeId → Prop) : Option NodeId → Option NodeId → Prop := Option.Rel R

/-- Related options are absent together. -/
theorem cases_of_rel {α β : Type} {P : α → β → Prop} {x : Option α} {y : Option β}
    (h : Option.Rel P x y) :
    (x = none ∧ y = none) ∨ ∃ a b, x = some a ∧ y = some b ∧ P a b := by
  cases h with
  | none => exact .inl ⟨rfl, rfl⟩
  | some hab => exact .inr ⟨_, _, rfl, rfl, hab⟩

/-- Two children, each with the segment that leads to it. -/
def StepRel (R : NodeId → NodeId → Prop) (c d : Segment × NodeId) : Prop := c.1 = d.1 ∧ R c.2 d.2

namespace Field

/-- Two fields that differ in their children alone, and there by related ones. -/
inductive Alike (R : NodeId → NodeId → Prop) : Field → Field → Prop
  | one {child child' : Option NodeId} :
      SlotRel R child child' → Alike R (.one child) (.one child')
  | many {slots slots' : List (Option NodeId)} :
      List.Forall₂ (SlotRel R) slots slots' → Alike R (.many slots) (.many slots')

theorem forall₂_zipIdx {α β : Type} {P : α → β → Prop} {l : List α} {l' : List β}
    (h : List.Forall₂ P l l') : ∀ start : ℕ,
      List.Forall₂ (fun x y => P x.1 y.1 ∧ x.2 = y.2) (l.zipIdx start) (l'.zipIdx start) := by
  induction h with
  | nil => exact fun _ => .nil
  | cons hab _ ih =>
      intro start
      rw [List.zipIdx_cons, List.zipIdx_cons]
      exact .cons ⟨hab, rfl⟩ (ih _)

/-- Related slots are filled at the same indices. -/
theorem map_isSome_slots {slots slots' : List (Option NodeId)}
    (h : List.Forall₂ (SlotRel R) slots slots') :
    slots.map Option.isSome = slots'.map Option.isSome := by
  induction h with
  | nil => rfl
  | cons hab _ ih =>
      rw [List.map_cons, List.map_cons, ih]
      cases hab <;> rfl

theorem join_rel {slot slot' : Option (Option NodeId)} (h : Option.Rel (SlotRel R) slot slot') :
    SlotRel R slot.join slot'.join := by
  cases h with
  | none => exact .none
  | some h => exact h

section fields
variable {f g : Field} (h : f.Alike R g)
include h

theorem Alike.at?_rel (index : Option ℕ) : SlotRel R (f.at? index) (g.at? index) := by
  cases h with
  | one hc => cases index with
    | none => exact hc
    | some _ => exact .none
  | many hs => cases index with
    | none => exact .none
    | some i => exact join_rel (getElem?_rel hs i)

theorem Alike.nextPresent?_eq (start : ℕ) : f.nextPresent? start = g.nextPresent? start := by
  cases h with
  | one _ => rfl
  | many hs =>
      have hpresent := map_isSome_slots hs
      have hfind : ∀ slots : List (Option NodeId), (slots.drop start).findIdx? Option.isSome =
          ((slots.map Option.isSome).drop start).findIdx? id := by
        intro slots
        rw [← List.map_drop, List.findIdx?_map, Function.id_comp]
      simp only [nextPresent?, hfind, hpresent]

theorem Alike.prevPresent?_eq (start : ℕ) : f.prevPresent? start = g.prevPresent? start := by
  cases h with
  | one _ => rfl
  | many hs =>
      have hpresent := map_isSome_slots hs
      have hlen := hs.length_eq
      have hfind : ∀ slots : List (Option NodeId),
          ((slots.take (start + 1)).reverse).findIdx? Option.isSome =
            (((slots.map Option.isSome).take (start + 1)).reverse).findIdx? id := by
        intro slots
        rw [← List.map_take, ← List.map_reverse, List.findIdx?_map, Function.id_comp]
      simp only [prevPresent?, hfind, hpresent, List.length_reverse, List.length_take, hlen]

theorem Alike.segments_rel (r : Role) :
    List.Forall₂ (StepRel R) (f.segments r) (g.segments r) := by
  cases h with
  | one hc => cases hc with
    | none => exact .nil
    | some hab => exact .cons ⟨rfl, hab⟩ .nil
  | many hs =>
      refine List.rel_filterMap ?_ (forall₂_zipIdx hs 0)
      rintro ⟨slot, i⟩ ⟨slot', _⟩ ⟨hslot, rfl⟩
      cases hslot with
      | none => exact .none
      | some hab => exact .some ⟨rfl, hab⟩

end fields

end Field

namespace Node

/-- Two nodes that differ in their children alone, and there by related ones. -/
structure Alike (R : NodeId → NodeId → Prop) (n m : Node) : Prop where
  form : n.form = m.form
  fields : List.Forall₂ (fun e e' => e.1 = e'.1 ∧ Field.Alike R e.2 e'.2) n.fields m.fields

/-- Entries under the same roles are found together. -/
theorem find?_rel {P : Field → Field → Prop} {l l' : List (Role × Field)}
    (h : List.Forall₂ (fun e e' => e.1 = e'.1 ∧ P e.2 e'.2) l l') (p : Role → Bool) :
    Option.Rel P ((l.find? fun e => p e.1).map Prod.snd)
      ((l'.find? fun e => p e.1).map Prod.snd) := by
  induction h with
  | nil => exact .none
  | cons he _ ih =>
      obtain ⟨hrole, hfield⟩ := he
      rw [List.find?_cons, List.find?_cons, ← hrole]
      split
      · exact .some hfield
      · exact ih

theorem lookup_eq_find? (l : List (Role × Field)) (r : Role) :
    l.lookup r = (l.find? fun e => r == e.1).map Prod.snd := by
  induction l with
  | nil => rfl
  | cons e l ih =>
      rw [List.lookup_cons, List.find?_cons, ih]
      cases r == e.1 <;> rfl

section nodes
variable {n m : Node} (h : n.Alike R m)
include h

theorem Alike.tag_eq : n.tag = m.tag := by rw [tag, tag, h.form]

theorem Alike.kind?_eq : n.kind? = m.kind? := by rw [kind?, kind?, h.form]

theorem Alike.field?_rel (r : Role) : Option.Rel (Field.Alike R) (n.field? r) (m.field? r) := by
  rw [field?, field?, lookup_eq_find?, lookup_eq_find?]
  exact find?_rel h.fields (r == ·)

theorem Alike.fieldNamed?_rel (name : String) :
    Option.Rel (Field.Alike R) (n.fieldNamed? name) (m.fieldNamed? name) :=
  find?_rel h.fields fun r => r.name == name

theorem Alike.child?_rel (r : Role) : SlotRel R (n.child? r) (m.child? r) := by
  unfold child?
  obtain ⟨hf, hg⟩ | ⟨f, g, hf, hg, hfg⟩ := cases_of_rel (h.field?_rel r)
  · rw [hf, hg]
    exact .none
  · rw [hf, hg]
    exact hfg.at?_rel none

theorem Alike.slots_rel (r : Role) : List.Forall₂ (SlotRel R) (n.slots r) (m.slots r) := by
  unfold slots
  obtain ⟨hf, hg⟩ | ⟨f, g, hf, hg, hfg⟩ := cases_of_rel (h.field?_rel r)
  · rw [hf, hg]
    exact .nil
  · rw [hf, hg]
    cases hfg with
    | one _ => exact .nil
    | many hs => exact hs

theorem Alike.at?_rel (s : Segment) : SlotRel R (n.at? s) (m.at? s) := by
  unfold at?
  obtain ⟨hf, hg⟩ | ⟨f, g, hf, hg, hfg⟩ := cases_of_rel (h.fieldNamed?_rel s.field)
  · rw [hf, hg]
    exact .none
  · rw [hf, hg]
    exact hfg.at?_rel s.index

theorem Alike.segments_rel : List.Forall₂ (StepRel R) n.segments m.segments := by
  refine List.rel_flatMap h.fields ?_
  rintro ⟨r, f⟩ ⟨_, g⟩ ⟨rfl, hfg⟩
  exact hfg.segments_rel r

theorem Alike.map_fst_segments : n.segments.map Prod.fst = m.segments.map Prod.fst := by
  have hrel := h.segments_rel
  generalize n.segments = l at hrel ⊢
  generalize m.segments = l' at hrel ⊢
  induction hrel with
  | nil => rfl
  | cons hcd _ ih => rw [List.map_cons, List.map_cons, hcd.1, ih]

end nodes

end Node

end alike

namespace Tree

/-! ### Renumberings -/

section renumbering
variable (t u : Tree) (σ : NodeId → NodeId)

/-- A place that the root reaches and its new number, or two places outside of the arenas. -/
def Counterpart (a b : NodeId) : Prop := (a ∈ t.order ∧ σ a = b) ∨ (¬ t.has a ∧ ¬ u.has b)

/-- The nodes that the root of `u` reaches are those that the root of `t` reaches, at other
places. -/
structure Renumbering : Prop where
  bijOn : Set.BijOn σ {id | id ∈ t.order} {id | id ∈ u.order}
  root : Counterpart t u σ t.root u.root
  node : ∀ id ∈ t.order,
    Option.Rel (Node.Alike (Counterpart t u σ)) (t.node? id) (u.node? (σ id))

end renumbering

theorem step?_of_node? (t : Tree) {id : NodeId} {n : Node} (hn : t.node? id = some n) (s : Segment) :
    t.step? id s = (n.at? s).filter t.has := by
  unfold step? Node.at?
  rw [hn]
  cases hf : n.fieldNamed? s.field with
  | none => simp [hf]
  | some f => cases hc : f.at? s.index <;> simp [hf, hc, Option.filter]

namespace Renumbering
variable {t u : Tree} {σ : NodeId → NodeId} {a b : NodeId}

theorem mem_order_of_step? {s : Segment} {c : NodeId} (ha : a ∈ t.order)
    (hs : t.step? a s = some c) : c ∈ t.order :=
  t.mem_order_of_child ha (t.mem_children_of_step? hs) (t.has_of_step? hs).2

theorem mem_order_of_has (hab : Counterpart t u σ a b) (ha : t.has a) : a ∈ t.order ∧ σ a = b :=
  hab.resolve_right fun hout => hout.1 ha

variable (h : Renumbering t u σ)
include h

theorem has_eq (hab : Counterpart t u σ a b) : t.has a = u.has b := by
  obtain ⟨ha, rfl⟩ | ⟨ha, hb⟩ := hab
  · rw [t.has_of_mem_order ha, u.has_of_mem_order (h.bijOn.mapsTo ha)]
  · rw [Bool.eq_false_iff.mpr ha, Bool.eq_false_iff.mpr hb]

theorem node?_rel (hab : Counterpart t u σ a b) :
    Option.Rel (Node.Alike (Counterpart t u σ)) (t.node? a) (u.node? b) := by
  obtain ⟨ha, rfl⟩ | ⟨ha, hb⟩ := hab
  · exact h.node a ha
  · rw [← t.isSome_node?_iff, Option.not_isSome_iff_eq_none] at ha
    rw [← u.isSome_node?_iff, Option.not_isSome_iff_eq_none] at hb
    rw [ha, hb]
    exact .none

/-- A node that the root reaches, and its counterpart. -/
theorem exists_alike (ha : a ∈ t.order) : ∃ n m, t.node? a = some n ∧ u.node? (σ a) = some m ∧
    n.Alike (Counterpart t u σ) m := by
  obtain ⟨hnone, -⟩ | hnodes := cases_of_rel (h.node a ha)
  · obtain ⟨n, hn⟩ := t.exists_node? (t.has_of_mem_order ha)
    exact absurd (hn.symm.trans hnone) (Option.some_ne_none n)
  · exact hnodes

/-- A slot holds a child of the arena exactly if its counterpart does. -/
theorem filter_has {slot slot' : Option NodeId} (hslot : SlotRel (Counterpart t u σ) slot slot') :
    slot'.filter u.has = (slot.filter t.has).map σ := by
  cases hslot with
  | none => rfl
  | some hcd =>
      rw [Option.filter_some, Option.filter_some, ← h.has_eq hcd]
      split
      · rename_i hhas
        rw [Option.map_some, (mem_order_of_has hcd hhas).2]
      · rfl

/-! ### Steps and paths -/

theorem step? (ha : a ∈ t.order) (s : Segment) : u.step? (σ a) s = (t.step? a s).map σ := by
  obtain ⟨n, m, hn, hm, hnm⟩ := h.exists_alike ha
  rw [step?_of_node? t hn, step?_of_node? u hm, h.filter_has (hnm.at?_rel s)]

theorem follow? (p : Path) : ∀ {a : NodeId}, a ∈ t.order →
    u.follow? (σ a) p = (t.follow? a p).map σ := by
  induction p with
  | nil => exact fun _ => rfl
  | cons s p ih =>
      intro a ha
      rw [t.follow?_cons, u.follow?_cons, h.step? ha s]
      cases hs : t.step? a s with
      | none => rfl
      | some c => exact ih (mem_order_of_step? ha hs)

theorem resolve (p : Path) : u.resolve p = (t.resolve p).map σ := by
  unfold Tree.resolve
  rw [← h.has_eq h.root]
  split
  · rename_i hroot
    obtain ⟨hmem, heq⟩ := mem_order_of_has h.root hroot
    rw [← heq, h.follow? p hmem]
  · rfl

/-- A cycle among the new places would be one among the old. -/
theorem acyclicFrom (hacyclic : t.AcyclicFrom t.root) : u.AcyclicFrom u.root := by
  intro p q c hp hq
  obtain ⟨hroot, heq⟩ | ⟨-, hout⟩ := h.root
  · rw [← heq, h.follow? p hroot] at hp
    obtain ⟨c, hc, rfl⟩ := Option.map_eq_some_iff.mp hp
    have hcmem : c ∈ t.order := t.mem_order_of_resolve (p := p)
      (by rw [t.resolve_eq_follow? (t.has_of_mem_order hroot), hc])
    rw [h.follow? q hcmem] at hq
    obtain ⟨d, hd, hdc⟩ := Option.map_eq_some_iff.mp hq
    have hdmem : d ∈ t.order := t.mem_order_of_resolve (p := p ++ q)
      (by rw [t.resolve_eq_follow? (t.has_of_mem_order hroot), t.follow?_append, hc]; exact hd)
    obtain rfl := h.bijOn.injOn hdmem hcmem hdc
    exact hacyclic p q d hc hd
  · -- A root outside of the arena has no step.
    have hstep : ∀ s, u.step? u.root s = none := by
      intro s
      rw [Option.eq_none_iff_forall_ne_some]
      exact fun d hd => hout (u.has_of_step? hd).1
    have hstay : ∀ {r : Path} {d : NodeId}, u.follow? u.root r = some d → r = [] ∧ d = u.root := by
      intro r d hr
      cases r with
      | nil => exact ⟨rfl, (Option.some.inj hr).symm⟩
      | cons s r => rw [u.follow?_cons, hstep] at hr; cases hr
    obtain ⟨-, rfl⟩ := hstay hp
    exact (hstay hq).1

/-! ### Moves -/

theorem descent? (ha : a ∈ t.order) : u.descent? (σ a) = t.descent? a := by
  obtain ⟨n, m, hn, hm, hnm⟩ := h.exists_alike ha
  unfold Tree.descent?
  rw [hn, hm]
  simp only [Option.bind_eq_bind, Option.bind_some, ← hnm.form]
  cases n.form.primary with
  | none => rfl
  | some r =>
      simp only [Option.bind_some]
      obtain ⟨hf, hg⟩ | ⟨f, g, hf, hg, hfg⟩ := cases_of_rel (hnm.field?_rel r)
      · rw [hf, hg]
        rfl
      · rw [hf, hg]
        cases hfg with
        | one hc => cases hc with
          | none =>
              have hhead : n.segments.head?.map Prod.fst = m.segments.head?.map Prod.fst := by
                rw [← List.head?_map, ← List.head?_map, hnm.map_fst_segments]
              exact hhead.symm
          | some _ => rfl
        | many hs =>
            simp only [Option.bind_some, (Field.Alike.many hs).nextPresent?_eq]

theorem sidestep? (p : Path) (forward : Bool) : u.sidestep? p forward = t.sidestep? p forward := by
  unfold Tree.sidestep?
  cases lastIndexed? p with
  | none => rfl
  | some split =>
      obtain ⟨before, name, i⟩ := split
      simp only [Option.bind_eq_bind, Option.bind_some, h.resolve]
      cases howner : t.resolve before with
      | none => rfl
      | some owner =>
          obtain ⟨n, m, hn, hm, hnm⟩ := h.exists_alike (t.mem_order_of_resolve howner)
          simp only [Option.map_some, Option.bind_some, hn, hm]
          obtain ⟨hf, hg⟩ | ⟨f, g, hf, hg, hfg⟩ := cases_of_rel (hnm.fieldNamed?_rel name)
          · rw [hf, hg]
          · simp only [hf, hg, Option.bind_some, hfg.nextPresent?_eq, hfg.prevPresent?_eq]

theorem move (p : Path) (d : Direction) : u.move p d = t.move p d := by
  unfold Tree.move
  rw [h.resolve]
  cases hid : t.resolve p with
  | none => rfl
  | some id =>
      cases d with
      | up => rfl
      | down => simp only [Option.map_some, h.descent? (t.mem_order_of_resolve hid)]
      | next => simp only [Option.map_some, h.sidestep?]
      | prev => simp only [Option.map_some, h.sidestep?]

end Renumbering

end Tree

end SyntaxLens
