import SyntaxLens.Fragment.Layout
import SyntaxLens.Format.Tag
import SyntaxLens.Proofs.Rendering.Labels
import SyntaxLens.Proofs.Tree.Renumbering

/-! # Rendering and renumbered arenas

The plan of a node names its children by their places and says everything else without them.  So the
plan of its counterpart in a renumbered arena shows the same, but for the places
(`Renumbering.planFor?`), and a tree and its renumbering are rendered alike (`Renumbering.render`).
The places are kept in the marks of a fragment, and neither its text nor its markup shows them. -/

namespace SyntaxLens

namespace Fragment

mutual

/-- The fragment with new places in its marks. -/
def renumber (σ : NodeId → NodeId) : Fragment → Fragment
  | .leaf l => .leaf l
  | .composite flow mark children =>
    .composite flow (mark.map fun m => { m with id := σ m.id }) (renumberAll σ children)

def renumberAll (σ : NodeId → NodeId) : List Fragment → List Fragment
  | [] => []
  | f :: rest => renumber σ f :: renumberAll σ rest

end

section renumber
variable (σ : NodeId → NodeId)

theorem renumberAll_append (a b : List Fragment) :
    renumberAll σ (a ++ b) = renumberAll σ a ++ renumberAll σ b := by
  induction a with
  | nil => rfl
  | cons f a ih => rw [List.cons_append, renumberAll, ih, renumberAll, List.cons_append]

theorem renumber_continued (f : Fragment) :
    f.continued.renumber σ = (f.renumber σ).continued := by
  cases f <;> rfl

/-! ### Printing -/

mutual

theorem print_renumber (c : Layout.Context) : ∀ (f : Fragment) (s : Layout.State),
    Layout.print c (f.renumber σ) s = Layout.print c f s
  | .leaf _, _ => rfl
  | .composite flow none children, s => by
      cases children with
      | nil => rfl
      | cons f rest =>
          have hall := fun c k s => printAll_renumber c k true (f :: rest) s
          rw [renumberAll] at hall
          simp only [renumber, renumberAll, Layout.print, Option.map_none, List.isEmpty_cons, hall]
  | .composite flow (some m) children, s => by
      simp only [renumber, Layout.print, Option.map_some, Option.isNone_some, Bool.false_and,
        printAll_renumber]

theorem printAll_renumber (c : Layout.Context) (k : Layout.Cohesion) (first : Bool) :
    ∀ (fs : List Fragment) (s : Layout.State),
      Layout.printAll c k first (renumberAll σ fs) s = Layout.printAll c k first fs s
  | [], _ => rfl
  | f :: rest, s => by
      have hattaches : k.attaches (f.renumber σ) = k.attaches f := by cases f <;> rfl
      rw [renumberAll, Layout.printAll, Layout.printAll, hattaches, print_renumber,
        printAll_renumber]

end

theorem layout_renumber (unit : String) (f : Fragment) :
    (f.renumber σ).layout unit = f.layout unit := by
  rw [layout, layout, print_renumber]

theorem toText_renumber (unit : String) (f : Fragment) :
    (f.renumber σ).toText unit = f.toText unit := by
  rw [toText, toText, layout_renumber]

theorem opening_renumber (flow : Flow) (mark : Option Mark) :
    Markup.opening flow (mark.map fun m => { m with id := σ m.id }) = Markup.opening flow mark := by
  cases mark <;> rfl

theorem name_renumber (mark : Option Mark) :
    Markup.name (mark.map fun m => { m with id := σ m.id }) = Markup.name mark := by
  cases mark <;> rfl

mutual

theorem write_renumber (level : ℕ) : ∀ f : Fragment,
    Markup.write level (f.renumber σ) = Markup.write level f
  | .leaf _ => rfl
  | .composite flow mark [] => by
      rw [renumber, renumberAll, Markup.write, Markup.write, opening_renumber]
  | .composite flow mark (f :: rest) => by
      have hall := writeAll_renumber (level + 1) (f :: rest)
      rw [renumberAll] at hall
      rw [renumber, renumberAll, Markup.write, Markup.write, opening_renumber, name_renumber, hall]

theorem writeAll_renumber (level : ℕ) : ∀ fs : List Fragment,
    Markup.writeAll level (renumberAll σ fs) = Markup.writeAll level fs
  | [] => rfl
  | f :: rest => by
      rw [renumberAll, Markup.writeAll, Markup.writeAll, write_renumber, writeAll_renumber]

end

theorem toMarkup_renumber (f : Fragment) : (f.renumber σ).toMarkup = f.toMarkup := by
  rw [toMarkup, toMarkup, write_renumber]

end renumber

end Fragment

namespace Rendering

/-! ### Plans -/

/-- Visits parts as if their children were at new places. -/
def Visitor.moved {α : Type} (V : Visitor α) (σ : NodeId → NodeId) : Visitor α where
  leaf := V.leaf
  child s id := V.child s (σ id)
  group := V.group

section moved
variable {α : Type} (V : Visitor α) (σ : NodeId → NodeId)

@[simp] theorem moved_leaf (l : Leaf) : (V.moved σ).leaf l = V.leaf l := rfl

@[simp] theorem moved_child (s : Segment) (id : NodeId) (table : Table) (continued : Bool) :
    (V.moved σ).child s id table continued = V.child s (σ id) table continued := rfl

@[simp] theorem moved_group (flow : Flow) (parts : List Part) (inner : List α) :
    (V.moved σ).group flow parts inner = V.group flow parts inner := rfl

/-- What a plan gives. -/
def Plan.visit (plan : Plan) : Flow × List α := (plan.flow, V.all plan.parts)

@[simp] theorem visit_mk (flow : Flow) (parts : List Part) :
    (Plan.mk flow parts).visit V = (flow, V.all parts) := rfl

@[simp] theorem visit_inline (parts : List Part) :
    (inline parts).visit V = (.inline, V.all parts) := rfl

@[simp] theorem visit_block (parts : List Part) :
    (block parts).visit V = (.block, V.all parts) := rfl

@[simp] theorem visit_text (kind : LeafClass) (text : String) :
    (Rendering.text kind text).visit V = (.inline, V.leaf ⟨kind, text⟩) := by
  simp [Rendering.text]

end moved

end Rendering

namespace Tree.Renumbering

open Rendering

variable {t u : Tree} {σ : NodeId → NodeId} (h : Renumbering t u σ)
  {child : Table → Path → NodeId → Option Fragment} {path : Path}
include h

theorem part_slot {slot slot' : Option NodeId} (table : Table)
    (hslot : SlotRel (Counterpart t u σ) slot slot') (s : Segment) :
    (shows child path).part ((slotPart? u s slot' table).getD hole) =
      ((shows child path).moved σ).part ((slotPart? t s slot table).getD hole) := by
  cases hslot with
  | none => rfl
  | some hab =>
      unfold slotPart?
      simp only [← h.has_eq hab]
      split
      · rename_i ha
        rw [← (mem_order_of_has hab ha).2]
        rfl
      · rfl

section children
variable {n m : Node} (hnm : n.Alike (Counterpart t u σ) m) (r : Role) (table : Table)
include hnm

theorem present_one : present u m r.one = (present t n r.one).map fun c => (c.1, σ c.2) := by
  rw [Rendering.present_one, Rendering.present_one, h.filter_has (hnm.child?_rel r)]
  cases (n.child? r).filter t.has <;> rfl

theorem slotDrawn (i : ℕ) :
    Rendering.slotDrawn u m r i = (Rendering.slotDrawn t n r i).map fun c => (c.1, σ c.2) := by
  unfold Rendering.slotDrawn
  rw [h.filter_has (Field.join_rel (getElem?_rel (hnm.slots_rel r) i))]
  cases (n.slots r)[i]?.join.filter t.has <;> rfl

theorem present_many : present u m r.many = (present t n r.many).map fun c => (c.1, σ c.2) := by
  rw [Rendering.present_many, Rendering.present_many, ← (hnm.slots_rel r).length_eq,
    List.map_flatMap]
  exact List.flatMap_congr fun i _ => h.slotDrawn hnm r i

theorem part_commasAt (indices : List ℕ) :
    (shows child path).part (commasAt u m r indices table) =
      ((shows child path).moved σ).part (commasAt t n r indices table) := by
  obtain ⟨_, hu⟩ := (shows child path).part_commasAt u m r table indices
  obtain ⟨_, ht⟩ := ((shows child path).moved σ).part_commasAt t n r table indices
  rw [hu, ht, shows_group, moved_group, shows_group, moved_leaf]
  congr 3
  refine List.map_congr_left fun i _ => ?_
  exact h.part_slot table (Field.join_rel (getElem?_rel (hnm.slots_rel r) i)) _

theorem part_commas : (shows child path).part (commas u m r table) =
    ((shows child path).moved σ).part (commas t n r table) := by
  rw [commas, commas, ← (hnm.slots_rel r).length_eq, h.part_commasAt hnm]

theorem childForm? : u.childForm? m r = t.childForm? n r := by
  unfold Tree.childForm?
  obtain ⟨ha, hb⟩ | ⟨a, b, ha, hb, hab⟩ := cases_of_rel (hnm.child?_rel r)
  · rw [ha, hb]
    rfl
  · rw [ha, hb, Option.bind_some, Option.bind_some]
    obtain ⟨hk, hl⟩ | ⟨k, l, hk, hl, hkl⟩ := cases_of_rel (h.node?_rel hab)
    · rw [hk, hl]
    · rw [hk, hl, Option.map_some, Option.map_some, hkl.form]

theorem nameOf? : Rendering.nameOf? u m r = Rendering.nameOf? t n r := by
  rw [Rendering.nameOf?, Rendering.nameOf?, h.childForm? hnm]

theorem kindOf? : Rendering.kindOf? u m r = Rendering.kindOf? t n r := by
  rw [Rendering.kindOf?, Rendering.kindOf?, h.childForm? hnm]

theorem hasChild : Rendering.hasChild u m r = Rendering.hasChild t n r := by
  rw [Rendering.hasChild, Rendering.hasChild, h.childForm? hnm]

end children

/-! ### Rules -/

section rules
variable {n m : Node} (hnm : n.Alike (Counterpart t u σ) m)

theorem isNamed {slot slot' : Option NodeId} (hslot : SlotRel (Counterpart t u σ) slot slot') :
    Rendering.isNamed u slot' = Rendering.isNamed t slot := by
  cases hslot with
  | none => rfl
  | some hab =>
      unfold Rendering.isNamed
      rw [Option.bind_some, Option.bind_some]
      obtain ⟨hk, hl⟩ | ⟨k, l, hk, hl, hkl⟩ := cases_of_rel (h.node?_rel hab)
      · rw [hk, hl]
      · rw [hk, hl, Option.bind_some, Option.bind_some, hkl.kind?_eq]

include hnm

theorem specifiers (named : Bool) :
    Rendering.specifiers u m named = Rendering.specifiers t n named := by
  have hslot (i : ℕ) := Field.join_rel (getElem?_rel (hnm.slots_rel .specifiers) i)
  have hfilled : filled m = filled n := by
    funext i
    unfold filled
    obtain ⟨ha, hb⟩ | ⟨a, b, ha, hb, -⟩ := cases_of_rel (hslot i) <;> simp [ha, hb]
  simp only [specifiers_eq_filter, hfilled, ← (hnm.slots_rel .specifiers).length_eq,
    fun i => h.isNamed (hslot i)]

theorem mainRule? (kind : Kind) (traits : kind.Traits) :
    (Rendering.mainRule? u m kind traits).map (Plan.visit (shows child path)) =
      (Rendering.mainRule? t n kind traits).map (Plan.visit ((shows child path).moved σ)) := by
  cases kind <;> dsimp only [Kind.Traits] at traits <;>
    simp [Rendering.mainRule?, h.present_one hnm, h.present_many hnm, h.hasChild hnm,
      h.part_commas hnm, List.flatMap_map, Visitor.all_led, operator, regExp, blockStatement,
      guarded, sentence, labeled, ifStatement, switchStatement, switchCase, tryStatement,
      catchClause, doWhile, forStatement, forEach, arrow, yield, prefixed, array, object, function,
      unary, operation, spread, member, Rendering.bind, conditional, call, classOf]

theorem declarationRule? (kind : Kind) (traits : kind.Traits) :
    (Rendering.declarationRule? u m kind traits).map (Plan.visit (shows child path)) =
      (Rendering.declarationRule? t n kind traits).map
        (Plan.visit ((shows child path).moved σ)) := by
  cases kind <;> dsimp only [Kind.Traits] at traits <;>
    simp [Rendering.declarationRule?, h.present_one hnm, h.present_many hnm, h.hasChild hnm,
      h.part_commas hnm, List.flatMap_map, Visitor.all_led, function, declared, declarator, classOf]

theorem patternRule? (kind : Kind) (traits : kind.Traits) :
    (Rendering.patternRule? u m kind traits).map (Plan.visit (shows child path)) =
      (Rendering.patternRule? t n kind traits).map (Plan.visit ((shows child path).moved σ)) := by
  cases kind <;> dsimp only [Kind.Traits] at traits <;>
    simp [Rendering.patternRule?, h.present_one hnm, h.part_commas hnm, List.flatMap_map, object,
      array, spread]

theorem moduleRule? (kind : Kind) (traits : kind.Traits) :
    (Rendering.moduleRule? u m kind traits).map (Plan.visit (shows child path)) =
      (Rendering.moduleRule? t n kind traits).map (Plan.visit ((shows child path).moved σ)) := by
  cases kind <;> dsimp only [Kind.Traits] at traits <;>
    simp [Rendering.moduleRule?, h.present_one hnm, h.hasChild hnm, h.nameOf? hnm, h.kindOf? hnm,
      h.specifiers hnm, h.part_commas hnm, h.part_commasAt hnm, List.flatMap_map, Visitor.all_led,
      importDeclaration, renamed, exportNamed, exportDefault, apply_ite (Plan.visit (shows child path)),
      apply_ite (Plan.visit ((shows child path).moved σ))]

theorem objectMemberRule? (kind : Kind) (traits : kind.Traits) :
    (Rendering.objectMemberRule? u m kind traits).map (Plan.visit (shows child path)) =
      (Rendering.objectMemberRule? t n kind traits).map
        (Plan.visit ((shows child path).moved σ)) := by
  cases kind <;> dsimp only [Kind.Traits] at traits <;>
    simp [Rendering.objectMemberRule?, h.present_one hnm, h.present_many hnm, h.hasChild hnm,
      h.nameOf? hnm, h.part_commas hnm, List.flatMap_map, Visitor.all_accessor, objectProperty,
      method, spread]

theorem classMemberRule? (kind : Kind) (traits : kind.Traits) :
    (Rendering.classMemberRule? u m kind traits).map (Plan.visit (shows child path)) =
      (Rendering.classMemberRule? t n kind traits).map
        (Plan.visit ((shows child path).moved σ)) := by
  cases kind <;> dsimp only [Kind.Traits] at traits <;>
    simp [Rendering.classMemberRule?, h.present_one hnm, h.present_many hnm, h.hasChild hnm,
      h.part_commas hnm, List.flatMap_map, Visitor.all_led, Visitor.all_accessor, method,
      classMethod, classProperty]

theorem loopHeadRule? (kind : Kind) (traits : kind.Traits) :
    (Rendering.loopHeadRule? u m kind traits).map (Plan.visit (shows child path)) =
      (Rendering.loopHeadRule? t n kind traits).map (Plan.visit ((shows child path).moved σ)) := by
  cases kind <;> dsimp only [Kind.Traits] at traits <;>
    simp [Rendering.loopHeadRule?, h.part_commas hnm, declared]

/-- Whichever table has the rule, it shows the same of a node and of its counterpart. -/
theorem rule? (table : Table) (form : Form) :
    (Rendering.rule? u m table form).map (Plan.visit (shows child path)) =
      (Rendering.rule? t n table form).map (Plan.visit ((shows child path).moved σ)) := by
  cases form with
  | unknown tag => cases table <;> rfl
  | known kind traits =>
      match table with
      | .main => exact h.mainRule? hnm kind traits
      | .loopHead => exact h.loopHeadRule? hnm kind traits
      | .family .declaration => exact h.declarationRule? hnm kind traits
      | .family .pattern => exact h.patternRule? hnm kind traits
      | .family .moduleClause => exact h.moduleRule? hnm kind traits
      | .family .objectMember => exact h.objectMemberRule? hnm kind traits
      | .family .classMember => exact h.classMemberRule? hnm kind traits

theorem planFor? (table : Table) :
    (Rendering.planFor? u m table).map (Plan.visit (shows child path)) =
      (Rendering.planFor? t n table).map (Plan.visit ((shows child path).moved σ)) := by
  have hwithin : ∀ (hops : ℕ) (table : Table),
      (Rendering.planWithin? u m hops table).map (Plan.visit (shows child path)) =
        (Rendering.planWithin? t n hops table).map
          (Plan.visit ((shows child path).moved σ)) := by
    intro hops
    induction hops with
    | zero =>
        intro table
        rw [planWithin?, planWithin?, ← hnm.form, h.rule? hnm]
    | succ hops ih =>
        intro table
        have hrule : (Rendering.rule? u m table n.form).map (Plan.visit (shows child path)) = _ :=
          h.rule? hnm table n.form
        rw [planWithin?, planWithin?, ← hnm.form]
        cases ht : Rendering.rule? t n table n.form with
        | none =>
            rw [ht, Option.map_none, Option.map_eq_none_iff] at hrule
            rw [hrule]
            exact ih _
        | some plan =>
            rw [ht] at hrule
            obtain ⟨plan', hplan', hvisit⟩ := Option.map_eq_some_iff.mp hrule
            rw [hplan']
            exact congrArg some hvisit
  exact hwithin 2 table

end rules

end Tree.Renumbering

/-! ### Fragments -/

namespace Rendering

/-- Children at new places that are shown as renumbered ones make renumbered parts. -/
theorem renumberAll_displayAll {child child' : Table → Path → NodeId → Option Fragment}
    (σ : NodeId → NodeId) (path : Path) (parts : List Part)
    (h : ∀ c ∈ calls.all parts, child' c.table (path ++ [c.segment]) (σ c.id) =
      (child c.table (path ++ [c.segment]) c.id).map (Fragment.renumber σ)) :
    Fragment.renumberAll σ (displayAll child path parts) =
      ((shows child' path).moved σ).all parts := by
  rw [displayAll_eq]
  refine Visitor.map_all rfl (Fragment.renumberAll_append σ) (fun _ => rfl) (fun _ _ _ => rfl)
    parts fun c hc => ?_
  simp only [moved_child, shows, display, h c hc]
  cases child c.table (path ++ [c.segment]) c.id with
  | none => rfl
  | some f =>
      cases c.continued with
      | false => rfl
      | true => simp [Fragment.renumberAll, Fragment.renumber_continued]

end Rendering

namespace Tree

theorem renderRoot_eq (t : Tree) (focus : Option Path) :
    t.renderRoot focus = Rendering.renderAt t focus t.size .main [] t.root := by
  unfold renderRoot
  by_cases hroot : t.has t.root
  · exact render_of_pathOf? (t.pathOf?_root hroot) focus
  · have hnode := hroot
    rw [← t.isSome_node?_iff, Option.not_isSome_iff_eq_none] at hnode
    have hpath : t.pathOf? t.root = none := by rw [pathOf?, if_neg hroot]
    rw [render_of_pathOf?_eq_none hpath focus, Rendering.renderAt_of_node?_eq_none hnode,
      Rendering.renderAt_of_node?_eq_none hnode]

namespace Renumbering

variable {t u : Tree} {σ : NodeId → NodeId} (h : Renumbering t u σ)
include h

theorem renderAt (focus : Option Path) (depth : ℕ) : ∀ {a : NodeId}, a ∈ t.order →
    ∀ (table : Table) (path : Path), Rendering.renderAt u focus depth table path (σ a) =
      (Rendering.renderAt t focus depth table path a).map (Fragment.renumber σ) := by
  induction depth with
  | zero => exact fun _ _ _ => rfl
  | succ depth ih =>
      intro a ha table path
      obtain ⟨n, m, hn, hm, hnm⟩ := h.exists_alike ha
      obtain ⟨plan, hplan⟩ := Rendering.exists_planFor? t n table
      obtain ⟨plan', hplan'⟩ := Rendering.exists_planFor? u m table
      have hcalls : ∀ c ∈ Rendering.calls.all plan.parts,
          Rendering.renderAt u focus depth c.table (path ++ [c.segment]) (σ c.id) =
            (Rendering.renderAt t focus depth c.table (path ++ [c.segment]) c.id).map
              (Fragment.renumber σ) := by
        intro c hc
        have hstep := Rendering.step?_of_mem_drawn hn (Rendering.mem_drawn_of_mem_calls hplan hc)
        exact ih (mem_order_of_step? ha hstep) c.table (path ++ [c.segment])
      have hvisit : (Rendering.planFor? u m table).map
          (Rendering.Plan.visit (Rendering.shows (Rendering.renderAt u focus depth) path)) = _ :=
        h.planFor? hnm table
      rw [hplan, hplan', Option.map_some, Option.map_some, Option.some_inj] at hvisit
      obtain ⟨hflow, hparts⟩ := Prod.mk.inj hvisit
      rw [← Rendering.displayAll_eq, ← Rendering.renumberAll_displayAll σ path _ hcalls] at hparts
      rw [Rendering.renderAt_of_node? hn hplan, Rendering.renderAt_of_node? hm hplan',
        ← hnm.tag_eq, hparts, hflow]
      rfl

/-- Without a cycle, the sizes of the arenas do not show. -/
theorem renderRoot (hacyclic : t.AcyclicFrom t.root) (focus : Option Path) :
    u.renderRoot focus = (t.renderRoot focus).map (Fragment.renumber σ) := by
  rw [t.renderRoot_eq, u.renderRoot_eq]
  obtain ⟨hroot, heq⟩ | ⟨hout, hout'⟩ := h.root
  · have hu := Rendering.renderAt_eq_of_size_le (h.acyclicFrom hacyclic) focus
      (Nat.le_max_right t.size u.size) .main []
    have ht := Rendering.renderAt_eq_of_size_le hacyclic focus
      (Nat.le_max_left t.size u.size) .main []
    rw [← hu, ← ht, ← heq, h.renderAt focus _ hroot]
  · rw [← t.isSome_node?_iff, Option.not_isSome_iff_eq_none] at hout
    rw [← u.isSome_node?_iff, Option.not_isSome_iff_eq_none] at hout'
    rw [Rendering.renderAt_of_node?_eq_none hout, Rendering.renderAt_of_node?_eq_none hout',
      Option.map_none]

end Renumbering

end Tree

end SyntaxLens
