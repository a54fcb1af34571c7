import SyntaxLens.Proofs.Rendering.Coverage
import SyntaxLens.Proofs.Rendering.Tables

/-! # The order of a rendering

The nodes directly below a node stand in the order of the slots of that node, but an import groups
its specifiers; and a list with commas tells how long the list of slots is and which are empty
(`Document.load_source_order`).

* **Slots.**  `Node.segments` goes through the slots in their order (`Node.segments_before`).
* **Nodes below.**  The outermost nodes in what parts show are the children that the parts draw
  (`Rendering.outermostAll_displayAll`), and a plan draws them in order (`planFor?_displays`).
* **Lists.**  A plan has no more than one list, which is that of the role `listRole?`
  (`Rendering.planFor?_lists`), and shows it as commas between elements and holes
  (`Rendering.lists_displayAll`). -/

namespace SyntaxLens

/-! ### The order of slots -/

namespace Node

variable (n : Node)

/-- One slot comes before another: its field does, or both are in one list, at increasing
indices. -/
def Before (a b : Segment) : Prop :=
  let names := n.fields.map fun entry => entry.1.name
  names.idxOf a.field < names.idxOf b.field ∨
    a.field = b.field ∧ ∃ i j, a.index = some i ∧ b.index = some j ∧ i < j

variable {n} in
theorem Before.of_index {name : String} {i j : ℕ} (h : i < j) :
    n.Before ⟨name, some i⟩ ⟨name, some j⟩ := .inr ⟨rfl, i, j, rfl, rfl, h⟩

theorem field_of_mem_segments {r : Role} {f : Field} {c : Segment × NodeId}
    (h : c ∈ f.segments r) : c.1.field = r.name := ((f.mem_segments_iff r c.1 c.2).mp h).1

theorem segments_before : n.segments.Pairwise fun c d => n.Before c.1 d.1 := by
  rw [segments, List.pairwise_flatMap]
  constructor
  · rintro ⟨r, f⟩ -
    cases f with
    | one child => cases child <;> simp [Field.segments]
    | many slots =>
        have hindices : slots.zipIdx.Pairwise fun a b => a.2 < b.2 := by
          rw [List.pairwise_iff_getElem]
          intro i j hi hj hij
          simpa using hij
        refine List.pairwise_filterMap.mpr (hindices.imp fun {a b} hab c hc d hd => ?_)
        obtain ⟨_, -, rfl⟩ := Option.map_eq_some_iff.mp hc
        obtain ⟨_, -, rfl⟩ := Option.map_eq_some_iff.mp hd
        exact .of_index hab
  · rw [List.pairwise_iff_getElem]
    intro i j hi hj hij c hc d hd
    have hname : ∀ k (hk : k < n.fields.length),
        (n.fields.map fun entry => entry.1.name).idxOf (n.fields[k]).1.name = k := by
      intro k hk
      have hget := n.names_nodup.idxOf_getElem k (by simpa using hk)
      rwa [List.getElem_map] at hget
    left
    rw [field_of_mem_segments hc, field_of_mem_segments hd, hname i hi, hname j hj]
    exact hij

end Node

namespace Fragment

/-! ### Nodes below a node -/

mutual

/-- The marks of the first nodes on the way into a fragment: its own, or those in its parts if it
only groups these. -/
def outermost : Fragment → List Mark
  | .leaf _ => []
  | .composite _ (some m) _ => [m]
  | .composite _ none children => outermostAll children

def outermostAll : List Fragment → List Mark
  | [] => []
  | f :: rest => outermost f ++ outermostAll rest

end

def children : Fragment → List Fragment
  | .leaf _ => []
  | .composite _ _ children => children

/-- The marks of the nodes directly below a composite, anonymous groups aside. -/
def nodesBelow (f : Fragment) : List Mark := outermostAll f.children

theorem outermostAll_append (a b : List Fragment) :
    outermostAll (a ++ b) = outermostAll a ++ outermostAll b := by
  induction a with
  | nil => rfl
  | cons f a ih => rw [List.cons_append, outermostAll, ih, outermostAll, List.append_assoc]

theorem outermostAll_of_mark? {f : Fragment} {m : Mark} (h : f.mark? = some m) :
    outermostAll [f] = [m] := by
  cases f with
  | leaf _ => cases h
  | composite _ mark _ =>
      obtain rfl : mark = some m := h
      rfl

/-! ### Lists -/

/-- Whether a fragment is a group that stays on the line. -/
def isInlineGroup : Fragment → Bool
  | .composite .inline none _ => true
  | _ => false

/-- The fragments show the slots of a list: a node for each that is filled and a hole for each that
is empty, with commas between. -/
structure Lists (fs : List Fragment) (path : Path) (r : Role) (slots : List (Option NodeId)) :
    Prop where
  length_eq : fs.length = 2 * slots.length - 1
  comma : ∀ i, 2 * i + 1 < fs.length → fs[2 * i + 1]? = some (.leaf ⟨.punctuation, ","⟩)
  element : ∀ i id, slots[i]? = some (some id) → ∃ g m, fs[2 * i]? = some g ∧
    g.mark? = some m ∧ m.path = path ++ [.element r i] ∧ m.id = id
  hole : ∀ i, slots[i]? = some none → fs[2 * i]? = some hole

/-- The slots read back from the fragments that show them. -/
def readSlots (fs : List Fragment) : List (Option NodeId) :=
  (List.range ((fs.length + 1) / 2)).map fun i => (fs[2 * i]?.bind mark?).map Mark.id

theorem Lists.readSlots_eq {fs : List Fragment} {path : Path} {r : Role}
    {slots : List (Option NodeId)} (h : Lists fs path r slots) : readSlots fs = slots := by
  have hlength : (fs.length + 1) / 2 = slots.length := by
    have hfs := h.length_eq
    omega
  rw [readSlots, hlength]
  refine List.ext_getElem (by simp) fun i hi hi' => ?_
  rw [List.getElem_map, List.getElem_range]
  cases hslot : slots[i] with
  | none =>
      rw [h.hole i (by rw [List.getElem?_eq_getElem hi', hslot])]
      rfl
  | some id =>
      obtain ⟨g, m, hg, hm, -, rfl⟩ :=
        h.element i id (by rw [List.getElem?_eq_getElem hi', hslot])
      rw [hg, Option.bind_some, hm, Option.map_some]

end Fragment

/-- The place of a node in a rendering. -/
def Mark.place (m : Mark) : Path × NodeId := (m.path, m.id)

namespace Rendering

/-! ### Lists of parts -/

/-- The list that nodes of a kind show with commas between its elements. -/
def listRole? : Kind → Option Role
  | .arrayExpression | .arrayPattern => some .elements
  | .objectExpression | .objectPattern => some .properties
  | .functionDeclaration | .functionExpression | .arrowFunctionExpression | .objectMethod
  | .classMethod => some .params
  | .callExpression | .newExpression => some .arguments
  | .sequenceExpression => some .expressions
  | .variableDeclaration => some .declarations
  | .exportNamedDeclaration => some .specifiers
  | _ => none

/-- The table that the elements of this list are rendered through. -/
def listTable : Kind → Table
  | .objectExpression | .objectPattern => objectMember
  | .arrayPattern | .functionDeclaration | .functionExpression | .arrowFunctionExpression
  | .objectMethod | .classMethod => pattern
  | .variableDeclaration => declaration
  | .exportNamedDeclaration => moduleClause
  | _ => .main

/-- Takes the groups that stay on the line, as they are. -/
def lists : Visitor Part where
  leaf _ := []
  child _ _ _ _ := []
  group flow parts _ := match flow with
    | .inline => [.group .inline parts]
    | .block => []

instance : lists.Quiet := ⟨fun _ _ _ => rfl⟩

@[simp] theorem lists_leaf (l : Leaf) : lists.leaf l = [] := rfl

@[simp] theorem lists_child (s : Segment) (id : NodeId) (table : Table) (continued : Bool) :
    lists.child s id table continued = [] := rfl

@[simp] theorem lists_block (parts inner : List Part) : lists.group .block parts inner = [] := rfl

@[simp] theorem lists_commas (t : Tree) (n : Node) (r : Role) (table : Table) :
    lists.part (commas t n r table) = [commas t n r table] := rfl

section plans
variable {t : Tree} {n : Node} {plan : Plan} {table : Table}

/-- The lists that a node shows: the one of its kind, unless that is left out. -/
def listsOf (t : Tree) (n : Node) : List Part :=
  match n.kind? with
  | none => []
  | some kind =>
    match listRole? kind with
    | none => []
    | some r => if r ∈ omitted t n then [] else [commas t n r (listTable kind)]

theorem planFor?_main_lists (himport : n.kind? ≠ some .importDeclaration)
    (h : planFor? t n .main = some plan) : lists.all plan.parts = listsOf t n := by
  rw [planFor?_main] at h
  unfold listsOf omitted
  unfold Node.kind? at himport ⊢
  cases hform : n.form with
  | unknown tag =>
      rw [hform] at h
      cases h
      rfl
  | known kind traits =>
      rw [hform] at h himport
      cases kind with
      | importDeclaration => exact absurd rfl himport
      | _ =>
          dsimp only [Kind.Traits] at traits
          cases h
          simp [Form.kind?, listRole?, listTable, inline, block, text, regExp, blockStatement,
            guarded, sentence, labeled, ifStatement, switchStatement, tryStatement, doWhile,
            forStatement, forEach, arrow, yield, prefixed, operation, bind, conditional, call,
            array, object, unary, spread, member, function, declared, declarator, classOf,
            objectProperty, method, classMethod, classProperty, renamed, exportDefault]

/-- A plan shows the list of its node with commas, and groups nothing else on the line. -/
theorem planFor?_lists (himport : n.kind? ≠ some .importDeclaration)
    (h : planFor? t n table = some plan) : lists.all plan.parts = listsOf t n := by
  rcases planFor?_cases h with hmain | ⟨parts, hmain, rfl⟩
  · exact planFor?_main_lists himport hmain
  · simpa [block, inline] using planFor?_main_lists himport hmain

theorem listsOf_of_listRole? {r : Role} (hr : n.kind?.bind listRole? = some r)
    (homitted : r ∉ omitted t n) : ∃ table, listsOf t n = [commas t n r table] := by
  obtain ⟨kind, hkind, hrole⟩ := Option.bind_eq_some_iff.mp hr
  exact ⟨listTable kind, by simp [listsOf, hkind, hrole, homitted]⟩

theorem exists_listRole?_of_listsOf (h : listsOf t n ≠ []) :
    ∃ r, n.kind?.bind listRole? = some r ∧ r ∉ omitted t n := by
  unfold listsOf at h
  split at h
  · exact absurd rfl h
  · rename_i kind hkind
    split at h
    · exact absurd rfl h
    · rename_i r hrole
      rw [ne_eq, ite_eq_left_iff, Classical.not_imp] at h
      exact ⟨r, by rw [hkind, Option.bind_some, hrole], h.1⟩

end plans

/-! ### What parts show -/

/-- What is rendered below a node: every child of the arena, labelled with its place. -/
def Labels (t : Tree) (child : Table → Path → NodeId → Option Fragment) : Prop :=
  ∀ table path id, t.has id → ∃ g m, child table path id = some g ∧ g.mark? = some m ∧
    m.place = (path, id)

theorem labels_renderAt (t : Tree) (focus : Option Path) : Labels t (renderAt t focus t.size) := by
  intro table path id hid
  have hsome := (isSome_renderAt_iff t focus table path id).mpr hid
  obtain ⟨g, hg⟩ := Option.isSome_iff_exists.mp hsome
  obtain ⟨m, hm, rfl, rfl⟩ := mark?_of_renderAt hg
  exact ⟨g, m, hg, hm, rfl⟩

section display
variable {t : Tree} {child : Table → Path → NodeId → Option Fragment}

theorem display_child_of_has (hchild : Labels t child) {id : NodeId} (hid : t.has id) (path : Path)
    (s : Segment) (table : Table) (continued : Bool) :
    ∃ g m, display child path (.child s id table continued) = [g] ∧ g.mark? = some m ∧
      m.place = (path ++ [s], id) := by
  obtain ⟨g, m, hg, hm, hplace⟩ := hchild table (path ++ [s]) id hid
  refine ⟨placed continued g, m, ?_, (mark?_placed continued g).trans hm, hplace⟩
  rw [display_child, hg]
  rfl

/-- The first nodes in what parts show are the children that they call for. -/
theorem outermostAll_displayAll (hchild : Labels t child) (path : Path) (parts : List Part)
    (h : ∀ c ∈ calls.all parts, t.has c.id) :
    (Fragment.outermostAll (displayAll child path parts)).map Mark.place =
      (drawnAll parts).map fun c => (path ++ [c.1], c.2) := by
  let places (fs : List Fragment) := (Fragment.outermostAll fs).map Mark.place
  have hplaces : places (displayAll child path parts) =
      (calls.all parts).flatMap fun c => [(path ++ [c.segment], c.id)] := by
    rw [displayAll_eq]
    refine Visitor.flatMap_calls rfl (fun a b => ?_) (fun _ => rfl) (fun _ _ inner => ?_) parts ?_
    · simp only [places, Fragment.outermostAll_append, List.map_append]
    · exact congrArg (List.map Mark.place) (List.append_nil (Fragment.outermostAll inner))
    · intro c hc
      obtain ⟨g, m, hg, hm, hplace⟩ :=
        display_child_of_has hchild (h c hc) path c.segment c.table c.continued
      simp only [places, shows, hg, Fragment.outermostAll_of_mark? hm, List.map_singleton, hplace]
  rw [drawnAll, List.map_map]
  exact hplaces.trans List.map_eq_flatMap.symm

/-- The groups in what parts show are those of the parts. -/
theorem filter_displayAll (hchild : Labels t child) (path : Path) (parts : List Part)
    (h : ∀ c ∈ calls.all parts, t.has c.id) :
    (displayAll child path parts).filter Fragment.isInlineGroup =
      displayAll child path (lists.all parts) := by
  have hrelates : Visitor.Relates (fun fs ps =>
      fs.filter Fragment.isInlineGroup = displayAll child path ps) (shows child path) lists := by
    refine ⟨rfl, fun ha hb => ?_, fun _ => rfl, fun flow parts _ => ?_⟩
    · rw [List.filter_append, ha, hb, displayAll_append]
    · rw [Visitor.part_group, shows_group, ← displayAll_eq]
      cases flow <;> rfl
  rw [displayAll_eq]
  refine hrelates.all parts fun c hc => ?_
  obtain ⟨g, m, hg, hm, -⟩ :=
    display_child_of_has hchild (h c hc) path c.segment c.table c.continued
  have hmarked : g.isInlineGroup = false := by
    cases g with
    | leaf _ => rfl
    | composite flow mark _ =>
        obtain rfl : mark = some m := hm
        cases flow <;> rfl
  simp only [shows, hg, List.filter_singleton, hmarked]
  rfl

theorem displayAll_intersperse {α : Type} {path : Path} {part : α → Part} {shown : α → Fragment}
    (h : ∀ x, display child path (part x) = [shown x]) (text : String) : ∀ l : List α,
      displayAll child path (List.intersperse (mark text) (l.map part)) =
        List.intersperse (.leaf ⟨.punctuation, text⟩) (l.map shown)
  | [] => rfl
  | [x] => by
      rw [List.map_singleton, List.intersperse_singleton, displayAll, h]
      rfl
  | x :: y :: l => by
      have ih := displayAll_intersperse h text (y :: l)
      rw [List.map_cons, List.map_cons, List.intersperse_cons_cons, displayAll, h, displayAll]
      rw [List.map_cons] at ih
      rw [ih]
      rfl

/-- The slot of a list at an index shows one fragment: a hole, or the child in it. -/
theorem exists_display_slot (hchild : Labels t child) (path : Path) {s : Segment}
    {slot : Option NodeId} (hslot : ∀ id, slot = some id → t.has id) (table : Table) :
    ∃ g, display child path ((slotPart? t s slot table).getD hole) = [g] ∧
      (slot = none ∧ g = Fragment.hole ∨
        ∃ id m, slot = some id ∧ g.mark? = some m ∧ m.place = (path ++ [s], id)) := by
  cases slot with
  | none => exact ⟨Fragment.hole, rfl, .inl ⟨rfl, rfl⟩⟩
  | some id =>
      have hid := hslot id rfl
      obtain ⟨g, m, hg, hm, hplace⟩ := display_child_of_has hchild hid path s table false
      refine ⟨g, ?_, .inr ⟨id, m, rfl, hm, hplace⟩⟩
      rw [slotPart?, if_pos hid, Option.getD_some, hg]

/-- A list with commas shows its slots. -/
theorem exists_lists_commas (hchild : Labels t child) (path : Path) {n : Node} {r : Role}
    (hslots : ∀ id, some id ∈ n.slots r → t.has id) (table : Table) :
    ∃ fs, displayAll child path [commas t n r table] = [.group .inline fs] ∧
      Fragment.Lists fs path r (n.slots r) := by
  let part (i : ℕ) : Part :=
    (slotPart? t (.element r i) ((n.slots r)[i]?.join) table).getD hole
  have hshown : ∀ i, ∃ g, display child path (part i) = [g] ∧
      ((n.slots r)[i]?.join = none ∧ g = Fragment.hole ∨ ∃ id m, (n.slots r)[i]?.join = some id ∧
        g.mark? = some m ∧ m.place = (path ++ [.element r i], id)) := by
    intro i
    refine exists_display_slot hchild path (fun id hid => hslots id ?_) table
    exact List.mem_of_getElem? (Option.join_eq_some_iff.mp hid)
  choose shown hdisplay hcases using hshown
  have hget : ∀ i slot, (n.slots r)[i]? = some slot →
      (List.intersperse (.leaf ⟨.punctuation, ","⟩)
        ((List.range (n.slots r).length).map shown))[2 * i]? = some (shown i) := by
    intro i slot hslot
    obtain ⟨hlt, -⟩ := List.getElem?_eq_some_iff.mp hslot
    rw [List.getElem?_intersperse_two_mul, List.getElem?_map, List.getElem?_range hlt]
    rfl
  refine ⟨List.intersperse (.leaf ⟨.punctuation, ","⟩)
    ((List.range (n.slots r).length).map shown), ?_, ?_, ?_, ?_, ?_⟩
  · rw [commas, commasAt, displayAll, displayAll, display, List.append_nil,
      displayAll_intersperse hdisplay]
  · rw [List.length_intersperse, List.length_map, List.length_range]
  · intro i hi
    refine List.getElem?_intersperse_two_mul_add_one ?_
    rw [List.length_intersperse] at hi
    omega
  · intro i id hid
    rcases hcases i with ⟨hnone, -⟩ | ⟨id', m, hsome, hm, hplace⟩
    · rw [hid] at hnone
      cases hnone
    · rw [hid] at hsome
      obtain rfl : id = id' := Option.some.inj hsome
      obtain ⟨hpath, hmark⟩ := Prod.mk.inj hplace
      exact ⟨shown i, m, hget i _ hid, hm, hpath, hmark⟩
  · intro i hi
    rcases hcases i with ⟨-, hhole⟩ | ⟨id', m, hsome, -⟩
    · rw [hget i _ hi, hhole]
    · rw [hi] at hsome
      cases hsome

end display

/-! ### Children in the order of the slots -/

section order
variable {t : Tree} {n : Node}

/-- Whether the display of a node shows the child in a slot. -/
def isShown (t : Tree) (n : Node) (c : Segment × NodeId) : Bool :=
  (omitted t n).all fun r => r.name != c.1.field

/-- Whether a slot is one of the specifiers. -/
def ofSpecifiers (c : Segment × NodeId) : Bool := c.1.field == Role.name .specifiers

theorem isShown_of_mem_held {p : Place} {c : Segment × NodeId} (h : c ∈ n.held p) :
    isShown t n c = decide (p.role ∉ omitted t n) := by
  have hfield : c.1.field = p.role.name := field_of_mem_held (c := c.2) h
  rw [Bool.eq_iff_iff, isShown, List.all_eq_true, decide_eq_true_iff]
  simp only [bne_iff_ne, hfield]
  constructor
  · exact fun hall hmem => hall _ hmem rfl
  · exact fun hnot r hr hname => hnot (Role.name_injective hname ▸ hr)

theorem present_eq_held (hhas : ∀ c ∈ n.segments, t.has c.2) {p : Place}
    (hp : p ∈ n.form.places) : present t n p = n.held p := by
  refine List.filter_eq_self.mpr fun c hc => hhas c ?_
  rw [n.segments_eq_held]
  exact List.mem_flatMap.mpr ⟨p, hp, hc⟩

theorem drawn_eq_filter (hhas : ∀ c ∈ n.segments, t.has c.2) :
    drawn t n = n.segments.filter (isShown t n) := by
  rw [drawn, n.segments_eq_held, List.filter_flatMap, flatMap_filter]
  refine List.flatMap_congr fun p hp => ?_
  rw [present_eq_held hhas hp, List.filter_congr fun c hc => isShown_of_mem_held hc]
  by_cases hrole : p.role ∈ omitted t n <;> simp [hrole]

theorem displayed_import (hhas : ∀ c ∈ n.segments, t.has c.2)
    (hkind : n.kind? = some .importDeclaration) :
    displayed t n =
      (n.segments.filter fun c => ofSpecifiers c && !isNamed t (some c.2)) ++
      (n.segments.filter fun c => ofSpecifiers c && isNamed t (some c.2)) ++
      n.segments.filter fun c => !ofSpecifiers c := by
  obtain ⟨traits, hform⟩ := exists_traits_of_kind? hkind
  have hplaces : n.form.places = [(Role.specifiers).many, (Role.source).one] := by
    rw [hform]
    rfl
  have hsegments : n.segments =
      present t n (Role.specifiers).many ++ present t n (Role.source).one := by
    rw [present_eq_held hhas (by simp [hplaces]), present_eq_held hhas (by simp [hplaces]),
      n.segments_eq_held, hplaces]
    simp
  have hspecifiers : ∀ c ∈ present t n (Role.specifiers).many, ofSpecifiers c = true := by
    intro c hc
    rw [ofSpecifiers, field_of_mem_held (c := c.2) (List.mem_filter.mp hc).1]
    rfl
  have hsource : ∀ c ∈ present t n (Role.source).one, ofSpecifiers c = false := by
    intro c hc
    rw [ofSpecifiers, field_of_mem_held (c := c.2) (List.mem_filter.mp hc).1]
    rfl
  have hkeep : ∀ q : Segment × NodeId → Bool, n.segments.filter (fun c => ofSpecifiers c && q c) =
      (present t n (Role.specifiers).many).filter q := by
    intro q
    have hnone : (present t n (Role.source).one).filter (fun c => ofSpecifiers c && q c) = [] :=
      List.filter_eq_nil_iff.mpr fun c hc => by simp [hsource c hc]
    rw [hsegments, List.filter_append, hnone, List.append_nil]
    exact List.filter_congr fun c hc => by rw [hspecifiers c hc, Bool.true_and]
  have hrest : n.segments.filter (fun c => !ofSpecifiers c) = present t n (Role.source).one := by
    have hnone : (present t n (Role.specifiers).many).filter (fun c => !ofSpecifiers c) = [] :=
      List.filter_eq_nil_iff.mpr fun c hc => by simp [hspecifiers c hc]
    rw [hsegments, List.filter_append, hnone, List.nil_append]
    exact List.filter_eq_self.mpr fun c hc => by rw [hsource c hc, Bool.not_false]
  rw [displayed_of_importDeclaration t n hform, hkeep, hkeep, hrest]
  simp [specifiersShown]

end order

end Rendering

/-! ### Loaded trees -/

namespace Tree.Strict

variable {t : Tree} (h : t.Strict) {focus : Option Path} {f C : Fragment} {m : Mark}
include h

/-- What stands in a rendering for a node shows the parts of a plan for this node. -/
theorem exists_plan_of_mem_subfragments (hf : t.renderRoot focus = some f)
    (hC : C ∈ f.subfragments) (hm : C.mark? = some m) :
    ∃ n plan table, t.node? m.id = some n ∧ Rendering.planFor? t n table = some plan ∧
      C.children =
        Rendering.displayAll (Rendering.renderAt t focus t.size) m.path plan.parts := by
  rw [renderRoot, render_of_pathOf? (t.pathOf?_root h.has_root)] at hf
  obtain ⟨table, continued, g, hg, hplaced⟩ : ∃ table continued g,
      Rendering.renderAt t focus t.size table m.path m.id = some g ∧
        C = Rendering.placed continued g := by
    rcases List.mem_cons.mp hC with rfl | hC
    · obtain ⟨mark, hmark, hid, hpath⟩ := Rendering.mark?_of_renderAt hf
      obtain rfl := Option.some.inj (hmark.symm.trans hm)
      exact ⟨.main, false, C, by rw [hid, hpath, hf], rfl⟩
    · have hlt : ∀ p c, t.follow? t.root p = some c → p.length < t.size :=
        fun p c hp => (h.acyclicFrom t.root).length_lt h.has_root hp
      obtain ⟨-, -, -, table, continued, g, -, -, -, hg, hplaced⟩ :=
        Rendering.exists_call_of_mem_inner h.acyclicFrom hm t.size .main [] t.root f hlt hf hC
      exact ⟨table, continued, g, hg, hplaced⟩
  -- One level more changes nothing, and then the children have as many levels as the arena nodes.
  rw [← Rendering.renderAt_eq_of_size_le (h.acyclicFrom m.id) focus (Nat.le_succ t.size)] at hg
  obtain ⟨n, plan, hn, hplan, rfl⟩ := Rendering.exists_plan_of_renderAt hg
  refine ⟨n, plan, table, hn, hplan, ?_⟩
  rw [hplaced]
  cases continued <;> rfl

theorem has_of_mem_segments {id : NodeId} {n : Node} (hn : t.node? id = some n)
    {c : Segment × NodeId} (hc : c ∈ n.segments) : t.has c.2 :=
  (h.owner_lt id c.2 ((t.mem_children_iff id c.2).mpr
    ⟨n, c.1, hn, (n.mem_segments_iff c.1 c.2).mp hc⟩)).2

theorem has_of_mem_slots {id c : NodeId} {n : Node} {r : Role} (hn : t.node? id = some n)
    (hc : some c ∈ n.slots r) : t.has c := by
  unfold Node.slots at hc
  split at hc
  · rename_i slots hfield
    obtain ⟨i, hi⟩ := List.mem_iff_getElem?.mp hc
    have hmem : (Segment.element r i, c) ∈ n.segments :=
      List.mem_flatMap.mpr ⟨(r, .many slots), mem_of_lookup_eq_some hfield,
        ((Field.many slots).mem_segments_iff r _ c).mpr ⟨rfl, Option.join_eq_some_iff.mpr hi⟩⟩
    exact h.has_of_mem_segments hn hmem
  · cases hc

end Tree.Strict

namespace Document

open Rendering

/-- In the rendering of a tree that was loaded, the nodes directly below a node come in the order of
its slots: field by field, and in a list by increasing index.  An import alone shows its specifiers
in two groups, those that are not named ones first.  A list with commas that stands for a whole
field has for every slot the child or a hole, and commas between, so the slots can be read back;
such lists stand in the nodes of the kinds that `listRole?` names and, imports aside, nothing else
is grouped on a line. -/
theorem load_source_order (json : Json) (t : Tree) (hload : load json = .ok t)
    (focus : Option Path) :
    ∃ f, t.renderRoot focus = some f ∧ ∀ C ∈ f.subfragments, ∀ m, C.mark? = some m →
      ∃ n, t.node? m.id = some n ∧ (n.segments.Pairwise fun c d => n.Before c.1 d.1) ∧
        (n.kind? ≠ some .importDeclaration → C.nodesBelow.map Mark.place =
          (n.segments.filter (isShown t n)).map fun c => (m.path ++ [c.1], c.2)) ∧
        (n.kind? = some .importDeclaration → C.nodesBelow.map Mark.place =
          ((n.segments.filter fun c => ofSpecifiers c && !isNamed t (some c.2)) ++
            (n.segments.filter fun c => ofSpecifiers c && isNamed t (some c.2)) ++
            n.segments.filter fun c => !ofSpecifiers c).map fun c => (m.path ++ [c.1], c.2)) ∧
        (∀ r, n.kind?.bind listRole? = some r → r ∉ omitted t n → ∃ fs,
          C.children.filter Fragment.isInlineGroup = [.group .inline fs] ∧
            Fragment.Lists fs m.path r (n.slots r) ∧ Fragment.readSlots fs = n.slots r) ∧
        (n.kind? ≠ some .importDeclaration → ∀ g ∈ C.children, g.isInlineGroup →
          ∃ r, n.kind?.bind listRole? = some r ∧ r ∉ omitted t n) := by
  obtain ⟨d, hd, rfl⟩ := (load_eq_ok_iff json t).mp hload
  have h := hd.strict
  generalize d.toTree = t at h
  obtain ⟨f, hf⟩ := h.exists_renderRoot focus
  refine ⟨f, hf, fun C hC m hm => ?_⟩
  obtain ⟨n, plan, table, hn, hplan, hchildren⟩ := h.exists_plan_of_mem_subfragments hf hC hm
  have hlabels := labels_renderAt t focus
  have hhas : ∀ c ∈ n.segments, t.has c.2 := fun c => h.has_of_mem_segments hn
  have hdisplays : drawnAll plan.parts = displayed t n := planFor?_displays hplan
  have hdrawn : ∀ c ∈ calls.all plan.parts, t.has c.id := fun c hc =>
    (t.has_of_step? (step?_of_mem_drawn hn (mem_drawn_of_mem_calls hplan hc))).2
  have hbelow : C.nodesBelow.map Mark.place =
      (displayed t n).map fun c => (m.path ++ [c.1], c.2) := by
    rw [Fragment.nodesBelow, hchildren, outermostAll_displayAll hlabels m.path plan.parts hdrawn,
      hdisplays]
  have hgroups : C.children.filter Fragment.isInlineGroup =
      displayAll (renderAt t focus t.size) m.path (lists.all plan.parts) := by
    rw [hchildren, filter_displayAll hlabels m.path plan.parts hdrawn]
  refine ⟨n, hn, n.segments_before, fun hkind => ?_, fun hkind => ?_, fun r hr homitted => ?_,
    fun hkind g hg hgroup => ?_⟩
  · rw [hbelow, displayed_eq_drawn hkind, drawn_eq_filter hhas]
  · rw [hbelow, displayed_import hhas hkind]
  · have himport : n.kind? ≠ some .importDeclaration := by
      intro hkind
      rw [hkind] at hr
      cases hr
    obtain ⟨table', hlist⟩ := listsOf_of_listRole? hr homitted
    obtain ⟨fs, hfs, hlists⟩ := exists_lists_commas hlabels m.path
      (fun id (hid : some id ∈ n.slots r) => h.has_of_mem_slots hn hid) table'
    refine ⟨fs, ?_, hlists, hlists.readSlots_eq⟩
    rw [hgroups, planFor?_lists himport hplan, hlist, hfs]
  · refine exists_listRole?_of_listsOf fun hnone => ?_
    rw [planFor?_lists hkind hplan, hnone] at hgroups
    exact List.filter_eq_nil_iff.mp hgroups g hg hgroup

/-- An import that names a specifier before the default one, and an array with a hole before its
element and one behind it. -/
def gapped : Json :=
  let name (s : String) : Json := .object [("name", .string s), ("type", .string "Identifier")]
  .object [("type", .string "Program"), ("body", .array [
    .object [("type", .string "ImportDeclaration"), ("specifiers", .array [
      .object [("type", .string "ImportSpecifier"), ("imported", name "y"), ("local", name "y")],
      .object [("type", .string "ImportDefaultSpecifier"), ("local", name "x")]])],
    .object [("type", .string "ExpressionStatement"), ("expression",
      .object [("type", .string "ArrayExpression"), ("elements",
        .array [.null, name "x", .null])])]])]

theorem load_source_order_gapped : ∃ t f, load gapped = .ok t ∧ t.renderRoot none = some f ∧
    (∃ C ∈ f.subfragments, ∃ m, C.mark? = some m ∧ m.id = 1 ∧
      C.nodesBelow.map Mark.id = [5, 2]) ∧
    ∃ C ∈ f.subfragments, ∃ m fs, C.mark? = some m ∧ m.id = 8 ∧
      C.children.filter Fragment.isInlineGroup = [.group .inline fs] ∧ fs.length = 5 ∧
        Fragment.readSlots fs = [none, some 9, none] := by
  obtain ⟨t, hload, hmarks, himport, hsegments, harray⟩ : ∃ t, load gapped = .ok t ∧
      (t.renderRoot none).map (fun f => (f.subfragments.filterMap Fragment.mark?).map Mark.id) =
        some [0, 1, 5, 6, 2, 3, 7, 8, 9] ∧
      (t.node? 1).bind Node.kind? = some .importDeclaration ∧
      (t.node? 1).map (fun n =>
        ((n.segments.filter fun c => ofSpecifiers c && !isNamed t (some c.2)) ++
          (n.segments.filter fun c => ofSpecifiers c && isNamed t (some c.2)) ++
          n.segments.filter fun c => !ofSpecifiers c).map Prod.snd) = some [5, 2] ∧
      (t.node? 8).map (fun n => (n.kind?.bind listRole?, omitted t n, n.slots .elements)) =
        some (some .elements, [], [none, some 9, none]) :=
    ⟨_, rfl, by decide +kernel, by decide +kernel, by decide +kernel, by decide +kernel⟩
  obtain ⟨f, hf, hall⟩ := load_source_order gapped t hload none
  have hmarked : ∀ id ∈ [1, 8], ∃ C ∈ f.subfragments, ∃ m, C.mark? = some m ∧ m.id = id := by
    intro id hid
    rw [hf, Option.map_some, Option.some_inj] at hmarks
    have hmem : id ∈ (f.subfragments.filterMap Fragment.mark?).map Mark.id := by
      rw [hmarks]
      revert id
      decide
    obtain ⟨m, hm, rfl⟩ := List.mem_map.mp hmem
    obtain ⟨C, hC, hCm⟩ := List.mem_filterMap.mp hm
    exact ⟨C, hC, m, hCm, rfl⟩
  refine ⟨t, f, hload, hf, ?_, ?_⟩
  · obtain ⟨C, hC, m, hm, hid⟩ := hmarked 1 (by decide)
    obtain ⟨n, hn, -, -, hbelow, -⟩ := hall C hC m hm
    rw [hid] at hn
    rw [hn] at himport hsegments
    refine ⟨C, hC, m, hm, hid, ?_⟩
    rw [← Option.some.inj hsegments]
    have hids := congrArg (List.map Prod.snd) (hbelow himport)
    rwa [List.map_map, List.map_map] at hids
  · obtain ⟨C, hC, m, hm, hid⟩ := hmarked 8 (by decide)
    obtain ⟨n, hn, -, -, -, hlist, -⟩ := hall C hC m hm
    rw [hid] at hn
    rw [hn, Option.map_some, Option.some_inj, Prod.mk.injEq, Prod.mk.injEq] at harray
    obtain ⟨hrole, homitted, hslots⟩ := harray
    obtain ⟨fs, hfs, hlists, hread⟩ := hlist .elements hrole (by rw [homitted]; decide)
    rw [hslots] at hlists hread
    exact ⟨C, hC, m, fs, hm, hid, hfs, hlists.length_eq, hread⟩

end Document

end SyntaxLens
