import Mathlib.Data.List.Perm.Basic
import SyntaxLens.Proofs.Rendering.Visiting

/-! # What the rules show

Every rule of every table shows the present children of its node in the order of the grammar, except
those in the roles that are left out: `rule?_displays`.  An import is the one node that is displayed
out of order, since it groups its specifiers (`displayed`).  Some table has a rule for every node
(`exists_rule`), and no more than two hand-overs lead there, so a node has a plan whatever the table
it is given to (`exists_planFor?`), and that plan shows the children that it should
(`planFor?_displays`, and `planFor?_draws` where the order does not matter). -/

namespace SyntaxLens.Rendering

section displayed
variable (t : Tree) (n : Node)

/-- The specifiers of an import that are named ones, or the others. -/
def specifiersShown (named : Bool) : List (Segment × NodeId) :=
  (present t n (Role.specifiers).many).filter fun c => isNamed t (some c.2) == named

/-- The children that the display of a node shows, in the order of the display: that of the grammar,
except that the named specifiers of an import come after the others. -/
def displayed : List (Segment × NodeId) :=
  match n.form with
  | .known .importDeclaration _ =>
    specifiersShown t n false ++ specifiersShown t n true ++ present t n (Role.source).one
  | _ => drawn t n

/-- The plan shows the children of the node that are to be shown, each once. -/
def Plan.Draws (plan : Plan) : Prop := (drawnAll plan.parts).Perm (drawn t n)

/-- The plan shows the children of the node that are to be shown, in their order. -/
def Plan.Displays (plan : Plan) : Prop := drawnAll plan.parts = displayed t n

theorem displayed_of_importDeclaration {traits : Kind.Traits .importDeclaration}
    (hform : n.form = .known .importDeclaration traits) : displayed t n =
      specifiersShown t n false ++ specifiersShown t n true ++ present t n (Role.source).one := by
  rw [displayed, hform]

variable {t n} in
theorem displayed_eq_drawn (hkind : n.kind? ≠ some .importDeclaration) :
    displayed t n = drawn t n := by
  unfold displayed
  split
  · rename_i hform
    exact absurd (by rw [Node.kind?, hform]; rfl) hkind
  · rfl

theorem displayed_perm : (displayed t n).Perm (drawn t n) := by
  unfold displayed
  split
  · rename_i hform
    have hdrawn : drawn t n =
        present t n (Role.specifiers).many ++ present t n (Role.source).one := by
      simp [drawn, omitted, hform, Form.places, Kind.roles]
    have hnamed : specifiersShown t n false =
        (present t n (Role.specifiers).many).filter fun c => !isNamed t (some c.2) := by
      simp [specifiersShown]
    have hplain : specifiersShown t n true =
        (present t n (Role.specifiers).many).filter fun c => isNamed t (some c.2) := by
      simp [specifiersShown]
    rw [hdrawn, hnamed, hplain]
    exact (List.perm_append_comm.trans (List.filter_append_perm _ _)).append_right _
  · exact .refl _

end displayed

section rules
variable (t : Tree) (n : Node)

/-! ### Nodes that leave out children -/

theorem objectProperty_displays {p : PropertyTraits}
    (hform : n.form = .known .objectProperty p) : (objectProperty t n p).Displays t n := by
  have hident : (nameOf? t n .value).isSome = isIdentifier t n .value := rfl
  have hplaces : n.form.places =
      [(Role.decorators).many, (Role.key).one, (Role.value).one] := by rw [hform]; rfl
  have homitted : omitted t n =
      if !p.shorthand then [] else if isIdentifier t n .value then [.value]
      else if hasChild t n .value then [.key] else [] := by rw [omitted, hform]
  rw [Plan.Displays, drawnAll, displayed, hform, objectProperty, inline, drawn, hplaces, homitted]
  cases p.shorthand with
  | false => simp
  | true =>
      cases hvalue : hasChild t n .value with
      | true => cases h : isIdentifier t n .value <;> simp [hident, hvalue, h]
      | false =>
          have hnot : isIdentifier t n .value ≠ true := fun h => by
            rw [hasChild_of_isIdentifier t n h] at hvalue
            cases hvalue
          simp [hnot, hvalue, present_eq_nil t n hvalue]

/-- A specifier shows its second name unless both are the same. -/
theorem drawnAll_renamed (first second : Role) :
    drawnAll (renamed t n first second).parts = present t n first.one ++
      if sameName t n first second then [] else present t n second.one := by
  unfold drawnAll renamed inline
  rw [show ((nameOf? t n first).isSome && nameOf? t n first == nameOf? t n second) =
    sameName t n first second from rfl]
  cases sameName t n first second <;> simp

theorem importSpecifier_displays {traits : Kind.Traits .importSpecifier}
    (hform : n.form = .known .importSpecifier traits) :
    (renamed t n .imported .localName).Displays t n := by
  unfold Plan.Displays displayed drawn omitted
  rw [hform, show Form.places (.known _ _) = Kind.roles _ from rfl, Kind.roles, drawnAll_renamed]
  dsimp only
  cases sameName t n .imported .localName <;> simp

theorem exportSpecifier_displays {traits : Kind.Traits .exportSpecifier}
    (hform : n.form = .known .exportSpecifier traits) :
    (renamed t n .localName .exported).Displays t n := by
  unfold Plan.Displays displayed drawn omitted
  rw [hform, show Form.places (.known _ _) = Kind.roles _ from rfl, Kind.roles, drawnAll_renamed]
  dsimp only
  cases sameName t n .localName .exported <;> simp

theorem exportNamed_displays {traits : Kind.Traits .exportNamedDeclaration}
    (hform : n.form = .known .exportNamedDeclaration traits) :
    (exportNamed t n).Displays t n := by
  unfold Plan.Displays drawnAll displayed drawn omitted
  rw [hform, show Form.places (.known _ _) = Kind.roles _ from rfl, Kind.roles,
    calls.all_exportNamed]
  cases h : hasChild t n .declaration with
  | false => simp [present_eq_nil t n h]
  | true => simp

/-! ### Imports -/

theorem flatMap_filter {α β : Type} (p : α → Bool) (f : α → List β) (l : List α) :
    (l.filter p).flatMap f = l.flatMap fun x => if p x then f x else [] := by
  induction l with
  | nil => rfl
  | cons x l ih =>
      rw [List.filter_cons, List.flatMap_cons, ← ih]
      cases p x <;> rfl

/-- Whether the slot at an index of the specifiers is filled. -/
def filled (i : ℕ) : Bool := ((n.slots .specifiers)[i]?.join).isSome

theorem specifiers_eq_filter (named : Bool) :
    specifiers t n named = ((List.range (n.slots .specifiers).length).filter (filled n)).filter
      fun i => isNamed t ((n.slots .specifiers)[i]?.join) == named := by
  rw [specifiers, zipIdx_eq_map_range, List.filter_map, List.map_map, List.filter_filter]
  simp only [Function.comp_def, filled, Bool.and_comm]
  exact List.map_id _

theorem flatMap_specifiers (named : Bool) :
    (specifiers t n named).flatMap (slotDrawn t n .specifiers) = specifiersShown t n named := by
  rw [specifiersShown, present_many, List.filter_flatMap, specifiers_eq_filter, List.filter_filter,
    flatMap_filter]
  refine List.flatMap_congr fun i _ => ?_
  rw [filled, slotDrawn]
  cases (n.slots .specifiers)[i]?.join with
  | none => simp
  | some id => cases h : t.has id <;> simp [Option.filter, h, List.filter_singleton]

theorem importDeclaration_displays {traits : Kind.Traits .importDeclaration}
    (hform : n.form = .known .importDeclaration traits) :
    (importDeclaration t n).Displays t n := by
  have hgroups : drawnAll (importDeclaration t n).parts =
      (specifiers t n false ++ specifiers t n true).flatMap (slotDrawn t n .specifiers) ++
        present t n (Role.source).one := by
    rw [drawnAll, calls.all_importDeclaration]
    cases specifiers t n true <;> simp
  rw [Plan.Displays, hgroups, displayed_of_importDeclaration t n hform, List.flatMap_append,
    flatMap_specifiers, flatMap_specifiers]

end rules

/-! ### The tables -/

section tables
variable {t : Tree} {n : Node} {kind : Kind} {traits : kind.Traits} {plan : Plan}

/-- The kinds whose nodes leave out children. -/
def omitting : List Kind :=
  [.objectProperty, .importSpecifier, .exportSpecifier, .exportNamedDeclaration]

theorem omitted_eq_nil (hform : n.form = .known kind traits) (hkind : kind ∉ omitting) :
    omitted t n = [] := by
  unfold omitted
  rw [hform]
  cases kind <;> first | rfl | simp [omitting] at hkind

theorem displayed_eq_roles (hform : n.form = .known kind traits) (hkind : kind ∉ omitting)
    (himport : kind ≠ .importDeclaration) :
    displayed t n = kind.roles.flatMap (present t n) := by
  have hother : n.kind? ≠ some .importDeclaration := by
    rw [Node.kind?, hform]
    exact fun h => himport (Option.some.inj h)
  rw [displayed_eq_drawn hother, drawn, omitted_eq_nil hform hkind, hform]
  simp [Form.places]

theorem mainRule?_displays (hform : n.form = .known kind traits)
    (h : mainRule? t n kind traits = some plan) : plan.Displays t n := by
  unfold Plan.Displays drawnAll
  cases kind <;> dsimp only [Kind.Traits] at traits <;> cases h <;>
    rw [displayed_eq_roles hform (by decide) (by decide)] <;>
    simp [Kind.roles, inline, block, text, regExp, blockStatement, guarded, sentence,
      labeled, ifStatement, switchStatement, tryStatement, doWhile, forStatement, forEach, arrow,
      yield, array, object, function, unary, spread, member, classOf, prefixed, operation, bind,
      conditional, call]

theorem declarationRule?_displays (hform : n.form = .known kind traits)
    (h : declarationRule? t n kind traits = some plan) : plan.Displays t n := by
  unfold Plan.Displays drawnAll
  cases kind <;> dsimp only [Kind.Traits] at traits <;> cases h <;>
    rw [displayed_eq_roles hform (by decide) (by decide)] <;>
    simp [Kind.roles, inline, block, function, declared, declarator, classOf]

theorem patternRule?_displays (hform : n.form = .known kind traits)
    (h : patternRule? t n kind traits = some plan) : plan.Displays t n := by
  unfold Plan.Displays drawnAll
  cases kind <;> dsimp only [Kind.Traits] at traits <;> cases h <;>
    rw [displayed_eq_roles hform (by decide) (by decide)] <;>
    simp [Kind.roles, inline, text, array, object, spread]

theorem moduleRule?_displays (hform : n.form = .known kind traits)
    (h : moduleRule? t n kind traits = some plan) : plan.Displays t n := by
  cases kind with
  | importDeclaration => cases h; exact importDeclaration_displays t n hform
  | importSpecifier => cases h; exact importSpecifier_displays t n hform
  | exportNamedDeclaration => cases h; exact exportNamed_displays t n hform
  | exportSpecifier => cases h; exact exportSpecifier_displays t n hform
  | _ =>
      dsimp only [Kind.Traits] at traits
      cases h <;> rw [Plan.Displays, drawnAll, displayed_eq_roles hform (by decide) (by decide)] <;>
        simp [Kind.roles, inline, block, exportDefault]

theorem objectMemberRule?_displays (hform : n.form = .known kind traits)
    (h : objectMemberRule? t n kind traits = some plan) : plan.Displays t n := by
  cases kind with
  | objectProperty => cases h; exact objectProperty_displays t n hform
  | _ =>
      dsimp only [Kind.Traits] at traits
      cases h <;> rw [Plan.Displays, drawnAll, displayed_eq_roles hform (by decide) (by decide)] <;>
        simp [Kind.roles, inline, method, spread]

theorem classMemberRule?_displays (hform : n.form = .known kind traits)
    (h : classMemberRule? t n kind traits = some plan) : plan.Displays t n := by
  unfold Plan.Displays drawnAll
  cases kind <;> dsimp only [Kind.Traits] at traits <;> cases h <;>
    rw [displayed_eq_roles hform (by decide) (by decide)] <;>
    simp [Kind.roles, block, method, classMethod, classProperty]

theorem loopHeadRule?_displays (hform : n.form = .known kind traits)
    (h : loopHeadRule? t n kind traits = some plan) : plan.Displays t n := by
  unfold Plan.Displays drawnAll
  cases kind <;> dsimp only [Kind.Traits] at traits <;> cases h
  rw [displayed_eq_roles hform (by decide) (by decide)]
  simp [Kind.roles, inline, declared]

end tables

section plans
variable {t : Tree} {n : Node} {plan : Plan}

/-- A rule shows the children of its node as it should, whichever table has it. -/
theorem rule?_displays {table : Table} (h : rule? t n table n.form = some plan) :
    plan.Displays t n := by
  cases hform : n.form with
  | unknown tag =>
      rw [hform] at h
      obtain ⟨-, hplan⟩ := Option.ite_none_right_eq_some.mp h
      obtain rfl := Option.some.inj hplan
      have hdisplayed : displayed t n = [] := by
        simp [displayed, drawn, hform, Form.places]
      rw [Plan.Displays, hdisplayed]
      rfl
  | known kind traits =>
      rw [hform] at h
      cases table with
      | main => exact mainRule?_displays hform h
      | loopHead => exact loopHeadRule?_displays hform h
      | family family =>
          cases family with
          | declaration => exact declarationRule?_displays hform h
          | pattern => exact patternRule?_displays hform h
          | moduleClause => exact moduleRule?_displays hform h
          | objectMember => exact objectMemberRule?_displays hform h
          | classMember => exact classMemberRule?_displays hform h

/-- A plan is the rule of some table. -/
theorem exists_rule?_of_planFor? {table : Table} (h : planFor? t n table = some plan) :
    ∃ table', rule? t n table' n.form = some plan := by
  have hwithin : ∀ (hops : ℕ) (table : Table), planWithin? t n hops table = some plan →
      ∃ table', rule? t n table' n.form = some plan := by
    intro hops
    induction hops with
    | zero => exact fun table h => ⟨table, h⟩
    | succ hops ih =>
        intro table h
        rw [planWithin?] at h
        split at h
        · rename_i found hrule
          obtain rfl := Option.some.inj h
          exact ⟨table, hrule⟩
        · exact ih _ h
  exact hwithin 2 table h

theorem planFor?_displays {table : Table} (h : planFor? t n table = some plan) :
    plan.Displays t n := by
  obtain ⟨table', hrule⟩ := exists_rule?_of_planFor? h
  exact rule?_displays hrule

theorem planFor?_draws {table : Table} (h : planFor? t n table = some plan) : plan.Draws t n := by
  have hparts : drawnAll plan.parts = displayed t n := planFor?_displays h
  rw [Plan.Draws, hparts]
  exact displayed_perm t n

theorem mem_drawn_of_mem_calls {table : Table} (h : planFor? t n table = some plan) {c : Call}
    (hc : c ∈ calls.all plan.parts) : (c.segment, c.id) ∈ drawn t n :=
  (planFor?_draws h).mem_iff.mp (List.mem_map_of_mem hc)

/-- The main table or the one that it hands a node to has a rule for it. -/
theorem exists_rule (t : Tree) (n : Node) (form : Form) : (rule? t n .main form).isSome ∨
    (rule? t n (Table.next .main form) form).isSome := by
  cases form with
  | unknown tag => exact .inl rfl
  | known kind traits => cases kind <;> first | exact .inl rfl | exact .inr rfl

theorem exists_planWithin?_main (t : Tree) (n : Node) (hops : ℕ) :
    ∃ plan, planWithin? t n (hops + 1) .main = some plan := by
  rw [planWithin?]
  cases hrule : rule? t n .main n.form with
  | some plan => exact ⟨plan, rfl⟩
  | none =>
      rcases exists_rule t n n.form with h | h
      · rw [hrule] at h
        cases h
      · obtain ⟨plan, hplan⟩ := Option.isSome_iff_exists.mp h
        cases hops <;> exact ⟨plan, by simp [planWithin?, hplan]⟩

/-- A node has a plan, whatever table it is given to: all tables but the main one hand over to that
one. -/
theorem exists_planFor? (t : Tree) (n : Node) (table : Table) :
    ∃ plan, planFor? t n table = some plan := by
  rw [planFor?]
  cases table with
  | main => exact exists_planWithin?_main t n 1
  | family f =>
      rw [planWithin?]
      cases rule? t n (.family f) n.form with
      | some plan => exact ⟨plan, rfl⟩
      | none => exact exists_planWithin?_main t n 0
  | loopHead =>
      rw [planWithin?]
      cases rule? t n .loopHead n.form with
      | some plan => exact ⟨plan, rfl⟩
      | none => exact exists_planWithin?_main t n 0

end plans

end SyntaxLens.Rendering
