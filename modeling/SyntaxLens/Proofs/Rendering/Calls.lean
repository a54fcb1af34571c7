import SyntaxLens.Proofs.Rendering.Rules

/-! # How plans call for children

A plan has each of its children rendered through a table, and may keep it on the line.

* The table decides next to nothing.  A node has the same plan whatever table it is given to, and
  only a variable declaration in the head of a loop has one of its own (`planFor?_eq_main`,
  `planFor?_variableDeclaration`); `planFor?_cases` puts both together.
* The table of loop heads is asked for one child of a loop and nothing else, and the declaration of
  an export is all that is kept on the line (`Suits`, `planFor?_suits`). -/

namespace SyntaxLens.Rendering

/-! ### Plans and tables -/

section plans
variable {t : Tree} {n : Node} {plan : Plan}

/-- One hand-over is enough for the main table. -/
theorem planWithin?_main (t : Tree) (n : Node) (hops : ℕ) :
    planWithin? t n (hops + 1) .main = planWithin? t n 1 .main := by
  rw [planWithin?, planWithin?]
  cases hrule : rule? t n .main n.form with
  | some plan => rfl
  | none =>
      rcases exists_rule t n n.form with h | h
      · rw [hrule] at h
        cases h
      · obtain ⟨plan, hplan⟩ := Option.isSome_iff_exists.mp h
        cases hops <;> simp [planWithin?, hplan]

theorem planFor?_main (t : Tree) (n : Node) : planFor? t n .main =
    (rule? t n .main n.form).or (rule? t n (Table.next .main n.form) n.form) := by
  rw [planFor?, planWithin?_main, planWithin?]
  cases rule? t n .main n.form <;> rfl

/-- The rule that a family has for a node is also the one that the main table has or leads to. -/
theorem rule?_of_family {family : Family} {form : Form}
    (h : rule? t n (.family family) form = some plan) : rule? t n .main form = some plan ∨
      rule? t n .main form = none ∧ rule? t n (Table.next .main form) form = some plan := by
  cases form with
  | unknown tag => cases h
  | known kind traits =>
      cases family <;> cases kind <;> cases h <;> first | exact .inl rfl | exact .inr ⟨rfl, rfl⟩

theorem rule?_loopHead {form : Form} (h : rule? t n .loopHead form = some plan) :
    form.kind? = some .variableDeclaration := by
  cases form with
  | unknown tag => cases h
  | known kind traits => cases kind <;> first | rfl | cases h

theorem planFor?_of_rule?_eq_none {table : Table} (htable : table ≠ .main)
    (h : rule? t n table n.form = none) : planFor? t n table = planFor? t n .main := by
  have hnext : table.next n.form = .main := by
    cases table with
    | main => exact absurd rfl htable
    | family _ => rfl
    | loopHead => rfl
  rw [planFor?, planFor?, planWithin?, h, hnext, planWithin?_main t n 1]

/-- A node has the same plan whatever table it is given to, if it is no variable declaration in the
head of a loop. -/
theorem planFor?_eq_main {table : Table}
    (h : table = .loopHead → n.kind? ≠ some .variableDeclaration) :
    planFor? t n table = planFor? t n .main := by
  cases hrule : rule? t n table n.form with
  | none =>
      by_cases htable : table = .main
      · rw [htable]
      · exact planFor?_of_rule?_eq_none htable hrule
  | some plan =>
      have hown : planFor? t n table = some plan := by rw [planFor?, planWithin?, hrule]
      rw [hown]
      cases table with
      | main => exact hown.symm
      | loopHead => exact absurd (rule?_loopHead hrule) (h rfl)
      | family family =>
          rw [planFor?_main]
          rcases rule?_of_family hrule with hmain | ⟨hmain, hnext⟩
          · rw [hmain, Option.some_or]
          · rw [hmain, hnext, Option.none_or]

/-- A rule of the main table gives the plan whatever table the node is given to. -/
theorem planFor?_of_rule?_main (h : rule? t n .main n.form = some plan) (table : Table) :
    planFor? t n table = some plan := by
  have hkind : n.kind? ≠ some .variableDeclaration := by
    intro hkind
    cases hform : n.form with
    | unknown tag =>
        rw [Node.kind?, hform] at hkind
        cases hkind
    | known kind traits =>
        rw [Node.kind?, hform] at hkind
        obtain rfl := Option.some.inj hkind
        rw [hform] at h
        cases h
  rw [planFor?_eq_main fun _ => hkind, planFor?_main, h, Option.some_or]

theorem plan_eq_of_rule?_main {table : Table} (h : planFor? t n table = some plan) {form : Form}
    (hform : n.form = form) {own : Plan} (hrule : rule? t n .main form = some own) :
    plan = own := by
  subst hform
  exact Option.some.inj (h.symm.trans (planFor?_of_rule?_main hrule table))

/-- A variable declaration ends in a semicolon and stands on a line of its own, except in the head
of a loop. -/
theorem planFor?_variableDeclaration (hkind : n.kind? = some .variableDeclaration) :
    ∃ parts, planFor? t n .main = some (block (parts ++ [mark ";"])) ∧
      planFor? t n .loopHead = some (inline parts) := by
  cases hform : n.form with
  | unknown tag =>
      rw [Node.kind?, hform] at hkind
      cases hkind
  | known kind traits =>
      rw [Node.kind?, hform] at hkind
      obtain rfl := Option.some.inj hkind
      refine ⟨declared t n traits, ?_, ?_⟩
      · rw [planFor?_main, hform]
        rfl
      · rw [planFor?, planWithin?, hform]
        rfl

/-- A plan is that of the main table, or the same without the semicolon and on the line. -/
theorem planFor?_cases {table : Table} (h : planFor? t n table = some plan) :
    planFor? t n .main = some plan ∨
      ∃ parts, planFor? t n .main = some (block (parts ++ [mark ";"])) ∧ plan = inline parts := by
  by_cases hhead : table = .loopHead ∧ n.kind? = some .variableDeclaration
  · obtain ⟨rfl, hkind⟩ := hhead
    obtain ⟨parts, hmain, hinline⟩ := planFor?_variableDeclaration (t := t) hkind
    exact .inr ⟨parts, hmain, Option.some.inj (h.symm.trans hinline)⟩
  · rw [planFor?_eq_main fun htable hkind => hhead ⟨htable, hkind⟩] at h
    exact .inl h

end plans

/-! ### The calls of rules -/

/-- The role of a loop whose child is rendered as the head of a loop. -/
def headRole? : Kind → Option Role
  | .forStatement => some .init
  | .forInStatement | .forOfStatement => some .left
  | _ => none

/-- The role of an export whose child is kept on the line. -/
def exportedRole? : Kind → Option Role
  | .exportNamedDeclaration | .exportDefaultDeclaration => some .declaration
  | _ => none

theorem exportedRole?_of_headRole? {kind : Kind} {r : Role} (h : headRole? kind = some r) :
    exportedRole? kind = none := by
  unfold headRole? at h
  split at h <;> first | rfl | cases h

/-- The call suits a node of the kind: the head of a loop is rendered as such and nothing else is,
and the declaration of an export is kept on the line and nothing else is. -/
def Suits (kind : Option Kind) (s : Segment) (table : Table) (continued : Bool) : Prop :=
  (table = .loopHead ↔ ∃ r, kind.bind headRole? = some r ∧ s = .single r) ∧
    (continued = true ↔ ∃ r, kind.bind exportedRole? = some r ∧ s = .single r)

section suits
variable {kind : Kind} {r : Role} {i : ℕ} {table : Table} {continued : Bool}

@[simp] theorem suits_single : Suits (some kind) (.single r) table continued ↔
    (table = .loopHead ↔ headRole? kind = some r) ∧
      (continued = true ↔ exportedRole? kind = some r) := by
  have hsingle : ∀ r', Segment.single r = .single r' ↔ r = r' := fun r' =>
    ⟨fun h => Role.name_injective (congrArg Segment.field h), fun h => h ▸ rfl⟩
  simp [Suits, hsingle]

@[simp] theorem suits_element :
    Suits (some kind) (.element r i) table continued ↔ table ≠ .loopHead ∧ continued = false := by
  simp [Suits, Segment.element, Segment.single]

/-- All calls suit a node of the kind. -/
def AllSuit (kind : Option Kind) (cs : List Call) : Prop :=
  ∀ c ∈ cs, Suits kind c.segment c.table c.continued

variable {t : Tree} {n : Node} (a b : List Call)

@[simp] theorem allSuit_nil : AllSuit (some kind) [] := nofun

@[simp] theorem allSuit_append :
    AllSuit (some kind) (a ++ b) ↔ AllSuit (some kind) a ∧ AllSuit (some kind) b :=
  List.forall_mem_append

@[simp] theorem allSuit_ite (c : Prop) [Decidable c] : AllSuit (some kind) (if c then a else b) ↔
    if c then AllSuit (some kind) a else AllSuit (some kind) b := by
  split <;> rfl

theorem allSuit_flatMap (cs : List (Segment × NodeId)) :
    AllSuit (some kind) (cs.flatMap fun c => [Call.mk c.1 c.2 table continued]) ↔
      ∀ c ∈ cs, Suits (some kind) c.1 table continued := by
  simp only [AllSuit, List.forall_mem_flatMap, List.forall_mem_singleton]

@[simp] theorem allSuit_one : AllSuit (some kind)
    ((present t n r.one).flatMap fun c => [Call.mk c.1 c.2 table continued]) ↔
      present t n r.one = [] ∨ Suits (some kind) (.single r) table continued := by
  rw [allSuit_flatMap, present_one]
  cases (n.child? r).filter t.has <;> simp

@[simp] theorem allSuit_slots (indices : List ℕ) : AllSuit (some kind)
    ((indices.flatMap (slotDrawn t n r)).flatMap fun c => [Call.mk c.1 c.2 table continued]) ↔
      indices.flatMap (slotDrawn t n r) = [] ∨ table ≠ .loopHead ∧ continued = false := by
  have hslot : ∀ c ∈ indices.flatMap (slotDrawn t n r), ∃ i, c.1 = .element r i := by
    intro c hc
    obtain ⟨i, -, hc⟩ := List.mem_flatMap.mp hc
    obtain ⟨id, -, rfl⟩ := List.mem_map.mp hc
    exact ⟨i, rfl⟩
  rw [allSuit_flatMap]
  generalize indices.flatMap (slotDrawn t n r) = cs at hslot ⊢
  constructor
  · intro h
    cases cs with
    | nil => exact .inl rfl
    | cons c cs =>
        obtain ⟨i, hi⟩ := hslot c List.mem_cons_self
        have hsuits := h c List.mem_cons_self
        rw [hi, suits_element] at hsuits
        exact .inr hsuits
  · rintro (rfl | h) c hc
    · cases hc
    · obtain ⟨i, hi⟩ := hslot c hc
      rw [hi, suits_element]
      exact h

@[simp] theorem allSuit_many : AllSuit (some kind)
    ((present t n r.many).flatMap fun c => [Call.mk c.1 c.2 table continued]) ↔
      present t n r.many = [] ∨ table ≠ .loopHead ∧ continued = false := by
  rw [present_many, allSuit_slots]

end suits

section rules
variable {t : Tree} {n : Node} {kind : Kind} {traits : kind.Traits} {plan : Plan}

theorem mainRule?_suits (h : mainRule? t n kind traits = some plan) :
    AllSuit (some kind) (calls.all plan.parts) := by
  cases kind <;> dsimp only [Kind.Traits] at traits <;> cases h <;>
    simp [headRole?, exportedRole?, inline, block, text, regExp, blockStatement, guarded, sentence,
      labeled, ifStatement, switchStatement, tryStatement, doWhile, forStatement, forEach, arrow,
      yield, prefixed, operation, bind, conditional, call, array, object, spread, function, unary,
      member, classOf, objectMember, classMember, pattern]

theorem declarationRule?_suits (h : declarationRule? t n kind traits = some plan) :
    AllSuit (some kind) (calls.all plan.parts) := by
  cases kind <;> dsimp only [Kind.Traits] at traits <;> cases h <;>
    simp [headRole?, exportedRole?, inline, block, function, declared, declarator, classOf,
      declaration, pattern]

theorem patternRule?_suits (h : patternRule? t n kind traits = some plan) :
    AllSuit (some kind) (calls.all plan.parts) := by
  cases kind <;> dsimp only [Kind.Traits] at traits <;> cases h <;>
    simp [headRole?, exportedRole?, inline, text, object, array, spread, pattern, objectMember]

theorem moduleRule?_suits (h : moduleRule? t n kind traits = some plan) :
    AllSuit (some kind) (calls.all plan.parts) := by
  cases kind <;> dsimp only [Kind.Traits] at traits <;> cases h <;>
    simp [headRole?, exportedRole?, inline, block, calls.all_importDeclaration, renamed,
      exportDefault, declaration, moduleClause]

theorem objectMemberRule?_suits (h : objectMemberRule? t n kind traits = some plan) :
    AllSuit (some kind) (calls.all plan.parts) := by
  cases kind <;> dsimp only [Kind.Traits] at traits <;> cases h <;>
    simp [headRole?, exportedRole?, inline, objectProperty, method, spread, pattern]

theorem classMemberRule?_suits (h : classMemberRule? t n kind traits = some plan) :
    AllSuit (some kind) (calls.all plan.parts) := by
  cases kind <;> dsimp only [Kind.Traits] at traits <;> cases h <;>
    simp [headRole?, exportedRole?, block, method, classMethod, classProperty, pattern]

theorem loopHeadRule?_suits (h : loopHeadRule? t n kind traits = some plan) :
    AllSuit (some kind) (calls.all plan.parts) := by
  cases kind <;> dsimp only [Kind.Traits] at traits <;> cases h
  simp [inline, declared, declaration]

end rules

section plans
variable {t : Tree} {n : Node} {plan : Plan} {table : Table}

theorem rule?_suits (h : rule? t n table n.form = some plan) :
    AllSuit n.kind? (calls.all plan.parts) := by
  cases hform : n.form with
  | unknown tag =>
      rw [hform] at h
      obtain ⟨-, hplan⟩ := Option.ite_none_right_eq_some.mp h
      obtain rfl := Option.some.inj hplan
      exact nofun
  | known kind traits =>
      rw [hform] at h
      rw [show n.kind? = some kind by rw [Node.kind?, hform]; rfl]
      cases table with
      | main => exact mainRule?_suits h
      | loopHead => exact loopHeadRule?_suits h
      | family family =>
          cases family with
          | declaration => exact declarationRule?_suits h
          | pattern => exact patternRule?_suits h
          | moduleClause => exact moduleRule?_suits h
          | objectMember => exact objectMemberRule?_suits h
          | classMember => exact classMemberRule?_suits h

/-- A plan calls for children as it suits the kind of the node, whichever table it comes from. -/
theorem planFor?_suits (h : planFor? t n table = some plan) :
    AllSuit n.kind? (calls.all plan.parts) := by
  obtain ⟨table', hrule⟩ := exists_rule?_of_planFor? h
  exact rule?_suits hrule

end plans

end SyntaxLens.Rendering
