import SyntaxLens.Proofs.Fragment.Words
import SyntaxLens.Proofs.Rendering.Renumbering
import SyntaxLens.Proofs.Rendering.Subtrees

/-! # Words in a rendering

No word of a rendered tree runs into the next one on its line: `Tree.renderRoot_parted`.  It is
enough that the operators of the tree are words themselves or have no part of a word at their ends.

The layout glues the parts of three kinds of nodes.  A regular expression has a slash between any
two of its texts (`holds_regExp`).  An operator before or behind its operand is glued only if it is
not displayed as a keyword, and then it is bare (`holds_unary`).  All other parts are set apart. -/

namespace SyntaxLens

/-- The text of the operator of an expression. -/
def Form.operator? : Form → Option String
  | .known .unaryExpression (u : UnaryTraits) | .known .updateExpression (u : UnaryTraits) =>
    some u.operator
  | .known .binaryExpression (symbol : String) | .known .assignmentExpression (symbol : String)
  | .known .logicalExpression (symbol : String) => some symbol
  | _ => none

/-- An operator is written with letters of ASCII only, or it does not begin or end with a character
of a word. -/
def Alphabet.isOperator (A : Alphabet) (text : String) : Bool :=
  text.toList.all Char.isAlpha || (!A.begins text && !A.ends text)

namespace Rendering

open Fragment (Holds)
open Layout (Cohesion)

variable {A : Alphabet}

/-! ### Parts -/

section display
variable {child : Table → Path → NodeId → Option Fragment}

/-- Children are composites, so the leaves that parts show are parts themselves. -/
theorem leaf_mem_of_mem_displayAll
    (hchild : ∀ table path id f, child table path id = some f → ∃ m, f.mark? = some m)
    (path : Path) {l : Leaf} {parts : List Part} (h : .leaf l ∈ displayAll child path parts) :
    .leaf l ∈ parts := by
  induction parts with
  | nil => cases h
  | cons p rest ih =>
      rw [displayAll] at h
      rcases List.mem_append.mp h with h | h
      · cases p with
        | leaf l' =>
            obtain ⟨⟩ := List.mem_singleton.mp h
            exact List.mem_cons_self
        | child s id table continued =>
            rw [display] at h
            cases hf : child table (path ++ [s]) id with
            | none =>
                rw [hf] at h
                cases h
            | some f =>
                rw [hf] at h
                obtain ⟨m, hm⟩ := hchild _ _ _ f hf
                rw [← mark?_placed continued, placed, ← List.mem_singleton.mp h] at hm
                cases hm
        | group flow parts => cases List.mem_singleton.mp h
      · exact List.mem_cons_of_mem p (ih h)

theorem coheres_of_mem_displayAll
    (hchild : ∀ table path id f, child table path id = some f → f.Coheres A) (path : Path)
    (parts : List Part) : ∀ f ∈ displayAll child path parts, f.Coheres A := by
  have hrelates : Visitor.Relates (fun fs (_ : List Call) => ∀ f ∈ fs, f.Coheres A)
      (shows child path) calls := by
    refine ⟨nofun, fun ha hb f hf => ?_, fun l f hf => ?_, fun flow parts h f hf => ?_⟩
    · exact (List.mem_append.mp hf).elim (ha f) (hb f)
    · obtain rfl := List.mem_singleton.mp hf
      trivial
    · obtain rfl := List.mem_singleton.mp hf
      exact ⟨Fragment.holds_loose _, Fragment.coheresAll_iff.mpr h⟩
  rw [displayAll_eq]
  refine hrelates.all parts fun c _ f hf => ?_
  simp only [shows, display] at hf
  cases hg : child c.table (path ++ [c.segment]) c.id with
  | none =>
      rw [hg] at hf
      cases hf
  | some g =>
      rw [hg] at hf
      obtain rfl := List.mem_singleton.mp hf
      have hg := hchild _ _ _ g hg
      cases c.continued <;> cases g <;> exact hg

/-! ### Plans -/

variable {t : Tree} {n : Node} {table : Table} {plan : Plan}

theorem slotPart?_ne_leaf (s : Segment) (slot : Option NodeId) (l : Leaf) :
    slotPart? t s slot table ≠ some (.leaf l) := by
  unfold slotPart?
  split
  · split <;> nofun
  · nofun

theorem not_leaf_mem_only {l : Leaf} {r : Role} : .leaf l ∉ only t n r table := by
  rw [only, Option.mem_toList]
  exact slotPart?_ne_leaf _ _ l

/-- An operator that is not displayed as a keyword can be glued to anything. -/
theorem isBare_operator {text : String} (h : A.isOperator text = true) {l : Leaf}
    (hl : operator text = .leaf l) (hkind : l.kind = .operator) : A.isBare l.text = true := by
  obtain rfl := Part.leaf.inj hl
  cases hletters : text.toList.all Char.isAlpha with
  | true => simp [hletters] at hkind
  | false =>
      have hfull : text.isEmpty = false := by
        by_contra hempty
        have hempty : text = "" := by simpa using hempty
        rw [hempty] at hletters
        cases hletters
      rw [Alphabet.isOperator, hletters, Bool.false_or] at h
      rw [Alphabet.isBare, hfull]
      exact h

/-- An operator and its operand. -/
theorem holds_unary
    (hchild : ∀ table path id f, child table path id = some f → ∃ m, f.mark? = some m)
    (path : Path) {u : UnaryTraits} (hu : A.isOperator u.operator = true) :
    Holds A ⟨true, false⟩ (displayAll child path (unary t n u).parts) where
  attached f hf hattached := by
    cases f with
    | composite _ _ _ => cases hattached
    | leaf l =>
        have hkind : l.kind = .operator := by simpa [Cohesion.attaches] using hattached
        have hl := leaf_mem_of_mem_displayAll hchild path hf
        unfold unary inline at hl
        dsimp only at hl
        have hoperator : operator u.operator = .leaf l := by
          split at hl <;> simpa [not_leaf_mem_only, eq_comm] using hl
        exact isBare_operator hu hoperator hkind
  solid hsolid := absurd hsolid Bool.false_ne_true

/-- A slash stands between any two texts of a regular expression. -/
theorem holds_regExp (path : Path) (re : RegExpTraits) :
    Holds A ⟨false, true⟩ (displayAll child path (regExp re).parts) where
  attached f _ hattached := by cases f <;> cases hattached
  solid _ := by
    have hslash : A.isBare "/" = true := by
      have hascii : isAscii "/" = true := by decide
      rw [Alphabet.isBare, Alphabet.begins_of_ascii hascii, Alphabet.ends_of_ascii hascii]
      decide
    cases hflags : re.flags.isEmpty <;>
      simp [regExp, hflags, inline, mark, display, displayAll, Fragment.isBare, hslash]

/-- One leaf that is no operator. -/
theorem holds_leaf (k : Cohesion) {l : Leaf} (hkind : l.kind ≠ .operator) :
    Holds A k [.leaf l] where
  attached f hf hattached := by
    obtain rfl := List.mem_singleton.mp hf
    simp [Cohesion.attaches, hkind] at hattached
  solid _ := List.isChain_singleton _

/-- The parts of a node hold together without words. -/
theorem holds_of_planFor? (h : planFor? t n table = some plan)
    (hoperator : ∀ text, n.form.operator? = some text → A.isOperator text = true)
    (hchild : ∀ table path id f, child table path id = some f → ∃ m, f.mark? = some m)
    (path : Path) : Holds A (Cohesion.of (some n.tag)) (displayAll child path plan.parts) := by
  rw [Node.tag]
  cases hform : n.form with
  | unknown tag =>
      obtain rfl := plan_eq_of_rule?_main h hform rfl
      exact holds_leaf _ LeafClass.noConfusion
  | known kind traits =>
      rw [hform] at hoperator
      cases kind with
      | regExpLiteral =>
          obtain rfl := plan_eq_of_rule?_main h hform rfl
          exact holds_regExp path traits
      | unaryExpression | updateExpression =>
          obtain rfl := plan_eq_of_rule?_main h hform rfl
          exact holds_unary hchild path (hoperator _ rfl)
      | _ => exact Fragment.holds_loose _

end display

/-! ### Trees -/

/-- A node and all that is below it hold together without words. -/
theorem coheres_of_renderAt {A : Alphabet} {t : Tree} (hoperators : ∀ id n, t.node? id = some n →
    ∀ text, n.form.operator? = some text → A.isOperator text = true) (focus : Option Path)
    (depth : ℕ) : ∀ (table : Table) (path : Path) (id : NodeId) (f : Fragment),
      renderAt t focus depth table path id = some f → f.Coheres A := by
  induction depth with
  | zero => intro table path id f h; cases h
  | succ depth ih =>
      intro table path id f h
      obtain ⟨n, plan, hn, hplan, rfl⟩ := exists_plan_of_renderAt h
      exact ⟨holds_of_planFor? hplan (hoperators id n hn) (exists_mark_of_renderAt depth) path,
        Fragment.coheresAll_iff.mpr (coheres_of_mem_displayAll ih path plan.parts)⟩

end Rendering

namespace Tree

/-- Whatever the tree and the focus are, the root has a rendering if it is in the arena, and no word
in the layout of that runs into the next one on its line.  The operators of the tree must be words
themselves or have no part of a word at their ends. -/
theorem renderRoot_parted (t : Tree) (A : Alphabet)
    (hoperators : ∀ id n, t.node? id = some n → ∀ text, n.form.operator? = some text →
      A.isOperator text = true) (focus : Option Path) (unit : String) :
    ((t.renderRoot focus).isSome ↔ t.has t.root) ∧
    ∀ f, t.renderRoot focus = some f → ∀ line ∈ f.layout unit, A.Parted line := by
  refine ⟨isSome_render_iff, fun f hf => ?_⟩
  rw [renderRoot_eq] at hf
  exact Fragment.parted_layout
    (Rendering.coheres_of_renderAt hoperators focus t.size .main [] t.root f hf) unit

/-- A search with a keyword and a sign in front of its left side, for a regular expression. -/
def searching : Array Node := #[
  .ofEntries (.known .binaryExpression "in") [(.left, some 1), (.right, some 4)],
  .ofEntries (.known .unaryExpression ⟨"-", true⟩) [(.argument, some 2)],
  .ofEntries (.known .unaryExpression ⟨"typeof", true⟩) [(.argument, some 3)],
  .ofEntries (.known .identifier "x") [],
  .ofEntries (.known .regExpLiteral ⟨"a", "g"⟩) []]

theorem renderRoot_parted_searching : let t := ofNodes searching 0
    (∀ id n, t.node? id = some n → ∀ text, n.form.operator? = some text →
      Alphabet.ascii.isOperator text = true) ∧
    ∃ f, t.renderRoot (some [⟨"left", none⟩]) = some f ∧
      f.toText "  " = "»-typeof x« in /a/g\n" ∧
      ∀ line ∈ f.layout "  ", Alphabet.ascii.Parted line := by
  intro t
  have hoperators : ∀ id n, t.node? id = some n → ∀ text, n.form.operator? = some text →
      Alphabet.ascii.isOperator text = true := by
    intro id n hn text htext
    have hlt : id < t.nodes.size := by simpa [has] using t.has_of_node? hn
    have table : ∀ id < 5, ((t.node? id).bind fun n => n.form.operator?).all
        Alphabet.ascii.isOperator = true := by decide
    simpa [hn, htext] using table id hlt
  obtain ⟨hsome, hparted⟩ := renderRoot_parted t .ascii hoperators (some [⟨"left", none⟩]) "  "
  obtain ⟨f, hf⟩ := Option.isSome_iff_exists.mp (hsome.mpr rfl)
  have htext : (t.renderRoot (some [⟨"left", none⟩])).map (Fragment.toText "  ") =
      some "»-typeof x« in /a/g\n" := by decide +kernel
  rw [hf] at htext
  exact ⟨hoperators, f, hf, Option.some.inj htext, hparted f hf⟩

end Tree

end SyntaxLens
