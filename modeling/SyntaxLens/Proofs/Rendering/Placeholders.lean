import SyntaxLens.Proofs.Document.Origin
import SyntaxLens.Proofs.Rendering.Spacing
import SyntaxLens.Proofs.Rendering.Tables

/-! # Placeholders

Rendering leaves out no node and keeps the tags (`Tree.render_keeps_tags`): where no cycle is reached
it ends, a node of the arena always gives a composite, and this is marked with the tag of the node.

* A node of unknown kind is displayed as one text of its own class.  No rule for a known kind has a
  text of this class among its parts (`Rendering.planFor?_main_plain`), and children are composites,
  so nothing else is taken for a placeholder (`Rendering.isUnknown_of_renderAt`).
* What was loaded has the form of the object that it was read from (`Document.form_eq_read`), which
  is unknown exactly if its type is the tag of no kind (`Form.isUnknown_read`). -/

namespace SyntaxLens

namespace Rendering

/-! ### Plans of known kinds -/

section plans
variable {t : Tree} {n : Node} {plan : Plan} {table : Table}

theorem texts_planFor?_main (h : planFor? t n .main = some plan) (hknown : n.isUnknown = false) :
    (texts .unknown).all plan.parts = [] := by
  rw [planFor?_main] at h
  cases hform : n.form with
  | unknown tag =>
      rw [Node.isUnknown, hform] at hknown
      cases hknown
  | known kind traits =>
      rw [hform] at h
      cases kind <;> dsimp only [Kind.Traits] at traits <;> cases h <;>
        simp [inline, block, text, regExp, arrow, yield, array, object, unary, operation, spread,
          member, bind, conditional, call, prefixed, objectProperty, method, blockStatement,
          sentence, labeled, ifStatement, switchStatement, tryStatement, guarded, doWhile,
          forStatement, forEach, function, declared, declarator, classOf, classMethod,
          classProperty, Visitor.all_importDeclaration, renamed, exportDefault]

/-- No part of a plan for a node of a known kind is a text that stands for an unknown node. -/
theorem planFor?_main_plain (h : planFor? t n .main = some plan) (hknown : n.isUnknown = false)
    {l : Leaf} (hl : .leaf l ∈ plan.parts) : l.kind ≠ .unknown := by
  have hnone := texts_planFor?_main h hknown
  rw [Visitor.all_eq_flatMap, List.flatMap_eq_nil_iff] at hnone
  intro hkind
  simpa [hkind] using hnone _ hl

end plans

/-! ### Rendered nodes -/

theorem Fragment.isUnknown_composite_iff {flow : Flow} {mark : Option Mark}
    {children : List Fragment} : (Fragment.composite flow mark children).isUnknown = true ↔
      ∃ l, children = [.leaf l] ∧ l.kind = .unknown := by
  unfold Fragment.isUnknown
  split
  · rename_i h
    obtain ⟨rfl, rfl, rfl⟩ := Fragment.composite.inj h
    simp
  · rename_i h
    refine iff_of_false Bool.false_ne_true ?_
    rintro ⟨l, rfl, -⟩
    exact h _ _ l rfl

/-- What is rendered for a node is marked with its tag, and it is a placeholder exactly if the node
is of unknown kind. -/
theorem isUnknown_of_renderAt {t : Tree} {focus : Option Path} {depth : ℕ} {path : Path}
    {id : NodeId} {f : Fragment} (h : renderAt t focus depth .main path id = some f) :
    ∃ n, t.node? id = some n ∧ f.mark? = some ⟨id, n.tag, path, focus == some path⟩ ∧
      f.isUnknown = n.isUnknown ∧
      ∀ tag, n.form = .unknown tag → f.leaves = [⟨.unknown, "[UNKNOWN: " ++ tag ++ "]"⟩] := by
  cases depth with
  | zero => cases h
  | succ depth =>
      obtain ⟨n, plan, hn, hplan, rfl⟩ := exists_plan_of_renderAt h
      refine ⟨n, hn, rfl, ?_⟩
      cases hform : n.form with
      | unknown tag =>
          obtain rfl := plan_eq_of_rule?_main hplan hform rfl
          refine ⟨by rw [Node.isUnknown, hform]; rfl, ?_⟩
          rintro _ ⟨⟩
          rfl
      | known kind traits =>
          have hknown : n.isUnknown = false := by rw [Node.isUnknown, hform]; rfl
          refine ⟨?_, nofun⟩
          rw [hknown, ← Bool.not_eq_true, Fragment.isUnknown_composite_iff]
          rintro ⟨l, hchildren, hl⟩
          -- Children are composites, so the text is a part of the plan.
          have hmem : .leaf l ∈ displayAll (renderAt t focus depth) path plan.parts :=
            hchildren ▸ List.mem_singleton_self _
          have hl' := leaf_mem_of_mem_displayAll (exists_mark_of_renderAt depth) path hmem
          exact planFor?_main_plain hplan hknown hl' hl

end Rendering

/-! ### Tags that no kind has -/

theorem Kind.ofTag?_eq_none_iff (tag : String) : ofTag? tag = none ↔ tag ∉ all.map Kind.tag := by
  simp [ofTag?]

theorem Form.isUnknown_read (tag : String) (ms : Json.Members) :
    (read tag ms).isUnknown = true ↔ tag ∉ Kind.all.map Kind.tag := by
  rw [← Kind.ofTag?_eq_none_iff, read]
  cases Kind.ofTag? tag <;> simp [isUnknown]

theorem Kind.tag_injective : Function.Injective tag := by
  intro kind kind' h
  rw [← Option.some.injEq, ← ofTag?_tag kind, h, ofTag?_tag]

theorem Kind.tags_nodup : (all.map Kind.tag).Nodup :=
  List.Nodup.map tag_injective (by decide)

namespace Tree

open Rendering (Emits)

theorem render_eq (t : Tree) (focus : Option Path) (id : NodeId) : t.render focus id =
    Rendering.renderAt t ((t.pathOf? id).bind fun _ => focus) t.size .main
      ((t.pathOf? id).getD []) id := by
  unfold render
  cases t.pathOf? id <;> rfl

/-- From a slot whose node reaches no cycle, rendering ends by itself, in one way, and gives a
fragment exactly if there is a node in the slot and the arena has it, whatever stands below.  The
fragment is a composite with the tag of the node, and a placeholder exactly if the node is of
unknown kind; its only leaf then is the text with the tag.  A node that was loaded has the type of
the object that it was read from, and it is of unknown kind exactly if this is none of the 77 tags
of kinds. -/
theorem render_keeps_tags (t : Tree) (slot : Option NodeId)
    (hacyclic : ∀ id ∈ slot, t.AcyclicFrom id) (focus : Option Path) :
    ((slot.bind (t.render focus)).isSome ↔ ∃ id ∈ slot, t.has id) ∧
    (∀ id ∈ slot, ∀ out after, Emits t ((t.pathOf? id).bind fun _ => focus) (.node .main id)
        ((t.pathOf? id).getD []) out after ↔
      out = (t.render focus id).toList ∧ after = (t.pathOf? id).getD []) ∧
    (∀ id ∈ slot, ∀ f, t.render focus id = some f → ∃ n mark, t.node? id = some n ∧
      f.mark? = some mark ∧ mark.id = id ∧ mark.tag = n.tag ∧ f.isUnknown = n.isUnknown ∧
      ∀ tag, n.form = .unknown tag → f.leaves = [⟨.unknown, "[UNKNOWN: " ++ tag ++ "]"⟩]) ∧
    (Kind.all.map Kind.tag).Nodup ∧ (Kind.all.map Kind.tag).length = 77 ∧
    ∀ json, Document.load json = .ok t → ∀ id ∈ slot, ∀ f, t.render focus id = some f →
      ∃ p value tag, t.resolve p = some id ∧ Document.source? json p = some value ∧
        value.tag? = some tag ∧ f.mark?.map Mark.tag = some tag ∧
        (f.isUnknown = true ↔ tag ∉ Kind.all.map Kind.tag) := by
  refine ⟨?_, fun id hid out after => ?_, fun id _ f hf => ?_, Kind.tags_nodup, rfl, ?_⟩
  · cases slot with
    | none => simp
    | some id => simpa using isSome_render_iff
  · rw [render_eq]
    exact Rendering.emits_iff (hacyclic id hid)
  · rw [render_eq] at hf
    obtain ⟨n, hn, hmark, hunknown, hleaves⟩ := Rendering.isUnknown_of_renderAt hf
    exact ⟨n, _, hn, hmark, rfl, rfl, hunknown, hleaves⟩
  · intro json hload id _ f hf
    rw [render_eq] at hf
    obtain ⟨n, hn, hmark, hunknown, -⟩ := Rendering.isUnknown_of_renderAt hf
    obtain ⟨p, hp⟩ : ∃ p, t.resolve p = some id := (t.reached_tfae id).out 0 1 |>.mp
      ((Document.strict_of_load hload).mem_order (t.has_of_node? hn))
    obtain ⟨ms, tag, n', hsource, htag, hn', hform⟩ := Document.form_eq_read hload hp
    obtain rfl := Option.some.inj (hn.symm.trans hn')
    refine ⟨p, _, tag, hp, hsource, htag, ?_, ?_⟩
    · rw [hmark, Option.map_some, Node.tag, hform, Form.tag_read]
    · rw [hunknown, Node.isUnknown, hform, Form.isUnknown_read]

/-- A table with a file and, by reference, a node of a type that no kind has. -/
def foreign : Json := .object [
  ("5", .object [("type", .string "File"), ("program", .number (.natural 9))]),
  ("9", .object [("type", .string "JSXFragment"), ("body", .array [
    .object [("type", .string "Super")]])])]

theorem render_keeps_tags_foreign : ∃ t f, Document.load foreign = .ok t ∧ t.AcyclicFrom 1 ∧
    t.render (some []) 1 = some f ∧ f.isUnknown = true ∧
    f.leaves = [⟨.unknown, "[UNKNOWN: JSXFragment]"⟩] := by
  obtain ⟨t, hload, hform⟩ : ∃ t, Document.load foreign = .ok t ∧
      (t.node? 1).map Node.form = some (.unknown "JSXFragment") := ⟨_, rfl, rfl⟩
  obtain ⟨n, hn, hform⟩ := Option.map_eq_some_iff.mp hform
  have hacyclic : t.AcyclicFrom 1 := (Document.strict_of_load hload).acyclicFrom 1
  obtain ⟨hsome, -, hrendered, -, -, hloaded⟩ :=
    render_keeps_tags t (some 1) (fun id hid => Option.some.inj hid ▸ hacyclic) (some [])
  obtain ⟨f, hf⟩ := Option.isSome_iff_exists.mp (hsome.mpr ⟨1, rfl, t.has_of_node? hn⟩)
  obtain ⟨n', mark, hn', hmark, -, htag, -, hleaves⟩ := hrendered 1 rfl f hf
  obtain rfl := Option.some.inj (hn.symm.trans hn')
  obtain ⟨p, value, tag, -, -, -, htag', hunknown⟩ := hloaded foreign hload 1 rfl f hf
  rw [hmark, Option.map_some, htag, Node.tag, hform, Option.some.injEq] at htag'
  exact ⟨t, f, hload, hacyclic, hf, hunknown.mpr (htag' ▸ by decide), hleaves _ hform⟩

end Tree

end SyntaxLens
