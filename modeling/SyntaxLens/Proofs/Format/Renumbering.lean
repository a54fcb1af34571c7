import SyntaxLens.Format.Registry
import SyntaxLens.Proofs.Format.Entries
import SyntaxLens.Proofs.Rendering.Renumbering

/-! # Formats and renumbered arenas

An outline keeps the places that it has seen and stops at the size of the arena, so it could show
how the places are numbered.  It does not: the lines of a tree and of its renumbering are the same
line by line (`Renumbering.entries`), because counterparts are seen together and no way down is as
long as either arena.  With the rendered formats, a renumbering shows in no text that is printed and
in no path that the focus takes: `renumbering_invisible`. -/

namespace SyntaxLens

namespace Outline

/-! ### Depth -/

section depth
variable {t : Tree}

theorem siblings_congr {below below' : NodeId → String → List NodeId → List Entry × List NodeId}
    {lead : String} {children : List (Segment × NodeId)}
    (h : ∀ c ∈ children, t.has c.2 → ∀ lead seen, below c.2 lead seen = below' c.2 lead seen) :
    ∀ seen, siblings t below lead children seen = siblings t below' lead children seen := by
  induction children with
  | nil => exact fun _ => rfl
  | cons child rest ih =>
      obtain ⟨s, id⟩ := child
      rw [List.forall_mem_cons] at h
      intro seen
      by_cases hf : Tree.Fresh t.nodes seen id
      · have hhas : t.has id := (t.fresh_iff_has id).mp ⟨hf.1, List.not_mem_nil⟩
        simp only [siblings_of_fresh hf, h.1 hhas, ih h.2]
      · rw [siblings_of_not_fresh hf, siblings_of_not_fresh hf, ih h.2]

theorem step?_of_mem_segments {id : NodeId} {c : Segment × NodeId} (hc : c ∈ t.segments id)
    (hhas : t.has c.2) : t.step? id c.1 = some c.2 := by
  cases hn : t.node? id with
  | none => simp [Tree.segments, hn] at hc
  | some n =>
      rw [Tree.segments, hn] at hc
      exact (t.step?_eq_some_iff id c.1 c.2).mpr ⟨⟨n, hn, (n.mem_segments_iff c.1 c.2).mp hc⟩, hhas⟩

/-- Paths from a child are one step shorter than paths from the node. -/
theorem length_lt_of_child {id : NodeId} {c : Segment × NodeId} {depth : ℕ}
    (h : ∀ p d, t.follow? id p = some d → p.length < depth + 1) (hc : c ∈ t.segments id)
    (hhas : t.has c.2) : ∀ p d, t.follow? c.2 p = some d → p.length < depth := by
  intro p d hp
  have hlen := h (c.1 :: p) d
  rw [t.follow?_cons, step?_of_mem_segments hc hhas, List.length_cons] at hlen
  exact Nat.lt_of_succ_lt_succ (hlen hp)

/-- Two depths beyond all paths show the same lines. -/
theorem below_eq_of_length_lt (t : Tree) (depth : ℕ) : ∀ (depth' : ℕ) (id : NodeId),
    (∀ p c, t.follow? id p = some c → p.length < depth) →
      (∀ p c, t.follow? id p = some c → p.length < depth') →
      ∀ (lead : String) (seen : List NodeId),
        below t depth id lead seen = below t depth' id lead seen := by
  induction depth with
  | zero =>
      intro depth' id h
      cases h [] id rfl
  | succ depth ih =>
      intro depth' id h h' lead seen
      obtain ⟨depth', rfl⟩ : ∃ k, depth' = k + 1 := by
        have hpos := h' [] id rfl
        exact ⟨depth' - 1, by simp at hpos; omega⟩
      rw [below, below]
      refine siblings_congr (fun c hc hhas => ?_) seen
      exact ih depth' c.2 (length_lt_of_child h hc hhas) (length_lt_of_child h' hc hhas)

theorem below_eq_of_size_le {id : NodeId} (h : t.AcyclicFrom id) (hhas : t.has id) {depth : ℕ}
    (hdepth : t.size ≤ depth) (lead : String) (seen : List NodeId) :
    below t depth id lead seen = below t t.size id lead seen := by
  have hlt : ∀ p c, t.follow? id p = some c → p.length < t.size :=
    fun p c hp => h.length_lt hhas hp
  exact below_eq_of_length_lt t depth t.size id (fun p c hp => (hlt p c hp).trans_le hdepth) hlt
    lead seen

end depth

/-- The line with a new place for its node. -/
def Entry.renumber (σ : NodeId → NodeId) (e : Entry) : Entry := ⟨e.lead, σ e.id⟩

/-- Lines and places seen in an arena, and the same in a renumbered one. -/
structure Matches (t : Tree) (σ : NodeId → NodeId) (shown shown' : List Entry × List NodeId) :
    Prop where
  lines : shown'.1 = shown.1.map (Entry.renumber σ)
  seen : shown'.2 = shown.2.map σ
  reached : ∀ id ∈ shown.2, id ∈ t.order

end Outline

namespace Tree.Renumbering

open Outline

variable {t u : Tree} {σ : NodeId → NodeId} (h : Renumbering t u σ)

/-! ### Labels -/

section labels
include h

theorem nameIn {n m : Node} (hnm : n.Alike (Counterpart t u σ) m) (r : Role) :
    u.nameIn m r = t.nameIn n r := by
  rw [Tree.nameIn, Tree.nameIn, h.childForm? hnm]

theorem labelOf {n m : Node} (hnm : n.Alike (Counterpart t u σ) m) (kind : Kind)
    (traits : kind.Traits) : u.labelOf m kind traits = t.labelOf n kind traits := by
  have htest : (m.child? .test).isNone = (n.child? .test).isNone := by
    obtain ⟨ha, hb⟩ | ⟨a, b, ha, hb, -⟩ := cases_of_rel (hnm.child?_rel .test)
    · rw [ha, hb]
    · rw [ha, hb]
      rfl
  cases kind <;> dsimp only [Kind.Traits] at traits <;> simp [Tree.labelOf, h.nameIn hnm, htest]

theorem label {id : NodeId} (hid : id ∈ t.order) : u.label (σ id) = t.label id := by
  obtain ⟨n, m, hn, hm, hnm⟩ := h.exists_alike hid
  rw [Tree.label, Tree.label, hn, hm]
  simp only [← hnm.form]
  cases n.form with
  | known kind traits => exact h.labelOf hnm kind traits
  | unknown _ => rfl

/-- Counterparts have the same description, and are in focus together. -/
theorem describe (focus : Path) (width : ℕ) {id : NodeId} (hid : id ∈ t.order) :
    Outline.describe u (u.resolve focus) width (σ id) =
      Outline.describe t (t.resolve focus) width id := by
  obtain ⟨n, m, hn, hm, hnm⟩ := h.exists_alike hid
  have hfocus : u.resolve focus = some (σ id) ↔ t.resolve focus = some id := by
    rw [h.resolve]
    constructor
    · intro hsome
      obtain ⟨c, hc, heq⟩ := Option.map_eq_some_iff.mp hsome
      rw [hc, h.bijOn.injOn (t.mem_order_of_resolve hc) hid heq]
    · intro hsome
      rw [hsome, Option.map_some]
  unfold Outline.describe
  simp only [hn, hm, h.label hid, hnm.tag_eq, hnm.kind?_eq, hfocus]

end labels

/-! ### Lines -/

section lines
include h

theorem segments_rel {id : NodeId} (hid : id ∈ t.order) :
    List.Forall₂ (StepRel (Counterpart t u σ)) (t.segments id) (u.segments (σ id)) := by
  obtain ⟨n, m, hn, hm, hnm⟩ := h.exists_alike hid
  rw [Tree.segments, Tree.segments, hn, hm]
  exact hnm.segments_rel

theorem contains_map {seen : List NodeId} (hseen : ∀ c ∈ seen, c ∈ t.order) {id : NodeId}
    (hid : id ∈ t.order) : (seen.map σ).contains (σ id) = seen.contains id := by
  rw [Bool.eq_iff_iff, List.contains_iff_mem, List.contains_iff_mem, List.mem_map]
  constructor
  · rintro ⟨c, hc, heq⟩
    exact h.bijOn.injOn (hseen c hc) hid heq ▸ hc
  · exact fun hmem => ⟨id, hmem, rfl⟩

theorem siblings {below below' : NodeId → String → List NodeId → List Entry × List NodeId}
    (hbelow : ∀ id ∈ t.order, ∀ (lead : String) (seen : List NodeId), (∀ c ∈ seen, c ∈ t.order) →
      Matches t σ (below id lead seen) (below' (σ id) lead (seen.map σ)))
    (lead : String) {children children' : List (Segment × NodeId)}
    (hchildren : List.Forall₂ (StepRel (Counterpart t u σ)) children children') :
    ∀ seen : List NodeId, (∀ c ∈ seen, c ∈ t.order) →
      Matches t σ (Outline.siblings t below lead children seen)
        (Outline.siblings u below' lead children' (seen.map σ)) := by
  induction hchildren with
  | nil => exact fun seen hseen => ⟨rfl, rfl, hseen⟩
  | @cons c d rest rest' hcd hrest ih =>
      obtain ⟨s, id⟩ := c
      obtain ⟨_, id'⟩ := d
      obtain ⟨rfl, hid⟩ := hcd
      intro seen hseen
      have hhas := h.has_eq hid
      have hlast : rest'.isEmpty = rest.isEmpty := by cases hrest <;> rfl
      rw [Outline.siblings, Outline.siblings, hlast]
      obtain ⟨hid, rfl⟩ | ⟨hout, hout'⟩ := hid
      · rw [h.contains_map hseen hid, ← hhas]
        split
        · exact ih seen hseen
        · obtain ⟨hlines, hseen', hreached⟩ := hbelow id hid
            (lead ++ if rest.isEmpty then "   " else "│  ") (id :: seen)
            (List.forall_mem_cons.mpr ⟨hid, hseen⟩)
          obtain ⟨hlines', hafter, hreached'⟩ := ih _ hreached
          rw [List.map_cons] at hlines hseen'
          refine ⟨?_, ?_, hreached'⟩
          · simp only [hseen', hlines, hlines', List.map_cons, List.map_append]
            rfl
          · simp only [hseen', hafter]
      · rw [Bool.eq_false_iff.mpr hout, Bool.eq_false_iff.mpr hout', Bool.not_false,
          Bool.or_true, Bool.or_true, if_pos rfl, if_pos rfl]
        exact ih seen hseen

theorem below (depth : ℕ) : ∀ id ∈ t.order, ∀ (lead : String) (seen : List NodeId),
    (∀ c ∈ seen, c ∈ t.order) →
      Matches t σ (Outline.below t depth id lead seen)
        (Outline.below u depth (σ id) lead (seen.map σ)) := by
  induction depth with
  | zero => exact fun _ _ _ seen hseen => ⟨rfl, rfl, hseen⟩
  | succ depth ih =>
      intro id hid lead seen hseen
      exact h.siblings ih lead (h.segments_rel hid) seen hseen

/-- The lines are the same, with new places. -/
theorem entries (hacyclic : t.AcyclicFrom t.root) :
    Outline.entries u = (Outline.entries t).map (Entry.renumber σ) := by
  unfold Outline.entries
  rw [← h.has_eq h.root]
  split
  · rename_i hhas
    obtain ⟨hroot, heq⟩ := mem_order_of_has h.root hhas
    have hhas' : u.has u.root := h.has_eq h.root ▸ hhas
    have ht := below_eq_of_size_le hacyclic hhas (Nat.le_max_left t.size u.size) "" [t.root]
    have hu := below_eq_of_size_le (h.acyclicFrom hacyclic) hhas' (Nat.le_max_right t.size u.size)
      "" [u.root]
    have hlines := (h.below (max t.size u.size) t.root hroot "" [t.root]
      (List.forall_mem_singleton.mpr hroot)).lines
    rw [List.map_singleton, heq, ht, hu] at hlines
    rw [hlines, List.map_cons, Entry.renumber, heq]
  · rfl

theorem outline (hacyclic : t.AcyclicFrom t.root) (focus : Path) (width : ℕ) :
    u.outline focus width = t.outline focus width := by
  unfold Tree.outline
  rw [h.entries hacyclic, List.map_map]
  congr 1
  refine List.map_congr_left fun e he => ?_
  have hid : e.id ∈ t.order := ids_entries t ▸ List.mem_map_of_mem he
  rw [Function.comp_apply, Entry.renumber, h.describe focus width hid]

end lines

end Tree.Renumbering

namespace Tree

/-- A tree without a cycle and its renumbering cannot be told apart.  At every focus and with all
options they have the same text, the same markup and the same outline; a path leads to counterparts
in both, or nowhere in both; and the focus moves the same way. -/
theorem renumbering_invisible {t u : Tree} {σ : NodeId → NodeId} (h : Renumbering t u σ)
    (hacyclic : t.AcyclicFrom t.root) :
    (∀ (focus : Path) (options : FormatOptions),
      (Format.text options).print u focus = (Format.text options).print t focus ∧
      Format.tag.print u focus = Format.tag.print t focus ∧
      (Format.outline options).print u focus = (Format.outline options).print t focus) ∧
    (∀ p : Path, u.resolve p = (t.resolve p).map σ) ∧
    ∀ (p : Path) (d : Direction), u.move p d = t.move p d := by
  refine ⟨fun focus options => ⟨?_, ?_, ?_⟩, h.resolve, h.move⟩
  · simp only [Format.text, h.renderRoot hacyclic, Option.map_map, Function.comp_def,
      Fragment.toText_renumber]
  · simp only [Format.tag, h.renderRoot hacyclic, Option.map_map, Function.comp_def,
      Fragment.toMarkup_renumber]
  · simp only [Format.outline, h.outline hacyclic]

/-- A block with one statement twice, a hole and a place outside, numbered from the top, and a node
that is left over. -/
def downward : Tree := ofNodes #[
  .ofEntries (.known .blockStatement ())
    [(.body, some 1), (.body, none), (.body, some 9), (.body, some 1)],
  .ofEntries (.known .expressionStatement ()) [(.expression, some 2)],
  .ofEntries (.known .identifier "x") [],
  .ofEntries (.known .debuggerStatement ()) []] 0

/-- The same block, built from the bottom up. -/
def upward : Tree := ofNodes #[
  .ofEntries (.known .identifier "x") [],
  .ofEntries (.known .expressionStatement ()) [(.expression, some 0)],
  .ofEntries (.known .blockStatement ())
    [(.body, some 1), (.body, none), (.body, some 7), (.body, some 1)]] 2

theorem renumbering_upward : Renumbering downward upward (2 - ·) := by
  have hmaps : ∀ id ∈ downward.order, 2 - id ∈ upward.order := by decide
  have hinj : ∀ a ∈ downward.order, ∀ b ∈ downward.order, 2 - a = 2 - b → a = b := by decide
  have hsurj : ∀ b ∈ upward.order, ∃ a ∈ downward.order, 2 - a = b := by decide
  have inside : ∀ id ∈ downward.order, Counterpart downward upward (2 - ·) id (2 - id) :=
    fun id hid => .inl ⟨hid, rfl⟩
  have outside : Counterpart downward upward (2 - ·) 9 7 := .inr ⟨by decide, by decide⟩
  have statement := inside 1 (by decide)
  refine ⟨⟨fun id hid => hmaps id hid, fun a ha b hb => hinj a ha b hb, fun b hb => hsurj b hb⟩,
    inside 0 (by decide), ?_⟩
  rw [show downward.order = [0, 1, 2] by decide]
  refine List.forall_mem_cons.mpr ⟨?_, List.forall_mem_cons.mpr ⟨?_, ?_⟩⟩
  · exact .some ⟨rfl, .cons ⟨rfl, .many .nil⟩ (.cons ⟨rfl, .many (.cons (.some statement)
      (.cons .none (.cons (.some outside) (.cons (.some statement) .nil))))⟩ .nil)⟩
  · exact .some ⟨rfl, .cons ⟨rfl, .one (.some (inside 2 (by decide)))⟩ .nil⟩
  · exact List.forall_mem_singleton.mpr (.some ⟨rfl, .nil⟩)

theorem renumbering_invisible_upward : downward.AcyclicFrom downward.root ∧
    (∀ (focus : Path) (options : FormatOptions),
      (Format.text options).print upward focus = (Format.text options).print downward focus ∧
      Format.tag.print upward focus = Format.tag.print downward focus ∧
      (Format.outline options).print upward focus =
        (Format.outline options).print downward focus) ∧
    (∀ p : Path, upward.resolve p = (downward.resolve p).map (2 - ·)) ∧
    ∀ (p : Path) (d : Direction), upward.move p d = downward.move p d := by
  have hlater : ∀ owner, ∀ c ∈ downward.children owner, owner < c := by
    intro owner c hc
    have hlt := downward.lt_size_of_mem_children hc
    have table : ∀ owner < 4, ∀ c ∈ downward.children owner, owner < c := by decide
    exact table owner hlt c hc
  have hacyclic := acyclicFrom_of_lt hlater downward.root
  exact ⟨hacyclic, renumbering_invisible renumbering_upward hacyclic⟩

end Tree

end SyntaxLens
