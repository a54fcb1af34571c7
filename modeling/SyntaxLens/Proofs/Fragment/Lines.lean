import Mathlib.Data.List.Chain
import SyntaxLens.Proofs.Fragment.Between
import SyntaxLens.Proofs.Fragment.Markers

/-! # How leaves are set on lines

A traversal of a fragment goes into its composites, to its leaves and out again (`visits`).  The
steps into and out of a block break it into runs.  The layout sets every run on one line, as deep as
the groups around its leaves indent it, and runs without a legible leaf may have no line (`Lays`).
So two legible leaves with none between them stand on one line exactly if the traversal from one to
the other is not broken: `layout_lines`.

The printer does one step of the traversal at a time.  `Follows` says what it has done up to a step:
the runs that are over are laid, and the line begun shows the last run as far as it has come.  A step
that breaks the traversal ends the line (`Follows.pass`); only such a step changes the depth, so the
indents at the beginning of a line are those of all its leaves. -/

namespace SyntaxLens

theorem Leaf.isShown_of_isLegible {l : Leaf} (hl : l.isLegible = true) : l.isShown = true := by
  by_contra hempty
  have htext : l.text = "" := by simpa [Leaf.isShown] using hempty
  rw [Leaf.isLegible, htext] at hl
  cases hl

/-! ### The traversal of a fragment -/

namespace Fragment

/-- A composite without what is in it: only whether there is anything. -/
structure Shell where
  flow : Flow
  mark : Option Mark
  childless : Bool

namespace Shell

variable (shell : Shell)

/-- A block stands on lines of its own, unless it is a group of nothing. -/
def breaks : Bool := shell.flow == .block && !(shell.mark.isNone && shell.childless)

/-- A group that is a block indents what is in it. -/
def indents : Bool := shell.flow == .block && shell.mark.isNone && !shell.childless

variable {shell}

theorem breaks_of_empty (h : (shell.mark.isNone && shell.childless) = true) :
    shell.breaks = false := by
  simp [breaks, h]

theorem breaks_of_not_empty (h : (shell.mark.isNone && shell.childless) = false) :
    shell.breaks = (shell.flow == .block) := by
  simp [breaks, h]

theorem indents_of_not_empty (h : (shell.mark.isNone && shell.childless) = false) :
    shell.indents = (shell.flow == .block && shell.mark.isNone) := by
  cases hmark : shell.mark.isNone with
  | false => simp [indents, hmark]
  | true =>
      rw [hmark, Bool.true_and] at h
      simp [indents, hmark, h]

end Shell

/-- A step of the traversal: into a composite, to a leaf that has the given composites around it, or
out of a composite. -/
inductive Visit where
  | enter (shell : Shell)
  | leaf (around : List Shell) (l : Leaf)
  | leave (shell : Shell)

namespace Visit

/-- Whether the step goes into a block or out of one. -/
def breaks : Visit → Bool
  | .enter shell | .leave shell => shell.breaks
  | .leaf .. => false

def leaf? : Visit → Option Leaf
  | .leaf _ l => some l
  | .enter _ | .leave _ => none

end Visit

mutual

/-- The traversal of a fragment that has the given composites around it. -/
def visits (around : List Shell) : Fragment → List Visit
  | .leaf l => [.leaf around l]
  | .composite flow mark children =>
    let shell : Shell := ⟨flow, mark, children.isEmpty⟩
    .enter shell :: visitsAll (shell :: around) children ++ [.leave shell]

def visitsAll (around : List Shell) : List Fragment → List Visit
  | [] => []
  | f :: rest => visits around f ++ visitsAll around rest

end

/-- The leaves that some steps come to. -/
def visited (steps : List Visit) : List Leaf := steps.filterMap Visit.leaf?

theorem visited_append (a b : List Visit) : visited (a ++ b) = visited a ++ visited b :=
  List.filterMap_append

mutual

/-- The traversal comes to the leaves in display order. -/
theorem visited_visits (around : List Shell) : ∀ f : Fragment, visited (visits around f) = f.leaves
  | .leaf _ => rfl
  | .composite flow mark children => by
      rw [visits, visited_append, visited, List.filterMap_cons_none rfl]
      exact (List.append_nil _).trans (visited_visitsAll _ children)

theorem visited_visitsAll (around : List Shell) : ∀ fs : List Fragment,
    visited (visitsAll around fs) = leavesAll fs
  | [] => rfl
  | f :: rest => by
      rw [visitsAll, visited_append, visited_visits around f, visited_visitsAll around rest, leavesAll]

end

end Fragment

namespace Layout

open Fragment (Shell Visit visited visited_append visits visitsAll)
open Piece (ofLeaf)

/-! ### Runs -/

theorem splitOnP_append {α : Type} {p : α → Bool} {a b : List α} {before after : List (List α)}
    {x y : List α} (ha : a.splitOnP p = before ++ [x]) (hb : b.splitOnP p = y :: after) :
    (a ++ b).splitOnP p = before ++ (x ++ y) :: after := by
  induction a generalizing before x with
  | nil =>
      cases before with
      | nil =>
          obtain rfl := List.singleton_inj.mp ha
          exact hb
      | cons _ before => simp at ha
  | cons c a ih =>
      obtain ⟨first, rest, hsplit⟩ := List.exists_cons_of_ne_nil (List.splitOnP_ne_nil p a)
      rw [List.splitOnP_cons_eq_if_modifyHead, hsplit] at ha
      rw [List.cons_append, List.splitOnP_cons_eq_if_modifyHead]
      split_ifs at ha ⊢ with hc
      · cases before with
        | nil => cases ha
        | cons _ before =>
            obtain ⟨rfl, hrest⟩ := List.cons.inj ha
            rw [ih (hsplit.trans hrest)]
            rfl
      · cases before with
        | nil =>
            obtain ⟨rfl, rfl⟩ := List.cons.inj ha
            rw [@ih [] first hsplit]
            rfl
        | cons _ before =>
            obtain ⟨rfl, rfl⟩ := List.cons.inj ha
            rw [@ih (first :: before) x hsplit]
            rfl

theorem splitOnP_concat_of_breaks {steps : List Visit} {v : Visit} (hv : v.breaks = true) :
    (steps ++ [v]).splitOnP Visit.breaks = steps.splitOnP Visit.breaks ++ [[]] :=
  List.splitOnP_append_cons steps [] hv

/-! ### Lines -/

/-- The line is `k` indents and the pieces `rest`, which are others: at least one, with single spaces
between them and none at the ends. -/
structure Indented (unit : String) (k : ℕ) (rest line : List Piece) : Prop where
  line_eq : line = List.replicate k ⟨.indent, unit⟩ ++ rest
  ne_nil : rest ≠ []
  unindented : ∀ p ∈ rest, p.kind ≠ .indent
  head : ∀ p, rest.head? = some p → p.kind ≠ .space
  last : ∀ p, rest.getLast? = some p → p.kind ≠ .space
  apart : rest.IsChain fun p q => ¬ (p.kind = .space ∧ q.kind = .space)

/-- The line shows the leaves of a run that are not empty and no others, and it is indented as deep
as every leaf of the run is enclosed in groups that indent. -/
structure Sets (unit : String) (k : ℕ) (run : List Visit) (line : List Piece) : Prop where
  leaves : line.filter Piece.isLeaf = (shown (visited run)).map ofLeaf
  enclosed : ∀ around l, Visit.leaf around l ∈ run → around.countP Shell.indents = k
  indented : line ≠ [] → ∃ rest, Indented unit k rest line

/-- The lines show the runs one after the other, each on a line.  Only a run without a legible leaf
may be left out. -/
inductive Lays (unit : String) : List (List Visit) → List (List Piece) → Prop
  | nil : Lays unit [] []
  | skip {run : List Visit} {runs : List (List Visit)} {lines : List (List Piece)} :
      (∀ l ∈ visited run, l.isLegible = false) → Lays unit runs lines →
      Lays unit (run :: runs) lines
  | line {k : ℕ} {run : List Visit} {line : List Piece} {runs : List (List Visit)}
      {lines : List (List Piece)} : line ≠ [] → Sets unit k run line → Lays unit runs lines →
      Lays unit (run :: runs) (line :: lines)

section lines
variable {unit : String} {k : ℕ} {rest line : List Piece} {p : Piece}

theorem kind_of_isGap_eq_false (h : p.isGap = false) : p.kind ≠ .indent ∧ p.kind ≠ .space := by
  simpa [Piece.isGap] using h

theorem Indented.concat (h : Indented unit k rest line) (hp : p.isGap = false) :
    Indented unit k (rest ++ [p]) (line ++ [p]) := by
  obtain ⟨hindent, hspace⟩ := kind_of_isGap_eq_false hp
  refine ⟨by rw [h.line_eq, List.append_assoc], List.concat_ne_nil p rest,
    List.forall_mem_append.mpr ⟨h.unindented, List.forall_mem_singleton.mpr hindent⟩, ?_, ?_, ?_⟩
  · rw [List.head?_append_of_ne_nil rest h.ne_nil]
    exact h.head
  · intro q hq
    rw [List.getLast?_concat] at hq
    exact Option.some.inj hq ▸ hspace
  · refine List.isChain_append.mpr ⟨h.apart, List.isChain_singleton p, fun _ _ q hq hboth => ?_⟩
    obtain rfl : p = q := Option.some.inj hq
    exact hspace hboth.2

/-- A space may come between a line and what is put on it. -/
theorem Indented.concat_space (h : Indented unit k rest line) (hp : p.isGap = false) :
    Indented unit k (rest ++ [.space, p]) (line ++ [.space, p]) := by
  obtain ⟨hindent, hspace⟩ := kind_of_isGap_eq_false hp
  refine ⟨by rw [h.line_eq, List.append_assoc], by simp,
    List.forall_mem_append.mpr ⟨h.unindented, ?_⟩, ?_, ?_, ?_⟩
  · exact List.forall_mem_cons.mpr ⟨PieceClass.noConfusion, List.forall_mem_singleton.mpr hindent⟩
  · rw [List.head?_append_of_ne_nil rest h.ne_nil]
    exact h.head
  · intro q hq
    obtain rfl : p = q := by simpa using hq
    exact hspace
  · refine List.isChain_append.mpr ⟨h.apart, ?_, fun q hq _ _ hboth => h.last q hq hboth.1⟩
    exact List.isChain_pair.mpr fun hboth => hspace hboth.2

/-- The gap before a leaf is no leaf. -/
theorem filter_isLeaf_lead (s : State) (c : Context) (next : String) :
    (s.lead c next).filter Piece.isLeaf = [] :=
  List.filter_eq_nil_iff.mpr fun p hp => by
    simp [Piece.isLeaf_of_isGap (s.isGap_of_mem_lead c hp)]

/-- Whatever begins a line has the indents before it, and whatever continues it at most one space. -/
theorem exists_indented_lead (s : State) (c : Context) (next : String) (hp : p.isGap = false)
    (h : s.line ≠ [] → ∃ rest, Indented c.unit c.depth rest s.line) :
    ∃ rest, Indented c.unit c.depth rest (s.line ++ s.lead c next ++ [p]) := by
  obtain ⟨hindent, hspace⟩ := kind_of_isGap_eq_false hp
  unfold State.lead
  by_cases hline : s.line = []
  · refine ⟨[p], by simp [hline], List.cons_ne_nil p [], List.forall_mem_singleton.mpr hindent,
      ?_, ?_, List.isChain_singleton p⟩
    · intro q hq
      exact Option.some.inj hq ▸ hspace
    · intro q hq
      exact Option.some.inj hq ▸ hspace
  · obtain ⟨rest, hrest⟩ := h hline
    rw [if_neg (by simpa using hline)]
    split
    · exact ⟨_, by simpa using hrest.concat_space hp⟩
    · exact ⟨_, by simpa using hrest.concat hp⟩

theorem Sets.concat {run : List Visit} (h : Sets unit k run line) (hline : line ≠ [])
    (hgap : p.isGap = false) (hleaf : p.isLeaf = false) : Sets unit k run (line ++ [p]) where
  leaves := by
    rw [List.filter_append, List.filter_cons_of_neg (by simp [hleaf]), h.leaves]
    exact List.append_nil _
  enclosed := h.enclosed
  indented _ := by
    obtain ⟨rest, hrest⟩ := h.indented hline
    exact ⟨_, hrest.concat hgap⟩

end lines

namespace Lays

variable {unit : String} {a b runs : List (List Visit)} {x y lines : List (List Piece)}

theorem append (h : Lays unit a x) (h' : Lays unit b y) : Lays unit (a ++ b) (x ++ y) := by
  induction h with
  | nil => exact h'
  | skip hrun _ ih => exact .skip hrun ih
  | line hline hsets _ ih => exact .line hline hsets ih

theorem exists_append (h : Lays unit (a ++ b) lines) :
    ∃ x y, lines = x ++ y ∧ Lays unit a x ∧ Lays unit b y := by
  induction a generalizing lines with
  | nil => exact ⟨[], lines, rfl, .nil, h⟩
  | cons run a ih =>
      cases h with
      | skip hrun h =>
          obtain ⟨x, y, rfl, ha, hb⟩ := ih h
          exact ⟨x, y, rfl, .skip hrun ha, hb⟩
      | line hline hsets h =>
          obtain ⟨x, y, rfl, ha, hb⟩ := ih h
          exact ⟨_ :: x, y, rfl, .line hline hsets ha, hb⟩

/-- A mark at the end of the last line changes nothing about the leaves. -/
theorem close {above : List (List Piece)} {last : List Piece} (h : Lays unit runs (above ++ [last])) :
    Lays unit runs (above ++ [last ++ [.focusClose]]) := by
  generalize hlines : above ++ [last] = lines at h
  induction h generalizing above with
  | nil => simp at hlines
  | skip hrun _ ih => exact .skip hrun (ih hlines)
  | line hline hsets hlays ih =>
      cases above with
      | nil =>
          obtain ⟨rfl, rfl⟩ := List.cons.inj hlines
          exact .line (List.concat_ne_nil _ _) (hsets.concat hline rfl rfl) hlays
      | cons first above =>
          obtain ⟨rfl, hrest⟩ := List.cons.inj hlines
          exact .line hline hsets (ih hrest)

end Lays

/-! ### Steps of the printer -/

/-- What the printer has done up to a step of the traversal, at depth `k`: the runs that are over are
on lines, and the line begun shows the run that is not. -/
structure Follows (unit : String) (k : ℕ) (steps : List Visit) (s : State) : Prop where
  exists_runs : ∃ runs run, steps.splitOnP Visit.breaks = runs ++ [run] ∧
    Lays unit runs s.lines ∧ Sets unit k run s.line

theorem exists_mark_focused {mark : Option Mark} (h : ¬ ∀ m ∈ mark, m.focused = false) :
    ∃ m, mark = some m ∧ m.focused = true := by
  push Not at h
  obtain ⟨m, hm, hfocused⟩ := h
  exact ⟨m, hm, by simpa using hfocused⟩

/-- The focus waits for its first leaf, or something has been shown.  So there is a place for the mark
that closes it. -/
def State.Ready (s : State) : Prop := s.pending = true ∨ ∃ p ∈ s.pieces, p.isContent = true

section ready
variable {s : State}

theorem State.Ready.put (h : s.Ready) (c : Context) (l : Leaf) : (s.put c l).Ready := by
  cases hl : l.isShown with
  | false => rwa [s.put_of_not_isShown c hl]
  | true =>
      refine .inr ?_
      rw [pieces_put s c hl]
      rcases h with hpending | ⟨p, hp, hcontent⟩
      · exact ⟨.focusOpen, by simp [hpending], by decide⟩
      · exact ⟨p, by simp [hp], hcontent⟩

theorem mem_trimmed {line : List Piece} {p : Piece} (hp : p ∈ line) (hgap : p.isGap = false) :
    p ∈ (line.reverse.dropWhile Piece.isGap).reverse := by
  rw [List.mem_reverse]
  rw [← List.mem_reverse, ← List.takeWhile_append_dropWhile (p := Piece.isGap)
    (l := line.reverse), List.mem_append] at hp
  refine hp.resolve_left fun hgaps => ?_
  exact Bool.false_ne_true (hgap.symm.trans (List.mem_takeWhile_imp hgaps))

/-- Ending a line takes away nothing that shows something. -/
theorem State.Ready.flush (h : s.Ready) : s.flush.Ready := by
  refine h.imp id ?_
  rintro ⟨p, hp, hcontent⟩
  refine ⟨p, ?_, hcontent⟩
  rw [State.pieces_eq, List.mem_append] at hp ⊢
  refine .inl ?_
  simp only [State.flush]
  rcases hp with hp | hp
  · split
    · rw [List.flatten_append]
      exact List.mem_append_left _ hp
    · exact hp
  · have hkept := mem_trimmed hp (Piece.isGap_of_isContent hcontent)
    rw [if_pos (List.any_eq_true.mpr ⟨p, hkept, hcontent⟩), List.flatten_append]
    exact List.mem_append_right _ (by simpa using hkept)

theorem State.Ready.flushIf (h : s.Ready) (block : Bool) : (s.flushIf block).Ready := by
  cases block with
  | false => exact h
  | true => exact h.flush

theorem State.Ready.glueIf (h : s.Ready) (glued : Bool) : (s.glueIf glued).Ready := by
  cases glued <;> exact h

/-- The mark shows something itself. -/
theorem State.ready_closeFocus (s : State) (c : Context) : (s.closeFocus c).Ready := by
  refine .inr ⟨.focusClose, ?_, by decide⟩
  cases hpending : s.pending with
  | true => simp [s.closeFocus_of_pending c hpending, State.pieces_eq]
  | false =>
      by_cases hline : s.line = []
      · rcases List.eq_nil_or_concat' s.lines with hnone | ⟨above, last, hlines⟩
        · simp [State.closeFocus, hpending, hline, hnone, State.pieces_eq]
        · simp [s.closeFocus_of_lines c hpending hline hlines, State.pieces_eq]
      · simp [s.closeFocus_of_line c hpending hline, State.pieces_eq]

mutual

theorem State.Ready.print {s : State} (h : s.Ready) (c : Context) :
    ∀ f : Fragment, (print c f s).Ready
  | .leaf l => by
      rw [Layout.print]
      exact h.put c l
  | .composite flow mark children => by
      by_cases hmark : ∀ m ∈ mark, m.focused = false
      · rw [print_composite c flow mark children s hmark]
        split
        · exact h
        · exact (State.Ready.printAll (h.flushIf _) (c.inner flow mark) _ true children).flushIf _
      · obtain ⟨m, rfl, hm⟩ := exists_mark_focused hmark
        rw [Layout.print_focused c flow m children s hm]
        exact (State.ready_closeFocus _ c).flushIf _

theorem State.Ready.printAll {s : State} (h : s.Ready) (c : Context) (k : Cohesion)
    (first : Bool) : ∀ fs : List Fragment, (printAll c k first fs s).Ready
  | [] => by
      rw [Layout.printAll]
      exact h
  | f :: rest => by
      rw [Layout.printAll]
      exact State.Ready.printAll ((State.Ready.print (h.glueIf _) c f).glueIf _) c k false rest

end

end ready

section follows
variable {unit : String} {k : ℕ} {steps : List Visit} {s : State} {c : Context} {v : Visit}

theorem follows_start (unit : String) (k : ℕ) : Follows unit k [] .start :=
  ⟨[], [], rfl, .nil, rfl, fun _ _ h => absurd h List.not_mem_nil, fun h => absurd rfl h⟩

theorem isContent_of_mem_legible {line : List Piece} {l : Leaf}
    (h : ofLeaf l ∈ line) (hl : l.isLegible = true) : line.any Piece.isContent = true :=
  List.any_eq_true.mpr ⟨_, h, Piece.isContent_of_isLegible hl⟩

/-- A line that shows nothing belongs to a run without a legible leaf. -/
theorem Sets.not_legible {run : List Visit} {line : List Piece} (h : Sets unit k run line)
    (hline : line.any Piece.isContent = false) : ∀ l ∈ visited run, l.isLegible = false := by
  intro l hl
  by_contra hlegible
  rw [Bool.not_eq_false] at hlegible
  have hshown : l.isShown = true := Leaf.isShown_of_isLegible hlegible
  have hmem : ofLeaf l ∈ line.filter Piece.isLeaf := by
    rw [h.leaves]
    exact List.mem_map_of_mem (List.mem_filter.mpr ⟨hl, hshown⟩)
  have hany := isContent_of_mem_legible (List.mem_of_mem_filter hmem) hlegible
  exact Bool.false_ne_true (hline.symm.trans hany)

/-- When the line is ended, the last run is over too. -/
theorem Follows.lays_flush (h : Follows unit k steps s) :
    Lays unit (steps.splitOnP Visit.breaks) s.flush.lines := by
  obtain ⟨runs, run, hruns, hlays, hsets⟩ := h.exists_runs
  have hgap : ∀ p, s.line.getLast? = some p → p.isGap = false := by
    intro p hp
    obtain ⟨rest, hrest⟩ := hsets.indented (by rintro hnil; simp [hnil] at hp)
    rw [hrest.line_eq, List.getLast?_append_of_ne_nil _ hrest.ne_nil] at hp
    have hindent := hrest.unindented p (List.mem_of_getLast? hp)
    simpa [Piece.isGap] using And.intro hindent (hrest.last p hp)
  rw [flush_of_getLast? hgap, hruns]
  cases hany : s.line.any Piece.isContent with
  | true =>
      have hline : s.line ≠ [] := by
        rintro hnil
        rw [hnil] at hany
        cases hany
      exact hlays.append (.line hline hsets .nil)
  | false =>
      have hskip : Lays unit (runs ++ [run]) (s.lines ++ []) :=
        hlays.append (.skip (hsets.not_legible hany) .nil)
      rwa [List.append_nil] at hskip

/-- A step into a composite or out of it ends the line if the composite is a block; the depth changes
at such steps only. -/
theorem Follows.pass {k' : ℕ} {block : Bool} (h : Follows unit k steps s) (hv : v.leaf? = none)
    (hblock : v.breaks = block) (hk : block = false → k' = k) :
    Follows unit k' (steps ++ [v]) (s.flushIf block) := by
  cases block with
  | true =>
      refine ⟨steps.splitOnP Visit.breaks, [], splitOnP_concat_of_breaks hblock, h.lays_flush, rfl,
        fun _ _ hmem => absurd hmem List.not_mem_nil, fun hline => absurd rfl hline⟩
  | false =>
      obtain ⟨runs, run, hruns, hlays, hsets⟩ := h.exists_runs
      have hone : [v].splitOnP Visit.breaks = [[v]] :=
        List.splitOnP_eq_singleton (List.forall_mem_singleton.mpr hblock)
      refine ⟨runs, run ++ [v], splitOnP_append hruns hone, hlays, ?_⟩
      obtain rfl := hk rfl
      refine ⟨?_, fun around l hmem => ?_, hsets.indented⟩
      · rw [visited_append, visited, visited, List.filterMap_cons_none hv, List.filterMap_nil,
          List.append_nil]
        exact hsets.leaves
      · rcases List.mem_append.mp hmem with hmem | hmem
        · exact hsets.enclosed around l hmem
        · rw [← List.mem_singleton.mp hmem] at hv
          cases hv

theorem Follows.put {around : List Shell} (h : Follows c.unit c.depth steps s)
    (haround : around.countP Shell.indents = c.depth) (l : Leaf) :
    Follows c.unit c.depth (steps ++ [.leaf around l]) (s.put c l) := by
  obtain ⟨runs, run, hruns, hlays, hsets⟩ := h.exists_runs
  have hone : [Visit.leaf around l].splitOnP Visit.breaks = [[.leaf around l]] :=
    List.splitOnP_eq_singleton (List.forall_mem_singleton.mpr rfl)
  have henclosed : ∀ around' l', Visit.leaf around' l' ∈ run ++ [.leaf around l] →
      around'.countP Shell.indents = c.depth := by
    intro around' l' hmem
    rcases List.mem_append.mp hmem with hmem | hmem
    · exact hsets.enclosed around' l' hmem
    · obtain ⟨rfl, rfl⟩ := Visit.leaf.inj (List.mem_singleton.mp hmem)
      exact haround
  have hvisited : shown (visited (run ++ [.leaf around l])) = shown (visited run) ++ shown [l] := by
    rw [visited_append, shown_append]
    rfl
  refine ⟨runs, run ++ [.leaf around l], splitOnP_append hruns hone, ?_, ?_, henclosed, ?_⟩
  · cases hl : l.isShown with
    | false => rwa [s.put_of_not_isShown c hl]
    | true => rwa [s.put_of_isShown c hl]
  · rw [hvisited, List.map_append, ← hsets.leaves]
    cases hl : l.isShown with
    | false => simp [s.put_of_not_isShown c hl, shown, hl]
    | true =>
        have hopen : (if s.pending then [Piece.focusOpen] else []).filter Piece.isLeaf = [] := by
          split <;> rfl
        rw [s.put_of_isShown c hl]
        simp [filter_isLeaf_lead, hopen, shown, hl, Piece.isLeaf, ofLeaf]
  · cases hl : l.isShown with
    | false =>
        rw [s.put_of_not_isShown c hl]
        exact hsets.indented
    | true =>
        intro _
        rw [s.put_of_isShown c hl]
        cases hp : s.pending with
        | false => simpa using exists_indented_lead s c l.text (p := ofLeaf l) rfl hsets.indented
        | true =>
            obtain ⟨rest, hrest⟩ :=
              exists_indented_lead s c l.text (p := .focusOpen) rfl hsets.indented
            exact ⟨_, hrest.concat (p := ofLeaf l) rfl⟩

/-- What is done to the rest of the state does not matter. -/
theorem Follows.congr {s' : State} (h : Follows unit k steps s) (hlines : s'.lines = s.lines)
    (hline : s'.line = s.line) : Follows unit k steps s' := by
  obtain ⟨runs, run, hruns, hlays, hsets⟩ := h.exists_runs
  exact ⟨runs, run, hruns, hlines ▸ hlays, hline ▸ hsets⟩

theorem Follows.glueIf (h : Follows unit k steps s) (glued : Bool) :
    Follows unit k steps (s.glueIf glued) := by
  cases glued <;> exact h.congr rfl rfl

/-- Closing the focus puts marks where a line is already, or where the run goes on. -/
theorem Follows.closeFocus (h : Follows c.unit c.depth steps s) (hready : s.Ready) :
    Follows c.unit c.depth steps (s.closeFocus c) := by
  obtain ⟨runs, run, hruns, hlays, hsets⟩ := h.exists_runs
  cases hpending : s.pending with
  | true =>
      rw [s.closeFocus_of_pending c hpending]
      refine ⟨runs, run, hruns, hlays, ?_, hsets.enclosed, fun _ => ?_⟩
      · rw [List.filter_append, List.filter_append, filter_isLeaf_lead, hsets.leaves]
        exact (List.append_nil _).trans (List.append_nil _)
      · obtain ⟨rest, hrest⟩ :=
          exists_indented_lead s c "»«" (p := .focusOpen) rfl hsets.indented
        exact ⟨_, by simpa using hrest.concat (p := .focusClose) rfl⟩
  | false =>
      by_cases hline : s.line = []
      · obtain ⟨above, last, hlines⟩ : ∃ above last, s.lines = above ++ [last] := by
          rcases List.eq_nil_or_concat' s.lines with hnone | hlast
          · rw [State.Ready, State.pieces_eq, hline, hnone] at hready
            simp [hpending] at hready
          · exact hlast
        rw [s.closeFocus_of_lines c hpending hline hlines]
        rw [hlines] at hlays
        exact ⟨runs, run, hruns, hlays.close, hsets⟩
      · rw [s.closeFocus_of_line c hpending hline]
        exact ⟨runs, run, hruns, hlays, hsets.concat hline rfl rfl⟩

end follows

/-! ### Runs of the printer -/

/-- What is in a composite is printed as deep as the groups around it indent. -/
theorem countP_inner {c : Context} {around : List Shell} {mark : Option Mark} {childless : Bool}
    (haround : around.countP Shell.indents = c.depth) (flow : Flow)
    (hfull : (mark.isNone && childless) = false) :
    (Shell.mk flow mark childless :: around).countP Shell.indents = (c.inner flow mark).depth := by
  rw [List.countP_cons, @Shell.indents_of_not_empty ⟨flow, mark, childless⟩ hfull, haround,
    Context.inner]
  split <;> rfl

mutual

/-- Printing a fragment does the steps of its traversal. -/
theorem Follows.print {around : List Shell} {steps : List Visit} {s : State} (c : Context)
    (haround : around.countP Shell.indents = c.depth) (h : Follows c.unit c.depth steps s) :
    ∀ f : Fragment, Follows c.unit c.depth (steps ++ visits around f) (print c f s)
  | .leaf l => by
      rw [Layout.print, visits]
      exact h.put haround l
  | .composite flow mark children => by
      rw [visits, List.cons_append, ← List.singleton_append, ← List.append_assoc, ← List.append_assoc]
      cases hskip : mark.isNone && children.isEmpty with
      | true =>
          -- Nothing is printed, and the two steps break nothing.
          have hbreaks := @Shell.breaks_of_empty ⟨flow, mark, children.isEmpty⟩ hskip
          rw [Bool.and_eq_true, Option.isNone_iff_eq_none, List.isEmpty_iff] at hskip
          obtain ⟨rfl, rfl⟩ := hskip
          rw [print_composite c flow none [] s (fun _ hm => nomatch hm), visitsAll, List.append_nil]
          have henter := h.pass (v := .enter ⟨flow, none, true⟩) rfl hbreaks fun _ => rfl
          exact henter.pass (v := .leave ⟨flow, none, true⟩) rfl hbreaks fun _ => rfl
      | false =>
          have hbreaks := @Shell.breaks_of_not_empty ⟨flow, mark, children.isEmpty⟩ hskip
          have hinner := countP_inner haround flow hskip
          have hinline : (flow == .block) = false → (c.inner flow mark).depth = c.depth := by
            intro hflow
            simp [Context.inner, hflow]
          have henter := h.pass (v := .enter ⟨flow, mark, children.isEmpty⟩) rfl hbreaks hinline
          by_cases hmark : ∀ m ∈ mark, m.focused = false
          · rw [print_composite c flow mark children s hmark, if_neg (by simp [hskip])]
            have hinside := Follows.printAll (c.inner flow mark) (Cohesion.of (mark.map Mark.tag))
              true hinner henter children
            exact hinside.pass (v := .leave ⟨flow, mark, children.isEmpty⟩) rfl hbreaks
              fun hflow => (hinline hflow).symm
          · obtain ⟨m, rfl, hm⟩ := exists_mark_focused hmark
            rw [Layout.print_focused c flow m children s hm]
            have hwaits : Follows c.unit (c.inner flow (some m)).depth _
                { s.flushIf (flow == .block) with pending := true } := henter.congr rfl rfl
            have hinside := Follows.printAll (c.inner flow (some m)) (Cohesion.of (some m.tag))
              true hinner hwaits children
            have hmarked : (c.inner flow (some m)).depth = c.depth := by simp [Context.inner]
            rw [hmarked] at hinside
            have hwaiting : State.Ready { s.flushIf (flow == .block) with pending := true } :=
              .inl rfl
            have hclosed : Follows c.unit c.depth _ _ :=
              hinside.closeFocus (c := c) (hwaiting.printAll _ _ true children)
            exact hclosed.pass (v := .leave ⟨flow, some m, children.isEmpty⟩) rfl hbreaks
              fun _ => rfl

theorem Follows.printAll {around : List Shell} {steps : List Visit} {s : State} (c : Context)
    (k : Cohesion) (first : Bool) (haround : around.countP Shell.indents = c.depth)
    (h : Follows c.unit c.depth steps s) :
    ∀ fs : List Fragment,
      Follows c.unit c.depth (steps ++ visitsAll around fs) (printAll c k first fs s)
  | [] => by
      rw [Layout.printAll, visitsAll, List.append_nil]
      exact h
  | f :: rest => by
      rw [Layout.printAll, visitsAll, ← List.append_assoc]
      have hf := Follows.print c haround (h.glueIf ((k.attaches f || k.solid) && !first)) f
      exact Follows.printAll c k false haround (hf.glueIf (k.attaches f && first)) rest

end

/-! ### The lines of the legible leaves -/

/-- The legible leaves on the lines, each with the number of its line; the first line has the number
`j`. -/
def numbered (j : ℕ) : List (List Piece) → List (ℕ × Piece)
  | [] => []
  | line :: rest => (line.filter Piece.isLegible).map (j, ·) ++ numbered (j + 1) rest

section numbered
variable {unit : String} {k : ℕ} {run : List Visit} {line : List Piece}
  {runs : List (List Visit)} {lines x y : List (List Piece)} {steps : List Visit}

theorem numbered_append (j : ℕ) (x y : List (List Piece)) :
    numbered j (x ++ y) = numbered j x ++ numbered (j + x.length) y := by
  induction x generalizing j with
  | nil => rfl
  | cons line x ih =>
      rw [List.cons_append, numbered, numbered, ih, List.append_assoc, List.length_cons,
        Nat.add_right_comm, Nat.add_assoc j]

theorem bounds_of_mem_numbered {j : ℕ} {q : ℕ × Piece} (h : q ∈ numbered j lines) :
    j ≤ q.1 ∧ q.1 < j + lines.length := by
  induction lines generalizing j with
  | nil => cases h
  | cons line rest ih =>
      rw [List.length_cons]
      rcases List.mem_append.mp h with h | h
      · obtain ⟨p, -, rfl⟩ := List.mem_map.mp h
        exact ⟨Nat.le_refl j, by omega⟩
      · obtain ⟨hlow, hhigh⟩ := ih h
        omega

theorem filter_isLegible_isLeaf (line : List Piece) :
    (line.filter Piece.isLeaf).filter Piece.isLegible = line.filter Piece.isLegible := by
  rw [List.filter_filter]
  refine List.filter_congr fun p _ => ?_
  rw [Piece.isLegible]
  cases p.isLeaf <;> simp

theorem filter_isLegible_shown (ls : List Leaf) :
    ((shown ls).map ofLeaf).filter Piece.isLegible = legiblePieces ls := by
  rw [List.filter_map, shown, List.filter_filter, legiblePieces]
  refine congrArg (List.map ofLeaf) (List.filter_congr fun l _ => ?_)
  have hlegible : (Piece.isLegible ∘ ofLeaf) l = l.isLegible := Piece.isLegible_ofLeaf l
  rw [hlegible]
  cases hl : l.isLegible with
  | false => rfl
  | true => rw [Leaf.isShown_of_isLegible hl, Bool.true_and]

theorem legiblePieces_eq_nil {ls : List Leaf} (h : ∀ l ∈ ls, l.isLegible = false) :
    legiblePieces ls = [] := by
  rw [legiblePieces, List.filter_eq_nil_iff.mpr fun l hl => by simp [h l hl]]
  rfl

theorem legiblePieces_leaf (around : List Shell) {l : Leaf} (hl : l.isLegible = true)
    (rest : List Visit) : legiblePieces (visited (.leaf around l :: rest)) =
      ofLeaf l :: legiblePieces (visited rest) := by
  rw [show visited (.leaf around l :: rest) = l :: visited rest from rfl, legiblePieces,
    List.filter_cons_of_pos hl]
  rfl

/-- A line has the legible leaves of its run. -/
theorem Sets.legible (h : Sets unit k run line) :
    line.filter Piece.isLegible = legiblePieces (visited run) := by
  rw [← filter_isLegible_isLeaf, h.leaves, filter_isLegible_shown]

/-- The lines have the legible leaves of the runs, in order. -/
theorem Lays.legible (h : Lays unit runs lines) (j : ℕ) :
    (numbered j lines).map Prod.snd = legiblePieces (visited runs.flatten) := by
  induction h generalizing j with
  | nil => rfl
  | skip hrun _ ih =>
      rw [List.flatten_cons, visited_append, legiblePieces_append, ih, legiblePieces_eq_nil hrun,
        List.nil_append]
  | line _ hsets _ ih =>
      rw [List.flatten_cons, visited_append, legiblePieces_append, numbered, List.map_append, ih,
        hsets.legible, List.map_map]
      exact congrArg (· ++ _) (List.map_id _)

/-- The steps between the runs come to no leaf. -/
theorem visited_splitOnP (steps : List Visit) :
    visited (steps.splitOnP Visit.breaks).flatten = visited steps := by
  induction steps with
  | nil => rfl
  | cons v steps ih =>
      rw [List.splitOnP_cons_eq_if_modifyHead]
      split_ifs with hv
      · rw [List.flatten_cons, List.nil_append, ih]
        cases v with
        | leaf => cases hv
        | enter => rfl
        | leave => rfl
      · obtain ⟨first, rest, hsplit⟩ :=
          List.exists_cons_of_ne_nil (List.splitOnP_ne_nil Visit.breaks steps)
        rw [hsplit, List.flatten_cons, visited_append] at ih
        rw [hsplit, List.modifyHead_cons, List.flatten_cons, List.cons_append,
          ← List.singleton_append, visited_append, visited_append, ih, ← visited_append]
        rfl

/-- Two leaves that come one after the other in a run are on one line. -/
theorem Lays.together {before after : List Piece} {p q : Piece} {a b : List (List Visit)}
    (h : Lays unit (a ++ run :: b) lines)
    (hrun : legiblePieces (visited run) = before ++ p :: q :: after) :
    ∃ front i back, numbered 0 lines = front ++ (i, p) :: (i, q) :: back ∧
      front.map Prod.snd = legiblePieces (visited a.flatten) ++ before ∧
      back.map Prod.snd = after ++ legiblePieces (visited b.flatten) := by
  obtain ⟨x, y, rfl, hx, hy⟩ := h.exists_append
  cases hy with
  | skip hskip _ =>
      rw [legiblePieces_eq_nil hskip] at hrun
      simp at hrun
  | line hline hsets hrest =>
      rename_i line rest
      refine ⟨numbered 0 x ++ before.map (0 + x.length, ·), 0 + x.length,
        after.map (0 + x.length, ·) ++ numbered (0 + x.length + 1) rest, ?_, ?_, ?_⟩
      · rw [numbered_append, numbered, hsets.legible, hrun]
        simp
      · rw [List.map_append, hx.legible, List.map_map]
        exact congrArg (_ ++ ·) (List.map_id _)
      · rw [List.map_append, hrest.legible, List.map_map]
        exact congrArg (· ++ _) (List.map_id _)

/-- The last leaf of some runs is on a line above that of the first leaf of the next runs. -/
theorem Lays.apart {before after : List Piece} {p q : Piece} {a b : List (List Visit)}
    (h : Lays unit (a ++ b) lines) (ha : legiblePieces (visited a.flatten) = before ++ [p])
    (hb : legiblePieces (visited b.flatten) = q :: after) :
    ∃ front i j back, numbered 0 lines = front ++ (i, p) :: (j, q) :: back ∧
      front.map Prod.snd = before ∧ back.map Prod.snd = after ∧ i < j := by
  obtain ⟨x, y, rfl, hx, hy⟩ := h.exists_append
  have hfront := hx.legible 0
  have hback := hy.legible (0 + x.length)
  rw [ha] at hfront
  rw [hb] at hback
  obtain ⟨front, last, hnumbered, hbefore, hlast⟩ := List.map_eq_append_iff.mp hfront
  obtain ⟨⟨i, _⟩, rfl, rfl⟩ := List.map_eq_singleton_iff.mp hlast
  obtain ⟨⟨j, _⟩, back, hnumbered', rfl, hafter⟩ := List.map_eq_cons_iff.mp hback
  refine ⟨front, i, j, back, ?_, hbefore, hafter, ?_⟩
  · rw [numbered_append, hnumbered, hnumbered', List.append_assoc]
    rfl
  · have hi := bounds_of_mem_numbered (hnumbered ▸ List.mem_append_right front List.mem_cons_self)
    have hj := bounds_of_mem_numbered (hnumbered' ▸ List.mem_cons_self)
    exact Nat.lt_of_lt_of_le hi.2 hj.1

section next
variable {pre mid post : List Visit} {around around' : List Shell} {l l' : Leaf}
  (h : Lays unit ((pre ++ .leaf around l :: mid ++ .leaf around' l' :: post).splitOnP Visit.breaks)
    lines)
  (hl : l.isLegible = true) (hl' : l'.isLegible = true)
  (hmid : ∀ l ∈ visited mid, l.isLegible = false)
include h hl hl' hmid

/-- If nothing between two leaves breaks the traversal, they are in the run in which the steps before
them end and those after them begin. -/
theorem Lays.unbroken (hunbroken : ∀ v ∈ mid, v.breaks = false) :
    ∃ front i back, numbered 0 lines = front ++ (i, ofLeaf l) :: (i, ofLeaf l') :: back ∧
      front.map Prod.snd = legiblePieces (visited pre) ∧
      back.map Prod.snd = legiblePieces (visited post) := by
  obtain ⟨a, x, hpre⟩ := (List.eq_nil_or_concat' (pre.splitOnP Visit.breaks)).resolve_left
    (List.splitOnP_ne_nil _ _)
  obtain ⟨y, b, hpost⟩ := List.exists_cons_of_ne_nil (List.splitOnP_ne_nil Visit.breaks post)
  have hone : (Visit.leaf around l :: mid ++ [Visit.leaf around' l']).splitOnP Visit.breaks =
      [Visit.leaf around l :: mid ++ [Visit.leaf around' l']] := by
    refine List.splitOnP_eq_singleton (List.forall_mem_append.mpr ⟨?_, ?_⟩)
    · exact List.forall_mem_cons.mpr ⟨rfl, hunbroken⟩
    · exact List.forall_mem_singleton.mpr rfl
  have hruns := splitOnP_append hpre (@splitOnP_append _ _ _ _ [] _ _ _ hone hpost)
  rw [← List.append_assoc, ← List.append_assoc, List.append_assoc, List.singleton_append] at hruns
  rw [hruns] at h
  have hrun : legiblePieces
      (visited (x ++ ((Visit.leaf around l :: mid ++ [Visit.leaf around' l']) ++ y))) =
      legiblePieces (visited x) ++ ofLeaf l :: ofLeaf l' :: legiblePieces (visited y) := by
    simp [visited_append, legiblePieces_append, legiblePieces_leaf, hl, hl',
      legiblePieces_eq_nil hmid]
  obtain ⟨front, i, back, hnumbered, hfront, hback⟩ := h.together hrun
  refine ⟨front, i, back, hnumbered, ?_, ?_⟩
  · rw [hfront, ← legiblePieces_append, ← visited_append, ← visited_splitOnP pre, hpre]
    simp
  · rw [hback, ← legiblePieces_append, ← visited_append, ← visited_splitOnP post, hpost]
    rfl

/-- If a step between two leaves breaks the traversal, they are in different runs. -/
theorem Lays.broken {v : Visit} (hv : v ∈ mid) (hbreaks : v.breaks = true) :
    ∃ front i j back, numbered 0 lines = front ++ (i, ofLeaf l) :: (j, ofLeaf l') :: back ∧
      front.map Prod.snd = legiblePieces (visited pre) ∧
      back.map Prod.snd = legiblePieces (visited post) ∧ i < j := by
  obtain ⟨m, m', rfl⟩ := List.append_of_mem hv
  obtain ⟨hbefore, hafter⟩ : (∀ l ∈ visited m, l.isLegible = false) ∧
      ∀ l ∈ visited m', l.isLegible = false := by
    rw [← List.singleton_append, visited_append, visited_append, List.forall_mem_append,
      List.forall_mem_append] at hmid
    exact ⟨hmid.1, hmid.2.2⟩
  have hsteps : pre ++ .leaf around l :: (m ++ v :: m') ++ .leaf around' l' :: post =
      (pre ++ .leaf around l :: m) ++ v :: (m' ++ .leaf around' l' :: post) := by simp
  rw [hsteps, List.splitOnP_append_cons _ _ hbreaks] at h
  refine h.apart ?_ ?_
  · rw [visited_splitOnP, visited_append, legiblePieces_append, legiblePieces_leaf _ hl,
      legiblePieces_eq_nil hbefore]
  · rw [visited_splitOnP, visited_append, legiblePieces_append, legiblePieces_leaf _ hl',
      legiblePieces_eq_nil hafter, List.nil_append]

end next

end numbered

end Layout

namespace Fragment

open Layout
open Piece (ofLeaf)

/-- The layout sets every run of the traversal on one line: any indents first, as many as there are
groups around each leaf of the run that indent, then the leaves of the run, with at most single
spaces and never one at an end.  Of two legible leaves with no other between them, the second is on
the line of the first exactly if the traversal goes from one to the other without entering or leaving
a block. -/
theorem layout_lines (unit : String) (f : Fragment) :
    visited (visits [] f) = f.leaves ∧
    Lays unit ((visits [] f).splitOnP Visit.breaks) (f.layout unit) ∧
    ∀ pre mid post around around' l l',
      visits [] f = pre ++ .leaf around l :: mid ++ .leaf around' l' :: post →
      l.isLegible = true → l'.isLegible = true → (∀ l ∈ visited mid, l.isLegible = false) →
      ∃ before i j after,
        numbered 0 (f.layout unit) = before ++ (i, ofLeaf l) :: (j, ofLeaf l') :: after ∧
        before.map Prod.snd = legiblePieces (visited pre) ∧
        after.map Prod.snd = legiblePieces (visited post) ∧
        (i = j ↔ ∀ v ∈ mid, v.breaks = false) := by
  have hlays : Lays unit ((visits [] f).splitOnP Visit.breaks) (f.layout unit) :=
    (Follows.print ⟨unit, 0, none⟩ rfl (follows_start unit 0) f).lays_flush
  refine ⟨visited_visits [] f, hlays, ?_⟩
  intro pre mid post around around' l l' hsteps hl hl' hmid
  rw [hsteps] at hlays
  by_cases hunbroken : ∀ v ∈ mid, v.breaks = false
  · obtain ⟨before, i, after, hnumbered, hbefore, hafter⟩ :=
      hlays.unbroken hl hl' hmid hunbroken
    exact ⟨before, i, i, after, hnumbered, hbefore, hafter, iff_of_true rfl hunbroken⟩
  · obtain ⟨v, hv, hbreaks⟩ : ∃ v ∈ mid, v.breaks = true := by simpa using hunbroken
    obtain ⟨before, i, j, after, hnumbered, hbefore, hafter, hlt⟩ :=
      hlays.broken hl hl' hmid hv hbreaks
    exact ⟨before, i, j, after, hnumbered, hbefore, hafter,
      iff_of_false (Nat.ne_of_lt hlt) hunbroken⟩

/-- In the statement over three lines, the keyword is not on the line of the brace before it, and its
semicolon is on its own. -/
theorem layout_lines_scope :
    (∃ before i j after, numbered 0 ((scope true).layout "  ") =
      before ++ (i, ofLeaf ⟨.bracket, "\x7b"⟩) :: (j, ofLeaf ⟨.keyword, "debugger"⟩) :: after ∧
        i ≠ j) ∧
    ∃ before i after, numbered 0 ((scope true).layout "  ") =
      before ++ (i, ofLeaf ⟨.keyword, "debugger"⟩) :: (i, ofLeaf ⟨.punctuation, ";"⟩) :: after := by
  obtain ⟨-, -, hnext⟩ := layout_lines "  " (scope true)
  constructor
  · obtain ⟨before, i, j, after, hnumbered, -, -, hiff⟩ := hnext
      ((visits [] (scope true)).take 2) (((visits [] (scope true)).take 5).drop 3)
      ((visits [] (scope true)).drop 6) _ _ ⟨.bracket, "\x7b"⟩ ⟨.keyword, "debugger"⟩ rfl
      (by decide) (by decide) (fun _ hl => nomatch hl)
    refine ⟨before, i, j, after, hnumbered, fun hij => ?_⟩
    have hgroup := hiff.mp hij (.enter ⟨.block, none, false⟩) List.mem_cons_self
    cases hgroup
  · obtain ⟨before, i, j, after, hnumbered, -, -, hiff⟩ := hnext
      ((visits [] (scope true)).take 5) [] ((visits [] (scope true)).drop 7) _ _
      ⟨.keyword, "debugger"⟩ ⟨.punctuation, ";"⟩ rfl (by decide) (by decide)
      (fun _ hl => nomatch hl)
    obtain rfl := hiff.mpr fun _ hv => nomatch hv
    exact ⟨before, i, after, hnumbered⟩

end Fragment

end SyntaxLens
