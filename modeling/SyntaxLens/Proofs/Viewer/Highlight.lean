import SyntaxLens.Format.Registry
import SyntaxLens.Proofs.Focus.Visibility
import SyntaxLens.Proofs.Fragment.Between
import SyntaxLens.Viewer.CodePane

/-! # The code pane and the text format

The code pane shows the lines of the text format, with a background in place of the marks of the
focus: `lines_show_text`.

The background is switched on and off by marks that the pane drops, and looking one piece ahead it
keeps a pair of marks with nothing between them (`visible`).  Since no line ends in an opening mark,
what the switch does line by line is what it does to all pieces in a row (`spansOfAll_flatten`).
There the marks stand around the leaves of the composite in focus, so these are what has the
background. -/

namespace SyntaxLens.Viewer.CodePane

open Layout

/-! ### What a line shows -/

/-- The pieces of a line without the marks of the focus. A pair of marks with nothing between them
stays, as one piece. -/
def visible : List Piece → List Piece
  | [] => []
  | ⟨.focusOpen, opening⟩ :: ⟨.focusClose, closing⟩ :: rest =>
    ⟨.focusOpen, opening ++ closing⟩ :: visible rest
  | p :: rest => if p.isFocus then visible rest else p :: visible rest

/-- The pair of marks as it is shown. -/
def pair : Piece := ⟨.focusOpen, "»«"⟩

/-- Whether a span has the background of the focus. -/
def isLit (s : Span) : Bool := s.style.background == focusStyle.background

/-- Of pieces and the spans that show them, the pieces whose spans have the background. -/
def lit (pieces : List Piece) (spans : List Span) : List Piece :=
  ((pieces.zip spans).filter fun x => isLit x.2).map Prod.fst

/-- How a piece that is no mark is shown. -/
def spanOf (inFocus : Bool) (p : Piece) : Span :=
  ⟨p.text, if inFocus && p.kind != .indent then (pieceStyle p.kind).patch focusStyle
    else pieceStyle p.kind⟩

section pieces
variable {p : Piece} {ps qs : List Piece}

theorem kind_ne_of_isFocus_eq_false (h : p.isFocus = false) :
    p.kind ≠ .focusOpen ∧ p.kind ≠ .focusClose := by
  simpa [Piece.isFocus] using h

theorem countP_focusOpen_of_unmarked (h : Unmarked ps) :
    ps.countP (·.kind == .focusOpen) = 0 :=
  List.countP_eq_zero.mpr fun p hp hopen =>
    (kind_ne_of_isFocus_eq_false (h p hp)).1 (beq_iff_eq.mp hopen)

theorem visible_cons (h : p.kind ≠ .focusOpen) :
    visible (p :: ps) = if p.kind = .focusClose then visible ps else p :: visible ps := by
  obtain ⟨kind, text⟩ := p
  cases kind <;> first | rfl | exact absurd rfl h

theorem spans_cons (h : p.kind ≠ .focusOpen) (inFocus : Bool) :
    spans inFocus (p :: ps) = if p.kind = .focusClose then spans false ps
      else (spanOf inFocus p :: (spans inFocus ps).1, (spans inFocus ps).2) := by
  obtain ⟨kind, text⟩ := p
  cases kind <;> first | exact absurd rfl h | cases inFocus <;> rfl

/-- An opening mark is dropped unless the closing one comes next. -/
theorem visible_focusOpen (h : p.kind ≠ .focusClose) (text : String) :
    visible (⟨.focusOpen, text⟩ :: p :: ps) = visible (p :: ps) := by
  obtain ⟨kind, text⟩ := p
  cases kind <;> first | rfl | exact absurd rfl h

theorem spans_focusOpen (h : p.kind ≠ .focusClose) (text : String) (inFocus : Bool) :
    spans inFocus (⟨.focusOpen, text⟩ :: p :: ps) = spans true (p :: ps) := by
  obtain ⟨kind, text⟩ := p
  cases kind <;> first | rfl | exact absurd rfl h

/-- Every opening mark has something behind it. -/
inductive Readable : List Piece → Prop
  | nil : Readable []
  | pair {opening closing : String} {rest : List Piece} : Readable rest →
      Readable (⟨.focusOpen, opening⟩ :: ⟨.focusClose, closing⟩ :: rest)
  | opening {text : String} {p : Piece} {rest : List Piece} : p.kind ≠ .focusClose →
      Readable (p :: rest) → Readable (⟨.focusOpen, text⟩ :: p :: rest)
  | piece {p : Piece} {rest : List Piece} : p.kind ≠ .focusOpen → Readable rest →
      Readable (p :: rest)

theorem readable_of_getLast? : ∀ ps : List Piece,
    (∀ p, ps.getLast? = some p → p.kind ≠ .focusOpen) → Readable ps
  | [], _ => .nil
  | [p], h => .piece (h p rfl) .nil
  | p :: q :: rest, h => by
      rw [List.getLast?_cons_cons] at h
      obtain ⟨kind, text⟩ := p
      by_cases hopen : kind = .focusOpen
      · subst hopen
        by_cases hclose : q.kind = .focusClose
        · obtain ⟨_, closing⟩ := q
          subst hclose
          refine .pair (readable_of_getLast? rest fun p hp => h p ?_)
          rw [List.getLast?_cons, hp]
          rfl
        · exact .opening hclose (readable_of_getLast? (q :: rest) h)
      · exact .piece hopen (readable_of_getLast? (q :: rest) h)

theorem readable_of_capped (h : Capped ps) : Readable ps :=
  readable_of_getLast? ps fun p hp => (h p hp).2

theorem readable_of_unmarked (h : Unmarked ps) : Readable ps := by
  refine readable_of_getLast? ps fun p hp => ?_
  exact (kind_ne_of_isFocus_eq_false (h p (List.mem_of_getLast? hp))).1

theorem visible_append (h : Readable ps) (qs : List Piece) :
    visible (ps ++ qs) = visible ps ++ visible qs := by
  induction h with
  | nil => rfl
  | pair _ ih => exact congrArg (_ :: ·) ih
  | opening hp _ ih =>
      rw [List.cons_append, List.cons_append, visible_focusOpen hp, visible_focusOpen hp]
      exact ih
  | piece hp _ ih =>
      rw [List.cons_append, visible_cons hp, visible_cons hp]
      split
      · exact ih
      · exact congrArg (_ :: ·) ih

theorem spans_append (h : Readable ps) (qs : List Piece) : ∀ inFocus : Bool,
    spans inFocus (ps ++ qs) =
      ((spans inFocus ps).1 ++ (spans (spans inFocus ps).2 qs).1,
        (spans (spans inFocus ps).2 qs).2) := by
  induction h with
  | nil => exact fun _ => rfl
  | pair _ ih =>
      intro inFocus
      simp only [List.cons_append, spans, ih]
  | opening hp _ ih =>
      intro inFocus
      rw [List.cons_append, List.cons_append, spans_focusOpen hp, spans_focusOpen hp]
      exact ih true
  | piece hp _ ih =>
      intro inFocus
      rw [List.cons_append, spans_cons hp, spans_cons hp]
      split
      · exact ih false
      · simp only [ih, List.cons_append]

theorem visible_unmarked (h : Unmarked ps) : visible ps = ps := by
  induction ps with
  | nil => rfl
  | cons p ps ih =>
      rw [Unmarked, List.forall_mem_cons] at h
      have hkind := kind_ne_of_isFocus_eq_false h.1
      rw [visible_cons hkind.1, if_neg hkind.2, ih h.2]

theorem spans_unmarked (h : Unmarked ps) (inFocus : Bool) :
    spans inFocus ps = (ps.map (spanOf inFocus), inFocus) := by
  induction ps with
  | nil => rfl
  | cons p ps ih =>
      rw [Unmarked, List.forall_mem_cons] at h
      have hkind := kind_ne_of_isFocus_eq_false h.1
      rw [spans_cons hkind.1, if_neg hkind.2, ih h.2, List.map_cons]

/-- A line shows the texts of its visible pieces, in focus or not, if its marks are written as they
should. -/
theorem texts_spans (h : Readable ps)
    (hmarks : ∀ p ∈ ps, p.isFocus = true → p = .focusOpen ∨ p = .focusClose) : ∀ inFocus : Bool,
    (spans inFocus ps).1.map Span.text = (visible ps).map Piece.text := by
  induction h with
  | nil => exact fun _ => rfl
  | @pair a b rest _ ih =>
      simp only [List.forall_mem_cons] at hmarks
      obtain ⟨hopen, hclose, hrest⟩ := hmarks
      intro inFocus
      have hpair : a ++ b = "»«" := by
        have ha : a = "»" := by simpa [Piece.isFocus, Piece.focusOpen, Piece.focusClose] using hopen
        have hb : b = "«" := by simpa [Piece.isFocus, Piece.focusOpen, Piece.focusClose] using hclose
        rw [ha, hb]
        rfl
      simp only [spans, visible, List.map_cons, ih hrest, hpair]
  | opening hp _ ih =>
      intro inFocus
      rw [spans_focusOpen hp, visible_focusOpen hp]
      exact ih (List.forall_mem_cons.mp hmarks).2 true
  | piece hp _ ih =>
      intro inFocus
      have hrest := ih (List.forall_mem_cons.mp hmarks).2
      rw [spans_cons hp, visible_cons hp]
      split
      · exact hrest false
      · rw [List.map_cons, List.map_cons, hrest]
        rfl

end pieces

/-! ### What all lines show -/

section lines
variable {text : List (List Piece)}

/-- Line by line, the background goes on where it ended on the line before. -/
theorem flatten_spansOfAll (h : ∀ line ∈ text, Readable line) : ∀ inFocus : Bool,
    (spansOfAll inFocus text).flatten = (spans inFocus text.flatten).1 := by
  induction text with
  | nil => exact fun _ => rfl
  | cons line rest ih =>
      obtain ⟨hline, hrest⟩ := List.forall_mem_cons.mp h
      intro inFocus
      rw [spansOfAll, List.flatten_cons, List.flatten_cons, spans_append hline]
      exact congrArg ((spans inFocus line).1 ++ ·) (ih hrest _)

theorem flatMap_visible (h : ∀ line ∈ text, Readable line) :
    text.flatMap visible = visible text.flatten := by
  induction text with
  | nil => rfl
  | cons line rest ih =>
      obtain ⟨hline, hrest⟩ := List.forall_mem_cons.mp h
      rw [List.flatMap_cons, List.flatten_cons, visible_append hline, ih hrest]

theorem texts_spansOfAll (h : ∀ line ∈ text, Readable line)
    (hmarks : ∀ p ∈ text.flatten, p.isFocus = true → p = .focusOpen ∨ p = .focusClose) :
    ∀ inFocus : Bool, (spansOfAll inFocus text).map (·.map Span.text) =
      text.map fun line => (visible line).map Piece.text := by
  induction text with
  | nil => exact fun _ => rfl
  | cons line rest ih =>
      obtain ⟨hline, hrest⟩ := List.forall_mem_cons.mp h
      rw [List.flatten_cons, List.forall_mem_append] at hmarks
      intro inFocus
      rw [spansOfAll, List.map_cons, List.map_cons, texts_spans hline hmarks.1,
        ih hrest hmarks.2]

end lines

/-! ### The background -/

section background
variable {ps qs pre mid post : List Piece}

theorem lit_append {xs ys : List Span} (h : ps.length = xs.length) :
    lit (ps ++ qs) (xs ++ ys) = lit ps xs ++ lit qs ys := by
  simp only [lit, List.zip_append h, List.filter_append, List.map_append]

theorem isLit_spanOf (inFocus : Bool) (p : Piece) :
    isLit (spanOf inFocus p) = (inFocus && p.kind != .indent) := by
  obtain ⟨kind, text⟩ := p
  cases inFocus <;> cases kind <;> first | rfl | (rename_i k; cases k <;> rfl)

theorem lit_map (inFocus : Bool) (ps : List Piece) :
    lit ps (ps.map (spanOf inFocus)) = ps.filter fun p => inFocus && p.kind != .indent := by
  induction ps with
  | nil => rfl
  | cons p ps ih =>
      rw [lit] at ih ⊢
      rw [List.map_cons, List.zip_cons_cons, List.filter_cons, List.filter_cons, isLit_spanOf, ← ih]
      split <;> rfl

theorem lit_unmarked (h : Unmarked ps) : lit (visible ps) (spans false ps).1 = [] := by
  rw [visible_unmarked h, spans_unmarked h, lit_map]
  simp

theorem lit_pair (h : Unmarked post) : lit (visible (.focusOpen :: .focusClose :: post))
    (spans false (.focusOpen :: .focusClose :: post)).1 = [pair] := by
  have hpair : lit (visible (.focusOpen :: .focusClose :: post))
      (spans false (.focusOpen :: .focusClose :: post)).1 =
        pair :: lit (visible post) (spans false post).1 := rfl
  rw [hpair, lit_unmarked h]

/-- From the opening mark to the closing one, what is no indent has the background. -/
theorem lit_focused {p : Piece} (hmid : Unmarked (p :: mid)) (hpost : Unmarked post) :
    lit (visible (.focusOpen :: (p :: mid ++ .focusClose :: post)))
        (spans false (.focusOpen :: (p :: mid ++ .focusClose :: post))).1 =
      (p :: mid).filter fun p => p.kind != .indent := by
  have hclose := (kind_ne_of_isFocus_eq_false (hmid p List.mem_cons_self)).2
  have hinside := readable_of_unmarked hmid
  have hvisible : visible (.focusOpen :: (p :: mid ++ .focusClose :: post)) =
      p :: mid ++ visible post :=
    calc visible (.focusOpen :: (p :: mid ++ .focusClose :: post))
        = visible (p :: mid ++ .focusClose :: post) := visible_focusOpen hclose "»"
      _ = visible (p :: mid) ++ visible (.focusClose :: post) := visible_append hinside _
      _ = p :: mid ++ visible post := by rw [visible_unmarked hmid]; rfl
  have hspans : (spans false (.focusOpen :: (p :: mid ++ .focusClose :: post))).1 =
      (p :: mid).map (spanOf true) ++ (spans false post).1 :=
    calc (spans false (.focusOpen :: (p :: mid ++ .focusClose :: post))).1
        = (spans true (p :: mid ++ .focusClose :: post)).1 :=
          congrArg Prod.fst (spans_focusOpen hclose "»" false)
      _ = (p :: mid).map (spanOf true) ++ (spans false post).1 := by
          rw [spans_append hinside, spans_unmarked hmid]
          rfl
  rw [hvisible, hspans, lit_append (List.length_map _).symm, lit_map, lit_unmarked hpost,
    List.append_nil]
  simp only [Bool.true_and]

/-- What has the background is what stands between the marks, indents aside; or it is the pair
itself. -/
theorem lit_between (hpre : Unmarked pre) (hmid : Unmarked mid) (hpost : Unmarked post) :
    lit (visible (pre ++ [.focusOpen] ++ mid ++ [.focusClose] ++ post))
        (spans false (pre ++ [.focusOpen] ++ mid ++ [.focusClose] ++ post)).1 =
      if mid.isEmpty then [pair] else mid.filter fun p => p.kind != .indent := by
  have hsplit : pre ++ [Piece.focusOpen] ++ mid ++ [.focusClose] ++ post =
      pre ++ (.focusOpen :: (mid ++ .focusClose :: post)) := by simp
  have hbefore := readable_of_unmarked hpre
  rw [hsplit, visible_append hbefore, spans_append hbefore, visible_unmarked hpre,
    spans_unmarked hpre, lit_append (List.length_map _).symm, lit_map]
  have hdark : pre.filter (fun p => false && p.kind != .indent) = [] := by simp
  rw [hdark, List.nil_append]
  cases mid with
  | nil => exact lit_pair hpost
  | cons p mid => exact lit_focused hmid hpost

end background

/-- Where only one piece has a property, the first line that holds such a piece is the line that
holds it. -/
theorem findIdx?_any_eq_some_iff {α : Type} {q : α → Bool} {lines : List (List α)}
    (h : lines.flatten.countP q ≤ 1) (i : ℕ) : (lines.findIdx? fun line => line.any q) = some i ↔
      ∃ line, lines[i]? = some line ∧ line.any q = true := by
  induction lines generalizing i with
  | nil => simp
  | cons line rest ih =>
      rw [List.flatten_cons, List.countP_append] at h
      rw [List.findIdx?_cons]
      cases hline : line.any q with
      | true =>
          have hpos : 0 < line.countP q := List.countP_pos_iff.mpr (by simpa using hline)
          -- The one piece is on this line, so no other line holds it.
          have hrest : ∀ other ∈ rest, ¬ other.any q = true := by
            intro other hother hany
            have hpos' : 0 < rest.flatten.countP q := by
              obtain ⟨x, hx, hq⟩ := List.any_eq_true.mp hany
              exact List.countP_pos_iff.mpr ⟨x, List.mem_flatten.mpr ⟨other, hother, hx⟩, hq⟩
            omega
          constructor
          · intro hi
            obtain rfl : i = 0 := by simpa [eq_comm] using hi
            exact ⟨line, rfl, hline⟩
          · rintro ⟨other, hother, hany⟩
            cases i with
            | zero => rfl
            | succ i => exact absurd hany (hrest other (List.mem_of_getElem? hother))
      | false =>
          cases i with
          | zero => simpa using hline
          | succ i => simpa using ih (by omega) i

/-! ### The pane -/

/-- The lines of the pane and the row of the focus, beside the lines of a text.  The spans of a line
are the visible pieces of the line one by one, no indent has the background, and the row is that of
the opening mark. -/
structure Shows (text : List (List Piece)) (pane : List Line × Option ℕ) : Prop where
  texts : pane.1.map (·.map Span.text) = text.map fun line => (visible line).map Piece.text
  indents : ∀ p ∈ lit (text.flatMap visible) pane.1.flatten, p.kind ≠ .indent
  row : ∀ i, pane.2 = some i ↔ ∃ line, text[i]? = some line ∧ Piece.focusOpen ∈ line

/-- The pieces in the background that are no spaces. -/
def litLeaves (text : List (List Piece)) (pane : List Line × Option ℕ) : List Piece :=
  (lit (text.flatMap visible) pane.1.flatten).filter fun p => p.kind != .space

section pane
variable {text : List (List Piece)}

theorem focusRow?_eq_some_iff
    (hmarks : ∀ p ∈ text.flatten, p.isFocus = true → p = .focusOpen ∨ p = .focusClose)
    (hcount : text.flatten.countP (·.kind == .focusOpen) ≤ 1) (i : ℕ) :
    focusRow? text = some i ↔ ∃ line, text[i]? = some line ∧ Piece.focusOpen ∈ line := by
  rw [focusRow?, findIdx?_any_eq_some_iff hcount]
  refine exists_congr fun line => and_congr_right fun hline => ?_
  have hmem := List.mem_of_getElem? hline
  rw [List.any_eq_true]
  constructor
  · rintro ⟨p, hp, hkind⟩
    have hopen : p.kind = .focusOpen := by simpa using hkind
    rcases hmarks p (List.mem_flatten.mpr ⟨line, hmem, hp⟩) (by simp [Piece.isFocus, hopen])
      with rfl | rfl
    · exact hp
    · cases hopen
  · exact fun hp => ⟨.focusOpen, hp, rfl⟩

/-- A text without marks is shown without a background. -/
theorem shows_unmarked (h : Unmarked text.flatten) :
    Shows text (spansOfAll false text, focusRow? text) ∧
      litLeaves text (spansOfAll false text, focusRow? text) = [] := by
  have hreadable : ∀ line ∈ text, Readable line := fun line hline =>
    readable_of_unmarked fun p hp => h p (List.mem_flatten.mpr ⟨line, hline, hp⟩)
  have hmarks : ∀ p ∈ text.flatten, p.isFocus = true → p = .focusOpen ∨ p = .focusClose := by
    intro p hp hfocus
    rw [h p hp] at hfocus
    cases hfocus
  have hcount := countP_focusOpen_of_unmarked h
  have hlit : lit (text.flatMap visible) (spansOfAll false text).flatten = [] := by
    rw [flatMap_visible hreadable, flatten_spansOfAll hreadable, lit_unmarked h]
  refine ⟨⟨texts_spansOfAll hreadable hmarks false, ?_, ?_⟩, ?_⟩
  · rw [hlit]
    exact fun p hp => by cases hp
  · exact focusRow?_eq_some_iff hmarks (by omega)
  · rw [litLeaves, hlit]
    rfl

theorem marks_between {pre mid post : List Piece} (hpre : Unmarked pre) (hmid : Unmarked mid)
    (hpost : Unmarked post) {p : Piece}
    (hp : p ∈ pre ++ [.focusOpen] ++ mid ++ [.focusClose] ++ post) (hfocus : p.isFocus = true) :
    p = .focusOpen ∨ p = .focusClose := by
  simp only [List.mem_append, List.mem_singleton] at hp
  rcases hp with (((hp | hp) | hp) | hp) | hp
  · exact absurd hfocus (by simp [hpre p hp])
  · exact .inl hp
  · exact absurd hfocus (by simp [hmid p hp])
  · exact .inr hp
  · exact absurd hfocus (by simp [hpost p hp])

/-- A text with a pair of marks is shown with a background between them. -/
theorem shows_between (hcapped : ∀ line ∈ text, Capped line) {pre mid post : List Piece}
    (htext : text.flatten = pre ++ [.focusOpen] ++ mid ++ [.focusClose] ++ post)
    (hpre : Unmarked pre) (hmid : Unmarked mid) (hpost : Unmarked post) :
    Shows text (spansOfAll false text, focusRow? text) ∧
      litLeaves text (spansOfAll false text, focusRow? text) =
        if mid.isEmpty then [pair] else mid.filter Piece.isLeaf := by
  have hreadable : ∀ line ∈ text, Readable line := fun line hline =>
    readable_of_capped (hcapped line hline)
  have hmarks : ∀ p ∈ text.flatten, p.isFocus = true → p = .focusOpen ∨ p = .focusClose :=
    fun p hp => marks_between hpre hmid hpost (htext ▸ hp)
  have hcount : text.flatten.countP (·.kind == .focusOpen) = 1 := by
    rw [htext]
    simp [List.countP_append, countP_focusOpen_of_unmarked hpre, countP_focusOpen_of_unmarked hmid,
      countP_focusOpen_of_unmarked hpost, Piece.focusOpen, Piece.focusClose]
  have hlit : lit (text.flatMap visible) (spansOfAll false text).flatten =
      if mid.isEmpty then [pair] else mid.filter fun p => p.kind != .indent := by
    rw [flatMap_visible hreadable, flatten_spansOfAll hreadable, htext,
      lit_between hpre hmid hpost]
  refine ⟨⟨texts_spansOfAll hreadable hmarks false, ?_, ?_⟩, ?_⟩
  · rw [hlit]
    intro p hp
    split at hp
    · rw [List.mem_singleton.mp hp]
      decide
    · simpa using (List.mem_filter.mp hp).2
  · exact focusRow?_eq_some_iff hmarks (by omega)
  · rw [litLeaves, hlit]
    split
    · rfl
    · rw [List.filter_filter]
      refine List.filter_congr fun p hp => ?_
      have hkind := hmid p hp
      obtain ⟨kind, text⟩ := p
      cases kind <;> first | rfl | cases hkind

end pane

open Fragment (Frame)

/-- A composite in a frame has its mark among those of the whole. -/
theorem mem_nodes_plug (frame : Frame) (flow : Flow) (mark : Mark) (children : List Fragment) :
    mark ∈ (frame.plug (.composite flow (some mark) children)).nodes := by
  have hcount := frame.countP_plug (.composite flow (some mark) children) (· == mark)
  rw [Fragment.nodes, Option.toList_some, List.singleton_append, List.countP_cons,
    if_pos (beq_self_eq_true mark)] at hcount
  obtain ⟨x, hx, heq⟩ := List.countP_pos_iff.mp (show 0 < _ by rw [hcount]; omega)
  exact (beq_iff_eq.mp heq) ▸ hx

/-- A rendered tree has at most one composite in focus: the one at the path of the focus, with
everything around it as a frame. -/
theorem focused_cases {t : Tree} (h : t.Strict) {p : Path} {f : Fragment}
    (hf : t.renderRoot (some p) = some f) : f.nodes.filter Mark.focused = [] ∨
      ∃ frame flow mark children, f = Frame.plug (.composite flow (some mark) children) frame ∧
        f.nodes.filter Mark.focused = [mark] ∧ mark.path = p := by
  have hpaths := h.paths_focused hf
  have hle : (f.nodes.map Mark.path).count p ≤ 1 :=
    List.nodup_iff_count_le_one.mp (Tree.paths_render_nodup hf) p
  rcases hlist : f.nodes.filter Mark.focused with _ | ⟨mark, rest⟩
  · exact .inl rfl
  · have hmark : mark ∈ f.nodes ∧ mark.focused = true :=
      List.mem_filter.mp (hlist ▸ List.mem_cons_self)
    have hlen := congrArg List.length hpaths
    rw [hlist, List.length_map, List.length_cons, List.length_replicate] at hlen
    obtain rfl : rest = [] := List.length_eq_zero_iff.mp (by omega)
    obtain ⟨frame, flow, mark', children, rfl, hfocused⟩ :=
      Fragment.exists_plug f ⟨mark, hmark⟩
    have hmem : mark' ∈ [mark] :=
      hlist ▸ List.mem_filter.mpr ⟨mem_nodes_plug frame flow mark' children, hfocused⟩
    obtain rfl := List.mem_singleton.mp hmem
    have hpath : mark'.path ∈ [mark'].map Mark.path := List.mem_cons_self
    rw [← hlist, hpaths] at hpath
    exact .inr ⟨frame, flow, mark', children, rfl, rfl, (List.mem_replicate.mp hpath).2⟩

/-- For a tree that was loaded and any focus, the pane shows the text format line by line.  The text
is that of the lines, each with its end.  The spans of a line are its pieces without the marks of
the focus, no indent has the background, and the row that is reported is the line of the opening
mark, if there is one.

Either no composite is in focus; then there is no mark and no background.  Or one composite is, at
the path of the focus; then the marks stand around what it prints, and the spans with the background
that are no spaces are the leaves between the marks.  If it prints nothing, the pair of marks is
shown in their place. -/
theorem lines_show_text (json : Json) (m : Model) (hload : Document.load json = .ok m.tree)
    (indent : String) :
    let text := layout indent m
    let pane := lines indent m
    (Format.text { indent := indent }).print m.tree m.path =
      .ok (String.join (text.map fun line => String.join (line.map Piece.text) ++ "\n")) ∧
    Shows text pane ∧
    ∃ f, m.tree.renderRoot (some m.path) = some f ∧
      ((f.nodes.filter Mark.focused = [] ∧ Unmarked text.flatten ∧ litLeaves text pane = []) ∨
        ∃ frame flow mark children pre mid post,
          f = Frame.plug (.composite flow (some mark) children) frame ∧
          f.nodes.filter Mark.focused = [mark] ∧ mark.path = m.path ∧
          text.flatten = pre ++ [.focusOpen] ++ mid ++ [.focusClose] ++ post ∧
          Prints (shown frame.before) pre ∧ Prints (shown (Fragment.leavesAll children)) mid ∧
          Prints (shown frame.after) post ∧
          litLeaves text pane = if (shown (Fragment.leavesAll children)).isEmpty then [pair]
            else mid.filter Piece.isLeaf) := by
  intro text pane
  obtain ⟨d, hd, htree⟩ := (Document.load_eq_ok_iff json m.tree).mp hload
  have h : m.tree.Strict := htree ▸ hd.strict
  obtain ⟨f, hf⟩ := h.exists_renderRoot (some m.path)
  have htext : text = f.layout indent := by simp only [text, layout, hf]
  have hpane : pane = (spansOfAll false (f.layout indent), focusRow? (f.layout indent)) := by
    simp only [pane, lines, ← htext]
    rfl
  rw [htext, hpane]
  refine ⟨?_, ?_⟩
  · simp only [Format.text, hf, Option.map_some, Option.getD_some, Fragment.toText]
  rcases focused_cases h hf with hnone | ⟨frame, flow, mark, children, rfl, hone, hpath⟩
  · have hcalm : ∀ m ∈ f.nodes, m.focused = false := by
      simpa [List.filter_eq_nil_iff] using hnone
    have hunmarked := (Fragment.layout_calm indent hcalm).unmarked
    obtain ⟨hshows, hlit⟩ := shows_unmarked hunmarked
    exact ⟨hshows, f, hf, .inl ⟨hnone, hunmarked, hlit⟩⟩
  · have hmark : mark.focused = true := (List.mem_filter.mp (hone ▸ List.mem_cons_self)).2
    have hcount : (frame.plug (.composite flow (some mark) children)).nodes.countP
        Mark.focused = 1 := by
      rw [List.countP_eq_length_filter, hone]
      rfl
    obtain ⟨pre, mid, post, hpieces, hpre, hmid, hpost, hempty, hcapped⟩ :=
      Fragment.layout_between indent hmark hcount
    obtain ⟨hshows, hlit⟩ :=
      shows_between hcapped hpieces hpre.unmarked hmid.unmarked hpost.unmarked
    have hsame : mid.isEmpty = (shown (Fragment.leavesAll children)).isEmpty := by
      rw [Bool.eq_iff_iff, List.isEmpty_iff, List.isEmpty_iff, hempty]
    exact ⟨hshows, _, hf, .inr ⟨frame, flow, mark, children, pre, mid, post, rfl, hone, hpath,
      hpieces, hpre, hmid, hpost, hsame ▸ hlit⟩⟩

/-- A block over three lines, and a statement after it. -/
def blocks : Json := .object [("type", .string "Program"), ("body", .array [
  .object [("type", .string "BlockStatement"),
    ("body", .array [.object [("type", .string "DebuggerStatement")]])],
  .object [("type", .string "EmptyStatement")]])]

theorem lines_show_text_blocks : ∃ t, Document.load blocks = .ok t ∧
    let m : Model := ⟨⟨t, [⟨"body", some 0⟩]⟩, []⟩
    Shows (layout "  " m) (lines "  " m) ∧
    (lines "  " m).1.map (·.map Span.text) =
      [["\x7b"], ["  ", "debugger", ";"], ["\x7d"], [";"]] ∧
    (lines "  " m).2 = some 0 ∧
    (litLeaves (layout "  " m) (lines "  " m)).map Piece.text =
      ["\x7b", "debugger", ";", "\x7d"] := by
  refine ⟨_, rfl, ?_⟩
  intro m
  obtain ⟨-, hshows, -⟩ := lines_show_text blocks m rfl "  "
  exact ⟨hshows, by decide +kernel, by decide +kernel, by decide +kernel⟩

end SyntaxLens.Viewer.CodePane
