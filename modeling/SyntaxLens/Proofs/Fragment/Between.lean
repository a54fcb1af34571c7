import SyntaxLens.Proofs.Fragment.Contents
import SyntaxLens.Proofs.Fragment.Wrapping

/-! # What stands between the marks

The layout of a fragment that has one composite in focus has one pair of marks.  What stands before
them prints the leaves before the composite, what stands between them prints its own leaves, and
what stands after them prints the rest: `layout_between`.  Leaves may be blank here.  A blank leaf
is printed if it shares its line with a leaf or a mark that shows something, and is lost otherwise,
so the pieces are compared with the leaves up to blank ones (`Prints`).

The pieces of a state are those of its complete lines and of the line begun.  They grow at their end
only, and ending a line takes away nothing that shows something (`Tail.flush`).  So what was printed
up to a mark stays as it is. -/

namespace SyntaxLens

namespace Layout

open Piece (ofLeaf)

/-! ### Pieces for leaves -/

/-- Pieces without marks that print the leaves in order: all that show something, and of the blank
ones some. -/
structure Prints (ls : List Leaf) (ps : List Piece) : Prop where
  unmarked : Unmarked ps
  sublist : (ps.filter Piece.isLeaf).Sublist (ls.map ofLeaf)
  legible : ps.filter Piece.isLegible = legiblePieces ls

section prints
variable {ls ls' : List Leaf} {ps qs : List Piece}

theorem prints_nil : Prints [] [] := ⟨unmarked_nil, List.Sublist.slnil, rfl⟩

theorem prints_singleton (l : Leaf) : Prints [l] [ofLeaf l] := by
  refine ⟨unmarked_ofLeaf l, List.Sublist.refl _, ?_⟩
  cases hl : l.isLegible <;> simp [legiblePieces, Piece.isLegible_ofLeaf, hl]

theorem prints_of_gaps (h : ∀ p ∈ ps, p.isGap = true) : Prints [] ps := by
  have hleaves : ps.filter Piece.isLeaf = [] :=
    List.filter_eq_nil_iff.mpr fun p hp => by simp [Piece.isLeaf_of_isGap (h p hp)]
  exact ⟨fun p hp => Piece.isFocus_of_isGap (h p hp), hleaves ▸ List.Sublist.slnil,
    filter_isLegible_of_gaps h⟩

theorem Prints.append (h : Prints ls ps) (h' : Prints ls' qs) :
    Prints (ls ++ ls') (ps ++ qs) := by
  refine ⟨unmarked_append_iff.mpr ⟨h.unmarked, h'.unmarked⟩, ?_, ?_⟩
  · rw [List.filter_append, List.map_append]
    exact h.sublist.append h'.sublist
  · rw [List.filter_append, legiblePieces_append, h.legible, h'.legible]

/-- The gap before a leaf prints nothing. -/
theorem Prints.append_lead (h : Prints ls ps) (s : State) (c : Context) (text : String) :
    Prints ls (ps ++ s.lead c text) := by
  have hlead : Prints [] (s.lead c text) := prints_of_gaps fun p => s.isGap_of_mem_lead c
  exact List.append_nil ls ▸ h.append hlead

/-- What shows nothing may be lost at the end. -/
theorem Prints.of_append (h : Prints ls (ps ++ qs)) (hqs : ∀ p ∈ qs, p.isContent = false) :
    Prints ls ps := by
  have hblank : qs.filter Piece.isLegible = [] := by
    refine List.filter_eq_nil_iff.mpr fun p hp hlegible => ?_
    exact Bool.false_ne_true ((hqs p hp).symm.trans (Piece.isContent_of_isLegible hlegible))
  refine ⟨(unmarked_append_iff.mp h.unmarked).1, ?_, ?_⟩
  · have hsub := h.sublist
    rw [List.filter_append] at hsub
    exact (List.sublist_append_left _ _).trans hsub
  · rw [← h.legible, List.filter_append, hblank, List.append_nil]

end prints

/-! ### Lines and their ends -/

/-- The line ends in a leaf or in the mark that closes the focus. -/
def Capped (line : List Piece) : Prop :=
  ∀ p, line.getLast? = some p → p.isGap = false ∧ p.kind ≠ .focusOpen

section capped
variable {line : List Piece} {lines : List (List Piece)}

theorem capped_nil : Capped [] := by
  intro p hp
  cases hp

theorem capped_concat (line : List Piece) {q : Piece} (hgap : q.isGap = false)
    (hopen : q.kind ≠ .focusOpen) : Capped (line ++ [q]) := by
  intro p hp
  rw [List.getLast?_concat] at hp
  obtain rfl := Option.some.inj hp
  exact ⟨hgap, hopen⟩

theorem capped_ofLeaf (line : List Piece) (l : Leaf) : Capped (line ++ [ofLeaf l]) :=
  capped_concat line rfl PieceClass.noConfusion

theorem capped_focusClose (line : List Piece) : Capped (line ++ [.focusClose]) :=
  capped_concat line rfl (by decide)

/-- There is no gap at the end of the line to be taken away. -/
theorem trimmed_eq_self (h : ∀ p, line.getLast? = some p → p.isGap = false) :
    (line.reverse.dropWhile Piece.isGap).reverse = line := by
  cases line using List.reverseRecOn with
  | nil => rfl
  | append_singleton front p =>
      have hgap : p.isGap = false := h p List.getLast?_concat
      rw [List.reverse_concat, List.dropWhile_cons_of_neg (by simp [hgap]), ← List.reverse_concat,
        List.reverse_reverse]

/-- The mark that opens the focus has something behind it on its line. -/
theorem ne_nil_of_flatten (h : ∀ line ∈ lines, Capped line) {ps tail : List Piece}
    (heq : lines.flatten = ps ++ [.focusOpen] ++ tail) : tail ≠ [] := by
  rintro rfl
  rw [List.append_nil] at heq
  induction lines using List.reverseRecOn with
  | nil => simp at heq
  | append_singleton above last ih =>
      rw [List.flatten_append, List.flatten_singleton] at heq
      rcases List.eq_nil_or_concat' last with rfl | ⟨front, p, rfl⟩
      · rw [List.append_nil] at heq
        exact ih (fun line hline => h line (List.mem_append_left _ hline)) heq
      · rw [← List.append_assoc] at heq
        obtain ⟨-, hp⟩ := List.append_inj' heq rfl
        have hcapped := h (front ++ [p]) (List.mem_append_right _ List.mem_cons_self)
        obtain rfl := List.singleton_inj.mp hp
        exact (hcapped _ List.getLast?_concat).2 rfl

end capped

namespace State

variable (s : State)

/-- The lines that are complete and the line begun. -/
def rows : List (List Piece) := s.lines ++ [s.line]

def pieces : List Piece := s.rows.flatten

theorem pieces_eq : s.pieces = s.lines.flatten ++ s.line := by simp [pieces, rows]

end State

/-! ### States behind a mark -/

/-- Behind the pieces `fixed`, the state has printed the leaves `ls`. -/
structure Tail (fixed : List Piece) (ls : List Leaf) (s : State) : Prop where
  pending : s.pending = false
  capped : ∀ line ∈ s.rows, Capped line
  pieces : ∃ tail, s.pieces = fixed ++ tail ∧ Prints ls tail

section tail
variable {fixed : List Piece} {ls : List Leaf} {s : State} {c : Context} {l : Leaf}

theorem capped_put (h : ∀ line ∈ s.rows, Capped line) (hl : l.isShown = true) :
    ∀ line ∈ (s.put c l).rows, Capped line := by
  rw [s.put_of_isShown c hl]
  refine List.forall_mem_append.mpr ⟨?_, List.forall_mem_singleton.mpr (capped_ofLeaf _ l)⟩
  exact fun line hline => h line (List.mem_append_left _ hline)

theorem pieces_put (s : State) (c : Context) (hl : l.isShown = true) : (s.put c l).pieces =
    s.pieces ++ s.lead c l.text ++ (if s.pending then [.focusOpen] else []) ++ [ofLeaf l] := by
  rw [s.put_of_isShown c hl, State.pieces_eq, State.pieces_eq]
  simp only [List.append_assoc]

/-- A line without a gap at its end is kept as it stands, or dropped as a whole. -/
theorem flush_of_getLast? (h : ∀ p, s.line.getLast? = some p → p.isGap = false) : s.flush =
    { s with
      lines := if s.line.any Piece.isContent then s.lines ++ [s.line] else s.lines
      line := []
      prev := none
      glue := false } := by
  unfold State.flush
  rw [trimmed_eq_self h]

namespace Tail

theorem put (h : Tail fixed ls s) (hl : l.isShown = true) :
    Tail fixed (ls ++ [l]) (s.put c l) := by
  obtain ⟨tail, hpieces, hprints⟩ := h.pieces
  refine ⟨?_, capped_put h.capped hl, tail ++ s.lead c l.text ++ [ofLeaf l], ?_, ?_⟩
  · rw [s.put_of_isShown c hl]
  · rw [pieces_put s c hl, hpieces, h.pending]
    simp
  · exact (hprints.append_lead s c l.text).append (prints_singleton l)

/-- Ending the line takes away nothing that shows something, so nothing up to a mark. -/
theorem flush (hfixed : ∀ p, fixed.getLast? = some p → p.isContent = true)
    (h : Tail fixed ls s) : Tail fixed ls s.flush := by
  obtain ⟨tail, hpieces, hprints⟩ := h.pieces
  obtain ⟨hlines, hline⟩ := List.forall_mem_append.mp h.capped
  rw [flush_of_getLast? fun p hp => (hline s.line List.mem_cons_self p hp).1]
  have hnil : ∀ line ∈ [([] : List Piece)], Capped line :=
    List.forall_mem_singleton.mpr capped_nil
  rw [State.pieces_eq] at hpieces
  cases hany : s.line.any Piece.isContent with
  | true =>
      refine ⟨h.pending, List.forall_mem_append.mpr ⟨h.capped, hnil⟩, tail, ?_, hprints⟩
      simpa [State.pieces_eq] using hpieces
  | false =>
      have hlost : ∀ p ∈ s.line, p.isContent = false := by simpa using hany
      refine ⟨h.pending, List.forall_mem_append.mpr ⟨hlines, hnil⟩, ?_⟩
      -- The line that is lost cannot reach up to what is fixed.
      obtain ⟨rest, htail, hkept⟩ : ∃ rest, tail = rest ++ s.line ∧
          s.lines.flatten = fixed ++ rest := by
        rcases List.append_eq_append_iff.mp hpieces with ⟨extra, hextra, hline'⟩ |
            ⟨rest, hrest, htail⟩
        · rcases List.eq_nil_or_concat' extra with rfl | ⟨front, p, rfl⟩
          · exact ⟨[], by simpa using hline'.symm, by simpa using hextra.symm⟩
          · have hcontent := hfixed p (by rw [hextra, ← List.append_assoc, List.getLast?_concat])
            have hp : p ∈ s.line := by rw [hline']; simp
            exact absurd (hcontent.symm.trans (hlost p hp)) Bool.noConfusion
        · exact ⟨rest, htail, hrest⟩
      subst htail
      exact ⟨rest, by simpa [State.pieces_eq] using hkept, hprints.of_append hlost⟩

theorem glue (h : Tail fixed ls s) : Tail fixed ls { s with glue := true } :=
  ⟨h.pending, h.capped, h.pieces⟩

end Tail

/-- The closing mark comes behind everything that was printed, on whatever line that is. -/
theorem closeFocus (hpending : s.pending = false) (hcapped : ∀ line ∈ s.rows, Capped line) :
    (s.closeFocus c).pending = false ∧ (∀ line ∈ (s.closeFocus c).rows, Capped line) ∧
      (s.closeFocus c).pieces = s.pieces ++ [.focusClose] := by
  obtain ⟨hlines, -⟩ := List.forall_mem_append.mp hcapped
  have hlast := fun line => List.forall_mem_singleton.mpr (capped_focusClose line)
  by_cases hline : s.line = []
  · rcases List.eq_nil_or_concat' s.lines with habove | ⟨above, last, habove⟩
    · have hclose : s.closeFocus c = { s with line := s.line ++ [.focusClose] } := by
        simp [State.closeFocus, hpending, hline, habove]
      rw [hclose]
      exact ⟨hpending, List.forall_mem_append.mpr ⟨hlines, hlast _⟩, by simp [State.pieces_eq]⟩
    · rw [s.closeFocus_of_lines c hpending hline habove]
      rw [habove, List.forall_mem_append] at hlines
      refine ⟨hpending,
        List.forall_mem_append.mpr ⟨List.forall_mem_append.mpr ⟨hlines.1, hlast _⟩, ?_⟩, ?_⟩
      · exact List.forall_mem_singleton.mpr (hline ▸ capped_nil)
      · simp [State.pieces_eq, habove, hline]
  · rw [s.closeFocus_of_line c hpending hline]
    exact ⟨hpending, List.forall_mem_append.mpr ⟨hlines, hlast _⟩, by simp [State.pieces_eq]⟩

end tail

/-! ### The run through the composite in focus -/

/-- The pieces print the leaves `before`, and then the leaves `inside` between marks. -/
def Marked (before inside : List Leaf) (ps : List Piece) : Prop :=
  ∃ pre mid, ps = pre ++ [.focusOpen] ++ mid ++ [.focusClose] ∧ Prints before pre ∧
    Prints inside mid ∧ (mid = [] ↔ inside = [])

/-- The focus waits for its first leaf behind the leaves `before`; or that leaf has come and has the
opening mark before it. -/
def Entered (before ls : List Leaf) (s : State) : Prop :=
  (ls = before ∧ s.pending = true ∧ Tail [] before { s with pending := false }) ∨
    ∃ pre inside, ls = before ++ inside ∧ inside ≠ [] ∧ Prints before pre ∧
      Tail (pre ++ [.focusOpen]) inside s

/-- The leaves `inside` have been printed between marks, and others behind them. -/
def Passed (before inside ls : List Leaf) (s : State) : Prop :=
  ∃ ps after, ls = before ++ inside ++ after ∧ Marked before inside ps ∧ Tail ps after s

section runs
variable {before inside ls : List Leaf} {s : State} {c : Context} {l : Leaf}

theorem tail_start : Tail [] [] .start :=
  ⟨rfl, List.forall_mem_singleton.mpr capped_nil, [], rfl, prints_nil⟩

theorem keeps_calm : Keeps (fun _ => True) fun ls s _ => Tail [] ls s where
  put _ _ hl _ h := h.put hl
  flush h := h.flush fun p hp => by cases hp
  glue h := h.glue

theorem Entered.put (h : Entered before ls s) (hl : l.isShown = true) :
    Entered before (ls ++ [l]) (s.put c l) := by
  rcases h with ⟨rfl, hpending, h⟩ | ⟨pre, inside, rfl, -, hpre, h⟩
  · obtain ⟨pre, hpieces, hpre⟩ := h.pieces
    refine .inr ⟨_, [l], rfl, List.cons_ne_nil l [], hpre.append_lead s c l.text, ?_,
      capped_put h.capped hl, [ofLeaf l], ?_, prints_singleton l⟩
    · rw [s.put_of_isShown c hl]
    · have hpieces' : s.pieces = pre := hpieces
      rw [pieces_put s c hl, hpending, hpieces']
      rfl
  · refine .inr ⟨pre, inside ++ [l], List.append_assoc _ _ _, ?_, hpre, h.put hl⟩
    exact List.append_ne_nil_of_right_ne_nil _ (List.cons_ne_nil l [])

theorem getLast?_concat {ps : List Piece} {q : Piece} (hq : q.isContent = true) :
    ∀ p, (ps ++ [q]).getLast? = some p → p.isContent = true := by
  intro p hp
  rw [List.getLast?_concat] at hp
  exact Option.some.inj hp ▸ hq

theorem keeps_entered (before : List Leaf) :
    Keeps (fun _ => True) fun ls s _ => Entered before ls s where
  put _ _ hl _ h := h.put hl
  flush {ls s s'} h := by
    rcases h with ⟨rfl, hpending, h⟩ | ⟨pre, inside, rfl, hinside, hpre, h⟩
    · exact .inl ⟨rfl, hpending, h.flush fun p hp => by cases hp⟩
    · exact .inr ⟨pre, inside, rfl, hinside, hpre, h.flush (getLast?_concat (by decide))⟩
  glue {ls s s'} h := by
    rcases h with ⟨rfl, hpending, h⟩ | ⟨pre, inside, rfl, hinside, hpre, h⟩
    · exact .inl ⟨rfl, hpending, h.glue⟩
    · exact .inr ⟨pre, inside, rfl, hinside, hpre, h.glue⟩

/-- With the closing mark, the leaves in focus stand between marks.  If none has come the pair is
put on the line by itself. -/
theorem Entered.close (h : Entered before (before ++ inside) s) :
    ∃ ps, Marked before inside ps ∧ Tail ps [] (s.closeFocus c) := by
  rcases h with ⟨hls, hpending, h⟩ | ⟨pre, inside', hls, hinside, hpre, h⟩
  · obtain rfl : inside = [] := by simpa using hls
    obtain ⟨pre, hpieces, hpre⟩ := h.pieces
    refine ⟨_, ⟨_, [], rfl, hpre.append_lead s c "»«", prints_nil, iff_of_true rfl rfl⟩, ?_⟩
    obtain ⟨hlines, -⟩ := List.forall_mem_append.mp h.capped
    rw [s.closeFocus_of_pending c hpending]
    refine ⟨rfl, List.forall_mem_append.mpr ⟨hlines, ?_⟩, [], ?_, prints_nil⟩
    · have hline : s.line ++ s.lead c "»«" ++ [.focusOpen, .focusClose] =
          s.line ++ s.lead c "»«" ++ [.focusOpen] ++ [.focusClose] := by simp
      exact List.forall_mem_singleton.mpr (hline ▸ capped_focusClose _)
    · have hpieces' : s.lines.flatten ++ s.line = pre := by rw [← s.pieces_eq]; exact hpieces
      simp [State.pieces_eq, ← hpieces']
  · obtain rfl : inside = inside' := List.append_cancel_left hls
    obtain ⟨mid, hpieces, hmid⟩ := h.pieces
    have hfull : mid ≠ [] := ne_nil_of_flatten h.capped hpieces
    obtain ⟨hpending, hcapped, hclosed⟩ := closeFocus (c := c) h.pending h.capped
    refine ⟨_, ⟨pre, mid, rfl, hpre, hmid, iff_of_false hfull hinside⟩, hpending, hcapped, [], ?_,
      prints_nil⟩
    rw [hclosed, hpieces, List.append_nil]

theorem Marked.getLast? {ps : List Piece} (h : Marked before inside ps) :
    ∀ p, ps.getLast? = some p → p.isContent = true := by
  obtain ⟨pre, mid, rfl, -⟩ := h
  exact getLast?_concat (by decide)

theorem keeps_passed (before inside : List Leaf) :
    Keeps (fun _ => True) fun ls s _ => Passed before inside ls s where
  put := by
    rintro _ s s' c l hl - ⟨ps, after, rfl, hps, h⟩
    exact ⟨ps, after ++ [l], List.append_assoc _ _ _, hps, h.put hl⟩
  flush := by
    rintro _ s s' ⟨ps, after, rfl, hps, h⟩
    exact ⟨ps, after, rfl, hps, h.flush hps.getLast?⟩
  glue := by
    rintro _ s s' ⟨ps, after, rfl, hps, h⟩
    exact ⟨ps, after, rfl, hps, h.glue⟩

/-- A composite in focus is printed between marks. -/
theorem Tail.print_focused (h : Tail [] before s) (flow : Flow) {m : Mark}
    {children : List Fragment} (hm : m.focused = true)
    (hcalm : ∀ m ∈ Fragment.nodesAll children, m.focused = false) :
    Passed before (shown (Fragment.leavesAll children))
      (before ++ shown (Fragment.leavesAll children))
      (print c (.composite flow (some m) children) s) := by
  rw [Layout.print_focused c flow m children s hm]
  have hstart : Tail [] before (s.flushIf (flow == .block)) :=
    @Keeps.flushIf _ _ before s s keeps_calm (flow == .block) h
  have hwaits : Entered before before { s.flushIf (flow == .block) with pending := true } :=
    .inl ⟨rfl, rfl, rfl, hstart.capped, hstart.pieces⟩
  have hinside := @Keeps.printAll _ _ (keeps_entered before) (c.inner flow (some m))
    (Cohesion.of (some m.tag)) true before _ { s.flushIf (flow == .block) with pending := true }
    children hcalm (fun _ _ _ => trivial) hwaits
  obtain ⟨ps, hps, hclosed⟩ := hinside.close (c := c)
  have hpassed : Passed before (shown (Fragment.leavesAll children))
      (before ++ shown (Fragment.leavesAll children)) _ :=
    ⟨ps, [], (List.append_nil _).symm, hps, hclosed⟩
  exact @Keeps.flushIf _ _ _ _ .start (keeps_passed _ _) (flow == .block) hpassed

end runs

end Layout

namespace Fragment

open Layout

/-- If nothing is in focus, the layout prints the leaves without marks. -/
theorem layout_calm (unit : String) {f : Fragment} (hcalm : ∀ m ∈ f.nodes, m.focused = false) :
    Prints (shown f.leaves) (f.layout unit).flatten := by
  have hend := @Keeps.print _ _ keeps_calm ⟨unit, 0, none⟩ [] .start .start f hcalm
    (fun _ _ _ => trivial) tail_start
  obtain ⟨ps, hpieces, hprints⟩ := (@Keeps.flush _ _ keeps_calm _ _ .start hend).pieces
  rw [List.nil_append] at hpieces hprints
  rw [State.pieces_eq] at hpieces
  have hlines : (f.layout unit).flatten = ps := (List.append_nil _).symm.trans hpieces
  exact hlines ▸ hprints

/-- If one composite is in focus, the layout has one pair of marks.  The pieces before it print the
leaves before the composite, those between the marks print its own, and those after it print the
rest; there is nothing between the marks only if the composite prints no leaf.  Every line ends in a
leaf or in the closing mark, so the opening mark has what comes behind it on its line. -/
theorem layout_between (unit : String) {frame : Frame} {flow : Flow} {m : Mark}
    {children : List Fragment} (hm : m.focused = true)
    (hcount : (frame.plug (.composite flow (some m) children)).nodes.countP Mark.focused = 1) :
    ∃ pre mid post, ((frame.plug (.composite flow (some m) children)).layout unit).flatten =
        pre ++ [.focusOpen] ++ mid ++ [.focusClose] ++ post ∧
      Prints (shown frame.before) pre ∧ Prints (shown (leavesAll children)) mid ∧
      Prints (shown frame.after) post ∧ (mid = [] ↔ shown (leavesAll children) = []) ∧
      ∀ line ∈ (frame.plug (.composite flow (some m) children)).layout unit, Capped line := by
  obtain ⟨hframe, hchildren⟩ := frame.unfocused_of_countP_plug hm hcount
  have hmiddle : ∀ (c : Context) (s _ : State), Tail [] ([] ++ shown frame.before) s →
      Passed (shown frame.before) (shown (leavesAll children))
        ([] ++ shown frame.before ++ shown (leavesAll children))
        (print c (.composite flow (some m) children) s) :=
    fun c s _ h => h.print_focused flow hm hchildren
  have hend := @Keeps.plug _ _ _ keeps_calm (keeps_passed _ _) flow flow (some m) (some m) children
    children _ frame [] .start .start ⟨unit, 0, none⟩ hframe (fun _ _ _ => trivial) hmiddle tail_start
  -- The last line is ended, so the lines are all there is.
  obtain ⟨ps, after, hls, hmarked, htail⟩ := @Keeps.flush _ _ (keeps_passed _ _) _ _ .start hend
  obtain ⟨post, hpieces, hpost⟩ := htail.pieces
  obtain ⟨pre, mid, rfl, hpre, hmid, hempty⟩ := hmarked
  rw [List.nil_append] at hls
  obtain rfl : shown frame.after = after := List.append_cancel_left hls
  refine ⟨pre, mid, post, ?_, hpre, hmid, hpost, hempty, ?_⟩
  · rw [← hpieces, State.pieces_eq]
    exact (List.append_nil _).symm
  · exact fun line hline => htail.capped line (List.mem_append_left _ hline)

end Fragment

end SyntaxLens
