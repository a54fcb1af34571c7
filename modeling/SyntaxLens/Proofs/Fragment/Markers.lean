import SyntaxLens.Proofs.Fragment.Printing
import SyntaxLens.Proofs.Fragment.Wrapping

/-! # Marks of the focus in a layout

The marks of the focus change nothing else in a layout: `layout_marks` compares the layout of a
fragment that has one composite in focus with the layout of the same fragment without the focus.

Leaves are numbered as they are printed.  `wrap` puts the marks around the leaves from one number up
to another, whatever lines they are on.  The two runs agree up to the composite; inside it the focus
waits for the first leaf (`Waiting`), and from there on one state is the other with the marks
(`Enclosed`).  Where nothing in the composite is printed, the pair of marks itself is put on the
line and stays there (`Pinned`). -/

namespace SyntaxLens

namespace Layout

open Piece (ofLeaf)

/-! ### States without marks -/

/-- No mark of the focus has been put anywhere, and none is due. -/
structure Clean (s : State) : Prop where
  pending : s.pending = false
  unmarked_lines : Unmarked s.lines.flatten
  unmarked_line : Unmarked s.line

section clean
variable {s s' : State} {c : Context} {l : Leaf}

theorem countP_lead (next : String) : (s.lead c next).countP Piece.isLeaf = 0 :=
  List.countP_eq_zero.mpr fun p hp => by simp [Piece.isLeaf_of_isGap (s.isGap_of_mem_lead c hp)]

theorem unmarked_lead (next : String) : Unmarked (s.lead c next) := fun _ hp =>
  Piece.isFocus_of_isGap (s.isGap_of_mem_lead c hp)

/-- A leaf is put on the line without a mark, unless the focus waits for it. -/
theorem exists_line_put (h : s.pending = false) (hl : l.isShown = true) :
    ∃ new, Unmarked new ∧ s.put c l =
      { s with line := s.line ++ new, prev := some l, glue := false } := by
  refine ⟨s.lead c l.text ++ [ofLeaf l], ?_, ?_⟩
  · exact unmarked_append_iff.mpr ⟨unmarked_lead _, unmarked_ofLeaf l⟩
  · rw [s.put_of_isShown c hl]
    simp [h]

namespace Clean

theorem put (h : Clean s) (hl : l.isShown = true) : Clean (s.put c l) := by
  obtain ⟨new, hnew, hput⟩ := exists_line_put (c := c) h.pending hl
  rw [hput]
  exact ⟨h.pending, h.unmarked_lines, unmarked_append_iff.mpr ⟨h.unmarked_line, hnew⟩⟩

theorem flush (h : Clean s) : Clean s.flush := by
  refine ⟨h.pending, ?_, unmarked_nil⟩
  have hline : Unmarked (s.line.reverse.dropWhile Piece.isGap).reverse := by
    intro p hp
    have hmem := (List.dropWhile_sublist _).subset (List.mem_reverse.mp hp)
    exact h.unmarked_line p (List.mem_reverse.mp hmem)
  unfold State.flush
  dsimp only
  split
  · rw [List.flatten_append, List.flatten_singleton]
    exact unmarked_append_iff.mpr ⟨h.unmarked_lines, hline⟩
  · exact h.unmarked_lines

theorem glue (h : Clean s) : Clean { s with glue := true } :=
  ⟨h.pending, h.unmarked_lines, h.unmarked_line⟩

end Clean

theorem clean_start : Clean .start := ⟨rfl, unmarked_nil, unmarked_nil⟩

theorem keeps_clean : Keeps (fun _ => True) fun _ s _ => Clean s where
  put _ _ hl _ h := h.put hl
  flush h := h.flush
  glue h := h.glue

/-- A fragment with nothing in focus is printed without marks. -/
theorem Clean.print (h : Clean s) (f : Fragment) (hcalm : ∀ m ∈ f.nodes, m.focused = false) :
    Clean (Layout.print c f s) :=
  @Keeps.print _ _ keeps_clean c [] s s f hcalm (fun _ _ _ => trivial) h

end clean

/-! ### States that show leaves -/

/-- The line ends with a leaf that shows something. -/
def EndsInLeaf (line : List Piece) : Prop :=
  ∃ front l, line = front ++ [ofLeaf l] ∧ l.isLegible = true

/-- Nothing has been in focus, and the given leaves have been printed. -/
structure Plain (ls : List Leaf) (s : State) : Prop extends Clean s where
  line : s.line = [] ∨ EndsInLeaf s.line
  lines : ∀ line ∈ s.lines, EndsInLeaf line
  leaves : (s.lines.flatten ++ s.line).filter Piece.isLeaf = ls.map ofLeaf

section states
variable {s : State} {c : Context} {l : Leaf} {ls : List Leaf}

theorem tidy_of_concat {front : List Piece} {p : Piece} (hline : s.line = front ++ [p])
    (hp : p.isContent = true) : s.Tidy := by
  intro q hq
  rw [hline, List.getLast?_concat] at hq
  exact Option.some.inj hq ▸ hp

theorem tidy_of_nil (hline : s.line = []) : s.Tidy := by
  intro q hq
  rw [hline] at hq
  cases hq

theorem tidy_put (hl : l.isShown = true) (hok : l.isLegible = true) : (s.put c l).Tidy := by
  rw [s.put_of_isShown c hl]
  exact tidy_of_concat rfl hok

theorem tidy_flush : s.flush.Tidy := tidy_of_nil rfl

namespace Plain

theorem tidy (h : Plain ls s) : s.Tidy := by
  rcases h.line with hline | ⟨front, l, hline, hok⟩
  · exact tidy_of_nil hline
  · exact tidy_of_concat hline hok

theorem count (h : Plain ls s) :
    s.lines.flatten.countP Piece.isLeaf + s.line.countP Piece.isLeaf = ls.length := by
  rw [← List.countP_append, List.countP_eq_length_filter, h.leaves, List.length_map]

theorem put (h : Plain ls s) (hl : l.isShown = true) (hok : l.isLegible = true) :
    Plain (ls ++ [l]) (s.put c l) := by
  refine { toClean := h.toClean.put hl, line := ?_, lines := ?_, leaves := ?_ }
  · rw [s.put_of_isShown c hl]
    exact .inr ⟨_, l, rfl, hok⟩
  · rw [s.put_of_isShown c hl]
    exact h.lines
  · have hlead : (s.lead c l.text).filter Piece.isLeaf = [] :=
      List.filter_eq_nil_iff.mpr (List.countP_eq_zero.mp (countP_lead l.text))
    have hleaf : (ofLeaf l).isLeaf = true := rfl
    have hleaves := h.leaves
    rw [List.filter_append] at hleaves
    rw [s.put_of_isShown c hl, h.pending]
    simp [hlead, hleaf, ← hleaves]

theorem flush (h : Plain ls s) : Plain ls s.flush := by
  refine { toClean := h.toClean.flush, line := .inl rfl, lines := ?_, leaves := ?_ }
  · rw [s.flush_of_tidy h.tidy]
    intro line hline
    rcases List.mem_append.mp hline with hline | hline
    · exact h.lines line hline
    · rcases h.line with hnil | hends
      · simp [hnil] at hline
      · split at hline
        · cases hline
        · rwa [List.mem_singleton.mp hline]
  · rw [s.flush_of_tidy h.tidy, ← h.leaves]
    cases hline : s.line <;> simp

theorem glue (h : Plain ls s) : Plain ls { s with glue := true } :=
  { toClean := h.toClean.glue, line := h.line, lines := h.lines, leaves := h.leaves }

end Plain

theorem plain_start : Plain [] .start :=
  { toClean := clean_start, line := .inl rfl, lines := by simp [State.start], leaves := rfl }

theorem keeps_plain :
    Keeps (fun l => l.isLegible = true) fun ls s s' => s = s' ∧ Plain ls s where
  put := by
    rintro ls s _ c l hl hok ⟨rfl, h⟩
    exact ⟨rfl, h.put hl hok⟩
  flush := by
    rintro ls s _ ⟨rfl, h⟩
    exact ⟨rfl, h.flush⟩
  glue := by
    rintro ls s _ ⟨rfl, h⟩
    exact ⟨rfl, h.glue⟩

end states

/-! ### The run with the focus beside the run without -/

/-- The first state is the second with marks around the leaves from `start` up to `stop`. -/
structure Enclosed (start stop : ℕ) (ls : List Leaf) (s s' : State) : Prop where
  plain : Plain ls s'
  tidy : s.Tidy
  lines : s.lines = wrap start stop 0 s'.lines
  line : s.line = wrapLine start stop (s'.lines.flatten.countP Piece.isLeaf) s'.line
  prev : s.prev = s'.prev
  glue : s.glue = s'.glue
  pending : s.pending = false
  start_lt : start < ls.length
  stop_le : stop ≤ ls.length

/-- The first state is the second, and the focus waits for its first leaf after the leaves `ls₀`; or
that leaf has come and has the mark that opens the focus. -/
def Waiting (ls₀ ls : List Leaf) (s s' : State) : Prop :=
  (ls = ls₀ ∧ Plain ls s' ∧ s = { s' with pending := true }) ∨
    (ls₀.length < ls.length ∧ Enclosed ls₀.length 0 ls s s')

section enclosed
variable {start stop : ℕ} {s s' : State} {c : Context} {l : Leaf} {ls ls₀ : List Leaf}

namespace Enclosed

theorem line_eq_nil_iff (h : Enclosed start stop ls s s') : s.line = [] ↔ s'.line = [] := by
  rw [h.line, wrapLine_eq_nil_iff]

theorem put (h : Enclosed start stop ls s s') (hl : l.isShown = true) (hok : l.isLegible = true) :
    Enclosed start stop (ls ++ [l]) (s.put c l) (s'.put c l) := by
  have hlead := s.lead_congr c l.text h.line_eq_nil_iff h.prev h.glue
  have hstart := h.start_lt
  have hstop := h.stop_le
  refine ⟨h.plain.put hl hok, tidy_put hl hok, ?_, ?_, ?_, ?_, ?_, ?_, ?_⟩
  · rw [s.put_of_isShown c hl, s'.put_of_isShown c hl]
    exact h.lines
  · rw [s.put_of_isShown c hl, s'.put_of_isShown c hl, h.pending, h.plain.pending]
    dsimp only
    -- The new leaf comes after all that have their marks.
    have hnew : wrapLine start stop ls.length (s'.lead c l.text ++ [ofLeaf l]) =
        s'.lead c l.text ++ [ofLeaf l] :=
      wrapLine_eq_self (.inr h.start_lt) (.inr h.stop_le)
    simp only [Bool.false_eq_true, if_false, List.append_nil, List.append_assoc]
    rw [wrapLine_append, h.plain.count, hnew, ← h.line, hlead]
  · rw [s.put_of_isShown c hl, s'.put_of_isShown c hl]
  · rw [s.put_of_isShown c hl, s'.put_of_isShown c hl]
  · rw [s.put_of_isShown c hl]
  · rw [List.length_append]
    omega
  · rw [List.length_append]
    omega

theorem flush (h : Enclosed start stop ls s s') : Enclosed start stop ls s.flush s'.flush := by
  refine ⟨h.plain.flush, tidy_flush, ?_, rfl, rfl, rfl, h.pending, h.start_lt, h.stop_le⟩
  rw [s.flush_of_tidy h.tidy, s'.flush_of_tidy h.plain.tidy]
  dsimp only
  rw [wrap_append, h.lines]
  congr 1
  by_cases hnil : s'.line = []
  · simp [h.line_eq_nil_iff.mpr hnil, hnil, wrap]
  · have hnil' : s.line ≠ [] := fun hs => hnil (h.line_eq_nil_iff.mp hs)
    rw [if_neg (by simpa using hnil'), if_neg (by simpa using hnil), wrap, wrap, h.line,
      Nat.zero_add]

/-- The closing mark comes after the last leaf, which is on the line or ends the last one. -/
theorem close (h : Enclosed start 0 ls s s') : Enclosed start ls.length ls (s.closeFocus c) s' := by
  have hcount := h.plain.count
  rcases h.plain.line with hnil | ⟨front, l, hline, -⟩
  · -- The line is not begun, so the last leaf ends the last line that is complete.
    have hpos : 0 < ls.length := Nat.zero_lt_of_lt h.start_lt
    rcases List.eq_nil_or_concat' s'.lines with hlines | ⟨above, last, hlines⟩
    · simp [hlines, hnil] at hcount
      omega
    obtain ⟨front, l, rfl, -⟩ := h.plain.lines last (by simp [hlines])
    have hlast : above.flatten.countP Piece.isLeaf + front.countP Piece.isLeaf + 1 = ls.length := by
      rw [← hcount, hlines, hnil]
      simp [Piece.isLeaf, ofLeaf, Nat.add_assoc]
    have habove : 0 + above.flatten.countP Piece.isLeaf < ls.length := by omega
    have hwrapped := h.lines
    rw [hlines, wrap_append, wrap, wrap, Nat.zero_add] at hwrapped
    rw [s.closeFocus_of_lines c h.pending (h.line_eq_nil_iff.mpr hnil) hwrapped]
    refine ⟨h.plain, tidy_of_nil (h.line_eq_nil_iff.mpr hnil), ?_, ?_, h.prev, h.glue, h.pending,
      h.start_lt, Nat.le_refl _⟩
    · dsimp only
      rw [hlines, wrap_append, wrap, wrap, Nat.zero_add, wrapLine_concat_ofLeaf hlast,
        wrap_of_lt habove]
    · dsimp only
      rw [h.line_eq_nil_iff.mpr hnil, hnil, wrapLine]
  · have hfull : s.line ≠ [] := fun hs => by simp [h.line_eq_nil_iff.mp hs] at hline
    have hlast : s'.lines.flatten.countP Piece.isLeaf + front.countP Piece.isLeaf + 1 =
        ls.length := by
      rw [← hcount, hline]
      simp [Piece.isLeaf, ofLeaf, Nat.add_assoc]
    have habove : 0 + s'.lines.flatten.countP Piece.isLeaf < ls.length := by omega
    rw [s.closeFocus_of_line c h.pending hfull]
    refine ⟨h.plain, tidy_of_concat rfl rfl, ?_, ?_, h.prev, h.glue, h.pending, h.start_lt, Nat.le_refl _⟩
    · dsimp only
      rw [h.lines, wrap_of_lt habove]
    · dsimp only
      rw [h.line, hline, wrapLine_concat_ofLeaf hlast]

/-- There is one mark that opens the focus, and after it one that closes it. -/
theorem filter_isFocus (h : Enclosed start stop ls s s') (hlt : start < stop) :
    (s.lines.flatten ++ s.line).filter Piece.isFocus = [.focusOpen, .focusClose] := by
  have hpieces : s.lines.flatten ++ s.line =
      wrapLine start stop 0 (s'.lines.flatten ++ s'.line) := by
    rw [h.lines, flatten_wrap, h.line, wrapLine_append, Nat.zero_add]
  have hunmarked : Unmarked (s'.lines.flatten ++ s'.line) :=
    unmarked_append_iff.mpr ⟨h.plain.unmarked_lines, h.plain.unmarked_line⟩
  have hstart := h.start_lt
  have hstop := h.stop_le
  rw [hpieces, hunmarked.filter_wrapLine hlt, List.countP_append, h.plain.count,
    if_pos (by omega), if_pos (by omega)]
  rfl

theorem glueNext (h : Enclosed start stop ls s s') :
    Enclosed start stop ls { s with glue := true } { s' with glue := true } :=
  ⟨h.plain.glue, h.tidy, h.lines, h.line, h.prev, rfl, h.pending, h.start_lt, h.stop_le⟩

end Enclosed

theorem keeps_enclosed (start stop : ℕ) :
    Keeps (fun l => l.isLegible = true) (Enclosed start stop) where
  put _ _ hl hok h := h.put hl hok
  flush h := h.flush
  glue h := h.glueNext

/-- The first leaf in focus gets the mark that opens it. -/
theorem Plain.enclosed (h : Plain ls s) (hl : l.isShown = true) (hok : l.isLegible = true) :
    Enclosed ls.length 0 (ls ++ [l]) (State.put { s with pending := true } c l) (s.put c l) := by
  have hcount := h.count
  refine ⟨h.put hl hok, tidy_put hl hok, ?_, ?_, ?_, ?_, ?_, by simp, Nat.zero_le _⟩
  · rw [State.put_of_isShown _ c hl, State.put_of_isShown _ c hl]
    dsimp only
    rw [wrap_eq_self (.inl (by omega)) (.inr (Nat.le_refl _))]
  · rw [State.put_of_isShown _ c hl, State.put_of_isShown _ c hl, h.pending]
    dsimp only
    have hlead : State.lead { s with pending := true } c l.text = s.lead c l.text := rfl
    have hline : wrapLine ls.length 0 (s.lines.flatten.countP Piece.isLeaf)
        (s.line ++ s.lead c l.text) = s.line ++ s.lead c l.text := by
      refine wrapLine_eq_self (.inl ?_) (.inr (Nat.zero_le _))
      rw [List.countP_append, countP_lead]
      omega
    rw [hlead, wrapLine_append, wrapLine_append, hline, wrapLine_ofLeaf]
    simp [countP_lead, ← hcount, wrapLine]
  · rw [State.put_of_isShown _ c hl, State.put_of_isShown _ c hl]
  · rw [State.put_of_isShown _ c hl, State.put_of_isShown _ c hl]
  · rw [State.put_of_isShown _ c hl]

theorem keeps_waiting (ls₀ : List Leaf) :
    Keeps (fun l => l.isLegible = true) (Waiting ls₀) where
  put {ls s s'} c l hl hok h := by
    rcases h with ⟨rfl, h, rfl⟩ | ⟨hlt, h⟩
    · exact .inr ⟨by simp, h.enclosed hl hok⟩
    · exact .inr ⟨by rw [List.length_append]; omega, h.put hl hok⟩
  flush {ls s s'} h := by
    rcases h with ⟨rfl, h, rfl⟩ | ⟨hlt, h⟩
    · exact .inl ⟨rfl, h.flush, rfl⟩
    · exact .inr ⟨hlt, h.flush⟩
  glue {ls s s'} h := by
    rcases h with ⟨rfl, h, rfl⟩ | ⟨hlt, h⟩
    · exact .inl ⟨rfl, h.glue, rfl⟩
    · exact .inr ⟨hlt, h.glueNext⟩

/-- A composite in focus that prints something: its leaves, and no others, get their marks. -/
theorem Plain.print_focused (h : Plain ls s) (flow : Flow) {m : Mark} {children : List Fragment}
    (hm : m.focused = true) (hcalm : ∀ m ∈ Fragment.nodesAll children, m.focused = false)
    (hok : ∀ l ∈ Fragment.leavesAll children, l.isShown = true → l.isLegible = true)
    (hshown : shown (Fragment.leavesAll children) ≠ []) :
    Enclosed ls.length (ls ++ shown (Fragment.leavesAll children)).length
      (ls ++ shown (Fragment.leavesAll children))
      (print c (.composite flow (some m) children) s)
      (print c (.composite flow (some { m with focused := false }) children) s) := by
  rw [Layout.print_focused c flow m children s hm,
    print_composite c flow (some { m with focused := false }) children s (by simp)]
  have hstart := (keeps_plain.flushIf (flow == .block) ⟨rfl, h⟩).2
  have hinside := (keeps_waiting ls).printAll (c.inner flow (some m)) (Cohesion.of (some m.tag)) true
    ls children hcalm hok (.inl ⟨rfl, hstart, rfl⟩)
  have hlonger : ls ++ shown (Fragment.leavesAll children) ≠ ls := by simpa using hshown
  obtain ⟨-, hend⟩ := hinside.resolve_left fun hsame => hlonger hsame.1
  exact (keeps_enclosed _ _).flushIf _ hend.close

end enclosed

/-! ### A pair of marks on its own -/

/-- The line holds a pair of marks with nothing between them, and no other mark. -/
def LineHoldsPair (line : List Piece) : Prop :=
  ∃ left right, line = left ++ [.focusOpen, .focusClose] ++ right ∧ Unmarked left ∧ Unmarked right

/-- One of the lines holds a pair of marks, and there is no other mark. -/
def LinesHoldPair (lines : List (List Piece)) : Prop :=
  ∃ above line below, lines = above ++ line :: below ∧ LineHoldsPair line ∧
    Unmarked above.flatten ∧ Unmarked below.flatten

/-- One pair of marks has been put somewhere. -/
structure Pinned (s : State) : Prop where
  pending : s.pending = false
  tidy : s.Tidy
  pair : Unmarked s.lines.flatten ∧ LineHoldsPair s.line ∨ LinesHoldPair s.lines ∧ Unmarked s.line

section pairs
variable {s : State} {c : Context} {l : Leaf} {ls : List Leaf}

namespace Pinned

theorem put (h : Pinned s) (hl : l.isShown = true) (hok : l.isLegible = true) :
    Pinned (s.put c l) := by
  have htidy := tidy_put (s := s) (c := c) hl hok
  obtain ⟨new, hnew, hput⟩ := exists_line_put (c := c) h.pending hl
  rw [hput] at htidy ⊢
  refine ⟨h.pending, htidy, ?_⟩
  rcases h.pair with ⟨hlines, left, right, hline, hleft, hright⟩ | ⟨hlines, hline⟩
  · refine .inl ⟨hlines, left, right ++ new, ?_, hleft, unmarked_append_iff.mpr ⟨hright, hnew⟩⟩
    dsimp only
    rw [hline, List.append_assoc]
  · exact .inr ⟨hlines, unmarked_append_iff.mpr ⟨hline, hnew⟩⟩

/-- A line that holds the pair shows something, so it is not lost. -/
theorem linesHoldPair_flush (h : Pinned s) : LinesHoldPair s.flush.lines := by
  rw [s.flush_of_tidy h.tidy]
  dsimp only
  rcases h.pair with ⟨hlines, hline⟩ | ⟨⟨above, line, below, hlines, hpair, habove, hbelow⟩, hline⟩
  · have hfull : s.line ≠ [] := by
      obtain ⟨left, right, hline, -⟩ := hline
      simp [hline]
    rw [if_neg (by simpa using hfull)]
    exact ⟨s.lines, s.line, [], rfl, hline, hlines, unmarked_nil⟩
  · refine ⟨above, line, below ++ if s.line.isEmpty then [] else [s.line], ?_, hpair, habove, ?_⟩
    · rw [hlines, List.append_assoc, List.cons_append]
    · rw [List.flatten_append, unmarked_append_iff]
      refine ⟨hbelow, ?_⟩
      split
      · exact unmarked_nil
      · rw [List.flatten_singleton]
        exact hline

theorem flush (h : Pinned s) : Pinned s.flush :=
  ⟨h.pending, tidy_flush, .inr ⟨h.linesHoldPair_flush, unmarked_nil⟩⟩

theorem flushIf (h : Pinned s) (block : Bool) : Pinned (s.flushIf block) := by
  cases block with
  | false => exact h
  | true => exact h.flush

end Pinned

theorem keeps_pinned :
    Keeps (fun l => l.isLegible = true) fun _ s s' => s = s' ∧ Pinned s where
  put := by
    rintro ls s _ c l hl hok ⟨rfl, h⟩
    exact ⟨rfl, h.put hl hok⟩
  flush := by
    rintro ls s _ ⟨rfl, h⟩
    exact ⟨rfl, h.flush⟩
  glue := by
    rintro ls s _ ⟨rfl, h⟩
    exact ⟨rfl, h.pending, h.tidy, h.pair⟩

/-- If no leaf has come for the focus, the pair of marks is put on the line. -/
theorem Clean.closeFocus (h : Clean s) : Pinned (State.closeFocus { s with pending := true } c) := by
  have hlead : State.lead { s with pending := true } c "»«" = s.lead c "»«" := rfl
  rw [State.closeFocus_of_pending _ c rfl, hlead]
  refine ⟨rfl, ?_, .inl ⟨h.unmarked_lines, s.line ++ s.lead c "»«", [], ?_, ?_, unmarked_nil⟩⟩
  · have hline : s.line ++ s.lead c "»«" ++ [.focusOpen, .focusClose] =
        s.line ++ s.lead c "»«" ++ [.focusOpen] ++ [Piece.focusClose] := by simp
    exact tidy_of_concat hline rfl
  · exact (List.append_nil _).symm
  · exact unmarked_append_iff.mpr ⟨h.unmarked_line, unmarked_lead _⟩

/-- A composite in focus that prints nothing is shown as a pair of marks. -/
theorem Plain.pinned (h : Plain ls s) (flow : Flow) {m : Mark} {children : List Fragment}
    (hm : m.focused = true) (hcalm : ∀ m ∈ Fragment.nodesAll children, m.focused = false)
    (hok : ∀ l ∈ Fragment.leavesAll children, l.isShown = true → l.isLegible = true)
    (hshown : shown (Fragment.leavesAll children) = []) :
    Pinned (print c (.composite flow (some m) children) s) := by
  rw [Layout.print_focused c flow m children s hm]
  have hstart := (keeps_plain.flushIf (flow == .block) ⟨rfl, h⟩).2
  have hinside := (keeps_waiting ls).printAll (c.inner flow (some m)) (Cohesion.of (some m.tag)) true
    ls children hcalm hok (.inl ⟨rfl, hstart, rfl⟩)
  rw [hshown, List.append_nil] at hinside
  -- No leaf has come, so the focus still waits.
  obtain ⟨-, hend, heq⟩ := hinside.resolve_right fun hlt => Nat.lt_irrefl _ hlt.1
  rw [heq]
  exact hend.toClean.closeFocus.flushIf _

end pairs

end Layout

/-! ### The theorem -/

namespace Fragment

open Layout Piece

/-- In a layout the marks of the focus only wrap.  Without a focus there are none.  If one composite
is in focus, and no leaf is blank without being empty, then either the composite prints something:
the layout is that of the fragment with nothing in focus, which prints exactly the leaves that are
not empty, with one mark directly before the first leaf of the composite and one directly after its
last.  Or it prints nothing, and the layout has one pair of marks with nothing between them. -/
theorem layout_marks (unit : String) (f : Fragment) :
    (f.nodes.countP Mark.focused = 0 → Unmarked (f.layout unit).flatten) ∧
    (f.nodes.countP Mark.focused = 1 →
      (∀ l ∈ f.leaves, l.isShown = true → l.isLegible = true) →
      (∃ frame flow m children, f = Frame.plug (.composite flow (some m) children) frame ∧
        m.focused = true) ∧
      ∀ (frame : Frame) (flow : Flow) (m : Mark) (children : List Fragment) (plain : Fragment),
        f = frame.plug (.composite flow (some m) children) → m.focused = true →
        plain = frame.plug (.composite flow (some { m with focused := false }) children) →
        (shown (leavesAll children) ≠ [] →
          Unmarked (plain.layout unit).flatten ∧
          (plain.layout unit).flatten.filter isLeaf = (shown frame.before ++
            shown (leavesAll children) ++ shown frame.after).map ofLeaf ∧
          f.layout unit = wrap (shown frame.before).length
            (shown frame.before ++ shown (leavesAll children)).length 0 (plain.layout unit) ∧
          (f.layout unit).flatten.filter isFocus = [.focusOpen, .focusClose]) ∧
        (shown (leavesAll children) = [] → LinesHoldPair (f.layout unit))) := by
  refine ⟨fun hcount => ?_, fun hcount hok => ⟨exists_plug f ?_, ?_⟩⟩
  · have hcalm : ∀ m ∈ f.nodes, m.focused = false := by simpa using hcount
    exact (clean_start.print f hcalm).flush.unmarked_lines
  · have hpos : 0 < f.nodes.countP Mark.focused := by omega
    exact List.countP_pos_iff.mp hpos
  rintro frame flow m children _ rfl hm rfl
  obtain ⟨hframe, hchildren⟩ := frame.unfocused_of_countP_plug hm hcount
  simp only [Frame.leaves_plug, leaves, List.mem_append, or_imp, forall_and] at hok
  obtain ⟨⟨hbefore, hinside⟩, hafter⟩ := hok
  have haround : ∀ l ∈ frame.before ++ frame.after, l.isShown = true → l.isLegible = true :=
    fun l hl => (List.mem_append.mp hl).elim (hbefore l) (hafter l)
  constructor
  · intro hshown
    have hmiddle : ∀ c s s', s = s' ∧ Plain (shown frame.before) s →
        Enclosed (shown frame.before).length
          (shown frame.before ++ shown (leavesAll children)).length
          (shown frame.before ++ shown (leavesAll children))
          (print c (.composite flow (some m) children) s)
          (print c (.composite flow (some { m with focused := false }) children) s') := by
      rintro c s _ ⟨rfl, h⟩
      exact h.print_focused flow hm hchildren hinside hshown
    have hend := (keeps_plain.plug (keeps_enclosed _ _) _ frame [] ⟨unit, 0, none⟩ hframe haround
      hmiddle ⟨rfl, plain_start⟩).flush
    have hlt : (shown frame.before).length <
        (shown frame.before ++ shown (leavesAll children)).length := by
      rw [List.length_append]
      exact Nat.lt_add_of_pos_right (List.length_pos_iff.mpr hshown)
    -- The line is ended, so the lines are all there is.
    have hnil : ∀ s : State, s.flush.lines.flatten ++ s.flush.line = s.flush.lines.flatten :=
      fun s => List.append_nil _
    exact ⟨hend.plain.unmarked_lines, hnil _ ▸ hend.plain.leaves, hend.lines,
      hnil _ ▸ hend.filter_isFocus hlt⟩
  · intro hshown
    have hmiddle : ∀ c s s', s = s' ∧ Plain (shown frame.before) s →
        print c (.composite flow (some m) children) s =
            print c (.composite flow (some m) children) s' ∧
          Pinned (print c (.composite flow (some m) children) s) :=
      fun c s s' h => ⟨by rw [h.1], h.2.pinned flow hm hchildren hinside hshown⟩
    have hend := (keeps_plain.plug keeps_pinned [] frame [] ⟨unit, 0, none⟩ hframe haround hmiddle
      ⟨rfl, plain_start⟩).2
    exact hend.linesHoldPair_flush

/-- A statement over three lines, and one after it. -/
def scope (focused : Bool) : Fragment :=
  .composite .block (some ⟨0, "Program", [], false⟩) [
    .composite .block (some ⟨1, "BlockStatement", [⟨"body", some 0⟩], focused⟩) [
      .leaf ⟨.bracket, "\x7b"⟩,
      .group .block [.composite .block (some ⟨2, "DebuggerStatement", [], false⟩)
        [.leaf ⟨.keyword, "debugger"⟩, .leaf ⟨.punctuation, ";"⟩]],
      .leaf ⟨.bracket, "\x7d"⟩],
    .composite .block (some ⟨3, "EmptyStatement", [⟨"body", some 1⟩], false⟩)
      [.leaf ⟨.punctuation, ";"⟩]]

theorem layout_marks_scope : (scope true).toText "  " = "»\x7b\n  debugger;\n\x7d«\n;\n" ∧
    (scope true).layout "  " = wrap 0 4 0 ((scope false).layout "  ") := by
  refine ⟨by decide, ?_⟩
  obtain ⟨-, hall⟩ := (layout_marks "  " (scope true)).2 (by decide) (by decide)
  exact ((hall (.inside .block (some ⟨0, "Program", [], false⟩) [] .hole _) .block _ _
    (scope false) rfl rfl rfl).1 (by decide)).2.2.1

end Fragment

end SyntaxLens
