import Mathlib.Data.List.Chain
import Mathlib.Data.List.Infix
import SyntaxLens.Proofs.Fragment.Contents
import SyntaxLens.Proofs.Fragment.Lines

/-! # Words on a line

In a layout no word runs into the one before it: two leaves with none between them are set apart by
a space if the first ends and the second begins with a character of a word (`parted_layout`).

Only two things suppress a space.  One text hugs the other, and then one of them is a mark that no
word ends or begins with (`hugs_eq_false`).  Or the second leaf is glued.  Glue waits for the next
leaf that is not empty, which may be far from the composite that the glue comes from, so the printer
must not glue anything after a word: `Spaced` is the invariant.  It holds along a run if composites
glue only what is bare, their operators and every other part of what is solid
(`Fragment.Coheres`). -/

namespace SyntaxLens

/-! ### Characters of words -/

/-- The ASCII characters of words. -/
def isAsciiWord (c : Char) : Bool := c.isAlphanum || c == '_' || c == '$'

/-- Whether all characters of a text are in ASCII. -/
def isAscii (text : String) : Bool := text.toList.all fun c => c.toNat < 128

/-- The characters of words.  Which of those outside ASCII are letters and digits is left open. -/
structure Alphabet where
  isWord : Char → Bool
  isWord_of_lt : ∀ c : Char, c.toNat < 128 → isWord c = isAsciiWord c

namespace Alphabet

/-- No letters and digits but those of ASCII. -/
def ascii : Alphabet := ⟨isAsciiWord, fun _ _ => rfl⟩

variable (A : Alphabet)

/-- Whether a text begins with a character of a word. -/
def begins (text : String) : Bool := text.toList.head?.any A.isWord

/-- Whether a text ends with a character of a word. -/
def ends (text : String) : Bool := text.toList.getLast?.any A.isWord

section texts
variable {A} {text : String}

theorem any_isWord {c? : Option Char} (h : isAscii text = true) (hc : ∀ c ∈ c?, c ∈ text.toList) :
    c?.any A.isWord = c?.any isAsciiWord := by
  rw [isAscii, List.all_eq_true] at h
  cases c? with
  | none => rfl
  | some c => exact A.isWord_of_lt c (by simpa using h c (hc c rfl))

theorem begins_of_ascii (h : isAscii text = true) :
    A.begins text = text.toList.head?.any isAsciiWord :=
  any_isWord h fun _ => List.mem_of_head?

theorem ends_of_ascii (h : isAscii text = true) :
    A.ends text = text.toList.getLast?.any isAsciiWord :=
  any_isWord h fun _ => List.mem_of_getLast?

/-- No word begins with a text that has no space before it. -/
theorem begins_of_hugs (h : text ∈ Layout.hugsLeft ++ [":", "(", "["]) : A.begins text = false := by
  have table : ∀ s ∈ Layout.hugsLeft ++ [":", "(", "["],
      isAscii s = true ∧ s.toList.head?.any isAsciiWord = false := by decide
  rw [begins_of_ascii (table text h).1, (table text h).2]

/-- No word ends with a text that has no space after it. -/
theorem ends_of_hugs (h : text ∈ Layout.hugsRight) : A.ends text = false := by
  have table : ∀ s ∈ Layout.hugsRight,
      isAscii s = true ∧ s.toList.getLast?.any isAsciiWord = false := by decide
  rw [ends_of_ascii (table text h).1, (table text h).2]

end texts

/-- Whether a text is not empty and has no character of a word at its ends. -/
def isBare (text : String) : Bool := !text.isEmpty && !A.begins text && !A.ends text

end Alphabet

/-! ### Lines -/

namespace Piece

/-- Whether the piece is a leaf that is not empty. -/
def isShown (p : Piece) : Bool := p.isLeaf && !p.text.isEmpty

theorem isShown_ofLeaf (l : Leaf) : (ofLeaf l).isShown = l.isShown := rfl

theorem isShown_of_isGap {p : Piece} (h : p.isGap = true) : p.isShown = false := by
  rw [isShown, isLeaf_of_isGap h, Bool.false_and]

theorem filter_isShown_eq_nil {line : List Piece} (h : ∀ x ∈ line, x.isShown = false) :
    line.filter isShown = [] :=
  List.filter_eq_nil_iff.mpr fun x hx => by simp [h x hx]

end Piece

namespace Alphabet

open Layout

variable (A : Alphabet)

/-- No word on the line runs into the next one: of two leaves that are not empty, with none between
them, the first ends and the second begins with a character of a word only if a space is between. -/
def Parted (line : List Piece) : Prop :=
  ∀ p between q, p :: between ++ [q] <:+: line → p.isShown = true → q.isShown = true →
    (∀ x ∈ between, x.isShown = false) → A.ends p.text = true → A.begins q.text = true →
    Piece.space ∈ between

section lines
variable {A} {line gaps : List Piece} {q : Piece}

theorem concat_infix_concat_iff {a : List Piece} {x : Piece} :
    a ++ [q] <:+: line ++ [x] ↔ (q = x ∧ a <:+ line) ∨ a ++ [q] <:+: line := by
  rw [List.infix_concat_iff, List.suffix_concat_iff]
  simp

theorem parted_nil : A.Parted [] := by
  intro p between q hin
  simp at hin

theorem Parted.of_prefix {front : List Piece} (h : A.Parted line) (hfront : front <+: line) :
    A.Parted front :=
  fun p between q hin => h p between q (hin.trans hfront.isInfix)

/-- What is no leaf may follow anything. -/
theorem Parted.append (h : A.Parted line) (hgaps : ∀ x ∈ gaps, x.isShown = false) :
    A.Parted (line ++ gaps) := by
  induction gaps using List.reverseRecOn with
  | nil => rwa [List.append_nil]
  | append_singleton gaps x ih =>
      rw [List.forall_mem_append, List.forall_mem_singleton] at hgaps
      intro p between q hin hp hq
      rw [← List.append_assoc, concat_infix_concat_iff] at hin
      rcases hin with ⟨rfl, -⟩ | hin
      · rw [hgaps.2] at hq
        cases hq
      · exact ih hgaps.1 p between q hin hp hq

/-- A leaf may follow a line if the last leaf on the line ends no word that the leaf goes on with,
or a space comes between them. -/
theorem Parted.concat (h : A.Parted line) (hgaps : ∀ x ∈ gaps, x.isShown = false)
    (hspace : ∀ p, (line.filter Piece.isShown).getLast? = some p → A.ends p.text = true →
      A.begins q.text = true → Piece.space ∈ gaps) : A.Parted (line ++ gaps ++ [q]) := by
  intro p between q' hin hp hq hbetween hends hbegins
  rw [concat_infix_concat_iff] at hin
  rcases hin with ⟨rfl, before, hline⟩ | hin
  · rcases List.append_eq_append_iff.mp hline with ⟨front, hfront, hrest⟩ | ⟨front, -, hrest⟩
    · cases front with
      | nil =>
          obtain rfl : p :: between = gaps := hrest
          rw [hgaps p List.mem_cons_self] at hp
          cases hp
      | cons first inner =>
          obtain ⟨rfl, rfl⟩ := List.cons.inj hrest
          -- The pieces after `p` on the line are no leaves, so `p` is the last leaf on it.
          have hlast : (line.filter Piece.isShown).getLast? = some p := by
            have hinner : inner.filter Piece.isShown = [] :=
              Piece.filter_isShown_eq_nil fun x hx => hbetween x (List.mem_append_left _ hx)
            rw [hfront, List.filter_append, List.filter_cons_of_pos hp, hinner,
              List.getLast?_concat]
          exact List.mem_append_right _ (hspace p hlast hends hbegins)
    · have hmem : p ∈ gaps := by simp [hrest]
      rw [hgaps p hmem] at hp
      cases hp
  · exact h.append hgaps p between q' hin hp hq hbetween hends hbegins

end lines

/-! ### Steps -/

/-- The last leaf on the line, if there is one, does not end with a character of a word. -/
def Clean (s : State) : Prop := ∀ l, s.prev = some l → A.ends l.text = false

/-- No word on the lines runs into the next one, and the printer knows the last leaf on the line
begun. -/
structure Apart (s : State) : Prop where
  lines : ∀ line ∈ s.lines, A.Parted line
  line : A.Parted s.line
  prev : (s.line.filter Piece.isShown).getLast? = s.prev.map Piece.ofLeaf

/-- Nothing is glued after a word. -/
structure Spaced (s : State) : Prop extends A.Apart s where
  clean : s.glue = true → A.Clean s

section steps
variable {A} {s : State} {l : Leaf}

theorem isShown_of_mem_lead {c : Context} {next : String} {x : Piece} (h : x ∈ s.lead c next) :
    x.isShown = false :=
  Piece.isShown_of_isGap (s.isGap_of_mem_lead c h)

/-- A text that hugs another is a mark, and no part of a word is next to the other there. -/
theorem hugs_eq_false {next : String} (owner : Option String) (hends : A.ends l.text = true)
    (hbegins : A.begins next = true) : hugs owner l next = false := by
  have hleft : ∀ s ∈ hugsLeft ++ [":", "(", "["], next ≠ s := by
    rintro s hs rfl
    rw [begins_of_hugs hs] at hbegins
    cases hbegins
  have hright : l.text ∉ hugsRight := by
    intro h
    rw [ends_of_hugs h] at hends
    cases hends
  have hmark : next ∉ hugsLeft := fun h => hleft next (List.mem_append_left _ h) rfl
  simp [hugs, hmark, hright, hleft ":" (by simp), hleft "(" (by simp), hleft "[" (by simp)]

/-- Between two words on a line there is a space, unless they are glued. -/
theorem space_mem_lead {c : Context} {next : String} (h : A.Apart s) (hprev : s.prev = some l)
    (hglue : s.glue = false) (hends : A.ends l.text = true) (hbegins : A.begins next = true) :
    Piece.space ∈ s.lead c next := by
  have hline : s.line ≠ [] := by
    intro hline
    have hlast := h.prev
    rw [hline, hprev] at hlast
    cases hlast
  have hneeds : s.needsSpace c.owner next = true := by
    simp [State.needsSpace, hprev, hglue, hugs_eq_false c.owner hends hbegins]
  simp [State.lead, hline, hneeds]

/-- A leaf is put on a line apart from the word before it, if it is not glued to one or begins
none. -/
theorem Apart.put (c : Context) (h : A.Apart s) (hl : l.isShown = true)
    (hglue : s.glue = true → A.Clean s ∨ A.begins l.text = false) : A.Spaced (s.put c l) := by
  rw [s.put_of_isShown c hl]
  have hmark : ∀ x ∈ if s.pending then [Piece.focusOpen] else [], x.isShown = false := by
    intro x hx
    split at hx
    · rw [List.mem_singleton.mp hx]
      rfl
    · cases hx
  have hgaps : ∀ x ∈ s.lead c l.text ++ if s.pending then [Piece.focusOpen] else [],
      x.isShown = false :=
    List.forall_mem_append.mpr ⟨fun x hx => isShown_of_mem_lead hx, hmark⟩
  refine ⟨⟨h.lines, ?_, ?_⟩, fun hfalse => absurd hfalse Bool.false_ne_true⟩
  · rw [List.append_assoc s.line]
    refine h.line.concat hgaps fun p hp hends hbegins => List.mem_append_left _ ?_
    rw [h.prev] at hp
    obtain ⟨prev, hprev, rfl⟩ := Option.map_eq_some_iff.mp hp
    have hfree : s.glue = false := by
      by_contra hglued
      rcases hglue (by simpa using hglued) with hclean | hbare
      · exact absurd hends (by simpa [Piece.ofLeaf] using hclean prev hprev)
      · exact absurd hbegins (by simpa [Piece.ofLeaf] using hbare)
    exact space_mem_lead h hprev hfree hends hbegins
  · rw [List.filter_append, List.filter_cons_of_pos (Piece.isShown_ofLeaf l ▸ hl)]
    exact List.getLast?_concat

theorem Spaced.put (c : Context) (l : Leaf) (h : A.Spaced s) : A.Spaced (s.put c l) := by
  cases hl : l.isShown with
  | true => exact h.toApart.put c hl fun hglue => .inl (h.clean hglue)
  | false => rwa [s.put_of_not_isShown c hl]

/-- The gaps at the end of a line are no leaves. -/
theorem Apart.flush (h : A.Apart s) : A.Spaced s.flush := by
  have htrimmed : A.Parted (s.line.reverse.dropWhile Piece.isGap).reverse :=
    h.line.of_prefix (List.reverse_suffix.mp (by simpa using List.dropWhile_suffix _))
  refine ⟨⟨?_, parted_nil, rfl⟩, fun hfalse => absurd hfalse Bool.false_ne_true⟩
  unfold State.flush
  dsimp only
  split
  · exact List.forall_mem_append.mpr ⟨h.lines, List.forall_mem_singleton.mpr htrimmed⟩
  · exact h.lines

theorem Spaced.flushIf (block : Bool) (h : A.Spaced s) : A.Spaced (s.flushIf block) := by
  cases block with
  | true => exact h.flush
  | false => exact h

theorem Spaced.glueIf (glued : Bool) (h : A.Spaced s) (hclean : glued = true → A.Clean s) :
    A.Spaced (s.glueIf glued) := by
  cases glued with
  | true => exact ⟨⟨h.lines, h.line, h.prev⟩, fun _ => hclean rfl⟩
  | false => exact h

/-- What is no leaf can be added to the line begun. -/
theorem Spaced.append (h : A.Spaced s) {gaps : List Piece} (hgaps : ∀ x ∈ gaps, x.isShown = false)
    (pending : Bool) : A.Spaced { s with line := s.line ++ gaps, pending := pending } := by
  refine ⟨⟨h.lines, h.line.append hgaps, ?_⟩, h.clean⟩
  rw [List.filter_append, Piece.filter_isShown_eq_nil hgaps, List.append_nil]
  exact h.prev

theorem Spaced.closeFocus (c : Context) (h : A.Spaced s) : A.Spaced (s.closeFocus c) := by
  have hclose : ∀ x ∈ [Piece.focusClose], x.isShown = false := by decide
  have hmarks : ∀ x ∈ [Piece.focusOpen, .focusClose], x.isShown = false := by decide
  cases hpending : s.pending with
  | true =>
      rw [s.closeFocus_of_pending c hpending, List.append_assoc]
      exact h.append (List.forall_mem_append.mpr ⟨fun x hx => isShown_of_mem_lead hx, hmarks⟩) false
  | false =>
      have hline := h.append hclose false
      rw [← hpending] at hline
      by_cases hempty : s.line = []
      · rcases List.eq_nil_or_concat' s.lines with hlines | ⟨above, last, hlines⟩
        · simpa [State.closeFocus, hpending, hempty, hlines] using hline
        · rw [s.closeFocus_of_lines c hpending hempty hlines]
          have habove := h.lines
          rw [hlines, List.forall_mem_append, List.forall_mem_singleton] at habove
          exact ⟨⟨List.forall_mem_append.mpr ⟨habove.1, List.forall_mem_singleton.mpr
            (habove.2.append hclose)⟩, h.line, h.prev⟩, h.clean⟩
      · rwa [s.closeFocus_of_line c hpending hempty]

end steps

end Alphabet

/-! ### Runs -/

namespace Fragment

variable (A : Alphabet)

/-- Whether the fragment is a leaf that can be glued to anything. -/
def isBare : Fragment → Bool
  | .leaf l => A.isBare l.text
  | .composite .. => false

/-- No words are among the parts that hold together: the operators that hold to their operand are
bare, and one of any two neighbours if all parts hold to one another. -/
structure Holds (k : Layout.Cohesion) (fs : List Fragment) : Prop where
  attached : ∀ f ∈ fs, k.attaches f = true → f.isBare A = true
  solid : k.solid = true → fs.IsChain fun f g => f.isBare A = true ∨ g.isBare A = true

mutual

/-- The children of every composite hold together without words. -/
def Coheres : Fragment → Prop
  | .leaf _ => True
  | .composite _ mark children =>
    Holds A (Layout.Cohesion.of (mark.map Mark.tag)) children ∧ CoheresAll children

def CoheresAll : List Fragment → Prop
  | [] => True
  | f :: rest => Coheres f ∧ CoheresAll rest

end

variable {A}

/-- Where nothing holds together nothing is glued. -/
theorem holds_loose (fs : List Fragment) : Holds A ⟨false, false⟩ fs where
  attached f _ h := by cases f <;> cases h
  solid h := absurd h Bool.false_ne_true

theorem coheresAll_iff {fs : List Fragment} : CoheresAll A fs ↔ ∀ f ∈ fs, f.Coheres A := by
  induction fs with
  | nil => simp [CoheresAll]
  | cons f rest ih => simp [CoheresAll, ih]

end Fragment

namespace Layout

open Alphabet

section runs
variable {A : Alphabet} {s : State} {f : Fragment}

/-- A bare fragment can be glued to a word, and be glued to. -/
theorem spaced_print_of_isBare (c : Context) (h : A.Apart s) (hf : f.isBare A = true) :
    A.Spaced (print c f s) ∧ A.Clean (print c f s) := by
  cases f with
  | composite _ _ _ => cases hf
  | leaf l =>
      simp only [Fragment.isBare, Alphabet.isBare, Bool.and_eq_true, Bool.not_eq_true'] at hf
      obtain ⟨⟨hshown, hbegins⟩, hends⟩ := hf
      have hl : l.isShown = true := by simp [Leaf.isShown, hshown]
      rw [print]
      refine ⟨h.put c hl fun _ => .inr hbegins, fun prev hprev => ?_⟩
      rw [s.put_of_isShown c hl] at hprev
      obtain rfl := Option.some.inj hprev
      exact hends

mutual

/-- Printing a fragment whose parts hold together without words glues nothing to a word. -/
theorem spaced_print (c : Context) : ∀ (f : Fragment) (s : State), f.Coheres A → A.Spaced s →
    A.Spaced (print c f s)
  | .leaf l, s, _, hs => hs.put c l
  | .composite flow mark children, s, hf, hs => by
      have hchildren : ∀ s, A.Spaced s → A.Spaced
          (printAll (c.inner flow mark) (Cohesion.of (mark.map Mark.tag)) true children s) :=
        fun s hs => spaced_printAll _ _ children true s hf.1 hf.2 hs
          fun _ hfirst => absurd hfirst.symm Bool.false_ne_true
      by_cases hfocus : ∀ m ∈ mark, m.focused = false
      · rw [print_composite c flow mark children s hfocus]
        split
        · exact hs
        · exact (hchildren _ (hs.flushIf _)).flushIf _
      · obtain ⟨m, rfl, hm⟩ := exists_mark_focused hfocus
        rw [print_focused c flow m children s hm]
        refine ((hchildren _ ?_).closeFocus c).flushIf _
        have hopen := hs.flushIf (flow == .block)
        exact ⟨⟨hopen.lines, hopen.line, hopen.prev⟩, hopen.clean⟩

/-- What is glued to the part before it comes after no word, or is bare. -/
theorem spaced_printAll (c : Context) (k : Cohesion) : ∀ (fs : List Fragment) (first : Bool)
    (s : State), Fragment.Holds A k fs → Fragment.CoheresAll A fs → A.Spaced s →
    (k.solid = true → first = false → A.Clean s ∨ ∀ f ∈ fs.head?, f.isBare A = true) →
    A.Spaced (printAll c k first fs s)
  | [], _, _, _, _, hs, _ => hs
  | f :: rest, first, s, hk, hfs, hs, hfirst => by
      have hrest : Fragment.Holds A k rest :=
        ⟨fun g hg => hk.attached g (List.mem_cons_of_mem f hg),
          fun hsolid => (List.isChain_cons.mp (hk.solid hsolid)).2⟩
      rw [printAll]
      cases hbare : f.isBare A with
      | true =>
          -- Whatever is glued before it or after it.
          have hglued : A.Apart (s.glueIf ((k.attaches f || k.solid) && !first)) := by
            cases (k.attaches f || k.solid) && !first <;> exact ⟨hs.lines, hs.line, hs.prev⟩
          obtain ⟨hprint, hclean⟩ := spaced_print_of_isBare c hglued hbare
          refine spaced_printAll c k rest false _ hrest hfs.2 (hprint.glueIf _ fun _ => hclean)
            fun _ _ => .inl ?_
          cases k.attaches f && first <;> exact hclean
      | false =>
          have hloose : k.attaches f = false := by
            by_contra hattached
            rw [hk.attached f List.mem_cons_self (by simpa using hattached)] at hbare
            cases hbare
          rw [hloose, Bool.false_or, Bool.false_and]
          refine spaced_printAll c k rest false _ hrest hfs.2 (spaced_print c f _ hfs.1
            (hs.glueIf _ fun hglue => ?_)) fun hsolid _ => .inr fun g hg => ?_
          · rw [Bool.and_eq_true, Bool.not_eq_true'] at hglue
            refine (hfirst hglue.1 hglue.2).resolve_right fun hf => ?_
            rw [hf f rfl] at hbare
            cases hbare
          · have hnext := (List.isChain_cons.mp (hk.solid hsolid)).1 g hg
            exact hnext.resolve_left (by simp [hbare])

end

end runs

end Layout

/-- No word in a layout runs into the next one on its line, if only what is bare is glued. -/
theorem Fragment.parted_layout {A : Alphabet} {f : Fragment} (h : f.Coheres A) (unit : String) :
    ∀ line ∈ f.layout unit, A.Parted line := by
  have hstart : A.Spaced Layout.State.start :=
    ⟨⟨fun _ hline => absurd hline List.not_mem_nil, Alphabet.parted_nil, rfl⟩,
      fun hglue => absurd hglue Bool.false_ne_true⟩
  exact (Layout.spaced_print ⟨unit, 0, none⟩ f .start h hstart).toApart.flush.lines

end SyntaxLens
