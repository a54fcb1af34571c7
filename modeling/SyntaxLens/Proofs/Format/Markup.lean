import Mathlib.Data.List.Basic
import SyntaxLens.Format.Tag

/-! # What markup tells

The markup of a fragment tells everything about it but the ids of its nodes, and of a path it tells
the text: two fragments have the same markup exactly if they have the same **face**
(`toMarkup_eq_iff`).

Markup is read from left to right.  A part of it **tells** a view of what it was written for if it
also shows where it ends, whatever follows (`Tells`).  Escaped texts hold no bracket and no quote
(`mem_escape`), so the bracket or the quote behind a text ends it, and escaping is undone by
`unescape`.  A child begins with one indent more than the closing tag of its parent, so the list of
children ends where the closing tag begins. -/

namespace SyntaxLens

theorem Flow.name_injective {flow flow' : Flow} (h : flow.name = flow'.name) : flow = flow' := by
  revert h
  cases flow <;> cases flow' <;> decide

/-! ### Faces -/

/-- What markup shows of a mark: the text of the path in its place, and no id. -/
structure MarkFace where
  tag : String
  path : String
  focused : Bool
deriving DecidableEq, Repr

def Mark.face (m : Mark) : MarkFace := ⟨m.tag, Path.text m.path, m.focused⟩

/-- A fragment as markup shows it, with the faces of its marks. -/
inductive Face where
  | leaf (leaf : Leaf)
  | composite (flow : Flow) (mark : Option MarkFace) (children : List Face)
deriving Repr

namespace Fragment

mutual

def face : Fragment → Face
  | .leaf l => .leaf l
  | .composite flow mark children => .composite flow (mark.map Mark.face) (faceAll children)

def faceAll : List Fragment → List Face
  | [] => []
  | f :: rest => face f :: faceAll rest

end

namespace Markup

/-! ### Escaped texts -/

/-- The characters that are written as entities. -/
def specials : List Char := ['&', '<', '>', '"', '\'']

/-- Reads the entities back. -/
def unescape : List Char → List Char
  | [] => []
  | '&' :: 'a' :: 'm' :: 'p' :: ';' :: rest => '&' :: unescape rest
  | '&' :: 'l' :: 't' :: ';' :: rest => '<' :: unescape rest
  | '&' :: 'g' :: 't' :: ';' :: rest => '>' :: unescape rest
  | '&' :: 'q' :: 'u' :: 'o' :: 't' :: ';' :: rest => '"' :: unescape rest
  | '&' :: 'a' :: 'p' :: 'o' :: 's' :: ';' :: rest => '\'' :: unescape rest
  | c :: rest => c :: unescape rest

theorem mem_specials_iff {c : Char} :
    c ∈ specials ↔ c = '&' ∨ c = '<' ∨ c = '>' ∨ c = '"' ∨ c = '\'' := by
  simp [specials]

theorem escape_eq_self {c : Char} (h : c ∉ specials) : escape c = [c] := by
  simp only [mem_specials_iff, not_or] at h
  unfold escape
  split <;> simp_all

theorem unescape_cons {c : Char} (h : c ≠ '&') (cs : List Char) :
    unescape (c :: cs) = c :: unescape cs := by
  rw [unescape] <;> exact fun _ hc => absurd hc h

/-- Escaping can be undone. -/
theorem unescape_flatMap_escape (cs : List Char) : unescape (cs.flatMap escape) = cs := by
  induction cs with
  | nil => rfl
  | cons c cs ih =>
      rw [List.flatMap_cons]
      by_cases hc : c ∈ specials
      · rw [mem_specials_iff] at hc
        rcases hc with rfl | rfl | rfl | rfl | rfl <;> exact congrArg _ ih
      · have hamp : c ≠ '&' := by
          rintro rfl
          exact hc (by decide)
        rw [escape_eq_self hc, List.singleton_append, unescape_cons hamp, ih]

/-- A text with an entity in the place of one character. -/
def replaced (c : Char) (entity : String) (cs : List Char) : List Char :=
  cs.flatMap fun d => if d = c then entity.toList else [d]

theorem replaced_append (c : Char) (entity : String) (a b : List Char) :
    replaced c entity (a ++ b) = replaced c entity a ++ replaced c entity b := List.flatMap_append

theorem replaced_of_ne {c d : Char} (entity : String) (h : d ≠ c) :
    replaced c entity [d] = [d] := by
  rw [replaced, List.flatMap_singleton, if_neg h]

/-- Escaping replaces the special characters one after the other, the ampersand first: no entity is
escaped again. -/
theorem flatMap_escape_eq_replaced (cs : List Char) : cs.flatMap escape =
    replaced '\'' "&apos;" (replaced '"' "&quot;" (replaced '>' "&gt;"
      (replaced '<' "&lt;" (replaced '&' "&amp;" cs)))) := by
  induction cs with
  | nil => rfl
  | cons c cs ih =>
      rw [← List.singleton_append, List.flatMap_append, ih, List.flatMap_singleton]
      simp only [replaced_append]
      congr 1
      by_cases hc : c ∈ specials
      · rw [mem_specials_iff] at hc
        rcases hc with rfl | rfl | rfl | rfl | rfl <;> decide
      · have hne : ∀ d ∈ specials, c ≠ d := fun d hd h => hc (h ▸ hd)
        rw [escape_eq_self hc, replaced_of_ne _ (hne '&' (by decide)),
          replaced_of_ne _ (hne '<' (by decide)), replaced_of_ne _ (hne '>' (by decide)),
          replaced_of_ne _ (hne '"' (by decide)), replaced_of_ne _ (hne '\'' (by decide))]

theorem escaped_injective {s s' : String} (h : escaped s = escaped s') : s = s' := by
  have hlist := congrArg unescape (String.ofList_injective h)
  rw [unescape_flatMap_escape, unescape_flatMap_escape] at hlist
  exact String.toList_injective hlist

/-- Of the special characters only the ampersand stands in an escaped text. -/
theorem not_mem_escaped (s : String) {c : Char} (hc : c ∈ specials) (hamp : c ≠ '&') :
    c ∉ (escaped s).toList := by
  rw [escaped, String.toList_ofList, List.mem_flatMap]
  rintro ⟨d, -, hd⟩
  by_cases hd' : d ∈ specials
  · rw [mem_specials_iff] at hc hd'
    rcases hd' with rfl | rfl | rfl | rfl | rfl <;> rcases hc with rfl | rfl | rfl | rfl | rfl <;>
      first | exact hamp rfl | exact absurd hd (by decide)
  · rw [escape_eq_self hd', List.mem_singleton] at hd
    exact hd' (hd ▸ hc)

/-! ### Parts that tell what they are -/

section tells
variable {α β : Type} {a b rest rest' : List Char} {c c' : Char}

/-- Whatever follows, what is written for a value tells the view of it and where it ends. -/
def Tells (write : α → List Char) (view : α → β) : Prop :=
  ∀ x y rest rest', write x ++ rest = write y ++ rest' → view x = view y ∧ rest = rest'

/-- A character that does not stand in a text ends it. -/
theorem eq_of_append_cons (ha : c ∉ a) (hb : c ∉ b) (h : a ++ c :: rest = b ++ c :: rest') :
    a = b ∧ rest = rest' := by
  induction a generalizing b with
  | nil =>
      cases b with
      | nil => exact ⟨rfl, (List.cons.inj h).2⟩
      | cons d b => exact absurd ((List.cons.inj h).1 ▸ List.mem_cons_self) hb
  | cons d a ih =>
      cases b with
      | nil => exact absurd ((List.cons.inj h).1 ▸ List.mem_cons_self) ha
      | cons e b =>
          obtain ⟨rfl, htail⟩ := List.cons.inj h
          obtain ⟨rfl, hrest⟩ := ih (fun hc => ha (List.mem_cons_of_mem _ hc))
            (fun hc => hb (List.mem_cons_of_mem _ hc)) htail
          exact ⟨rfl, hrest⟩

/-- A text ended by a character that never stands in it tells what it was written for. -/
theorem tells_of_not_mem {write : α → List Char} {view : α → β} (c : Char)
    (hc : ∀ x, c ∉ write x) (hview : ∀ x y, write x = write y → view x = view y) :
    Tells (fun x => write x ++ [c]) view := by
  intro x y rest rest' h
  rw [List.append_assoc, List.append_assoc] at h
  obtain ⟨heq, hrest⟩ := eq_of_append_cons (hc x) (hc y) h
  exact ⟨hview x y heq, hrest⟩

theorem element_injective {k k' : LeafClass} (h : (element k).toList = (element k').toList) :
    k = k' := by
  revert h
  cases k <;> cases k' <;> decide

theorem tells_element : Tells (fun k => (element k).toList ++ ['>']) id :=
  tells_of_not_mem '>' (fun k => by cases k <;> decide) fun _ _ h => element_injective h

theorem tells_text : Tells (fun s => (escaped s).toList ++ ['<']) id :=
  tells_of_not_mem '<' (fun s => not_mem_escaped s (by decide) (by decide)) fun _ _ h =>
    escaped_injective (String.toList_injective h)

theorem toList_property (name value : String) : (property name value).toList =
    ' ' :: name.toList ++ ['=', '"'] ++ ((escaped value).toList ++ ['"']) := by
  simp [property, String.toList_append]

theorem tells_property (name : String) : Tells (fun value => (property name value).toList) id := by
  have hvalue : Tells (fun s => (escaped s).toList ++ ['"']) id :=
    tells_of_not_mem '"' (fun s => not_mem_escaped s (by decide) (by decide)) fun _ _ h =>
      escaped_injective (String.toList_injective h)
  intro x y rest rest' h
  simp only [toList_property, List.append_assoc (_ ++ _)] at h
  exact hvalue x y rest rest' (List.append_cancel_left h)

/-- The name and the properties of an element tell all but the id, if no property follows. -/
theorem opening_tells {flow flow' : Flow} {mark mark' : Option Mark} (hc : c ≠ ' ') (hc' : c' ≠ ' ')
    (h : (opening flow mark).toList ++ c :: rest = (opening flow' mark').toList ++ c' :: rest') :
    flow = flow' ∧ mark.map Mark.face = mark'.map Mark.face ∧ c :: rest = c' :: rest' := by
  have hflow : ∀ {a b}, (property "layout" flow.name).toList ++ a =
      (property "layout" flow'.name).toList ++ b → flow = flow' ∧ a = b := by
    intro a b h
    obtain ⟨hname, hrest⟩ := tells_property "layout" _ _ _ _ h
    exact ⟨Flow.name_injective hname, hrest⟩
  cases mark with
  | none =>
      cases mark' with
      | none =>
          simp only [opening, String.toList_append, List.append_assoc] at h
          obtain ⟨heq, hrest⟩ := hflow (List.append_cancel_left h)
          exact ⟨heq, rfl, hrest⟩
      | some m' => simp [opening, String.toList_append] at h
  | some m =>
      cases mark' with
      | none => simp [opening, String.toList_append] at h
      | some m' =>
          simp only [opening, String.toList_append, List.append_assoc] at h
          obtain ⟨hkind, h⟩ := tells_property "kind" _ _ _ _ (List.append_cancel_left h)
          obtain ⟨hpath, h⟩ := tells_property "path" _ _ _ _ h
          obtain ⟨heq, h⟩ := hflow h
          -- The flag is there if a blank follows the flow.
          have hflag : m.focused = m'.focused ∧ c :: rest = c' :: rest' := by
            cases hm : m.focused <;> cases hm' : m'.focused <;>
              simp [hm, hm', toList_property] at h
            · exact ⟨rfl, by rw [h.1, h.2]⟩
            · exact absurd h.1 hc
            · exact absurd h.1.symm hc'
            · exact ⟨rfl, by rw [h.1, h.2]⟩
          have hface : m.face = m'.face := by
            simp only [Mark.face, MarkFace.mk.injEq]
            exact ⟨hkind, hpath, hflag.1⟩
          exact ⟨heq, congrArg some hface, hflag.2⟩

end tells

/-! ### Lines -/

section lines

/-- What stands in front of the lines of a level. -/
def indent (level : ℕ) : List Char := List.replicate (2 * level) ' '

theorem indent_succ (level : ℕ) : indent (level + 1) = indent level ++ [' ', ' '] := by
  rw [indent, Nat.mul_succ, List.replicate_add]
  rfl

/-- What stands behind the name and the properties of the element of a composite. -/
def ending (level : ℕ) (mark : Option Mark) : List Fragment → List Char
  | [] => ['/', '>', '\n']
  | f :: rest => '>' :: '\n' :: ((writeAll (level + 1) (f :: rest)).toList ++
      (indent level ++ '<' :: '/' :: (name mark).toList ++ ['>', '\n']))

/-- What stands behind the text of a leaf and the bracket that ends it. -/
def closing (l : Leaf) : List Char := '/' :: ((element l.kind).toList ++ ['>', '\n'])

theorem toList_write_leaf (level : ℕ) (l : Leaf) : (write level (.leaf l)).toList =
    indent level ++ '<' :: (((element l.kind).toList ++ ['>']) ++
      (((escaped l.text).toList ++ ['<']) ++ closing l)) := by
  simp [write, line, indent, closing, String.toList_append]

theorem toList_write_composite (level : ℕ) (flow : Flow) (mark : Option Mark)
    (children : List Fragment) : (write level (.composite flow mark children)).toList =
      indent level ++ '<' :: ((opening flow mark).toList ++ ending level mark children) := by
  cases children <;> simp [write, ending, line, indent, String.toList_append]

/-- No element of a leaf has a name that begins like that of a composite. -/
theorem leaf_ne_composite (k : LeafClass) (flow : Flow) (mark : Option Mark)
    (rest rest' : List Char) :
    (element k).toList ++ '>' :: rest ≠ (opening flow mark).toList ++ rest' := by
  cases k <;> cases mark <;> simp [element, LeafClass.name, opening, String.toList_append]

theorem name_eq_of_face {mark mark' : Option Mark} (h : mark.map Mark.face = mark'.map Mark.face) :
    name mark = name mark' := by
  have hsome := congrArg Option.isSome h
  rw [Option.isSome_map, Option.isSome_map] at hsome
  rw [name, name, hsome]

theorem ending_eq_cons (level : ℕ) (mark : Option Mark) (children : List Fragment) :
    ∃ c rest, c ≠ ' ' ∧ ending level mark children = c :: rest := by
  cases children with
  | nil => exact ⟨'/', _, by decide, rfl⟩
  | cons f rest => exact ⟨'>', _, by decide, rfl⟩

theorem exists_indent_write (level : ℕ) (f : Fragment) :
    ∃ rest, (write level f).toList = indent level ++ '<' :: rest := by
  cases f with
  | leaf l => exact ⟨_, toList_write_leaf level l⟩
  | composite flow mark children => exact ⟨_, toList_write_composite level flow mark children⟩

/-- A child stands further in than the closing tag of its parent. -/
theorem write_ne_closing (level : ℕ) (f : Fragment) (rest rest' : List Char) :
    (write (level + 1) f).toList ++ rest ≠ indent level ++ '<' :: rest' := by
  obtain ⟨tag, htag⟩ := exists_indent_write (level + 1) f
  rw [htag, indent_succ, List.append_assoc, List.append_assoc]
  intro h
  exact absurd (List.cons.inj (List.append_cancel_left h)).1 (by decide)

/-- The line of a leaf tells its class and its text. -/
theorem write_leaf_tells (level : ℕ) : Tells (fun l => (write level (.leaf l)).toList) id := by
  intro l l' rest rest' h
  simp only [toList_write_leaf, List.append_assoc (indent level), List.cons_append,
    List.append_assoc (_ ++ [_])] at h
  obtain ⟨hkind, h⟩ := tells_element _ _ _ _ (List.cons.inj (List.append_cancel_left h)).2
  obtain ⟨htext, h⟩ := tells_text _ _ _ _ h
  have hleaf : l = l' := by
    cases l
    cases l'
    exact congrArg₂ Leaf.mk hkind htext
  subst hleaf
  exact ⟨rfl, List.append_cancel_left h⟩

mutual

/-- The lines of a fragment tell its face. -/
theorem write_tells (level : ℕ) : ∀ (f g : Fragment) (rest rest' : List Char),
    (write level f).toList ++ rest = (write level g).toList ++ rest' →
      f.face = g.face ∧ rest = rest'
  | .leaf l, .leaf l', rest, rest', h => by
      obtain ⟨hleaf, hrest⟩ := write_leaf_tells level l l' rest rest' h
      exact ⟨congrArg Face.leaf hleaf, hrest⟩
  | .leaf l, .composite flow mark children, rest, rest', h => by
      simp only [toList_write_leaf, toList_write_composite, List.append_assoc,
        List.cons_append] at h
      exact absurd (List.cons.inj (List.append_cancel_left h)).2 (leaf_ne_composite _ _ _ _ _)
  | .composite flow mark children, .leaf l, rest, rest', h => by
      simp only [toList_write_leaf, toList_write_composite, List.append_assoc,
        List.cons_append] at h
      exact absurd (List.cons.inj (List.append_cancel_left h)).2.symm
        (leaf_ne_composite _ _ _ _ _)
  | .composite flow mark children, .composite flow' mark' children', rest, rest', h => by
      simp only [toList_write_composite, List.append_assoc, List.cons_append] at h
      have htag := (List.cons.inj (List.append_cancel_left h)).2
      obtain ⟨c, behind, hc, hending⟩ := ending_eq_cons level mark children
      obtain ⟨c', behind', hc', hending'⟩ := ending_eq_cons level mark' children'
      rw [hending, hending', List.cons_append, List.cons_append] at htag
      obtain ⟨rfl, hmark, htail⟩ := opening_tells hc hc' htag
      rw [← List.cons_append, ← List.cons_append, ← hending, ← hending'] at htail
      rw [face, face, hmark]
      cases children with
      | nil =>
          cases children' with
          | nil => exact ⟨rfl, List.append_cancel_left htail⟩
          | cons f' more' => exact absurd (List.cons.inj htail).1 (by decide)
      | cons f more =>
          cases children' with
          | nil => exact absurd (List.cons.inj htail).1 (by decide)
          | cons f' more' =>
              simp only [ending, name_eq_of_face hmark, List.cons_append, List.append_assoc,
                List.cons.injEq, true_and] at htail
              obtain ⟨hfaces, hclosing⟩ := writeAll_tells level (f :: more) (f' :: more') _ _ htail
              simp only [List.cons.injEq, List.append_cancel_left_eq, true_and] at hclosing
              exact ⟨by rw [hfaces], hclosing⟩

theorem writeAll_tells (level : ℕ) : ∀ (fs gs : List Fragment) (rest rest' : List Char),
    (writeAll (level + 1) fs).toList ++ (indent level ++ '<' :: rest) =
      (writeAll (level + 1) gs).toList ++ (indent level ++ '<' :: rest') →
      faceAll fs = faceAll gs ∧ rest = rest'
  | [], [], rest, rest', h => by
      simp only [writeAll, String.toList_empty, List.nil_append] at h
      exact ⟨rfl, (List.cons.inj (List.append_cancel_left h)).2⟩
  | [], g :: gs, rest, rest', h => by
      simp only [writeAll, String.toList_append, String.toList_empty, List.nil_append,
        List.append_assoc] at h
      exact absurd h.symm (write_ne_closing level g _ _)
  | f :: fs, [], rest, rest', h => by
      simp only [writeAll, String.toList_append, String.toList_empty, List.nil_append,
        List.append_assoc] at h
      exact absurd h (write_ne_closing level f _ _)
  | f :: fs, g :: gs, rest, rest', h => by
      simp only [writeAll, String.toList_append, List.append_assoc] at h
      obtain ⟨hface, h⟩ := write_tells (level + 1) f g _ _ h
      obtain ⟨hfaces, hrest⟩ := writeAll_tells level fs gs rest rest' h
      exact ⟨by rw [faceAll, faceAll, hface, hfaces], hrest⟩

end

end lines

/-! ### Faces tell the lines -/

theorem opening_congr {flow : Flow} {mark mark' : Option Mark}
    (h : mark.map Mark.face = mark'.map Mark.face) : opening flow mark = opening flow mark' := by
  cases mark <;> cases mark' <;> simp_all [Mark.face, opening]

mutual

/-- The lines of a fragment depend on its face alone. -/
theorem write_congr (level : ℕ) : ∀ f g : Fragment, f.face = g.face → write level f = write level g
  | .leaf l, .leaf l', h => by
      rw [Face.leaf.inj h]
  | .leaf _, .composite _ _ _, h => by cases h
  | .composite _ _ _, .leaf _, h => by cases h
  | .composite flow mark children, .composite flow' mark' children', h => by
      obtain ⟨rfl, hmark, hfaces⟩ := Face.composite.inj h
      have hlines := writeAll_congr (level + 1) children children' hfaces
      cases children with
      | nil =>
          cases children' with
          | nil => rw [write, write, opening_congr hmark]
          | cons f' more' => cases hfaces
      | cons f more =>
          cases children' with
          | nil => cases hfaces
          | cons f' more' =>
              rw [write, write, opening_congr hmark, name_eq_of_face hmark, hlines]

theorem writeAll_congr (level : ℕ) : ∀ fs gs : List Fragment, faceAll fs = faceAll gs →
    writeAll level fs = writeAll level gs
  | [], [], _ => rfl
  | [], _ :: _, h => by cases h
  | _ :: _, [], h => by cases h
  | f :: fs, g :: gs, h => by
      obtain ⟨hface, hfaces⟩ := List.cons.inj h
      rw [writeAll, writeAll, write_congr level f g hface, writeAll_congr level fs gs hfaces]

end

end Markup

/-- Two fragments have the same markup exactly if they have the same face: shape and flows, which
composites are nodes, their tags, the texts of their paths and what is in focus, and the kinds and
texts of the leaves, whatever characters these hold. -/
theorem toMarkup_eq_iff (f g : Fragment) : f.toMarkup = g.toMarkup ↔ f.face = g.face := by
  constructor
  · intro h
    have hlist := congrArg String.toList h
    simp only [toMarkup, String.toList_append, List.append_assoc] at hlist
    exact (Markup.write_tells 1 f g _ _ (List.append_cancel_left hlist)).1
  · intro h
    rw [toMarkup, toMarkup, Markup.write_congr 1 f g h]

end Fragment

end SyntaxLens
