import Mathlib.Data.List.Forall2
import Mathlib.Data.List.TakeWhile
import SyntaxLens.Focus.Path
import SyntaxLens.Proofs.Number.Decimal

/-! # The grammar of paths

Which texts are read as paths, and what is reported of the others (`Path.parse_grammar`).

* `Text.Trimmed` says what is left of a text without the blanks around it.
* `Segment.Spelled` are the texts of a segment: its name, and behind it a numeral of its index in
  brackets if it has one.  All other texts without a point are faulty in one of two ways
  (`Segment.Faulty`); `Path.segment` tells which (`Path.segment_eq_ok_iff`,
  `Path.segment_eq_error_iff`).
* `Path.Spelled` are the texts of a path, `Path.Refused` those of none. -/

namespace SyntaxLens

/-! ### Texts -/

namespace Text

theorem pieces_eq_splitOn (separator : Char) (cs : List Char) :
    pieces separator cs = cs.splitOn separator := by
  induction cs with
  | nil => rfl
  | cons c cs ih =>
      rw [pieces, List.splitOn_cons_eq_if_modifyHead, ← ih]
      by_cases h : c = separator
      · simp [h]
      · have hlen := length_pieces separator cs
        cases hp : pieces separator cs with
        | nil => simp [hp] at hlen
        | cons first rest => simp [h]

theorem not_mem_of_mem_pieces {separator : Char} {cs piece : List Char}
    (h : piece ∈ pieces separator cs) : separator ∉ piece := by
  induction cs generalizing piece with
  | nil => simp_all [pieces]
  | cons c cs ih =>
      rw [pieces] at h
      split_ifs at h with hc
      · rcases List.mem_cons.mp h with rfl | h
        · exact List.not_mem_nil
        · exact ih h
      · split at h
        · rw [List.mem_singleton.mp h, List.mem_singleton]
          exact Ne.symm hc
        · rename_i first rest hp
          rw [hp] at ih
          rcases List.mem_cons.mp h with rfl | h
          · rw [List.mem_cons, not_or]
            exact ⟨Ne.symm hc, ih List.mem_cons_self⟩
          · exact ih (List.mem_cons_of_mem _ h)

/-- The pieces of a text are the only texts without a separator that give it when joined. -/
theorem pieces_eq_iff {separator : Char} {cs : List Char} {texts : List (List Char)} :
    pieces separator cs = texts ↔ texts ≠ [] ∧ (∀ text ∈ texts, separator ∉ text) ∧
      [separator].intercalate texts = cs := by
  constructor
  · rintro rfl
    refine ⟨fun hnil => ?_, fun text => not_mem_of_mem_pieces, ?_⟩
    · have hlen := length_pieces separator cs
      rw [hnil] at hlen
      cases hlen
    · rw [pieces_eq_splitOn, List.intercalate_splitOn]
  · rintro ⟨hne, hfree, rfl⟩
    rw [pieces_eq_splitOn]
    exact List.splitOn_intercalate separator hfree hne

/-- The first and the last character, if there are any. -/
def ends (cs : List Char) : Option Char × Option Char := (cs.head?, cs.getLast?)

/-- No blank stands at either end. -/
def Bare (cs : List Char) : Prop :=
  (∀ c ∈ (ends cs).1, isBlank c = false) ∧ ∀ c ∈ (ends cs).2, isBlank c = false

instance (cs : List Char) : Decidable (Bare cs) :=
  decidable_of_iff ((ends cs).1.all (!isBlank ·) ∧ (ends cs).2.all (!isBlank ·))
    (by simp [Bare, Option.all_eq_true])

theorem isBlank_of_mem_head?_dropWhile {cs : List Char} {c : Char}
    (h : c ∈ (cs.dropWhile isBlank).head?) : isBlank c = false := by
  have hhead := List.head?_dropWhile_not isBlank cs
  rw [Option.mem_def.mp h] at hhead
  exact hhead

theorem bare_trim (cs : List Char) : Bare (trim cs) := by
  unfold trim trimRight
  generalize hd : cs.dropWhile isBlank = d
  constructor
  · intro c hc
    -- What is left begins as the text did before its end was cut.
    have hprefix : (d.reverse.dropWhile isBlank).reverse <+: d := by
      rw [← List.reverse_suffix, List.reverse_reverse]
      exact List.dropWhile_suffix isBlank
    obtain ⟨rest, hrest⟩ := hprefix
    have hmem : c ∈ d.head? := by
      rw [← hrest, List.head?_append]
      simp only [ends, Option.mem_def] at hc
      rw [hc]
      rfl
    exact isBlank_of_mem_head?_dropWhile (hd ▸ hmem)
  · intro c hc
    rw [ends, List.getLast?_reverse] at hc
    exact isBlank_of_mem_head?_dropWhile hc

theorem trim_eq_self {cs : List Char} (h : Bare cs) : trim cs = cs := by
  have hdrop : ∀ ds : List Char, (∀ c ∈ ds.head?, isBlank c = false) →
      ds.dropWhile isBlank = ds := by
    intro ds hds
    cases ds with
    | nil => rfl
    | cons d ds => exact List.dropWhile_cons_of_neg (by simp [hds d rfl])
  rw [trim, trimRight, hdrop cs h.1, hdrop cs.reverse (by rw [List.head?_reverse]; exact h.2),
    List.reverse_reverse]

/-- The second text is what is left of the first without the blanks around it. -/
def Trimmed (cs body : List Char) : Prop :=
  ∃ before after, cs = before ++ body ++ after ∧ (∀ c ∈ before ++ after, isBlank c = true) ∧
    Bare body

theorem exists_trim_append (cs : List Char) : ∃ before after, cs = before ++ trim cs ++ after ∧
    ∀ c ∈ before ++ after, isBlank c = true := by
  refine ⟨cs.takeWhile isBlank, ((cs.dropWhile isBlank).reverse.takeWhile isBlank).reverse, ?_, ?_⟩
  · rw [trim, trimRight, List.append_assoc, ← List.reverse_append, List.takeWhile_append_dropWhile,
      List.reverse_reverse, List.takeWhile_append_dropWhile]
  · intro c hc
    rcases List.mem_append.mp hc with hc | hc
    · exact List.mem_takeWhile_imp hc
    · exact List.mem_takeWhile_imp (List.mem_reverse.mp hc)

theorem trim_append_left {before : List Char} (h : ∀ c ∈ before, isBlank c = true)
    (cs : List Char) : trim (before ++ cs) = trim cs := by
  rw [trim, List.dropWhile_append_of_pos h, trim]

theorem trim_append_right {after : List Char} (h : ∀ c ∈ after, isBlank c = true)
    (cs : List Char) : trim (cs ++ after) = trim cs := by
  rw [trim, List.dropWhile_append, trim]
  split
  · rename_i hempty
    rw [List.dropWhile_eq_nil_iff.mpr h, List.isEmpty_iff.mp hempty]
  · rw [trimRight, List.reverse_append,
      List.dropWhile_append_of_pos fun c hc => h c (List.mem_reverse.mp hc), trimRight]

theorem trimmed_iff {cs body : List Char} : Trimmed cs body ↔ trim cs = body := by
  constructor
  · rintro ⟨before, after, rfl, hblank, hbare⟩
    obtain ⟨hbefore, hafter⟩ := List.forall_mem_append.mp hblank
    rw [trim_append_right hafter, trim_append_left hbefore, trim_eq_self hbare]
  · rintro rfl
    obtain ⟨before, after, hcs, hblank⟩ := exists_trim_append cs
    exact ⟨before, after, hcs, hblank, bare_trim cs⟩

end Text

/-! ### Segments -/

namespace Segment

/-- The characters are a numeral of the index and the bracket behind it. -/
def Indexed (cs : List Char) (i : ℕ) : Prop :=
  ∃ numeral, Decimal.Denotes numeral i ∧ cs = numeral ++ [']']

/-- The text is one of the segment: its name, in which there is no point and no bracket, and behind
it the index in brackets, if there is one. -/
structure Spelled (cs : List Char) (s : Segment) : Prop where
  name_ne_nil : s.field.toList ≠ []
  point_notMem : '.' ∉ s.field.toList
  bracket_notMem : '[' ∉ s.field.toList
  text : s.index = none ∧ cs = s.field.toList ∨
    ∃ i rest, s.index = some i ∧ Indexed rest i ∧ cs = s.field.toList ++ '[' :: rest

/-- What is wrong with a text that is no segment: what follows the first bracket is no index, or
else the name is missing. -/
inductive Faulty (cs : List Char) : PathError → Prop
  | index {name rest : List Char} : cs = name ++ '[' :: rest → '[' ∉ name →
      (∀ i, ¬ Indexed rest i) → Faulty cs (.badIndex (String.ofList cs))
  | name : cs = [] ∨ (∃ rest i, cs = '[' :: rest ∧ Indexed rest i) →
      Faulty cs (.emptyField (String.ofList cs))

theorem Spelled.point_notMem_text {cs : List Char} {s : Segment} (h : Spelled cs s) :
    '.' ∉ cs := by
  rcases h.text with ⟨-, rfl⟩ | ⟨i, rest, -, ⟨numeral, hnumeral, rfl⟩, rfl⟩
  · exact h.point_notMem
  · have hdigits : '.' ∉ numeral := by
      obtain ⟨-, digits, hcs, -, hdigits, -⟩ := hnumeral
      intro hmem
      rcases hcs with rfl | rfl
      · exact absurd (hdigits _ hmem) (by decide)
      · rcases List.mem_cons.mp hmem with hplus | hmem
        · exact absurd hplus (by decide)
        · exact absurd (hdigits _ hmem) (by decide)
    simp [h.point_notMem, hdigits]

theorem Spelled.text_ne_nil {cs : List Char} {s : Segment} (h : Spelled cs s) : cs ≠ [] := by
  rcases h.text with ⟨-, rfl⟩ | ⟨i, rest, -, -, rfl⟩
  · exact h.name_ne_nil
  · simp

end Segment

namespace Path

theorem index?_eq_some_iff {cs : List Char} {i : ℕ} :
    index? cs = some i ↔ Segment.Indexed cs i := by
  constructor
  · intro h
    unfold index? at h
    split at h
    · rename_i digits hreverse
      refine ⟨digits.reverse, Decimal.readNat64?_eq_some_iff.mp h, ?_⟩
      rw [← List.reverse_reverse cs, hreverse, List.reverse_cons]
    · cases h
  · rintro ⟨numeral, hnumeral, rfl⟩
    rw [index?, List.reverse_append]
    simpa using Decimal.readNat64?_eq_some_iff.mpr hnumeral

/-! ### Reading segments -/

section segment
variable {name : List Char} (h : '[' ∉ name)
include h

theorem ne_bracket_of_mem : ∀ c ∈ name, (c != '[') = true := by
  intro c hc
  rw [bne_iff_ne]
  rintro rfl
  exact h hc

theorem takeWhile_bracket (rest : List Char) :
    (name ++ '[' :: rest).takeWhile (· != '[') = name := by
  rw [List.takeWhile_append_of_pos (ne_bracket_of_mem h)]
  simp

theorem dropWhile_bracket (rest : List Char) :
    (name ++ '[' :: rest).dropWhile (· != '[') = '[' :: rest := by
  rw [List.dropWhile_append_of_pos (ne_bracket_of_mem h)]
  simp

/-- A text has one first bracket. -/
theorem append_bracket_inj {name' rest rest' : List Char} (h' : '[' ∉ name')
    (heq : name ++ '[' :: rest = name' ++ '[' :: rest') : name = name' ∧ rest = rest' := by
  obtain rfl : name = name' := by
    rw [← takeWhile_bracket h rest, heq, takeWhile_bracket h' rest']
  exact ⟨rfl, (List.cons.inj (List.append_cancel_left heq)).2⟩

theorem segment_of_notMem : segment name =
    if name.isEmpty then .error (.emptyField (String.ofList name))
    else .ok ⟨String.ofList name, none⟩ := by
  have hall := ne_bracket_of_mem h
  rw [segment, List.takeWhile_eq_self_iff.mpr hall, List.dropWhile_eq_nil_iff.mpr hall]

theorem segment_of_index?_eq_none {rest : List Char} (hindex : index? rest = none) :
    segment (name ++ '[' :: rest) =
      .error (.badIndex (String.ofList (name ++ '[' :: rest))) := by
  simp [segment, dropWhile_bracket h, hindex]

theorem segment_of_index?_eq_some {rest : List Char} {i : ℕ} (hindex : index? rest = some i) :
    segment (name ++ '[' :: rest) =
      if name.isEmpty then .error (.emptyField (String.ofList (name ++ '[' :: rest)))
      else .ok ⟨String.ofList name, some i⟩ := by
  simp [segment, takeWhile_bracket h, dropWhile_bracket h, hindex]

end segment

end Path

namespace Segment

variable {name cs : List Char} {s : Segment} {e : PathError}

theorem spelled_of_notMem (h : '[' ∉ cs) :
    Spelled cs s ↔ cs ≠ [] ∧ '.' ∉ cs ∧ s = ⟨String.ofList cs, none⟩ := by
  constructor
  · rintro ⟨hne, hpoint, -, ⟨hindex, rfl⟩ | ⟨i, rest, -, -, rfl⟩⟩
    · refine ⟨hne, hpoint, ?_⟩
      rw [String.ofList_toList, ← hindex]
    · simp at h
  · rintro ⟨hne, hpoint, rfl⟩
    exact ⟨by simpa using hne, by simpa using hpoint, by simpa using h, .inl ⟨rfl, by simp⟩⟩

theorem spelled_append (h : '[' ∉ name) (rest : List Char) : Spelled (name ++ '[' :: rest) s ↔
    name ≠ [] ∧ '.' ∉ name ∧ ∃ i, Indexed rest i ∧ s = ⟨String.ofList name, some i⟩ := by
  constructor
  · rintro ⟨hne, hpoint, hbracket, ⟨-, hcs⟩ | ⟨i, rest', hindex, hrest, hcs⟩⟩
    · rw [← hcs] at hbracket
      simp at hbracket
    · obtain ⟨rfl, rfl⟩ := Path.append_bracket_inj h hbracket hcs
      refine ⟨hne, hpoint, i, hrest, ?_⟩
      rw [String.ofList_toList, ← hindex]
  · rintro ⟨hne, hpoint, i, hrest, rfl⟩
    exact ⟨by simpa using hne, by simpa using hpoint, by simpa using h,
      .inr ⟨i, rest, rfl, hrest, by simp⟩⟩

theorem faulty_of_notMem (h : '[' ∉ cs) :
    Faulty cs e ↔ cs = [] ∧ e = .emptyField (String.ofList cs) := by
  constructor
  · rintro (⟨hcs, -, -⟩ | ⟨rfl | ⟨rest, i, rfl, -⟩⟩)
    · simp [hcs] at h
    · exact ⟨rfl, rfl⟩
    · simp at h
  · rintro ⟨hcs, rfl⟩
    exact .name (.inl hcs)

theorem faulty_append (h : '[' ∉ name) (rest : List Char) : Faulty (name ++ '[' :: rest) e ↔
    (∀ i, ¬ Indexed rest i) ∧ e = .badIndex (String.ofList (name ++ '[' :: rest)) ∨
      name = [] ∧ (∃ i, Indexed rest i) ∧
        e = .emptyField (String.ofList (name ++ '[' :: rest)) := by
  constructor
  · rintro (⟨hcs, hname, hrest⟩ | ⟨hcs | ⟨rest', i, hcs, hrest⟩⟩)
    · obtain ⟨rfl, rfl⟩ := Path.append_bracket_inj h hname hcs
      exact .inl ⟨hrest, rfl⟩
    · simp at hcs
    · obtain ⟨rfl, rfl⟩ := Path.append_bracket_inj h List.not_mem_nil hcs
      exact .inr ⟨rfl, ⟨i, hrest⟩, rfl⟩
  · rintro (⟨hrest, rfl⟩ | ⟨rfl, ⟨i, hrest⟩, rfl⟩)
    · exact .index rfl h hrest
    · exact .name (.inr ⟨rest, i, rfl, hrest⟩)

end Segment

namespace Path

/-- A text has no bracket, or a first one. -/
theorem bracket_cases (cs : List Char) :
    '[' ∉ cs ∨ ∃ name rest, cs = name ++ '[' :: rest ∧ '[' ∉ name := by
  by_cases h : '[' ∈ cs
  · exact .inr (List.eq_append_cons_of_mem h)
  · exact .inl h

theorem forall_not_indexed {rest : List Char} (h : index? rest = none) (i : ℕ) :
    ¬ Segment.Indexed rest i := by
  rw [← index?_eq_some_iff, h]
  nofun

theorem indexed_iff {rest : List Char} {i : ℕ} (h : index? rest = some i) (j : ℕ) :
    Segment.Indexed rest j ↔ i = j := by
  rw [← index?_eq_some_iff, h, Option.some.injEq]

theorem segment_eq_ok_iff {cs : List Char} (hpoint : '.' ∉ cs) {s : Segment} :
    segment cs = .ok s ↔ Segment.Spelled cs s := by
  rcases bracket_cases cs with h | ⟨name, rest, rfl, h⟩
  · rw [segment_of_notMem h, Segment.spelled_of_notMem h, eq_comm (a := s)]
    by_cases hempty : cs = [] <;> simp [hempty, hpoint]
  · rw [Segment.spelled_append h]
    have hname : '.' ∉ name := fun hmem => hpoint (List.mem_append_left _ hmem)
    cases hindex : index? rest with
    | none => simp [segment_of_index?_eq_none h hindex, forall_not_indexed hindex]
    | some i =>
        rw [segment_of_index?_eq_some h hindex]
        simp only [indexed_iff hindex, exists_eq_left', eq_comm (a := s)]
        by_cases hempty : name = [] <;> simp [hempty, hname]

theorem segment_eq_error_iff {cs : List Char} {e : PathError} :
    segment cs = .error e ↔ Segment.Faulty cs e := by
  rcases bracket_cases cs with h | ⟨name, rest, rfl, h⟩
  · rw [segment_of_notMem h, Segment.faulty_of_notMem h, eq_comm (a := e)]
    by_cases hempty : cs = [] <;> simp [hempty]
  · rw [Segment.faulty_append h, eq_comm (a := e), eq_comm (a := e)]
    cases hindex : index? rest with
    | none => simp [segment_of_index?_eq_none h hindex, forall_not_indexed hindex]
    | some i =>
        rw [segment_of_index?_eq_some h hindex]
        simp only [indexed_iff hindex]
        by_cases hempty : name = [] <;> simp [hempty]

/-! ### Paths -/

section mapM
variable {α β ε : Type} {f : α → Except ε β}

theorem mapM_eq_ok_iff {xs : List α} {ys : List β} :
    xs.mapM f = .ok ys ↔ List.Forall₂ (fun x y => f x = .ok y) xs ys := by
  induction xs generalizing ys with
  | nil =>
      rw [List.forall₂_nil_left_iff, List.mapM_nil]
      exact ⟨fun h => (Except.ok.inj h).symm, fun h => h ▸ rfl⟩
  | cons x xs ih =>
      rw [List.mapM_cons]
      constructor
      · intro h
        cases hx : f x with
        | error e => rw [hx] at h; cases h
        | ok y =>
            cases hxs : xs.mapM f with
            | error e => rw [hx, hxs] at h; cases h
            | ok zs =>
                rw [hx, hxs] at h
                obtain rfl := Except.ok.inj h
                exact .cons hx (ih.mp hxs)
      · rintro (_ | ⟨hx, hxs⟩)
        rw [hx, ih.mpr hxs]
        rfl

/-- The error is that of the first element that gives one. -/
theorem mapM_eq_error_iff {xs : List α} {e : ε} : xs.mapM f = .error e ↔
    ∃ before x after, xs = before ++ x :: after ∧ (∀ y ∈ before, ∃ z, f y = .ok z) ∧
      f x = .error e := by
  induction xs with
  | nil =>
      refine iff_of_false ?_ ?_
      · rw [List.mapM_nil]
        nofun
      · rintro ⟨before, x, after, h, -⟩
        cases before <;> cases h
  | cons x xs ih =>
      rw [List.mapM_cons]
      cases hx : f x with
      | error e' =>
          constructor
          · intro h
            obtain rfl := Except.error.inj h
            exact ⟨[], x, xs, rfl, by simp, hx⟩
          · rintro ⟨before, y, after, hxs, hbefore, hy⟩
            cases before with
            | nil =>
                obtain ⟨rfl, rfl⟩ := List.cons.inj hxs
                obtain rfl := Except.error.inj (hx.symm.trans hy)
                rfl
            | cons z before =>
                obtain ⟨rfl, rfl⟩ := List.cons.inj hxs
                obtain ⟨w, hw⟩ := hbefore x List.mem_cons_self
                cases hx.symm.trans hw
      | ok w =>
          have hrest : (do let ys ← xs.mapM f; pure (w :: ys)) = .error e ↔
              xs.mapM f = .error e := by
            cases xs.mapM f with
            | error e' => exact Iff.rfl
            | ok ys => exact iff_of_false nofun nofun
          refine hrest.trans (ih.trans ?_)
          constructor
          · rintro ⟨before, y, after, rfl, hbefore, hy⟩
            exact ⟨x :: before, y, after, rfl, List.forall_mem_cons.mpr ⟨⟨w, hx⟩, hbefore⟩, hy⟩
          · rintro ⟨before, y, after, hxs, hbefore, hy⟩
            cases before with
            | nil =>
                obtain ⟨rfl, rfl⟩ := List.cons.inj hxs
                cases hx.symm.trans hy
            | cons z before =>
                obtain ⟨rfl, rfl⟩ := List.cons.inj hxs
                exact ⟨before, y, after, rfl, (List.forall_mem_cons.mp hbefore).2, hy⟩

end mapM

/-- The text is one of the path: nothing and `<root>` for the root, for any other path its segments
with points between them. -/
def Spelled (body : List Char) (p : Path) : Prop :=
  (body = [] ∨ body = rootText.toList) ∧ p = [] ∨
    body ≠ rootText.toList ∧ p ≠ [] ∧ ∃ texts, body = ['.'].intercalate texts ∧
      List.Forall₂ Segment.Spelled texts p

/-- The text is no path: what stands between its points are segments up to one that is faulty. -/
def Refused (body : List Char) (e : PathError) : Prop :=
  body ≠ [] ∧ ∃ before text after, body = ['.'].intercalate (before ++ text :: after) ∧
    (∀ cs ∈ before ++ text :: after, '.' ∉ cs) ∧ (∀ cs ∈ before, ∃ s, Segment.Spelled cs s) ∧
    Segment.Faulty text e

theorem mapM_segment_eq_ok_iff {texts : List (List Char)} (h : ∀ cs ∈ texts, '.' ∉ cs) {p : Path} :
    texts.mapM segment = .ok p ↔ List.Forall₂ Segment.Spelled texts p := by
  rw [mapM_eq_ok_iff, List.forall₂_iff_get, List.forall₂_iff_get]
  refine and_congr_right fun _ => forall_congr' fun i => forall_congr' fun hi => ?_
  exact forall_congr' fun _ => segment_eq_ok_iff (h _ (List.get_mem _ _))

/-- Read as a segment, the text of the root is not at fault. -/
theorem not_refused_root {e : PathError} : ¬ Refused rootText.toList e := by
  rintro ⟨-, before, text, after, hbody, hfree, -, hfaulty⟩
  have hpieces : Text.pieces '.' rootText.toList = before ++ text :: after :=
    Text.pieces_eq_iff.mpr ⟨by simp, hfree, hbody.symm⟩
  rw [show Text.pieces '.' rootText.toList = [rootText.toList] by decide] at hpieces
  have htext : text ∈ [rootText.toList] := hpieces ▸ List.mem_append_right _ List.mem_cons_self
  rw [List.mem_singleton.mp htext, ← segment_eq_error_iff] at hfaulty
  cases hfaulty

/-- A text that is not empty and not that of the root is read piece by piece. -/
theorem parse_eq_mapM {raw : String} (hne : Text.trim raw.toList ≠ [])
    (hroot : Text.trim raw.toList ≠ rootText.toList) :
    parse raw = (Text.pieces '.' (Text.trim raw.toList)).mapM segment := by
  rw [parse, if_neg]
  simp [hne, hroot]

theorem parse_eq_root {raw : String}
    (h : Text.trim raw.toList = [] ∨ Text.trim raw.toList = rootText.toList) :
    parse raw = .ok [] := by
  rw [parse, if_pos]
  simpa using h

/-- Segments leave something in the text, whatever stands between them. -/
theorem intercalate_ne_nil {texts : List (List Char)} {p : Path}
    (h : List.Forall₂ Segment.Spelled texts p) (hp : p ≠ []) : ['.'].intercalate texts ≠ [] := by
  cases h with
  | nil => exact absurd rfl hp
  | @cons cs s texts p hs h =>
      cases texts with
      | nil => simpa using hs.text_ne_nil
      | cons ds texts => simp

/-- The points of a path stand between its segments only. -/
theorem pieces_of_spelled {texts : List (List Char)} {p : Path}
    (h : List.Forall₂ Segment.Spelled texts p) (hp : p ≠ []) {body : List Char}
    (hbody : body = ['.'].intercalate texts) : Text.pieces '.' body = texts := by
  have hfree : ∀ cs ∈ texts, '.' ∉ cs :=
    ((List.forall₂_and_left _ _).mp (h.imp fun _ _ hs => ⟨hs.point_notMem_text, hs⟩)).1
  refine Text.pieces_eq_iff.mpr ⟨?_, hfree, hbody.symm⟩
  rintro rfl
  exact hp (List.forall₂_nil_left_iff.mp h)

theorem parse_eq_ok_iff {raw : String} {p : Path} :
    parse raw = .ok p ↔ Spelled (Text.trim raw.toList) p := by
  by_cases h : Text.trim raw.toList = [] ∨ Text.trim raw.toList = rootText.toList
  · rw [parse_eq_root h, Except.ok.injEq, eq_comm]
    refine ⟨fun hp => .inl ⟨h, hp⟩, ?_⟩
    rintro (⟨-, hp⟩ | ⟨hroot, hp, texts, hbody, htexts⟩)
    · exact hp
    · exact absurd (h.resolve_right hroot) (hbody ▸ intercalate_ne_nil htexts hp)
  · obtain ⟨hne, hroot⟩ := not_or.mp h
    rw [parse_eq_mapM hne hroot, mapM_segment_eq_ok_iff fun cs => Text.not_mem_of_mem_pieces]
    constructor
    · intro htexts
      obtain ⟨hpieces, -, hbody⟩ := Text.pieces_eq_iff.mp rfl
      refine .inr ⟨hroot, ?_, _, hbody.symm, htexts⟩
      rintro rfl
      exact hpieces (List.forall₂_nil_right_iff.mp htexts)
    · rintro (⟨hend, -⟩ | ⟨-, hp, texts, hbody, htexts⟩)
      · exact absurd hend h
      · rwa [pieces_of_spelled htexts hp hbody]

theorem parse_eq_error_iff {raw : String} {e : PathError} :
    parse raw = .error e ↔ Refused (Text.trim raw.toList) e := by
  by_cases h : Text.trim raw.toList = [] ∨ Text.trim raw.toList = rootText.toList
  · refine iff_of_false ?_ ?_
    · rw [parse_eq_root h]
      nofun
    · rcases h with h | h
      · exact fun hrefused => hrefused.1 h
      · exact h ▸ not_refused_root
  · obtain ⟨hne, hroot⟩ := not_or.mp h
    rw [parse_eq_mapM hne hroot, mapM_eq_error_iff]
    constructor
    · rintro ⟨before, text, after, hpieces, hbefore, htext⟩
      obtain ⟨-, hfree, hbody⟩ := Text.pieces_eq_iff.mp hpieces
      refine ⟨hne, before, text, after, hbody.symm, hfree, fun cs hcs => ?_,
        segment_eq_error_iff.mp htext⟩
      obtain ⟨s, hs⟩ := hbefore cs hcs
      exact ⟨s, (segment_eq_ok_iff (hfree cs (List.mem_append_left _ hcs))).mp hs⟩
    · rintro ⟨-, before, text, after, hbody, hfree, hbefore, hfaulty⟩
      refine ⟨before, text, after, Text.pieces_eq_iff.mpr ⟨by simp, hfree, hbody.symm⟩,
        fun cs hcs => ?_, segment_eq_error_iff.mpr hfaulty⟩
      obtain ⟨s, hs⟩ := hbefore cs hcs
      exact ⟨s, (segment_eq_ok_iff (hfree cs (List.mem_append_left _ hcs))).mpr hs⟩

/-- The paths and the refusals of every text.  Blanks around it are taken off; what is left is read
as a path if it spells this path, and refused with an error if this is the error of its first segment
at fault. -/
theorem parse_grammar (raw : String) :
    (∀ p, parse raw = .ok p ↔ ∃ body, Text.Trimmed raw.toList body ∧ Spelled body p) ∧
      ∀ e, parse raw = .error e ↔ ∃ body, Text.Trimmed raw.toList body ∧ Refused body e := by
  simp only [Text.trimmed_iff, exists_eq_left']
  exact ⟨fun _ => parse_eq_ok_iff, fun _ => parse_eq_error_iff⟩

example : parse "a[+07].b c.[x" = .error (.badIndex "[x") := by rfl

end Path

end SyntaxLens
