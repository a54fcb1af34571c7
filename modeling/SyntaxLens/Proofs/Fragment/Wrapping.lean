import Mathlib.Data.List.Basic
import SyntaxLens.Fragment.Layout

/-! # Wrapping leaves

Leaves are numbered as they stand on the lines.  `wrap` puts marks of the focus around the leaves
from one number up to another, whatever lines they are on: one directly before the first of them and
one directly after the last.  Lines that have none of these two leaves stay as they are
(`wrap_eq_self`).  On lines without marks, `wrap` puts one mark of each kind and no others
(`Unmarked.filter_wrapLine`). -/

namespace SyntaxLens

namespace Piece

def isLeaf (p : Piece) : Bool :=
  match p.kind with
  | .leaf _ => true
  | _ => false

/-- Whether the piece is a mark of the focus. -/
def isFocus (p : Piece) : Bool := p.kind == .focusOpen || p.kind == .focusClose

theorem isLeaf_of_isGap {p : Piece} (h : p.isGap = true) : p.isLeaf = false := by
  obtain ⟨kind, text⟩ := p
  cases kind <;> first | rfl | cases h

theorem isFocus_of_isGap {p : Piece} (h : p.isGap = true) : p.isFocus = false := by
  obtain ⟨kind, text⟩ := p
  cases kind <;> first | rfl | cases h

end Piece

namespace Layout

open Piece (ofLeaf)

/-! ### Wrapping leaves -/

/-- A line with marks around some of its leaves, which are numbered from `n` on: one that opens the
focus before the leaf `start`, and one that closes it after the last leaf before `stop`. -/
def wrapLine (start stop : ℕ) : (n : ℕ) → List Piece → List Piece
  | _, [] => []
  | n, p :: rest =>
    if p.isLeaf then
      (if n = start then [.focusOpen] else []) ++ [p] ++
        (if n + 1 = stop then [.focusClose] else []) ++ wrapLine start stop (n + 1) rest
    else p :: wrapLine start stop n rest

/-- Lines with marks around the leaves from `start` up to `stop`, numbered from `n` on. -/
def wrap (start stop : ℕ) : (n : ℕ) → List (List Piece) → List (List Piece)
  | _, [] => []
  | n, line :: rest =>
    wrapLine start stop n line :: wrap start stop (n + line.countP Piece.isLeaf) rest

section wrap
variable {start stop n : ℕ}

theorem wrapLine_append (a b : List Piece) : wrapLine start stop n (a ++ b) =
    wrapLine start stop n a ++ wrapLine start stop (n + a.countP Piece.isLeaf) b := by
  induction a generalizing n with
  | nil => simp [wrapLine]
  | cons p a ih =>
      cases hp : p.isLeaf with
      | false => simp [wrapLine, hp, ih]
      | true => simp [wrapLine, hp, ih, Nat.add_assoc, Nat.add_comm 1]

theorem wrap_append (a b : List (List Piece)) : wrap start stop n (a ++ b) =
    wrap start stop n a ++ wrap start stop (n + a.flatten.countP Piece.isLeaf) b := by
  induction a generalizing n with
  | nil => simp [wrap]
  | cons line a ih => simp [wrap, ih, Nat.add_assoc]

theorem wrapLine_eq_nil_iff {line : List Piece} : wrapLine start stop n line = [] ↔ line = [] := by
  cases line with
  | nil => simp [wrapLine]
  | cons p rest => cases hp : p.isLeaf <;> simp [wrapLine, hp]

theorem wrapLine_ofLeaf (l : Leaf) : wrapLine start stop n [ofLeaf l] =
    (if n = start then [.focusOpen] else []) ++ [ofLeaf l] ++
      (if n + 1 = stop then [.focusClose] else []) := by
  simp [wrapLine, Piece.isLeaf, ofLeaf]

theorem flatten_wrap (lines : List (List Piece)) :
    (wrap start stop n lines).flatten = wrapLine start stop n lines.flatten := by
  induction lines generalizing n with
  | nil => rfl
  | cons line rest ih => rw [wrap, List.flatten_cons, ih, List.flatten_cons, wrapLine_append]

/-- Where neither the first leaf nor the last is on the line, the line stays as it is. -/
theorem wrapLine_eq_self {line : List Piece}
    (hstart : n + line.countP Piece.isLeaf ≤ start ∨ start < n)
    (hstop : n + line.countP Piece.isLeaf < stop ∨ stop ≤ n) :
    wrapLine start stop n line = line := by
  induction line generalizing n with
  | nil => rfl
  | cons p rest ih =>
      rw [List.countP_cons] at hstart hstop
      cases hp : p.isLeaf with
      | false =>
          simp only [hp, Bool.false_eq_true, if_false, Nat.add_zero] at hstart hstop
          simp [wrapLine, hp, ih hstart hstop]
      | true =>
          simp only [hp, if_true] at hstart hstop
          have hn : n ≠ start := by omega
          have hn' : n + 1 ≠ stop := by omega
          simp [wrapLine, hp, hn, hn', ih (n := n + 1) (by omega) (by omega)]

theorem wrap_eq_self {lines : List (List Piece)}
    (hstart : n + lines.flatten.countP Piece.isLeaf ≤ start ∨ start < n)
    (hstop : n + lines.flatten.countP Piece.isLeaf < stop ∨ stop ≤ n) :
    wrap start stop n lines = lines := by
  induction lines generalizing n with
  | nil => rfl
  | cons line rest ih =>
      rw [List.flatten_cons, List.countP_append] at hstart hstop
      rw [wrap, wrapLine_eq_self (by omega) (by omega), ih (by omega) (by omega)]

/-- The closing mark comes after all leaves of the line. -/
theorem wrapLine_of_lt {line : List Piece} (h : n + line.countP Piece.isLeaf < stop) :
    wrapLine start stop n line = wrapLine start 0 n line := by
  induction line generalizing n with
  | nil => rfl
  | cons p rest ih =>
      rw [List.countP_cons] at h
      cases hp : p.isLeaf with
      | false =>
          simp only [hp, Bool.false_eq_true, if_false, Nat.add_zero] at h
          simp [wrapLine, hp, ih h]
      | true =>
          simp only [hp, if_true] at h
          have hn : n + 1 ≠ stop := by omega
          simp [wrapLine, hp, hn, ih (n := n + 1) (by omega)]

theorem wrap_of_lt {lines : List (List Piece)}
    (h : n + lines.flatten.countP Piece.isLeaf < stop) :
    wrap start stop n lines = wrap start 0 n lines := by
  induction lines generalizing n with
  | nil => rfl
  | cons line rest ih =>
      rw [List.flatten_cons, List.countP_append] at h
      rw [wrap, wrap, wrapLine_of_lt (by omega), ih (by omega)]

/-- The closing mark comes after the leaf at the end of the line. -/
theorem wrapLine_concat_ofLeaf {front : List Piece} {l : Leaf}
    (h : n + front.countP Piece.isLeaf + 1 = stop) :
    wrapLine start stop n (front ++ [ofLeaf l]) =
      wrapLine start 0 n (front ++ [ofLeaf l]) ++ [.focusClose] := by
  rw [wrapLine_append, wrapLine_append, wrapLine_of_lt (by omega), wrapLine_ofLeaf,
    wrapLine_ofLeaf, if_pos h]
  simp

end wrap

/-! ### Lines without marks -/

/-- No piece of the line is a mark of the focus. -/
def Unmarked (line : List Piece) : Prop := ∀ p ∈ line, p.isFocus = false

section unmarked
variable {a b : List Piece}

theorem unmarked_nil : Unmarked [] := by
  intro p hp
  cases hp

theorem unmarked_append_iff : Unmarked (a ++ b) ↔ Unmarked a ∧ Unmarked b := List.forall_mem_append

theorem unmarked_ofLeaf (l : Leaf) : Unmarked [ofLeaf l] := by
  intro p hp
  rw [List.mem_singleton.mp hp]
  rfl

/-- The opening mark comes where the first leaf is, the closing one where the last is. -/
theorem Unmarked.filter_wrapLine {start stop n : ℕ} (hlt : start < stop) (h : Unmarked a) :
    (wrapLine start stop n a).filter Piece.isFocus =
      (if n ≤ start ∧ start < n + a.countP Piece.isLeaf then [.focusOpen] else []) ++
        (if n < stop ∧ stop ≤ n + a.countP Piece.isLeaf then [.focusClose] else []) := by
  induction a generalizing n with
  | nil =>
      rw [wrapLine, List.countP_nil, if_neg (by omega), if_neg (by omega)]
      rfl
  | cons p a ih =>
      have hp := h p List.mem_cons_self
      have hrest : Unmarked a := fun q hq => h q (List.mem_cons_of_mem _ hq)
      rw [List.countP_cons]
      cases hleaf : p.isLeaf with
      | false => simpa [wrapLine, hleaf, hp] using ih hrest
      | true =>
          rw [wrapLine, if_pos hleaf, if_pos rfl, List.filter_append, ih hrest, List.filter_append,
            List.filter_append, List.filter_cons_of_neg (by simp [hp])]
          -- The leaf is the first or not, and it is the last or not.
          split_ifs <;> first | rfl | omega

end unmarked

end Layout

end SyntaxLens
