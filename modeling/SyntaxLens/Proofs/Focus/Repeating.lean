import Mathlib.Data.Finset.Card
import Mathlib.Logic.Function.Iterate
import SyntaxLens.Proofs.Focus.Descending

/-! # Repeated moves

A move that is repeated comes to rest (`Focus.repeated_moves_rest`).

* Every direction has a measure of how far on a path is, `Path.reach`, and a move that leads anywhere
  leads further (`Tree.reach_lt_reach_move`).  So the paths on the way are all different.
* In a strict tree a node has one path only, so there are no more paths on the way than nodes
  (`Tree.Strict.lt_size_of_moving`).
* `Focus.Repeats` is the loop that repeats a move for as long as it changes the path. -/

namespace SyntaxLens

namespace Path

/-- The index in the innermost list that a path passes; zero if it passes none. -/
def innermost (p : Path) : ℕ := ((Tree.lastIndexed? p).map fun found => found.2.2).getD 0

/-- How far on a path is in a direction. -/
def reach (p : Path) : Direction → ℤ
  | .up => -p.length
  | .down => p.length
  | .next => p.innermost
  | .prev => -p.innermost

theorem innermost_append {before below : Path} {name : String} {i : ℕ}
    (h : ∀ s ∈ below, s.index = none) : innermost (before ++ ⟨name, some i⟩ :: below) = i := by
  rw [innermost, Tree.lastIndexed?_append h]
  rfl

theorem innermost_concat (before : Path) (name : String) (i : ℕ) :
    innermost (before ++ [⟨name, some i⟩]) = i :=
  innermost_append fun _ hs => absurd hs List.not_mem_nil

end Path

namespace Tree

/-! ### One move -/

section move
variable {t : Tree} {p : Path}

theorem Stands.innermost_eq {before : Path} {name : String} {slots : List (Option NodeId)} {i : ℕ}
    (h : t.Stands before name slots i p) : p.innermost = i := by
  obtain ⟨below, rfl, hbelow⟩ := h.passes
  exact Path.innermost_append hbelow

/-- A move along a list leads somewhere only from a path that passes one. -/
theorem exists_stands_of_moved (hp : (t.resolve p).isSome) {d : Direction}
    (hd : d = .next ∨ d = .prev) (hmoved : t.move p d ≠ p) :
    ∃ before name slots i, t.Stands before name slots i p := by
  rcases indexed_cases p with hnone | ⟨before, name, i, below, rfl, hbelow⟩
  · obtain ⟨id, hid⟩ := Option.isSome_iff_exists.mp hp
    have hstay := sidestep?_of_not_indexed (t := t) hnone
    rcases hd with rfl | rfl <;> simp [move, hid, hstay] at hmoved
  · obtain ⟨slots, h⟩ := exists_stands hp hbelow
    exact ⟨before, name, slots, i, h⟩

/-- A move that leads anywhere leads further in its direction. -/
theorem reach_lt_reach_move (hp : (t.resolve p).isSome) {d : Direction} (hmoved : t.move p d ≠ p) :
    p.reach d < (t.move p d).reach d := by
  obtain ⟨id, hid⟩ := Option.isSome_iff_exists.mp hp
  cases d with
  | up =>
      have hlt : p.parent.length < p.length := by
        have hne : p ≠ [] := by
          rintro rfl
          simp [move, hid, Path.parent] at hmoved
        have hpos := List.length_pos_iff.mpr hne
        rw [Path.parent, List.length_dropLast]
        omega
      have hup : t.move p .up = p.parent := by rw [move, hid]
      rw [hup, Path.reach, Path.reach]
      omega
  | down =>
      rw [move_down_eq hid] at hmoved ⊢
      cases hs : t.descent? id with
      | none => simp [hs] at hmoved
      | some s => simp [Path.reach]
  | next =>
      obtain ⟨before, name, slots, i, h⟩ := exists_stands_of_moved hp (.inl rfl) hmoved
      obtain ⟨j, hj, hnext⟩ := h.move_next_cases.resolve_left hmoved
      rw [hnext, Path.reach, Path.reach, h.innermost_eq, Path.innermost_concat]
      exact Int.ofNat_lt.mpr hj.1.1
  | prev =>
      obtain ⟨before, name, slots, i, h⟩ := exists_stands_of_moved hp (.inr rfl) hmoved
      obtain ⟨j, hj, hprev⟩ := h.move_prev_cases.resolve_left hmoved
      rw [hprev, Path.reach, Path.reach, h.innermost_eq, Path.innermost_concat]
      exact Int.neg_lt_neg (Int.ofNat_lt.mpr hj.1.1)

end move

/-! ### Repeated moves -/

/-- The path after a move was made so many times. -/
def moves (t : Tree) (p : Path) (d : Direction) (n : ℕ) : Path := (t.move · d)^[n] p

section moves
variable {t : Tree} {p : Path} {d : Direction}

theorem moves_succ (n : ℕ) : t.moves p d (n + 1) = t.move (t.moves p d n) d :=
  Function.iterate_succ_apply' ..

theorem Closed.isSome_resolve_moves (h : t.Closed) (hp : (t.resolve p).isSome) (n : ℕ) :
    (t.resolve (t.moves p d n)).isSome := by
  induction n with
  | zero => exact hp
  | succ n ih =>
      rw [moves_succ]
      exact h.isSome_resolve_move ih d

/-- As long as each move leads on, later paths are further on. -/
theorem reach_moves_lt (h : t.Closed) (hp : (t.resolve p).isSome) {n : ℕ}
    (hmoving : ∀ i < n, t.moves p d (i + 1) ≠ t.moves p d i) {i j : ℕ} (hij : i < j) (hj : j ≤ n) :
    (t.moves p d i).reach d < (t.moves p d j).reach d := by
  induction j with
  | zero => cases hij
  | succ j ih =>
      have hmoved := hmoving j hj
      rw [moves_succ] at hmoved ⊢
      have hstep := reach_lt_reach_move (h.isSome_resolve_moves hp j) hmoved
      rcases Nat.lt_succ_iff_lt_or_eq.mp hij with hlt | rfl
      · exact (ih hlt (by omega)).trans hstep
      · exact hstep

/-- The paths on the way lead to different nodes, so the way is shorter than the arena is large. -/
theorem Strict.lt_size_of_moving (h : t.Strict) (hp : (t.resolve p).isSome) {n : ℕ}
    (hmoving : ∀ i < n, t.moves p d (i + 1) ≠ t.moves p d i) : n < t.size := by
  have hnode : ∀ i, ∃ id, t.resolve (t.moves p d i) = some id := fun i =>
    Option.isSome_iff_exists.mp (h.closed.isSome_resolve_moves hp i)
  choose node hnode using hnode
  have hmaps : ∀ i ∈ Finset.range (n + 1), node i ∈ Finset.range t.size := by
    intro i _
    rw [Finset.mem_range]
    simpa [has, size] using t.has_of_mem_order (t.mem_order_of_resolve (hnode i))
  have hinj : Set.InjOn node (Finset.range (n + 1)) := by
    intro i hi j hj hij
    rw [Finset.coe_range, Set.mem_Iio, Nat.lt_succ_iff] at hi hj
    have hpath : t.moves p d i = t.moves p d j :=
      h.resolve_unique (hnode i) (hij ▸ hnode j)
    rcases lt_trichotomy i j with hlt | heq | hlt
    · exact absurd (reach_moves_lt h.closed hp hmoving hlt hj) (by rw [hpath]; exact lt_irrefl _)
    · exact heq
    · exact absurd (reach_moves_lt h.closed hp hmoving hlt hi) (by rw [hpath]; exact lt_irrefl _)
  have hcard := Finset.card_le_card_of_injOn node hmaps hinj
  rwa [Finset.card_range, Finset.card_range] at hcard

/-- A path that a move leaves alone is left alone by all further ones. -/
theorem moves_add_of_rest {rest : ℕ} (h : t.moves p d (rest + 1) = t.moves p d rest) (k : ℕ) :
    t.moves p d (rest + k) = t.moves p d rest := by
  induction k with
  | zero => rfl
  | succ k ih => rw [← Nat.add_assoc, moves_succ, ih, ← moves_succ, h]

/-- The moves that lead on come first, and there are fewer of them than nodes. -/
theorem Strict.exists_rest (h : t.Strict) (hp : (t.resolve p).isSome) :
    ∃ rest < t.size, ∀ i, t.moves p d (i + 1) ≠ t.moves p d i ↔ i < rest := by
  have hstops : ∃ i, t.moves p d (i + 1) = t.moves p d i := by
    by_contra hnever
    push Not at hnever
    exact lt_irrefl _ (h.lt_size_of_moving hp (n := t.size) fun i _ => hnever i)
  classical
  have hrest := Nat.find_spec hstops
  have hmoving : ∀ i < Nat.find hstops, t.moves p d (i + 1) ≠ t.moves p d i :=
    fun i hi => Nat.find_min hstops hi
  refine ⟨Nat.find hstops, h.lt_size_of_moving hp hmoving, fun i => ⟨?_, hmoving i⟩⟩
  contrapose!
  intro hle
  obtain ⟨k, rfl⟩ := Nat.exists_eq_add_of_le hle
  rw [Nat.add_assoc, moves_add_of_rest hrest, moves_add_of_rest hrest]

end moves

end Tree

namespace Focus

/-- A move is repeated for as long as it changes the path: it does so many times, and then leaves
the path as it is. -/
inductive Repeats (d : Direction) : Focus → ℕ → Focus → Prop
  | rest {f : Focus} : (f.move d).2 = false → Repeats d f 0 (f.move d).1
  | again {f g : Focus} {n : ℕ} : (f.move d).2 = true → Repeats d (f.move d).1 n g →
      Repeats d f (n + 1) g

theorem repeats_of_moves {t : Tree} {d : Direction} {rest : ℕ} : ∀ {p : Path},
    (∀ i, t.moves p d (i + 1) ≠ t.moves p d i ↔ i < rest) →
      Repeats d ⟨t, p⟩ rest ⟨t, t.moves p d rest⟩ := by
  induction rest with
  | zero =>
      intro p h
      have hstay : t.move p d = p := not_not.mp (mt (h 0).mp (lt_irrefl 0))
      have hrest := Repeats.rest (f := ⟨t, p⟩) (d := d) (by simp [Focus.move, hstay])
      rwa [show (Focus.move ⟨t, p⟩ d).1 = ⟨t, p⟩ from congrArg (Focus.mk t) hstay] at hrest
  | succ rest ih =>
      intro p h
      have hmoved : t.move p d ≠ p := (h 0).mpr rest.succ_pos
      refine .again (by simp [Focus.move, hmoved]) (ih fun i => ?_)
      exact (h (i + 1)).trans Nat.succ_lt_succ_iff

/-- From a path that leads to a node of a tree that was loaded, a move in one direction that is made
over and over changes the path fewer times than the tree has nodes, and once it leaves the path as it
is, it always does.  So a loop that repeats a move for as long as it changes the path ends. -/
theorem repeated_moves_rest (json : Json) (t : Tree) (h : Document.load json = .ok t) (p : Path)
    (hp : (t.resolve p).isSome) (d : Direction) :
    ∃ rest < t.size, (∀ i, t.moves p d (i + 1) ≠ t.moves p d i ↔ i < rest) ∧
      Repeats d ⟨t, p⟩ rest ⟨t, t.moves p d rest⟩ := by
  obtain ⟨rest, hlt, hmoves⟩ := (Document.strict_of_load h).exists_rest (d := d) hp
  exact ⟨rest, hlt, hmoves, repeats_of_moves hmoves⟩

/-- A program with three statements, the second of them absent. -/
def gapped : Json := .object [
  ("body", .array [
    .object [("argument", .object [("name", .string "a"), ("type", .string "Identifier")]),
      ("type", .string "ReturnStatement")],
    .null,
    .object [("type", .string "EmptyStatement")]]),
  ("type", .string "Program")]

/-- From the argument of the first statement one move leads to the last statement, and there is none
after it. -/
theorem repeated_moves_rest_gapped : ∃ t, Document.load gapped = .ok t ∧ t.size = 4 ∧
    (t.resolve [⟨"body", some 0⟩, ⟨"argument", none⟩]).isSome ∧
    Repeats .next ⟨t, [⟨"body", some 0⟩, ⟨"argument", none⟩]⟩ 1 ⟨t, [⟨"body", some 2⟩]⟩ := by
  refine ⟨_, rfl, by decide +kernel, by decide +kernel, ?_⟩
  obtain ⟨rest, -, hmoves, hloop⟩ := repeated_moves_rest gapped _ rfl
    [⟨"body", some 0⟩, ⟨"argument", none⟩] (by decide +kernel) .next
  obtain rfl : rest = 1 := by
    have hfirst := (hmoves 0).mp (by decide +kernel)
    have hsecond := mt (hmoves 1).mpr (by decide +kernel)
    omega
  exact hloop

end Focus

end SyntaxLens
