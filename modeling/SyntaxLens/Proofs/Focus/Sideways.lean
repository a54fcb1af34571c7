import Mathlib.Data.List.Iterate
import Mathlib.Order.Bounds.Basic
import SyntaxLens.Proofs.Focus.Moves
import SyntaxLens.Proofs.Rendering.Drawn

/-! # Moves along a list

A path stands in the innermost list that it passes (`Stands`).  The moves along the list lead to the
nearest filled slot on either side and drop what the path has below the list; from a path that passes
no list they lead nowhere (`sideways_moves`).  Where no child lies outside the arena the two moves
undo each other, and moves to the next slot, from the first that is filled, go through all of them.

The index of a path may be as great as a word can be.  It is counted up only after the path has been
resolved, when it is known to be an index of the list, so the count stays a word
(`moveInWords_eq`). -/

namespace SyntaxLens

/-! ### Filled slots -/

/-- A child stands in the slot of this index. -/
def Filled (slots : List (Option NodeId)) (j : ℕ) : Prop := ∃ c, slots[j]? = some (some c)

/-- The indices of the filled slots, in order. -/
def filledSlots (slots : List (Option NodeId)) : List ℕ :=
  (List.range slots.length).filter fun j => slots[j]?.join.isSome

section filled
variable {slots : List (Option NodeId)} {start j : ℕ}

theorem filled_iff_isSome : Filled slots j ↔ slots[j]?.join.isSome = true := by
  rw [Option.isSome_iff_exists]
  exact exists_congr fun c => Option.join_eq_some_iff.symm

theorem Filled.lt (h : Filled slots j) : j < slots.length := by
  obtain ⟨c, hc⟩ := h
  exact (List.getElem?_eq_some_iff.mp hc).1

theorem mem_filledSlots : j ∈ filledSlots slots ↔ Filled slots j := by
  rw [filledSlots, List.mem_filter, List.mem_range, ← filled_iff_isSome]
  exact ⟨fun h => h.2, fun h => ⟨h.lt, h⟩⟩

theorem pairwise_filledSlots (slots : List (Option NodeId)) :
    (filledSlots slots).Pairwise (· < ·) :=
  List.pairwise_lt_range.filter _

namespace Field

theorem isLeast_of_nextPresent? (h : (many slots).nextPresent? start = some j) :
    IsLeast {j | start ≤ j ∧ Filled slots j} j := by
  obtain ⟨k, hk, rfl⟩ := Option.map_eq_some_iff.mp h
  obtain ⟨hlt, hsome, hbefore⟩ := List.findIdx?_eq_some_iff_getElem.mp hk
  refine ⟨⟨Nat.le_add_left start k, ?_⟩, fun m hm => ?_⟩
  · rw [filled_iff_isSome, Nat.add_comm, ← List.getElem?_drop, List.getElem?_eq_getElem hlt]
    exact hsome
  · obtain ⟨hle, hfilled⟩ := hm
    by_contra hm
    have hmlt : m - start < k := by omega
    refine hbefore (m - start) hmlt ?_
    rw [filled_iff_isSome, ← Nat.add_sub_cancel' hle, ← List.getElem?_drop,
      List.getElem?_eq_getElem (hmlt.trans hlt)] at hfilled
    exact hfilled

theorem nextPresent?_eq_none_iff : (many slots).nextPresent? start = none ↔
    ∀ j, start ≤ j → ¬ Filled slots j := by
  constructor
  · rintro h j hle ⟨c, hc⟩
    rw [nextPresent?, Option.map_eq_none_iff, List.findIdx?_eq_none_iff] at h
    rw [← Nat.add_sub_cancel' hle, ← List.getElem?_drop] at hc
    cases h _ (List.mem_of_getElem? hc)
  · intro h
    refine Option.eq_none_iff_forall_ne_some.mpr fun j hj => ?_
    obtain ⟨⟨hle, hfilled⟩, -⟩ := isLeast_of_nextPresent? hj
    exact h j hle hfilled

theorem nextPresent?_eq_some_iff : (many slots).nextPresent? start = some j ↔
    IsLeast {j | start ≤ j ∧ Filled slots j} j := by
  refine ⟨isLeast_of_nextPresent?, fun h => ?_⟩
  cases hnext : (many slots).nextPresent? start with
  | none => exact absurd h.1.2 (nextPresent?_eq_none_iff.mp hnext j h.1.1)
  | some i => rw [(isLeast_of_nextPresent? hnext).unique h]

theorem isGreatest_of_prevPresent? (h : (many slots).prevPresent? start = some j) :
    IsGreatest {j | j ≤ start ∧ Filled slots j} j := by
  obtain ⟨k, hk, rfl⟩ := Option.map_eq_some_iff.mp h
  obtain ⟨hlt, hsome, hbefore⟩ := List.findIdx?_eq_some_iff_getElem.mp hk
  rw [List.length_reverse] at hlt ⊢
  have hle : (slots.take (start + 1)).length ≤ start + 1 := List.length_take_le _ _
  generalize hupTo : slots.take (start + 1) = upTo at *
  have hread : ∀ m, m < upTo.length → upTo[m]? = slots[m]? := by
    intro m hm
    rw [← hupTo, List.getElem?_take_of_lt (by omega)]
  refine ⟨⟨by omega, ?_⟩, fun m hm => ?_⟩
  · rw [filled_iff_isSome, ← hread _ (by omega), List.getElem?_eq_getElem (by omega)]
    rwa [List.getElem_reverse] at hsome
  · obtain ⟨hm, hfilled⟩ := hm
    by_contra hlater
    have hmlt : m < upTo.length := by
      rw [← hupTo, List.length_take]
      have := hfilled.lt
      omega
    -- Counted from the end, the slot `m` comes before the one that was found first.
    refine hbefore (upTo.length - 1 - m) (by omega) ?_
    rw [filled_iff_isSome, ← hread m hmlt, List.getElem?_eq_getElem hmlt] at hfilled
    rw [List.getElem_reverse]
    have hback : upTo.length - 1 - (upTo.length - 1 - m) = m := by omega
    simpa only [hback, Option.join_some] using hfilled

theorem prevPresent?_eq_none_iff : (many slots).prevPresent? start = none ↔
    ∀ j ≤ start, ¬ Filled slots j := by
  constructor
  · rintro h j hle ⟨c, hc⟩
    rw [prevPresent?, Option.map_eq_none_iff, List.findIdx?_eq_none_iff] at h
    rw [← List.getElem?_take_of_lt (Nat.lt_succ_of_le hle)] at hc
    cases h _ (List.mem_reverse.mpr (List.mem_of_getElem? hc))
  · intro h
    refine Option.eq_none_iff_forall_ne_some.mpr fun j hj => ?_
    obtain ⟨⟨hle, hfilled⟩, -⟩ := isGreatest_of_prevPresent? hj
    exact h j hle hfilled

theorem prevPresent?_eq_some_iff : (many slots).prevPresent? start = some j ↔
    IsGreatest {j | j ≤ start ∧ Filled slots j} j := by
  refine ⟨isGreatest_of_prevPresent?, fun h => ?_⟩
  cases hprev : (many slots).prevPresent? start with
  | none => exact absurd h.1.2 (prevPresent?_eq_none_iff.mp hprev j h.1.1)
  | some i => rw [(isGreatest_of_prevPresent? hprev).unique h]

end Field

end filled

namespace Tree

/-! ### Lists along a path -/

/-- The path leads to a node that has this list in the field of this name. -/
def HasList (t : Tree) (before : Path) (name : String) (slots : List (Option NodeId)) : Prop :=
  ∃ owner n, t.resolve before = some owner ∧ t.node? owner = some n ∧
    n.fieldNamed? name = some (.many slots)

/-- The path resolves, and the innermost list that it passes is this one, at this index, where a
child stands. -/
structure Stands (t : Tree) (before : Path) (name : String) (slots : List (Option NodeId))
    (i : ℕ) (p : Path) : Prop where
  resolves : (t.resolve p).isSome
  hasList : t.HasList before name slots
  filled : Filled slots i
  passes : ∃ below, p = before ++ ⟨name, some i⟩ :: below ∧ ∀ s ∈ below, s.index = none

section lists
variable {t : Tree} {before p : Path} {name : String} {slots : List (Option NodeId)} {i j : ℕ}

theorem lastIndexed?_eq_none (h : ∀ s ∈ p, s.index = none) : lastIndexed? p = none := by
  induction p with
  | nil => rfl
  | cons s p ih =>
      obtain ⟨hs, hp⟩ := List.forall_mem_cons.mp h
      rw [lastIndexed?, ih hp, hs]
      rfl

theorem lastIndexed?_append {below : Path} (h : ∀ s ∈ below, s.index = none) :
    lastIndexed? (before ++ ⟨name, some i⟩ :: below) = some (before, name, i) := by
  induction before with
  | nil => rw [List.nil_append, lastIndexed?, lastIndexed?_eq_none h]; rfl
  | cons s before ih => rw [List.cons_append, lastIndexed?, ih]

theorem sidestep?_of_not_indexed (h : ∀ s ∈ p, s.index = none) (forward : Bool) :
    t.sidestep? p forward = none := by
  rw [sidestep?, lastIndexed?_eq_none h]
  rfl

/-- A path passes no list, or it has a last segment with an index. -/
theorem indexed_cases (p : Path) : (∀ s ∈ p, s.index = none) ∨
    ∃ before name i below, p = before ++ ⟨name, some i⟩ :: below ∧ ∀ s ∈ below, s.index = none := by
  induction p with
  | nil => exact .inl fun _ hs => absurd hs List.not_mem_nil
  | cons s p ih =>
      rcases ih with hp | ⟨before, name, i, below, rfl, hbelow⟩
      · obtain ⟨name, index⟩ := s
        cases index with
        | none => exact .inl (List.forall_mem_cons.mpr ⟨rfl, hp⟩)
        | some i => exact .inr ⟨[], name, i, p, rfl, hp⟩
      · exact .inr ⟨s :: before, name, i, below, rfl, hbelow⟩

/-- A path that resolves stands in its innermost list. -/
theorem exists_stands {below : Path} (hp : (t.resolve (before ++ ⟨name, some i⟩ :: below)).isSome)
    (hbelow : ∀ s ∈ below, s.index = none) :
    ∃ slots, t.Stands before name slots i (before ++ ⟨name, some i⟩ :: below) := by
  obtain ⟨id, hid⟩ := Option.isSome_iff_exists.mp hp
  rw [resolve_append] at hid
  obtain ⟨owner, howner, hid⟩ := Option.bind_eq_some_iff.mp hid
  rw [follow?_cons] at hid
  obtain ⟨c, hc, -⟩ := Option.bind_eq_some_iff.mp hid
  obtain ⟨⟨n, hn, hat⟩, -⟩ := (t.step?_eq_some_iff owner _ c).mp hc
  obtain ⟨f, hf, hat⟩ := Option.bind_eq_some_iff.mp hat
  cases f with
  | one _ => cases hat
  | many slots =>
      exact ⟨slots, hp, ⟨owner, n, howner, hn, hf⟩, ⟨c, Option.join_eq_some_iff.mp hat⟩, below, rfl,
        hbelow⟩

namespace Stands

variable (h : t.Stands before name slots i p)
include h

theorem sidestep?_eq (forward : Bool) : t.sidestep? p forward =
    (if forward then (Field.many slots).nextPresent? (i + 1)
      else if i = 0 then none else (Field.many slots).prevPresent? (i - 1)).map
        fun j => before ++ [⟨name, some j⟩] := by
  obtain ⟨owner, n, howner, hn, hf⟩ := h.hasList
  obtain ⟨below, rfl, hbelow⟩ := h.passes
  rw [sidestep?, lastIndexed?_append hbelow]
  simp only [howner, hn, hf, Option.bind_eq_bind, Option.bind_some, Option.map_eq_bind]
  split_ifs <;> rfl

theorem move_next_eq : t.move p .next = (t.sidestep? p true).getD p := by
  obtain ⟨id, hid⟩ := Option.isSome_iff_exists.mp h.resolves
  rw [move, hid]

theorem move_prev_eq : t.move p .prev = (t.sidestep? p false).getD p := by
  obtain ⟨id, hid⟩ := Option.isSome_iff_exists.mp h.resolves
  rw [move, hid]

theorem move_next_of_isLeast (hj : IsLeast {j | i < j ∧ Filled slots j} j) :
    t.move p .next = before ++ [⟨name, some j⟩] := by
  rw [h.move_next_eq, h.sidestep?_eq, if_pos rfl, Field.nextPresent?_eq_some_iff.mpr hj]
  rfl

theorem move_next_of_forall (hnone : ∀ j, i < j → ¬ Filled slots j) : t.move p .next = p := by
  rw [h.move_next_eq, h.sidestep?_eq, if_pos rfl, Field.nextPresent?_eq_none_iff.mpr hnone]
  rfl

theorem move_prev_of_isGreatest (hj : IsGreatest {j | j < i ∧ Filled slots j} j) :
    t.move p .prev = before ++ [⟨name, some j⟩] := by
  have hi : i ≠ 0 := by
    rintro rfl
    exact Nat.not_lt_zero j hj.1.1
  have hset : {j | j < i ∧ Filled slots j} = {j | j ≤ i - 1 ∧ Filled slots j} := by
    ext j
    exact and_congr_left' (by omega)
  rw [h.move_prev_eq, h.sidestep?_eq, if_neg Bool.false_ne_true, if_neg hi,
    Field.prevPresent?_eq_some_iff.mpr (hset ▸ hj)]
  rfl

theorem move_prev_of_forall (hnone : ∀ j < i, ¬ Filled slots j) : t.move p .prev = p := by
  have hprev : (if i = 0 then none else (Field.many slots).prevPresent? (i - 1)) = none := by
    split
    · rfl
    · exact Field.prevPresent?_eq_none_iff.mpr fun j hle => hnone j (by omega)
  rw [h.move_prev_eq, h.sidestep?_eq, if_neg Bool.false_ne_true, hprev]
  rfl

end Stands

/-- Every filled slot can be stood in. -/
theorem HasList.stands (hclosed : t.Closed) (h : t.HasList before name slots)
    (hj : Filled slots j) : t.Stands before name slots j (before ++ [⟨name, some j⟩]) := by
  obtain ⟨owner, n, howner, hn, hf⟩ := h
  obtain ⟨c, hc⟩ := id hj
  have hat : n.at? ⟨name, some j⟩ = some c := by simp [Node.at?, hf, Field.at?, hc]
  exact ⟨hclosed.isSome_resolve_snoc howner hn hat, ⟨owner, n, howner, hn, hf⟩, hj, [], rfl,
    fun _ hs => absurd hs List.not_mem_nil⟩

namespace Stands

/-- A move to the next slot leads nowhere, or to the nearest filled one behind this one. -/
theorem move_next_cases (h : t.Stands before name slots i p) : t.move p .next = p ∨
    ∃ j, IsLeast {j | i < j ∧ Filled slots j} j ∧ t.move p .next = before ++ [⟨name, some j⟩] := by
  cases hnext : (Field.many slots).nextPresent? (i + 1) with
  | none => exact .inl (h.move_next_of_forall (Field.nextPresent?_eq_none_iff.mp hnext))
  | some j =>
      have hj : IsLeast {j | i < j ∧ Filled slots j} j := Field.isLeast_of_nextPresent? hnext
      exact .inr ⟨j, hj, h.move_next_of_isLeast hj⟩

/-- A move to the previous slot leads nowhere, or to the nearest filled one before this one. -/
theorem move_prev_cases (h : t.Stands before name slots i p) : t.move p .prev = p ∨
    ∃ j, IsGreatest {j | j < i ∧ Filled slots j} j ∧
      t.move p .prev = before ++ [⟨name, some j⟩] := by
  by_cases hi : i = 0
  · exact .inl (h.move_prev_of_forall fun j hj => absurd hj (by omega))
  · cases hprev : (Field.many slots).prevPresent? (i - 1) with
    | none =>
        rw [Field.prevPresent?_eq_none_iff] at hprev
        exact .inl (h.move_prev_of_forall fun j hj => hprev j (by omega))
    | some j =>
        obtain ⟨⟨hle, hfilled⟩, hgreatest⟩ := Field.isGreatest_of_prevPresent? hprev
        have hj : IsGreatest {j | j < i ∧ Filled slots j} j :=
          ⟨⟨by omega, hfilled⟩, fun m ⟨hlt, hm⟩ => hgreatest ⟨by omega, hm⟩⟩
        exact .inr ⟨j, hj, h.move_prev_of_isGreatest hj⟩

/-- The filled slot before the next one is the one that the move came from. -/
theorem prev_of_next (hclosed : t.Closed) (h : t.Stands before name slots i p)
    (hmoved : t.move p .next ≠ p) :
    t.move (t.move p .next) .prev = before ++ [⟨name, some i⟩] := by
  obtain ⟨j, hj, hnext⟩ := h.move_next_cases.resolve_left hmoved
  rw [hnext]
  refine (h.hasList.stands hclosed hj.1.2).move_prev_of_isGreatest
    ⟨⟨hj.1.1, h.filled⟩, fun m ⟨hlt, hm⟩ => ?_⟩
  by_contra hbetween
  exact absurd (hj.2 ⟨not_le.mp hbetween, hm⟩) (not_le.mpr hlt)

theorem next_of_prev (hclosed : t.Closed) (h : t.Stands before name slots i p)
    (hmoved : t.move p .prev ≠ p) :
    t.move (t.move p .prev) .next = before ++ [⟨name, some i⟩] := by
  obtain ⟨j, hj, hprev⟩ := h.move_prev_cases.resolve_left hmoved
  rw [hprev]
  refine (h.hasList.stands hclosed hj.1.2).move_next_of_isLeast
    ⟨⟨hj.1.1, h.filled⟩, fun m ⟨hlt, hm⟩ => ?_⟩
  by_contra hbetween
  exact absurd (hj.2 ⟨not_le.mp hbetween, hm⟩) (not_le.mpr hlt)

end Stands

/-- Along the filled slots, each leads to the next one, and the last leads nowhere. -/
theorem HasList.iterate_next (hclosed : t.Closed) (h : t.HasList before name slots)
    {left right : List ℕ} {first : ℕ} (hslots : filledSlots slots = left ++ first :: right) :
    List.iterate (t.move · .next) (before ++ [⟨name, some first⟩]) (right.length + 1) =
        (first :: right).map (fun j => before ++ [⟨name, some j⟩]) ∧
      ∀ last, (first :: right).getLast? = some last →
        t.move (before ++ [⟨name, some last⟩]) .next = before ++ [⟨name, some last⟩] := by
  induction right generalizing left first with
  | nil =>
      refine ⟨rfl, fun last hlast => ?_⟩
      obtain rfl := Option.some.inj hlast
      have hfirst : Filled slots first := mem_filledSlots.mp (by simp [hslots])
      refine (h.stands hclosed hfirst).move_next_of_forall fun j hlt hj => ?_
      have hsorted := pairwise_filledSlots slots
      rw [hslots, List.pairwise_append] at hsorted
      rw [← mem_filledSlots, hslots, List.mem_append, List.mem_singleton] at hj
      rcases hj with hj | rfl
      · exact lt_asymm hlt (hsorted.2.2 j hj first List.mem_cons_self)
      · exact lt_irrefl j hlt
  | cons second right ih =>
      have hfirst : Filled slots first := mem_filledSlots.mp (by simp [hslots])
      have hsecond : Filled slots second := mem_filledSlots.mp (by simp [hslots])
      have hsorted := pairwise_filledSlots slots
      rw [hslots, List.pairwise_append, List.pairwise_cons, List.pairwise_cons] at hsorted
      obtain ⟨-, ⟨hfirstlt, hsecondlt, -⟩, hleft⟩ := hsorted
      have hleast : IsLeast {j | first < j ∧ Filled slots j} second := by
        refine ⟨⟨hfirstlt second List.mem_cons_self, hsecond⟩, fun j ⟨hlt, hj⟩ => ?_⟩
        rw [← mem_filledSlots, hslots, List.mem_append, List.mem_cons, List.mem_cons] at hj
        rcases hj with hj | rfl | rfl | hj
        · exact absurd (hleft j hj first List.mem_cons_self) (lt_asymm hlt)
        · exact absurd hlt (lt_irrefl j)
        · exact le_rfl
        · exact (hsecondlt j hj).le
      obtain ⟨hrest, hlast⟩ := @ih (left ++ [first]) second (by simp [hslots])
      refine ⟨?_, fun last h' => hlast last (by simpa using h')⟩
      rw [List.length_cons, List.iterate, (h.stands hclosed hfirst).move_next_of_isLeast hleast,
        hrest]
      rfl

end lists

/-! ### Indices as words -/

/-- The result of counting up is not a word. -/
structure Overflow where
deriving DecidableEq, Repr

/-- Counts up a word of 64 bits. -/
def succWord (i : ℕ) : Except Overflow ℕ := if i + 1 < 2 ^ 64 then .ok (i + 1) else .error ⟨⟩

/-- No list of a node has more slots than a word can count. -/
def Counted (t : Tree) : Prop := ∀ n ∈ t.nodes, ∀ r ∈ Role.all, (n.slots r).length < 2 ^ 64

instance (t : Tree) : Decidable t.Counted := by
  unfold Counted
  infer_instance

/-- The step along the list, with words for indices.  Counting down from zero is no step. -/
def sidestepInWords (t : Tree) (p : Path) (forward : Bool) : Except Overflow (Option Path) :=
  match lastIndexed? p with
  | none => .ok none
  | some (before, name, i) =>
    match (t.resolve before).bind fun owner => (t.node? owner).bind fun n => n.fieldNamed? name with
    | none => .ok none
    | some f => do
      let target ← if forward then (f.nextPresent? ·) <$> succWord i
        else if i = 0 then pure none else pure (f.prevPresent? (i - 1))
      return target.map fun j => before ++ [⟨name, some j⟩]

/-- The move, with words for indices.  Nothing is counted for a path that does not resolve. -/
def moveInWords (t : Tree) (p : Path) (d : Direction) : Except Overflow Path :=
  match t.resolve p with
  | none => .ok p
  | some _ =>
    match d with
    | .up | .down => .ok (t.move p d)
    | .next => do return (← t.sidestepInWords p true).getD p
    | .prev => do return (← t.sidestepInWords p false).getD p

section words
variable {t : Tree} {before p : Path} {name : String} {slots : List (Option NodeId)} {i : ℕ}

theorem HasList.length_lt (ht : t.Counted) (h : t.HasList before name slots) :
    slots.length < 2 ^ 64 := by
  obtain ⟨owner, n, -, hn, hf⟩ := h
  obtain ⟨r, hr, -⟩ := (n.fieldNamed?_eq_some_iff _ _).mp hf
  have hlen := ht n (Array.mem_of_getElem? hn) r r.mem_all
  have hfield : n.field? r = some (.many slots) := n.field?_of_mem hr
  rwa [Node.slots, hfield] at hlen

theorem Stands.sidestepInWords_eq (ht : t.Counted) (h : t.Stands before name slots i p)
    (forward : Bool) : t.sidestepInWords p forward = .ok (t.sidestep? p forward) := by
  have hword : succWord i = .ok (i + 1) := by
    have hlt := h.filled.lt
    have hlen := h.hasList.length_lt ht
    exact if_pos (by omega)
  rw [h.sidestep?_eq]
  obtain ⟨owner, n, howner, hn, hf⟩ := h.hasList
  obtain ⟨below, rfl, hbelow⟩ := h.passes
  rw [sidestepInWords, lastIndexed?_append hbelow]
  simp only [howner, hn, hf, Option.bind_some, hword]
  split_ifs <;> rfl

/-- The index of a path that resolves can be counted up. -/
theorem moveInWords_eq (ht : t.Counted) (p : Path) (d : Direction) :
    t.moveInWords p d = .ok (t.move p d) := by
  unfold moveInWords
  cases hid : t.resolve p with
  | none => rw [move, hid]
  | some id =>
      have hside : ∀ forward, t.sidestepInWords p forward = .ok (t.sidestep? p forward) := by
        intro forward
        rcases indexed_cases p with hp | ⟨before, name, i, below, rfl, hbelow⟩
        · rw [sidestepInWords, lastIndexed?_eq_none hp, sidestep?_of_not_indexed hp]
        · obtain ⟨slots, hstands⟩ := exists_stands (Option.isSome_of_eq_some hid) hbelow
          exact hstands.sidestepInWords_eq ht forward
      cases d with
      | up => rfl
      | down => rfl
      | next =>
          rw [move, hid]
          simp only [hside]
          rfl
      | prev =>
          rw [move, hid]
          simp only [hside]
          rfl

end words

/-! ### Both directions -/

/-- From a path that passes no list, the moves along a list lead nowhere.  From any other path they
lead to the nearest filled slot of the innermost list on either side, without what the path has below
that list, or nowhere if there is none.  If no child lies outside the arena, a move to one side and
one to the other lead back to the slot of the path; and moves to the next slot, from the first filled
one on, go through all of them in order and stop at the last.  No count of an index is too great for a
word, for whatever path. -/
theorem sideways_moves (t : Tree) :
    (∀ p, (t.resolve p).isSome →
      ((∀ s ∈ p, s.index = none) → t.move p .next = p ∧ t.move p .prev = p) ∧
      ∀ before name i below, p = before ++ ⟨name, some i⟩ :: below →
        (∀ s ∈ below, s.index = none) →
        ∃ slots, t.HasList before name slots ∧ Filled slots i ∧
          (∀ j, IsLeast {j | i < j ∧ Filled slots j} j →
            t.move p .next = before ++ [⟨name, some j⟩]) ∧
          ((∀ j, i < j → ¬ Filled slots j) → t.move p .next = p) ∧
          (∀ j, IsGreatest {j | j < i ∧ Filled slots j} j →
            t.move p .prev = before ++ [⟨name, some j⟩]) ∧
          ((∀ j < i, ¬ Filled slots j) → t.move p .prev = p) ∧
          ((∀ c ∈ t.slots, t.has c) →
            (t.move p .next ≠ p → t.move (t.move p .next) .prev = before ++ [⟨name, some i⟩]) ∧
            (t.move p .prev ≠ p → t.move (t.move p .prev) .next = before ++ [⟨name, some i⟩]) ∧
            ∃ first last, (filledSlots slots).head? = some first ∧
              (filledSlots slots).getLast? = some last ∧
              List.iterate (t.move · .next) (before ++ [⟨name, some first⟩])
                (filledSlots slots).length =
                  (filledSlots slots).map (fun j => before ++ [⟨name, some j⟩]) ∧
              t.move (before ++ [⟨name, some last⟩]) .next = before ++ [⟨name, some last⟩])) ∧
    (t.Counted → ∀ p d, t.moveInWords p d = .ok (t.move p d)) := by
  refine ⟨fun p hp => ⟨fun hnone => ?_, ?_⟩, fun ht => moveInWords_eq ht⟩
  · obtain ⟨id, hid⟩ := Option.isSome_iff_exists.mp hp
    simp only [move, hid, sidestep?_of_not_indexed hnone, Option.getD_none, and_self]
  · rintro before name i below rfl hbelow
    obtain ⟨slots, h⟩ := exists_stands hp hbelow
    refine ⟨slots, h.hasList, h.filled, fun j => h.move_next_of_isLeast, h.move_next_of_forall,
      fun j => h.move_prev_of_isGreatest, h.move_prev_of_forall, fun hslots => ?_⟩
    obtain ⟨id, hid⟩ := Option.isSome_iff_exists.mp hp
    have hclosed : t.Closed := ⟨has_root_of_resolve hid, hslots⟩
    refine ⟨h.prev_of_next hclosed, h.next_of_prev hclosed, ?_⟩
    have hne : filledSlots slots ≠ [] := List.ne_nil_of_mem (mem_filledSlots.mpr h.filled)
    obtain ⟨first, rest, hfirst⟩ := List.exists_cons_of_ne_nil hne
    obtain ⟨last, hlast⟩ : ∃ last, (filledSlots slots).getLast? = some last :=
      ⟨_, List.getLast?_eq_some_getLast hne⟩
    obtain ⟨hiterate, hstop⟩ := @HasList.iterate_next _ _ _ _ hclosed h.hasList [] rest first hfirst
    rw [hfirst] at hlast ⊢
    exact ⟨first, last, rfl, hlast, hiterate, hstop last hlast⟩

/-- In a block that holds itself, a hole and twice the same statement, the moves from a path below
the statement keep to the block. -/
theorem sideways_moves_coil :
    let t := Tree.ofNodes Focus.coil 0
    let p : Path := [⟨"body", some 2⟩, ⟨"expression", none⟩]
    t.move p .next = [⟨"body", some 3⟩] ∧ t.move p .prev = [⟨"body", some 0⟩] ∧
      t.move (t.move p .next) .prev = [⟨"body", some 2⟩] ∧
      t.move (t.move p .prev) .next = [⟨"body", some 2⟩] ∧
      t.moveInWords [⟨"body", some (2 ^ 64 - 1)⟩] .next = .ok [⟨"body", some (2 ^ 64 - 1)⟩] := by
  intro t p
  obtain ⟨hmoves, hwords⟩ := sideways_moves t
  obtain ⟨slots, -, -, -, -, -, -, hback⟩ :=
    (hmoves p (by decide)).2 [] "body" 2 [⟨"expression", none⟩] rfl (by decide)
  obtain ⟨hnext, hprev, -⟩ := hback (by decide)
  exact ⟨by decide, by decide, hnext (by decide), hprev (by decide), hwords (by decide) _ _⟩

end Tree

end SyntaxLens
