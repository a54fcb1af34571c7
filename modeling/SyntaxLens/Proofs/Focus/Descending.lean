import SyntaxLens.Proofs.Focus.Sideways

/-! # Moves down and up

Every kind of node with places for children has a primary role, and the role is one of the places, so
a node with fields has a field in the primary role (`Node.primary_cases`).  A step down goes into
that field; where its one child is absent, the first child that is present takes its place.  So a
move down leads nowhere only from a node without children, or from one whose primary list has no
filled slot, and a move up undoes it (`descending_moves`). -/

namespace SyntaxLens

namespace Node

variable (n : Node)

/-- A node has a field in its primary role, or it has no fields. -/
theorem primary_cases : (n.form.primary = none ∧ n.fields = []) ∨
    ∃ r f, n.form.primary = some r ∧ n.field? r = some f := by
  cases hprimary : n.form.primary with
  | none =>
      refine .inl ⟨rfl, List.map_eq_nil_iff.mp (n.fits.trans ?_)⟩
      cases hform : n.form with
      | known kind _ =>
          rw [hform] at hprimary
          exact kind.primary_eq_none_iff.mp hprimary
      | unknown _ => rfl
  | some r =>
      have hrole : r ∈ n.fields.map Prod.fst := by
        rw [n.map_fst_fields]
        cases hform : n.form with
        | known kind _ =>
            rw [hform] at hprimary
            exact Kind.primary_mem_roles hprimary
        | unknown _ =>
            rw [hform] at hprimary
            cases hprimary
      obtain ⟨⟨_, f⟩, hf, rfl⟩ := List.mem_map.mp hrole
      exact .inr ⟨_, f, rfl, n.field?_of_mem hf⟩

theorem segments_eq_nil_iff : n.segments = [] ↔ n.children = [] := by
  rw [← n.map_snd_segments, List.map_eq_nil_iff]

variable {n} {r : Role} {slots : List (Option NodeId)} {c : NodeId}

theorem mem_children_of_one (h : n.field? r = some (.one (some c))) : c ∈ n.children :=
  List.mem_flatMap.mpr ⟨(r, .one (some c)), mem_of_lookup_eq_some h, List.mem_singleton_self c⟩

theorem not_filled_of_children_eq_nil (h : n.field? r = some (.many slots))
    (hnil : n.children = []) (i : ℕ) : ¬ Filled slots i := by
  rintro ⟨c, hc⟩
  have hmem : c ∈ n.children := List.mem_flatMap.mpr ⟨(r, .many slots), mem_of_lookup_eq_some h,
    List.mem_filterMap.mpr ⟨some c, List.mem_of_getElem? hc, rfl⟩⟩
  rw [hnil] at hmem
  cases hmem

end Node

namespace Tree

section down
variable {t : Tree} {p : Path} {id c : NodeId} {n : Node} {r : Role} {s : Segment}
  {slots : List (Option NodeId)}

theorem descent?_of_primary_eq_none (hn : t.node? id = some n) (hr : n.form.primary = none) :
    t.descent? id = none := by
  simp [descent?, hn, hr]

theorem descent?_of_one (hn : t.node? id = some n) (hr : n.form.primary = some r)
    (hf : n.field? r = some (.one (some c))) : t.descent? id = some (.single r) := by
  simp [descent?, hn, hr, hf]

theorem descent?_of_absent (hn : t.node? id = some n) (hr : n.form.primary = some r)
    (hf : n.field? r = some (.one none)) : t.descent? id = n.segments.head?.map Prod.fst := by
  simp [descent?, hn, hr, hf]

theorem descent?_of_many (hn : t.node? id = some n) (hr : n.form.primary = some r)
    (hf : n.field? r = some (.many slots)) :
    t.descent? id = ((Field.many slots).nextPresent? 0).map (.element r) := by
  simp [descent?, hn, hr, hf]

theorem move_down_eq (hid : t.resolve p = some id) :
    t.move p .down = ((t.descent? id).map fun s => p ++ [s]).getD p := by
  rw [move, hid]

theorem move_down_of_descent? (hid : t.resolve p = some id) (hs : t.descent? id = some s) :
    t.move p .down = p ++ [s] := by
  rw [move_down_eq hid, hs]
  rfl

theorem move_down_eq_self_iff (hid : t.resolve p = some id) :
    t.move p .down = p ↔ t.descent? id = none := by
  rw [move_down_eq hid]
  cases t.descent? id <;> simp

/-- A step down leads to a child, unless there is none or the primary list has none. -/
theorem descent?_eq_none_iff (hn : t.node? id = some n) : t.descent? id = none ↔
    n.children = [] ∨ ∃ r slots, n.form.primary = some r ∧ n.field? r = some (.many slots) ∧
      ∀ i, ¬ Filled slots i := by
  rcases n.primary_cases with ⟨hr, hfields⟩ | ⟨r, f, hr, hf⟩
  · refine iff_of_true (descent?_of_primary_eq_none hn hr) (.inl ?_)
    rw [Node.children, hfields]
    rfl
  · cases f with
    | one child =>
        have hlist : ¬ ∃ r slots, n.form.primary = some r ∧ n.field? r = some (.many slots) ∧
            ∀ i, ¬ Filled slots i := by
          rintro ⟨r', slots, hr', hf', -⟩
          obtain rfl := Option.some.inj (hr.symm.trans hr')
          cases hf.symm.trans hf'
        rw [or_iff_left hlist]
        cases child with
        | some c =>
            rw [descent?_of_one hn hr hf]
            exact iff_of_false (Option.some_ne_none _)
              (List.ne_nil_of_mem (Node.mem_children_of_one hf))
        | none =>
            rw [descent?_of_absent hn hr hf, Option.map_eq_none_iff, List.head?_eq_none_iff,
              n.segments_eq_nil_iff]
    | many slots =>
        rw [descent?_of_many hn hr hf, Option.map_eq_none_iff, Field.nextPresent?_eq_none_iff]
        constructor
        · exact fun hnone => .inr ⟨r, slots, hr, hf, fun i => hnone i (Nat.zero_le i)⟩
        · rintro (hnil | ⟨r', slots', hr', hf', hnone⟩) i -
          · exact Node.not_filled_of_children_eq_nil hf hnil i
          · obtain rfl := Option.some.inj (hr.symm.trans hr')
            cases hf.symm.trans hf'
            exact hnone i

end down

/-- In a tree without children outside the arena, a move down from a node leads nowhere or to one of
its children, and from there a move up leads back.  It leads to the child in the primary role; to the
first filled slot, if a list is there; and to the first child that is present, in the order of the
grammar, if no child is there.  So it leads nowhere exactly from a node without children, or with
none in its primary list.  Every node with fields has one in its primary role, whatever its kind. -/
theorem descending_moves (t : Tree) (hslots : ∀ c ∈ t.slots, t.has c) :
    (∀ p id, t.resolve p = some id → ∃ n, t.node? id = some n ∧
      (t.move p .down = p ∨ ∃ s c, t.move p .down = p ++ [s] ∧ n.at? s = some c ∧
        c ∈ n.children ∧ t.resolve (t.move p .down) = some c ∧ t.move (t.move p .down) .up = p) ∧
      (∀ r c, n.form.primary = some r → n.field? r = some (.one (some c)) →
        t.move p .down = p ++ [.single r]) ∧
      (∀ r slots, n.form.primary = some r → n.field? r = some (.many slots) →
        (∀ i, IsLeast {i | Filled slots i} i → t.move p .down = p ++ [.element r i]) ∧
        ((∀ i, ¬ Filled slots i) → t.move p .down = p)) ∧
      (∀ r, n.form.primary = some r → n.field? r = some (.one none) →
        (∀ s c rest, n.segments = (s, c) :: rest → t.move p .down = p ++ [s]) ∧
        (n.segments = [] → t.move p .down = p)) ∧
      (t.move p .down = p ↔ n.children = [] ∨ ∃ r slots, n.form.primary = some r ∧
        n.field? r = some (.many slots) ∧ ∀ i, ¬ Filled slots i)) ∧
    (∀ n : Node, (n.form.primary = none ∧ n.fields = []) ∨
      ∃ r f, n.form.primary = some r ∧ n.field? r = some f) ∧
    ∀ kind : Kind, kind.roles ≠ [] → ∃ place ∈ kind.roles, kind.primary = some place.role := by
  refine ⟨fun p id hid => ?_, Node.primary_cases, fun kind hroles => ?_⟩
  · have hclosed : t.Closed := ⟨has_root_of_resolve hid, hslots⟩
    obtain ⟨n, hn⟩ := t.exists_node? (t.has_of_mem_order (t.mem_order_of_resolve hid))
    refine ⟨n, hn, ?_, ?_, ?_, ?_, (move_down_eq_self_iff hid).trans (descent?_eq_none_iff hn)⟩
    · cases hs : t.descent? id with
      | none => exact .inl ((move_down_eq_self_iff hid).mpr hs)
      | some s =>
          obtain ⟨⟨c, hat⟩, -⟩ := descent?_cases hn hs
          have hc : t.resolve (p ++ [s]) = some c := by
            rw [t.resolve_snoc, hid]
            exact hclosed.step?_of_at? hn hat
          rw [move_down_of_descent? hid hs]
          refine .inr ⟨s, c, rfl, hat, (n.mem_children_iff c).mpr ⟨s, hat⟩, hc, ?_⟩
          rw [move, hc]
          exact List.dropLast_concat
    · exact fun r c hr hf => move_down_of_descent? hid (descent?_of_one hn hr hf)
    · intro r slots hr hf
      have hdescent := descent?_of_many hn hr hf
      constructor
      · intro i hi
        have hleast : IsLeast {i | 0 ≤ i ∧ Filled slots i} i := by simpa using hi
        rw [Field.nextPresent?_eq_some_iff.mpr hleast] at hdescent
        exact move_down_of_descent? hid hdescent
      · intro hnone
        rw [Field.nextPresent?_eq_none_iff.mpr fun i _ => hnone i] at hdescent
        exact (move_down_eq_self_iff hid).mpr hdescent
    · intro r hr hf
      have hdescent := descent?_of_absent hn hr hf
      constructor
      · intro s c rest hsegments
        rw [hsegments] at hdescent
        exact move_down_of_descent? hid hdescent
      · intro hnil
        rw [hnil] at hdescent
        exact (move_down_eq_self_iff hid).mpr hdescent
  · obtain ⟨r, hr⟩ := Option.ne_none_iff_exists'.mp (mt kind.primary_eq_none_iff.mp hroles)
    obtain ⟨place, hplace, rfl⟩ := List.mem_map.mp (Kind.primary_mem_roles hr)
    exact ⟨place, hplace, hr⟩

/-- A function without a name, and its empty body. -/
def anonymous : Array Node := #[
  .ofEntries (.known .functionExpression ⟨false, false⟩) [(.identity, none), (.body, some 1)],
  .ofEntries (.known .blockStatement ()) []]

/-- The body takes the place of the name, and there is no way further down. -/
theorem descending_moves_anonymous :
    let t := ofNodes anonymous 0
    t.move [] .down = [⟨"body", none⟩] ∧ t.move (t.move [] .down) .up = [] ∧
      t.move [⟨"body", none⟩] .down = [⟨"body", none⟩] := by
  intro t
  obtain ⟨hdown, -⟩ := descending_moves t (by decide)
  obtain ⟨n, hn, hcases, -, -, habsent, -⟩ := hdown [] 0 (by decide)
  obtain rfl := Option.some.inj hn
  have hbody : t.move [] .down = [⟨"body", none⟩] :=
    (habsent .identity rfl rfl).1 ⟨"body", none⟩ 1 [] (by decide)
  refine ⟨hbody, ?_, ?_⟩
  · rcases hcases with hstays | ⟨s, c, -, -, -, -, hup⟩
    · rw [hbody] at hstays
      cases hstays
    · exact hup
  · obtain ⟨n, hn, -, -, hlist, -⟩ := hdown [⟨"body", none⟩] 1 (by decide)
    obtain rfl := Option.some.inj hn
    refine (hlist .body [] rfl rfl).2 fun i hi => ?_
    obtain ⟨c, hc⟩ := hi
    cases hc

end Tree

end SyntaxLens
