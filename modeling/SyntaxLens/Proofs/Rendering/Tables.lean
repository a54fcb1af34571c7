import Mathlib.Logic.Function.Iterate
import SyntaxLens.Proofs.Rendering.Subtrees

/-! # Rendering through tables

A renderer keeps the path of the node that it is at: it goes one segment on before a child and back
after it, and labels a composite with the path that it is at when the parts are done.  A node that a
table has no rule for is handed over to another table.  `Emits` is this recursion as a derivation;
one that does not end has none.

From a node that reaches no cycle every table has one derivation.  It ends at the path where it began
and shows what `renderAt` does, although that knows the hand-overs beforehand and is given the path
(`emits_iff`).  So what is known of `renderAt` holds of the recursion: all tables show the same,
except for a variable declaration in the head of a loop (`tables_agree`). -/

namespace SyntaxLens.Rendering

/-- What a renderer is asked for: a node through a table, or parts of the node that it is at. -/
inductive Task where
  | node (table : Table) (id : NodeId)
  | parts (ps : List Part)

/-- The renderer at a path ends its task with these fragments, at another path. -/
inductive Emits (t : Tree) (focus : Option Path) : Task → Path → List Fragment → Path → Prop
  | absent {table : Table} {id : NodeId} {path : Path} : t.node? id = none →
      Emits t focus (.node table id) path [] path
  | handOver {table : Table} {id : NodeId} {n : Node} {path after : Path} {out : List Fragment} :
      t.node? id = some n → rule? t n table n.form = none →
      Emits t focus (.node (table.next n.form) id) path out after →
      Emits t focus (.node table id) path out after
  | rule {table : Table} {id : NodeId} {n : Node} {plan : Plan} {path after : Path}
      {children : List Fragment} :
      t.node? id = some n → rule? t n table n.form = some plan →
      Emits t focus (.parts plan.parts) path children after →
      Emits t focus (.node table id) path
        [.composite plan.flow (some ⟨id, n.tag, after, focus == some after⟩) children] after
  | nil {path : Path} : Emits t focus (.parts []) path [] path
  | leaf {l : Leaf} {rest : List Part} {path after : Path} {out : List Fragment} :
      Emits t focus (.parts rest) path out after →
      Emits t focus (.parts (.leaf l :: rest)) path (.leaf l :: out) after
  | child {s : Segment} {id : NodeId} {table : Table} {continued : Bool} {rest : List Part}
      {path between after : Path} {shown out : List Fragment} :
      Emits t focus (.node table id) (path ++ [s]) shown between →
      Emits t focus (.parts rest) between.dropLast out after →
      Emits t focus (.parts (.child s id table continued :: rest)) path
        (shown.map (placed continued) ++ out) after
  | group {flow : Flow} {inner rest : List Part} {path between after : Path}
      {shown out : List Fragment} :
      Emits t focus (.parts inner) path shown between →
      Emits t focus (.parts rest) between out after →
      Emits t focus (.parts (.group flow inner :: rest)) path (.group flow shown :: out) after

/-- What `renderAt` shows for a task. -/
def Task.shown (t : Tree) (focus : Option Path) (depth : ℕ) (path : Path) : Task → List Fragment
  | .node table id => (renderAt t focus depth table path id).toList
  | .parts ps => displayAll (renderAt t focus depth) path ps

section handOvers
variable {t : Tree} {n : Node} {table : Table} {plan : Plan} {hops : ℕ}

/-- The plan does not change when a node is handed over. -/
theorem planFor?_next (h : rule? t n table n.form = none) :
    planFor? t n (table.next n.form) = planFor? t n table := by
  by_cases htable : table = .main
  · subst htable
    rcases exists_rule t n n.form with hmain | hnext
    · rw [h] at hmain
      cases hmain
    · obtain ⟨plan, hplan⟩ := Option.isSome_iff_exists.mp hnext
      rw [planFor?_main, h, hplan, planFor?, planWithin?, hplan]
      rfl
  · have hmain : table.next n.form = .main := by
      cases table with
      | main => exact absurd rfl htable
      | family _ => rfl
      | loopHead => rfl
    rw [hmain, planFor?_of_rule?_eq_none htable h]

/-- No more than two hand-overs lead to a table that has a rule. -/
theorem exists_handOvers (t : Tree) (n : Node) (table : Table) :
    ∃ k ≤ 2, (rule? t n ((Table.next · n.form)^[k] table) n.form).isSome := by
  have hmain : ∃ k ≤ 1, (rule? t n ((Table.next · n.form)^[k] .main) n.form).isSome := by
    rcases exists_rule t n n.form with h | h
    · exact ⟨0, Nat.zero_le 1, h⟩
    · exact ⟨1, le_rfl, h⟩
  cases table with
  | main =>
      obtain ⟨k, hk, h⟩ := hmain
      exact ⟨k, by omega, h⟩
  | family _ | loopHead =>
      obtain ⟨k, hk, h⟩ := hmain
      exact ⟨k + 1, by omega, h⟩

end handOvers

section emits
variable {t : Tree} {focus : Option Path} {table : Table} {id : NodeId} {n : Node} {plan : Plan}
  {path : Path} {child : Table → Path → NodeId → Option Fragment}

/-! ### Derivations and depths -/

theorem renderAt_next (hn : t.node? id = some n) (hrule : rule? t n table n.form = none)
    (focus : Option Path) (depth : ℕ) (path : Path) :
    renderAt t focus depth (table.next n.form) path id = renderAt t focus depth table path id := by
  cases depth with
  | zero => rfl
  | succ depth =>
      obtain ⟨plan, hplan⟩ := exists_planFor? t n table
      rw [renderAt_of_node? hn hplan, renderAt_of_node? hn ((planFor?_next hrule).trans hplan)]

/-- What a child shows in its place. -/
theorem display_child (path : Path) (s : Segment) (continued : Bool) :
    display child path (.child s id table continued) =
      (child table (path ++ [s]) id).toList.map (placed continued) := by
  rw [display]
  cases child table (path ++ [s]) id <;> rfl

/-- The renderer ends at the path where it began, and shows what `renderAt` does at great depths. -/
theorem Emits.shown {task : Task} {after : Path} {out : List Fragment}
    (h : Emits t focus task path out after) :
    after = path ∧ ∃ levels, ∀ depth, levels ≤ depth → task.shown t focus depth path = out := by
  induction h with
  | absent hn =>
      refine ⟨rfl, 0, fun depth _ => ?_⟩
      rw [Task.shown, renderAt_of_node?_eq_none hn]
      rfl
  | handOver hn hrule _ ih =>
      obtain ⟨hafter, levels, hshown⟩ := ih
      refine ⟨hafter, levels, fun depth hdepth => ?_⟩
      rw [← hshown depth hdepth, Task.shown, Task.shown, renderAt_next hn hrule]
  | @rule table id n plan path after children hn hrule _ ih =>
      obtain ⟨rfl, levels, hshown⟩ := ih
      refine ⟨rfl, levels + 1, fun depth hdepth => ?_⟩
      obtain ⟨depth, rfl⟩ : ∃ k, depth = k + 1 := ⟨depth - 1, by omega⟩
      have hplan : planFor? t n table = some plan := by rw [planFor?, planWithin?, hrule]
      rw [Task.shown, renderAt_of_node? hn hplan, ← hshown depth (by omega)]
      rfl
  | nil => exact ⟨rfl, 0, fun _ _ => rfl⟩
  | leaf _ ih =>
      obtain ⟨hafter, levels, hshown⟩ := ih
      exact ⟨hafter, levels, fun depth hdepth => congrArg _ (hshown depth hdepth)⟩
  | child _ _ ih ih' =>
      obtain ⟨rfl, levels, hchild⟩ := ih
      obtain ⟨hafter, levels', hrest⟩ := ih'
      rw [List.dropLast_concat] at hafter hrest
      refine ⟨hafter, max levels levels', fun depth hdepth => ?_⟩
      rw [Task.shown, displayAll, display_child, ← hchild depth (by omega),
        ← hrest depth (by omega)]
      rfl
  | group _ _ ih ih' =>
      obtain ⟨rfl, levels, hinner⟩ := ih
      obtain ⟨hafter, levels', hrest⟩ := ih'
      refine ⟨hafter, max levels levels', fun depth hdepth => ?_⟩
      rw [← hinner depth (by omega), ← hrest depth (by omega)]
      rfl

mutual

/-- Where the children called for are rendered, the parts are. -/
theorem emits_part (path : Path) {rest : List Part} {out : List Fragment}
    (hrest : Emits t focus (.parts rest) path out path) : ∀ p : Part,
    (∀ c ∈ calls.part p, Emits t focus (.node c.table c.id) (path ++ [c.segment])
      (child c.table (path ++ [c.segment]) c.id).toList (path ++ [c.segment])) →
      Emits t focus (.parts (p :: rest)) path (display child path p ++ out) path
  | .leaf l, _ => .leaf hrest
  | .child s id table continued, h => by
      rw [display_child]
      refine .child (h _ (List.mem_singleton_self _)) ?_
      rwa [List.dropLast_concat]
  | .group flow parts, h => by
      rw [display]
      exact .group (emits_parts path parts h) hrest

theorem emits_parts (path : Path) : ∀ parts : List Part,
    (∀ c ∈ calls.all parts, Emits t focus (.node c.table c.id) (path ++ [c.segment])
      (child c.table (path ++ [c.segment]) c.id).toList (path ++ [c.segment])) →
      Emits t focus (.parts parts) path (displayAll child path parts) path
  | [], _ => .nil
  | p :: rest, h => by
      rw [displayAll]
      exact emits_part path (emits_parts path rest fun c hc => h c (List.mem_append_right _ hc)) p
        fun c hc => h c (List.mem_append_left _ hc)

end

/-- A node is handed over until a table has the plan for it. -/
theorem emits_of_planWithin? (hn : t.node? id = some n) {children : List Fragment}
    (h : Emits t focus (.parts plan.parts) path children path) (hops : ℕ) :
    ∀ table, planWithin? t n hops table = some plan → Emits t focus (.node table id) path
      [.composite plan.flow (some ⟨id, n.tag, path, focus == some path⟩) children] path := by
  induction hops with
  | zero => exact fun table hplan => .rule hn hplan h
  | succ hops ih =>
      intro table hplan
      cases hrule : rule? t n table n.form with
      | some own =>
          rw [planWithin?, hrule] at hplan
          obtain rfl := Option.some.inj hplan
          exact .rule hn hrule h
      | none =>
          rw [planWithin?, hrule] at hplan
          exact .handOver hn hrule (ih _ hplan)

/-- If all paths from a node are shorter than a depth, the renderer ends, and shows what `renderAt`
does at this depth. -/
theorem emits_of_length_lt (focus : Option Path) (depth : ℕ) : ∀ id : NodeId,
    (∀ p c, t.follow? id p = some c → p.length < depth) → ∀ (table : Table) (path : Path),
      Emits t focus (.node table id) path (renderAt t focus depth table path id).toList path := by
  induction depth with
  | zero =>
      intro id h
      cases h [] id rfl
  | succ depth ih =>
      intro id h table path
      cases hn : t.node? id with
      | none =>
          rw [renderAt_of_node?_eq_none hn]
          exact .absent hn
      | some n =>
          obtain ⟨plan, hplan⟩ := exists_planFor? t n table
          rw [renderAt_of_node? hn hplan]
          refine emits_of_planWithin? hn (emits_parts path _ fun c hc => ?_) 2 table hplan
          -- A path from the child is one step shorter than the path from the node.
          have hstep := step?_of_mem_drawn hn (mem_drawn_of_mem_calls hplan hc)
          refine ih c.id (fun p d hp => ?_) c.table (path ++ [c.segment])
          have hlen : (c.segment :: p).length < depth + 1 := h (c.segment :: p) d (by
            rw [t.follow?_cons, hstep]
            exact hp)
          exact Nat.lt_of_succ_lt_succ hlen

/-- From a node that reaches no cycle the renderer has one way to end. -/
theorem emits_iff (hacyclic : t.AcyclicFrom id) {out : List Fragment} {after : Path} :
    Emits t focus (.node table id) path out after ↔
      out = (renderAt t focus t.size table path id).toList ∧ after = path := by
  constructor
  · intro h
    obtain ⟨hafter, levels, hshown⟩ := h.shown
    refine ⟨?_, hafter⟩
    rw [← hshown _ (le_max_left levels t.size), Task.shown,
      renderAt_eq_of_size_le hacyclic focus (le_max_right levels t.size)]
  · rintro ⟨rfl, rfl⟩
    cases hn : t.node? id with
    | none =>
        rw [renderAt_of_node?_eq_none hn]
        exact .absent hn
    | some n =>
        exact emits_of_length_lt focus t.size id
          (fun p c hp => hacyclic.length_lt (t.has_of_node? hn) hp) table after

end emits

/-! ### The tables -/

/-- From a node that reaches no cycle, rendering through any table ends, in one way, at the path where
it began.  The tables of the families show what the main table shows, and so does that of the heads of
loops, but for a variable declaration: the main table puts it on a line of its own and ends it with a
semicolon, and in the head of a loop it stays on the line and has none.  Whatever the table, no more
than two hand-overs lead from it to one that has a rule for the node. -/
theorem tables_agree (t : Tree) {id : NodeId} (hacyclic : t.AcyclicFrom id) (focus : Option Path)
    (path : Path) :
    (∀ table out after, Emits t focus (.node table id) path out after ↔
      out = (renderAt t focus t.size table path id).toList ∧ after = path) ∧
    (∀ family, renderAt t focus t.size (.family family) path id =
      renderAt t focus t.size .main path id) ∧
    ((t.node? id).bind Node.kind? ≠ some .variableDeclaration →
      renderAt t focus t.size .loopHead path id = renderAt t focus t.size .main path id) ∧
    ((t.node? id).bind Node.kind? = some .variableDeclaration → ∃ mark parts,
      renderAt t focus t.size .main path id =
        some (.composite .block (some mark) (parts ++ [.leaf ⟨.punctuation, ";"⟩])) ∧
      renderAt t focus t.size .loopHead path id =
        some (.composite .inline (some mark) parts)) ∧
    ∀ n table, ∃ k ≤ 2, (rule? t n ((Table.next · n.form)^[k] table) n.form).isSome := by
  refine ⟨fun table out after => emits_iff hacyclic, fun family => ?_, fun h => ?_, fun h => ?_,
    exists_handOvers t⟩
  · exact renderAt_eq_main (fun hhead => Table.noConfusion hhead) t.size path
  · exact renderAt_eq_main (fun _ => h) t.size path
  · obtain ⟨n, hn, -⟩ := Option.bind_eq_some_iff.mp h
    obtain ⟨depth, hdepth⟩ := t.exists_size_eq_succ hn
    rw [hdepth]
    exact renderAt_variableDeclaration focus h depth path

/-- A loop over the properties of `x` that declares `x` in its head. -/
def counting : Array Node := #[
  .ofEntries (.known .forInStatement false) [(.left, some 1), (.right, some 3)],
  .ofEntries (.known .variableDeclaration .let) [(.declarations, some 2)],
  .ofEntries (.known .variableDeclarator ()) [(.identity, some 3)],
  .ofEntries (.known .identifier "x") []]

theorem tables_agree_counting : let t := Tree.ofNodes counting 0
    t.AcyclicFrom 1 ∧ ∃ mark parts,
      Emits t none (.node .main 1) [⟨"left", none⟩]
        [.composite .block (some mark) (parts ++ [.leaf ⟨.punctuation, ";"⟩])] [⟨"left", none⟩] ∧
      Emits t none (.node (.family .pattern) 1) [⟨"left", none⟩]
        [.composite .block (some mark) (parts ++ [.leaf ⟨.punctuation, ";"⟩])] [⟨"left", none⟩] ∧
      Emits t none (.node .loopHead 1) [⟨"left", none⟩]
        [.composite .inline (some mark) parts] [⟨"left", none⟩] := by
  intro t
  have hlater : ∀ owner, ∀ c ∈ t.children owner, owner < c := by
    intro owner c hc
    have hlt := t.lt_size_of_mem_children hc
    have table : ∀ owner < 4, ∀ c ∈ t.children owner, owner < c := by decide
    exact table owner hlt c hc
  have hacyclic := Tree.acyclicFrom_of_lt hlater 1
  obtain ⟨hemits, hfamily, -, hhead, -⟩ := tables_agree t hacyclic none [⟨"left", none⟩]
  obtain ⟨mark, parts, hmain, hloop⟩ := hhead rfl
  refine ⟨hacyclic, mark, parts, ?_, ?_, ?_⟩
  · exact (hemits .main _ _).mpr ⟨by rw [hmain]; rfl, rfl⟩
  · exact (hemits (.family .pattern) _ _).mpr ⟨by rw [hfamily, hmain]; rfl, rfl⟩
  · exact (hemits .loopHead _ _).mpr ⟨by rw [hloop]; rfl, rfl⟩

end SyntaxLens.Rendering
