import Mathlib.Data.List.Sort
import SyntaxLens.Proofs.Document.Layout
import SyntaxLens.Proofs.Document.Loading
import SyntaxLens.Proofs.Tree.Unfolding

/-! # Ids in the order of a walk

Ids are handed out as a document is read: to a node before its children, and to these in the order
of `Kind.reading`.  A walk goes by the order of the fields instead.  The two orders are the same for
all kinds but one, so a walk comes upon the ids in their order exactly if no do-while loop has both a
body and a test (`Document.load_preorder`).

* **Nodes.**  A node is built from children whose labels come in the order of reading and whose ids
  ascend (`Node.Built`).  Where fields are read in their order, the children of the node ascend
  (`Node.Built.children_pairwise`); a do-while loop shows its body before its test.
* **Trees.**  Behind a node come the nodes below it and nothing else, so a walk is in order as soon
  as the children of every node ascend; and siblings come up in their order, so they have to
  (`Draft.order_toTree_iff`). -/

namespace SyntaxLens

/-! ### Nodes -/

namespace Form

/-- The labels come in the order in which the places of the form are read. -/
def Arranged (f : Form) (labels : List Role) : Prop :=
  ∃ block : Place → List Role, (∀ p, ∀ r ∈ block p, r = p.role) ∧
    labels = f.reading.flatMap block

theorem reading_eq_places {f : Form} (h : f.kind? ≠ some .doWhileStatement) :
    f.reading = f.places := by
  cases f with
  | known kind _ => exact Kind.reading_eq_roles fun hkind => h (congrArg some hkind)
  | unknown _ => rfl

end Form

theorem Draft.granted_arranged : Granted Form.Arranged := by
  refine fun form rs => ⟨fun p => (childrenIn rs p).map Prod.fst, fun p r hr => ?_,
    List.map_flatMap⟩
  obtain ⟨e, he, rfl⟩ := List.mem_map.mp hr
  exact fst_of_mem_childrenIn rs p e he

namespace Node

/-- The node was made from children that were read in order and have ascending ids. -/
def Built (n : Node) : Prop :=
  ∃ form entries, n = ofEntries form entries ∧ form.Labels (entries.map Prod.fst) ∧
    form.Arranged (entries.map Prod.fst) ∧ (entries.filterMap Prod.snd).Pairwise (· < ·)

theorem flatMap_filter_reading {form : Form} {entries : List (Role × Option NodeId)}
    (h : form.Arranged (entries.map Prod.fst)) :
    (form.reading.flatMap fun p => entries.filter (·.1 == p.role)) = entries := by
  obtain ⟨block, hblock, hlabels⟩ := h
  exact flatMap_filter_of_blocks form.reading_nodup hblock hlabels

/-- Where the fields are read in their order, the children ascend. -/
theorem Built.children_pairwise {n : Node} (h : n.Built)
    (hkind : n.kind? ≠ some .doWhileStatement) : n.children.Pairwise (· < ·) := by
  obtain ⟨form, entries, rfl, hlabels, harranged, hids⟩ := h
  have hgroups := flatMap_filter_reading harranged
  have hreading : form.reading = form.places := Form.reading_eq_places hkind
  rw [hreading] at hgroups
  rwa [children_ofEntries form entries hlabels, hgroups]

/-- A do-while loop has its body before its test, and its test was read before its body. -/
theorem Built.doWhile {n : Node} (h : n.Built) (hkind : n.kind? = some .doWhileStatement) :
    n.children = (n.child? .body).toList ++ (n.child? .test).toList ∧
      ((n.child? .test).toList ++ (n.child? .body).toList).Pairwise (· < ·) := by
  obtain ⟨form, entries, rfl, hlabels, harranged, hids⟩ := h
  obtain ⟨traits, rfl⟩ : ∃ traits, form = .known .doWhileStatement traits := by
    cases form with
    | known kind traits =>
        obtain rfl := Option.some.inj hkind
        exact ⟨traits, rfl⟩
    | unknown _ => cases hkind
  have hbody : ((ofEntries (.known .doWhileStatement traits) entries).child? .body).toList =
      (entries.filter (·.1 == Role.body)).filterMap Prod.snd :=
    ids_gather entries (p := Role.one .body) (hlabels.count_le _ (by simp [Form.places, Kind.roles]))
  have htest : ((ofEntries (.known .doWhileStatement traits) entries).child? .test).toList =
      (entries.filter (·.1 == Role.test)).filterMap Prod.snd :=
    ids_gather entries (p := Role.one .test) (hlabels.count_le _ (by simp [Form.places, Kind.roles]))
  rw [← flatMap_filter_reading harranged] at hids
  rw [children_ofEntries _ entries hlabels, hbody, htest, ← List.filterMap_append,
    ← List.filterMap_append]
  refine ⟨?_, ?_⟩
  · simp [Form.places, Kind.roles, Role.one]
  · simpa [Form.reading, Kind.reading, Role.one] using hids

theorem Built.children_pairwise_iff {n : Node} (h : n.Built) : n.children.Pairwise (· < ·) ↔
    (n.kind? = some .doWhileStatement → n.child? .body = none ∨ n.child? .test = none) := by
  by_cases hkind : n.kind? = some .doWhileStatement
  · obtain ⟨hchildren, hids⟩ := h.doWhile hkind
    rw [hchildren]
    cases hbody : n.child? .body with
    | none => cases n.child? .test <;> simp
    | some body =>
        cases htest : n.child? .test with
        | none => simp
        | some test =>
            have hlt : test < body := by simpa [hbody, htest] using hids
            simp [hkind, hlt.le]
  · exact iff_of_true (h.children_pairwise hkind) fun hkind' => absurd hkind' hkind

end Node

/-! ### Trees -/

namespace Draft

theorem eq_of_mem_place {d : Draft} {next c : ℕ} (h : c ∈ (d.place next).1.toList) : c = next := by
  cases d with
  | gap _ | reference _ => cases h
  | node form children => exact List.mem_singleton.mp h

theorem length_pos_of_mem_place {d : Draft} {next c : ℕ} (h : c ∈ (d.place next).1.toList) :
    0 < (d.place next).2.length := by
  cases d with
  | gap _ | reference _ => cases h
  | node form children => exact Nat.succ_pos _

theorem le_of_mem_placeAll (ds : List (Role × Draft)) : ∀ next : ℕ,
    ∀ c ∈ (placeAll next ds).1.filterMap Prod.snd, next ≤ c := by
  induction ds with
  | nil => exact fun _ _ hc => absurd hc List.not_mem_nil
  | cons e rest ih =>
      intro next c hc
      rw [filterMap_placeAll_cons, List.mem_append] at hc
      rcases hc with hc | hc
      · exact (eq_of_mem_place hc).ge
      · exact (Nat.le_add_right next _).trans (ih _ c hc)

theorem placeAll_pairwise (ds : List (Role × Draft)) : ∀ next : ℕ,
    ((placeAll next ds).1.filterMap Prod.snd).Pairwise (· < ·) := by
  induction ds with
  | nil => exact fun _ => .nil
  | cons e rest ih =>
      intro next
      rw [filterMap_placeAll_cons, List.pairwise_append]
      refine ⟨?_, ih _, fun c hc c' hc' => ?_⟩
      · cases (e.2.place next).1 <;> simp
      · have hpos := length_pos_of_mem_place hc
        have hle := le_of_mem_placeAll rest _ c' hc'
        obtain rfl := eq_of_mem_place hc
        exact (Nat.lt_add_of_pos_right hpos).trans_le hle

mutual

theorem built_of_mem_place : ∀ {d : Draft},
    d.Everywhere (fun f labels => f.Labels labels ∧ f.Arranged labels) → ∀ (next : ℕ),
      ∀ n ∈ (d.place next).2, n.Built
  | .gap _, _, _, _, hn | .reference _, _, _, _, hn => by cases hn
  | .node form children, h, next, n, hn => by
      rcases List.mem_cons.mp hn with rfl | hn
      · refine ⟨form, _, rfl, ?_, ?_, placeAll_pairwise children (next + 1)⟩
        · rw [map_fst_placeAll]
          exact h.1.1
        · rw [map_fst_placeAll]
          exact h.1.2
      · exact built_of_mem_placeAll h.2 (next + 1) n hn

theorem built_of_mem_placeAll : ∀ {ds : List (Role × Draft)},
    EverywhereAll (fun f labels => f.Labels labels ∧ f.Arranged labels) ds → ∀ (next : ℕ),
      ∀ n ∈ (placeAll next ds).2, n.Built
  | [], _, _, _, hn => by cases hn
  | (_, d) :: rest, h, next, n, hn => by
      rcases List.mem_append.mp hn with hn | hn
      · exact built_of_mem_place h.1 next n hn
      · exact built_of_mem_placeAll h.2 _ n hn

end

section unfolding
variable {nodes : List Node} {t : Tree}

mutual

/-- If siblings ascend everywhere, the nodes of a draft are listed in the order of their ids. -/
theorem unfolds_place (ht : t.nodes = nodes.toArray)
    (hasc : ∀ id, (t.children id).Pairwise (· < ·)) : ∀ (d : Draft) (next depth : ℕ), d.Shaped →
      (d.place next).2 <+: nodes.drop next →
      ∃ out, t.Unfolds depth (d.place next).1.toList out ∧
        out.map Prod.fst = List.range' next (d.place next).2.length
  | .gap _, _, depth, _, _ | .reference _, _, depth, _, _ => ⟨[], .nil depth, rfl⟩
  | .node form children, next, depth, h, hplaced => by
      have hstored : Stored nodes next (.node form children) := ⟨rfl, hplaced⟩
      obtain ⟨hnode, hbelow⟩ := hstored.node? ht
      obtain ⟨inner, hin, hids⟩ :=
        unfolds_placeAll ht hasc children (next + 1) (depth + 1) h.2 hbelow
      have hchildren : t.children next =
          (placeAll (next + 1) children).1.filterMap Prod.snd := by
        have hperm := Node.children_ofEntries_perm form (placeAll (next + 1) children).1
          (by rw [map_fst_placeAll]; exact h.1)
        have hnext := hasc next
        rw [t.children_eq_elim, hnode, Option.elim_some] at hnext ⊢
        exact hperm.eq_of_pairwise' hnext (placeAll_pairwise children (next + 1))
      refine ⟨(next, depth) :: (inner ++ []), .cons (hchildren ▸ hin) (.nil depth), ?_⟩
      rw [List.append_nil, List.map_cons, hids, place, List.length_cons, List.range'_succ]

theorem unfolds_placeAll (ht : t.nodes = nodes.toArray)
    (hasc : ∀ id, (t.children id).Pairwise (· < ·)) :
    ∀ (ds : List (Role × Draft)) (next depth : ℕ), ShapedAll ds →
      (placeAll next ds).2 <+: nodes.drop next →
      ∃ out, t.Unfolds depth ((placeAll next ds).1.filterMap Prod.snd) out ∧
        out.map Prod.fst = List.range' next (placeAll next ds).2.length
  | [], _, depth, _, _ => ⟨[], .nil depth, rfl⟩
  | (r, d) :: rest, next, depth, h, hplaced => by
      obtain ⟨hfirst, hothers⟩ := prefix_drop_of_append hplaced
      obtain ⟨out, hout, hids⟩ := unfolds_place ht hasc d next depth h.1 hfirst
      obtain ⟨out', hout', hids'⟩ := unfolds_placeAll ht hasc rest _ depth h.2 hothers
      refine ⟨out ++ out', ?_, ?_⟩
      · rw [filterMap_placeAll_cons]
        exact hout.append hout'
      · rw [List.map_append, hids, hids', List.range'_append_1, placeAll, List.length_append]

end

end unfolding

/-- The walk comes upon the ids in their order exactly if siblings ascend everywhere. -/
theorem order_toTree_iff {form : Form} {children : List (Role × Draft)}
    (h : (Draft.node form children).Shaped) :
    let t := (Draft.node form children).toTree
    t.order = List.range t.size ↔ ∀ id, (t.children id).Pairwise (· < ·) := by
  intro t
  constructor
  · intro horder id
    have hsublist := (strict_toTree h).children_sublist_order id
    rw [show (Draft.node form children).toTree.order = List.range t.size from horder] at hsublist
    exact List.pairwise_lt_range.sublist hsublist
  · intro hasc
    have hnodes : t.nodes = ((Draft.node form children).place 0).2.toArray := rfl
    obtain ⟨out, hout, hids⟩ :=
      unfolds_place hnodes hasc (.node form children) 0 0 h (List.prefix_refl _)
    have hrange : out.map Prod.fst = List.range t.size := by
      rw [hids, List.range_eq_range']
      rfl
    have hwalk : out = t.walk := by
      refine hout.eq_walk (hrange ▸ List.nodup_range) fun c hc => ?_
      rw [hrange, List.mem_range] at hc
      exact decide_eq_true hc
    rw [Tree.order, ← hwalk, hrange]

end Draft

namespace Document

theorem built_of_load {json : Json} {t : Tree} (h : load json = .ok t) {id : NodeId} {n : Node}
    (hn : t.node? id = some n) : n.Built := by
  obtain ⟨d, hd, rfl⟩ := (load_eq_ok_iff json t).mp h
  have hmem : n ∈ (d.place 0).2 := by
    have hget : (d.place 0).2.toArray[id]? = some n := hn
    rw [List.getElem?_toArray] at hget
    exact List.mem_of_getElem? hget
  exact Draft.built_of_mem_place
    (hd.everywhere fun form rs => ⟨Draft.granted_labels form rs, Draft.granted_arranged form rs⟩)
    0 n hmem

/-- The ids of a tree that was loaded come up in a walk in the order in which they were handed out,
exactly if no do-while loop in it has both a body and a test.  Every node of another kind was read in
the order of its fields, so that its children ascend; a do-while loop shows its body first, and its
test was read first. -/
theorem load_preorder (json : Json) (t : Tree) (h : load json = .ok t) :
    (t.order = List.range t.size ↔ ∀ id n, t.node? id = some n →
      n.kind? = some .doWhileStatement → n.child? .body = none ∨ n.child? .test = none) ∧
    ∀ id n, t.node? id = some n →
      (n.kind? ≠ some .doWhileStatement → n.children.Pairwise (· < ·)) ∧
      (n.kind? = some .doWhileStatement →
        n.children = (n.child? .body).toList ++ (n.child? .test).toList ∧
        ((n.child? .test).toList ++ (n.child? .body).toList).Pairwise (· < ·)) := by
  refine ⟨?_, fun id n hn => ⟨(built_of_load h hn).children_pairwise, (built_of_load h hn).doWhile⟩⟩
  have horder : t.order = List.range t.size ↔ ∀ id, (t.children id).Pairwise (· < ·) := by
    obtain ⟨d, hd, rfl⟩ := (load_eq_ok_iff json t).mp h
    obtain ⟨hshaped, form, children, rfl⟩ := hd.shaped_node
    exact Draft.order_toTree_iff hshaped
  rw [horder]
  constructor
  · intro hasc id n hn
    have hchildren := hasc id
    rw [t.children_eq_elim, hn, Option.elim_some] at hchildren
    exact (built_of_load h hn).children_pairwise_iff.mp hchildren
  · intro hloops id
    rw [t.children_eq_elim]
    cases hn : t.node? id with
    | none => exact .nil
    | some n => exact (built_of_load h hn).children_pairwise_iff.mpr (hloops id n hn)

/-- A do-while loop with body and test. -/
def postTested : Json := .object [
  ("body", .object [("type", .string "EmptyStatement")]),
  ("test", .object [("name", .string "a"), ("type", .string "Identifier")]),
  ("type", .string "DoWhileStatement")]

/-- The test of the loop has the lower id, and the body comes first in the walk. -/
theorem order_postTested : ∃ t, load postTested = .ok t ∧ t.order = [0, 2, 1] ∧
    t.order ≠ List.range t.size :=
  ⟨_, rfl, by decide +kernel, by decide +kernel⟩

/-- A while loop with test and body, and a do-while loop without a test. -/
def loops : Json := .object [
  ("body", .array [
    .object [("body", .object [("type", .string "EmptyStatement")]),
      ("test", .object [("name", .string "a"), ("type", .string "Identifier")]),
      ("type", .string "WhileStatement")],
    .object [("body", .object [("type", .string "EmptyStatement")]),
      ("type", .string "DoWhileStatement")]]),
  ("type", .string "Program")]

theorem load_preorder_loops : ∃ t, load loops = .ok t ∧ t.order = List.range t.size ∧
    t.size = 6 ∧ ∃ n, t.node? 1 = some n ∧ n.children = [2, 3] ∧
      n.children.Pairwise (· < ·) := by
  refine ⟨_, rfl, ?_⟩
  obtain ⟨horder, hnodes⟩ := load_preorder loops _ rfl
  refine ⟨horder.mpr fun id n hn => ?_, by decide +kernel, _, rfl, by decide +kernel,
    (hnodes 1 _ rfl).1 (by decide +kernel)⟩
  have hmem := Array.mem_toList_iff.mpr (Array.mem_of_getElem? hn)
  refine (?_ : ∀ n ∈ _, n.kind? = some .doWhileStatement → n.child? .body = none ∨
    n.child? .test = none) n hmem
  decide +kernel

end Document

end SyntaxLens
