import SyntaxLens.Proofs.Focus.Grammar
import SyntaxLens.Proofs.Focus.Moves
import SyntaxLens.Proofs.Rendering.Labels

/-! # Paths in writing

What is written for a path reads back as this path (`written_paths_parse`).

* Names are written as they are, so not every path could be told from its text: a point, a bracket
  or a blank at the wrong place is taken for something else.  `Path.Legible` says which paths can,
  and `Path.parse_text` reads them back.
* Whatever was read is legible (`Path.legible_of_parse`).  Signs, leading zeros and blanks around
  the text are gone after one reading, and nothing else changes.
* The names of roles are plain words, so a path that leads to a node of a tree is legible, and so is
  the path of a focus, whatever was done to it (`Focus.Grammatical.run`).  Indices are words of 64
  bits: the lists of a tree must not be longer than such words can count (`Tree.Addressable`). -/

namespace SyntaxLens

/-! ### Texts -/

namespace Text

theorem ends_append_concat {first : List Char} (h : first ≠ []) (rest : List Char) (c : Char) :
    ends (first ++ (rest ++ [c])) = (first.head?, some c) := by
  rw [ends, List.head?_append_of_ne_nil _ h, ← List.append_assoc, List.getLast?_concat]

/-- Joined texts begin as the first of them and end as the last. -/
theorem ends_intercalate (separator : List Char) {texts : List (List Char)}
    (h : ∀ cs ∈ texts, cs ≠ []) : ends (separator.intercalate texts) =
      (((texts.map ends).head?).bind Prod.fst, ((texts.map ends).getLast?).bind Prod.snd) := by
  induction texts with
  | nil => rfl
  | cons cs texts ih =>
      obtain ⟨hcs, htexts⟩ := List.forall_mem_cons.mp h
      cases texts with
      | nil => simp [ends]
      | cons ds texts =>
          have hrest : separator.intercalate (ds :: texts) ≠ [] := by
            have hds := htexts ds List.mem_cons_self
            cases texts <;> simp [hds]
          have hlast := congrArg Prod.snd (ih htexts)
          rw [List.intercalate_cons_cons, List.append_assoc, ends,
            List.head?_append_of_ne_nil _ hcs, List.getLast?_append_of_ne_nil _ (by simp [hrest]),
            List.getLast?_append_of_ne_nil _ hrest]
          exact Prod.ext rfl hlast

theorem bare_intercalate (separator : List Char) {texts : List (List Char)}
    (hne : ∀ cs ∈ texts, cs ≠ []) (h : ∀ cs ∈ texts, Bare cs) :
    Bare (separator.intercalate texts) := by
  unfold Bare
  rw [ends_intercalate separator hne]
  constructor
  · intro c hc
    obtain ⟨_, hfirst, hc⟩ := Option.bind_eq_some_iff.mp hc
    obtain ⟨cs, hcs, rfl⟩ := List.mem_map.mp (List.mem_of_mem_head? hfirst)
    exact (h cs hcs).1 c hc
  · intro c hc
    obtain ⟨_, hlast, hc⟩ := Option.bind_eq_some_iff.mp hc
    obtain ⟨cs, hcs, rfl⟩ := List.mem_map.mp (List.mem_of_mem_getLast? hlast)
    exact (h cs hcs).2 c hc

/-- Texts with the same ends have no blank at the ends once they are joined, or both have. -/
theorem bare_intercalate_congr (separator : List Char) {texts texts' : List (List Char)}
    (hne : ∀ cs ∈ texts, cs ≠ []) (hne' : ∀ cs ∈ texts', cs ≠ [])
    (h : texts.map ends = texts'.map ends) :
    Bare (separator.intercalate texts) ↔ Bare (separator.intercalate texts') := by
  unfold Bare
  rw [ends_intercalate separator hne, ends_intercalate separator hne', h]

end Text

/-! ### Segments -/

namespace Segment

/-- The name ends where the segment does or at the bracket of the index, and the index is a word. -/
structure Legible (s : Segment) : Prop where
  name_ne_nil : s.field.toList ≠ []
  point_notMem : '.' ∉ s.field.toList
  bracket_notMem : '[' ∉ s.field.toList
  index_lt : ∀ i, s.index = some i → i < 2 ^ 64

variable {s : Segment}

theorem toList_text_of_some {i : ℕ} (h : s.index = some i) :
    s.text.toList = s.field.toList ++ '[' :: (Nat.toDigits 10 i ++ [']']) := by
  simp [text, h, Nat.toList_repr]

theorem toList_text_of_none (h : s.index = none) : s.text.toList = s.field.toList := by
  rw [text, h]

/-- A legible segment is spelled by its text. -/
theorem Legible.spelled (h : s.Legible) : Spelled s.text.toList s where
  name_ne_nil := h.name_ne_nil
  point_notMem := h.point_notMem
  bracket_notMem := h.bracket_notMem
  text := by
    cases hindex : s.index with
    | none => exact .inl ⟨rfl, toList_text_of_none hindex⟩
    | some i =>
        have hdigits := Decimal.denotes_toDigits (h.index_lt i hindex)
        exact .inr ⟨i, _, rfl, ⟨_, hdigits, rfl⟩, toList_text_of_some hindex⟩

namespace Spelled

variable {cs : List Char} (h : Spelled cs s)
include h

theorem legible : s.Legible where
  name_ne_nil := h.name_ne_nil
  point_notMem := h.point_notMem
  bracket_notMem := h.bracket_notMem
  index_lt i hi := by
    rcases h.text with ⟨hnone, -⟩ | ⟨j, rest, hj, ⟨numeral, hnumeral, -⟩, -⟩
    · cases hnone.symm.trans hi
    · obtain rfl := Option.some.inj (hj.symm.trans hi)
      exact hnumeral.1

/-- Whatever spells a segment begins and ends as what is written for it. -/
theorem ends_eq : Text.ends cs = Text.ends s.text.toList := by
  rcases h.text with ⟨hindex, rfl⟩ | ⟨i, rest, hindex, ⟨numeral, -, rfl⟩, rfl⟩
  · rw [toList_text_of_none hindex]
  · -- Both begin with the name and end with the bracket of the index.
    rw [toList_text_of_some hindex, ← List.cons_append, ← List.cons_append,
      Text.ends_append_concat h.name_ne_nil, Text.ends_append_concat h.name_ne_nil]

theorem eq_of_index_eq_none (hindex : s.index = none) : cs = s.field.toList := by
  rcases h.text with ⟨-, hcs⟩ | ⟨i, -, hsome, -⟩
  · exact hcs
  · cases hindex.symm.trans hsome

end Spelled

end Segment

/-! ### Paths -/

namespace Path

/-- The path can be told from its text: its segments are legible, no blank at an end of the text is
taken off, and the text is that of the root for the root only. -/
structure Legible (p : Path) : Prop where
  segments : ∀ s ∈ p, s.Legible
  bare : Text.Bare p.text.toList
  ne_root : p ≠ [⟨rootText, none⟩]

theorem toList_text {p : Path} (h : p ≠ []) :
    p.text.toList = ['.'].intercalate (p.map fun s => s.text.toList) := by
  have hempty : p.isEmpty = false := by simpa using h
  rw [text, hempty, if_neg (by simp), String.toList_intercalate, List.map_map]
  rfl

/-- A path of legible segments is spelled by its text, unless this is the text of the root. -/
theorem Legible.spelled {p : Path} (h : p.Legible) : Spelled p.text.toList p := by
  by_cases hp : p = []
  · subst hp
    exact .inl ⟨.inr rfl, rfl⟩
  · have htexts : List.Forall₂ Segment.Spelled (p.map fun s => s.text.toList) p := by
      rw [List.forall₂_map_left_iff, List.forall₂_same]
      exact fun s hs => (h.segments s hs).spelled
    refine .inr ⟨fun hroot => ?_, hp, _, toList_text hp, htexts⟩
    -- The text is one piece, and read as a segment it is the one that is left out.
    have hone := pieces_of_spelled htexts hp (toList_text hp)
    rw [hroot, show Text.pieces '.' rootText.toList = [rootText.toList] by decide, eq_comm,
      List.map_eq_singleton_iff] at hone
    obtain ⟨s, rfl, hs⟩ := hone
    have hspelled := (h.segments s List.mem_cons_self).spelled
    rw [hs, Segment.spelled_of_notMem (by decide), String.ofList_toList] at hspelled
    exact h.ne_root (by rw [hspelled.2.2])

/-- A legible path reads back. -/
theorem parse_text {p : Path} (h : p.Legible) : parse p.text = .ok p := by
  rw [parse_eq_ok_iff, Text.trim_eq_self h.bare]
  exact h.spelled

/-- What was read is legible. -/
theorem legible_of_parse {raw : String} {p : Path} (h : parse raw = .ok p) : p.Legible := by
  have hbare := Text.bare_trim raw.toList
  obtain ⟨-, rfl⟩ | ⟨hroot, hp, texts, hbody, htexts⟩ := parse_eq_ok_iff.mp h
  · exact ⟨fun s hs => (by cases hs), by decide, by simp⟩
  · have hlegible : ∀ s ∈ p, s.Legible :=
      ((List.forall₂_and_left _ _).mp (htexts.flip.imp fun _ _ hs => ⟨hs.legible, hs⟩)).1
    refine ⟨hlegible, ?_, ?_⟩
    · -- The text begins and ends as the one that was read, of which the blanks were cut off.
      have hmap : texts.map Text.ends = (p.map fun s => s.text.toList).map Text.ends := by
        rw [← List.forall₂_eq_eq_eq, List.map_map, List.forall₂_map_left_iff,
          List.forall₂_map_right_iff]
        exact htexts.imp fun _ _ hs => hs.ends_eq
      have hne : ∀ cs ∈ texts, cs ≠ [] :=
        ((List.forall₂_and_left _ _).mp (htexts.imp fun _ _ hs => ⟨hs.text_ne_nil, hs⟩)).1
      have hne' : ∀ cs ∈ p.map fun s => s.text.toList, cs ≠ [] := by
        intro cs hcs
        obtain ⟨s, hs, rfl⟩ := List.mem_map.mp hcs
        exact (hlegible s hs).spelled.text_ne_nil
      rw [toList_text hp, ← Text.bare_intercalate_congr _ hne hne' hmap, ← hbody]
      exact hbare
    · rintro rfl
      obtain ⟨cs, rest, hcs, hrest, rfl⟩ := List.forall₂_cons_right_iff.mp htexts
      rw [List.forall₂_nil_right_iff.mp hrest, List.intercalate_singleton] at hbody
      exact hroot (hbody.trans (hcs.eq_of_index_eq_none rfl))

end Path

/-! ### Names of the grammar -/

/-- The name of a role is one word, and not that of the root. -/
theorem Role.name_plain (r : Role) : r.name.toList ≠ [] ∧ '.' ∉ r.name.toList ∧
    '[' ∉ r.name.toList ∧ Text.Bare r.name.toList ∧ r.name ≠ Path.rootText := by
  cases r <;> decide

/-- The segment names a role and, if it has an index, one that is a word. -/
structure Segment.Grammatical (s : Segment) : Prop where
  named : ∃ r : Role, s.field = r.name
  index_lt : ∀ i, s.index = some i → i < 2 ^ 64

namespace Segment.Grammatical

variable {s : Segment} (h : s.Grammatical)
include h

theorem legible : s.Legible := by
  obtain ⟨r, hr⟩ := h.named
  obtain ⟨hne, hpoint, hbracket, -, -⟩ := r.name_plain
  exact ⟨hr ▸ hne, hr ▸ hpoint, hr ▸ hbracket, h.index_lt⟩

theorem bare_text : Text.Bare s.text.toList := by
  obtain ⟨r, hr⟩ := h.named
  obtain ⟨hne, -, -, hbare, -⟩ := r.name_plain
  cases hindex : s.index with
  | none => rw [toList_text_of_none hindex, hr]; exact hbare
  | some i =>
      unfold Text.Bare
      rw [toList_text_of_some hindex, hr, ← List.cons_append, Text.ends_append_concat hne]
      exact ⟨hbare.1, by simp [Text.isBlank]⟩

end Segment.Grammatical

theorem Path.legible_of_grammatical {p : Path} (h : ∀ s ∈ p, s.Grammatical) : p.Legible where
  segments s hs := (h s hs).legible
  bare := by
    by_cases hp : p = []
    · subst hp
      decide
    · rw [toList_text hp]
      apply Text.bare_intercalate
      all_goals
        intro cs hcs
        obtain ⟨s, hs, rfl⟩ := List.mem_map.mp hcs
      · exact (h s hs).legible.spelled.text_ne_nil
      · exact (h s hs).bare_text
  ne_root := by
    rintro rfl
    obtain ⟨r, hr⟩ := (h _ List.mem_cons_self).named
    exact r.name_plain.2.2.2.2 hr.symm

theorem Path.parse_text_of_grammatical {p : Path} (h : ∀ s ∈ p, s.Grammatical) :
    Path.parse p.text = .ok p :=
  parse_text (legible_of_grammatical h)

/-! ### Paths into a tree -/

namespace Tree

/-- No list of a node is longer than words of 64 bits can count. -/
def Addressable (t : Tree) : Prop :=
  ∀ n ∈ t.nodes, ∀ r ∈ Role.all, (n.slots r).length ≤ 2 ^ 64

instance (t : Tree) : Decidable t.Addressable := by
  unfold Addressable
  infer_instance

namespace Addressable

variable {t : Tree} (h : t.Addressable)
include h

/-- Whatever leads to a child is a segment of the grammar. -/
theorem grammatical_of_at? {owner c : NodeId} {n : Node} {s : Segment}
    (hn : t.node? owner = some n) (hat : n.at? s = some c) : s.Grammatical := by
  obtain ⟨f, hf, hat⟩ := Option.bind_eq_some_iff.mp hat
  obtain ⟨r, hr, hname⟩ := (n.fieldNamed?_eq_some_iff _ f).mp hf
  refine ⟨⟨r, hname.symm⟩, fun i hi => ?_⟩
  rw [hi] at hat
  cases f with
  | one _ => cases hat
  | many slots =>
      obtain ⟨hlt, -⟩ := List.getElem?_eq_some_iff.mp (Option.join_eq_some_iff.mp hat)
      have hlen := h n (Array.mem_of_getElem? hn) r r.mem_all
      rw [Node.slots, n.field?_of_mem hr] at hlen
      exact hlt.trans_le hlen

theorem grammatical_of_follow? {p : Path} : ∀ {id c : NodeId}, t.follow? id p = some c →
    ∀ s ∈ p, s.Grammatical := by
  induction p with
  | nil => simp
  | cons s p ih =>
      intro id c hfollow
      rw [follow?_cons] at hfollow
      obtain ⟨d, hstep, hbelow⟩ := Option.bind_eq_some_iff.mp hfollow
      obtain ⟨⟨n, hn, hat⟩, -⟩ := (t.step?_eq_some_iff id s d).mp hstep
      exact List.forall_mem_cons.mpr ⟨h.grammatical_of_at? hn hat, ih hbelow⟩

theorem grammatical_of_resolve {p : Path} {c : NodeId} (hp : t.resolve p = some c) :
    ∀ s ∈ p, s.Grammatical :=
  h.grammatical_of_follow? (t.resolve_eq_follow? (has_root_of_resolve hp) p ▸ hp)

theorem grammatical_move {p : Path} (hp : ∀ s ∈ p, s.Grammatical) (d : Direction) :
    ∀ s ∈ t.move p d, s.Grammatical := by
  have hside : ∀ forward q, t.sidestep? p forward = some q → ∀ s ∈ q, s.Grammatical := by
    intro forward q hq
    obtain ⟨before, name, i, j, below, owner, n, c, rfl, rfl, -, hn, hat⟩ := sidestep?_cases hq
    exact List.forall_mem_append.mpr ⟨(List.forall_mem_append.mp hp).1,
      List.forall_mem_singleton.mpr (h.grammatical_of_at? hn hat)⟩
  unfold Tree.move
  cases hid : t.resolve p with
  | none => exact hp
  | some id =>
      cases d with
      | up => exact fun s hs => hp s (List.mem_of_mem_dropLast hs)
      | down =>
          dsimp only
          cases hs : t.descent? id with
          | none => exact hp
          | some s =>
              obtain ⟨n, hn⟩ := t.exists_node? (t.has_of_mem_order (t.mem_order_of_resolve hid))
              obtain ⟨⟨c, hat⟩, -⟩ := descent?_cases hn hs
              exact List.forall_mem_append.mpr
                ⟨hp, List.forall_mem_singleton.mpr (h.grammatical_of_at? hn hat)⟩
      | next =>
          dsimp only
          cases hq : t.sidestep? p true with
          | none => exact hp
          | some q => exact hside true q hq
      | prev =>
          dsimp only
          cases hq : t.sidestep? p false with
          | none => exact hp
          | some q => exact hside false q hq

end Addressable

end Tree

/-! ### Paths of a focus -/

namespace Focus

/-- The path goes along names of the grammar, as all paths into the tree do. -/
structure Grammatical (f : Focus) : Prop where
  addressable : f.tree.Addressable
  segments : ∀ s ∈ f.path, s.Grammatical

theorem grammatical_ofTree {t : Tree} (h : t.Addressable) : (ofTree t).Grammatical where
  addressable := h
  segments _ hs := absurd hs List.not_mem_nil

namespace Grammatical

variable {f : Focus} (h : f.Grammatical)
include h

theorem setPath (p : Path) : (f.setPath p).1.Grammatical := by
  unfold Focus.setPath
  split
  · rename_i hp
    obtain ⟨c, hc⟩ := Option.isSome_iff_exists.mp hp
    exact ⟨h.addressable, h.addressable.grammatical_of_resolve hc⟩
  · exact h

theorem setNode (id : NodeId) : (f.setNode id).1.Grammatical := by
  unfold Focus.setNode
  split
  · exact h.setPath _
  · exact h

theorem after {command : Command} (htree : ∀ t, command = .tree t → t.Addressable) :
    (f.after command).Grammatical := by
  cases command with
  | move d => exact ⟨h.addressable, h.addressable.grammatical_move h.segments d⟩
  | path p => exact h.setPath p
  | node id => exact h.setNode id
  | tree t => exact grammatical_ofTree (htree t rfl)

theorem run {commands : List Command}
    (htrees : ∀ t, Command.tree t ∈ commands → t.Addressable) :
    (commands.foldl Focus.after f).Grammatical := by
  refine List.foldlRecOn commands Focus.after h fun f hf command hcommand => hf.after ?_
  rintro t rfl
  exact htrees t hcommand

end Grammatical

end Focus

/-- What is written for a path reads back as this path.  This is so for whatever was read as a path,
so a second reading changes nothing any more; and in every tree, with shared children, cycles or
children outside the arena as it may have, for the paths that lead to a node, those of the nodes,
those in a fragment, and the path of a focus after whatever was done to it. -/
theorem written_paths_parse :
    (∀ raw p, Path.parse raw = .ok p → Path.parse p.text = .ok p) ∧
    ∀ t : Tree, t.Addressable →
      (∀ p, (t.resolve p).isSome → Path.parse p.text = .ok p) ∧
      (∀ id p, t.pathOf? id = some p → Path.parse p.text = .ok p) ∧
      (∀ focus id f, t.render focus id = some f →
        ∀ m ∈ f.nodes, Path.parse m.path.text = .ok m.path) ∧
      ∀ commands : List Focus.Command, (∀ u, .tree u ∈ commands → u.Addressable) →
        let f := commands.foldl Focus.after (.ofTree t)
        Path.parse f.path.text = .ok f.path := by
  refine ⟨fun raw p h => Path.parse_text (Path.legible_of_parse h), fun t ht => ?_⟩
  have hresolve : ∀ {p c}, t.resolve p = some c → Path.parse p.text = .ok p :=
    fun hp => Path.parse_text_of_grammatical (ht.grammatical_of_resolve hp)
  refine ⟨?_, ?_, ?_, ?_⟩
  · intro p hp
    obtain ⟨c, hc⟩ := Option.isSome_iff_exists.mp hp
    exact hresolve hc
  · exact fun id p hp => hresolve (t.resolve_of_pathOf? hp)
  · intro focus id f hf m hm
    cases hbase : t.pathOf? id with
    | some base => exact hresolve (Tree.mark_of_pathOf? hbase hf hm).2.1
    | none =>
        have hfollow := (Tree.mark_of_pathOf?_eq_none hbase hf hm).1
        exact Path.parse_text_of_grammatical (ht.grammatical_of_follow? hfollow)
  · intro commands htrees
    exact Path.parse_text_of_grammatical ((Focus.grammatical_ofTree ht).run htrees).segments

theorem written_paths_parse_coil :
    let t := Tree.ofNodes Focus.coil 0
    let q : Path := [⟨"body", some 2⟩, ⟨"expression", none⟩, ⟨"argument", none⟩]
    let f := [Focus.Command.move .down, .move .next, .path q, .move .down].foldl Focus.after
      (.ofTree t)
    Path.parse " body[+007].a ]b " = .ok [⟨"body", some 7⟩, ⟨"a ]b", none⟩] ∧
      Path.parse "body[7].a ]b" = .ok [⟨"body", some 7⟩, ⟨"a ]b", none⟩] ∧
      (t.resolve q).isSome ∧ Path.parse q.text = .ok q ∧
      f.path = q ++ [⟨"body", some 0⟩] ∧ Path.parse f.path.text = .ok f.path := by
  intro t q f
  have ht : t.Addressable := by decide
  have hq : (t.resolve q).isSome := by decide
  have hraw : Path.parse " body[+007].a ]b " = .ok [⟨"body", some 7⟩, ⟨"a ]b", none⟩] := by rfl
  have htext : Path.text [⟨"body", some 7⟩, ⟨"a ]b", none⟩] = "body[7].a ]b" := by rfl
  obtain ⟨hparse, htree⟩ := written_paths_parse
  obtain ⟨hresolve, -, -, hfocus⟩ := htree t ht
  exact ⟨hraw, htext ▸ hparse _ _ hraw, hq, hresolve q hq, by decide, hfocus _ (by simp)⟩

end SyntaxLens
