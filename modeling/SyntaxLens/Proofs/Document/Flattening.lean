import SyntaxLens.Proofs.Document.Loading

/-! # Flattening

A nested document is flattened by giving ids to its root and to any of the objects in the places of
its nodes: such an object becomes an entry of a table and makes way for its id.

* `Flattens` relates values in the places of nodes to what they are replaced by, and collects the
  entries.  Members that hold no children stay as they are (`AgreeBeside`), so a node keeps its form
  (`AgreeBeside.form_read`).
* Following the references gives back the drafts of the nested document (`Flattens.settles`).  Every
  id is taken by the one reference to it; the ids taken so far and those to come stay apart, because
  no two entries have the same id.
* So a flattening loads as the nested document does, as long as the search for a root finds the
  entry of its root (`Document.load_flattening`). -/

namespace SyntaxLens

theorem Role.name_ne_type (r : Role) : r.name ≠ "type" := by cases r <;> decide

/-- The traits of a node are read from members that hold none of its children. -/
theorem Kind.readTraits_congr (kind : Kind) {ms ms' : Json.Members}
    (h : ∀ key, (∀ p ∈ kind.roles, p.role.name ≠ key) →
      Json.Members.get? ms' key = Json.Members.get? ms key) :
    kind.readTraits ms' = kind.readTraits ms := by
  cases kind <;>
    simp (disch := decide) only [Kind.readTraits, Json.Members.string, Json.Members.flag, h] <;> rfl

namespace Document

/-! ### Flattenings -/

/-- The members of two objects agree apart from those that hold children. -/
def AgreeBeside (ms ms' : Json.Members) : Prop :=
  ∀ key, (∀ p ∈ (Json.object ms).tag?.elim [] Place.ofTag, p.role.name ≠ key) →
    Json.Members.get? ms' key = Json.Members.get? ms key

/-- Values that stand in the places of nodes, what they are replaced by, and the entries of those
that are replaced by an id. -/
inductive Flattens : List (Role × Json) → List (Role × Json) → List (ℕ × Json) → Prop
  | nil : Flattens [] [] []
  | other {r : Role} {value : Json} {vs vs' : List (Role × Json)} {entries : List (ℕ × Json)} :
      (∀ ms, value ≠ .object ms) → (∀ n, value ≠ .number n) → Flattens vs vs' entries →
      Flattens ((r, value) :: vs) ((r, value) :: vs') entries
  | inline {r : Role} {ms ms' : Json.Members} {vs vs' : List (Role × Json)}
      {below entries : List (ℕ × Json)} :
      AgreeBeside ms ms' → Flattens (Json.object ms).children (Json.object ms').children below →
      Flattens vs vs' entries →
      Flattens ((r, .object ms) :: vs) ((r, .object ms') :: vs') (below ++ entries)
  | entry {r : Role} {id : ℕ} {ms ms' : Json.Members} {vs vs' : List (Role × Json)}
      {below entries : List (ℕ × Json)} :
      AgreeBeside ms ms' → Flattens (Json.object ms).children (Json.object ms').children below →
      Flattens vs vs' entries →
      Flattens ((r, .object ms) :: vs) ((r, .number (.natural id)) :: vs')
        ((id, .object ms') :: below ++ entries)

section agree
variable {ms ms' : Json.Members} (h : AgreeBeside ms ms')
include h

theorem AgreeBeside.tag? : (Json.object ms').tag? = (Json.object ms).tag? := by
  have htype := h "type" fun p _ => p.role.name_ne_type
  simp only [Json.tag?, Json.get?, htype]

theorem AgreeBeside.form_read {tag : String} (htag : (Json.object ms).tag? = some tag) :
    Form.read tag ms' = Form.read tag ms := by
  unfold AgreeBeside at h
  rw [htag, Option.elim_some] at h
  unfold Form.read Place.ofTag at *
  cases hkind : Kind.ofTag? tag with
  | none => rfl
  | some kind =>
      rw [hkind] at h
      simp only [kind.readTraits_congr h]

end agree

/-! ### Following the references back -/

open Draft (inPlace read)

/-- What stands in places, with the references of a flattening. -/
def referring (vs : List (Role × Json)) : List (Role × Draft) :=
  vs.map fun e => (e.1, (read e.2).child)

/-- What stands in the places of a nested document. -/
def standing (vs : List (Role × Json)) : List (Role × Draft) := vs.map fun e => (e.1, inPlace e.2)

section settles
variable {table : NodeTable}

theorem settles_object {r : Role} {ms ms' : Json.Members} {ds out : List (Role × Draft)}
    {taken between taken' : Draft.Taken} (h : AgreeBeside ms ms')
    (hbelow : table.Settles (referring (Json.object ms').children) taken
      (standing (Json.object ms).children) between)
    (hrest : table.Settles ds between out taken') :
    table.Settles ((r, (read (.object ms')).child) :: ds) taken ((r, inPlace (.object ms)) :: out)
      taken' := by
  cases htag : (Json.object ms).tag? with
  | none =>
      -- Without a tag there are no children, so nothing is taken on the way.
      have htag' := h.tag?.trans htag
      rw [referring, standing, Json.children, Json.children, htag, htag'] at hbelow
      cases hbelow
      rw [inPlace, Draft.child_of_no_tag htag', Draft.child_of_no_tag htag]
      exact .gap hrest
  | some tag =>
      rw [Draft.child_of_tag (h.tag?.trans htag), h.form_read htag, Draft.inPlace_object htag]
      exact .node hbelow hrest

/-- The table holds the entries, their ids are all different, and none of them is taken. -/
structure Untaken (table : NodeTable) (entries : List (ℕ × Json)) (taken : Draft.Taken) : Prop where
  lookup : ∀ e ∈ entries, table.lookup e.1 = some (Draft.ofJson e.2)
  nodup : (entries.map Prod.fst).Nodup
  fresh : ∀ id ∈ entries.map Prod.fst, id ∉ taken

theorem Untaken.left {first rest : List (ℕ × Json)} {taken : Draft.Taken}
    (h : Untaken table (first ++ rest) taken) : Untaken table first taken where
  lookup e he := h.lookup e (List.mem_append_left _ he)
  nodup := (List.nodup_append.mp (List.map_append ▸ h.nodup)).1
  fresh id hid := h.fresh id (List.map_append ▸ List.mem_append_left _ hid)

theorem Untaken.right {first rest : List (ℕ × Json)} {taken between : Draft.Taken}
    (h : Untaken table (first ++ rest) taken)
    (hbetween : ∀ id ∈ between, id ∈ taken ∨ id ∈ first.map Prod.fst) :
    Untaken table rest between where
  lookup e he := h.lookup e (List.mem_append_right _ he)
  nodup := (List.nodup_append.mp (List.map_append ▸ h.nodup)).2.1
  fresh id hid hmem := by
    rcases hbetween id hmem with htaken | hfirst
    · exact h.fresh id (List.map_append ▸ List.mem_append_right _ hid) htaken
    · have hnd := h.nodup
      rw [List.map_append, List.nodup_append] at hnd
      exact hnd.2.2 id hfirst id hid rfl

theorem Untaken.tail {id : ℕ} {value : Json} {rest : List (ℕ × Json)} {taken : Draft.Taken}
    (h : Untaken table ((id, value) :: rest) taken) : Untaken table rest (id :: taken) where
  lookup e he := h.lookup e (List.mem_cons_of_mem _ he)
  nodup := (List.nodup_cons.mp h.nodup).2
  fresh id' hid' hmem := by
    rcases List.mem_cons.mp hmem with rfl | htaken
    · exact (List.nodup_cons.mp h.nodup).1 hid'
    · exact h.fresh id' (List.mem_cons_of_mem _ hid') htaken

/-- The entries of a flattening are taken, each by the reference that it made way for. -/
theorem Flattens.settles {vs vs' : List (Role × Json)} {entries : List (ℕ × Json)}
    (h : Flattens vs vs' entries) : ∀ taken : Draft.Taken, Untaken table entries taken →
      ∃ taken', table.Settles (referring vs') taken (standing vs) taken' ∧
        ∀ id ∈ taken', id ∈ taken ∨ id ∈ entries.map Prod.fst := by
  induction h with
  | nil => exact fun taken _ => ⟨taken, .nil taken, fun _ => .inl⟩
  | @other r value vs vs' entries hobject hnumber _ ih =>
      intro taken huntaken
      obtain ⟨taken', hsettles, hmem⟩ := ih taken huntaken
      have hgap : (read value).child = .gap .missing := by
        cases value with
        | object ms => exact absurd rfl (hobject ms)
        | number n => exact absurd rfl (hnumber n)
        | null | bool _ | string _ | array _ => rfl
      refine ⟨taken', ?_, hmem⟩
      rw [referring, standing, List.map_cons, List.map_cons, inPlace, hgap]
      exact .gap hsettles
  | @inline r ms ms' vs vs' below entries hagree _ _ ihbelow ih =>
      intro taken huntaken
      obtain ⟨between, hbelow, hbetween⟩ := ihbelow taken huntaken.left
      obtain ⟨taken', hrest, hmem⟩ := ih between (huntaken.right hbetween)
      refine ⟨taken', settles_object hagree hbelow hrest, fun id hid => ?_⟩
      rw [List.map_append, List.mem_append, ← or_assoc]
      exact (hmem id hid).imp_left (hbetween id)
  | @entry r id ms ms' vs vs' below entries hagree _ _ ihbelow ih =>
      intro taken huntaken
      have hlookup : table.lookup id = some (read (.object ms')).child :=
        huntaken.lookup _ List.mem_cons_self
      have hnot : id ∉ taken := huntaken.fresh id List.mem_cons_self
      obtain ⟨between, hbelow, hbetween⟩ := ihbelow (id :: taken) huntaken.tail.left
      obtain ⟨taken', hrest, hmem⟩ := ih between (huntaken.tail.right hbetween)
      refine ⟨taken', .entry hlookup hnot (settles_object hagree hbelow hrest), fun id' hid' => ?_⟩
      have hmem' : (id' ∈ id :: taken ∨ id' ∈ below.map Prod.fst) ∨ id' ∈ entries.map Prod.fst :=
        (hmem id' hid').imp_left (hbetween id')
      simp only [List.map_cons, List.map_append, List.mem_cons, List.mem_append] at hmem' ⊢
      tauto

end settles

/-! ### Loading a flattening -/

/-- The members of a table that is a flattening of a nested document, in any order.  The root has
the id `root`, and the ids are all different. -/
structure Flattening (nested : Json) (root : ℕ) (entries : List (ℕ × Json))
    (members : Json.Members) : Prop where
  flattens : ∃ r, Flattens [(r, nested)] [(r, .number (.natural root))] entries
  nodup : (entries.map Prod.fst).Nodup
  perm : (members.map fun m => (Decimal.readNat64? m.1.toList, m.2)).Perm
    (entries.map fun e => (some e.1, e.2))

/-- The search for a root ends at `root`: it is a file and no file has a lower id, or there is no
file and it is a program and no program has a lower id. -/
def RootFound (nested : Json) (root : ℕ) (entries : List (ℕ × Json)) : Prop :=
  (nested.tag? = some "File" ∧ ∀ e ∈ entries, e.2.tag? = some "File" → root ≤ e.1) ∨
  ((∀ e ∈ entries, e.2.tag? ≠ some "File") ∧
    nested.tag? = some "Program" ∧ ∀ e ∈ entries, e.2.tag? = some "Program" → root ≤ e.1)

namespace Flattening

variable {nested : Json} {root : ℕ} {entries : List (ℕ × Json)} {members : Json.Members}
  (h : Flattening nested root entries members)
include h

theorem mem_members_iff (id : ℕ) (value : Json) :
    (∃ m ∈ members, Decimal.readNat64? m.1.toList = some id ∧ m.2 = value) ↔
      (id, value) ∈ entries := by
  have hmem := h.perm.mem_iff (a := (some id, value))
  rw [List.mem_map, List.mem_map] at hmem
  constructor
  · rintro ⟨m, hm, hid, rfl⟩
    obtain ⟨e, he, heq⟩ := hmem.mp ⟨m, hm, by rw [hid]⟩
    obtain ⟨hid', hvalue⟩ := Prod.mk.inj heq
    rwa [← Option.some.inj hid', ← hvalue]
  · intro he
    obtain ⟨m, hm, heq⟩ := hmem.mpr ⟨_, he, rfl⟩
    exact ⟨m, hm, Prod.mk.inj heq⟩

/-- Every key is an id. -/
theorem isSome_key {m : String × Json} (hm : m ∈ members) :
    (Decimal.readNat64? m.1.toList).isSome := by
  obtain ⟨e, _, heq⟩ := List.mem_map.mp (h.perm.subset (List.mem_map_of_mem hm))
  rw [← (Prod.mk.inj heq).1, Option.isSome_some]

theorem type_eq_none : Json.Members.get? members "type" = none := by
  rw [Json.Members.get?, List.lookup_eq_none_iff]
  intro m hm
  have hkey := h.isSome_key hm
  by_contra htype
  have hname : "type" = m.1 := by simpa using htype
  rw [← hname] at hkey
  exact absurd hkey (by decide)

theorem exists_table : ∃ table, NodeTable.ofMembers? members = some table ∧
    (table.map Prod.fst).Nodup ∧
    ∀ id d, (id, d) ∈ table ↔ ∃ value, (id, value) ∈ entries ∧ d = Draft.ofJson value := by
  obtain ⟨table, htable⟩ := Option.isSome_iff_exists.mp <|
    (NodeTable.isSome_ofMembers?_iff members).mpr fun m hm => h.isSome_key hm
  have hids : (members.map fun m => Decimal.readNat64? m.1.toList).Nodup := by
    have hperm := h.perm.map Prod.fst
    rw [List.map_map, List.map_map] at hperm
    rw [show (members.map fun m => Decimal.readNat64? m.1.toList).Nodup ↔ _ from hperm.nodup_iff]
    have hsome := h.nodup.map (Option.some_injective ℕ)
    rwa [List.map_map] at hsome
  refine ⟨table, htable, NodeTable.nodup_of_ofMembers? htable, fun id d => ?_⟩
  rw [NodeTable.mem_iff htable hids]
  constructor
  · rintro ⟨m, hm, hid, rfl⟩
    exact ⟨m.2, (h.mem_members_iff id m.2).mp ⟨m, hm, hid, rfl⟩, rfl⟩
  · rintro ⟨value, he, rfl⟩
    obtain ⟨m, hm, hid, rfl⟩ := (h.mem_members_iff id value).mpr he
    exact ⟨m, hm, hid, rfl⟩

/-- The root is an entry with the tag that it had. -/
theorem exists_root : ∃ value, (root, value) ∈ entries ∧ value.tag? = nested.tag? := by
  obtain ⟨r, hflattens⟩ := h.flattens
  cases hflattens with
  | other _ hnumber _ => exact absurd rfl (hnumber _)
  | entry hagree _ _ => exact ⟨_, List.mem_cons_self, hagree.tag?⟩

theorem lowest?_eq {table : NodeTable} (htable : ∀ id d, (id, d) ∈ table ↔
      ∃ value, (id, value) ∈ entries ∧ d = Draft.ofJson value) {kind : Kind}
    (htag : nested.tag? = some kind.tag)
    (hle : ∀ e ∈ entries, e.2.tag? = some kind.tag → root ≤ e.1) :
    table.lowest? kind = some root := by
  obtain ⟨value, hmem, hvalue⟩ := h.exists_root
  rw [NodeTable.lowest?_eq_some_iff]
  refine ⟨⟨_, (htable root _).mpr ⟨value, hmem, rfl⟩, ?_⟩, ?_⟩
  · rw [Draft.kind?_ofJson, hvalue, htag]
  · rintro ⟨id, d⟩ he hkind
    obtain ⟨value', hmem', rfl⟩ := (htable id d).mp he
    exact hle (id, value') hmem' ((Draft.kind?_ofJson value' kind).mp hkind)

theorem root?_eq {table : NodeTable} (htable : ∀ id d, (id, d) ∈ table ↔
      ∃ value, (id, value) ∈ entries ∧ d = Draft.ofJson value)
    (hroot : RootFound nested root entries) : table.root? = some root := by
  rw [NodeTable.root?]
  rcases hroot with ⟨htag, hle⟩ | ⟨hnone, htag, hle⟩
  · have hfile : table.lowest? .file = some root := h.lowest?_eq htable htag hle
    rw [hfile, Option.some_or]
  · have hfile : table.lowest? .file = none := by
      rw [NodeTable.lowest?_eq_none_iff]
      rintro ⟨id, d⟩ he hkind
      obtain ⟨value, hmem, rfl⟩ := (htable id d).mp he
      exact hnone (id, value) hmem ((Draft.kind?_ofJson value .file).mp hkind)
    have hprogram : table.lowest? .program = some root := h.lowest?_eq htable htag hle
    rw [hfile, hprogram, Option.none_or]

end Flattening

/-- A flattening of a nested document loads as the document does, if the search for a root finds the
entry of its root. -/
theorem load_flattening (nested : Json) (root : ℕ) (entries : List (ℕ × Json))
    (members : Json.Members) (h : Flattening nested root entries members)
    (hroot : RootFound nested root entries) :
    ∃ t, load nested = .ok t ∧ load (.object members) = .ok t := by
  obtain ⟨table, htable, hnd, hmem⟩ := h.exists_table
  have huntaken : Untaken table entries [] := by
    refine ⟨fun e he => ?_, h.nodup, fun id _ => List.not_mem_nil⟩
    exact (table.lookup_eq_some_iff hnd e.1 _).mpr ((hmem e.1 _).mpr ⟨e.2, he, rfl⟩)
  obtain ⟨r, hflattens⟩ := h.flattens
  obtain ⟨taken, hsettles, _⟩ := hflattens.settles [] huntaken
  obtain ⟨tag, htag⟩ : ∃ tag, nested.tag? = some tag := by
    rcases hroot with ⟨htag, _⟩ | ⟨_, htag, _⟩
    · exact ⟨"File", htag⟩
    · exact ⟨"Program", htag⟩
  have hflat : Drafts (.object members) (inPlace nested) :=
    .flat h.type_eq_none htable (h.root?_eq hmem hroot) hsettles
  have hnested : Drafts nested (inPlace nested) := drafts_of_tag htag
  exact ⟨_, (load_eq_ok_iff _ _).mpr ⟨_, hnested, rfl⟩, (load_eq_ok_iff _ _).mpr ⟨_, hflat, rfl⟩⟩

def debugger : Json := .object [("type", .string "DebuggerStatement")]

/-- A program with a child that may be named by an id, an empty place, and a child that stands
there. -/
def mixed (child : Json) : Json.Members :=
  [("type", .string "Program"), ("body", .array [child, .null, debugger])]

theorem load_flattening_mixed :
    Flattening (.object (mixed debugger)) 9
      [(9, .object (mixed (.number (.natural 2)))), (2, debugger)]
      [("2", debugger), ("9", .object (mixed (.number (.natural 2))))] ∧
    ∃ t, load (.object (mixed debugger)) = .ok t ∧
      load (.object [("2", debugger), ("9", .object (mixed (.number (.natural 2))))]) = .ok t := by
  have hagree : AgreeBeside (mixed debugger) (mixed (.number (.natural 2))) := by
    intro key hkey
    have hbody : "body" ≠ key := hkey ⟨.body, .many⟩ (by decide)
    have hother : (key == "body") = false := by simpa using hbody.symm
    simp [Json.Members.get?, mixed, List.lookup_cons, hother]
  have hleaf : Flattens debugger.children debugger.children [] := .nil
  have hchildren : Flattens (Json.object (mixed debugger)).children
      (Json.object (mixed (.number (.natural 2)))).children [(2, debugger)] :=
    .entry (fun _ _ => rfl) hleaf
      (.other (by simp) (by simp) (.inline (fun _ _ => rfl) hleaf .nil))
  have hflattening : Flattening (.object (mixed debugger)) 9
      [(9, .object (mixed (.number (.natural 2)))), (2, debugger)]
      [("2", debugger), ("9", .object (mixed (.number (.natural 2))))] :=
    ⟨⟨.body, .entry hagree hchildren .nil⟩, by decide, .swap _ _ _⟩
  exact ⟨hflattening, load_flattening _ 9 _ _ hflattening (.inr ⟨by decide, rfl, by decide⟩)⟩

end Document

end SyntaxLens
