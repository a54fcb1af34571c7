import Mathlib.Data.List.Induction
import Mathlib.Data.List.Nodup
import SyntaxLens.Document.References

/-! # Node tables

The members of an object are a table if all keys are ids (`NodeTable.isSome_ofMembers?_iff`).  The
table has an entry for every id among the keys, read from the last member for it
(`NodeTable.mem_ofMembers?_iff`), and each id once (`NodeTable.nodup_of_ofMembers?`), so that an
entry is what its id is looked up as (`NodeTable.lookup_eq_some_iff`).  The search for the root goes
by kind and then by id (`NodeTable.lowest?_eq_some_iff`). -/

namespace SyntaxLens

theorem mem_of_lookup_eq_some {α β : Type} [BEq α] [LawfulBEq α] {l : List (α × β)} {k : α} {b : β}
    (h : l.lookup k = some b) : (k, b) ∈ l := by
  obtain ⟨before, after, rfl, _⟩ := List.lookup_eq_some_iff.mp h
  exact List.mem_append_right _ List.mem_cons_self

namespace NodeTable

/-! ### Reading -/

section reading
variable {ms : Json.Members} {table : NodeTable}

theorem ofMembers?_concat (ms : Json.Members) (m : String × Json) :
    ofMembers? (ms ++ [m]) = (ofMembers? ms).bind fun table =>
      (Decimal.readNat64? m.1.toList).map fun id => table.put id (Draft.ofJson m.2) := by
  simp only [ofMembers?, List.foldl_append, List.foldl_cons, List.foldl_nil, Option.bind_eq_bind,
    Option.map_eq_bind]
  rfl

/-- The members of an object are a table if all keys are ids. -/
theorem isSome_ofMembers?_iff (ms : Json.Members) :
    (ofMembers? ms).isSome ↔ ∀ m ∈ ms, (Decimal.readNat64? m.1.toList).isSome := by
  induction ms using List.reverseRecOn with
  | nil => simp [ofMembers?]
  | append_singleton ms m ih =>
      rw [ofMembers?_concat, List.forall_mem_append, List.forall_mem_singleton, ← ih]
      cases ofMembers? ms <;> simp

theorem mem_put {id id' : ℕ} {d d' : Draft} :
    (id, d) ∈ table.put id' d' ↔ id = id' ∧ d = d' ∨ id ≠ id' ∧ (id, d) ∈ table := by
  rw [put, List.mem_cons, Prod.mk.injEq, List.mem_filter, bne_iff_ne, and_comm (a := id ≠ id')]

/-- The entry of an id was read from the last of the members for it. -/
theorem mem_ofMembers?_iff (h : ofMembers? ms = some table) (id : ℕ) (d : Draft) :
    (id, d) ∈ table ↔ ∃ before m after, ms = before ++ m :: after ∧
      Decimal.readNat64? m.1.toList = some id ∧ d = Draft.ofJson m.2 ∧
      ∀ m' ∈ after, Decimal.readNat64? m'.1.toList ≠ some id := by
  induction ms using List.reverseRecOn generalizing table with
  | nil =>
      obtain rfl := Option.some.inj h
      simp
  | append_singleton ms last ih =>
      rw [ofMembers?_concat] at h
      obtain ⟨table, htable, h⟩ := Option.bind_eq_some_iff.mp h
      obtain ⟨lastId, hlast, rfl⟩ := Option.map_eq_some_iff.mp h
      rw [mem_put, ih htable]
      constructor
      · rintro (⟨rfl, rfl⟩ | ⟨hne, before, m, after, rfl, hm, rfl, hafter⟩)
        · exact ⟨ms, last, [], rfl, hlast, rfl, by simp⟩
        · refine ⟨before, m, after ++ [last], by simp, hm, rfl, ?_⟩
          rw [List.forall_mem_append, List.forall_mem_singleton, hlast]
          exact ⟨hafter, fun heq => hne (Option.some.inj heq).symm⟩
      · rintro ⟨before, m, after, hsplit, hm, rfl, hafter⟩
        cases after using List.reverseRecOn with
        | nil =>
            obtain ⟨-, hsame⟩ := List.append_inj' hsplit rfl
            obtain rfl := (List.cons.inj hsame).1
            exact .inl ⟨Option.some.inj (hm.symm.trans hlast), rfl⟩
        | append_singleton after m' =>
            obtain ⟨rfl, hsame⟩ :=
              List.append_inj' (hsplit.trans (List.append_assoc before (m :: after) [m']).symm) rfl
            obtain rfl := (List.cons.inj hsame).1
            rw [List.forall_mem_append, List.forall_mem_singleton, hlast] at hafter
            exact .inr ⟨fun heq => hafter.2 (congrArg some heq.symm), before, m, after, rfl, hm,
              rfl, hafter.1⟩

theorem exists_of_mem_ofMembers? (h : ofMembers? ms = some table) {e : ℕ × Draft} (he : e ∈ table) :
    ∃ m ∈ ms, Decimal.readNat64? m.1.toList = some e.1 ∧ e.2 = Draft.ofJson m.2 := by
  obtain ⟨before, m, after, rfl, hm, hd, -⟩ := (mem_ofMembers?_iff h e.1 e.2).mp he
  exact ⟨m, by simp, hm, hd⟩

/-- Of members for one id the last counts, so no id has two entries. -/
theorem nodup_of_ofMembers? (h : ofMembers? ms = some table) : (table.map Prod.fst).Nodup := by
  induction ms using List.reverseRecOn generalizing table with
  | nil =>
      obtain rfl := Option.some.inj h
      exact List.nodup_nil
  | append_singleton ms m ih =>
      rw [ofMembers?_concat] at h
      obtain ⟨before, hbefore, h⟩ := Option.bind_eq_some_iff.mp h
      obtain ⟨id, hid, rfl⟩ := Option.map_eq_some_iff.mp h
      rw [put, List.map_cons, List.nodup_cons]
      refine ⟨fun hmem => ?_, (ih hbefore).sublist (List.filter_sublist.map Prod.fst)⟩
      obtain ⟨e, he, rfl⟩ := List.mem_map.mp hmem
      simpa using (List.mem_filter.mp he).2

/-- If all keys are different ids, every member has its entry. -/
theorem mem_iff (h : ofMembers? ms = some table)
    (hids : (ms.map fun m => Decimal.readNat64? m.1.toList).Nodup) (id : ℕ) (d : Draft) :
    (id, d) ∈ table ↔
      ∃ m ∈ ms, Decimal.readNat64? m.1.toList = some id ∧ d = Draft.ofJson m.2 := by
  refine ⟨fun he => exists_of_mem_ofMembers? h he, ?_⟩
  rintro ⟨m, hm, hid, rfl⟩
  obtain ⟨before, after, rfl⟩ := List.append_of_mem hm
  refine (mem_ofMembers?_iff h id _).mpr ⟨before, m, after, rfl, hid, rfl, fun m' hm' hid' => ?_⟩
  rw [List.map_append, List.map_cons] at hids
  refine (List.nodup_cons.mp hids.of_append_right).1 ?_
  rw [hid, ← hid']
  exact List.mem_map_of_mem hm'

end reading

/-! ### Looking up -/

section lookup
variable (table : NodeTable)

theorem lookup_eq_some_iff (hnd : (table.map Prod.fst).Nodup) (id : ℕ) (d : Draft) :
    table.lookup id = some d ↔ (id, d) ∈ table := by
  refine ⟨mem_of_lookup_eq_some, fun hmem => ?_⟩
  have hsome : (table.lookup id).isSome := List.lookup_isSome_iff.mpr ⟨_, hmem, by simp⟩
  obtain ⟨d', hd'⟩ := Option.isSome_iff_exists.mp hsome
  have heq : (id, d') = (id, d) :=
    List.inj_on_of_nodup_map hnd (mem_of_lookup_eq_some hd') hmem rfl
  rw [hd', (Prod.mk.inj heq).2]

theorem lowest?_eq_some_iff (kind : Kind) (id : ℕ) :
    table.lowest? kind = some id ↔ (∃ d, (id, d) ∈ table ∧ d.kind? = some kind) ∧
      ∀ e ∈ table, e.2.kind? = some kind → id ≤ e.1 := by
  simp only [lowest?, List.min?_eq_some_iff, List.mem_map, List.mem_filter, decide_eq_true_eq]
  constructor
  · rintro ⟨⟨e, ⟨hmem, hkind⟩, rfl⟩, hle⟩
    exact ⟨⟨e.2, hmem, hkind⟩, fun e' hmem' hkind' => hle _ ⟨e', ⟨hmem', hkind'⟩, rfl⟩⟩
  · rintro ⟨⟨d, hmem, hkind⟩, hle⟩
    refine ⟨⟨(id, d), ⟨hmem, hkind⟩, rfl⟩, ?_⟩
    rintro _ ⟨e, ⟨hmem', hkind'⟩, rfl⟩
    exact hle e hmem' hkind'

theorem lowest?_eq_none_iff (kind : Kind) :
    table.lowest? kind = none ↔ ∀ e ∈ table, e.2.kind? ≠ some kind := by
  simp [lowest?, List.min?_eq_none_iff, List.filter_eq_nil_iff]

/-- The entry to start from is a node. -/
theorem exists_of_root? {table : NodeTable} {id : ℕ} (h : table.root? = some id) :
    ∃ form children, (id, Draft.node form children) ∈ table := by
  have hlowest : ∃ kind, table.lowest? kind = some id := by
    rcases Option.or_eq_some_iff.mp h with h | ⟨_, h⟩
    · exact ⟨_, h⟩
    · exact ⟨_, h⟩
  obtain ⟨kind, hkind⟩ := hlowest
  obtain ⟨⟨d, hmem, hd⟩, _⟩ := (table.lowest?_eq_some_iff kind id).mp hkind
  cases d with
  | gap _ | reference _ => cases hd
  | node form children => exact ⟨form, children, hmem⟩

end lookup

end NodeTable

end SyntaxLens
