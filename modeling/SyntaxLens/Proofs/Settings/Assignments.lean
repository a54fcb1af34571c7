import SyntaxLens.Proofs.Settings.Account
import SyntaxLens.Settings.Layers

/-! # Assignments

The library for settings keeps one table of values, and merges what layers say into it key by key
(`account_mergesByKey`).  What is put at a key changes what is under its first name
(`exists_putAt_eq_set`), from what was there; the laws follow by induction on the key.

A table is put entry by entry, so that it can be taken apart beforehand (`putAt_eq_foldl`).  One
without entries is kept as it is: it makes a table where there was none. -/

namespace SyntaxLens

open Settings (Key Step)

namespace Value

/-! ### What stands in tables -/

def isTable : Value → Bool
  | .table .. => true
  | _ => false

def isAtom : Value → Bool
  | .atom .. => true
  | _ => false

/-- The value at names below each other. -/
def at? (v : Value) : List String → Option Value
  | [] => some v
  | n :: names => (v.get? n).bind (at? · names)

theorem at?_singleton (v : Value) (n : String) : v.at? [n] = v.get? n := by
  rw [at?]
  cases v.get? n <;> rfl

theorem at?_append (v : Value) (names more : List String) :
    v.at? (names ++ more) = (v.at? names).bind (at? · more) := by
  induction names generalizing v with
  | nil => rfl
  | cons n names ih =>
      rw [List.cons_append, at?, at?]
      cases v.get? n with
      | none => rfl
      | some w => exact ih w

theorem lookup_cons_ite (e : String × Value) (es : Entries) (n : String) :
    (e :: es).lookup n = if n = e.1 then some e.2 else es.lookup n := by
  rw [List.lookup_cons]
  by_cases h : n = e.1
  · simp [h]
  · simp [h, beq_false_of_ne h]

theorem lookup_set (name : String) (v : Value) (es : Entries) (n : String) :
    (Entries.set name v es).lookup n = if n = name then some v else es.lookup n := by
  induction es with
  | nil => exact lookup_cons_ite (name, v) [] n
  | cons e rest ih =>
      rw [lookup_cons_ite, Entries.set]
      by_cases hm : e.1 = name
      · rw [if_pos hm, lookup_cons_ite, ← hm]
        split_ifs <;> rfl
      · rw [if_neg hm, lookup_cons_ite, ih]
        by_cases hn : n = e.1
        · rw [if_pos hn, if_pos hn, if_neg (hn ▸ hm)]
        · rw [if_neg hn, if_neg hn]

theorem get?_set (target : Value) (name : String) (v : Value) (n : String) :
    (target.set name v).get? n = if n = name then some v else target.get? n :=
  lookup_set name v target.entries n

theorem at?_set (target : Value) (name : String) (v : Value) (n : String) (names : List String) :
    (target.set name v).at? (n :: names) =
      if n = name then v.at? names else target.at? (n :: names) := by
  rw [at?, get?_set]
  split_ifs <;> rfl

theorem set_set (target : Value) (name : String) (v w : Value) :
    (target.set name v).set name w = target.set name w := by
  have hentries (es : Entries) :
      Entries.set name w (Entries.set name v es) = Entries.set name w es := by
    induction es with
    | nil => simp [Entries.set]
    | cons e rest ih =>
        rw [Entries.set, Entries.set]
        split_ifs with h
        · rw [Entries.set, if_pos h]
        · rw [Entries.set, if_neg h, ih]
  exact congrArg (table · _) (hentries target.entries)

section
variable {v w : Value} {names : List String}

theorem at?_of_entries (h : v.entries = []) (n : String) (names : List String) :
    v.at? (n :: names) = none := by
  rw [at?, get?, h]
  rfl

/-- Below a name, nothing is the same as something without entries. -/
theorem at?_getD (h : v.entries = []) (o : Option Value) (hnames : names ≠ []) :
    (o.getD v).at? names = o.bind (·.at? names) := by
  cases o with
  | some w => rfl
  | none =>
      obtain ⟨n, names, rfl⟩ := List.exists_cons_of_ne_nil hnames
      exact at?_of_entries h n names

theorem at?_of_getD (h : v.entries = []) (hatom : v.isAtom = false) {o : Option Value}
    (hat : (o.getD v).at? names = some w) (hw : w.isAtom = true) :
    o.bind (·.at? names) = some w := by
  cases names with
  | cons n names => exact at?_getD h o (List.cons_ne_nil _ _) ▸ hat
  | nil =>
      cases o with
      | some w' => exact hat
      | none =>
          cases hat
          cases hatom.symm.trans hw

end

/-! ### What a key changes -/

/-- What is put at a key changes what is under its first name. -/
theorem exists_putAt_eq_set (n : String) (k : Key) (v : Value) : ∃ change : Option Value → Value,
    ∀ target : Value, target.putAt (.name n :: k) v =
      target.set (Name.fold n) (change (target.get? (Name.fold n))) := by
  cases k with
  | nil =>
      cases v with
      | table es origin => exact ⟨fun w => (w.getD empty).putAll es, fun _ => by rw [putAt, put]⟩
      | nil | atom | list => exact ⟨fun _ => _, fun _ => rfl⟩
  | cons s k => exact ⟨fun w => (w.getD .nil).putAt (s :: k) v, fun _ => rfl⟩

theorem at?_putAt_index (target : Value) (i : Int) (k : Key) (v : Value) (n : String)
    (names : List String) : (target.putAt (.index i :: k) v).at? (n :: names) = none := by
  cases k <;> exact at?_of_entries rfl n names

section
variable {target target' : Value} {names : List String}

theorem eq_of_at?_nil (h : target'.at? [] = target.at? []) : target' = target := Option.some.inj h

/-- What is below a name after a change of it depends on what was there. -/
theorem at?_set_congr {f : Value → Value} (n : String) {v : Value} (hv : v.entries = [])
    (hf : ∀ {t t' : Value} {names}, t'.at? names = t.at? names →
      (f t').at? names = (f t).at? names)
    (h : target'.at? names = target.at? names) :
    (target'.set n (f ((target'.get? n).getD v))).at? names =
      (target.set n (f ((target.get? n).getD v))).at? names := by
  cases names with
  | nil => rw [eq_of_at?_nil h]
  | cons m names =>
      rw [at?_set, at?_set]
      split_ifs with hm
      · subst hm
        cases names with
        | nil => rw [← at?_singleton, ← at?_singleton, h]
        | cons m' names =>
            refine hf ?_
            rw [at?_getD hv _ (List.cons_ne_nil _ _), at?_getD hv _ (List.cons_ne_nil _ _)]
            exact h
      · exact h

mutual

theorem at?_put_congr {target target' : Value} {names : List String}
    (h : target'.at? names = target.at? names) (n : String) :
    ∀ v : Value, (target'.put n v).at? names = (target.put n v).at? names
  | .table es origin => by
      rw [put, put]
      exact at?_set_congr _ rfl (fun h => at?_putAll_congr h es) h
  | .nil | .atom .. | .list .. =>
      at?_set_congr (f := fun _ => _) (v := .nil) _ rfl (fun _ => rfl) h

theorem at?_putAll_congr {target target' : Value} {names : List String}
    (h : target'.at? names = target.at? names) :
    ∀ es : Entries, (target'.putAll es).at? names = (target.putAll es).at? names
  | [] => h
  | (n, v) :: rest => by
      rw [putAll, putAll]
      exact at?_putAll_congr (at?_put_congr h n v) rest

end

/-- What is at some names after a value is put depends on what was there. -/
theorem at?_putAt_congr (h : target'.at? names = target.at? names) (k : Key) (v : Value) :
    (target'.putAt k v).at? names = (target.putAt k v).at? names := by
  induction k generalizing target target' names with
  | nil => exact h
  | cons s k ih =>
      cases s with
      | index i =>
          cases names with
          | nil => rw [eq_of_at?_nil h]
          | cons n names => rw [at?_putAt_index, at?_putAt_index]
      | name n =>
          cases k with
          | nil => exact at?_put_congr h n v
          | cons s k => exact at?_set_congr _ rfl (fun h => ih h) h

theorem at?_putAt_of_parts (target : Value) {k : Key}
    (h : k.fold.parts (Key.ofNames names) = true) (v : Value) :
    (target.putAt k v).at? names = target.at? names := by
  induction k generalizing target names with
  | nil => simp [Key.fold, Key.parts] at h
  | cons s k ih =>
      cases names with
      | nil => cases s <;> simp [Key.fold, Step.fold, Key.ofNames, Key.parts] at h
      | cons m names =>
          cases s with
          | index i => simp [Key.fold, Step.fold, Key.parts] at h
          | name n =>
              by_cases hm : m = Name.fold n
              · subst hm
                replace h : Key.parts (Key.fold k) (Key.ofNames names) = true :=
                  (if_pos rfl).symm.trans h
                have hnames : names ≠ [] := by
                  rintro rfl
                  simp [Key.ofNames, Key.parts] at h
                cases k with
                | nil => simp [Key.fold, Key.parts] at h
                | cons s k =>
                    rw [putAt, at?_set, if_pos rfl, ih _ h, at?_getD rfl _ hnames, at?]
                    exact List.cons_ne_nil _ _
              · obtain ⟨change, hchange⟩ := exists_putAt_eq_set n k v
                rw [hchange, at?_set, if_neg hm]

/-- A table without entries leaves what is in the tables at its key and below. -/
theorem at?_putAt_empty (target : Value) {k : Key} {group : List String}
    (h : k.fold <+: Key.ofNames group) (origin : Option String) (name : String) :
    (target.putAt k (.table [] origin)).at? (group ++ [name]) = target.at? (group ++ [name]) := by
  induction k generalizing target group with
  | nil => rfl
  | cons s k ih =>
      cases group with
      | nil => simp [Key.fold, Key.ofNames] at h
      | cons m group =>
          obtain ⟨hs, hrest⟩ := List.cons_prefix_cons.mp h
          have hnames : group ++ [name] ≠ [] := by simp
          cases s with
          | index i => cases hs
          | name n =>
              obtain rfl : Name.fold n = m := Step.name.inj hs
              rw [List.cons_append]
              cases k with
              | nil => rw [putAt, put, at?_set, if_pos rfl, putAll, at?_getD rfl _ hnames, at?]
              | cons s k =>
                  rw [putAt, at?_set, if_pos rfl, ih _ hrest, at?_getD rfl _ hnames, at?]
                  exact List.cons_ne_nil _ _

theorem fold_cons_eq_iff {n : String} {k : Key} {names : List String} :
    Key.fold (.name n :: k) = Key.ofNames (Name.fold n :: names) ↔
      Key.fold k = Key.ofNames names := by
  simp [Key.fold, Step.fold, Key.ofNames, Name.fold]

theorem eq_of_at?_put {v w : Value} {n : String} (hv : v.entries = [])
    (h : (target.put n v).at? (Name.fold n :: names) = some w) (hw : w.isAtom = true) :
    if names = [] ∧ ¬ v.isTable then w = v else target.at? (Name.fold n :: names) = some w := by
  cases v with
  | table es origin =>
      obtain rfl : es = [] := hv
      rw [put, at?_set, if_pos rfl, putAll] at h
      rw [if_neg (by simp [isTable])]
      exact at?_of_getD rfl rfl h hw
  | nil | atom | list =>
      replace h := (at?_set target _ _ _ names).symm.trans h
      rw [if_pos rfl] at h
      cases names with
      | nil =>
          rw [if_pos ⟨rfl, by simp [isTable]⟩]
          exact (Option.some.inj h).symm
      | cons m names =>
          rw [at?_of_entries rfl] at h
          cases h

/-- A single value behind what is put: the value that was put if its key is there and it is no
table, and what was there before otherwise. -/
theorem eq_of_at?_putAt {v w : Value} {k : Key} (hk : k ≠ [])
    (hv : k.isDotted = true → v.entries = []) (h : (target.putAt k v).at? names = some w)
    (hw : w.isAtom = true) : if Key.fold k = Key.ofNames names ∧ ¬ v.isTable then w = v
      else target.at? names = some w := by
  induction k generalizing target names with
  | nil => exact absurd rfl hk
  | cons s k ih =>
      cases s with
      | index i =>
          cases names with
          | nil => cases k <;> cases h <;> cases hw
          | cons n names =>
              rw [at?_putAt_index] at h
              cases h
      | name n =>
          obtain ⟨change, hchange⟩ := exists_putAt_eq_set n k v
          cases names with
          | nil =>
              rw [hchange] at h
              cases h
              cases hw
          | cons m names =>
              by_cases hm : m = Name.fold n
              · subst hm
                simp only [fold_cons_eq_iff]
                cases k with
                | nil =>
                    have hnil : Key.fold [] = Key.ofNames names ↔ names = [] := by
                      cases names <;> simp [Key.fold, Key.ofNames]
                    simp only [hnil]
                    exact eq_of_at?_put (hv rfl) h hw
                | cons s k =>
                    rw [putAt, at?_set, if_pos rfl] at h
                    · have hrest := ih (List.cons_ne_nil _ _)
                        (fun hdotted => hv (by simpa [Key.isDotted] using hdotted)) h
                      split_ifs at hrest ⊢ with hkey
                      · exact hrest
                      · exact at?_of_getD rfl rfl hrest hw
                    · exact List.cons_ne_nil _ _
              · rw [hchange, at?_set, if_neg hm] at h
                rw [if_neg]
                · exact h
                · rintro ⟨hfold, -⟩
                  exact hm (Step.name.inj (List.cons.inj hfold).1).symm

end

/-! ### Taking tables apart -/

mutual

/-- What is in a table, and in the tables in it, by the names that lead there. A table without
entries counts as being in itself, as does any other value. -/
def leaves : Value → List (List String × Value)
  | .table es origin => if es.isEmpty then [([], .table es origin)] else leavesAll es
  | v => [([], v)]

def leavesAll : List (String × Value) → List (List String × Value)
  | [] => []
  | (n, v) :: rest => ((leaves v).map fun l => (n :: l.1, l.2)) ++ leavesAll rest

end

mutual

theorem entries_of_mem_leaves : ∀ (v : Value) {l : List String × Value}, l ∈ leaves v →
    l.2.entries = []
  | .table es origin, l, h => by
      rw [leaves] at h
      split_ifs at h with hes
      · obtain rfl := List.mem_singleton.mp h
        exact List.isEmpty_iff.mp hes
      · exact entries_of_mem_leavesAll es h
  | .nil, _, h | .atom .., _, h | .list .., _, h => List.mem_singleton.mp h ▸ rfl

theorem entries_of_mem_leavesAll : ∀ (es : Entries) {l : List String × Value}, l ∈ leavesAll es →
    l.2.entries = []
  | (n, v) :: rest, l, h => by
      rcases List.mem_append.mp h with h | h
      · obtain ⟨l', hl', rfl⟩ := List.mem_map.mp h
        exact entries_of_mem_leaves (l := l') v hl'
      · exact entries_of_mem_leavesAll rest h

end

theorem leaves_ne_nil : ∀ v : Value, leaves v ≠ []
  | .table [] _ => by simp [leaves]
  | .table ((n, v) :: rest) _ => by
      simp [leaves, leavesAll, leaves_ne_nil v]
  | .nil | .atom .. | .list .. => by simp [leaves]

/-- Puts values at keys, one after the other. -/
def putEach (target : Value) (ps : List (Key × Value)) : Value :=
  ps.foldl (fun target p => target.putAt p.1 p.2) target

theorem putEach_append (target : Value) (ps qs : List (Key × Value)) :
    target.putEach (ps ++ qs) = (target.putEach ps).putEach qs := List.foldl_append

/-- Values that are put below the same name go into what is there. -/
theorem putEach_below (target : Value) (n : String) {ps : List (Key × Value)} (hps : ps ≠ [])
    (hkeys : ∀ p ∈ ps, p.1 ≠ []) : target.putEach (ps.map fun p => (.name n :: p.1, p.2)) =
      target.set (Name.fold n) (((target.get? (Name.fold n)).getD .nil).putEach ps) := by
  induction ps generalizing target with
  | nil => exact absurd rfl hps
  | cons p ps ih =>
      have hput : target.putAt (.name n :: p.1) p.2 = target.set (Name.fold n)
          (((target.get? (Name.fold n)).getD .nil).putAt p.1 p.2) := by
        obtain ⟨s, k, hk⟩ := List.exists_cons_of_ne_nil (hkeys p List.mem_cons_self)
        rw [hk]
        rfl
      cases ps with
      | nil => exact hput
      | cons q ps =>
          rw [List.map_cons, putEach, List.foldl_cons, ← putEach,
            ih _ (List.cons_ne_nil _ _) fun p hp => hkeys p (List.mem_cons_of_mem _ hp), hput,
            set_set, get?_set, if_pos rfl]
          rfl

/-- The parts of a value with the keys that they go to when it is put at a key. -/
def keyed (k : Key) (ls : List (List String × Value)) : List (Key × Value) :=
  ls.map fun l => (k ++ Key.ofNames l.1, l.2)

theorem keyed_names (n : String) (ls : List (List String × Value)) :
    keyed [] (ls.map fun l => (n :: l.1, l.2)) = keyed [.name n] ls := by
  simp [keyed, Key.ofNames]

theorem keyed_cons (s : Step) (k : Key) (ls : List (List String × Value)) :
    keyed (s :: k) ls = (keyed k ls).map fun p => (s :: p.1, p.2) := by
  simp [keyed]

theorem ne_nil_of_mem_keyed_leavesAll : ∀ (es : Entries), ∀ p ∈ keyed [] (leavesAll es), p.1 ≠ []
  | (n, v) :: rest, p, hp => by
      rw [leavesAll, keyed, List.map_append, List.mem_append] at hp
      rcases hp with hp | hp
      · obtain ⟨_, hl, rfl⟩ := List.mem_map.mp hp
        obtain ⟨l, -, rfl⟩ := List.mem_map.mp hl
        exact List.cons_ne_nil _ _
      · exact ne_nil_of_mem_keyed_leavesAll rest p hp

mutual

/-- To put a table is to put what is in it. -/
theorem put_eq_putEach (target : Value) (n : String) : ∀ v : Value,
    target.put n v = target.putEach (keyed [.name n] v.leaves)
  | .table [] origin => rfl
  | .table ((m, v) :: rest) origin => by
      have hsome : keyed [] (leavesAll ((m, v) :: rest)) ≠ [] := by
        simp [keyed, leavesAll, leaves_ne_nil]
      have hnone : empty.put m v = nil.put m v := by cases v <;> rfl
      rw [leaves, if_neg (by simp), keyed_cons, putEach_below _ _ hsome, put,
        ← putAll_eq_putEach _ ((m, v) :: rest)]
      · cases target.get? (Name.fold n) with
        | none => rw [Option.getD_none, Option.getD_none, putAll, putAll, hnone]
        | some w => rfl
      · exact ne_nil_of_mem_keyed_leavesAll _
  | .nil | .atom .. | .list .. => rfl

theorem putAll_eq_putEach (target : Value) : ∀ es : Entries,
    target.putAll es = target.putEach (keyed [] (leavesAll es))
  | [] => rfl
  | (n, v) :: rest => by
      rw [putAll, leavesAll, keyed, List.map_append, ← keyed, ← keyed, keyed_names, putEach_append,
        put_eq_putEach target n v, putAll_eq_putEach _ rest]

end

theorem putAt_eq_putEach (target : Value) {k : Key} (hk : k.isDotted = true) (v : Value) :
    target.putAt k v = target.putEach (keyed k v.leaves) := by
  induction k generalizing target with
  | nil => cases hk
  | cons s k ih =>
      cases s with
      | index i => simp [Key.isDotted] at hk
      | name n =>
          cases k with
          | nil => exact put_eq_putEach target n v
          | cons s k =>
              rw [keyed_cons, putEach_below, ← ih]
              · rfl
              · simpa [Key.isDotted] using hk
              · simp [keyed, leaves_ne_nil]
              · intro p hp
                obtain ⟨l, -, rfl⟩ := List.mem_map.mp hp
                exact List.cons_ne_nil _ _

end Value

namespace Settings

/-! ### The account -/

/-- The account of the library. -/
def account : Account Value Value.Entries SettingsError where
  parse? := Key.parse?
  Finds s name := s.settingsFile? name ≠ none
  collect := collect
  empty := []
  put := putEntry
  at? es := (Value.table es none).at?
  isTable := Value.isTable
  isSingle := Value.isAtom
  leaves := Value.leaves
  text v := v.text.toOption
  nat v := v.nat.toOption
  nat16 v := v.nat16.toOption
  bool v := v.bool.toOption

theorem library_mergesInOrder : library.MergesInOrder account where
  build s sources := by
    have hsources (b : Builder) : sources.foldl library.addSource b =
        { b with sources := b.sources ++ sources } := by
      induction sources generalizing b with
      | nil => simp
      | cons source sources ih =>
          rw [List.foldl_cons, ih, List.append_cons]
          rfl
    rw [hsources]
    rfl

theorem library_overridesLast : library.OverridesLast account where
  setOverride_addSource b source key v := by
    simp only [library]
    cases Key.parse? key <;> rfl
  setOverride_of_parse? {key k} hk b v := by
    refine ⟨{ b with overrides := b.overrides ++ [(k, v)] }, ?_, fun s => ?_⟩
    · simp only [library, show Key.parse? key = some k from hk]
    · simp only [library]
      cases b.sources.mapM (collect s) with
      | error e => rfl
      | ok groups =>
          refine congrArg Except.ok ?_
          rw [putEntries, List.foldl_append]
          rfl
  setOverride_of_not_parse? {key} hk :=
    ⟨.badKey key, fun b v => by simp only [library, show Key.parse? key = none from hk]⟩

theorem account_missesFiles : account.MissesFiles where
  required {s name} h := ⟨.missingFile name, by
    simp [account, collect, readSource, not_ne_iff.mp h, Except.map]⟩
  optional {s name} h := by
    simp [account, collect, readSource, not_ne_iff.mp h, Except.map]

section
variable {es es' : Value.Entries} {names : List String}

/-- Below a name, the table of the entries is as good as what it was made from. -/
theorem at?_putEntry (es : Value.Entries) (k : Key) (v : Value) (hnames : names ≠ []) :
    (Value.table (putEntry es k v) none).at? names =
      ((Value.table es none).putAt k v).at? names := by
  obtain ⟨n, names, rfl⟩ := List.exists_cons_of_ne_nil hnames
  rfl

theorem table_putEntry (es : Value.Entries) (n : String) (k : Key) (v : Value) :
    Value.table (putEntry es (.name n :: k) v) none =
      (Value.table es none).putAt (.name n :: k) v := by
  obtain ⟨change, hchange⟩ := Value.exists_putAt_eq_set n k v
  rw [putEntry, hchange]
  rfl

theorem table_putEach (es : Value.Entries) (n : String) {ps : List (Key × Value)}
    (hps : ∀ p ∈ ps, ∃ k, p.1 = .name n :: k) :
    Value.table (account.putEach es ps) none = (Value.table es none).putEach ps := by
  induction ps generalizing es with
  | nil => rfl
  | cons p ps ih =>
      obtain ⟨⟨k, hk⟩, hps⟩ := List.forall_mem_cons.mp hps
      change Value.table (account.putEach (putEntry es p.1 p.2) ps) none =
        ((Value.table es none).putAt p.1 p.2).putEach ps
      rw [ih _ hps, hk, table_putEntry]

theorem putEntry_eq_putEach (es : Value.Entries) (p : Key × Value) :
    putEntry es p.1 p.2 = account.putEach es (account.assigned p) := by
  obtain ⟨k, v⟩ := p
  by_cases hk : k.isDotted = true
  · have hassigned : account.assigned (k, v) = Value.keyed k v.leaves := if_pos hk
    have hname : ∃ n l, k = .name n :: l := by
      match k, hk with
      | .name n :: l, _ => exact ⟨n, l, rfl⟩
    obtain ⟨n, l, rfl⟩ := hname
    have htable := (table_putEntry es n l v).trans (Value.putAt_eq_putEach _ hk v)
    rw [← table_putEach es n] at htable
    · rw [hassigned]
      exact congrArg Value.entries htable
    · intro p hp
      obtain ⟨leaf, -, rfl⟩ := List.mem_map.mp hp
      exact ⟨_, rfl⟩
  · rw [Account.assigned, if_neg hk]
    rfl

theorem entries_of_mem_assigned {p a : Key × Value} (ha : a ∈ account.assigned p)
    (hdotted : a.1.isDotted = true) : a.2.entries = [] := by
  rw [Account.assigned] at ha
  split_ifs at ha with hp
  · obtain ⟨l, hl, rfl⟩ := List.mem_map.mp ha
    exact Value.entries_of_mem_leaves p.2 hl
  · obtain rfl := List.mem_singleton.mp ha
    exact absurd hdotted hp

theorem Key.isDotted_of_prefix {k : Key} (hk : k ≠ []) (h : k.fold <+: Key.ofNames names) :
    k.isDotted = true := by
  rw [Key.isDotted, Bool.and_eq_true, List.all_eq_true]
  refine ⟨by simpa using hk, fun s hs => ?_⟩
  obtain ⟨n, -, hn⟩ := List.mem_map.mp (h.subset (List.mem_map_of_mem hs))
  cases s with
  | name n => rfl
  | index i => cases hn

theorem account_mergesByKey : account.MergesByKey where
  put_assigned := putEntry_eq_putEach
  put_congr {es es' names} h k v := by
    cases names with
    | nil =>
        obtain rfl : es' = es := congrArg Value.entries (Value.eq_of_at?_nil h)
        rfl
    | cons n names => exact Value.at?_putAt_congr h k v
  put_apart es k v names h := by
    cases names with
    | nil => exact absurd List.nil_prefix h.2.1
    | cons n names => exact Value.at?_putAt_of_parts _ (Key.apart_iff.mp h) v
  put_header es p a ha htable group name h := by
    by_cases hk : a.1 = []
    · change (Value.table (putEntry es a.1 a.2) none).at? _ = (Value.table es none).at? _
      rw [hk]
      rfl
    · have hentries := entries_of_mem_assigned ha (Key.isDotted_of_prefix hk h)
      refine (at?_putEntry es a.1 a.2 (by simp)).trans ?_
      obtain ⟨k, v⟩ := a
      cases v with
      | table es' origin =>
          obtain rfl : es' = [] := hentries
          exact Value.at?_putAt_empty _ h origin name
      | nil | atom | list => cases htable
  at?_empty {names w} h := by
    cases names with
    | nil =>
        cases h
        exact Bool.false_ne_true
    | cons n names => cases h
  at?_put {es p a names w} ha h hw := by
    cases names with
    | nil =>
        cases h
        cases hw
    | cons n names =>
        by_cases hk : a.1 = []
        · change (Value.table (putEntry es a.1 a.2) none).at? _ = some w at h
          rw [hk] at h ⊢
          exact h
        · exact Value.eq_of_at?_putAt hk (entries_of_mem_assigned ha) h hw

end

end Settings

end SyntaxLens
