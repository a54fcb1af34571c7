import SyntaxLens.Proofs.Document.Table

/-! # What holds of every node of a draft

Documents are read node by node: what reading makes true of the form of a node and of the labels of
its children holds in every node of a draft (`Draft.everywhere_ofJson`).  Following references puts
drafts in the place of others and leaves forms and labels as they are (`Draft.everywhere_settle`,
`NodeTable.everywhere_follow`). -/

namespace SyntaxLens

namespace Draft

section everywhere
variable (P : Form → List Role → Prop)

mutual

/-- The property holds of form and labels, in every node. -/
def Everywhere : Draft → Prop
  | .gap _ | .reference _ => True
  | .node form children => P form (children.map Prod.fst) ∧ EverywhereAll children

def EverywhereAll : List (Role × Draft) → Prop
  | [] => True
  | (_, d) :: rest => Everywhere d ∧ EverywhereAll rest

end

theorem everywhereAll_iff (ds : List (Role × Draft)) :
    EverywhereAll P ds ↔ ∀ e ∈ ds, e.2.Everywhere P := by
  induction ds with
  | nil => simp [EverywhereAll]
  | cons e rest ih => rw [EverywhereAll, ih, List.forall_mem_cons]

/-- It holds in both ways in which a value can be read. -/
def Reading.Everywhere (r : Reading) : Prop :=
  r.child.Everywhere P ∧ ∀ d ∈ r.items, d.Everywhere P

/-- Reading gives every form labels of which the property holds. -/
def Granted : Prop :=
  ∀ (form : Form) (rs : List (String × Reading)),
    P form ((form.reading.flatMap (childrenIn rs)).map Prod.fst)

end everywhere

variable {P : Form → List Role → Prop}

/-! ### Drafts that were read -/

theorem everywhere_of_mem_childrenIn {rs : List (String × Reading)}
    (h : ∀ e ∈ rs, e.2.Everywhere P) (p : Place) : ∀ e ∈ childrenIn rs p, e.2.Everywhere P := by
  obtain ⟨r, a⟩ := p
  intro e he
  cases hl : rs.lookup r.name with
  | none =>
      cases a with
      | one =>
          simp only [childrenIn, hl, List.mem_singleton] at he
          rw [he]
          trivial
      | many => simp [childrenIn, hl] at he
  | some reading =>
      have hreading : reading.Everywhere P := h (r.name, reading) (mem_of_lookup_eq_some hl)
      cases a with
      | one =>
          simp only [childrenIn, hl, List.mem_singleton] at he
          rw [he]
          exact hreading.1
      | many =>
          simp only [childrenIn, hl, List.mem_map] at he
          obtain ⟨d, hd, rfl⟩ := he
          exact hreading.2 d hd

theorem everywhere_ofReadings (hP : Granted P) (ms : Json.Members) {rs : List (String × Reading)}
    (h : ∀ e ∈ rs, e.2.Everywhere P) : (ofReadings ms rs).Everywhere P := by
  unfold ofReadings
  split
  · refine ⟨hP _ rs, (everywhereAll_iff P _).mpr fun e he => ?_⟩
    obtain ⟨p, _, he⟩ := List.mem_flatMap.mp he
    exact everywhere_of_mem_childrenIn h p e he
  · trivial

mutual

theorem everywhere_read (hP : Granted P) : ∀ json : Json, (read json).Everywhere P
  | .object ms => ⟨everywhere_ofReadings hP ms (everywhere_readMembers hP ms), by simp [read]⟩
  | .array items => ⟨trivial, everywhere_readItems hP items⟩
  | .number (.natural _) | .number (.negative _) | .number (.real _) | .null | .bool _
  | .string _ => ⟨trivial, by simp [read]⟩

theorem everywhere_readItems (hP : Granted P) :
    ∀ items : List Json, ∀ d ∈ readItems items, d.Everywhere P
  | [], d, hd => by simp [readItems] at hd
  | item :: rest, d, hd => by
      rcases List.mem_cons.mp hd with rfl | hd
      · exact (everywhere_read hP item).1
      · exact everywhere_readItems hP rest d hd

theorem everywhere_readMembers (hP : Granted P) :
    ∀ ms : List (String × Json), ∀ e ∈ readMembers ms, e.2.Everywhere P
  | [], e, he => by simp [readMembers] at he
  | (_, value) :: rest, e, he => by
      rcases List.mem_cons.mp he with rfl | he
      · exact everywhere_read hP value
      · exact everywhere_readMembers hP rest e he

end

theorem everywhere_ofJson (hP : Granted P) (json : Json) : (ofJson json).Everywhere P := by
  unfold ofJson
  split
  · exact (everywhere_read hP _).1
  · trivial

/-! ### References -/

theorem map_fst_settleAll (follow : ℕ → Taken → Draft × Taken) (ds : List (Role × Draft)) :
    ∀ taken, (settleAll follow ds taken).1.map Prod.fst = ds.map Prod.fst := by
  induction ds with
  | nil => intro taken; rfl
  | cons e rest ih =>
      intro taken
      simp only [settleAll, List.map_cons, ih]

mutual

theorem everywhere_settle {follow : ℕ → Taken → Draft × Taken}
    (hfollow : ∀ id taken, (follow id taken).1.Everywhere P) :
    ∀ (d : Draft) (taken : Taken), d.Everywhere P → (settle follow d taken).1.Everywhere P
  | .gap _, _, _ => trivial
  | .reference id, taken, _ => hfollow id taken
  | .node form children, taken, h => by
      refine ⟨?_, everywhereAll_settleAll hfollow children taken h.2⟩
      rw [map_fst_settleAll]
      exact h.1

theorem everywhereAll_settleAll {follow : ℕ → Taken → Draft × Taken}
    (hfollow : ∀ id taken, (follow id taken).1.Everywhere P) :
    ∀ (ds : List (Role × Draft)) (taken : Taken), EverywhereAll P ds →
      EverywhereAll P (settleAll follow ds taken).1
  | [], _, _ => trivial
  | (_, d) :: rest, taken, h =>
      ⟨everywhere_settle hfollow d taken h.1, everywhereAll_settleAll hfollow rest _ h.2⟩

end

theorem everywhere_withoutReferences {d : Draft} (h : d.Everywhere P) :
    d.withoutReferences.Everywhere P := by
  refine everywhere_settle ?_ d [] h
  intro _ _
  trivial

end Draft

namespace NodeTable

variable {P : Form → List Role → Prop}

theorem everywhere_follow {table : NodeTable} (h : ∀ e ∈ table, e.2.Everywhere P) (depth : ℕ) :
    ∀ (id : ℕ) (taken : Draft.Taken), (table.follow depth id taken).1.Everywhere P := by
  induction depth with
  | zero =>
      intro id taken
      unfold follow
      split
      · trivial
      · split <;> trivial
  | succ depth ih =>
      intro id taken
      unfold follow
      split
      · trivial
      · rename_i entry hentry
        split
        · trivial
        · exact Draft.everywhere_settle ih entry _ (h (id, entry) (mem_of_lookup_eq_some hentry))

theorem everywhere_of_ofMembers? (hP : Draft.Granted P) {ms : Json.Members} {table : NodeTable}
    (h : ofMembers? ms = some table) : ∀ e ∈ table, e.2.Everywhere P := by
  intro e he
  obtain ⟨m, _, _, hm⟩ := exists_of_mem_ofMembers? h he
  rw [hm]
  exact Draft.everywhere_ofJson hP m.2

end NodeTable

end SyntaxLens
