import Mathlib.Data.List.Basic
import SyntaxLens.Document.References

/-! # Following references

References between drafts may be repeated, may lead nowhere and may lead in cycles.

* **Steps.**  `Settles` is the following of references as derivations: the drafts are taken off a
  list one by one, and a reference makes way for the entry that it takes.  References that never end
  have no derivation.
* **Ends.**  Every entry that is taken leaves one less that is free (`free_cons_lt`), so the depth
  that `NodeTable.follow` is given is never used up: `NodeTable.draftFrom_settles` says that the
  draft that begins at an id has a derivation, for every table.
* **Result.**  A derivation determines what it gives (`Settles.functional`). -/

namespace SyntaxLens.NodeTable

open Draft (Taken)

/-- The references in drafts, followed one after the other from the ids taken first to the ids taken
at the end. -/
inductive Settles (table : NodeTable) :
    (ds : List (Role × Draft)) → Taken → (out : List (Role × Draft)) → Taken → Prop
  | nil (taken : Taken) : Settles table [] taken [] taken
  | gap {r : Role} {cause : Gap} {ds out : List (Role × Draft)} {taken taken' : Taken} :
      Settles table ds taken out taken' →
      Settles table ((r, .gap cause) :: ds) taken ((r, .gap cause) :: out) taken'
  | node {r : Role} {form : Form} {children below ds out : List (Role × Draft)}
      {taken between taken' : Taken} :
      Settles table children taken below between → Settles table ds between out taken' →
      Settles table ((r, .node form children) :: ds) taken ((r, .node form below) :: out) taken'
  | dangling {r : Role} {id : ℕ} {ds out : List (Role × Draft)} {taken taken' : Taken} :
      table.lookup id = none → Settles table ds taken out taken' →
      Settles table ((r, .reference id) :: ds) taken ((r, .gap (.dangling id)) :: out) taken'
  | repeated {r : Role} {id : ℕ} {entry : Draft} {ds out : List (Role × Draft)}
      {taken taken' : Taken} :
      table.lookup id = some entry → id ∈ taken → Settles table ds taken out taken' →
      Settles table ((r, .reference id) :: ds) taken ((r, .gap (.repeated id)) :: out) taken'
  | entry {r : Role} {id : ℕ} {entry : Draft} {ds out : List (Role × Draft)}
      {taken taken' : Taken} :
      table.lookup id = some entry → id ∉ taken →
      Settles table ((r, entry) :: ds) (id :: taken) out taken' →
      Settles table ((r, .reference id) :: ds) taken out taken'

section settles
variable {table : NodeTable} {ds ds' out out' : List (Role × Draft)} {taken taken' taken'' : Taken}

/-- Ids that are taken stay taken. -/
theorem Settles.subset (h : Settles table ds taken out taken') : taken ⊆ taken' := by
  induction h with
  | nil => exact List.Subset.refl _
  | gap _ ih | dangling _ _ ih | repeated _ _ _ ih => exact ih
  | node _ _ ihbelow ih => exact List.Subset.trans ihbelow ih
  | entry _ _ _ ih => exact fun id h => ih (List.mem_cons_of_mem _ h)

theorem Settles.append (h : Settles table ds taken out taken')
    (h' : Settles table ds' taken' out' taken'') :
    Settles table (ds ++ ds') taken (out ++ out') taken'' := by
  induction h with
  | nil => exact h'
  | gap _ ih => exact .gap (ih h')
  | node hbelow _ _ ih => exact .node hbelow (ih h')
  | dangling hnone _ ih => exact .dangling hnone (ih h')
  | repeated hsome hmem _ ih => exact .repeated hsome hmem (ih h')
  | entry hsome hmem _ ih => exact .entry hsome hmem (ih h')

theorem Settles.functional (h : Settles table ds taken out taken') :
    Settles table ds taken out' taken'' → out = out' ∧ taken' = taken'' := by
  induction h generalizing out' taken'' with
  | nil =>
      rintro ⟨⟩
      exact ⟨rfl, rfl⟩
  | gap _ ih =>
      rintro (_ | h')
      obtain ⟨rfl, rfl⟩ := ih h'
      exact ⟨rfl, rfl⟩
  | node _ _ ihbelow ih =>
      rintro (_ | _ | ⟨hbelow, h'⟩)
      obtain ⟨rfl, rfl⟩ := ihbelow hbelow
      obtain ⟨rfl, rfl⟩ := ih h'
      exact ⟨rfl, rfl⟩
  | dangling hnone _ ih =>
      intro h'
      cases h' with
      | dangling _ h' =>
          obtain ⟨rfl, rfl⟩ := ih h'
          exact ⟨rfl, rfl⟩
      | repeated hsome _ _ | entry hsome _ _ => simp [hnone] at hsome
  | repeated hsome hmem _ ih =>
      intro h'
      cases h' with
      | dangling hnone _ => simp [hnone] at hsome
      | repeated _ _ h' =>
          obtain ⟨rfl, rfl⟩ := ih h'
          exact ⟨rfl, rfl⟩
      | entry _ hnot _ => exact absurd hmem hnot
  | entry hsome hnot _ ih =>
      intro h'
      cases h' with
      | dangling hnone _ => simp [hnone] at hsome
      | repeated _ hmem _ => exact absurd hmem hnot
      | entry hsome' _ h' =>
          obtain rfl := Option.some.inj (hsome.symm.trans hsome')
          exact ih h'

end settles

/-! ### The bound on the depth -/

section free
variable (table : NodeTable)

/-- The number of entries that are not taken. -/
def free (taken : Taken) : ℕ := table.countP fun entry => entry.1 ∉ taken

variable {table}

theorem free_le_of_subset {taken taken' : Taken} (h : taken ⊆ taken') :
    table.free taken' ≤ table.free taken := by
  refine List.countP_mono_left fun entry _ hentry => ?_
  rw [decide_eq_true_eq] at hentry ⊢
  exact fun hmem => hentry (h hmem)

theorem free_cons_lt {id : ℕ} {entry : Draft} {taken : Taken} (hsome : table.lookup id = some entry)
    (hnot : id ∉ taken) : table.free (id :: taken) < table.free taken := by
  obtain ⟨before, after, rfl, _⟩ := List.lookup_eq_some_iff.mp hsome
  have hbefore : free before (id :: taken) ≤ free before taken :=
    free_le_of_subset (List.subset_cons_self id taken)
  have hafter : free after (id :: taken) ≤ free after taken :=
    free_le_of_subset (List.subset_cons_self id taken)
  unfold free at hbefore hafter ⊢
  rw [List.countP_append, List.countP_append, List.countP_cons_of_neg (by simp),
    List.countP_cons_of_pos (by simpa using hnot)]
  omega

/-- The drafts are settled by `follow` as by a derivation if it follows every single reference so,
as long as at most `bound` entries are free. -/
def Follows (table : NodeTable) (bound : ℕ) (follow : ℕ → Taken → Draft × Taken) : Prop :=
  ∀ (r : Role) (id : ℕ) (taken : Taken), table.free taken ≤ bound →
    Settles table [(r, .reference id)] taken [(r, (follow id taken).1)] (follow id taken).2

mutual

theorem Follows.settle {bound : ℕ} {follow : ℕ → Taken → Draft × Taken}
    (hfollow : table.Follows bound follow) : ∀ (d : Draft) (r : Role) (taken : Taken),
      table.free taken ≤ bound →
      Settles table [(r, d)] taken [(r, (d.settle follow taken).1)] (d.settle follow taken).2
  | .gap _, _, taken, _ => .gap (.nil taken)
  | .reference id, r, taken, h => hfollow r id taken h
  | .node _ children, _, taken, h => .node (hfollow.settleAll children taken h) (.nil _)

theorem Follows.settleAll {bound : ℕ} {follow : ℕ → Taken → Draft × Taken}
    (hfollow : table.Follows bound follow) : ∀ (ds : List (Role × Draft)) (taken : Taken),
      table.free taken ≤ bound →
      Settles table ds taken (Draft.settleAll follow ds taken).1 (Draft.settleAll follow ds taken).2
  | [], taken, _ => .nil taken
  | (r, d) :: rest, taken, h => by
      have hfirst := hfollow.settle d r taken h
      exact hfirst.append
        (hfollow.settleAll rest _ (Nat.le_trans (free_le_of_subset hfirst.subset) h))

end

theorem follows_follow : ∀ depth : ℕ, table.Follows depth (table.follow depth) := by
  intro depth r id taken h
  unfold follow
  split
  · rename_i hnone
    exact .dangling hnone (.nil taken)
  · rename_i entry hsome
    split
    · rename_i hmem
      exact .repeated hsome (by simpa using hmem) (.nil taken)
    · rename_i hnot
      have hfree := free_cons_lt hsome (by simpa using hnot)
      cases depth with
      | zero => omega
      | succ depth =>
          exact .entry hsome (by simpa using hnot)
            ((follows_follow depth).settle entry r (id :: taken) (by omega))

/-- Following the references from an id ends, whatever the table, and gives the draft that begins
there. -/
theorem draftFrom_settles (table : NodeTable) (r : Role) (id : ℕ) :
    ∃ taken, Settles table [(r, .reference id)] [] [(r, table.draftFrom id)] taken :=
  ⟨_, follows_follow table.length r id [] List.countP_le_length⟩

/-- What a derivation gives is the draft that begins at the id. -/
theorem draftFrom_eq {r : Role} {id : ℕ} {d : Draft} {taken : Taken}
    (h : Settles table [(r, .reference id)] [] [(r, d)] taken) : table.draftFrom id = d := by
  obtain ⟨_, h'⟩ := table.draftFrom_settles r id
  simpa using (h'.functional h).1

end free

end SyntaxLens.NodeTable
