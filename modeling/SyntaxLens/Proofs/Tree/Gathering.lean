import Mathlib.Data.List.Forall2
import Mathlib.Data.List.Perm.Basic
import SyntaxLens.Proofs.Tree.Slots

/-! # Nodes from labelled children

`Node.ofEntries` sorts children that are labelled with roles into the fields of a form.

* Labels fit a form (`Form.Labels`) if all of them are roles of the form and no role for one child
  labels two.  Then no child is lost and none is doubled (`Node.children_ofEntries_perm`).
* `Form.pick` finds the child for a segment among labelled things of any type.  A slot of the node
  holds what is picked from its entries (`Node.at?_ofEntries`), and picking commutes with whatever
  replaces the labelled things one by one (`Form.pick_rel`). -/

namespace SyntaxLens

variable {α β : Type}

/-- Grouping by keys that are all different and leave nothing out only changes the order. -/
theorem flatMap_filter_perm {κ : Type} [DecidableEq κ] (key : α → κ) {keys : List κ}
    (hnd : keys.Nodup) : ∀ {l : List α}, (∀ x ∈ l, key x ∈ keys) →
      (keys.flatMap fun k => l.filter (key · == k)).Perm l := by
  induction keys with
  | nil =>
      intro l hl
      obtain rfl : l = [] := List.eq_nil_iff_forall_not_mem.mpr fun x hx => by simpa using hl x hx
      exact .refl _
  | cons k keys ih =>
      intro l hl
      obtain ⟨hk, hnd⟩ := List.nodup_cons.mp hnd
      have hrest : (keys.flatMap fun k' => l.filter (key · == k')) =
          keys.flatMap fun k' => (l.filter fun x => !(key x == k)).filter (key · == k') := by
        refine List.flatMap_congr fun k' hk' => ?_
        rw [List.filter_filter]
        refine List.filter_congr fun x _ => ?_
        by_cases hx : key x = k'
        · have hne : key x ≠ k := fun h => hk (h ▸ hx ▸ hk')
          simp [hne]
        · simp [hx]
      rw [List.flatMap_cons, hrest]
      refine ((ih hnd ?_).append_left _).trans (List.filter_append_perm (key · == k) l)
      intro x hx
      obtain ⟨hmem, hne⟩ := List.mem_filter.mp hx
      exact (List.mem_cons.mp (hl x hmem)).resolve_left (by simpa using hne)

/-- Of blocks with different labels, the label of one selects it. -/
theorem filter_flatMap_role {places : List Place} (hnd : (places.map Place.role).Nodup)
    {block : Place → List (Role × α)} (hblock : ∀ p, ∀ e ∈ block p, e.1 = p.role) {p : Place}
    (hp : p ∈ places) : (places.flatMap block).filter (·.1 == p.role) = block p := by
  have hself : ∀ q : Place, q.role = p.role → (block q).filter (·.1 == p.role) = block q := by
    intro q hq
    exact List.filter_eq_self.mpr fun e he => by simp [hblock q e he, hq]
  have hother : ∀ q : Place, q.role ≠ p.role → (block q).filter (·.1 == p.role) = [] := by
    intro q hq
    exact List.filter_eq_nil_iff.mpr fun e he => by simp [hblock q e he, hq]
  induction places with
  | nil => simp at hp
  | cons q places ih =>
      rw [List.map_cons, List.nodup_cons] at hnd
      rw [List.flatMap_cons, List.filter_append]
      rcases List.mem_cons.mp hp with rfl | hp
      · have hrest : (places.flatMap block).filter (·.1 == p.role) = [] := by
          rw [List.filter_flatMap, List.flatMap_eq_nil_iff]
          intro q hq
          exact hother q fun h => hnd.1 (List.mem_map.mpr ⟨q, hq, h⟩)
        rw [hself p rfl, hrest, List.append_nil]
      · rw [hother q fun h => hnd.1 (List.mem_map.mpr ⟨p, hp, h.symm⟩), ih hnd.2 hp,
          List.nil_append]

/-- What is labelled block by block is in groups already. -/
theorem flatMap_filter_of_blocks {places : List Place} (hnd : (places.map Place.role).Nodup)
    {block : Place → List Role} (hblock : ∀ p, ∀ r ∈ block p, r = p.role) :
    ∀ {l : List (Role × α)}, l.map Prod.fst = places.flatMap block →
      (places.flatMap fun p => l.filter (·.1 == p.role)) = l := by
  induction places with
  | nil =>
      intro l hl
      rw [List.map_eq_nil_iff.mp hl]
      rfl
  | cons p places ih =>
      intro l hl
      rw [List.map_cons, List.nodup_cons] at hnd
      rw [List.flatMap_cons] at hl
      obtain ⟨first, rest, rfl, hfirst, hrest⟩ := List.map_eq_append_iff.mp hl
      have hin : ∀ e ∈ first, e.1 = p.role := fun e he =>
        hblock p e.1 (hfirst ▸ List.mem_map_of_mem he)
      have hout : ∀ e ∈ rest, ∃ q ∈ places, e.1 = q.role := by
        intro e he
        have hlabel : e.1 ∈ places.flatMap block := hrest ▸ List.mem_map_of_mem he
        obtain ⟨q, hq, hr⟩ := List.mem_flatMap.mp hlabel
        exact ⟨q, hq, hblock q e.1 hr⟩
      have hself : (first ++ rest).filter (·.1 == p.role) = first := by
        have hnone : rest.filter (·.1 == p.role) = [] := by
          refine List.filter_eq_nil_iff.mpr fun e he hrole => ?_
          obtain ⟨q, hq, hrole'⟩ := hout e he
          exact hnd.1 (List.mem_map.mpr ⟨q, hq, hrole'.symm.trans (eq_of_beq hrole)⟩)
        rw [List.filter_append, hnone, List.append_nil]
        exact List.filter_eq_self.mpr fun e he => by simp [hin e he]
      have hothers : (places.flatMap fun q => (first ++ rest).filter (·.1 == q.role)) =
          places.flatMap fun q => rest.filter (·.1 == q.role) := by
        refine List.flatMap_congr fun q hq => ?_
        have hnone : first.filter (·.1 == q.role) = [] := by
          refine List.filter_eq_nil_iff.mpr fun e he hrole => ?_
          have hsame : q.role = p.role := (eq_of_beq hrole).symm.trans (hin e he)
          exact hnd.1 (List.mem_map.mpr ⟨q, hq, hsame⟩)
        rw [List.filter_append, hnone, List.nil_append]
      rw [List.flatMap_cons, hself, hothers, ih hnd.2 hrest]

namespace Form

variable (f : Form)

/-- Labels that children of a form can have: roles of the form, and a role for one child at most
once. -/
structure Labels (labels : List Role) : Prop where
  mem_roles : ∀ r ∈ labels, r ∈ f.places.map Place.role
  count_le : ∀ p ∈ f.places, p.arity = .one → labels.count p.role ≤ 1

/-- What a segment picks from things that are labelled with roles: the first of a role for one
child, and the one at its index of a role for a list. -/
def pick (entries : List (Role × α)) (s : Segment) : Option α :=
  match f.places.find? fun p => p.role.name == s.field with
  | none => none
  | some p =>
    match p.arity, s.index with
    | .one, none => entries.lookup p.role
    | .many, some i => ((entries.filter (·.1 == p.role)).map Prod.snd)[i]?
    | .one, some _ => none
    | .many, none => none

end Form

theorem lookup_eq_getElem?_filter (entries : List (Role × α)) (r : Role) :
    entries.lookup r = ((entries.filter (·.1 == r)).map Prod.snd)[0]? := by
  induction entries with
  | nil => rfl
  | cons e entries ih =>
      obtain ⟨r', x⟩ := e
      by_cases h : r' = r
      · simp [h]
      · have h' : (r == r') = false := by simpa using Ne.symm h
        simp [List.lookup_cons, h, h', ih]

theorem getElem?_rel {R : α → β → Prop} {l : List α} {l' : List β} (h : List.Forall₂ R l l') :
    ∀ i : ℕ, Option.Rel R l[i]? l'[i]? := by
  induction h with
  | nil => intro i; exact .none
  | cons hab _ ih =>
      intro i
      cases i with
      | zero => exact .some hab
      | succ i => simpa using ih i

/-- Picking commutes with a replacement of the labelled things one by one. -/
theorem Form.pick_rel (f : Form) {R : α → β → Prop} {entries : List (Role × α)}
    {entries' : List (Role × β)}
    (h : List.Forall₂ (fun e e' => e.1 = e'.1 ∧ R e.2 e'.2) entries entries') (s : Segment) :
    Option.Rel R (f.pick entries s) (f.pick entries' s) := by
  have hfilter : ∀ r : Role, List.Forall₂ R ((entries.filter (·.1 == r)).map Prod.snd)
      ((entries'.filter (·.1 == r)).map Prod.snd) := by
    intro r
    rw [List.forall₂_map_left_iff, List.forall₂_map_right_iff]
    refine (List.rel_filter (fun e e' hrel => ?_) h).imp fun _ _ hrel => hrel.2
    simp [hrel.1]
  unfold pick
  cases f.places.find? fun p => p.role.name == s.field with
  | none => exact .none
  | some p =>
      obtain ⟨r, a⟩ := p
      cases a with
      | one =>
          cases s.index with
          | none =>
              simp only [lookup_eq_getElem?_filter]
              exact getElem?_rel (hfilter r) 0
          | some _ => exact .none
      | many =>
          cases s.index with
          | none => exact .none
          | some i => exact getElem?_rel (hfilter r) i

theorem Form.pick_map (f : Form) (g : α → β) (entries : List (Role × α)) (s : Segment) :
    f.pick (entries.map fun e => (e.1, g e.2)) s = (f.pick entries s).map g := by
  have hmap : List.Forall₂ (fun e e' => e.1 = e'.1 ∧ e'.2 = g e.2) entries
      (entries.map fun e => (e.1, g e.2)) := by
    rw [List.forall₂_map_right_iff, List.forall₂_same]
    exact fun _ _ => ⟨rfl, rfl⟩
  have hpick := f.pick_rel (R := fun a b => b = g a) hmap s
  generalize f.pick entries s = a at hpick ⊢
  generalize f.pick (entries.map fun e => (e.1, g e.2)) s = b at hpick ⊢
  cases hpick with
  | none => rfl
  | some h => rw [h, Option.map_some]

namespace Node

variable (form : Form) (entries : List (Role × Option NodeId))

theorem ids_gather {p : Place} (h : p.arity = .one → (entries.map Prod.fst).count p.role ≤ 1) :
    (gather entries p).2.ids = (entries.filter (·.1 == p.role)).filterMap Prod.snd := by
  obtain ⟨r, a⟩ := p
  cases a with
  | many =>
      simp only [gather, Field.ids, List.filterMap_map]
      rfl
  | one =>
      have hlen : (entries.filter (·.1 == r)).length ≤ 1 := by
        have := h rfl
        rwa [List.count, List.countP_map, List.countP_eq_length_filter] at this
      simp only [gather, Field.ids, lookup_eq_getElem?_filter]
      generalize entries.filter (·.1 == r) = l at hlen ⊢
      cases l with
      | nil => rfl
      | cons e rest =>
          obtain rfl : rest = [] := by simpa using hlen
          obtain ⟨_, child⟩ := e
          cases child <;> rfl

/-- The present children of a node are those of one place after the other. -/
theorem children_ofEntries (h : form.Labels (entries.map Prod.fst)) :
    (ofEntries form entries).children =
      (form.places.flatMap fun p => entries.filter (·.1 == p.role)).filterMap Prod.snd := by
  simp only [children, ofEntries, List.flatMap_map, List.filterMap_flatMap]
  exact List.flatMap_congr fun p hp => ids_gather entries (h.count_le p hp)

/-- The present children of a node are the children that it was made from. -/
theorem children_ofEntries_perm (h : form.Labels (entries.map Prod.fst)) :
    (ofEntries form entries).children.Perm (entries.filterMap Prod.snd) := by
  have hgroups := flatMap_filter_perm Prod.fst form.roles_nodup fun e he =>
    h.mem_roles e.1 (List.mem_map_of_mem he)
  rw [List.flatMap_map] at hgroups
  rw [children_ofEntries form entries h]
  exact hgroups.filterMap _

/-- A slot holds what its segment picks. -/
theorem at?_ofEntries (s : Segment) :
    (ofEntries form entries).at? s = (form.pick entries s).join := by
  simp only [at?, fieldNamed?, ofEntries, List.find?_map, Option.map_map, Form.pick]
  have hname : ((fun entry : Role × Field => entry.1.name == s.field) ∘ gather entries) =
      fun p : Place => p.role.name == s.field := by
    funext p
    obtain ⟨r, a⟩ := p
    cases a <;> rfl
  rw [hname]
  cases form.places.find? fun p => p.role.name == s.field with
  | none => rfl
  | some p =>
      obtain ⟨r, a⟩ := p
      cases a <;> cases s.index <;> rfl

end Node

end SyntaxLens
