import Mathlib.Data.List.Nodup
import SyntaxLens.Tree.Node

/-! # Slots of a node

A slot is a place where one child can stand: a role with one child, or one index of a list. Segments
name slots, and three functions go through them: `Node.fieldNamed?` with `Field.at?` looks one up,
`Node.segments` lists those that are filled, and `Node.segmentTo?` finds the first that holds a
given child.  All three agree (`mem_segments_iff`, `map_snd_segments`, `at?_of_segmentTo?`), because
no form has two places of one name (`names_nodup`). -/

namespace SyntaxLens

theorem Form.roles_nodup (f : Form) : (f.places.map Place.role).Nodup := by
  cases f with
  | known kind _ => exact kind.roles_nodup
  | unknown _ => exact List.nodup_nil

namespace Field

variable (f : Field) (r : Role)

theorem mem_segments_iff (s : Segment) (c : NodeId) :
    (s, c) ∈ f.segments r ↔ s.field = r.name ∧ f.at? s.index = some c := by
  obtain ⟨name, index⟩ := s
  cases f with
  | one child => cases index <;> cases child <;> simp [segments, at?, Segment.single, eq_comm]
  | many slots =>
      simp only [segments, List.mem_filterMap, List.mem_zipIdx_iff_getElem?, Prod.exists,
        Option.map_eq_some_iff, Prod.mk.injEq, Segment.element, Segment.mk.injEq]
      constructor
      · rintro ⟨_, i, hi, _, rfl, ⟨rfl, rfl⟩, rfl⟩
        exact ⟨rfl, by simp [at?, hi]⟩
      · rintro ⟨rfl, h⟩
        cases index with
        | none => simp [at?] at h
        | some i => exact ⟨some c, i, Option.join_eq_some_iff.mp h, c, rfl, ⟨rfl, rfl⟩, rfl⟩

theorem map_snd_segments : (f.segments r).map Prod.snd = f.ids := by
  cases f with
  | one child => cases child <;> simp [segments, ids]
  | many slots =>
      have hsnd : (fun x : Option NodeId × ℕ =>
          (x.1.map fun id => (Segment.element r x.2, id)).map Prod.snd) = Prod.fst := by
        funext x
        cases x.1 <;> rfl
      calc ((many slots).segments r).map Prod.snd = slots.zipIdx.filterMap Prod.fst := by
            rw [segments, List.map_filterMap, hsnd]
        _ = (slots.zipIdx.map Prod.fst).filterMap id := by rw [List.filterMap_map]; rfl
        _ = (many slots).ids := by rw [List.zipIdx_map_fst]; rfl

theorem at?_of_segmentTo? {s : Segment} {c : NodeId} (h : f.segmentTo? r c = some s) :
    s.field = r.name ∧ f.at? s.index = some c := by
  cases f with
  | one slot =>
      simp only [segmentTo?, Option.ite_none_right_eq_some, Option.some.injEq] at h
      obtain ⟨rfl, rfl⟩ := h
      exact ⟨rfl, rfl⟩
  | many slots =>
      obtain ⟨i, hi, rfl⟩ := Option.map_eq_some_iff.mp h
      obtain ⟨hlt, hc, _⟩ := List.findIdx?_eq_some_iff_getElem.mp hi
      refine ⟨rfl, ?_⟩
      simp only [Segment.element, at?, List.getElem?_eq_getElem hlt, Option.join_some]
      exact beq_iff_eq.mp hc

theorem isSome_segmentTo? {c : NodeId} (h : c ∈ f.ids) : (f.segmentTo? r c).isSome := by
  cases f with
  | one slot =>
      have hs : slot = some c := by simpa [ids] using h
      simp [segmentTo?, hs]
  | many slots =>
      have hs : some c ∈ slots := by simpa [ids] using h
      simp only [segmentTo?, Option.isSome_map, List.findIdx?_isSome, List.any_eq_true]
      exact ⟨some c, hs, beq_self_eq_true _⟩

end Field

namespace Node

variable (n : Node)

/-- The child in the slot that a segment names. -/
def at? (s : Segment) : Option NodeId := (n.fieldNamed? s.field).bind fun f => f.at? s.index

theorem map_fst_fields : n.fields.map Prod.fst = n.form.places.map Place.role := by
  rw [← n.fits, List.map_map]
  rfl

/-- No two fields of a node have the same name. -/
theorem names_nodup : (n.fields.map fun entry => entry.1.name).Nodup := by
  have h : (n.fields.map Prod.fst).Nodup := n.map_fst_fields ▸ n.form.roles_nodup
  have h' := h.map fun _ _ => Role.name_injective
  rwa [List.map_map] at h'

theorem fieldNamed?_eq_some_iff (name : String) (f : Field) :
    n.fieldNamed? name = some f ↔ ∃ r, (r, f) ∈ n.fields ∧ r.name = name := by
  unfold fieldNamed?
  constructor
  · intro h
    obtain ⟨⟨r, g⟩, hfind, rfl⟩ := Option.map_eq_some_iff.mp h
    exact ⟨r, List.mem_of_find?_eq_some hfind, by simpa using List.find?_some hfind⟩
  · rintro ⟨r, hmem, rfl⟩
    have hsome : (n.fields.find? fun entry => entry.1.name == r.name).isSome :=
      List.find?_isSome.mpr ⟨(r, f), hmem, by simp⟩
    obtain ⟨entry, hfind⟩ := Option.isSome_iff_exists.mp hsome
    have hname : entry.1.name = r.name := by simpa using List.find?_some hfind
    have hentry : entry = (r, f) :=
      List.inj_on_of_nodup_map n.names_nodup (List.mem_of_find?_eq_some hfind) hmem hname
    rw [hfind, hentry]
    rfl

theorem mem_segments_iff (s : Segment) (c : NodeId) : (s, c) ∈ n.segments ↔ n.at? s = some c := by
  simp only [segments, at?, List.mem_flatMap, Option.bind_eq_some_iff, fieldNamed?_eq_some_iff,
    Field.mem_segments_iff]
  constructor
  · rintro ⟨⟨r, f⟩, hmem, hname, hat⟩
    exact ⟨f, ⟨r, hmem, hname.symm⟩, hat⟩
  · rintro ⟨f, ⟨r, hmem, hname⟩, hat⟩
    exact ⟨(r, f), hmem, hname.symm, hat⟩

theorem map_snd_segments : n.segments.map Prod.snd = n.children := by
  simp only [segments, children, List.map_flatMap, Field.map_snd_segments]

/-- The present children are what the slots hold. -/
theorem mem_children_iff (c : NodeId) : c ∈ n.children ↔ ∃ s, n.at? s = some c := by
  rw [← n.map_snd_segments, List.mem_map]
  constructor
  · rintro ⟨⟨s, _⟩, h, rfl⟩
    exact ⟨s, (n.mem_segments_iff s _).mp h⟩
  · rintro ⟨s, h⟩
    exact ⟨(s, c), (n.mem_segments_iff s c).mpr h, rfl⟩

theorem at?_of_segmentTo? {s : Segment} {c : NodeId} (h : n.segmentTo? c = some s) :
    n.at? s = some c := by
  obtain ⟨⟨r, f⟩, hmem, hs⟩ := List.exists_of_findSome?_eq_some h
  obtain ⟨hname, hat⟩ := f.at?_of_segmentTo? r hs
  have hf : n.fieldNamed? s.field = some f :=
    (n.fieldNamed?_eq_some_iff _ f).mpr ⟨r, hmem, hname.symm⟩
  simpa [at?, hf] using hat

theorem exists_segmentTo? {c : NodeId} (h : c ∈ n.children) : ∃ s, n.segmentTo? c = some s := by
  obtain ⟨⟨r, f⟩, hmem, hc⟩ := List.mem_flatMap.mp h
  rw [← Option.isSome_iff_exists, segmentTo?, List.findSome?_isSome_iff]
  exact ⟨(r, f), hmem, f.isSome_segmentTo? r hc⟩

/-- A child that a node has only once stands in only one slot. -/
theorem eq_of_at? {s s' : Segment} {c : NodeId} (hc : n.children.count c ≤ 1)
    (h : n.at? s = some c) (h' : n.at? s' = some c) : s = s' := by
  have hs : (s, c) ∈ n.segments.filter (·.2 == c) := by
    simpa using (n.mem_segments_iff s c).mpr h
  have hs' : (s', c) ∈ n.segments.filter (·.2 == c) := by
    simpa using (n.mem_segments_iff s' c).mpr h'
  have hlen : (n.segments.filter (·.2 == c)).length ≤ 1 := by
    rw [← n.map_snd_segments, List.count, List.countP_map, List.countP_eq_length_filter] at hc
    exact hc
  obtain ⟨x, hx⟩ := List.length_eq_one_iff.mp (Nat.le_antisymm hlen (List.length_pos_of_mem hs))
  rw [hx, List.mem_singleton] at hs hs'
  exact congrArg Prod.fst (hs.trans hs'.symm)

end Node

end SyntaxLens
