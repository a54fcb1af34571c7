import SyntaxLens.Proofs.Tree.Strict

/-! # Nodes that reach no cycle

An arena may lead in cycles.  From a node that reaches none, every path that can be followed is
shorter than the arena is large (`AcyclicFrom.length_lt`), so a recursion along the children ends
before the size of the arena is used up.  Every node of a strict tree is such a node
(`Strict.acyclicFrom`). -/

namespace SyntaxLens.Tree

variable (t : Tree)

/-- No node that is reached from here, this one included, has a path back to itself. -/
def AcyclicFrom (id : NodeId) : Prop :=
  ∀ (p q : Path) (c : NodeId), t.follow? id p = some c → t.follow? c q = some c → q = []

theorem follow?_cons (id : NodeId) (s : Segment) (p : Path) :
    t.follow? id (s :: p) = (t.step? id s).bind fun c => t.follow? c p := by
  rw [follow?]
  cases t.step? id s <;> rfl

theorem has_of_step? {id c : NodeId} {s : Segment} (h : t.step? id s = some c) :
    t.has id ∧ t.has c := by
  obtain ⟨⟨n, hn, _⟩, hc⟩ := (t.step?_eq_some_iff id s c).mp h
  exact ⟨t.has_of_node? hn, hc⟩

theorem resolve_eq_follow? (h : t.has t.root) (p : Path) : t.resolve p = t.follow? t.root p :=
  if_pos h

variable {t}

theorem has_root_of_resolve {p : Path} {c : NodeId} (h : t.resolve p = some c) :
    t.has t.root := by
  unfold resolve at h
  split at h
  · assumption
  · cases h

theorem AcyclicFrom.child {id c : NodeId} {s : Segment} (h : t.AcyclicFrom id)
    (hs : t.step? id s = some c) : t.AcyclicFrom c := by
  intro p q d hp hq
  refine h (s :: p) q d ?_ hq
  rw [follow?_cons, hs]
  exact hp

/-- The nodes along a path are all different. -/
theorem AcyclicFrom.exists_trail {p : Path} : ∀ {id c : NodeId}, t.AcyclicFrom id → t.has id →
    t.follow? id p = some c → ∃ trail : List NodeId, trail.length = p.length + 1 ∧ trail.Nodup ∧
      ∀ d ∈ trail, t.has d ∧ ∃ q, t.follow? id q = some d := by
  induction p with
  | nil =>
      intro id c _ hid _
      refine ⟨[id], rfl, List.nodup_singleton id, fun d hd => ?_⟩
      obtain rfl := List.mem_singleton.mp hd
      exact ⟨hid, [], rfl⟩
  | cons s p ih =>
      intro id c h hid hp
      rw [follow?_cons] at hp
      obtain ⟨b, hb, hp⟩ := Option.bind_eq_some_iff.mp hp
      obtain ⟨trail, hlen, hnd, htrail⟩ := ih (h.child hb) (t.has_of_step? hb).2 hp
      -- A node of the trail is reached by a step first, so it cannot be the start again.
      have hbelow : ∀ d ∈ trail, ∃ q, t.follow? id (s :: q) = some d := by
        intro d hd
        obtain ⟨-, q, hq⟩ := htrail d hd
        exact ⟨q, by rw [follow?_cons, hb]; exact hq⟩
      have hnew : id ∉ trail := by
        intro hmem
        obtain ⟨q, hq⟩ := hbelow id hmem
        cases h [] (s :: q) id rfl hq
      refine ⟨id :: trail, by rw [List.length_cons, List.length_cons, hlen],
        List.nodup_cons.mpr ⟨hnew, hnd⟩, fun d hd => ?_⟩
      rcases List.mem_cons.mp hd with rfl | hd
      · exact ⟨hid, [], rfl⟩
      · obtain ⟨q, hq⟩ := hbelow d hd
        exact ⟨(htrail d hd).1, s :: q, hq⟩

theorem AcyclicFrom.length_lt {id c : NodeId} {p : Path} (h : t.AcyclicFrom id) (hid : t.has id)
    (hp : t.follow? id p = some c) : p.length < t.size := by
  obtain ⟨trail, hlen, hnd, htrail⟩ := h.exists_trail hid hp
  have hsub : trail ⊆ List.range t.size := by
    intro d hd
    simpa [has, size] using (htrail d hd).1
  have hle := (hnd.subperm hsub).length_le
  rw [List.length_range] at hle
  omega

/-- Where children come after their owners, a path leads to a later node, by one for every step at
least. -/
theorem add_length_le (h : ∀ owner, ∀ c ∈ t.children owner, owner < c) {p : Path} :
    ∀ {id c : ℕ}, t.follow? id p = some c → id + p.length ≤ c := by
  induction p with
  | nil =>
      intro id c hp
      exact Nat.le_of_eq (Option.some.inj hp)
  | cons s p ih =>
      intro id c hp
      rw [follow?_cons] at hp
      obtain ⟨b, hb, hp⟩ := Option.bind_eq_some_iff.mp hp
      have hlt : id < b := h id b (t.mem_children_of_step? hb)
      have hle := ih hp
      rw [List.length_cons]
      omega

theorem acyclicFrom_of_lt (h : ∀ owner, ∀ c ∈ t.children owner, owner < c) (id : NodeId) :
    t.AcyclicFrom id := by
  intro p q (c : ℕ) _ hq
  have hle := add_length_le h hq
  exact List.length_eq_zero_iff.mp (by omega)

/-- It is enough to look at the nodes of the arena. -/
theorem acyclicFrom_of_lt_size (h : ∀ owner < t.size, ∀ c ∈ t.children owner, owner < c)
    (id : NodeId) : t.AcyclicFrom id :=
  acyclicFrom_of_lt (fun owner c hc => h owner (t.lt_size_of_mem_children hc) c hc) id

theorem Strict.acyclicFrom (h : t.Strict) (id : NodeId) : t.AcyclicFrom id :=
  acyclicFrom_of_lt (fun owner c hc => (h.owner_lt owner c hc).1) id

end SyntaxLens.Tree
