import SyntaxLens.Proofs.Rendering.Drawn

/-! # Visiting parts

Whatever is gathered from the parts of a plan is gathered in the same way: a `Visitor` says what it
takes from a leaf and from a call for a child, and what it makes of a group.  The lemmas of this
module say once for all visitors what they gather from each of the parts that rules are built from,
so that a rule is visited by simplification.

* Most visitors are `Quiet`: they take nothing from the words, marks and operators of a rule.  Those
  that give for a group what its parts give are `Through`.
* `calls` gathers the calls for children, `texts` the texts of the leaves of a class, and `shows`
  what the parts show (`displayAll_eq`).
* What two visitors gather is compared by what they do with leaves, groups and the children that are
  called for (`Visitor.Relates.all`); `Visitor.map_all` and `Visitor.flatMap_calls` do so for a
  function of what the first one gathers. -/

namespace SyntaxLens.Rendering

/-- What is taken from parts. -/
structure Visitor (α : Type) where
  leaf : Leaf → List α
  child : Segment → NodeId → Table → Bool → List α
  /-- What is made of a group, from its parts and from what was gathered in these. -/
  group : Flow → List Part → List α → List α

namespace Visitor

variable {α β : Type}

mutual

/-- What is gathered from a part. -/
def part (V : Visitor α) : Part → List α
  | .leaf l => V.leaf l
  | .child s id table continued => V.child s id table continued
  | .group flow parts => V.group flow parts (all V parts)

/-- What is gathered from parts, one after the other. -/
def all (V : Visitor α) : List Part → List α
  | [] => []
  | p :: rest => part V p ++ all V rest

end

/-- Words, marks and operators are passed over. -/
class Quiet (V : Visitor α) : Prop where
  leaf_eq_nil (l : Leaf) : l.kind ≠ .bracket → l.kind ≠ .unknown → V.leaf l = []

/-- A group gives what its parts give. -/
class Through (V : Visitor α) : Prop where
  group_eq (flow : Flow) (parts : List Part) (inner : List α) : V.group flow parts inner = inner

theorem nil_intercalate : ∀ ls : List (List α), List.intercalate [] ls = ls.flatten
  | [] => rfl
  | [_] => by simp
  | l :: l' :: rest => by
      rw [List.intercalate_cons_cons, nil_intercalate (l' :: rest), List.append_nil]
      rfl

section builders
variable (V : Visitor α) (text : String) (a b : List Part)

theorem all_eq_flatMap : V.all a = a.flatMap V.part := by
  induction a with
  | nil => rfl
  | cons p rest ih => rw [all, ih, List.flatMap_cons]

@[simp] theorem part_leaf (l : Leaf) : V.part (.leaf l) = V.leaf l := rfl

@[simp] theorem part_child (s : Segment) (id : NodeId) (table : Table) (continued : Bool) :
    V.part (.child s id table continued) = V.child s id table continued := rfl

@[simp] theorem part_group (flow : Flow) :
    V.part (.group flow a) = V.group flow a (V.all a) := rfl

@[simp] theorem part_keyword : V.part (keyword text) = V.leaf ⟨.keyword, text⟩ := rfl

@[simp] theorem part_mark : V.part (mark text) = V.leaf ⟨.punctuation, text⟩ := rfl

@[simp] theorem part_bracket : V.part (bracket text) = V.leaf ⟨.bracket, text⟩ := rfl

@[simp] theorem all_nil : V.all [] = [] := rfl

@[simp] theorem all_cons (p : Part) : V.all (p :: a) = V.part p ++ V.all a := rfl

@[simp] theorem all_append : V.all (a ++ b) = V.all a ++ V.all b := by
  simp only [all_eq_flatMap, List.flatMap_append]

@[simp] theorem all_ite (c : Prop) [Decidable c] :
    V.all (if c then a else b) = if c then V.all a else V.all b := apply_ite V.all c a b

@[simp] theorem all_between (closing : String) : V.all (between text closing a) =
    V.leaf ⟨.bracket, text⟩ ++ (V.all a ++ V.leaf ⟨.bracket, closing⟩) := by
  simp [between]

@[simp] theorem all_braced : V.all (braced a) =
    V.leaf ⟨.bracket, "\x7b"⟩ ++ (V.group .block a (V.all a) ++ V.leaf ⟨.bracket, "\x7d"⟩) := by
  simp [braced]

theorem all_led : V.all (led a b) = if b.isEmpty then [] else V.all a ++ V.all b := by
  simp [led]

/-- A lead is lost only if nothing follows it. -/
@[simp] theorem all_led_eq (h : V.all a = []) : V.all (led a b) = V.all b := by
  cases b <;> simp [led, h]

@[simp] theorem all_wordIf (flag : Bool) :
    V.all (wordIf flag text) = if flag then V.leaf ⟨.keyword, text⟩ else [] := by
  simp [wordIf]

@[simp] theorem all_markIf (flag : Bool) :
    V.all (markIf flag text) = if flag then V.leaf ⟨.punctuation, text⟩ else [] := by
  simp [markIf]

theorem all_accessor (use : MethodUse) : V.all (use.accessor?.map keyword).toList =
    use.accessor?.toList.flatMap fun word => V.leaf ⟨.keyword, word⟩ := by
  cases use <;> simp [MethodUse.accessor?]

theorem all_intersperse (p : Part) : ∀ parts : List Part,
    V.all (List.intersperse p parts) = List.intercalate (V.part p) (parts.map V.part)
  | [] => rfl
  | [_] => rfl
  | q :: q' :: rest => by
      have ih := all_intersperse p (q' :: rest)
      rw [List.intersperse_cons_cons, all_cons, all_cons, ih]
      rfl

end builders

/-! ### Children -/

/-- Nothing is gathered from children that give nothing. -/
@[simp] theorem flatMap_children_eq_nil (cs : List β) : (cs.flatMap fun _ => ([] : List α)) = [] :=
  List.flatMap_eq_nil_iff.mpr fun _ _ => rfl

section children
variable (V : Visitor α) (t : Tree) (n : Node) (r : Role) (table : Table)

theorem all_slotPart? (s : Segment) (slot : Option NodeId) :
    V.all (slotPart? t s slot table).toList =
      (slot.filter t.has).toList.flatMap fun id => V.child s id table false := by
  cases slot with
  | none => rfl
  | some id => cases h : t.has id <;> simp [slotPart?, Option.filter, h]

@[simp] theorem all_only : V.all (only t n r table) =
    (present t n r.one).flatMap fun c => V.child c.1 c.2 table false := by
  rw [only, all_slotPart?, present_one, List.flatMap_map]

@[simp] theorem all_onlyContinued : V.all (onlyContinued t n r table) =
    (present t n r.one).flatMap fun c => V.child c.1 c.2 table true := by
  rw [present_one, onlyContinued]
  cases n.child? r with
  | none => rfl
  | some id => cases h : t.has id <;> simp [Option.filter, h]

@[simp] theorem all_each : V.all (each t n r table) =
    (present t n r.many).flatMap fun c => V.child c.1 c.2 table false := by
  have hparts : each t n r table = (List.range (n.slots r).length).flatMap fun i =>
      (slotPart? t (.element r i) ((n.slots r)[i]?.join) table).toList := by
    rw [each, zipIdx_eq_map_range, List.filterMap_map, List.filterMap_eq_flatMap_toList]
    rfl
  rw [hparts, present_many, all_eq_flatMap, List.flatMap_assoc, List.flatMap_assoc]
  refine List.flatMap_congr fun i _ => ?_
  rw [← all_eq_flatMap, all_slotPart?, slotDrawn, List.flatMap_map]

@[simp] theorem all_key (computed : Bool) : V.all (key t n computed) =
    (if computed then V.leaf ⟨.bracket, "["⟩ else []) ++
      (V.all (only t n .key .main) ++ if computed then V.leaf ⟨.bracket, "]"⟩ else []) := by
  cases computed <;> simp [key]

@[simp] theorem all_params : V.all (params t n) = V.leaf ⟨.bracket, "("⟩ ++
    (V.part (commas t n .params pattern) ++ V.leaf ⟨.bracket, ")"⟩) := by
  simp [params]

@[simp] theorem all_condition : V.all (condition t n r) = V.leaf ⟨.bracket, "("⟩ ++
    (V.all (only t n r .main) ++ V.leaf ⟨.bracket, ")"⟩) := by
  simp [condition]

theorem part_commasAt (indices : List ℕ) : ∃ parts, V.part (commasAt t n r indices table) =
    V.group .inline parts (List.intercalate (V.leaf ⟨.punctuation, ","⟩) <| indices.map fun i =>
      V.part ((slotPart? t (.element r i) ((n.slots r)[i]?.join) table).getD hole)) := by
  rw [commasAt, part_group, all_intersperse, List.map_map]
  exact ⟨_, rfl⟩

end children

/-! ### Quiet visitors -/

section quiet
variable (V : Visitor α) [V.Quiet] (text : String) (a b : List Part)

@[simp] theorem leaf_eq_nil {kind : LeafClass} (hbracket : kind ≠ .bracket)
    (hunknown : kind ≠ .unknown) : V.leaf ⟨kind, text⟩ = [] :=
  Quiet.leaf_eq_nil _ hbracket hunknown

@[simp] theorem part_operator : V.part (operator text) = [] := by
  rw [operator, part_leaf]
  split <;> simp

@[simp] theorem all_accessor_eq_nil (use : MethodUse) :
    V.all (use.accessor?.map keyword).toList = [] := by
  simp [all_accessor]

section children
variable (t : Tree) (n : Node) (r : Role) (table : Table)

@[simp] theorem all_switchCase : V.all (switchCase t n).parts =
    V.all (only t n .test .main) ++ V.part (.group .block (each t n .consequent .main)) := by
  unfold switchCase block
  cases only t n .test .main <;> simp

/-- The parentheses are there where there is a parameter. -/
@[simp] theorem all_catchClause : V.all (catchClause t n).parts =
    (if hasChild t n .param then V.leaf ⟨.bracket, "("⟩ else []) ++
      (V.all (only t n .param pattern) ++
        ((if hasChild t n .param then V.leaf ⟨.bracket, ")"⟩ else []) ++
          V.all (only t n .body .main))) := by
  unfold catchClause inline
  cases h : hasChild t n .param <;> simp [h, present_eq_nil]

/-- An export shows a declaration or specifiers. -/
@[simp] theorem all_exportNamed : V.all (exportNamed t n).parts =
    if hasChild t n .declaration then V.all (onlyContinued t n .declaration declaration)
    else V.all (between "\x7b" "\x7d" [commas t n .specifiers moduleClause]) ++
      V.all (only t n .source .main) := by
  unfold exportNamed block
  cases h : hasChild t n .declaration <;> simp [h]

variable [V.Through]

omit [V.Quiet] in
theorem part_slot (s : Segment) (slot : Option NodeId) :
    V.part ((slotPart? t s slot table).getD hole) =
      (slot.filter t.has).toList.flatMap fun id => V.child s id table false := by
  rw [← all_slotPart?]
  cases slotPart? t s slot table <;> simp [hole, Through.group_eq]

@[simp] theorem part_commasAt_eq (indices : List ℕ) : V.part (commasAt t n r indices table) =
    (indices.flatMap (slotDrawn t n r)).flatMap fun c => V.child c.1 c.2 table false := by
  obtain ⟨parts, hparts⟩ := V.part_commasAt t n r table indices
  have hcomma : V.leaf ⟨.punctuation, ","⟩ = [] := by simp
  rw [hparts, Through.group_eq, hcomma, nil_intercalate, ← List.flatMap_def, List.flatMap_assoc]
  refine List.flatMap_congr fun i _ => ?_
  rw [part_slot, slotDrawn, List.flatMap_map]

@[simp] theorem part_commas : V.part (commas t n r table) =
    (present t n r.many).flatMap fun c => V.child c.1 c.2 table false := by
  rw [commas, part_commasAt_eq, present_many]

/-- An import shows specifiers outside of braces and inside. -/
theorem all_importDeclaration : V.all (importDeclaration t n).parts =
    V.part (commasAt t n .specifiers (specifiers t n false) moduleClause) ++
      ((if (specifiers t n true).isEmpty then []
        else V.all (between "\x7b" "\x7d"
          [commasAt t n .specifiers (specifiers t n true) moduleClause])) ++
      V.all (only t n .source .main)) := by
  unfold importDeclaration block
  cases specifiers t n false <;> cases specifiers t n true <;> simp [Through.group_eq]

end children

end quiet

end Visitor

/-! ### Texts of leaves -/

/-- Takes the texts of the leaves of a class. -/
def texts (kind : LeafClass) : Visitor String where
  leaf l := if l.kind = kind then [l.text] else []
  child _ _ _ _ := []
  group _ _ inner := inner

section texts
variable (kind : LeafClass)

@[simp] theorem texts_leaf (l : Leaf) :
    (texts kind).leaf l = if l.kind = kind then [l.text] else [] := rfl

@[simp] theorem texts_child (s : Segment) (id : NodeId) (table : Table) (continued : Bool) :
    (texts kind).child s id table continued = [] := rfl

@[simp] theorem texts_group (flow : Flow) (parts : List Part) (inner : List String) :
    (texts kind).group flow parts inner = inner := rfl

instance : (texts kind).Through := ⟨fun _ _ _ => rfl⟩

instance : (texts .bracket).Quiet := ⟨fun _ hbracket _ => if_neg hbracket⟩

instance : (texts .unknown).Quiet := ⟨fun _ _ hunknown => if_neg hunknown⟩

end texts

/-! ### Calls for children -/

/-- A call for a child: the segment that leads to it, the table that it is rendered through, and
whether it is kept on the line. -/
structure Call where
  segment : Segment
  id : NodeId
  table : Table
  continued : Bool

def Call.held (c : Call) : Segment × NodeId := (c.segment, c.id)

/-- Takes the calls for children. -/
def calls : Visitor Call where
  leaf _ := []
  child s id table continued := [⟨s, id, table, continued⟩]
  group _ _ inner := inner

instance : calls.Quiet := ⟨fun _ _ _ => rfl⟩

instance : calls.Through := ⟨fun _ _ _ => rfl⟩

@[simp] theorem calls_leaf (l : Leaf) : calls.leaf l = [] := rfl

@[simp] theorem calls_child (s : Segment) (id : NodeId) (table : Table) (continued : Bool) :
    calls.child s id table continued = [⟨s, id, table, continued⟩] := rfl

@[simp] theorem calls_group (flow : Flow) (parts : List Part) (inner : List Call) :
    calls.group flow parts inner = inner := rfl

/-- The children that parts show, in the order of the display. -/
def drawnAll (parts : List Part) : List (Segment × NodeId) := (calls.all parts).map Call.held

/-- The children called for are those that the calls are made for. -/
@[simp] theorem map_held_calls (cs : List (Segment × NodeId)) (table : Table) (continued : Bool) :
    (cs.flatMap fun c => [Call.mk c.1 c.2 table continued]).map Call.held = cs := by
  rw [List.map_flatMap]
  exact List.flatMap_singleton' cs

namespace Visitor

/-! ### From one visitor to another -/

section relates
variable {α β : Type} {V : Visitor α} {W : Visitor β}

/-- What one visitor gathers is related to what another one does, but for children. -/
structure Relates (R : List α → List β → Prop) (V : Visitor α) (W : Visitor β) : Prop where
  nil : R [] []
  append {a b : List α} {a' b' : List β} : R a a' → R b b' → R (a ++ b) (a' ++ b')
  leaf (l : Leaf) : R (V.leaf l) (W.leaf l)
  group (flow : Flow) (parts : List Part) : R (V.all parts) (W.all parts) →
    R (V.part (.group flow parts)) (W.part (.group flow parts))

section relation
variable {R : List α → List β → Prop}

mutual

theorem Relates.part (h : Relates R V W) : ∀ p : Part,
    (∀ c ∈ calls.part p, R (V.child c.segment c.id c.table c.continued)
      (W.child c.segment c.id c.table c.continued)) → R (V.part p) (W.part p)
  | .leaf l, _ => h.leaf l
  | .child s id table continued, hchild =>
    hchild ⟨s, id, table, continued⟩ (List.mem_singleton_self _)
  | .group flow parts, hchild => h.group flow parts (Relates.all h parts hchild)

/-- What is gathered from parts is related if it is for the children that they call for. -/
theorem Relates.all (h : Relates R V W) : ∀ parts : List Part,
    (∀ c ∈ calls.all parts, R (V.child c.segment c.id c.table c.continued)
      (W.child c.segment c.id c.table c.continued)) → R (V.all parts) (W.all parts)
  | [], _ => h.nil
  | p :: rest, hchild =>
    h.append (Relates.part h p fun c hc => hchild c (List.mem_append_left _ hc))
      (Relates.all h rest fun c hc => hchild c (List.mem_append_right _ hc))

end

end relation

variable {f : List α → List β}

/-- A function takes what one visitor gathers to what another one does. -/
theorem map_all (hnil : f [] = []) (happend : ∀ a b, f (a ++ b) = f a ++ f b)
    (hleaf : ∀ l, f (V.leaf l) = W.leaf l)
    (hgroup : ∀ flow parts inner, f (V.group flow parts inner) = W.group flow parts (f inner))
    (parts : List Part) (hchild : ∀ c ∈ calls.all parts,
      f (V.child c.segment c.id c.table c.continued) =
        W.child c.segment c.id c.table c.continued) : f (V.all parts) = W.all parts := by
  have hrelates : Relates (fun a b => f a = b) V W := by
    refine ⟨hnil, ?_, hleaf, fun flow parts h => ?_⟩
    · rintro a b _ _ rfl rfl
      exact happend a b
    · rw [part_group, part_group, hgroup, h]
  exact hrelates.all parts hchild

/-- What only calls give is found call by call. -/
theorem flatMap_calls {g : Call → List β} (hnil : f [] = [])
    (happend : ∀ a b, f (a ++ b) = f a ++ f b) (hleaf : ∀ l, f (V.leaf l) = [])
    (hgroup : ∀ flow parts inner, f (V.group flow parts inner) = f inner) (parts : List Part)
    (hchild : ∀ c ∈ calls.all parts, f (V.child c.segment c.id c.table c.continued) = g c) :
    f (V.all parts) = (calls.all parts).flatMap g := by
  have hrelates : Relates (fun a cs => f a = cs.flatMap g) V calls := by
    refine ⟨hnil, fun ha hb => ?_, hleaf, fun flow parts h => ?_⟩
    · rw [happend, ha, hb, List.flatMap_append]
    · rw [part_group, hgroup, h]
      rfl
  exact hrelates.all parts fun c hc => (hchild c hc).trans (List.flatMap_singleton g c).symm

end relates

end Visitor

/-! ### What parts show -/

section shows
variable (child : Table → Path → NodeId → Option Fragment) (path : Path)

/-- Takes what the display shows. -/
def shows : Visitor Fragment where
  leaf l := [.leaf l]
  child s id table continued := display child path (.child s id table continued)
  group flow _ inner := [.group flow inner]

@[simp] theorem shows_leaf (l : Leaf) : (shows child path).leaf l = [.leaf l] := rfl

@[simp] theorem shows_group (flow : Flow) (parts : List Part) (inner : List Fragment) :
    (shows child path).group flow parts inner = [.group flow inner] := rfl

mutual

theorem display_eq : ∀ p : Part, display child path p = (shows child path).part p
  | .leaf _ => rfl
  | .child .. => rfl
  | .group flow parts => by
      rw [display, displayAll_eq parts]
      rfl

theorem displayAll_eq : ∀ parts : List Part,
    displayAll child path parts = (shows child path).all parts
  | [] => rfl
  | p :: rest => by rw [displayAll, display_eq p, displayAll_eq rest, Visitor.all_cons]

end

end shows

end SyntaxLens.Rendering
