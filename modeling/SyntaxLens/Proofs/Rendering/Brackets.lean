import SyntaxLens.Proofs.Fragment.Frames
import SyntaxLens.Proofs.Rendering.Tables

/-! # Brackets

The brackets of a rendered node are nested, and so are those of every node below it
(`Tree.render_nested`).

* **Sequences.**  `Nested` is the grammar of nested sequences.  A stack of the brackets that are
  still awaited decides it (`nested_iff`), and a nested sequence leaves that stack as it was.
* **Plans.**  The brackets of a plan itself, without those that children show, are nested, whichever
  children are there (`Rendering.planFor?_nested`).
* **Nodes.**  Children that show nested sequences change nothing about what is awaited
  (`Rendering.foldlM_displayAll`), so a rendered node shows a nested sequence, by induction on the
  depth (`Rendering.renderAt_nested`). -/

namespace SyntaxLens

/-! ### Sequences -/

/-- The bracket that closes another one. -/
def closing? : String → Option String
  | "(" => some ")"
  | "[" => some "]"
  | "\x7b" => some "\x7d"
  | _ => none

/-- Every bracket is closed by its own, and between the two the sequence is nested. -/
inductive Nested : List String → Prop
  | nil : Nested []
  | pair {opening closing : String} {inner rest : List String} : closing? opening = some closing →
      Nested inner → Nested rest → Nested (opening :: inner ++ closing :: rest)

/-- The brackets that are awaited after one more: its own if it is an opening one.  A closing one
has to be the one that is awaited first. -/
def await? (awaited : List String) (x : String) : Option (List String) :=
  match closing? x with
  | some closing => some (closing :: awaited)
  | none => if awaited.head? = some x then some awaited.tail else none

section sequences
variable {a b awaited : List String} {opening closing : String}

theorem await?_opening (h : closing? opening = some closing) :
    await? awaited opening = some (closing :: awaited) := by
  rw [await?, h]

theorem await?_closing (h : closing? closing = none) :
    await? (closing :: awaited) closing = some awaited := by
  rw [await?, h]
  exact if_pos rfl

theorem closing?_of_closing? (h : closing? opening = some closing) : closing? closing = none := by
  unfold closing? at h
  split at h <;> cases h <;> rfl

theorem Nested.between (h : closing? opening = some closing) (ha : Nested a) :
    Nested (opening :: a ++ [closing]) := .pair h ha .nil

/-- A nested sequence leaves the awaited brackets as they were. -/
theorem Nested.foldlM_await? (ha : Nested a) :
    ∀ awaited, a.foldlM await? awaited = some awaited := by
  induction ha with
  | nil => exact fun _ => rfl
  | @pair opening closing inner rest h _ _ ihinner ihrest =>
      intro awaited
      rw [List.cons_append, List.foldlM_cons, await?_opening h]
      change (inner ++ closing :: rest).foldlM await? (closing :: awaited) = some awaited
      rw [List.foldlM_append, ihinner]
      change (closing :: rest).foldlM await? (closing :: awaited) = some awaited
      rw [List.foldlM_cons, await?_closing (closing?_of_closing? h)]
      exact ihrest awaited

/-- The sequence closes the awaited brackets one after the other, with nested sequences between. -/
inductive Closes : List String → List String → Prop
  | nil {a : List String} : Nested a → Closes [] a
  | cons {closing : String} {awaited a b : List String} : Nested a → Closes awaited b →
      Closes (closing :: awaited) (a ++ closing :: b)

theorem Closes.pair (h : closing? opening = some closing) (ha : Nested a)
    (hb : Closes awaited b) : Closes awaited (opening :: a ++ closing :: b) := by
  cases hb with
  | nil hb => exact .nil (.pair h ha hb)
  | @cons next _ b c hb hc =>
      have hsplit : opening :: a ++ closing :: (b ++ next :: c) =
          (opening :: a ++ closing :: b) ++ next :: c := by simp
      rw [hsplit]
      exact .cons (.pair h ha hb) hc

theorem closes_of_foldlM (l : List String) :
    ∀ awaited, l.foldlM await? awaited = some [] → Closes awaited l := by
  induction l with
  | nil =>
      intro awaited h
      obtain rfl := Option.some.inj h
      exact .nil .nil
  | cons x rest ih =>
      intro awaited h
      rw [List.foldlM_cons] at h
      obtain ⟨next, hnext, hrest⟩ := Option.bind_eq_some_iff.mp h
      unfold await? at hnext
      split at hnext
      · rename_i closing hx
        obtain rfl := Option.some.inj hnext
        cases ih _ hrest with
        | cons hinner hafter => exact .pair hx hinner hafter
      · obtain ⟨hhead, hnext⟩ := Option.ite_none_right_eq_some.mp hnext
        obtain rfl := Option.some.inj hnext
        obtain ⟨awaited, rfl⟩ := List.head?_eq_some_iff.mp hhead
        exact .cons .nil (ih _ hrest)

/-- A sequence is nested exactly if nothing is awaited after it. -/
theorem nested_iff : Nested a ↔ a.foldlM await? [] = some [] := by
  constructor
  · exact fun ha => ha.foldlM_await? []
  · intro ha
    cases closes_of_foldlM a [] ha with
    | nil ha => exact ha

@[simp] theorem nested_nil : Nested [] := .nil

theorem Nested.append_iff (ha : Nested a) : Nested (a ++ b) ↔ Nested b := by
  rw [nested_iff, nested_iff, List.foldlM_append, ha.foldlM_await?]
  rfl

@[simp] theorem nested_pair_iff (h : closing? opening = some closing) :
    Nested (opening :: closing :: a) ↔ Nested a := (Nested.between h .nil).append_iff

@[simp] theorem nested_ite_iff (c : Prop) [Decidable c] :
    Nested (if c then a else b) ↔ (c → Nested a) ∧ (¬c → Nested b) := by
  split <;> simp [*]

/-- A pair that is there or is not. -/
@[simp] theorem nested_ite_pair_iff (c : Prop) [Decidable c] (h : closing? opening = some closing) :
    Nested ((if c then [opening] else []) ++ ((if c then [closing] else []) ++ a)) ↔ Nested a := by
  split
  · exact nested_pair_iff h
  · rfl

@[simp] theorem nested_ite_pair (c : Prop) [Decidable c] (h : closing? opening = some closing) :
    Nested ((if c then [opening] else []) ++ if c then [closing] else []) := by
  split
  · exact .between h .nil
  · exact .nil

instance : DecidablePred Nested := fun _ => decidable_of_iff _ nested_iff.symm

example : ¬ Nested ["(", "[", ")", "]"] := by decide

end sequences

namespace Fragment

/-- The brackets among leaves. -/
def bracketsOf (ls : List Leaf) : List String :=
  (ls.filter fun l => l.kind == .bracket).map Leaf.text

/-- The brackets of a fragment, in display order. -/
def brackets (f : Fragment) : List String := bracketsOf f.leaves

/-- The brackets of fragments, one fragment after the other. -/
def bracketsAll (fs : List Fragment) : List String := bracketsOf (leavesAll fs)

theorem bracketsAll_append (a b : List Fragment) :
    bracketsAll (a ++ b) = bracketsAll a ++ bracketsAll b := by
  rw [bracketsAll, leavesAll_append, bracketsOf, List.filter_append, List.map_append]
  rfl

theorem bracketsAll_singleton (f : Fragment) : bracketsAll [f] = f.brackets := by
  rw [bracketsAll, leavesAll, leavesAll, List.append_nil, brackets]

theorem brackets_continued (f : Fragment) : f.continued.brackets = f.brackets := by
  cases f <;> rfl

end Fragment

namespace Rendering

/-! ### Plans -/

section plans
variable {t : Tree} {n : Node} {plan : Plan} {table : Table}

theorem planFor?_main_nested (h : planFor? t n .main = some plan) :
    Nested ((texts .bracket).all plan.parts) := by
  rw [planFor?_main] at h
  cases hform : n.form with
  | unknown tag =>
      rw [hform] at h
      cases h
      exact .nil
  | known kind traits =>
      rw [hform] at h
      cases kind <;> dsimp only [Kind.Traits] at traits <;> cases h <;>
        simp [closing?, inline, block, text, regExp, blockStatement, guarded,
          sentence, labeled, ifStatement, switchStatement, tryStatement, doWhile, forStatement,
          forEach, arrow, yield, prefixed, operation, bind, conditional, call, array, object,
          unary, member, objectProperty, renamed, Visitor.all_importDeclaration,
          spread, function, declared, declarator, classOf, method, classMethod, classProperty,
          exportDefault]

/-- The brackets of a plan itself are nested, whichever children are there.  A plan without its last
semicolon has the same. -/
theorem planFor?_nested (h : planFor? t n table = some plan) :
    Nested ((texts .bracket).all plan.parts) := by
  rcases planFor?_cases h with hmain | ⟨parts, hmain, rfl⟩
  · exact planFor?_main_nested hmain
  · simpa [block, inline] using planFor?_main_nested hmain

end plans

/-! ### Nodes -/

section display
variable {child : Table → Path → NodeId → Option Fragment}

/-- Where what children show is nested, only the brackets of parts themselves matter to what is
awaited. -/
theorem foldlM_displayAll
    (hchild : ∀ table path id f, child table path id = some f → Nested f.brackets) (path : Path)
    (parts : List Part) (awaited : List String) :
    (Fragment.bracketsAll (displayAll child path parts)).foldlM await? awaited =
      ((texts .bracket).all parts).foldlM await? awaited := by
  have hrelates : Visitor.Relates (fun fs ls => ∀ awaited,
      (Fragment.bracketsAll fs).foldlM await? awaited = ls.foldlM await? awaited)
      (shows child path) (texts .bracket) := by
    refine ⟨fun _ => rfl, fun ha hb awaited => ?_, fun l awaited => ?_, fun flow parts h => ?_⟩
    · rw [Fragment.bracketsAll_append, List.foldlM_append, List.foldlM_append, ha awaited]
      exact bind_congr hb
    · obtain ⟨kind, text⟩ := l
      cases kind <;> rfl
    · intro awaited
      rw [Visitor.part_group, Visitor.part_group, texts_group, ← h awaited]
      exact congrArg (·.foldlM await? awaited) (Fragment.bracketsAll_singleton _)
  rw [displayAll_eq]
  refine hrelates.all parts (fun c _ awaited => ?_) awaited
  simp only [shows, display, texts_child]
  cases hf : child c.table (path ++ [c.segment]) c.id with
  | none => rfl
  | some f =>
      have hplaced : (placed c.continued f).brackets = f.brackets := by
        cases c.continued
        · rfl
        · exact Fragment.brackets_continued f
      change (Fragment.bracketsAll [placed c.continued f]).foldlM await? awaited = some awaited
      rw [Fragment.bracketsAll_singleton, hplaced]
      exact (hchild _ _ _ f hf).foldlM_await? awaited

end display

/-- A node shows a nested sequence of brackets at every depth, and so does every node below it. -/
theorem renderAt_nested (t : Tree) (focus : Option Path) (depth : ℕ) :
    ∀ (table : Table) (path : Path) (id : NodeId) (f : Fragment),
      renderAt t focus depth table path id = some f →
      ∀ C ∈ f.subfragments, C.mark?.isSome → Nested C.brackets := by
  induction depth with
  | zero => intro table path id f h; cases h
  | succ depth ih =>
      intro table path id f h C hC hmark
      obtain ⟨n, plan, hn, hplan, rfl⟩ := exists_plan_of_renderAt h
      have hchild : ∀ table path id f, renderAt t focus depth table path id = some f →
          Nested f.brackets := by
        intro table path id f hf
        obtain ⟨mark, hmark, -⟩ := mark?_of_renderAt hf
        exact ih table path id f hf f List.mem_cons_self (by rw [hmark]; rfl)
      rcases List.mem_cons.mp hC with rfl | hC
      · change Nested (Fragment.bracketsAll _)
        rw [nested_iff, foldlM_displayAll hchild, ← nested_iff]
        exact planFor?_nested hplan
      · obtain ⟨m, hm⟩ := Option.isSome_iff_exists.mp hmark
        obtain ⟨⟨s, c, table', continued⟩, -, g, hg, hplaced⟩ :=
          exists_call_of_mem_displayAll hm path plan.parts hC
        rcases hplaced with rfl | hbelow
        · have hnested := hchild _ _ _ g hg
          cases continued
          · exact hnested
          · rwa [placed, if_pos rfl, Fragment.brackets_continued]
        · exact ih _ _ _ g hg C (List.mem_cons_of_mem _ hbelow) hmark

end Rendering

namespace Tree

/-- From a node that reaches no cycle, whatever its arena is, the renderer ends with one fragment,
and the brackets of that are nested, and so are those of every node composite in it. -/
theorem render_nested (t : Tree) {id : NodeId} (hacyclic : t.AcyclicFrom id)
    (focus : Option Path) :
    ((t.render focus id).isSome ↔ t.has id) ∧ ∀ f, t.render focus id = some f →
      (∃ flag base, Rendering.Emits t flag (.node .main id) base [f] base) ∧ Nested f.brackets ∧
      ∀ C ∈ f.subfragments, C.mark?.isSome → Nested C.brackets := by
  refine ⟨isSome_render_iff, fun f hf => ?_⟩
  obtain ⟨flag, base, hrender⟩ : ∃ flag base,
      Rendering.renderAt t flag t.size .main base id = some f := by
    cases hbase : t.pathOf? id with
    | some base => exact ⟨focus, base, render_of_pathOf? hbase focus ▸ hf⟩
    | none => exact ⟨none, [], render_of_pathOf?_eq_none hbase focus ▸ hf⟩
  have hnested := Rendering.renderAt_nested t flag t.size .main base id f hrender
  obtain ⟨mark, hmark, -⟩ := Rendering.mark?_of_renderAt hrender
  refine ⟨⟨flag, base, ?_⟩, hnested f List.mem_cons_self (by rw [hmark]; rfl), hnested⟩
  exact (Rendering.emits_iff hacyclic).mpr ⟨by rw [hrender]; rfl, rfl⟩

/-- A call whose arguments are an object that shares the callee, a hole and a place outside; the
callee has a name outside of the arena. -/
def lopsided : Array Node := #[
  .ofEntries (.known .callExpression ())
    [(.callee, some 2), (.arguments, some 1), (.arguments, none), (.arguments, some 9)],
  .ofEntries (.known .objectExpression ()) [(.properties, some 2)],
  .ofEntries (.known .memberExpression true) [(.object, some 3), (.property, some 9)],
  .ofEntries (.known .thisExpression ()) []]

theorem render_nested_lopsided : let t := ofNodes lopsided 0
    t.AcyclicFrom 0 ∧ ∃ f, t.render none 0 = some f ∧
      f.brackets = ["[", "]", "(", "\x7b", "[", "]", "\x7d", ")"] ∧ Nested f.brackets := by
  intro t
  have hacyclic : t.AcyclicFrom 0 := acyclicFrom_of_lt_size (by decide) 0
  obtain ⟨hsome, hnested⟩ := render_nested t hacyclic none
  obtain ⟨f, hf⟩ := Option.isSome_iff_exists.mp (hsome.mpr rfl)
  have hbrackets : (t.render none 0).map Fragment.brackets =
      some ["[", "]", "(", "\x7b", "[", "]", "\x7d", ")"] := by decide +kernel
  rw [hf] at hbrackets
  exact ⟨hacyclic, f, hf, Option.some.inj hbrackets, (hnested f hf).2.1⟩

end Tree

end SyntaxLens
