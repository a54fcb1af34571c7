import Mathlib.Data.String.Basic
import SyntaxLens.Json.Parser

/-! # Members in order

An object that is read from a text has its members in the order of their keys, each key once
(`ordered_of_parse`): the parser enters every member at its place (`Members.Ordered.insert`). -/

namespace SyntaxLens.Json

/-- The members come in the order of their keys, and no key twice. -/
def Members.Ordered (ms : Members) : Prop := ms.Pairwise fun m m' => m.1 < m'.1

instance (ms : Members) : Decidable ms.Ordered :=
  inferInstanceAs (Decidable (ms.Pairwise fun m m' => m.1 < m'.1))

/-- The members of an object come in the order of their keys. -/
def Ordered (json : Json) : Prop := ∀ ms, json = .object ms → Members.Ordered ms

theorem Members.fst_of_mem_insert {key : String} {value : Json} {ms : Members}
    {m : String × Json} (h : m ∈ Members.insert key value ms) : m.1 = key ∨ m ∈ ms := by
  induction ms with
  | nil =>
      rw [List.mem_singleton.mp h]
      exact .inl rfl
  | cons first rest ih =>
      rw [insert] at h
      split_ifs at h
      · rcases List.mem_cons.mp h with rfl | h
        · exact .inl rfl
        · exact .inr h
      · rcases List.mem_cons.mp h with rfl | h
        · exact .inl rfl
        · exact .inr (List.mem_cons_of_mem _ h)
      · rcases List.mem_cons.mp h with rfl | h
        · exact .inr List.mem_cons_self
        · exact (ih h).imp_right (List.mem_cons_of_mem _)

theorem Members.Ordered.insert {ms : Members} (h : ms.Ordered) (key : String) (value : Json) :
    (Members.insert key value ms).Ordered := by
  induction ms with
  | nil => exact List.pairwise_singleton _ _
  | cons first rest ih =>
      obtain ⟨hfirst, hrest⟩ := List.pairwise_cons.mp h
      rw [Members.insert]
      split_ifs with hlt heq
      · refine List.pairwise_cons.mpr ⟨?_, h⟩
        rw [List.forall_mem_cons]
        exact ⟨hlt, fun m hm => hlt.trans (hfirst m hm)⟩
      · subst heq
        exact List.pairwise_cons.mpr ⟨hfirst, hrest⟩
      · refine List.pairwise_cons.mpr ⟨fun m hm => ?_, ih hrest⟩
        rcases fst_of_mem_insert hm with hkey | hm
        · rw [hkey]
          exact lt_of_le_of_ne (not_lt.mp hlt) (Ne.symm heq)
        · exact hfirst m hm

theorem ordered_object {ms : Members} (h : ms.Ordered) : (object ms).Ordered := by
  rintro _ ⟨⟩
  exact h

namespace Parser

theorem exists_of_bind_eq_ok {ε α β : Type} {x : Except ε α} {f : α → Except ε β} {b : β}
    (h : x >>= f = .ok b) : ∃ a, x = .ok a ∧ f a = .ok b := by
  cases x with
  | error e => cases h
  | ok a => exact ⟨a, rfl, h⟩

theorem exists_of_map_eq_ok {ε α β : Type} {x : Except ε α} {f : α → β} {b : β}
    (h : x.map f = .ok b) : ∃ a, x = .ok a ∧ f a = b := by
  cases x with
  | error e => cases h
  | ok a => exact ⟨a, rfl, Except.ok.inj h⟩

theorem unexpected_ne_ok {α : Type} {atEnd cause : Cause} {cs : List Char} {read : α × List Char} :
    unexpected atEnd cause cs ≠ .ok read := by
  cases cs <;> exact fun h => by cases h

theorem eq_of_letters {json json' : Json} {letters : List Char} : ∀ {cs rest : List Char},
    Parser.letters json letters cs = .ok (json', rest) → json' = json := by
  induction letters with
  | nil => exact fun h => (Prod.mk.inj (Except.ok.inj h)).1.symm
  | cons e es ih =>
      intro cs rest h
      cases cs with
      | nil => cases h
      | cons c cs =>
          rw [Parser.letters] at h
          split at h
          · exact ih h
          · cases h

theorem ordered_members (steps : ℕ) : ∀ {depth : ℕ} {acc : Members} {cs rest : List Char}
    {json : Json}, acc.Ordered → members steps depth acc cs = .ok (json, rest) → json.Ordered := by
  induction steps with
  | zero => exact fun _ h => absurd h unexpected_ne_ok
  | succ steps ih =>
      intro depth acc cs rest json hacc h
      rw [members] at h
      obtain ⟨⟨key, cs⟩, -, h⟩ := exists_of_bind_eq_ok h
      dsimp only at h
      split at h
      · obtain ⟨⟨item, cs⟩, -, h⟩ := exists_of_bind_eq_ok h
        have hinsert := hacc.insert key item
        dsimp only at h
        split at h
        · split at h
          · exact ih hinsert h
          · cases h
          · exact absurd h unexpected_ne_ok
        · obtain ⟨rfl, -⟩ := Prod.mk.inj (Except.ok.inj h)
          exact ordered_object hinsert
        · exact absurd h unexpected_ne_ok
      · exact absurd h unexpected_ne_ok

theorem exists_array_of_elements (steps : ℕ) : ∀ {depth : ℕ} {acc : List Json}
    {cs rest : List Char} {json : Json}, elements steps depth acc cs = .ok (json, rest) →
      ∃ items, json = .array items := by
  induction steps with
  | zero => exact fun h => absurd h unexpected_ne_ok
  | succ steps ih =>
      intro depth acc cs rest json h
      rw [elements] at h
      obtain ⟨⟨item, cs⟩, -, h⟩ := exists_of_bind_eq_ok h
      dsimp only at h
      split at h
      · split at h
        · cases h
        · cases h
        · exact ih h
      · obtain ⟨rfl, -⟩ := Prod.mk.inj (Except.ok.inj h)
        exact ⟨_, rfl⟩
      · exact absurd h unexpected_ne_ok

theorem ordered_value {steps depth : ℕ} {cs rest : List Char} {json : Json}
    (h : value steps depth cs = .ok (json, rest)) : json.Ordered := by
  intro ms hms
  subst hms
  cases steps with
  | zero => exact absurd h unexpected_ne_ok
  | succ steps =>
      rw [value] at h
      split at h
      · cases eq_of_letters h
      · cases eq_of_letters h
      · cases eq_of_letters h
      · obtain ⟨_, -, h⟩ := exists_of_map_eq_ok h
        cases (Prod.mk.inj h).1
      · obtain ⟨_, -, h⟩ := exists_of_map_eq_ok h
        cases (Prod.mk.inj h).1
      · split at h
        · cases h
        · split at h
          · cases h
          · cases h
          · obtain ⟨_, hitems⟩ := exists_array_of_elements _ h
            cases hitems
      · split at h
        · cases h
        · split at h
          · obtain ⟨hnil, -⟩ := Prod.mk.inj (Except.ok.inj h)
            exact Json.object.inj hnil ▸ List.Pairwise.nil
          · exact ordered_members _ List.Pairwise.nil h ms rfl
          · exact absurd h unexpected_ne_ok
      · split at h
        · obtain ⟨_, -, h⟩ := exists_of_map_eq_ok h
          cases (Prod.mk.inj h).1
        · cases h
      · cases h

end Parser

/-- The members of an object that is read from a text are in order. -/
theorem ordered_of_parse {text : String} {json : Json} (h : parse text = .ok json) :
    json.Ordered := by
  unfold parse at h
  cases hwhole : Parser.whole text.toList with
  | error f =>
      rw [hwhole] at h
      cases h
  | ok json' =>
      rw [hwhole] at h
      obtain rfl := Except.ok.inj h
      obtain ⟨⟨json'', rest⟩, hvalue, h⟩ := Parser.exists_of_bind_eq_ok hwhole
      dsimp only at h
      split at h
      · obtain rfl := Except.ok.inj h
        exact Parser.ordered_value hvalue
      · cases h

end SyntaxLens.Json
