import Mathlib.Data.List.Basic
import SyntaxLens.Settings.Key
import SyntaxLens.Settings.Loader
import SyntaxLens.Text.Lowercase

/-! # Accounts of a library for settings

What loading settings relies on is an account of the library, and that the library is as it says.

* An `Account` says what sources put at keys, what that does to a configuration, and how settings
  are read from values.
* The library is as the account says if it merges sources in order (`Library.MergesInOrder`), lays
  single values over all sources (`Library.OverridesLast`) and reads settings by their keys
  (`Library.ReadsByKey`).  Values are put key by key (`Account.MergesByKey`), and a file that may be
  missing and is puts nothing (`Account.MissesFiles`).

Keys are compared without case.  Nothing is said about what happens at a key when a value is put
above or below it, or in a list, but that it depends on what there was. -/

namespace SyntaxLens

/-! ### Keys -/

namespace Settings

def Step.fold : Step → Step
  | .name n => .name (Text.lowercase n)
  | .index i => .index i

namespace Key

/-- The form in which keys are compared. -/
def fold (k : Key) : Key := k.map Step.fold

/-- The key of names below each other. -/
def ofNames (names : List String) : Key := names.map .name

/-- A key holds names only. -/
def isDotted (k : Key) : Bool := !k.isEmpty && k.all fun
  | .name _ => true
  | .index _ => false

/-- Whether two keys part at a name: they begin with the same names, and go on with different
ones. -/
def parts : Key → Key → Bool
  | .name n :: k, .name m :: l => if n = m then parts k l else true
  | _, _ => false

/-- A key has nothing to do with names below each other: it neither is their key nor begins or
continues it, and it does not lead to an element of what is on the way. -/
def Apart (names : List String) (k : Key) : Prop :=
  ¬ k.fold <+: ofNames names ∧ ¬ ofNames names <+: k.fold ∧
    ∀ g i, g <+: ofNames names → ¬ g ++ [.index i] <+: k.fold

/-- Two keys part at a name if neither goes on where the other ends, and none goes on with an
index. -/
theorem parts_ofNames_iff (k : Key) (names : List String) : k.parts (ofNames names) = true ↔
    ¬ k <+: ofNames names ∧ ¬ ofNames names <+: k ∧
      ∀ g i, g <+: ofNames names → ¬ g ++ [.index i] <+: k := by
  induction names generalizing k with
  | nil => simp [parts, ofNames]
  | cons m names ih =>
      cases k with
      | nil => simp [parts]
      | cons s k =>
          cases s with
          | index i =>
              simp only [parts, Bool.false_eq_true, false_iff]
              rintro ⟨-, -, h⟩
              exact h [] i List.nil_prefix (List.prefix_append [_] k)
          | name n =>
              have hindex (g : Key) (i : Int) : g ++ [.index i] <+: .name n :: k ↔
                  ∃ g', g = .name n :: g' ∧ g' ++ [.index i] <+: k := by
                cases g with
                | nil => simp
                | cons s g => simp [List.cons_prefix_cons, and_assoc]
              rw [ofNames, List.map_cons, ← ofNames, parts]
              split_ifs with h
              · subst h
                rw [ih, List.cons_prefix_cons, List.cons_prefix_cons, and_iff_right rfl,
                  and_iff_right rfl]
                refine and_congr_right fun _ => and_congr_right fun _ => ?_
                constructor
                · intro hall g i hg hk
                  obtain ⟨g, rfl, hrest⟩ := (hindex g i).mp hk
                  exact hall g i (List.cons_prefix_cons.mp hg).2 hrest
                · intro hall g i hg hk
                  exact hall (.name n :: g) i (List.cons_prefix_cons.mpr ⟨rfl, hg⟩)
                    ((hindex _ i).mpr ⟨g, rfl, hk⟩)
              · refine iff_of_true rfl ⟨?_, ?_, ?_⟩
                · exact fun hk => h (Step.name.inj (List.cons_prefix_cons.mp hk).1)
                · exact fun hk => h (Step.name.inj (List.cons_prefix_cons.mp hk).1).symm
                · intro g i hg hk
                  obtain ⟨g, rfl, -⟩ := (hindex g i).mp hk
                  exact h (Step.name.inj (List.cons_prefix_cons.mp hg).1)

theorem apart_iff {names : List String} {k : Key} :
    Apart names k ↔ k.fold.parts (ofNames names) = true := (parts_ofNames_iff k.fold names).symm

instance (names : List String) : DecidablePred (Apart names) :=
  fun _ => decidable_of_iff _ apart_iff.symm

end Key

end Settings

open Settings (Key)

/-! ### Settings and their keys -/

/-- A group of settings, or of groups, that is in no other. -/
inductive TopGroup where
  | render
  | formats
  | viewer
  | logging
deriving DecidableEq, Repr

def TopGroup.name : TopGroup → String
  | .render => "render"
  | .formats => "formats"
  | .viewer => "viewer"
  | .logging => "logging"

/-- A setting. -/
inductive Setting where
  | defaultFormat
  | indent
  | labelWidth
  | outlineWidth
  | startInOutline
  | tickRate
  | logLevel
deriving DecidableEq, Repr

namespace Setting

def all : List Setting :=
  [.defaultFormat, .indent, .labelWidth, .outlineWidth, .startInOutline, .tickRate, .logLevel]

theorem mem_all (t : Setting) : t ∈ all := by
  cases t <;> decide

def top : Setting → TopGroup
  | .defaultFormat => .render
  | .indent | .labelWidth => .formats
  | .outlineWidth | .startInOutline | .tickRate => .viewer
  | .logLevel => .logging

/-- The names of the group that a setting is in. -/
def group (t : Setting) : List String := t.top.name :: match t with
  | .indent => ["text"]
  | .labelWidth => ["treeviz"]
  | _ => []

/-- The name of a setting in its group. -/
def name : Setting → String
  | .defaultFormat => "default_format"
  | .indent => "indent_string"
  | .labelWidth => "label_width"
  | .outlineWidth => "outline_width"
  | .startInOutline => "start_in_outline"
  | .tickRate => "tick_rate_ms"
  | .logLevel => "level"

/-- The names that lead to a setting. -/
def names (t : Setting) : List String := t.group ++ [t.name]

end Setting

/-! ### Accounts -/

/-- An account of how a library works, with its values `V`, configurations `C` and errors `E`. -/
structure Account (V C E : Type) where
  /-- A written key taken apart. -/
  parse? : String → Option Key
  /-- The library finds a file of some name. -/
  Finds : Surroundings → String → Prop
  /-- What a source puts at keys. -/
  collect : Surroundings → Source → Except E (List (Key × V))
  /-- The configuration before anything is put. -/
  empty : C
  /-- Puts a value at a key. -/
  put : C → Key → V → C
  /-- The value at names below each other. -/
  at? : C → List String → Option V
  isTable : V → Bool
  /-- The value is a number, a truth value or a text. -/
  isSingle : V → Bool
  /-- What is in a table, and in the tables in it, by the names that lead there.  A value that is no
  table, or has no entries, counts as being in itself. -/
  leaves : V → List (List String × V)
  /-- What a value is as a text. -/
  text : V → Option String
  /-- What a value is as a natural number. -/
  nat : V → Option Nat
  /-- What a value is as a natural number of sixteen bits. -/
  nat16 : V → Option Nat
  /-- What a value is as a truth value. -/
  bool : V → Option Bool

namespace Account

variable {V C B E : Type} (A : Account V C E)

/-- Puts values at keys, one after the other. -/
def putEach (c : C) (ps : List (Key × V)) : C := ps.foldl (fun c p => A.put c p.1 p.2) c

/-- What is put when a value is put at a key: what is in a table goes to keys of its own. -/
def assigned (p : Key × V) : List (Key × V) :=
  if p.1.isDotted then (A.leaves p.2).map fun l => (p.1 ++ Key.ofNames l.1, l.2) else [p]

/-- A value reads, converted to what a setting is, as what settings say. -/
def Reads (t : Setting) (v : V) (x : Settings) : Prop :=
  match t with
  | .defaultFormat => A.text v = some x.defaultFormat
  | .indent => A.text v = some x.indent
  | .labelWidth => A.nat v = some x.labelWidth
  | .outlineWidth => A.nat16 v = some x.outlineWidth
  | .startInOutline => A.bool v = some x.startInOutline
  | .tickRate => A.nat v = some x.tickRate
  | .logLevel => A.text v = some x.logLevel

/-- The group of a setting is a table. -/
def Tabled (c : C) (t : Setting) : Prop := ∃ v ∈ A.at? c t.group, A.isTable v

/-! ### What is relied on -/

/-- Values are put key by key.

* A table is merged with what there is, entry by entry.
* What is at some names depends on what was there; it stays if the key parts from them, or if the
  group that they are in is given a table without entries.
* A single value is where it was put last, and nowhere but at its own key. -/
structure MergesByKey : Prop where
  put_assigned (c : C) (p : Key × V) : A.put c p.1 p.2 = A.putEach c (A.assigned p)
  put_congr {c c' : C} {names : List String} : A.at? c' names = A.at? c names → ∀ k v,
    A.at? (A.put c' k v) names = A.at? (A.put c k v) names
  put_apart (c : C) {k : Key} (v : V) {names : List String} : Key.Apart names k →
    A.at? (A.put c k v) names = A.at? c names
  put_header (c : C) {p a : Key × V} : a ∈ A.assigned p → A.isTable a.2 →
    ∀ group name, a.1.fold <+: Key.ofNames group →
      A.at? (A.put c a.1 a.2) (group ++ [name]) = A.at? c (group ++ [name])
  at?_empty {names : List String} {w : V} : A.at? A.empty names = some w → ¬ A.isSingle w
  at?_put {c : C} {p a : Key × V} {names : List String} {w : V} : a ∈ A.assigned p →
    A.at? (A.put c a.1 a.2) names = some w → A.isSingle w →
      if a.1.fold = Key.ofNames names ∧ ¬ A.isTable a.2 then w = a.2 else A.at? c names = some w

/-- A file that is missing is an error if it has to be there, and puts nothing otherwise. -/
structure MissesFiles : Prop where
  required {s : Surroundings} {name : String} : ¬ A.Finds s name →
    ∃ e, A.collect s (.file name true) = .error e
  optional {s : Surroundings} {name : String} : ¬ A.Finds s name →
    A.collect s (.file name false) = .ok []

end Account

namespace Library

variable {V C B E : Type} (L : Library V C B E) (A : Account V C E)

/-- Sources are merged in the order in which they are added. -/
structure MergesInOrder : Prop where
  build (s : Surroundings) (sources : List Source) :
    L.build s (sources.foldl L.addSource L.builder) = (do
      let groups ← sources.mapM (A.collect s)
      return A.putEach A.empty groups.flatten)

/-- Single values are put after all sources, one after the other. -/
structure OverridesLast : Prop where
  setOverride_addSource (b : B) (source : Source) (key : String) (v : V) :
    L.setOverride (L.addSource b source) key v =
      (L.setOverride b key v).map (L.addSource · source)
  setOverride_of_parse? {key : String} {k : Key} : A.parse? key = some k → ∀ b v,
    ∃ b', L.setOverride b key v = .ok b' ∧
      ∀ s, L.build s b' = (L.build s b).map fun c => A.put c k v
  setOverride_of_not_parse? {key : String} : A.parse? key = none →
    ∃ e, ∀ b v, L.setOverride b key v = .error e

/-- Settings are read from single values by their keys, where their groups are tables.  Groups are
read one by one, from what is under their names. -/
structure ReadsByKey : Prop where
  isSingle {t : Setting} {v : V} {x : Settings} : A.Reads t v x → A.isSingle v
  read {c : C} {x : Settings} : L.read c = .ok x → ∀ t, A.Tabled c t →
    ∃ v, A.at? c t.names = some v ∧ A.Reads t v x
  read_congr {c c' : C} {x : Settings} : L.read c = .ok x →
    (∀ g : TopGroup, A.at? c' [g.name] = A.at? c [g.name] ∨
      ∀ t : Setting, t.top = g → ∃ v, A.at? c' t.names = some v ∧ A.Reads t v x) →
    L.read c' = .ok x

end Library

end SyntaxLens
