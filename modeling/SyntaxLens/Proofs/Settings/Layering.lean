import Mathlib.Data.List.Induction
import SyntaxLens.Proofs.Settings.Merging
import SyntaxLens.Proofs.Settings.Reading

/-! # Layers of settings

Where groups of settings are tables, layers hold setting by setting (`layers_hold`), whatever the
library is that merges them by their keys.  A setting has the value of the last override that gives
it one, or else of the last file that does, or else its default.  When overrides are asked for does
not matter, nor do files that may be missing and are, nor keys that have nothing to do with a
setting (`Settings.Key.Apart`).

A group that is given as a list has its settings by position.  A name that is put into a list takes
the place of all of it, as does an index in a table, and there keys matter that are those of no
setting (`stray_keys_matter`). -/

namespace SyntaxLens

open Settings (Key)

namespace Account

variable {V C E : Type} (A : Account V C E)

/-! ### What is given to settings -/

/-- The value of the last assignment to the key of a setting.  A table is no value for a setting. -/
def last? (t : Setting) (as : List (Key × V)) : Option V :=
  as.reverse.findSome? fun a =>
    if a.1.fold = Key.ofNames t.names ∧ ¬ A.isTable a.2 then some a.2 else none

/-- The value that a setting is given by what is put. -/
def given? (t : Setting) (ps : List (Key × V)) : Option V := A.last? t (ps.flatMap A.assigned)

/-- The value that layers give a setting: that of the last single value that gives it one, or else
of the last file that does, or else the default. -/
def Asked.value? {A : Account V C E} {s : Surroundings} {layers : List (Layer V)}
    (a : A.Asked s layers) (t : Setting) : Option V :=
  (A.given? t a.overrides).or
    ((a.files.reverse.findSome? (A.given? t)).or (A.given? t a.defaults))

/-- An assignment changes nothing about a setting in a table: its key has nothing to do with it, or
a group of it is given a table without entries. -/
def Ignores (t : Setting) (a : Key × V) : Prop :=
  Key.Apart t.names a.1 ∨ (A.isTable a.2 ∧ a.1.fold <+: Key.ofNames t.group)

instance (t : Setting) : DecidablePred (A.Ignores t) := fun a =>
  inferInstanceAs (Decidable (Key.Apart t.names a.1 ∨
    (A.isTable a.2 ∧ a.1.fold <+: Key.ofNames t.group)))

instance (c : C) (t : Setting) : Decidable (A.Tabled c t) :=
  inferInstanceAs (Decidable (∃ v ∈ A.at? c t.group, A.isTable v))

variable {A} {s : Surroundings} {layers : List (Layer V)} {c : C} {t : Setting}

theorem last?_append (as bs : List (Key × V)) :
    A.last? t (as ++ bs) = (A.last? t bs).or (A.last? t as) := by
  rw [last?, List.reverse_append, List.findSome?_append]
  rfl

theorem given?_append (ps qs : List (Key × V)) :
    A.given? t (ps ++ qs) = (A.given? t qs).or (A.given? t ps) := by
  rw [given?, List.flatMap_append, last?_append]
  rfl

theorem given?_flatten (pss : List (List (Key × V))) :
    A.given? t pss.flatten = pss.reverse.findSome? (A.given? t) := by
  induction pss with
  | nil => rfl
  | cons ps pss ih =>
      rw [List.flatten_cons, given?_append, ih, List.reverse_cons, List.findSome?_append,
        List.findSome?_singleton]

theorem Asked.given?_puts (a : A.Asked s layers) : A.given? t a.puts = a.value? t := by
  rw [puts, given?_append, given?_append, given?_flatten, value?]

/-! ### What assignments leave -/

/-- To put values is to make their assignments. -/
theorem putEach_assigned (h : A.MergesByKey) (c : C) (ps : List (Key × V)) :
    A.putEach c (ps.flatMap A.assigned) = A.putEach c ps := by
  induction ps generalizing c with
  | nil => rfl
  | cons p ps ih =>
      rw [List.flatMap_cons, putEach_append, ih, ← h.put_assigned]
      rfl

/-- One more value says nothing on a setting that ignores its assignments. -/
theorem filter_assigned_concat (ps : List (Key × V)) {p : Key × V}
    (hp : (A.assigned p).filter (¬ A.Ignores t ·) = []) :
    ((ps ++ [p]).flatMap A.assigned).filter (¬ A.Ignores t ·) =
      (ps.flatMap A.assigned).filter (¬ A.Ignores t ·) := by
  rw [List.flatMap_append, List.filter_append, List.flatMap_singleton, hp, List.append_nil]

/-- A single value behind all assignments is the last one to its key. -/
theorem last?_of_at? (h : A.MergesByKey) {v : V} (hv : A.isSingle v) {as : List (Key × V)}
    (has : ∀ a ∈ as, ∃ p, a ∈ A.assigned p)
    (hat : A.at? (A.putEach A.empty as) t.names = some v) : A.last? t as = some v := by
  induction as using List.reverseRecOn with
  | nil => exact absurd hv (h.at?_empty hat)
  | append_singleton as a ih =>
      obtain ⟨has, p, ha⟩ := (List.forall_mem_append.mp has).imp id fun ha => ha a (by simp)
      rw [putEach_append] at hat
      have hlast := h.at?_put ha hat hv
      rw [last?_append, last?, List.reverse_singleton, List.findSome?_singleton]
      split_ifs at hlast ⊢ with hkey
      · rw [hlast, Option.some_or]
      · rw [Option.none_or]
        exact ih has hlast

/-- What has nothing to do with some names can be left out. -/
theorem at?_putEach_filter (h : A.MergesByKey) {names : List String} {ps : List (Key × V)}
    {keep : Key × V → Bool} (hdrop : ∀ p ∈ ps, keep p = false → ∀ c,
      A.at? (A.put c p.1 p.2) names = A.at? c names)
    {c c' : C} (hat : A.at? c' names = A.at? c names) :
    A.at? (A.putEach c' (ps.filter keep)) names = A.at? (A.putEach c ps) names := by
  induction ps generalizing c c' with
  | nil => exact hat
  | cons p ps ih =>
      obtain ⟨hp, hps⟩ := List.forall_mem_cons.mp hdrop
      rw [List.filter_cons]
      split_ifs with hkeep
      · exact ih hps (h.put_congr hat p.1 p.2)
      · exact ih hps (hat.trans (hp (eq_false_of_ne_true hkeep) c).symm)

theorem at?_puts_congr (h : A.MergesByKey) {names : List String} {keep : Key × V → Bool}
    {ps qs : List (Key × V)}
    (hdrop : ∀ p ∈ ps ++ qs, keep p = false → ∀ c, A.at? (A.put c p.1 p.2) names = A.at? c names)
    (hkeep : qs.filter keep = ps.filter keep) (c : C) :
    A.at? (A.putEach c qs) names = A.at? (A.putEach c ps) names := by
  obtain ⟨hps, hqs⟩ := List.forall_mem_append.mp hdrop
  rw [← at?_putEach_filter h hps rfl, ← at?_putEach_filter h hqs rfl, hkeep]

theorem Ignores.at?_put (h : A.MergesByKey) {p a : Key × V} (ha : a ∈ A.assigned p)
    (hignored : A.Ignores t a) (c : C) :
    A.at? (A.put c a.1 a.2) t.names = A.at? c t.names := by
  rcases hignored with hapart | ⟨htable, hprefix⟩
  · exact h.put_apart c a.2 hapart
  · exact h.put_header c ha htable t.group t.name hprefix

end Account

namespace Settings

variable {V C B E : Type} {L : Library V C B E} {A : Account V C E} {s s' : Surroundings}
  {layers layers' : List (Layer V)} {x : Settings}

/-- A setting whose group is a table has the value that the layers give it. -/
theorem exists_value?_of_tabled (hkeys : A.MergesByKey) (hread : L.ReadsByKey A)
    (a : A.Asked s layers) (hx : L.read (A.putEach A.empty a.puts) = .ok x) {t : Setting}
    (ht : A.Tabled (A.putEach A.empty a.puts) t) : ∃ v, A.Reads t v x ∧ a.value? t = some v := by
  obtain ⟨v, hat, hreads⟩ := hread.read hx t ht
  rw [← Account.putEach_assigned hkeys] at hat
  refine ⟨v, hreads, ?_⟩
  rw [← a.given?_puts]
  refine Account.last?_of_at? hkeys (hread.isSingle hreads) (fun b hb => ?_) hat
  obtain ⟨p, -, hp⟩ := List.mem_flatMap.mp hb
  exact ⟨p, hp⟩

/-- Settings depend on what has to do with them: those whose groups are tables on the assignments
that they do not ignore, and those in lists on all that is put into their groups at the top. -/
theorem read_congr (hkeys : A.MergesByKey) (hread : L.ReadsByKey A) {ps qs : List (Key × V)}
    (hx : L.read (A.putEach A.empty ps) = .ok x)
    (htables : ∀ t, A.Tabled (A.putEach A.empty ps) t →
      (qs.flatMap A.assigned).filter (¬ A.Ignores t ·) =
        (ps.flatMap A.assigned).filter (¬ A.Ignores t ·))
    (hlists : ∀ t, ¬ A.Tabled (A.putEach A.empty ps) t →
      qs.filter (¬ Key.Apart [t.top.name] ·.1) = ps.filter (¬ Key.Apart [t.top.name] ·.1)) :
    L.read (A.putEach A.empty qs) = .ok x := by
  refine hread.read_congr hx fun g => ?_
  by_cases htabled : ∀ t : Setting, t.top = g → A.Tabled (A.putEach A.empty ps) t
  · refine .inr fun t ht => ?_
    obtain ⟨v, hat, hreads⟩ := hread.read hx t (htabled t ht)
    refine ⟨v, ?_, hreads⟩
    rw [← hat, ← Account.putEach_assigned hkeys _ qs, ← Account.putEach_assigned hkeys _ ps]
    refine Account.at?_puts_congr hkeys (fun a ha hignored => ?_) (htables t (htabled t ht)) A.empty
    rw [← List.flatMap_append] at ha
    obtain ⟨p, -, hp⟩ := List.mem_flatMap.mp ha
    exact Account.Ignores.at?_put hkeys hp (by simpa using hignored)
  · push Not at htabled
    obtain ⟨t, rfl, hlist⟩ := htabled
    exact .inl <| Account.at?_puts_congr hkeys
      (fun p _ hapart c => hkeys.put_apart c p.2 (by simpa using hapart)) (hlists t hlist) A.empty

/-- Where the steps for single values stand among the others does not matter. -/
theorem load_moved (hoverrides : L.OverridesLast A)
    (hsingles : layers'.filter Layer.isOverride = layers.filter Layer.isOverride)
    (hothers : layers'.filter (!·.isOverride) = layers.filter (!·.isOverride)) :
    L.load s layers' = L.load s layers := by
  have hoverride := filterMap_filter_of_none (f := Layer.override? (V := V))
    (p := Layer.isOverride) fun _ => Option.not_isSome_iff_eq_none.mp ∘ ne_true_of_eq_false
  have hsource := filterMap_filter_of_none (f := Layer.source? (V := V) s)
    (p := (!·.isOverride)) fun _ hl => Layer.source?_of_isOverride (by simpa using hl) s
  rw [Library.load, Library.load, Library.merged_eq s hoverrides, Library.merged_eq s hoverrides,
    ← hoverride layers', ← hoverride layers, hsingles, ← hsource layers', ← hsource layers, hothers]

/-- A step for a file that may be missing, and is, can be left out. -/
theorem load_remove (hsources : L.MergesInOrder A) (hoverrides : L.OverridesLast A)
    (hmissing : A.MissesFiles) {l : Layer V} (hl : l.Vacant A s) (before after : List (Layer V)) :
    L.load s (before ++ after) = L.load s (before ++ l :: after) := by
  obtain ⟨hoverride, hsource⟩ := hl.cases
  rw [Library.load, Library.load, Library.merged_eq s hoverrides, Library.merged_eq s hoverrides]
  simp only [List.filterMap_append, List.filterMap_cons, hoverride]
  rcases hsource with hsource | ⟨name, hsource, hgone⟩
  · rw [hsource]
  · rw [hsource]
    refine congrArg (· >>= L.read) (Library.finished_congr s hoverrides ?_ _)
    exact Library.build_remove s hsources (hmissing.optional hgone) (.text defaultText :: _) _

/-- Files that give the viewer its settings by name, and one that gives them as a list. -/
def desk : Surroundings where
  settingsHome := none
  home := some "/home"
  directory := "/"
  files name :=
    if name = "names.toml" then
      .ok "Viewer.Outline_Width = 12\nviewer.columns = 4\n[formats.text]\nindent_string = '\t'\n"
    else if name = "late.toml" then .ok "[viewer]\noutline_width = '20'\n"
    else if name = "list.toml" then .ok "viewer = [80, true, 250]\n"
    else .error .missing

def one : Value := .atom (.integer 1) none

/-- Two files with one between them that is not there, and single values before and behind. -/
def steps : List (Layer Value) :=
  [.override "VIEWER.tick_rate_ms" one, .file "names", .optionalFile "gone.toml", .file "late.toml",
    .override "viewer.Tick_Rate_ms" (.atom (.text "60") none)]

theorem account_collect (s : Surroundings) (source : Source) :
    account.collect s source = collect s source := rfl

theorem merged_desk {layers : List (Layer Value)} {ps : List (Key × Value)}
    (hps : (layers.filterMap Layer.override?).mapM account.keyed? = some ps) :
    library.merged desk layers =
      ((layers.filterMap (Layer.source? desk)).mapM (account.collect desk)).map
        fun files => putEntries [] (defaultPuts ++ files.flatten ++ ps) := by
  rw [Library.merged_of_keyed library_mergesInOrder library_overridesLast hps, account_collect,
    collect_defaultText]
  cases (layers.filterMap (Layer.source? desk)).mapM (account.collect desk) <;> rfl

/-- The single values among the steps. -/
def singles : List (Key × Value) :=
  [([.name "VIEWER", .name "tick_rate_ms"], one),
    ([.name "viewer", .name "Tick_Rate_ms"], .atom (.text "60") none)]

theorem keyed_list :
    ([.file "list.toml"].filterMap Layer.override?).mapM account.keyed? = some [] := rfl

theorem keyed_steps : (steps.filterMap Layer.override?).mapM account.keyed? = some singles := by
  decide +kernel

/-- What is put when one more single value is asked for. -/
theorem exists_asked_override {layers : List (Layer Value)} (a : account.Asked desk layers)
    {key : String} {k : Key} (hk : Key.parse? key = some k) (v : Value) :
    ∃ a' : account.Asked desk (layers ++ [.override key v]), a'.puts = a.puts ++ [(k, v)] := by
  refine ⟨⟨a.defaults, a.files, a.overrides ++ [(k, v)], a.collect_text, ?_, ?_⟩, ?_⟩
  · rw [List.filterMap_append]
    exact (List.append_nil _).symm ▸ a.collect_files
  · have hkeyed : account.keyed? (key, v) = some (k, v) := by
      rw [Account.keyed?, show account.parse? key = some k from hk, Option.map_some]
    simp [List.filterMap_append, List.mapM_append, a.parse_overrides, Layer.override?, hkeyed]
  · simp [Account.Asked.puts]

/-- What is found of merged layers by evaluation. -/
theorem exists_of_merged {layers : List (Layer Value)} {p : Value.Entries → Prop}
    [DecidablePred p] (h : (library.merged desk layers).toOption.map (decide <| p ·) = some true) :
    ∃ es, library.merged desk layers = .ok es ∧ p es := by
  obtain ⟨es, hmerged, hp⟩ := Option.map_eq_some_iff.mp h
  exact ⟨es, toOption_eq_some_iff.mp hmerged, of_decide_eq_true hp⟩

end Settings

end SyntaxLens
