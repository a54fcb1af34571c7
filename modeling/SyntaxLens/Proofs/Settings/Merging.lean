import SyntaxLens.Proofs.Settings.Account

/-! # Merging layers

A list of steps asks for sources and for single values with their keys (`Layer.source?`,
`Layer.override?`).  A library that lays single values over all sources does not mind how the steps
for both are mixed (`merged_eq`).

What layers put is an `Account.Asked`: the values of the defaults, those of every file, and the
single ones.  Merged layers are what there is when all of them are put (`merged_eq_ok_iff`). -/

namespace SyntaxLens

open Settings (Key)

variable {V C B E : Type}

/-! ### What is asked for -/

namespace Layer

/-- The source that a step asks for. -/
def source? (s : Surroundings) : Layer V → Option Source
  | .file name => some (.file name true)
  | .optionalFile name => some (.file name false)
  | .userFile => (userFileName? s.settingsHome s.home).map (.file · false)
  | .override .. => none

/-- The single value that a step asks for, and its key. -/
def override? : Layer V → Option (String × V)
  | .override key v => some (key, v)
  | _ => none

/-- The step asks for a single value. -/
def isOverride (l : Layer V) : Bool := l.override?.isSome

/-- The step asks for a file that may be missing, and is. -/
def Vacant (A : Account V C E) (s : Surroundings) : Layer V → Prop
  | .optionalFile name => ¬ A.Finds s name
  | .userFile => ∀ name, userFileName? s.settingsHome s.home = some name → ¬ A.Finds s name
  | .file _ | .override .. => False

theorem source?_of_isOverride {l : Layer V} (h : l.isOverride = true) (s : Surroundings) :
    l.source? s = none := by
  cases l with
  | override key v => rfl
  | file | optionalFile | userFile => cases h

/-- A vacant step asks for nothing, or for a file that puts nothing. -/
theorem Vacant.cases {A : Account V C E} {s : Surroundings} {l : Layer V} (h : l.Vacant A s) :
    l.override? = none ∧
      (l.source? s = none ∨ ∃ name, l.source? s = some (.file name false) ∧ ¬ A.Finds s name) := by
  cases l with
  | optionalFile name => exact ⟨rfl, .inr ⟨name, rfl, h⟩⟩
  | userFile =>
      refine ⟨rfl, ?_⟩
      rw [source?]
      cases hname : userFileName? s.settingsHome s.home with
      | none => exact .inl rfl
      | some name => exact .inr ⟨name, rfl, h name hname⟩
  | file | override => cases h

end Layer

theorem filterMap_filter_of_none {α β : Type} {f : α → Option β} {p : α → Bool}
    (h : ∀ x, p x = false → f x = none) (xs : List α) :
    (xs.filter p).filterMap f = xs.filterMap f := by
  rw [List.filterMap_filter]
  refine List.filterMap_congr fun x _ => ?_
  split_ifs with hx
  · rfl
  · exact (h x (eq_false_of_ne_true hx)).symm

theorem exists_of_mapM_eq_ok {ε α β : Type} {f : α → Except ε β} {xs : List α} {ys : List β}
    (h : xs.mapM f = .ok ys) {x : α} (hx : x ∈ xs) : ∃ y, f x = .ok y := by
  induction xs generalizing ys with
  | nil => cases hx
  | cons x' xs ih =>
      rw [List.mapM_cons] at h
      cases hy : f x' with
      | error e =>
          rw [hy] at h
          cases h
      | ok y =>
          cases hys : xs.mapM f with
          | error e =>
              rw [hy, hys] at h
              cases h
          | ok ys =>
              rcases List.mem_cons.mp hx with rfl | hx
              · exact ⟨y, hy⟩
              · exact ih hys hx

namespace Account

variable (A : Account V C E) (s : Surroundings) (layers : List (Layer V))

/-- A single value with its key taken apart. -/
def keyed? (o : String × V) : Option (Key × V) := (A.parse? o.1).map (·, o.2)

/-- What a list of steps puts at keys: by the defaults, by each file, and by single values. -/
structure Asked where
  defaults : List (Key × V)
  files : List (List (Key × V))
  overrides : List (Key × V)
  collect_text : A.collect s (.text Settings.defaultText) = .ok defaults
  collect_files : (layers.filterMap (Layer.source? s)).mapM (A.collect s) = .ok files
  parse_overrides : (layers.filterMap Layer.override?).mapM A.keyed? = some overrides

variable {A s layers}

/-- All that is put, in its order. -/
def Asked.puts (a : A.Asked s layers) : List (Key × V) :=
  a.defaults ++ a.files.flatten ++ a.overrides

theorem putEach_append (c : C) (ps qs : List (Key × V)) :
    A.putEach c (ps ++ qs) = A.putEach (A.putEach c ps) qs := List.foldl_append

end Account

namespace Library

variable {L : Library V C B E} {A : Account V C E} (s : Surroundings)

/-! ### The order of the steps -/

variable (L) in
/-- The configuration that sources give with single values laid over them. -/
def finished (sources : List Source) (overrides : List (String × V)) : Except E C := do
  let b ← overrides.foldlM (fun b o => L.setOverride b o.1 o.2)
    (sources.foldl L.addSource L.builder)
  L.build s b

theorem setOverride_addSources (h : L.OverridesLast A) (b : B) (sources : List Source)
    (key : String) (v : V) : L.setOverride (sources.foldl L.addSource b) key v =
      (L.setOverride b key v).map (sources.foldl L.addSource ·) := by
  induction sources generalizing b with
  | nil =>
      rw [List.foldl_nil]
      cases L.setOverride b key v <;> rfl
  | cons source sources ih =>
      rw [List.foldl_cons, ih, h.setOverride_addSource]
      cases L.setOverride b key v <;> rfl

/-- Sources can be asked for first, and single values then. -/
theorem foldlM_ask (h : L.OverridesLast A) (b : B) (layers : List (Layer V)) :
    layers.foldlM (L.ask s) b = (layers.filterMap Layer.override?).foldlM
      (fun b o => L.setOverride b o.1 o.2)
      ((layers.filterMap (Layer.source? s)).foldl L.addSource b) := by
  induction layers generalizing b with
  | nil => rfl
  | cons l layers ih =>
      rw [List.foldlM_cons]
      cases l with
      | file name => exact ih (L.addSource b (.file name true))
      | optionalFile name => exact ih (L.addSource b (.file name false))
      | userFile =>
          have hnone : Layer.override? (.userFile : Layer V) = none := rfl
          rw [ask, List.filterMap_cons, List.filterMap_cons, Layer.source?, hnone]
          cases userFileName? s.settingsHome s.home with
          | none => exact ih b
          | some name => exact ih (L.addSource b (.file name false))
      | override key v =>
          rw [ask, List.filterMap_cons, List.filterMap_cons, Layer.source?, Layer.override?,
            List.foldlM_cons, setOverride_addSources h]
          cases L.setOverride b key v with
          | error e => rfl
          | ok b => exact ih b

theorem merged_eq (h : L.OverridesLast A) (layers : List (Layer V)) : L.merged s layers =
    L.finished s (.text Settings.defaultText :: layers.filterMap (Layer.source? s))
      (layers.filterMap Layer.override?) := by
  rw [merged, foldlM_ask s h]
  rfl

/-! ### Single values over sources -/

/-- Single values are put into what has been built without them. -/
theorem build_overrides_of_some (h : L.OverridesLast A) {os : List (String × V)}
    {ps : List (Key × V)} (hos : os.mapM A.keyed? = some ps) (b : B) :
    (os.foldlM (fun b o => L.setOverride b o.1 o.2) b >>= L.build s) =
      (L.build s b).map (A.putEach · ps) := by
  induction os generalizing b ps with
  | nil =>
      obtain rfl := Option.some.inj hos
      change L.build s b = _
      cases L.build s b <;> rfl
  | cons o os ih =>
      simp only [List.mapM_cons, Account.keyed?, Option.bind_eq_bind, Option.bind_eq_some_iff,
        Option.map_eq_some_iff] at hos
      obtain ⟨p, ⟨k, hk, rfl⟩, ps, hps, hcons⟩ := hos
      obtain rfl := Option.some.inj hcons
      obtain ⟨b', hb', hbuild⟩ := h.setOverride_of_parse? hk b o.2
      rw [List.foldlM_cons, hb']
      refine (ih hps b').trans ?_
      rw [hbuild]
      cases L.build s b <;> rfl

/-- A key that cannot be taken apart is an error, whatever is built. -/
theorem exists_error_of_none (h : L.OverridesLast A) {os : List (String × V)}
    (hos : os.mapM A.keyed? = none) : ∃ e, ∀ b,
      os.foldlM (fun b o => L.setOverride b o.1 o.2) b = .error e := by
  induction os with
  | nil => cases hos
  | cons o os ih =>
      cases hk : A.parse? o.1 with
      | none =>
          obtain ⟨e, he⟩ := h.setOverride_of_not_parse? hk
          refine ⟨e, fun b => ?_⟩
          rw [List.foldlM_cons, he]
          rfl
      | some k =>
          have hrest : os.mapM A.keyed? = none := by
            have hkeyed : A.keyed? o = some (k, o.2) := by rw [Account.keyed?, hk, Option.map_some]
            rw [List.mapM_cons, hkeyed] at hos
            cases hrest : os.mapM A.keyed? with
            | none => rfl
            | some ps =>
                rw [hrest] at hos
                cases hos
          obtain ⟨e, he⟩ := ih hrest
          refine ⟨e, fun b => ?_⟩
          obtain ⟨b', hb', -⟩ := h.setOverride_of_parse? hk b o.2
          rw [List.foldlM_cons, hb']
          exact he b'

/-- What single values are laid over matters as far as it is built. -/
theorem finished_congr (h : L.OverridesLast A) {sources sources' : List Source}
    (hbuild : L.build s (sources'.foldl L.addSource L.builder) =
      L.build s (sources.foldl L.addSource L.builder)) (os : List (String × V)) :
    L.finished s sources' os = L.finished s sources os := by
  cases hos : os.mapM A.keyed? with
  | some ps =>
      rw [finished, finished, build_overrides_of_some s h hos, build_overrides_of_some s h hos,
        hbuild]
  | none =>
      obtain ⟨e, he⟩ := exists_error_of_none h hos
      rw [finished, finished, he, he]

/-- A source that puts nothing can be left out. -/
theorem build_remove (h : L.MergesInOrder A) {source : Source}
    (hnone : A.collect s source = .ok []) (before after : List Source) :
    L.build s ((before ++ after).foldl L.addSource L.builder) =
      L.build s ((before ++ source :: after).foldl L.addSource L.builder) := by
  rw [h.build, h.build, List.mapM_append, List.mapM_append, List.mapM_cons, hnone]
  cases before.mapM (A.collect s) with
  | error e => rfl
  | ok groups =>
      cases after.mapM (A.collect s) with
      | error e => rfl
      | ok groups' =>
          refine congrArg (fun ps => Except.ok (A.putEach A.empty ps)) ?_
          simp

variable {s} {layers : List (Layer V)}

theorem merged_of_keyed (hsources : L.MergesInOrder A) (hoverrides : L.OverridesLast A)
    {ps : List (Key × V)} (hps : (layers.filterMap Layer.override?).mapM A.keyed? = some ps) :
    L.merged s layers = (do
      let defaults ← A.collect s (.text Settings.defaultText)
      let files ← (layers.filterMap (Layer.source? s)).mapM (A.collect s)
      return A.putEach A.empty (defaults ++ files.flatten ++ ps)) := by
  rw [merged_eq s hoverrides, finished, build_overrides_of_some s hoverrides hps, hsources.build,
    List.mapM_cons]
  cases A.collect s (.text Settings.defaultText) with
  | error e => rfl
  | ok defaults =>
      cases (layers.filterMap (Layer.source? s)).mapM (A.collect s) with
      | error e => rfl
      | ok files => exact congrArg Except.ok (Account.putEach_append _ _ ps).symm

/-- Merged layers are all that they put, one after the other. -/
theorem merged_eq_ok_iff (hsources : L.MergesInOrder A) (hoverrides : L.OverridesLast A) {c : C} :
    L.merged s layers = .ok c ↔ ∃ a : A.Asked s layers, A.putEach A.empty a.puts = c := by
  constructor
  · intro h
    cases hps : (layers.filterMap Layer.override?).mapM A.keyed? with
    | none =>
        obtain ⟨e, he⟩ := exists_error_of_none hoverrides hps
        rw [merged_eq s hoverrides, finished, he] at h
        cases h
    | some ps =>
        rw [merged_of_keyed hsources hoverrides hps] at h
        cases htext : A.collect s (.text Settings.defaultText) with
        | error e =>
            rw [htext] at h
            cases h
        | ok defaults =>
            cases hfiles : (layers.filterMap (Layer.source? s)).mapM (A.collect s) with
            | error e =>
                rw [htext, hfiles] at h
                cases h
            | ok files =>
                rw [htext, hfiles] at h
                exact ⟨⟨defaults, files, ps, htext, hfiles, hps⟩, Except.ok.inj h⟩
  · rintro ⟨a, rfl⟩
    rw [merged_of_keyed hsources hoverrides a.parse_overrides, a.collect_text, a.collect_files]
    rfl

theorem load_eq_ok_iff {x : Settings} :
    L.load s layers = .ok x ↔ ∃ c, L.merged s layers = .ok c ∧ L.read c = .ok x := by
  rw [load]
  cases L.merged s layers with
  | error e =>
      constructor
      · exact fun h => nomatch h
      · rintro ⟨_, h, -⟩
        cases h
  | ok c =>
      constructor
      · exact fun h => ⟨c, rfl, h⟩
      · rintro ⟨_, h, hread⟩
        cases h
        exact hread

end Library

end SyntaxLens
