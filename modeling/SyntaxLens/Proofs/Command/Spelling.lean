import Mathlib.Data.List.Nodup
import Mathlib.Data.List.Pairwise
import Mathlib.Data.List.TakeWhile
import SyntaxLens.Command.Print

/-! # Spelling requests

Whatever can be asked of a command can be spelled: `Usage.words` are arguments that are read as
given values of its options and a given name (`Usage.read_words`).  So every request to the printing
command has its arguments (`Print.Request.asks_words`).

* A value stands behind `=` and a name behind two dashes, so any text will do.
* `Usage.Spells` says that arguments add options to what was given before, as long as nothing is
  given twice that must not be (`Usage.Fresh`).  It goes from one argument to all of them. -/

namespace SyntaxLens.Command

namespace Usage

variable {u : Usage}

/-- Nothing is given again that cannot be. -/
def Fresh (u : Usage) (given : List Given) : Prop :=
  given.Pairwise fun before g => u.exhausted [before] g = false

/-- Behind what was given, the arguments are read as the options. -/
def Spells (u : Usage) (words : List String) (options : List Given) : Prop :=
  ∀ given rest, u.Fresh (given ++ options) →
    u.readFrom given none (words ++ rest) = u.readFrom (given ++ options) none rest

theorem exhausted_eq_false {given : List Given} {g : Given}
    (h : u.Fresh (given ++ [g])) : u.exhausted given g = false := by
  have hbefore : ∀ before ∈ given, u.exhausted [before] g = false :=
    fun before hmem => (List.pairwise_append.mp h).2.2 before hmem g List.mem_cons_self
  cases g with
  | name text =>
      rw [exhausted, List.any_eq_false]
      intro before hmem
      simpa [exhausted] using hbefore before hmem
  | switch long value =>
      rw [exhausted, Bool.and_eq_false_iff, List.any_eq_false]
      cases hrepeats : (u.ofLong? long).any (!·.repeats) with
      | false => exact .inl rfl
      | true =>
          refine .inr fun before hmem => ?_
          simpa [exhausted, hrepeats] using hbefore before hmem

theorem add_eq_ok {given : List Given} {g : Given} (hversion : g ≠ .switch version.long "")
    (hhelp : g ≠ .switch help.long "") (h : u.Fresh (given ++ [g])) :
    u.add given g = .ok (given ++ [g]) := by
  simp [add, hversion, hhelp, exhausted_eq_false h]

theorem spells_nil : u.Spells [] [] := by
  intro given rest _
  rw [List.append_nil, List.nil_append]

theorem Spells.append {words words' : List String} {options options' : List Given}
    (h : u.Spells words options) (h' : u.Spells words' options') :
    u.Spells (words ++ words') (options ++ options') := by
  intro given rest hfresh
  rw [← List.append_assoc] at hfresh ⊢
  rw [List.append_assoc, h given _ (List.pairwise_append.mp hfresh).1, h' _ rest hfresh]

theorem spells_flatMap {α : Type} {words : α → List String} {options : α → List Given}
    {xs : List α} (h : ∀ x ∈ xs, u.Spells (words x) (options x)) :
    u.Spells (xs.flatMap words) (xs.flatMap options) := by
  induction xs with
  | nil => exact spells_nil
  | cons x xs ih =>
      obtain ⟨hx, hxs⟩ := List.forall_mem_cons.mp h
      rw [List.flatMap_cons, List.flatMap_cons]
      exact hx.append (ih hxs)

/-- A long option is read without its dashes. -/
theorem readFrom_word {given given' : List Given} {text : List Char} (hne : text ≠ [])
    (h : u.word given text = .ok (given', none)) (rest : List String) :
    u.readFrom given none (String.ofList ('-' :: '-' :: text) :: rest) =
      u.readFrom given' none rest := by
  obtain ⟨c, cs, rfl⟩ := List.exists_cons_of_ne_nil hne
  rw [readFrom, String.toList_ofList]
  change (u.word given (c :: cs) >>= fun read => u.readFrom read.1 read.2 rest) = _
  rw [h]
  rfl

/-- A name behind two dashes. -/
theorem readFrom_name {given : List Given} {text : String}
    (hfresh : u.Fresh (given ++ [.name text])) :
    u.readFrom given none ["--", text] = .ok (given ++ [.name text]) := by
  rw [readFrom]
  simp [u.add_eq_ok (by simp) (by simp) hfresh]

/-! ### Spelling values -/

/-- The options can be told apart by their long names, and these from their values. -/
structure Spellable (u : Usage) : Prop where
  nodup : (u.all.map Switch.long).Nodup
  plain : ∀ s ∈ u.switches, s.long.toList ≠ [] ∧ '=' ∉ s.long.toList

/-- The values can be given: one at most for an option that is given once, and none but the empty
one for an option that takes none. -/
structure Fits (u : Usage) (values : String → List String) : Prop where
  once : ∀ s ∈ u.switches, s.repeats = false → (values s.long).length ≤ 1
  empty : ∀ s ∈ u.switches, s.takesValue = false → ∀ value ∈ values s.long, value = ""

/-- The argument that gives a value to an option. -/
def spell (s : Switch) (value : String) : String :=
  if s.takesValue then "--" ++ s.long ++ "=" ++ value else "--" ++ s.long

/-- The arguments that give values to the options, by their long names, and a name. -/
def words (u : Usage) (values : String → List String) (name : Option String) : List String :=
  (u.switches.flatMap fun s => (values s.long).map (spell s)) ++
    name.toList.flatMap fun text => ["--", text]

/-- What these arguments give. -/
def options (u : Usage) (values : String → List String) (name : Option String) : List Given :=
  (u.switches.flatMap fun s => (values s.long).map (.switch s.long)) ++ name.toList.map .name

namespace Spellable

variable (h : u.Spellable) {s : Switch}
include h

theorem ofLong?_long (hs : s ∈ u.switches) : u.ofLong? s.long = some s := by
  have hall : s ∈ u.all := List.mem_append_left _ hs
  have hsome : (u.ofLong? s.long).isSome := List.find?_isSome.mpr ⟨s, hall, beq_self_eq_true _⟩
  obtain ⟨s', hfind⟩ := Option.isSome_iff_exists.mp hsome
  have hlong : s'.long = s.long := by simpa using List.find?_some hfind
  rw [hfind, List.inj_on_of_nodup_map h.nodup (List.mem_of_find?_eq_some hfind) hall hlong]

theorem long_ne (hs : s ∈ u.switches) : s.long ≠ version.long ∧ s.long ≠ help.long := by
  have hnodup := h.nodup
  rw [all, List.map_append, List.nodup_append] at hnodup
  have hapart := hnodup.2.2 s.long (List.mem_map_of_mem hs)
  exact ⟨hapart _ (by simp), hapart _ (by simp)⟩

theorem longs_pairwise : u.switches.Pairwise fun s s' => s.long ≠ s'.long :=
  (List.pairwise_append.mp (List.pairwise_map.mp h.nodup)).1

theorem spells_spell (hs : s ∈ u.switches) {value : String}
    (hvalue : s.takesValue = false → value = "") :
    u.Spells [spell s value] [.switch s.long value] := by
  intro given rest hfresh
  obtain ⟨hversion, hhelp⟩ := h.long_ne hs
  obtain ⟨hne, hequals⟩ := h.plain s hs
  have hadd := u.add_eq_ok (by simp [hversion]) (by simp [hhelp]) hfresh
  have hall : ∀ c ∈ s.long.toList, (c != '=') = true :=
    fun c hc => bne_iff_ne.mpr (ne_of_mem_of_not_mem hc hequals)
  rw [List.singleton_append]
  cases htakes : s.takesValue with
  | false =>
      obtain rfl := hvalue htakes
      have hspell : spell s "" = String.ofList ('-' :: '-' :: s.long.toList) := by
        rw [← String.toList_inj]
        simp [spell, htakes]
      have hword : u.word given s.long.toList = .ok (given ++ [.switch s.long ""], none) := by
        rw [word, List.takeWhile_eq_self_iff.mpr hall, List.dropWhile_eq_nil_iff.mpr hall]
        simp [h.ofLong?_long hs, htakes, hadd]
      rw [hspell, readFrom_word hne hword]
  | true =>
      have hspell : spell s value =
          String.ofList ('-' :: '-' :: (s.long.toList ++ '=' :: value.toList)) := by
        rw [← String.toList_inj]
        simp [spell, htakes]
      have hword : u.word given (s.long.toList ++ '=' :: value.toList) =
          .ok (given ++ [.switch s.long value], none) := by
        rw [word, List.takeWhile_append_of_pos hall, List.dropWhile_append_of_pos hall]
        simp [h.ofLong?_long hs, htakes, hadd]
      rw [hspell, readFrom_word (by simp) hword]

/-- Nothing is given twice that must not be. -/
theorem fresh_options {values : String → List String} (hv : u.Fits values) (name : Option String) :
    u.Fresh (u.options values name) := by
  refine List.pairwise_append.mpr ⟨List.pairwise_flatMap.mpr ⟨fun s hs => ?_, ?_⟩, ?_, ?_⟩
  · rw [List.pairwise_map]
    cases hrepeats : s.repeats with
    | true =>
        refine List.pairwise_of_forall fun _ _ => ?_
        simp [exhausted, h.ofLong?_long hs, hrepeats]
    | false =>
        refine List.pairwise_of_forall_sublist fun {_ _} hsublist => ?_
        have hlen := hsublist.length_le.trans (hv.once s hs hrepeats)
        simp at hlen
  · refine h.longs_pairwise.imp fun {s s'} hne => ?_
    simp [exhausted, hne]
  · cases name <;> simp
  · intro before hbefore g hg
    obtain ⟨s, -, hs⟩ := List.mem_flatMap.mp hbefore
    obtain ⟨value, -, rfl⟩ := List.mem_map.mp hs
    obtain ⟨text, -, rfl⟩ := List.mem_map.mp hg
    rfl

/-- The arguments are read as what they spell. -/
theorem read_words {values : String → List String} (hv : u.Fits values) (name : Option String) :
    u.read (u.words values name) = .ok (u.options values name) := by
  have hfresh := h.fresh_options hv name
  have hspells : u.Spells (u.switches.flatMap fun s => (values s.long).map (spell s))
      (u.switches.flatMap fun s => (values s.long).map (.switch s.long)) := by
    refine spells_flatMap fun s hs => ?_
    rw [← List.flatMap_singleton' (values s.long), List.map_flatMap, List.map_flatMap]
    exact spells_flatMap fun value hvalue =>
      h.spells_spell hs fun htakes => hv.empty s hs htakes value hvalue
  rw [read, words, hspells [] _ (List.pairwise_append.mp hfresh).1, List.nil_append]
  cases name with
  | none =>
      rw [options, Option.toList_none, List.map_nil, List.append_nil]
      rfl
  | some text => exact readFrom_name hfresh

/-! ### What was spelled -/

/-- An option has the values that were spelled for it. -/
theorem values_options {values : String → List String} {s : Switch} (hs : s ∈ u.switches)
    (name : Option String) : Given.values (u.options values name) s.long = values s.long := by
  have hsection : ∀ s' : Switch,
      Given.values ((values s'.long).map (.switch s'.long)) s.long =
        if s'.long = s.long then values s'.long else [] := by
    intro s'
    rw [Given.values, List.filterMap_map]
    split_ifs with hlong <;> simp [hlong]
  have hnames : Given.values (name.toList.map .name) s.long = [] := by
    cases name <;> rfl
  obtain ⟨before, behind, hsplit⟩ := List.append_of_mem hs
  have hlongs := h.longs_pairwise
  rw [hsplit, List.pairwise_append, List.pairwise_cons] at hlongs
  obtain ⟨-, ⟨hbehind, -⟩, hbefore⟩ := hlongs
  have hothers : ∀ others : List Switch, (∀ s' ∈ others, s'.long ≠ s.long) →
      (others.flatMap fun s' => if s'.long = s.long then values s'.long else []) = [] := by
    intro others hne
    rw [List.flatMap_eq_nil_iff]
    exact fun s' hs' => if_neg (hne s' hs')
  calc Given.values (u.options values name) s.long
      = u.switches.flatMap fun s' => if s'.long = s.long then values s'.long else [] := by
        rw [options, Given.values, List.filterMap_append, List.filterMap_flatMap]
        rw [Given.values] at hnames
        rw [hnames, List.append_nil]
        exact List.flatMap_congr fun s' _ => hsection s'
    _ = values s.long := by
        rw [hsplit, List.flatMap_append, List.flatMap_cons, if_pos rfl,
          hothers before fun s' hs' => hbefore s' hs' s List.mem_cons_self,
          hothers behind fun s' hs' => (hbehind s' hs').symm, List.nil_append, List.append_nil]

end Spellable

theorem name?_options (u : Usage) (values : String → List String) (name : Option String) :
    Given.name? (u.options values name) = name := by
  rw [Given.name?, options, List.findSome?_append, List.findSome?_eq_none_iff.mpr]
  · cases name <;> rfl
  · intro g hg
    obtain ⟨s, -, hs⟩ := List.mem_flatMap.mp hg
    obtain ⟨value, -, rfl⟩ := List.mem_map.mp hs
    rfl

end Usage

/-! ### Requests to the printing command -/

namespace Print

/-- The arguments are read as the request. -/
def Asks (args : List String) (r : Request) : Prop :=
  ∃ given, usage.read args = .ok given ∧ given ≠ [] ∧ Request.ofGiven given = r

theorem spellable_usage : usage.Spellable where
  nodup := by decide
  plain := by decide

namespace Request

variable (r : Request)

/-- The values that a request gives to the options. -/
def values : String → List String
  | "format" => r.format.toList
  | "focus" => [r.focus]
  | "move" => r.moves
  | "config" => r.settings.toList
  | "list-formats" => if r.listFormats then [""] else []
  | "print-path" => if r.printPath then [""] else []
  | _ => []

/-- Arguments for a request. -/
def words : List String := usage.words r.values r.source

theorem fits_values : usage.Fits r.values where
  once := by
    have hoption : ∀ o : Option String, o.toList.length ≤ 1 := by
      intro o
      cases o <;> simp
    have hflag : ∀ b : Bool, (if b then [""] else []).length ≤ 1 := by decide
    simp [usage, values, hoption, hflag]
  empty := by simp [usage, values]

theorem values_options {s : Switch} (hs : s ∈ usage.switches) :
    Given.values (usage.options r.values r.source) s.long = r.values s.long :=
  spellable_usage.values_options hs r.source

/-- A request is what its arguments ask for. -/
theorem asks_words : Asks r.words r := by
  have hformat := r.values_options (s := ⟨"format", some 'f', true, false⟩) (by decide)
  have hfocus := r.values_options (s := ⟨"focus", none, true, false⟩) (by decide)
  have hmoves := r.values_options (s := ⟨"move", some 'm', true, true⟩) (by decide)
  have hconfig := r.values_options (s := ⟨"config", some 'c', true, false⟩) (by decide)
  have hlist := r.values_options (s := ⟨"list-formats", none, false, false⟩) (by decide)
  have hpath := r.values_options (s := ⟨"print-path", none, false, false⟩) (by decide)
  have hname := usage.name?_options r.values r.source
  refine ⟨_, spellable_usage.read_words r.fits_values r.source, ?_, ?_⟩
  · intro hnil
    rw [hnil] at hfocus
    cases hfocus
  · dsimp only at hformat hfocus hmoves hconfig hlist hpath
    rw [ofGiven, hname, Given.value?, hformat, Given.value?, hfocus, hmoves, Given.value?, hconfig,
      Given.has, Given.value?, hlist, Given.has, Given.value?, hpath]
    have hflag : ∀ b : Bool, (if b then [""] else []).head?.isSome = b := by decide
    simp [values, hflag]

end Request

end Print

end SyntaxLens.Command
