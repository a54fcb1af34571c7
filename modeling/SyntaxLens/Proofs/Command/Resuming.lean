import SyntaxLens.Proofs.Command.Spelling
import SyntaxLens.Proofs.Focus.Writing
import SyntaxLens.Proofs.Settings.Defaults

/-! # Going on from a printed path

Moves can be made in several runs of the printing command: a run that begins with the path that an
earlier one has printed goes on where that one ended (`navigation_resumes`).

* Nothing but the path is carried from move to move.  The path that was reached leads to a node, so
  that it can be set again (`reach_append`).
* It is written in a form that reads back (`Path.parse_text`), and every request can be spelled
  (`Request.asks_words`). -/

namespace SyntaxLens.Command

theorem closed_of_readSource {e : Environment} {source : String} {t : Tree}
    (h : Print.readSource e source = .ok t) : t.Closed := by
  have hload : ∀ {loaded : Except LoadError Tree}, loaded.mapError Failure.load = .ok t →
      loaded = .ok t := by
    rintro (_ | _) hmap
    · cases hmap
    · exact congrArg Except.ok (Except.ok.inj hmap)
  unfold Print.readSource at h
  split at h
  · split at h
    · exact Tree.closed_of_loadText (hload h)
    · cases h
  · exact Tree.closed_of_loadFile (hload h)

namespace Print

/-! ### Moves -/

/-- Moves are read text by text. -/
theorem parseMoves_append (texts later : List String) : parseMoves (texts ++ later) = do
    let moves ← parseMoves texts
    let more ← parseMoves later
    return moves ++ more := by
  simp only [parseMoves, List.flatMap_append, List.filter_append, List.mapM_append]

section reach
variable (t : Tree) (path : Path) (moves : List Direction)

theorem tree_reach : (reach t path moves).tree = t := by
  refine List.foldlRecOn (motive := fun f : Focus => f.tree = t) moves _ ?_ fun _ hf _ _ => hf
  unfold Focus.setPath
  split <;> rfl

variable {t} (ht : t.Closed)
include ht

theorem sound_reach : (reach t path moves).Sound :=
  List.foldlRecOn (motive := Focus.Sound) moves _ ((Focus.sound_ofTree ht).setPath path)
    fun _ hf d _ => hf.move d

/-- Later moves begin where the moves before them end, and only the path is carried over. -/
theorem reach_append (later : List Direction) :
    reach t path (moves ++ later) = reach t (reach t path moves).path later := by
  have hset : ((Focus.ofTree t).setPath (reach t path moves).path).1 = reach t path moves := by
    have hresolves := (sound_reach path moves ht).resolves
    have htree := tree_reach t path moves
    generalize reach t path moves = f at hresolves htree
    obtain ⟨_, p⟩ := f
    subst htree
    unfold Focus.setPath
    exact congrArg Prod.fst (if_pos hresolves)
  rw [reach, List.foldl_append, reach, hset]
  rfl

end reach

/-! ### Runs -/

/-- The settings of the request can be read, its format exists, and its source holds the tree. -/
def Loads (e : Environment) (r : Request) (t : Tree) : Prop :=
  ∃ settings source, readSettings e r.settings = .ok settings ∧
    (Registry.standard settings.formatOptions).has (r.format.getD settings.defaultFormat) = true ∧
    r.source = some source ∧ readSource e source = .ok t

variable {e : Environment} {r : Request} {t : Tree}

theorem Loads.closed (h : Loads e r t) : t.Closed := by
  obtain ⟨_, _, -, -, -, hread⟩ := h
  exact closed_of_readSource hread

/-- What becomes of a request to print the path, whatever navigation it asks for. -/
theorem perform_path (h : Loads e r t) (hlist : r.listFormats = false) (hpath : r.printPath = true)
    (focus : String) (moves : List String) :
    perform e { r with focus := focus, moves := moves } = do
      let start ← (Path.parse focus).mapError .focus
      let moves ← (parseMoves moves).mapError .move
      return (reach t start moves).path.text ++ "\n" := by
  obtain ⟨settings, source, hsettings, hformat, hsource, hread⟩ := h
  have hbind : ∀ {α β : Type} (a : α) (f : α → Except Failure β), (.ok a >>= f) = f a :=
    fun _ _ => rfl
  simp [perform, hsettings, Except.mapError, hlist, hsource, printSource, hformat, hread, hpath,
    hbind]

/-- All arguments that are read as a request have the same outcome. -/
theorem run_of_asks {args : List String} (h : Asks args r) (hsource : r.source.isSome) :
    run e args = match perform e r with
      | .ok output => .done output
      | .error cause => .failed cause := by
  obtain ⟨given, hread, hgiven, rfl⟩ := h
  have hempty : given.isEmpty = false := List.isEmpty_eq_false_iff.mpr hgiven
  rw [run, hread]
  dsimp only
  rw [hempty, Option.isNone_eq_false_iff.mpr hsource]
  rfl

/-- A run that makes some moves from a path, whether or not this path leads anywhere, prints a path
that reads back and leads to a node.  More moves can be made in the same run or in one that begins
with the path that was printed: the outcome is the same.  This holds for all arguments that are read
as these requests, and there are some for each request. -/
theorem navigation_resumes (e : Environment) (r : Request) (t : Tree) (hload : Loads e r t)
    (hsize : t.Addressable) (hlist : r.listFormats = false) (hpath : r.printPath = true)
    (start : Path) (hstart : Path.parse r.focus = .ok start)
    (moves : List Direction) (hmoves : parseMoves r.moves = .ok moves) :
    (∀ asked : Request, ∃ args, Asks args asked) ∧ ∃ printed : String,
      (∀ args, Asks args r → run e args = .done (printed ++ "\n")) ∧
      (∃ p, Path.parse printed = .ok p ∧ (t.resolve p).isSome) ∧
      ∀ (later : List String) (args args' : List String),
        Asks args { r with moves := r.moves ++ later } →
        Asks args' { r with focus := printed, moves := later } → run e args = run e args' := by
  have hsource : r.source.isSome := by
    obtain ⟨_, source, -, -, hsource, -⟩ := hload
    rw [hsource]
    rfl
  have hsound := sound_reach start moves hload.closed
  have hresolves : (t.resolve (reach t start moves).path).isSome := by
    have hfocused := hsound.resolves
    rwa [Focus.focused?, tree_reach] at hfocused
  obtain ⟨c, hc⟩ := Option.isSome_iff_exists.mp hresolves
  have hparse : Path.parse (reach t start moves).path.text = .ok (reach t start moves).path :=
    Path.parse_text_of_grammatical (hsize.grammatical_of_resolve hc)
  refine ⟨fun asked => ⟨_, asked.asks_words⟩, (reach t start moves).path.text, ?_,
    ⟨_, hparse, hresolves⟩, ?_⟩
  · intro args hargs
    have hperform := perform_path hload hlist hpath r.focus r.moves
    rw [hstart, hmoves] at hperform
    rw [run_of_asks hargs hsource, hperform]
    rfl
  · intro later args args' hargs hargs'
    have hperform : perform e { r with moves := r.moves ++ later } =
        perform e { r with focus := (reach t start moves).path.text, moves := later } := by
      rw [perform_path hload hlist hpath r.focus, perform_path hload hlist hpath, parseMoves_append,
        hstart, hmoves, hparse]
      cases parseMoves later with
      | error cause => rfl
      | ok more =>
          have happend := congrArg (fun f : Focus => f.path.text ++ "\n")
            (reach_append start moves hload.closed more)
          exact congrArg Except.ok happend
    rw [run_of_asks hargs hsource, run_of_asks hargs' hsource, hperform]

/-- A single file, which holds a program of two statements. -/
def shelf : Environment where
  surroundings := ⟨none, none, "/", fun name =>
    if name = "a.json" then
      .ok "\x7b\"type\":\"Program\",\"body\":[\x7b\"type\":\"Super\"\x7d,\x7b\"type\":\"Super\"\x7d]\x7d"
    else .error .missing⟩
  input := .error .missing
  append _ := .error .missing

theorem navigation_resumes_shelf :
    run shelf ["--focus=body[7]", "-m", "down,next", "--print-path", "a.json"] = .done "body[1]\n" ∧
      run shelf ["-mdown,next", "--focus=body[7]", "--move=prev", "--print-path", "a.json"] =
        run shelf ["--focus", "body[1]", "--print-path", "-m=prev", "a.json"] := by
  let start : Path := [⟨"body", some 7⟩]
  obtain ⟨t, hread, hsize, hreached⟩ : ∃ t, (readSource shelf "a.json").toOption = some t ∧
      t.Addressable ∧ (reach t start [.down, .next]).path.text = "body[1]" := by
    have hall : (readSource shelf "a.json").toOption.map (fun t => decide (t.Addressable ∧
        (reach t start [.down, .next]).path.text = "body[1]")) = some true := by decide +kernel
    obtain ⟨t, hread, ht⟩ := Option.map_eq_some_iff.mp hall
    exact ⟨t, hread, of_decide_eq_true ht⟩
  let r : Request := ⟨some "a.json", none, "body[7]", ["down,next"], none, false, true⟩
  have hload : Loads shelf r t := ⟨_, "a.json", Settings.build_defaults rfl, by decide +kernel, rfl,
    Settings.toOption_eq_some_iff.mp hread⟩
  have hstart : Path.parse "body[7]" = .ok start := by rfl
  have hmoves : parseMoves ["down,next"] = .ok [.down, .next] := by rfl
  obtain ⟨-, printed, hrun, -, hlater⟩ := navigation_resumes shelf r t hload hsize rfl rfl _ hstart
    _ hmoves
  have hasks : Asks ["--focus=body[7]", "-m", "down,next", "--print-path", "a.json"] r :=
    ⟨_, rfl, by simp, rfl⟩
  have hpath : run shelf ["--focus=body[7]", "-m", "down,next", "--print-path", "a.json"] =
      .done "body[1]\n" := by
    have hperform : perform shelf r = _ := perform_path hload rfl rfl r.focus r.moves
    rw [hstart, hmoves] at hperform
    rw [run_of_asks hasks rfl, hperform]
    exact congrArg (fun text => Outcome.done (text ++ "\n")) hreached
  have hprinted : printed ++ "\n" = "body[1]\n" :=
    Outcome.done.inj ((hrun _ hasks).symm.trans hpath)
  obtain rfl : printed = "body[1]" := by
    have htext : printed.toList ++ "\n".toList = "body[1]".toList ++ "\n".toList := by
      rw [← String.toList_append, hprinted]
      rfl
    exact String.toList_inj.mp (List.append_cancel_right htext)
  exact ⟨hpath, hlater ["prev"] _ _ ⟨_, rfl, by simp, rfl⟩ ⟨_, rfl, by simp, rfl⟩⟩

end Print

end SyntaxLens.Command
