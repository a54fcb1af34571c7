import SyntaxLens.Settings.Layers

/-! # The defaults

The text of the defaults gives every setting a value (`collect_defaultText`), so that settings can
be loaded without any file (`build_defaults`). -/

namespace SyntaxLens.Settings

open Value (table atom)

theorem toOption_eq_some_iff {ε α : Type} {x : Except ε α} {a : α} :
    x.toOption = some a ↔ x = .ok a := by
  cases x <;> simp [Except.toOption]

theorem toList_defaultText : defaultText.toList = defaultLines.flatMap String.toList :=
  String.toList_join

/-- The table that the text of the defaults holds. -/
def defaultEntries : Value.Entries :=
  [("render", table [("default_format", atom (.text "text") none)] none),
    ("formats", table
      [("text", table [("indent_string", atom (.text "  ") none)] none),
        ("treeviz", table [("label_width", atom (.integer 30) none)] none)] none),
    ("viewer", table
      [("outline_width", atom (.integer 35) none), ("start_in_outline", atom (.bool false) none),
        ("tick_rate_ms", atom (.integer 100) none)] none),
    ("logging", table [("level", atom (.text "warn") none)] none)]

theorem parse_defaultText : Toml.parse defaultText = .ok (table defaultEntries none) := by
  rw [← toOption_eq_some_iff, Toml.parse, toList_defaultText]
  decide +kernel

theorem withoutMark_defaultText : withoutMark defaultText = defaultText := by
  rw [withoutMark, toList_defaultText, defaultLines, List.flatMap_cons, String.toList_ofList]
  rfl

theorem readText_defaultText : readText none defaultText = .ok defaultEntries := by
  rw [readText, withoutMark_defaultText, parse_defaultText]
  rfl

/-- What the defaults put at keys. -/
def defaultPuts : List (Key × Value) := defaultEntries.map fun e => ([.name e.1], e.2)

theorem collect_defaultText (s : Surroundings) :
    collect s (.text defaultText) = .ok defaultPuts := by
  rw [collect, readSource, readText_defaultText]
  exact toOption_eq_some_iff.mp (by decide +kernel)

theorem merged_of_no_file {V C B E : Type} (L : Library V C B E) {s : Surroundings}
    (h : userFileName? s.settingsHome s.home = none) :
    L.merged s [.userFile] = L.build s (L.addSource L.builder (.text defaultText)) := by
  rw [Library.merged, List.foldlM_cons, Library.ask, h]
  rfl

theorem build_addSource (s : Surroundings) (source : Source) :
    library.build s (library.addSource library.builder source) =
      (collect s source).map (putEntries []) := by
  simp only [library, List.nil_append, List.mapM_cons, List.mapM_nil]
  cases collect s source with
  | error e => rfl
  | ok ps => exact congrArg (fun ps => Except.ok (putEntries [] ps)) (List.append_nil ps)

/-- Without files and single values, settings are the defaults. -/
theorem build_defaults {s : Surroundings} (h : userFileName? s.settingsHome s.home = none) :
    build s [.userFile] = .ok ⟨"text", "  ", 30, 35, false, 100, "warn"⟩ := by
  rw [build, Library.load, merged_of_no_file library h, build_addSource, collect_defaultText]
  exact toOption_eq_some_iff.mp (by decide +kernel)

end SyntaxLens.Settings
