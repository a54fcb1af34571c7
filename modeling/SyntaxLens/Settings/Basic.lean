import SyntaxLens.Format.Registry

/-! # Settings

What can be set about printing, the viewer and logging. `Settings.defaultText` says what holds where
nothing else is said. -/

namespace SyntaxLens

structure Settings where
  /-- The format in which a tree is printed. -/
  defaultFormat : String
  /-- One level of indent in texts. -/
  indent : String
  /-- After how many characters labels are cut in outlines. -/
  labelWidth : Nat
  /-- The columns of the outline pane. -/
  outlineWidth : Nat
  /-- Whether the viewer begins in the outline pane. -/
  startInOutline : Bool
  /-- How often the viewer looks for input, in milliseconds. -/
  tickRate : Nat
  /-- What is logged. -/
  logLevel : String
deriving DecidableEq, Repr

namespace Settings

/-- What the standard formats are to be like. -/
def formatOptions (s : Settings) : FormatOptions := ⟨s.indent, s.labelWidth⟩

/-- The lines in which the defaults are written for users. -/
def defaultLines : List String := [
  "# Built-in defaults for every astedit binary.\n",
  "#\n",
  "# User files given with --config, or found at ~/.config/astedit/config.toml, are layered\n",
  "# on top of this file. Any key left out there keeps the value below.\n",
  "\n",
  "[render]\n",
  "# Format used by `astedit` when --format is not given.\n",
  "default_format = \"text\"\n",
  "\n",
  "[formats.text]\n",
  "# One level of indentation in text output.\n",
  "indent_string = \"  \"\n",
  "\n",
  "[formats.treeviz]\n",
  "# Node labels are cut after this many characters.\n",
  "label_width = 30\n",
  "\n",
  "[viewer]\n",
  "# Width of the outline pane in columns, capped at half the terminal.\n",
  "outline_width = 35\n",
  "# Start with the outline pane focused instead of the code pane.\n",
  "start_in_outline = false\n",
  "# How often the viewer polls for input and new snapshots, in milliseconds.\n",
  "tick_rate_ms = 100\n",
  "\n",
  "[logging]\n",
  "# Default tracing filter. RUST_LOG takes precedence when set.\n",
  "level = \"warn\"\n"]

/-- The defaults, as they are written for users. -/
def defaultText : String := String.join defaultLines

end Settings

end SyntaxLens
