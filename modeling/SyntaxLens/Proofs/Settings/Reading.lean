import SyntaxLens.Proofs.Settings.Assignments
import SyntaxLens.Proofs.Settings.Defaults

/-! # Reading settings

The library reads settings by their keys (`library_readsByKey`).  A setting whose group is a table
is read from its key; the elements of a list have their settings by position.

Settings are read group by group at the top (`ofValue_eq_ok_iff`).  Such a group is read if there is
a value at the key of each of its settings that reads as it (`TopGroup.reads_of_at?`), or if it is
the same as one that is read (`TopGroup.reads_congr`). -/

namespace SyntaxLens

open Settings Value

namespace Settings

/-! ### Members of groups -/

section members
variable {α : Type} {g : Group} {name : String} {v w : Value} {a : α}
  {read : Value → Except ReadError α} {f : Value → Except Mismatch α}

theorem bind_eq_ok_iff {ε α β : Type} {x : Except ε α} {f : α → Except ε β} {b : β} :
    x >>= f = .ok b ↔ ∃ a, x = .ok a ∧ f a = .ok b := by
  cases x with
  | error e =>
      constructor
      · intro h
        cases h
      · rintro ⟨_, h, _⟩
        cases h
  | ok a =>
      constructor
      · exact fun h => ⟨a, rfl, h⟩
      · rintro ⟨_, h, hf⟩
        cases h
        exact hf

theorem mapError_eq_ok_iff {ε ε' α : Type} {x : Except ε α} {f : ε → ε'} {a : α} :
    x.mapError f = .ok a ↔ x = .ok a := by
  cases x <;> simp [Except.mapError]

/-- A member of a table is looked up by its name. -/
theorem lookUp_of_get? (h : v.get? name = some w) :
    lookUp g name v = .ok (.ok (.name name, w)) := by
  cases v with
  | table es origin =>
      rw [lookUp, show es.lookup name = some w from h]
  | nil | atom | list => cases h

theorem member_eq_ok_iff (h : v.get? name = some w) :
    member g name read v = .ok (.ok a) ↔ read w = .ok a := by
  have hmember : member g name read v =
      (do return .ok (← (read w).mapError (ReadError.under (.name name)))) := by
    rw [member, lookUp_of_get? h]
    rfl
  rw [hmember, bind_eq_ok_iff]
  constructor
  · rintro ⟨_, hread, ⟨⟩⟩
    exact mapError_eq_ok_iff.mp hread
  · exact fun hread => ⟨_, mapError_eq_ok_iff.mpr hread, rfl⟩

/-- What is read from a table as a member is there. -/
theorem exists_of_member (h : v.isTable = true) (hmember : member g name read v = .ok (.ok a)) :
    ∃ w, v.get? name = some w ∧ read w = .ok a := by
  cases hget : v.get? name with
  | some w => exact ⟨w, rfl, (member_eq_ok_iff hget).mp hmember⟩
  | none =>
      cases v with
      | table es origin =>
          rw [member, lookUp, show es.lookup name = none from hget] at hmember
          cases hmember
      | nil | atom | list => cases h

/-- A member of a table depends on what is under its name. -/
theorem member_congr {v' : Value} (h : v.isTable = true) (hget : v'.get? name = v.get? name)
    (hmember : member g name read v = .ok (.ok a)) : member g name read v' = .ok (.ok a) := by
  obtain ⟨w, hw, hread⟩ := exists_of_member h hmember
  exact (member_eq_ok_iff (hget.trans hw)).mpr hread

theorem setting_eq_ok_iff : setting f v = .ok a ↔ f v = .ok a := mapError_eq_ok_iff

theorem single_eq_ok_iff : single g name f v = .ok a ↔
    member g name (setting f) v = .ok (.ok a) := by
  rw [single, bind_eq_ok_iff]
  constructor
  · rintro ⟨_, h, rfl⟩
    exact h
  · exact fun h => ⟨_, h, rfl⟩

theorem member_setting_eq_ok_iff (h : v.get? name = some w) :
    member g name (setting f) v = .ok (.ok a) ↔ (f w).toOption = some a := by
  rw [member_eq_ok_iff h, setting_eq_ok_iff, toOption_eq_some_iff]

theorem exists_of_setting (h : v.isTable = true)
    (hmember : member g name (setting f) v = .ok (.ok a)) :
    ∃ w, v.get? name = some w ∧ (f w).toOption = some a := by
  obtain ⟨w, hget, -⟩ := exists_of_member h hmember
  exact ⟨w, hget, (member_setting_eq_ok_iff hget).mp hmember⟩

end members

/-! ### Groups -/

variable {root v : Value} {x : Settings}

theorem at?_names_eq_some_iff {t : Setting} : root.at? t.names = some v ↔
    ∃ group, root.at? t.group = some group ∧ group.get? t.name = some v := by
  simp only [Setting.names, at?_append, Option.bind_eq_some_iff, at?_singleton]

theorem readFormats_eq_ok_iff {indent : String} {width : Nat} :
    readFormats v = .ok (indent, width) ↔
      member .formats "text" (single .text "indent_string" Value.text) v = .ok (.ok indent) ∧
      member .formats "treeviz" (single .treeviz "label_width" Value.nat) v = .ok (.ok width) := by
  simp only [readFormats, bind_eq_ok_iff]
  constructor
  · rintro ⟨_, hi, _, hw, _, rfl, _, rfl, h⟩
    cases h
    exact ⟨hi, hw⟩
  · rintro ⟨hi, hw⟩
    exact ⟨_, hi, _, hw, _, rfl, _, rfl, rfl⟩

theorem readViewer_eq_ok_iff {width rate : Nat} {start : Bool} :
    readViewer v = .ok (width, start, rate) ↔
      member .viewer "outline_width" (setting Value.nat16) v = .ok (.ok width) ∧
      member .viewer "start_in_outline" (setting Value.bool) v = .ok (.ok start) ∧
      member .viewer "tick_rate_ms" (setting Value.nat) v = .ok (.ok rate) := by
  simp only [readViewer, bind_eq_ok_iff]
  constructor
  · rintro ⟨_, hw, _, hs, _, hr, _, rfl, _, rfl, _, rfl, h⟩
    cases h
    exact ⟨hw, hs, hr⟩
  · rintro ⟨hw, hs, hr⟩
    exact ⟨_, hw, _, hs, _, hr, _, rfl, _, rfl, _, rfl, rfl⟩

end Settings

namespace TopGroup

variable {root root' : Value} {x : Settings}

/-- A group at the top reads as what settings say. -/
def Reads (root : Value) (x : Settings) : TopGroup → Prop
  | .render => member .all "render" (single .render "default_format" Value.text) root =
      .ok (.ok x.defaultFormat)
  | .formats => member .all "formats" readFormats root = .ok (.ok (x.indent, x.labelWidth))
  | .viewer => member .all "viewer" readViewer root =
      .ok (.ok (x.outlineWidth, x.startInOutline, x.tickRate))
  | .logging => member .all "logging" (single .logging "level" Value.text) root =
      .ok (.ok x.logLevel)

/-- A group depends on what is under its name only. -/
theorem reads_congr {g : TopGroup} (htable : root.isTable = true)
    (hget : root'.get? g.name = root.get? g.name) (h : g.Reads root x) : g.Reads root' x := by
  cases g <;> exact member_congr htable hget h

/-- A group is read if there is a value for each of its settings at its key. -/
theorem reads_of_at? {g : TopGroup}
    (h : ∀ t : Setting, t.top = g → ∃ v, root.at? t.names = some v ∧ account.Reads t v x) :
    g.Reads root x := by
  have hgroup (t : Setting) (ht : t.top = g) : ∃ group v, root.at? t.group = some group ∧
      group.get? t.name = some v ∧ account.Reads t v x := by
    obtain ⟨v, hat, hreads⟩ := h t ht
    obtain ⟨group, hat, hget⟩ := at?_names_eq_some_iff.mp hat
    exact ⟨group, v, hat, hget, hreads⟩
  cases g with
  | render =>
      obtain ⟨group, v, hat, hget, hreads⟩ := hgroup .defaultFormat rfl
      refine (member_eq_ok_iff (at?_singleton _ _ ▸ hat)).mpr (single_eq_ok_iff.mpr ?_)
      exact (member_setting_eq_ok_iff hget).mpr hreads
  | formats =>
      obtain ⟨text, v, hat, hget, hreads⟩ := hgroup .indent rfl
      obtain ⟨treeviz, w, hat', hget', hreads'⟩ := hgroup .labelWidth rfl
      obtain ⟨formats, hformats, htext⟩ := Option.bind_eq_some_iff.mp hat
      obtain ⟨formats', hformats', htreeviz⟩ := Option.bind_eq_some_iff.mp hat'
      obtain rfl := Option.some.inj (hformats.symm.trans hformats')
      refine (member_eq_ok_iff hformats).mpr (readFormats_eq_ok_iff.mpr ⟨?_, ?_⟩)
      · rw [member_eq_ok_iff (at?_singleton _ _ ▸ htext), single_eq_ok_iff]
        exact (member_setting_eq_ok_iff hget).mpr hreads
      · rw [member_eq_ok_iff (at?_singleton _ _ ▸ htreeviz), single_eq_ok_iff]
        exact (member_setting_eq_ok_iff hget').mpr hreads'
  | viewer =>
      obtain ⟨viewer, w, hat, hw, hwidth⟩ := hgroup .outlineWidth rfl
      obtain ⟨viewer', s, hat', hs, hstart⟩ := hgroup .startInOutline rfl
      obtain ⟨viewer'', r, hat'', hr, hrate⟩ := hgroup .tickRate rfl
      obtain rfl := Option.some.inj (hat.symm.trans hat')
      obtain rfl := Option.some.inj (hat.symm.trans hat'')
      refine (member_eq_ok_iff (at?_singleton _ _ ▸ hat)).mpr (readViewer_eq_ok_iff.mpr ?_)
      exact ⟨(member_setting_eq_ok_iff hw).mpr hwidth, (member_setting_eq_ok_iff hs).mpr hstart,
        (member_setting_eq_ok_iff hr).mpr hrate⟩
  | logging =>
      obtain ⟨group, v, hat, hget, hreads⟩ := hgroup .logLevel rfl
      refine (member_eq_ok_iff (at?_singleton _ _ ▸ hat)).mpr (single_eq_ok_iff.mpr ?_)
      exact (member_setting_eq_ok_iff hget).mpr hreads

end TopGroup

namespace Settings

variable {root : Value} {x : Settings}

theorem ofValue_eq_ok_iff : ofValue root = .ok x ↔ ∀ g : TopGroup, g.Reads root x := by
  simp only [ofValue, bind_eq_ok_iff]
  constructor
  · rintro ⟨_, hr, _, hf, _, hv, _, hl, _, rfl, _, rfl, _, rfl, _, rfl, h⟩ g
    cases h
    cases g with
    | render => exact hr
    | formats => exact hf
    | viewer => exact hv
    | logging => exact hl
  · intro h
    exact ⟨_, h .render, _, h .formats, _, h .viewer, _, h .logging, _, rfl, _, rfl, _, rfl, _,
      rfl, rfl⟩

/-- A setting whose group is a table is read from its key. -/
theorem reads_of_ofValue (h : ofValue root = .ok x) {t : Setting} {group : Value}
    (hgroup : root.at? t.group = some group) (htable : group.isTable = true) :
    ∃ v, root.at? t.names = some v ∧ account.Reads t v x := by
  have htop := ofValue_eq_ok_iff.mp h t.top
  suffices ∃ v, group.get? t.name = some v ∧ account.Reads t v x by
    obtain ⟨v, hget, hreads⟩ := this
    exact ⟨v, at?_names_eq_some_iff.mpr ⟨group, hgroup, hget⟩, hreads⟩
  cases t with
  | defaultFormat =>
      have hr := (member_eq_ok_iff (at?_singleton _ _ ▸ hgroup)).mp htop
      exact exists_of_setting htable (single_eq_ok_iff.mp hr)
  | indent =>
      obtain ⟨formats, hformats, hgroup⟩ := Option.bind_eq_some_iff.mp hgroup
      have hf := readFormats_eq_ok_iff.mp ((member_eq_ok_iff hformats).mp htop)
      have hi := (member_eq_ok_iff (at?_singleton _ _ ▸ hgroup)).mp hf.1
      exact exists_of_setting htable (single_eq_ok_iff.mp hi)
  | labelWidth =>
      obtain ⟨formats, hformats, hgroup⟩ := Option.bind_eq_some_iff.mp hgroup
      have hf := readFormats_eq_ok_iff.mp ((member_eq_ok_iff hformats).mp htop)
      have hw := (member_eq_ok_iff (at?_singleton _ _ ▸ hgroup)).mp hf.2
      exact exists_of_setting htable (single_eq_ok_iff.mp hw)
  | outlineWidth =>
      have hv := (member_eq_ok_iff (at?_singleton _ _ ▸ hgroup)).mp htop
      exact exists_of_setting htable (readViewer_eq_ok_iff.mp hv).1
  | startInOutline =>
      have hv := (member_eq_ok_iff (at?_singleton _ _ ▸ hgroup)).mp htop
      exact exists_of_setting htable (readViewer_eq_ok_iff.mp hv).2.1
  | tickRate =>
      have hv := (member_eq_ok_iff (at?_singleton _ _ ▸ hgroup)).mp htop
      exact exists_of_setting htable (readViewer_eq_ok_iff.mp hv).2.2
  | logLevel =>
      have hl := (member_eq_ok_iff (at?_singleton _ _ ▸ hgroup)).mp htop
      exact exists_of_setting htable (single_eq_ok_iff.mp hl)

/-- What reads as a setting is a single value. -/
theorem isAtom_of_reads {t : Setting} {v : Value} (h : account.Reads t v x) : v.isAtom = true := by
  cases v with
  | atom a origin => rfl
  | nil | list | table => cases t <;> cases h

theorem read_eq_ok_iff {es : Value.Entries} :
    library.read es = .ok x ↔ ofValue (.table es none) = .ok x := mapError_eq_ok_iff

theorem library_readsByKey : library.ReadsByKey account where
  isSingle := isAtom_of_reads
  read hread t := fun ⟨_, hgroup, htable⟩ =>
    reads_of_ofValue (read_eq_ok_iff.mp hread) hgroup htable
  read_congr {es es' x} hread hgroups := by
    refine read_eq_ok_iff.mpr (ofValue_eq_ok_iff.mpr fun g => ?_)
    rcases hgroups g with hsame | hvalues
    · have hget : (table es' none).get? g.name = (table es none).get? g.name := by
        rw [← at?_singleton, ← at?_singleton]
        exact hsame
      exact TopGroup.reads_congr rfl hget (ofValue_eq_ok_iff.mp (read_eq_ok_iff.mp hread) g)
    · exact TopGroup.reads_of_at? hvalues

end Settings

end SyntaxLens
