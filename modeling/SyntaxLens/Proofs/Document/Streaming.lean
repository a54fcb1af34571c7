import Mathlib.Data.List.Forall2
import Mathlib.Data.List.Induction
import SyntaxLens.Document.Snapshots

/-! # The results of a stream

What a stream of snapshots gives for every input, and in what order it is taken
(`Snapshots.taken_in_order`).

* `Cuts` says which lines an input has, and `Gives` which results lines have: those of the texts
  that are not blank, up to the first line that is no text.
* `Run` is a stream in use: the reader sends, and the user takes one result or all that wait.  What
  carries the run is that the results taken, those that wait and those unread are all that there are
  (`Run.results_eq`).
* `IsLast` is the last tree among results, which `latest` gives. -/

namespace SyntaxLens.Snapshots

/-! ### Lines -/

/-- A line without the carriage return at its end. -/
def dropReturn (line : List UInt8) : List UInt8 :=
  if line.getLast? = some carriageReturn then line.dropLast else line

/-- The input has these lines: each ends at a newline and loses one carriage return in front of it;
what stands behind the last newline is a line as it is, unless it is empty. -/
inductive Cuts : List UInt8 → List (List UInt8) → Prop
  | nothing : Cuts [] []
  | unended {line : List UInt8} : newline ∉ line → line ≠ [] → Cuts line [line]
  | ended {line rest : List UInt8} {ls : List (List UInt8)} : newline ∉ line → Cuts rest ls →
      Cuts (line ++ newline :: rest) (dropReturn line :: ls)

theorem dropReturn_cons_cons (b c : UInt8) (line : List UInt8) :
    dropReturn (b :: c :: line) = b :: dropReturn (c :: line) := by
  simp only [dropReturn, List.getLast?_cons_cons, List.dropLast_cons_cons]
  split <;> rfl

theorem lines_newline (rest : List UInt8) : lines (newline :: rest) = [] :: lines rest := by
  cases rest <;> simp [lines]

section lines
variable {b c : UInt8} (hb : b ≠ newline)
include hb

theorem lines_singleton : lines [b] = [[b]] := by
  simp [lines, hb]

theorem lines_cons_newline (rest : List UInt8) :
    lines (b :: newline :: rest) = dropReturn [b] :: lines rest := by
  by_cases hreturn : b = carriageReturn
  · subst hreturn
    simp [lines, hb, dropReturn]
  · simp [lines, hb, hreturn, dropReturn, lines_newline]

theorem lines_cons_cons (hc : c ≠ newline) {line first : List UInt8}
    {others : List (List UInt8)} (h : lines (c :: line) = first :: others) :
    lines (b :: c :: line) = (b :: first) :: others := by
  simp [lines, hb, hc, h]

end lines

theorem ne_newline_of_notMem {b : UInt8} {line : List UInt8} (h : newline ∉ b :: line) :
    b ≠ newline ∧ newline ∉ line := by
  obtain ⟨hb, hline⟩ := not_or.mp (List.mem_cons.not.mp h)
  exact ⟨Ne.symm hb, hline⟩

theorem lines_of_notMem {line : List UInt8} (h : newline ∉ line) (hne : line ≠ []) :
    lines line = [line] := by
  induction line with
  | nil => exact absurd rfl hne
  | cons b line ih =>
      obtain ⟨hb, hline⟩ := ne_newline_of_notMem h
      cases line with
      | nil => exact lines_singleton hb
      | cons c line =>
          exact lines_cons_cons hb (ne_newline_of_notMem hline).1 (ih hline (List.cons_ne_nil _ _))

theorem lines_append_newline {line : List UInt8} (h : newline ∉ line) (rest : List UInt8) :
    lines (line ++ newline :: rest) = dropReturn line :: lines rest := by
  induction line with
  | nil => exact lines_newline rest
  | cons b line ih =>
      obtain ⟨hb, hline⟩ := ne_newline_of_notMem h
      cases line with
      | nil => exact lines_cons_newline hb rest
      | cons c line =>
          rw [dropReturn_cons_cons]
          exact lines_cons_cons hb (ne_newline_of_notMem hline).1 (ih hline)

theorem Cuts.lines_eq {bytes : List UInt8} {ls : List (List UInt8)} (h : Cuts bytes ls) :
    lines bytes = ls := by
  induction h with
  | nothing => rfl
  | unended hline hne => exact lines_of_notMem hline hne
  | ended hline _ ih => rw [lines_append_newline hline, ih]

theorem exists_cuts (bytes : List UInt8) : ∃ ls, Cuts bytes ls := by
  by_cases h : newline ∈ bytes
  · -- What stands behind the first newline is shorter.
    obtain ⟨line, rest, hbytes, hline⟩ := List.eq_append_cons_of_mem h
    have hshorter : rest.length < bytes.length := by
      rw [hbytes, List.length_append, List.length_cons]
      omega
    obtain ⟨ls, hls⟩ := exists_cuts rest
    exact ⟨_, hbytes ▸ Cuts.ended hline hls⟩
  · by_cases hne : bytes = []
    · exact ⟨[], hne ▸ .nothing⟩
    · exact ⟨_, .unended h hne⟩
termination_by bytes.length

/-- An input has one list of lines. -/
theorem cuts_iff {bytes : List UInt8} {ls : List (List UInt8)} :
    Cuts bytes ls ↔ ls = lines bytes := by
  refine ⟨fun h => h.lines_eq.symm, ?_⟩
  rintro rfl
  obtain ⟨ls, hls⟩ := exists_cuts bytes
  exact hls.lines_eq ▸ hls

/-! ### Results -/

/-- The bytes of the line are the text in UTF-8. -/
def IsText (line : List UInt8) (text : String) : Prop := text.toUTF8.data.toList = line

theorem decode?_eq_some_iff {line : List UInt8} {text : String} :
    decode? line = some text ↔ IsText line text := by
  unfold decode? IsText String.fromUTF8?
  constructor
  · intro h
    split at h
    · rw [← Option.some.inj h]
      rfl
    · cases h
  · rintro rfl
    rw [dif_pos (show ByteArray.IsValidUTF8 ⟨text.toUTF8.data.toList.toArray⟩ from text.isValidUTF8)]
    rfl

/-- What texts give: nothing for one that is blank, for any other what loading it gives. -/
def loads (texts : List String) : List Result :=
  (texts.filter fun text => !Text.isAllBlank text.toList).map Document.loadText

/-- The results of lines: what those give that are texts, up to the first that is none; if there is
such a line, an error comes next, and nothing after it. -/
inductive Gives (ls : List (List UInt8)) : List Result → Prop
  | all {texts : List String} : List.Forall₂ IsText ls texts → Gives ls (loads texts)
  | broken {before after : List (List UInt8)} {bad : List UInt8} {texts : List String} :
      ls = before ++ bad :: after → List.Forall₂ IsText before texts →
      (∀ text, ¬ IsText bad text) → Gives ls (loads texts ++ [.error invalidText])

theorem ofLines_append {before : List (List UInt8)} {texts : List String}
    (h : List.Forall₂ IsText before texts) (rest : List (List UInt8)) :
    ofLines (before ++ rest) = loads texts ++ ofLines rest := by
  induction h with
  | nil => rfl
  | @cons line text before texts hline _ ih =>
      rw [List.cons_append, ofLines, decode?_eq_some_iff.mpr hline]
      dsimp only
      rw [ih]
      by_cases hblank : Text.isAllBlank text.toList <;> simp [loads, hblank]

theorem ofLines_bad {bad : List UInt8} (h : ∀ text, ¬ IsText bad text)
    (after : List (List UInt8)) : ofLines (bad :: after) = [.error invalidText] := by
  have hnone : decode? bad = none := by
    rw [Option.eq_none_iff_forall_ne_some]
    exact fun text htext => h text (decode?_eq_some_iff.mp htext)
  rw [ofLines, hnone]

theorem Gives.ofLines_eq {ls : List (List UInt8)} {items : List Result} (h : Gives ls items) :
    ofLines ls = items := by
  cases h with
  | all hls =>
      have hall := ofLines_append hls []
      rwa [List.append_nil, ofLines, List.append_nil] at hall
  | broken hls hbefore hbad => rw [hls, ofLines_append hbefore, ofLines_bad hbad]

theorem exists_gives (ls : List (List UInt8)) : ∃ items, Gives ls items := by
  suffices h : (∃ texts, List.Forall₂ IsText ls texts) ∨ ∃ before bad after texts,
      ls = before ++ bad :: after ∧ List.Forall₂ IsText before texts ∧
        ∀ text, ¬ IsText bad text by
    rcases h with ⟨texts, hls⟩ | ⟨before, bad, after, texts, hls, hbefore, hbad⟩
    · exact ⟨_, .all hls⟩
    · exact ⟨_, .broken hls hbefore hbad⟩
  induction ls with
  | nil => exact .inl ⟨[], .nil⟩
  | cons line ls ih =>
      by_cases hline : ∃ text, IsText line text
      · obtain ⟨text, htext⟩ := hline
        rcases ih with ⟨texts, hls⟩ | ⟨before, bad, after, texts, rfl, hbefore, hbad⟩
        · exact .inl ⟨text :: texts, .cons htext hls⟩
        · exact .inr ⟨line :: before, bad, after, text :: texts, rfl, .cons htext hbefore, hbad⟩
      · exact .inr ⟨[], line, ls, [], rfl, .nil, not_exists.mp hline⟩

/-- Lines give one list of results. -/
theorem gives_iff {ls : List (List UInt8)} {items : List Result} :
    Gives ls items ↔ items = ofLines ls := by
  refine ⟨fun h => h.ofLines_eq.symm, ?_⟩
  rintro rfl
  obtain ⟨items, hitems⟩ := exists_gives ls
  exact hitems.ofLines_eq ▸ hitems

/-! ### The last tree -/

/-- Of the results, this is the last tree; none, if there is no tree. -/
def IsLast (results : List Result) : Option Tree → Prop
  | some t => ∃ before after, results = before ++ .ok t :: after ∧ ∀ r ∈ after, tree? r = none
  | none => ∀ r ∈ results, tree? r = none

theorem latest?_append (a b : List Result) : latest? (a ++ b) = (latest? b).or (latest? a) := by
  rw [latest?, List.reverse_append, List.findSome?_append]
  rfl

theorem latest?_singleton (r : Result) : latest? [r] = tree? r := by
  cases h : tree? r <;> simp [latest?, h]

theorem isLast_latest? (results : List Result) : IsLast results (latest? results) := by
  induction results using List.reverseRecOn with
  | nil =>
      intro r hr
      cases hr
  | append_singleton results r ih =>
      rw [latest?_append, latest?_singleton]
      cases r with
      | ok t => exact ⟨results, [], rfl, fun r hr => by cases hr⟩
      | error cause =>
          rw [show tree? (.error cause) = none from rfl, Option.none_or]
          cases hlast : latest? results with
          | none =>
              rw [hlast] at ih
              intro r hr
              rcases List.mem_append.mp hr with hr | hr
              · exact ih r hr
              · rw [List.mem_singleton.mp hr]
                rfl
          | some t =>
              rw [hlast] at ih
              obtain ⟨before, after, rfl, hafter⟩ := ih
              refine ⟨before, after ++ [.error cause], by simp, fun r hr => ?_⟩
              rcases List.mem_append.mp hr with hr | hr
              · exact hafter r hr
              · rw [List.mem_singleton.mp hr]
                rfl

theorem latest?_eq_none {results : List Result} (h : ∀ r ∈ results, tree? r = none) :
    latest? results = none := by
  rw [latest?, List.findSome?_eq_none_iff]
  exact fun r hr => h r (List.mem_reverse.mp hr)

/-- Results have one last tree, or none. -/
theorem IsLast.eq_latest? {results : List Result} {last : Option Tree} (h : IsLast results last) :
    last = latest? results := by
  cases last with
  | none => exact (latest?_eq_none h).symm
  | some t =>
      obtain ⟨before, after, rfl, hafter⟩ := h
      rw [latest?_append, ← List.singleton_append, latest?_append, latest?_eq_none hafter,
        latest?_singleton]
      rfl

/-- A tree that is the last of some results is one of their trees. -/
theorem latest?_sublist (results : List Result) :
    (latest? results).toList.Sublist (results.filterMap tree?) := by
  have hlast := isLast_latest? results
  cases h : latest? results with
  | none => exact List.nil_sublist _
  | some t =>
      rw [h] at hlast
      obtain ⟨before, after, rfl, -⟩ := hlast
      rw [Option.toList_some, List.singleton_sublist, List.mem_filterMap]
      exact ⟨.ok t, by simp, rfl⟩

/-! ### Runs -/

/-- A stream in use: the reader sends its next result, or the user takes the next one or all that
wait; `taken` are the results taken so far. -/
inductive Run (start : Snapshots) : (taken : List Result) → Snapshots → Prop
  | start : Run start [] start
  | receive {taken : List Result} {s : Snapshots} : Run start taken s → Run start taken s.receive
  | next {taken : List Result} {s s' : Snapshots} {r : Result} : Run start taken s →
      s.next? = some (r, s') → Run start (taken ++ [r]) s'
  | latest {taken : List Result} {s : Snapshots} : Run start taken s →
      Run start (taken ++ s.waiting) s.latest.2

/-- The results that were not taken: those that wait, and those unread. -/
def left (s : Snapshots) : List Result := s.waiting ++ s.unread

section steps
variable (s : Snapshots)

theorem left_receive : s.receive.left = s.left := by
  unfold receive left
  split <;> simp [*]

theorem map_next? : s.next?.map Prod.fst = s.left.head? := by
  unfold next? left
  split <;> simp [*]

theorem left_of_next? {s s' : Snapshots} {r : Result} (h : s.next? = some (r, s')) :
    s.left = r :: s'.left := by
  obtain ⟨unread, waiting⟩ := s
  cases waiting with
  | cons q waiting =>
      obtain ⟨rfl, rfl⟩ := Prod.mk.inj (Option.some.inj h)
      rfl
  | nil =>
      cases unread with
      | nil => cases h
      | cons q unread =>
          obtain ⟨rfl, rfl⟩ := Prod.mk.inj (Option.some.inj h)
          rfl

theorem left_latest : s.left = s.waiting ++ s.latest.2.left := rfl

end steps

namespace Run

variable {start s : Snapshots} {taken : List Result}

/-- Nothing is lost, taken twice or taken out of order. -/
theorem results_eq (h : Run start taken s) : taken ++ s.left = start.left := by
  induction h with
  | start => rfl
  | receive _ ih => rw [left_receive, ih]
  | next _ hnext ih => rw [← ih, left_of_next? hnext, List.append_assoc, List.singleton_append]
  | latest _ ih => rw [← ih, List.append_assoc, ← left_latest]

/-- Where nothing is left, nothing will be taken any more. -/
theorem of_left_eq_nil (h : Run start taken s) (hleft : start.left = []) :
    taken = [] ∧ s.next? = none ∧ s.latest.1 = none := by
  obtain ⟨htaken, hs⟩ := List.append_eq_nil_iff.mp (h.results_eq.trans hleft)
  have hnext := map_next? s
  rw [hs, List.head?_nil, Option.map_eq_none_iff] at hnext
  have hwaiting : s.waiting = [] := (List.append_eq_nil_iff.mp hs).1
  exact ⟨htaken, hnext, by rw [Snapshots.latest, hwaiting]; rfl⟩

/-- The reader can send all that is left. -/
theorem finish (h : Run start taken s) : Run start taken s.finish := by
  obtain ⟨unread, waiting⟩ := s
  induction unread generalizing waiting with
  | nil => simpa [Snapshots.finish] using h
  | cons r unread ih =>
      have hall := ih _ h.receive
      rwa [Snapshots.finish, List.append_assoc, List.singleton_append] at hall

/-- Of the results that wait, any number can be taken. -/
theorem take {unread waiting : List Result} (h : Run start taken ⟨unread, waiting⟩) :
    ∀ k ≤ waiting.length, Run start (taken ++ waiting.take k) ⟨unread, waiting.drop k⟩ := by
  intro k hk
  induction k with
  | zero => simpa using h
  | succ k ih =>
      have hlt : k < waiting.length := hk
      have hk' := ih (Nat.le_of_lt hlt)
      rw [List.drop_eq_getElem_cons hlt] at hk'
      rw [← List.take_append_getElem hlt, ← List.append_assoc]
      exact hk'.next rfl

end Run

theorem left_ofBytes (bytes : List UInt8) : (ofBytes bytes).left = ofLines (lines bytes) := rfl

/-- The results of an input are those of its lines: what loading gives for each line that is not
blank, an error for a line that is no text, and nothing after it.  However the reader and the user
take turns, each result is taken once and in order, by `next?` or by `latest`.  Once the reader has
sent everything, `latest` gives the last tree of those left, if there is one, and from then on there
is nothing to take. -/
theorem taken_in_order (bytes : List UInt8) : ∃ ls items,
    (∀ ls', Cuts bytes ls' ↔ ls' = ls) ∧ (∀ items', Gives ls items' ↔ items' = items) ∧
    (∀ taken s, Run (ofBytes bytes) taken s → ∃ rest, items = taken ++ rest ∧
      s.next?.map Prod.fst = rest.head? ∧
      (s.unread = [] → IsLast rest s.latest.1 ∧ ∀ taken' s', Run s.latest.2 taken' s' →
        taken' = [] ∧ s'.next? = none ∧ s'.latest.1 = none)) ∧
    ∀ k ≤ items.length, ∃ s, Run (ofBytes bytes) (items.take k) s ∧ s.unread = [] := by
  refine ⟨lines bytes, ofLines (lines bytes), fun _ => cuts_iff, fun _ => gives_iff, ?_, ?_⟩
  · intro taken s hrun
    refine ⟨s.left, ?_, map_next? s, fun hunread => ?_⟩
    · rw [hrun.results_eq, left_ofBytes]
    · have hleft : s.left = s.waiting := by rw [left, hunread, List.append_nil]
      refine ⟨hleft ▸ isLast_latest? s.waiting, fun taken' s' hlater => ?_⟩
      exact hlater.of_left_eq_nil (by simp [left, latest, hunread])
  · intro k hk
    have hall : Run (ofBytes bytes) [] ⟨[], ofLines (lines bytes)⟩ := Run.start.finish
    exact ⟨_, hall.take k hk, rfl⟩

/-- Two trees, a blank line between them and a line that is broken behind them; then a line that is
no text, and one more tree. -/
def mixed : List UInt8 :=
  let file := "\x7b\"type\":\"File\"\x7d\r\n \u3000\n"
  let program := "\x7b\"type\":\"Program\",\"body\":[\x7b\"type\":\"Super\"\x7d]\x7d\n"
  (file ++ program ++ "\x7b\n").toUTF8.toList ++ 0xff :: newline :: file.toUTF8.toList

theorem taken_in_order_mixed : (results mixed).map (fun r => (tree? r).map Tree.size) =
      [some 1, some 2, none, none] ∧
    ∃ s, Run (ofBytes mixed) ((results mixed).take 1) s ∧ s.unread = [] ∧
      s.latest.1.map Tree.size = some 2 := by
  obtain ⟨ls, items, hls, hitems, htaken, hreached⟩ := taken_in_order mixed
  obtain rfl : lines mixed = ls := (hls _).mp (cuts_iff.mpr rfl)
  obtain rfl : results mixed = items := (hitems _).mp (gives_iff.mpr rfl)
  obtain ⟨s, hrun, hunread⟩ := hreached 1 (by decide +kernel)
  obtain ⟨rest, hrest, -, hlatest⟩ := htaken _ s hrun
  obtain rfl : (results mixed).drop 1 = rest :=
    List.append_cancel_left ((List.take_append_drop 1 _).trans hrest)
  refine ⟨by decide +kernel, s, hrun, hunread, ?_⟩
  rw [(hlatest hunread).1.eq_latest?]
  decide +kernel

end SyntaxLens.Snapshots
