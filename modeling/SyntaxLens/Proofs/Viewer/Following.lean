import SyntaxLens.Proofs.Document.Streaming
import SyntaxLens.Viewer.Session

/-! # Following a stream

Reader and viewer of a stream go on at the same time.  Whatever the schedule, the viewer takes every
result once and in order, and shows trees in the order in which they were sent; when the reader has
ended and one more turn is over, it shows the last tree that was sent (`shown_in_order`).

* `Drains` takes what waits, one result after the other, while the reader sends more.  The outcome is
  that of `Snapshots.latest` when everything has come (`Drains.eq_latest`).
* `Turns` is one turn, and `Runs` a run: the reader sends, or the viewer takes a turn.
* What carries the run is an account of the results: those taken, those that wait and those unread
  are all that there are, and the tree on show is the last one among those taken (`Account`). -/

namespace SyntaxLens

namespace Snapshots

/-! ### Taking what waits -/

/-- The viewer takes what waits, one result after the other, until nothing waits; `arrived` are the
results that the reader sends in the meantime.  Of the trees taken before, the last is `newest`, and
in the end it is `out`. -/
inductive Drains : (newest : Option Tree) → Snapshots → (arrived : List Result) →
    (out : Option Tree) → Snapshots → Prop
  | done (newest : Option Tree) (unread : List Result) :
      Drains newest ⟨unread, []⟩ [] newest ⟨unread, []⟩
  | send {newest out : Option Tree} {r : Result} {unread waiting arrived : List Result}
      {s : Snapshots} : Drains newest ⟨unread, waiting ++ [r]⟩ arrived out s →
      Drains newest ⟨r :: unread, waiting⟩ (r :: arrived) out s
  | take {newest out : Option Tree} {r : Result} {unread waiting arrived : List Result}
      {s : Snapshots} : Drains ((tree? r).or newest) ⟨unread, waiting⟩ arrived out s →
      Drains newest ⟨unread, r :: waiting⟩ arrived out s

section drains
variable {newest out : Option Tree} {s s' : Snapshots} {arrived : List Result}

theorem Drains.outcome (h : Drains newest s arrived out s') :
    s.unread = arrived ++ s'.unread ∧ s'.waiting = [] ∧
      out = (latest? (s.waiting ++ arrived)).or newest := by
  induction h with
  | done => exact ⟨rfl, rfl, rfl⟩
  | send _ ih =>
      obtain ⟨hunread, hwaiting, hout⟩ := ih
      dsimp only at hunread hout ⊢
      refine ⟨by rw [hunread, List.cons_append], hwaiting, ?_⟩
      rw [hout, List.append_assoc, List.singleton_append]
  | @take newest out r unread waiting arrived s _ ih =>
      obtain ⟨hunread, hwaiting, hout⟩ := ih
      refine ⟨hunread, hwaiting, ?_⟩
      rw [hout, List.cons_append, ← List.singleton_append, latest?_append [r], latest?_singleton,
        Option.or_assoc]

/-- What comes while the viewer takes what waits is taken as well: it could have come before. -/
theorem Drains.eq_latest (h : Drains none s arrived out s') :
    s.unread = arrived ++ s'.unread ∧
      (⟨s'.unread, s.waiting ++ arrived⟩ : Snapshots).latest = (out, s') := by
  obtain ⟨hunread, hwaiting, hout⟩ := h.outcome
  refine ⟨hunread, ?_⟩
  rw [latest, hout, Option.or_none, ← hwaiting]

/-- What waits can be taken without anything coming in between. -/
theorem drains_latest (s : Snapshots) : Drains none s [] s.latest.1 s.latest.2 := by
  have hall : ∀ (waiting : List Result) (newest : Option Tree),
      Drains newest ⟨s.unread, waiting⟩ [] ((latest? waiting).or newest) ⟨s.unread, []⟩ := by
    intro waiting
    induction waiting with
    | nil => exact fun newest => .done newest s.unread
    | cons r waiting ih =>
        intro newest
        rw [← List.singleton_append, latest?_append [r], latest?_singleton, Option.or_assoc]
        exact .take (ih _)
  have h := hall s.waiting none
  rwa [Option.or_none] at h

end drains

end Snapshots

namespace Viewer

/-! ### What keys leave alone -/

section keys
variable (m : Model)

theorem Model.tree_reveal : m.reveal.tree = m.tree := by
  unfold Model.reveal
  split <;> rfl

theorem Model.tree_move (d : Direction) : (m.move d).1.tree = m.tree := by
  unfold Model.move
  dsimp only
  split
  · rw [Model.tree_reveal]
    rfl
  · rfl

theorem Model.tree_focusOn (id : NodeId) : (m.focusOn id).1.tree = m.tree := by
  have hset : (m.focus.setNode id).1.tree = m.focus.tree := by
    unfold Focus.setNode Focus.setPath
    split
    · split <;> rfl
    · rfl
  unfold Model.focusOn
  dsimp only
  split
  · rw [Model.tree_reveal]
    exact hset
  · rfl

theorem Model.tree_toggle (id : NodeId) : (m.toggle id).tree = m.tree := by
  unfold Model.toggle
  split <;> rfl

namespace App

variable (a : App)

theorem apply_keeps (e : Event) :
    (a.apply e).model.tree = a.model.tree ∧ (a.apply e).source = a.source := by
  cases e with
  | move d =>
      have htree := a.model.tree_move d
      unfold apply
      dsimp only
      split
      · exact ⟨htree, rfl⟩
      · exact ⟨rfl, rfl⟩
  | select id => exact ⟨a.model.tree_focusOn id, rfl⟩
  | toggle id => exact ⟨a.model.tree_toggle id, rfl⟩
  | none => exact ⟨rfl, rfl⟩

/-- Without a source to read again, no key changes the tree. -/
theorem press_keeps (h : a.source = none) (files : Files) (k : KeyPress) :
    (a.press files k).1.model.tree = a.model.tree ∧ (a.press files k).1.source = none := by
  unfold press
  split_ifs
  · exact ⟨rfl, h⟩
  · exact ⟨rfl, h⟩
  · rw [reload, h]
    exact ⟨rfl, rfl⟩
  · exact ⟨(a.apply_keeps _).1, (a.apply_keeps _).2.trans h⟩

theorem pressAll_keeps (h : a.source = none) (files : Files) (keys : List KeyPress) :
    (a.pressAll files keys).model.tree = a.model.tree ∧ (a.pressAll files keys).source = none := by
  unfold pressAll
  induction keys generalizing a with
  | nil => exact ⟨rfl, h⟩
  | cons k keys ih =>
      obtain ⟨htree, hsource⟩ := a.press_keeps h files k
      obtain ⟨htrees, hsources⟩ := ih _ hsource
      exact ⟨htrees.trans htree, hsources⟩

theorem refresh_keeps (newest : Option Tree) :
    (a.refresh newest).model.tree = newest.getD a.model.tree ∧
      (a.refresh newest).source = a.source := by
  cases newest <;> exact ⟨rfl, rfl⟩

end App

end keys

/-! ### Turns and runs -/

open Snapshots (Result Drains IsLast latest? tree?)

/-- What happens in a turn of the viewer. -/
structure Turn where
  /-- What waited at the beginning. -/
  found : List Result
  /-- What came while the viewer took what waited. -/
  arrived : List Result
  /-- The tree that the stream gave. -/
  newest : Option Tree
  /-- The viewer when it has shown the tree and no key has been handled. -/
  shown : App

/-- The results that were taken from the stream. -/
def Turn.taken (turn : Turn) : List Result := turn.found ++ turn.arrived

namespace Session

/-- One turn of a viewer that has not been ended. -/
inductive Turns : Session → Turn → Session → Prop
  | intro {s : Session} {arrived : List Result} {newest : Option Tree} {stream : Snapshots}
      (files : Files) (keys : List KeyPress) : s.app.quit = false →
      Drains none s.stream arrived newest stream →
      Turns s ⟨s.stream.waiting, arrived, newest, s.app.refresh newest⟩
        ⟨(s.app.refresh newest).pressAll files keys, stream⟩

/-- A run, with the turns that were taken: at any time the reader may send a result, and the viewer
may take a turn. -/
inductive Runs (s : Session) : List Turn → Session → Prop
  | nil : Runs s [] s
  | send {history : List Turn} {s' : Session} : Runs s history s' →
      Runs s history { s' with stream := s'.stream.receive }
  | turn {history : List Turn} {turn : Turn} {s' s'' : Session} : Runs s history s' →
      Turns s' turn s'' → Runs s (history ++ [turn]) s''

/-- A viewer that has not been ended can take a turn, whatever waits. -/
theorem turns_turn {s : Session} (h : s.app.quit = false) (files : Files) (keys : List KeyPress) :
    Turns s ⟨s.stream.waiting, [], s.stream.latest.1, s.app.refresh s.stream.latest.1⟩
      (s.turn files keys) :=
  .intro files keys h s.stream.drains_latest

theorem Runs.trans {s s' s'' : Session} {history later : List Turn} (h : Runs s history s')
    (h' : Runs s' later s'') : Runs s (history ++ later) s'' := by
  induction h' with
  | nil =>
      rw [List.append_nil]
      exact h
  | send _ ih => exact .send ih
  | turn _ hturn ih =>
      rw [← List.append_assoc]
      exact .turn ih hturn

/-- When nothing is left to send, a turn leaves nothing. -/
theorem Turns.stream_eq_nil {s s' : Session} {turn : Turn} (h : Turns s turn s')
    (hs : s.stream.unread = []) : s'.stream = ⟨[], []⟩ := by
  obtain ⟨files, keys, -, hdrains⟩ := h
  rename_i arrived newest stream
  obtain ⟨hunread, hlatest⟩ := hdrains.eq_latest
  rw [hs] at hunread
  have hrest : stream.unread = [] := (List.append_eq_nil_iff.mp hunread.symm).2
  rw [hrest] at hlatest
  exact (congrArg Prod.snd hlatest).symm

theorem Runs.stream_eq_nil {s s' : Session} {history : List Turn} (h : Runs s history s')
    (hs : s.stream = ⟨[], []⟩) : s'.stream = ⟨[], []⟩ := by
  induction h with
  | nil => exact hs
  | send _ ih =>
      rw [ih]
      rfl
  | turn _ hturn ih => exact hturn.stream_eq_nil (by rw [ih])

/-- All results that will ever come are accounted for, and the tree on show is the last that was
shown. -/
structure Account (sent : List Result) (initial : Tree) (history : List Turn) (s : Session) :
    Prop where
  source : s.app.source = none
  results : history.flatMap Turn.taken ++ s.stream.waiting ++ s.stream.unread = sent
  newest : ∀ turn ∈ history, turn.newest = latest? turn.taken
  shown : ∀ turn ∈ history, ∀ t, turn.newest = some t → turn.shown.model = .ofTree t
  tree : s.app.model.tree = ((history.filterMap Turn.newest).getLast?).getD initial

namespace Account

variable {sent : List Result} {initial : Tree} {history : List Turn} {s s' : Session}

theorem send (h : Account sent initial history s) :
    Account sent initial history { s with stream := s.stream.receive } := by
  refine ⟨h.source, ?_, h.newest, h.shown, h.tree⟩
  have hresults := h.results
  cases hunread : s.stream.unread with
  | nil => simpa [Snapshots.receive, hunread] using hresults
  | cons r rest => simpa [Snapshots.receive, hunread] using hresults

theorem turn (h : Account sent initial history s) {turn : Turn} (hturn : Turns s turn s') :
    Account sent initial (history ++ [turn]) s' := by
  obtain ⟨files, keys, -, hdrains⟩ := hturn
  rename_i arrived newest stream
  obtain ⟨hunread, hlatest⟩ := hdrains.eq_latest
  have hout : newest = latest? (s.stream.waiting ++ arrived) := (congrArg Prod.fst hlatest).symm
  have hwaiting : stream.waiting = [] := by
    rw [← show _ = stream from congrArg Prod.snd hlatest]
    rfl
  obtain ⟨hrefresh, hkept⟩ := s.app.refresh_keeps newest
  obtain ⟨hpress, hsource⟩ := (s.app.refresh newest).pressAll_keeps (hkept.trans h.source) files keys
  refine ⟨hsource, ?_, ?_, ?_, ?_⟩
  · -- What was found and what arrived is taken now; nothing waits.
    rw [← h.results, hunread, hwaiting]
    simp [Turn.taken]
  · simp only [List.forall_mem_append, List.forall_mem_singleton]
    exact ⟨h.newest, hout⟩
  · simp only [List.forall_mem_append, List.forall_mem_singleton]
    refine ⟨h.shown, fun t ht => ?_⟩
    subst ht
    rfl
  · rw [hpress, hrefresh, h.tree, List.filterMap_append]
    cases newest <;> simp

end Account

theorem account_start (m : Model) (settings : Settings) (stream : Snapshots)
    (h : stream.waiting = []) :
    Account stream.unread m.tree [] (.start m settings stream) where
  source := rfl
  results := by simp [start, h]
  newest turn hturn := by cases hturn
  shown turn hturn := by cases hturn
  tree := rfl

theorem Runs.account {sent : List Result} {initial : Tree} {s s' : Session} {history : List Turn}
    (h : Runs s history s') (hs : Account sent initial [] s) : Account sent initial history s' := by
  induction h with
  | nil => exact hs
  | send _ ih => exact ih.send
  | turn _ hturn ih => exact ih.turn hturn

/-! ### Trees in the order of the results -/

section newest
variable {history : List Turn}

/-- The trees that were shown come in the order of the results that were taken. -/
theorem filterMap_newest_sublist (h : ∀ turn ∈ history, turn.newest = latest? turn.taken) :
    (history.filterMap Turn.newest).Sublist
      ((history.flatMap Turn.taken).filterMap tree?) := by
  induction history with
  | nil => exact List.Sublist.refl _
  | cons turn history ih =>
      obtain ⟨hturn, hhistory⟩ := List.forall_mem_cons.mp h
      have hfirst := Snapshots.latest?_sublist turn.taken
      rw [← hturn] at hfirst
      have hsplit : (turn :: history).filterMap Turn.newest =
          turn.newest.toList ++ history.filterMap Turn.newest := by
        cases hnewest : turn.newest <;> simp [hnewest]
      rw [hsplit, List.flatMap_cons, List.filterMap_append]
      exact hfirst.append (ih hhistory)

/-- The last tree that was shown is the last of all that were taken. -/
theorem getLast?_newest (h : ∀ turn ∈ history, turn.newest = latest? turn.taken) :
    (history.filterMap Turn.newest).getLast? = latest? (history.flatMap Turn.taken) := by
  induction history using List.reverseRecOn with
  | nil => rfl
  | append_singleton history turn ih =>
      simp only [List.forall_mem_append, List.forall_mem_singleton] at h
      rw [List.flatMap_append, List.flatMap_singleton, Snapshots.latest?_append, ← ih h.1, ← h.2,
        List.filterMap_append]
      cases hnewest : turn.newest <;> simp [hnewest]

end newest

/-- A session follows its stream under any schedule of reader and viewer, whatever the input and
wherever reading it ends.  Every result is taken once, in the order in which it was sent.  A turn
gets the last tree among what waits then or comes while it is taken, and none if there is no tree;
it shows this tree with the focus on its root.  The trees shown come in the order of the input, and
the last of them stays on show.  When the reader has sent everything and one more turn is over, this
is the last tree of the input, whatever failed results come behind it. -/
theorem shown_in_order (bytes : List UInt8) (ending : Snapshots.Ending) (m : Model)
    (settings : Settings) (history : List Turn) (s : Session)
    (hrun : Runs (.start m settings (.ofInput bytes ending)) history s) :
    let sent := Snapshots.resultsUntil bytes ending
    history.flatMap Turn.taken ++ s.stream.waiting ++ s.stream.unread = sent ∧
    (∀ turn ∈ history, IsLast turn.taken turn.newest ∧
      ∀ t, turn.newest = some t → turn.shown.model.tree = t ∧ turn.shown.model.path = []) ∧
    (history.filterMap Turn.newest).Sublist (sent.filterMap tree?) ∧
    s.app.model.tree = ((history.filterMap Turn.newest).getLast?).getD m.tree ∧
    (s.stream.unread = [] → ∀ turn s', Turns s turn s' → ∀ later s'', Runs s' later s'' →
      ∃ last, IsLast sent last ∧ s''.app.model.tree = last.getD m.tree) := by
  intro sent
  have hstart : Account sent m.tree [] (.start m settings (.ofInput bytes ending)) :=
    account_start m settings (.ofInput bytes ending) rfl
  have haccount := hrun.account hstart
  have hsublist := filterMap_newest_sublist haccount.newest
  refine ⟨haccount.results, fun turn hturn => ⟨?_, fun t ht => ?_⟩, ?_, haccount.tree, ?_⟩
  · rw [haccount.newest turn hturn]
    exact Snapshots.isLast_latest? turn.taken
  · rw [haccount.shown turn hturn t ht]
    exact ⟨rfl, rfl⟩
  · have htaken : (history.flatMap Turn.taken).Sublist sent := by
      rw [← haccount.results, List.append_assoc]
      exact List.sublist_append_left _ _
    exact hsublist.trans (htaken.filterMap tree?)
  · intro hunread turn s' hturn later s'' hlater
    have haccount' := ((hrun.turn hturn).trans hlater).account hstart
    refine ⟨latest? sent, Snapshots.isLast_latest? sent, ?_⟩
    -- The turn takes the last results, and none comes after them.
    have hrest := hlater.stream_eq_nil (hturn.stream_eq_nil hunread)
    have hall : ((history ++ [turn]) ++ later).flatMap Turn.taken = sent := by
      have hresults := haccount'.results
      rwa [hrest, List.append_nil, List.append_nil] at hresults
    rw [haccount'.tree, getLast?_newest haccount'.newest, hall]

/-- Two trees and then a line that is broken; behind it the input cannot be read. -/
def interrupted : List UInt8 :=
  let file := "\x7b\"type\":\"File\"\x7d\n"
  let program := "\x7b\"type\":\"Program\",\"body\":[\x7b\"type\":\"Super\"\x7d]\x7d\n"
  (file ++ program ++ "\x7b\n\x7b").toUTF8.toList

/-- A viewer of this input. -/
def opened : Session := .start (.ofTree .empty) ⟨"text", "  ", 30, 40, false, 250, "info"⟩
  (.ofInput interrupted (.failure "gone"))

/-- The first tree has come, the viewer takes a turn, and the rest comes. -/
def midway : Session :=
  let s := ({ opened with stream := opened.stream.receive } : Session).turn
    (fun _ => .error .missing) [⟨.char 'r', false⟩]
  { s with stream := s.stream.receive.receive.receive }

theorem shown_in_order_interrupted : ∃ turn : Turn, turn.taken.length = 1 ∧
    Runs opened [turn] midway ∧ midway.stream.waiting.length = 3 ∧
    ∀ turn' s', Turns midway turn' s' → s'.app.model.tree.size = 2 := by
  have hfirst := (Runs.nil (s := opened)).send.turn
    (turns_turn rfl (fun _ => .error .missing) [⟨.char 'r', false⟩])
  refine ⟨_, ?_, hfirst.send.send.send, by decide +kernel, ?_⟩
  · decide +kernel
  · intro turn' s' hturn
    obtain ⟨-, -, -, -, hend⟩ := shown_in_order interrupted (.failure "gone") _ _ _ _
      hfirst.send.send.send
    obtain ⟨last, hlast, htree⟩ := hend (by decide +kernel) turn' s' hturn [] s' .nil
    rw [htree, hlast.eq_latest?]
    decide +kernel

end Session

end Viewer

end SyntaxLens
