import TreeLang.Proofs.Tiling

/-!
# A stream without a buffer

A stream of tokens hands out again what it read before a rewind.  Whoever asks it cannot tell: a reader
that keeps two offsets, the one it committed to and the one it has come to, and that reads the text anew
whenever it is asked for a token, gives the same answers.

* `Call`, `Reply` — what can be asked of a stream, and what it answers.
* `Session`, `Rereader` — a stream with what was taken from it, and the reader without a
  buffer.
* `Session.Refines` — a stream stands where a reader without a buffer stands.
* `Session.Refines.serve` — one call: the same answer, and they stand at the same place again.
* `Session.Single`, `Session.Single.serve` — at no offset something is reported a second time.
* **`session_answers`** — all calls.
-/

namespace TreeLang

variable {operators : OperatorRegistry} {policy : EscapePolicy} {text : List Char} {p : Place}

/-- **A place of a text is known by its offset.** -/
lemma Place.Reaches.eq_skip (reaches : (Place.start text).Reaches p) :
    p = (Place.start text).skip p.offset := by
  obtain ⟨count, rfl⟩ := reaches
  rw [Place.offset_skip]
  rcases Nat.le_total count text.length with le | le
  · simp [Place.start, Nat.min_eq_left le]
  · rw [Place.skip_of_le (p := Place.start text) le]
    simp [Place.start, Nat.min_eq_right le]

namespace TokenStream

/-! ## Calls -/

/-- **What can be asked of a stream.**  The operators in force may change where everything read ahead
is forgotten, and nowhere else. -/
inductive Call where
  | next (skipBreaks : Bool) (mode : Mode)
  | commit
  | rewind
  | forget (operators : OperatorRegistry)
  | position
  | takeReports

/-- What a call answers. -/
inductive Reply where
  | token (token : Token)
  | offset (offset : Nat)
  | done

/-- The answers to some calls, one after the other, and what is there behind the last one. -/
def Call.answers {σ : Type} (serve : σ → Call → Reply × σ) : σ → List Call → List Reply × σ
  | s, [] => ([], s)
  | s, call :: calls =>
    let (answer, s) := serve s call
    let (others, s) := answers serve s calls
    (answer :: others, s)

/-- A stream that is being asked, the operators in force, and the reports that were taken. -/
structure Session where
  operators : OperatorRegistry
  stream : TokenStream
  taken : List Report

/-- A stream nobody has asked so far. -/
def Session.start (operators : OperatorRegistry) (policy : EscapePolicy) (text : List Char) : Session :=
  ⟨operators, .start policy text, []⟩

/-- One call. -/
def Session.serve (session : Session) : Call → Reply × Session
  | .next skipBreaks mode =>
    let (token, stream) := session.stream.next session.operators skipBreaks mode
    (.token token, { session with stream := stream })
  | .commit => (.done, { session with stream := session.stream.commit })
  | .rewind => (.done, { session with stream := session.stream.rewind })
  | .forget operators =>
    (.done, { session with operators := operators, stream := session.stream.forget })
  | .position => (.offset session.stream.position, session)
  | .takeReports =>
    let (reports, stream) := session.stream.takeReports
    (.done, { session with stream := stream, taken := session.taken ++ reports })

/-- **A reader without a buffer**: it keeps an offset to go back to and the one it has come to. -/
structure Rereader where
  operators : OperatorRegistry
  policy : EscapePolicy
  text : List Char
  committed : Nat
  current : Nat

namespace Rereader

/-- The reader at the beginning of a text. -/
def start (operators : OperatorRegistry) (policy : EscapePolicy) (text : List Char) : Rereader :=
  ⟨operators, policy, text, 0, 0⟩

/-- One call: a token is read off the text, whatever was read there before. -/
def serve (reader : Rereader) : Call → Reply × Rereader
  | .next skipBreaks mode =>
    let token := (lex reader.operators reader.policy skipBreaks mode
      ((Place.start reader.text).skip reader.current)).token
    (.token token, { reader with current := token.stop })
  | .commit => (.done, { reader with committed := reader.current })
  | .rewind => (.done, { reader with current := reader.committed })
  | .forget operators =>
    (.done, { reader with operators := operators, current := reader.committed })
  | .position => (.offset reader.current, reader)
  | .takeReports => (.done, reader)

end Rereader

/-! ## One call -/

/-- **A stream that stands where a reader without a buffer stands**, and whose buffer holds what that
reader would read. -/
structure Session.Refines (session : Session) (reader : Rereader) : Prop where
  operators : session.operators = reader.operators
  policy : session.stream.policy = reader.policy
  coherent : session.stream.Coherent session.operators
  anchor : session.stream.anchor = (Place.start reader.text).skip reader.committed
  place : session.stream.place = (Place.start reader.text).skip reader.current
  offset : session.stream.place.offset = reader.current
  committed : session.stream.anchor.offset = reader.committed

namespace Session

variable {session : Session} {reader : Rereader}

lemma refines_start (operators : OperatorRegistry) (policy : EscapePolicy) (text : List Char) :
    (start operators policy text).Refines (.start operators policy text) :=
  ⟨rfl, rfl, trivial, rfl, rfl, rfl, rfl⟩

/-- **A token is the one that would be read**, from the buffer or not. -/
lemma Refines.next (refines : session.Refines reader) (skipBreaks : Bool) (mode : Mode) :
    (session.serve (.next skipBreaks mode)).1 = (reader.serve (.next skipBreaks mode)).1 ∧
      (session.serve (.next skipBreaks mode)).2.Refines (reader.serve (.next skipBreaks mode)).2 := by
  obtain ⟨ahead, handed, coherent⟩ := next_eq refines.coherent skipBreaks mode
  have here : session.stream.lexemeHere session.operators skipBreaks mode
      = lex reader.operators reader.policy skipBreaks mode
          ((Place.start reader.text).skip reader.current) := by
    rw [lexemeHere, refines.operators, refines.policy, refines.place]
  simp only [serve, Rereader.serve, handed]
  rw [here] at coherent ⊢
  set lexeme := lex reader.operators reader.policy skipBreaks mode
    ((Place.start reader.text).skip reader.current) with read
  have stop : lexeme.token.stop = lexeme.after.offset := (covers_lex ..).stop
  have reaches : (Place.start reader.text).Reaches lexeme.after :=
    (Place.Reaches.refl _).skip reader.current |>.trans (reaches_lex ..)
  refine ⟨rfl, refines.operators, ?_, coherent, ?_, ?_, stop.symm, ?_⟩
  · simpa [handOut] using refines.policy
  · simpa [handOut] using refines.anchor
  · simpa [handOut, TokenStream.place, stop] using reaches.eq_skip
  · simpa [handOut] using refines.committed

/-- **One call** is answered alike, and stream and reader stand at the same place again. -/
theorem Refines.serve (refines : session.Refines reader) (call : Call) :
    (session.serve call).1 = (reader.serve call).1 ∧
      (session.serve call).2.Refines (reader.serve call).2 := by
  cases call with
  | next skipBreaks mode => exact refines.next skipBreaks mode
  | commit =>
    refine ⟨rfl, { refines with coherent := ?_, anchor := refines.place, committed := refines.offset }⟩
    -- What is kept behind the last token stays what would be read there.
    have kept := (chained_append.mp refines.coherent).2
    rwa [← place_eq_lastPlace] at kept
  | rewind => exact ⟨rfl, { refines with place := refines.anchor, offset := refines.committed }⟩
  | forget operators =>
    exact ⟨rfl, { refines with
      operators := rfl
      coherent := trivial
      place := refines.anchor
      offset := refines.committed }⟩
  | position => exact ⟨congrArg Reply.offset refines.offset, refines⟩
  | takeReports => exact ⟨rfl, { refines with }⟩

/-! ## Reports -/

/-- The offsets of some reports, as a stream keeps them. -/
def offsets (reports : List Report) : List Nat :=
  reports.map fun report => report.offset.getD 0

/-- **At no offset anything is reported twice**: the reports taken and those still to be taken lie at
offsets of their own, all of which the stream remembers. -/
structure Single (session : Session) : Prop where
  nodup : (offsets (session.taken ++ session.stream.reports)).Nodup
  known : ∀ offset ∈ offsets (session.taken ++ session.stream.reports),
    offset ∈ session.stream.reported

/-- A report more, unless there is one at its offset. -/
lemma Single.report (single : session.Single) (report : Report) :
    Single { session with stream := session.stream.report report } := by
  simp only [TokenStream.report]
  split
  · exact single
  · rename_i unknown
    have fresh : report.offset.getD 0 ∉ offsets (session.taken ++ session.stream.reports) :=
      fun member => unknown (by simpa using single.known _ member)
    refine ⟨?_, ?_⟩
    · rw [← List.append_assoc, offsets, List.map_append, ← offsets]
      exact single.nodup.append (List.nodup_singleton _) (by simpa using fresh)
    · intro offset member
      rw [← List.append_assoc, offsets, List.map_append, List.mem_append, ← offsets] at member
      rcases member with before | here
      · exact List.mem_cons_of_mem _ (single.known offset before)
      · rw [List.mem_singleton.mp here]
        exact List.mem_cons_self

lemma Single.absorb (single : session.Single) (reports : List Report) :
    Single { session with stream := session.stream.absorb reports } := by
  induction reports generalizing session with
  | nil => exact single
  | cons report rest ih => exact ih (single.report report)

/-- **One call** reports nothing a second time. -/
theorem Single.serve (single : session.Single) (coherent : session.stream.Coherent session.operators)
    (call : Call) : (session.serve call).2.Single := by
  cases call with
  | next skipBreaks mode =>
    obtain ⟨ahead, handed, -⟩ := next_eq coherent skipBreaks mode
    simp only [Session.serve, handed]
    have absorbed := single.absorb
      (session.stream.lexemeHere session.operators skipBreaks mode).reports
    exact ⟨absorbed.nodup, absorbed.known⟩
  | takeReports =>
    simp only [Session.serve, TokenStream.takeReports]
    exact ⟨by simpa using single.nodup, by simpa using single.known⟩
  | commit | rewind | forget | position => exact ⟨single.nodup, single.known⟩

end Session

/-! ## All calls -/

/-- **Any calls** keep what one call keeps. -/
lemma Session.Refines.answers {session : Session} {reader : Rereader}
    (refines : session.Refines reader) (single : session.Single) (calls : List Call) :
    (Call.answers Session.serve session calls).1 = (Call.answers Rereader.serve reader calls).1 ∧
      (Call.answers Session.serve session calls).2.Single := by
  induction calls generalizing session reader with
  | nil => exact ⟨rfl, single⟩
  | cons call calls ih =>
    obtain ⟨answer, refined⟩ := refines.serve call
    obtain ⟨others, single⟩ := ih refined (single.serve refines.coherent call)
    exact ⟨congrArg₂ List.cons answer others, single⟩

/-- **A stream answers as if it kept nothing**, whatever is asked of it, one call after the other: its
tokens and its positions are those of a reader that knows the offset it committed to and the one it has
come to, and reads the text anew for every token.  And no two of the reports ever taken from it lie at
one offset. -/
theorem session_answers (operators : OperatorRegistry) (policy : EscapePolicy) (text : List Char)
    (calls : List Call) :
    let asked := Call.answers Session.serve (.start operators policy text) calls
    asked.1 = (Call.answers Rereader.serve (.start operators policy text) calls).1 ∧
      (asked.2.taken.map Report.offset).Nodup := by
  intro asked
  obtain ⟨answers, single⟩ :=
    (Session.refines_start operators policy text).answers ⟨List.nodup_nil, nofun⟩ calls
  refine ⟨answers, .of_map (Option.getD · 0) ?_⟩
  have nodup := single.nodup
  rw [Session.offsets, List.map_append] at nodup
  rw [List.map_map]
  exact nodup.of_append_left

end TokenStream

end TreeLang
