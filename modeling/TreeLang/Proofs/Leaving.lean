import TreeLang.Compilation
import TreeLang.Proofs.Completeness
import TreeLang.Proofs.Denotation

/-!
# Groups that are left open

A list or an operation may lack its closer where a group around it is closed.  It ends there, with the
elements that were read so far, and its closer is missed once; the closer of the group around it is left
to that group.  This is so because the closers of all groups are told from texts where an element is
read.  Where a key is read those of lists and operations are not, so an object that lacks its closer takes
them for texts.

* `Lexis.Unclosed`, `Unclosed.elements` — the elements of a group that is not closed, which are those that
  the other closer would have closed.
* `runs_separator_awaited`, **`Unclosed.runs`** — they are read up to a closer that is waited for.
* **`runs_unclosed`** — the group that they are in.
* `kind_key` — closers that are texts where a key is read.
-/

namespace TreeLang

/-- The groups of elements: by their opener, how the elements are read, the closer, and whether the group
is an operation. -/
inductive TokenKind.Groups : TokenKind → Mode → TokenKind → Bool → Prop
  | list : Groups .lBracket .value .rBracket false
  | operation : Groups .lParen .operation .rParen true

namespace TokenKind.Groups

variable {opener closer : TokenKind} {mode : Mode} {operation : Bool}

lemma closing (groups : opener.Groups mode closer operation) : opener.closer? = some closer := by
  cases groups <;> rfl

lemma isCloser (groups : opener.Groups mode closer operation) : closer.isCloser := by
  cases groups <;> rfl

/-- What such a group holds. -/
lemma content (groups : opener.Groups mode closer operation) (options : CompileOptions)
    (fuel start : Nat) : Parser.groupContent options fuel opener start = (do
      let (values, stop) ← Parser.parseElements options fuel start mode closer []
      return .values values operation stop) := by
  cases groups <;> rfl

end TokenKind.Groups

namespace Lexis

open TreeLang.Parser

variable {lexis : Lexis} {options : CompileOptions} {mode : Mode} {awaited closer : TokenKind}
  {p q r : Place} {s t : ParserState} {phrases : List Phrase} {fuel : Nat}

/-- **The elements of a group that is not closed**, up to a closer that another group waits for. -/
inductive Unclosed (lexis : Lexis) (mode : Mode) (awaited : TokenKind) :
    Place → List Phrase → Place → Prop
  | left {p : Place} (met : lexis.admits (lexis.read true mode p))
      (kind : (lexis.read true mode p).token.kind = awaited) : Unclosed lexis mode awaited p [] p
  | more {phrase : Phrase} {rest : List Phrase} {p p₁ p₂ p₃ : Place}
      (met : lexis.admits (lexis.read true mode p)) (element : Element lexis mode p phrase p₁)
      (separated : lexis.Separated mode awaited p₁ p₂)
      (others : Unclosed lexis mode awaited p₂ rest p₃) :
      Unclosed lexis mode awaited p (phrase :: rest) p₃

/-- They are the elements that this closer would have closed. -/
lemma Unclosed.elements (unclosed : Unclosed lexis mode awaited p phrases r) :
    Elements lexis mode awaited p phrases (lexis.read true mode r).token.stop
      (lexis.read true mode r).after := by
  induction unclosed with
  | left met kind => exact .done kind met
  | more met element separated others ih => exact .more met element separated ih

lemma Unclosed.le (unclosed : Unclosed lexis mode awaited p phrases r) :
    r.rest.length ≤ p.rest.length := by
  induction unclosed with
  | left met kind => exact Nat.le_refl _
  | more met element separated others ih =>
    exact Nat.le_trans ih (Nat.le_trans separated.le (Nat.le_of_lt element.shortens))

/-- The closer that is waited for stands behind them. -/
lemma Unclosed.kind (unclosed : Unclosed lexis mode awaited p phrases r) :
    (lexis.read true mode r).token.kind = awaited := by
  induction unclosed with
  | left met kind => exact kind
  | more met element separated others ih => exact ih

/-- A separator is passed, and a closer that is waited for is left. -/
lemma Governs.runs_separator_awaited (governs : lexis.Governs s) (waits : awaited ∈ s.awaited)
    (closes : awaited.isCloser) (silent : (lexis.read false mode p).reports = [])
    (separated : lexis.Separated mode awaited p q) :
    Runs (separator mode closer) (s.moveTo p) () (s.moveTo q) := by
  refine (governs.runs_peek silent).bind ?_
  obtain ⟨-, ⟨kind, rfl⟩ | ⟨kind, rfl⟩⟩ := separated
  · rw [if_pos (by simpa using kind)]
    exact governs.runs_skipToken silent
  · rw [if_neg (by rw [kind]; cases awaited <;> simp_all [TokenKind.isCloser])]
    refine (runs_closesAwaited _ _).bind ?_
    have waited : (s.moveTo q).awaited.contains awaited = true := List.contains_iff_mem.mpr waits
    rw [kind, closes, waited, Bool.and_self, Bool.or_true, if_pos rfl]
    exact Runs.pure _ _

/-- **The elements of a group that is not closed** are read up to the closer that another group waits
for.  That the group is not closed is reported once. -/
theorem Unclosed.runs (silent : lexis.Silent) (affords : lexis.Affords lexis.operators.priorityGroups)
    (closes : awaited.isCloser) (closed : closer.isCloser) (other : awaited ≠ closer) {start : Nat}
    {known nodes : List Node}
    (unclosed : Unclosed lexis mode awaited p phrases r) (governs : lexis.Governs s)
    (rests : s.suppressed = false) (attends : s.recovering = false) (waits : awaited ∈ s.awaited)
    (made : Phrase.makeElements options phrases s = .ok nodes t)
    (enough : lexis.cost p + lexis.pace ≤ fuel + lexis.cost r) :
    Runs (parseElements options fuel start mode closer known) (s.moveTo p)
      (known.reverse ++ nodes, (lexis.read true mode r).token.start)
      (ParserState.moveTo { t with reports := t.reports.push (.errorAt start (.openGroup closer)) } r) := by
  induction unclosed generalizing s known nodes fuel with
  | @left p met kind =>
    have pace := lexis.ten_le_pace
    obtain ⟨fuel, rfl⟩ : ∃ f, fuel = f + 1 := ⟨fuel - 1, by omega⟩
    rw [Phrase.makeElements] at made
    obtain ⟨rfl, rfl⟩ : [] = nodes ∧ s = t := by simpa [pure, EStateM.pure] using made
    rw [parseElements_succ, List.append_nil]
    refine (governs.runs_peek (silent _ met)).bind ?_
    rw [if_neg (by rw [kind]; exact other)]
    refine (runs_closesAwaited _ _).bind ?_
    have waited : (s.moveTo p).awaited.contains awaited = true := List.contains_iff_mem.mpr waits
    rw [kind, closes, waited, Bool.and_self, Bool.or_true, if_pos rfl]
    exact (runs_note (s := s.moveTo p) _ attends).bind (Runs.pure _ _)
  | @more phrase rest p p₁ p₂ p₃ met element separated others ih =>
    have begun := lexis.cost_lt element.shortens
    have passed := lexis.cost_le separated.le
    have ended := lexis.cost_le others.le
    have pace := lexis.ten_le_pace
    obtain ⟨fuel, rfl⟩ : ∃ f, fuel = f + 1 := ⟨fuel - 1, by omega⟩
    rw [Phrase.makeElements] at made
    obtain ⟨first, s₁, makes, made⟩ := bind_eq_ok.mp made
    obtain ⟨further, s₂, madeRest, same⟩ := bind_eq_ok.mp made
    obtain ⟨rfl, rfl⟩ : first :: further = nodes ∧ s₂ = t := by
      simpa [pure, EStateM.pure] using same
    have governs₁ := governs.made (nodewise_make options _) makes
    have rests₁ := ((nodewise_make options _).suppressed_eq makes).trans rests
    obtain ⟨change, rfl, -⟩ := (nodewise_make options phrase).exists_change makes
    obtain ⟨inside, more, closing, comma⟩ := ends_of_beginsElement element.begins closes
    rw [parseElements_succ]
    refine (governs.runs_peek (silent _ met)).bind ?_
    rw [if_neg (ends_of_beginsElement element.begins closed).1]
    refine (runs_closesAwaited _ _).bind ?_
    rw [if_neg (by simp [more, closing]), if_neg comma]
    refine (element.runs silent affords governs rests makes (by omega)).bind ?_
    refine (governs₁.runs_separator_awaited waits closes (silent _ separated.1) separated).bind ?_
    have others : Runs (parseElements options fuel start mode closer (first :: known)) _ _ _ :=
      ih governs₁ rests₁ attends waits madeRest (by omega)
    rwa [List.reverse_cons, List.append_assoc] at others

/-- Making nodes changes nothing about the closers that are waited for. -/
lemma awaited_eq {α : Type} {step : Parser α} (nodewise : Nodewise step) {value : α}
    (made : step s = .ok value t) : t.awaited = s.awaited := by
  obtain ⟨change, rfl, -⟩ := nodewise.exists_change made
  rfl

/-- **A list or an operation that is left open** where a group around it is closed, however far out that
is.  If no macro answers its tree has the elements that were read, no matter how they are nested, and
there is one report more than about them.  The closer is left where it is, and still waited for. -/
theorem runs_unclosed (silent : lexis.Silent) (governs : lexis.Governs s) (rests : s.suppressed = false)
    (waits : awaited ∈ s.awaited) (closes : awaited.isCloser) {outer : Mode} (reads : ReadsAtoms outer)
    {head : Head} {operation drafting : Bool} {heard : String → Prop}
    (found : lexis.headAt? outer.ofNames p = some (head.name, head.opener, q))
    (meets : lexis.MeetsHead outer.ofNames p) (groups : head.opener.kind.Groups mode closer operation)
    (other : awaited ≠ closer) (unclosed : Unclosed lexis mode awaited q phrases r)
    (still : Still heard drafting s) (named : heard head.text)
    (said : ∀ name ∈ Phrase.offeredElements options phrases, heard name)
    (enough : lexis.cost p + 2 ≤ fuel + lexis.cost r) :
    ∃ (node : Node) (t : ParserState),
      Runs (parseAtom options fuel outer) ((s.suppress !head.expands).moveTo p) node (t.moveTo r) ∧
      node.strip = groupTree options head.text operation (Phrase.treeElements options phrases) ∧
      t.reports = s.reports ++ (Phrase.complaintsElements options phrases ++
        [.errorAt head.start (.openGroup closer)]) ∧
      t.awaited = s.awaited ∧ (lexis.read true mode r).token.kind = awaited := by
  have begun := lexis.cost_lt (headAt?_shortens found)
  have ended := lexis.cost_le unclosed.le
  have pace := lexis.ten_le_pace
  obtain ⟨fuel, rfl⟩ : ∃ f, fuel = f + 2 := ⟨fuel - 2, by omega⟩
  obtain ⟨reference, s₁, refers, -, still₁, reports₁⟩ := gives_reference still head
  obtain ⟨nodes, s₂, made, trees, still₂, reports₂⟩ :=
    gives_makeElements_of_still options phrases said still₁
  set report : Report := .errorAt head.start (.openGroup closer)
  set s₃ : ParserState := { s₂ with reports := s₂.reports.push report }
  have still₃ : Still heard drafting s₃ :=
    ⟨still₂.macros, still₂.depth, still₂.recovering, still₂.outside⟩
  obtain ⟨node, t, completed, tree, -, reports₃⟩ := gives_completeGroup still₃ options named
    head.start head.expands reference (.values nodes operation (lexis.read true mode r).token.start)
  have refersNodewise := nodewise_reference head
  have madeNodewise := nodewise_makeElements options phrases
  have waits₁ : awaited ∈ (s₁.awaiting closer).awaited := by
    rw [ParserState.awaiting, awaited_eq refersNodewise refers]
    exact List.mem_cons_of_mem _ waits
  have inside : lexis.Governs (s₁.awaiting closer) → (s₁.awaiting closer).suppressed = false →
      Runs (groupContent options fuel head.opener.kind head.start)
        ((s₁.awaiting closer).moveTo q)
        (.values nodes operation (lexis.read true mode r).token.start)
        ((s₃.awaiting closer).moveTo r) := by
    intro governs rests
    have framed := madeNodewise.framed (framing_awaiting closer) made
    have elements : Runs (parseElements options fuel head.start mode closer []) _ _ _ :=
      unclosed.runs silent lexis.affords_priorityGroups closes groups.isCloser other governs rests
        still₁.recovering waits₁ framed (by omega)
    rw [groups.content]
    exact elements.bind (Runs.pure _ _)
  refine ⟨node, t, runs_atom_group governs rests reads (meets.silent silent) found groups.closing refers
    inside completed, ?_, ?_, ?_, unclosed.kind⟩
  · rw [tree, contentTree, trees]
    rfl
  · have before : s₂.reports = s.reports ++ Phrase.complaintsElements options phrases := by
      rw [reports₂, reports₁, Array.appendList_nil]
    have all : t.reports = s₂.reports.push report := by rw [reports₃, Array.appendList_nil]
    rw [all, before]
    exact Array.ext' (by simp)
  · rw [awaited_eq (nodewise_completeGroup _ _ _ _ _ _) completed]
    exact (awaited_eq madeNodewise made).trans (awaited_eq refersNodewise refers)

/-- For instance, a list is left open where the object around it is closed. -/
example :
    let result := (compile {} (tableResolver []) ⟨"", "\x7ba: [1, x[2]\x7d\nb"⟩ {}).1
    result.root.text = "[\x7ba: [1, x[2]]\x7d, b]" ∧
      result.reports.map (·.cause) = [.openGroup .rBracket] := by
  decide +kernel

/-- **Where a key is read the only closer is that of objects.** -/
theorem kind_key (lexis : Lexis) (skipBreaks : Bool) (p : Place)
    (closes : (lexis.read skipBreaks .key p).token.kind.isCloser) :
    (lexis.read skipBreaks .key p).token.kind = .rBrace := by
  rw [read, lex] at closes ⊢
  cases skips : skipTrivia skipBreaks p with
  | openComment q =>
    rw [skips] at closes
    cases closes
  | token q =>
    rw [skips] at closes
    dsimp only at closes ⊢
    have kinds := kind_lexHere_cases lexis.operators lexis.policy .key q
    generalize (lexHere lexis.operators lexis.policy .key q).token.kind = kind at closes kinds ⊢
    have closers : kind = .rBrace ∨ kind = .rBracket ∨ kind = .rParen := by
      cases kind <;> simp_all [TokenKind.isCloser]
    rcases closers with rfl | rfl | rfl
    · rfl
    all_goals
      rcases kinds with ⟨-, ⟨⟩⟩ | ⟨c, -, delimits | ⟨-, ⟨⟩⟩⟩
      cases delimiter?_sign delimits
      cases delimits

/-- So an object that lacks its closer takes that of the list around it for a key. -/
example : (compile {} (tableResolver []) ⟨"", "[\x7ba: 1]\nb"⟩ {}).1.root.text = "[[\x7ba: 1\x7d]]" := by
  decide +kernel

end Lexis

end TreeLang
