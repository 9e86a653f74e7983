import TreeLang.Proofs.Continuing
import TreeLang.Proofs.Handing

/-!
# From place to place

A parser moves by taking tokens, and by nothing else: it never goes back, it never leaves the text, and
it never comes to a place inside of a comment.  So the places where a parser is seen one after the other
are in order, and so are the places where it would find its next token there.

* `Place.Reaches` — a place and one that is some characters further on.
* `Place.begin` — where the next token begins.
* **`Place.Leads`** — places between which tokens were taken.
* `Place.Leads.begin_le` — the next token begins no earlier than it did.
* **`throughout_travels`** — every part of the parser leads from place to place.
-/

namespace TreeLang

variable {operators : OperatorRegistry} {policy : EscapePolicy} {skipBreaks first : Bool}
  {mode : Mode} {p q r : Place}

/-! ## Characters -/

/-- A place is some characters further on than another one. -/
def Place.Reaches (p q : Place) : Prop :=
  ∃ count, q = p.skip count

namespace Place.Reaches

lemma refl (p : Place) : p.Reaches p := ⟨0, rfl⟩

lemma skip (reaches : p.Reaches q) (count : Nat) : p.Reaches (q.skip count) := by
  obtain ⟨before, rfl⟩ := reaches
  exact ⟨before + count, (Place.skip_add p before count).symm⟩

lemma next (reaches : p.Reaches q) : p.Reaches q.next := reaches.skip 1

lemma trans (first : p.Reaches q) (second : q.Reaches r) : p.Reaches r := by
  obtain ⟨count, rfl⟩ := second
  exact first.skip count

lemma offset_le (reaches : p.Reaches q) : p.offset ≤ q.offset := by
  obtain ⟨count, rfl⟩ := reaches
  rw [Place.offset_skip]
  exact Nat.le_add_right _ _

/-- What lies behind and what lies ahead make up the same text. -/
lemma total (reaches : p.Reaches q) : q.offset + q.rest.length = p.offset + p.rest.length := by
  obtain ⟨count, rfl⟩ := reaches
  exact Place.offset_add_skip p count

/-- The character at a place is found in the text. -/
lemma head? {text : List Char} (reaches : (Place.start text).Reaches p) :
    p.rest.head? = text[p.offset]? := by
  obtain ⟨count, rfl⟩ := reaches
  rw [Place.rest_skip, Place.offset_skip, List.head?_drop]
  simp only [Place.start, Nat.zero_add]
  rcases Nat.le_total count text.length with le | le
  · rw [Nat.min_eq_left le]
  · rw [Nat.min_eq_right le, List.getElem?_eq_none le, List.getElem?_eq_none (Nat.le_refl _)]

end Place.Reaches

/-! ## Where tokens begin and end -/

/-- Where skipping comes to, on a token or on a comment that is not closed. -/
def TriviaEnd.place : TriviaEnd → Place
  | .token place | .openComment place => place

/-- Where the next token begins. -/
def Place.begin (skipBreaks : Bool) (p : Place) : Place :=
  (skipTrivia skipBreaks p).place

lemma reaches_begin (skipBreaks : Bool) (p : Place) : p.Reaches (p.begin skipBreaks) := by
  rw [Place.begin]
  fun_induction skipTrivia skipBreaks p with
  | case1 | case2 | case7 | case8 => exact .refl _
  | case3 p _ _ _ _ _ ih => exact (Place.Reaches.refl p).next.trans ih
  | case4 p _ _ _ _ _ _ ih | case5 p _ _ _ _ _ _ _ ih | case6 p _ _ _ _ _ _ _ _ _ _ ih =>
    exact ((Place.Reaches.refl p).skip _).trans ih

lemma reaches_quotedFrom (policy : EscapePolicy) (quote : Char) (p : Place) :
    p.Reaches (quotedFrom policy quote p).after := by
  have fold (p : Place) : p.Reaches (skipFold p) := by
    rw [skipFold]
    split
    · exact (Place.Reaches.refl p).skip _
    · exact .refl p
  fun_induction quotedFrom policy quote p with
  | case1 p => exact .refl p
  | case2 p => exact (Place.Reaches.refl p).next
  | case3 p _ _ _ ih | case6 p _ _ _ _ _ _ ih | case8 p _ _ _ _ _ _ _ _ ih =>
    exact (Place.Reaches.refl p).next.trans ih
  | case4 p _ _ _ _ ih | case5 p _ _ _ _ _ _ _ _ _ ih =>
    exact ((Place.Reaches.refl p).skip _).trans ih
  | case7 p _ _ _ _ _ _ _ ih => exact ((Place.Reaches.refl p).next.trans (fold p.next)).trans ih

/-- What is kept in front of a scan ends before the scan does. -/
lemma LiteralScan.reaches_keep {scan : LiteralScan} {front text : List Char} {after stop : Place}
    (kept : (scan.keep front after).content = some (text, stop))
    (reaches : ∀ more, scan.content = some (more, stop) → after.Reaches stop) : after.Reaches stop := by
  cases hcontent : scan.content with
  | none =>
    simp only [keep, hcontent, Option.some.injEq, Prod.mk.injEq] at kept
    obtain ⟨-, rfl⟩ := kept
    exact .refl _
  | some content =>
    obtain ⟨more, place⟩ := content
    simp only [keep, hcontent, Option.some.injEq, Prod.mk.injEq] at kept
    exact reaches more (by rw [hcontent, kept.2])

lemma reaches_literalFrom {text : List Char}
    (found : (literalFrom operators policy mode first p).content = some (text, q)) :
    p.Reaches q := by
  fun_induction literalFrom operators policy mode first p generalizing text with
  | case1 | case5 | case6 | case8 | case9 => cases found
  | case2 _ p =>
    exact (Place.Reaches.refl p).next.trans (LiteralScan.reaches_keep found fun _ h => by cases h)
  | case3 _ p _ _ _ ih => exact ((Place.Reaches.refl p).skip _).trans (ih found)
  | case4 _ p =>
    rename_i ih
    exact ((Place.Reaches.refl p).skip _).trans (LiteralScan.reaches_keep found fun _ h => ih h)
  | case7 _ p _ _ _ _ _ _ _ ih =>
    obtain ⟨⟨more, place⟩, hcontent, same⟩ := Option.map_eq_some_iff.mp found
    obtain ⟨-, rfl⟩ := Prod.mk.inj same
    exact (Place.Reaches.refl p).next.trans (ih hcontent)
  | case10 _ p _ _ _ _ _ _ _ _ ih =>
    exact (Place.Reaches.refl p).next.trans (LiteralScan.reaches_keep found fun _ h => ih h)

/-- A lexeme that covers the characters from a place on. -/
structure Lexeme.Covers (lexeme : Lexeme) (p : Place) : Prop where
  start : lexeme.token.start = p.offset
  stop : lexeme.token.stop = lexeme.after.offset
  reaches : p.Reaches lexeme.after

lemma covers_lexHere (operators : OperatorRegistry) (policy : EscapePolicy) (mode : Mode)
    (p : Place) : (lexHere operators policy mode p).Covers p := by
  have literal : (lexLiteral operators policy mode p).Covers p := by
    refine ⟨rfl, rfl, ?_⟩
    simp only [lexLiteral]
    cases hcontent : (literalFrom operators policy mode true p).content with
    | none => exact .refl p
    | some content => exact reaches_literalFrom hcontent
  rw [lexHere]
  split
  · exact ⟨rfl, rfl, .refl p⟩
  split
  · exact ⟨rfl, rfl, (Place.Reaches.refl p).next⟩
  split
  · exact ⟨rfl, rfl, (Place.Reaches.refl p).next.trans (reaches_quotedFrom _ _ _)⟩
  dsimp only
  split
  · cases found : lexOperator? operators p with
    | none => exact literal
    | some lexeme =>
      rw [lexOperator?] at found
      rcases Option.or_eq_some_iff.mp found with h | ⟨-, h⟩ <;>
      · obtain ⟨_, -, rfl⟩ := Option.map_eq_some_iff.mp h
        exact ⟨rfl, rfl, (Place.Reaches.refl p).skip _⟩
  · exact literal

/-- **A token covers the text from where it begins.** -/
theorem covers_lex (operators : OperatorRegistry) (policy : EscapePolicy) (skipBreaks : Bool)
    (mode : Mode) (p : Place) :
    (lex operators policy skipBreaks mode p).Covers (p.begin skipBreaks) := by
  rw [lex, Place.begin]
  cases skipTrivia skipBreaks p with
  | token begun => exact covers_lexHere operators policy mode begun
  | openComment begun => exact ⟨rfl, rfl, (Place.Reaches.refl begun).skip _⟩

lemma reaches_lex (operators : OperatorRegistry) (policy : EscapePolicy) (skipBreaks : Bool)
    (mode : Mode) (p : Place) : p.Reaches (lex operators policy skipBreaks mode p).after :=
  (reaches_begin skipBreaks p).trans (covers_lex operators policy skipBreaks mode p).reaches

/-- Where line breaks are skipped, skipping goes on from where it would end otherwise. -/
lemma skipTrivia_further (skips : skipTrivia false p = .token q) :
    skipTrivia true p = skipTrivia true q := by
  have goes {c : Char} : ¬ (c = '\n' ∧ true = false) := by simp
  generalize hbreaks : false = skipBreaks at skips
  fun_induction skipTrivia skipBreaks p with
  | case1 | case2 | case8 =>
    cases skips
    rfl
  | case3 p c rest hrest newline blank ih =>
    rw [skipTrivia_cons hrest, if_neg goes, if_pos blank]
    exact ih skips
  | case4 p c rest hrest newline blank joined ih =>
    rw [skipTrivia_cons hrest, if_neg goes, if_neg blank, if_pos joined]
    exact ih skips
  | case5 p c rest hrest newline blank joined line ih =>
    rw [skipTrivia_cons hrest, if_neg goes, if_neg blank, if_neg joined, if_pos line]
    exact ih skips
  | case6 p c rest hrest newline blank joined line block length closes ih =>
    rw [skipTrivia_cons hrest, if_neg goes, if_neg blank, if_neg joined, if_neg line,
      if_pos block, closes]
    exact ih skips
  | case7 => cases skips

/-- **The next token begins no earlier** behind a token than in front of it. -/
theorem begin_le_begin_lex (operators : OperatorRegistry) (policy : EscapePolicy) (skipBreaks : Bool)
    (mode : Mode) (p : Place) : (p.begin true).offset
      ≤ ((lex operators policy skipBreaks mode p).after.begin true).offset := by
  have covers := covers_lex operators policy skipBreaks mode p
  have further := reaches_begin true (lex operators policy skipBreaks mode p).after
  cases skipBreaks with
  | true => exact (covers.reaches.trans further).offset_le
  | false =>
    by_cases breaks : ∃ q, skipTrivia false p = .token q ∧ q.rest.head? = some '\n'
    · -- The token is a line break, which is skipped on the way to the next one.
      obtain ⟨q, skips, newline⟩ := breaks
      obtain ⟨rest, hrest⟩ : ∃ rest, q.rest = '\n' :: rest := List.head?_eq_some_iff.mp newline
      have token : (lex operators policy false mode p).after = q.next := by
        simp [lex, skips, lexHere, newline, delimiter?]
      have skipped : skipTrivia true q = skipTrivia true q.next := by
        rw [skipTrivia_cons hrest, if_neg (by simp), if_pos isBlank_newline]
      rw [token, Place.begin, skipTrivia_further skips, skipped, Place.begin]
    · have same : p.begin true = p.begin false := by
        rw [Place.begin, skipTrivia_true fun q skips newline => breaks ⟨q, skips, newline⟩]
        rfl
      rw [same]
      exact (covers.reaches.trans further).offset_le

/-- **A place that tokens lead to**: it is further on, and so is the next token there. -/
structure Place.Leads (p q : Place) : Prop where
  reaches : p.Reaches q
  begins : (p.begin true).offset ≤ (q.begin true).offset

namespace Place.Leads

lemma refl (p : Place) : p.Leads p := ⟨.refl p, Nat.le_refl _⟩

lemma of_eq (same : p = q) : p.Leads q := same ▸ .refl p

lemma trans (first : p.Leads q) (second : q.Leads r) : p.Leads r :=
  ⟨first.reaches.trans second.reaches, Nat.le_trans first.begins second.begins⟩

lemma lex (operators : OperatorRegistry) (policy : EscapePolicy) (skipBreaks : Bool) (mode : Mode)
    (p : Place) : p.Leads (lex operators policy skipBreaks mode p).after :=
  ⟨reaches_lex .., begin_le_begin_lex ..⟩

lemma chained {reported : List Nat} {entries : List ReadAhead}
    (chained : TokenStream.Chained operators policy reported p entries) :
    p.Leads (TokenStream.lastPlace p entries) := by
  induction entries generalizing p with
  | nil => exact .refl p
  | cons entry rest ih =>
    obtain ⟨-, after, -, chained⟩ := chained
    rw [TokenStream.lastPlace_cons]
    have first : p.Leads entry.after := after ▸ .lex ..
    exact first.trans (ih chained)

end Place.Leads

/-! ## Steps of a parser -/

namespace Parser

open TokenStream
open TreeLang.Harmony (takeImport dropImport registerOperator_eq enlistVisibleOperator
  enlistExportedOperator)

variable {α β γ : Type} {s t : ParserState}

/-- What a step came to is further on, or still there. -/
def Further (related : Place → Place → Prop) (s : ParserState) :
    EStateM.Result Fault ParserState α → Prop
  | .ok _ t => related s.here t.here
  | .error _ t => related s.here t.here

/-- **A step travels** if it leads from place to place, as long as the stream is coherent, which it
keeps up. -/
def Travels (step : Parser α) : Prop :=
  ∀ s : ParserState, s.tokens.Coherent s.visible.operators →
    Coheres (step s) ∧ Further Place.Leads s (step s)

/-- A step that takes no token. -/
def Stays (step : Parser α) : Prop :=
  ∀ s, Further Eq s (step s)

namespace Stays

lemma pure (value : α) : Stays (Pure.pure value : Parser α) := fun _ => rfl

lemma modifyGet {change : ParserState → α × ParserState}
    (stays : ∀ s, (change s).2.here = s.here) : Stays (MonadStateOf.modifyGet change) :=
  fun s => (stays s).symm

lemma bind {step : Parser α} {next : α → Parser β} (first : Stays step)
    (second : ∀ value, Stays (next value)) : Stays (step >>= next) := by
  intro s
  have stays := first s
  match outcome : step s with
  | .ok value t =>
    rw [outcome] at stays
    have there := second value t
    rw [bind_ok outcome]
    generalize next value t = result at there
    cases result <;> exact Eq.trans stays there
  | .error fault t =>
    rw [outcome] at stays
    rw [bind_error outcome]
    exact stays

lemma forM {items : List γ} {step : γ → Parser PUnit} (stays : ∀ item, Stays (step item)) :
    Stays (items.forM step) := by
  induction items with
  | nil => exact .pure _
  | cons item rest ih => exact (stays item).bind fun _ => ih

lemma note (report : Report) : Stays (note report) :=
  modifyGet fun s => by
    dsimp only
    split <;> rfl

lemma forget : Stays forget := modifyGet fun _ => rfl

lemma noteLexical : Stays noteLexical := by
  intro s
  rw [noteLexical_eq]
  rfl

lemma warnIfNone (removed offset : Nat) (cause : Cause) : Stays (warnIfNone removed offset cause) := by
  rw [Parser.warnIfNone]
  split
  · exact note _
  · exact pure _

lemma registerOperator (options : CompileOptions) (op : OperatorDefinition) (offset : Nat) :
    Stays (registerOperator options op offset) := by
  have visible : Stays (enlistVisibleOperator op) := modifyGet fun _ => rfl
  have exported : Stays (enlistExportedOperator op) := modifyGet fun _ => rfl
  rw [registerOperator_eq]
  refine visible.bind fun conflict => ?_
  cases conflict with
  | some conflict => exact (note _).bind fun _ => forget
  | none =>
    refine exported.bind fun conflict => ?_
    cases conflict with
    | some conflict => exact (note _).bind fun _ => forget
    | none => exact forget

lemma dropOperators (name : String) (keyword : Bool) (offset : Nat) (cause : Cause) :
    Stays (do
      let removed ← removeOperators name keyword
      Parser.warnIfNone removed offset cause
      Parser.forget) :=
  (modifyGet fun _ => rfl).bind fun _ => (warnIfNone _ _ _).bind fun _ => forget

lemma resolveImport (resolver : Resolver) (path : String) : Stays (resolveImport resolver path) := by
  intro s
  rw [Harmony.resolveImport_eq]
  cases resolver path s.imports <;> rfl

lemma takeImport (isPublic : Bool) (path : String) (offset : Nat)
    (answer : Except ImportFailure (Shared Definitions)) :
    Stays (takeImport isPublic path offset answer) := by
  have noted (conflicts : List Report) : Stays (do
      conflicts.forM fun conflict => Parser.note (conflict.asWarning.atOffset offset)
      Parser.forget) :=
    (forM fun _ => note _).bind fun _ => forget
  cases answer with
  | error failure => exact (note _).bind fun _ => forget
  | ok definitions =>
    refine bind (modifyGet fun _ => rfl) fun _ => ?_
    split
    · exact bind (modifyGet fun _ => rfl) fun _ => noted _
    · exact noted _

lemma dropImport (path : String) (offset : Nat)
    (answer : Except ImportFailure (Shared Definitions)) :
    Stays (dropImport path offset answer) := by
  cases answer with
  | error failure => exact note _
  | ok definitions =>
    exact bind (modifyGet fun _ => rfl) fun _ => (warnIfNone _ _ _).bind fun _ => forget

end Stays

namespace Travels

/-- A step that stays where it is. -/
lemma of_stays {step : Parser α} (stays : Stays step)
    (keeps : ∀ s, s.tokens.Coherent s.visible.operators → Coheres (step s)) : Travels step := by
  refine fun s coherent => ⟨keeps s coherent, ?_⟩
  have there := stays s
  generalize step s = outcome at there
  cases outcome <;> exact Place.Leads.of_eq there

lemma bind {step : Parser α} {next : α → Parser β} (first : Travels step)
    (second : ∀ value, Travels (next value)) : Travels (step >>= next) := by
  intro s coherent
  obtain ⟨keeps, leads⟩ := first s coherent
  match outcome : step s with
  | .ok value t =>
    rw [outcome] at keeps leads
    obtain ⟨keeps, further⟩ := second value t keeps
    rw [bind_ok outcome]
    refine ⟨keeps, ?_⟩
    generalize next value t = result at further
    cases result <;> exact Place.Leads.trans leads further
  | .error fault t =>
    rw [outcome] at keeps leads
    rw [bind_error outcome]
    exact ⟨keeps, leads⟩

lemma attempt {step : Parser α} (travels : Travels step) : Travels (attempt step) := by
  intro s coherent
  have there := travels s coherent
  rw [Parser.attempt]
  generalize step s = outcome at there
  cases outcome <;> exact there

lemma lookAhead (skipBreaks : Bool) (mode : Mode) : Travels (lookAhead skipBreaks mode) := by
  intro s coherent
  obtain ⟨ahead, look, coherent⟩ := lookAhead_eq coherent skipBreaks mode
  rw [look]
  refine ⟨coherent, ?_⟩
  exact Place.Leads.of_eq (anchor_absorb _ _).symm

lemma commit : Travels commit := by
  intro s coherent
  rw [commit_eq]
  refine ⟨(settled_commit coherent).coherent, ?_⟩
  show s.here.Leads s.tokens.place
  rw [place_eq_lastPlace]
  exact .chained (chained_append.mp coherent).1

end Travels

/-- **Every part of the parser travels.** -/
theorem throughout_travels (options : CompileOptions) (resolver : Resolver) :
    Throughout options options resolver fun step _ => Travels step where
  collapse := rfl
  pure value := .of_stays (.pure value) fun _ coherent => coherent
  throw fault := .of_stays (fun _ => rfl) fun _ coherent => coherent
  bind first second := first.bind second
  attempt travels := travels.attempt
  lookAhead := .lookAhead
  rewind := .of_stays (.modifyGet fun _ => rfl) fun _ coherent => (settled_rewind coherent).coherent
  commit := .commit
  noteLexical := .of_stays .noteLexical fun s coherent => by
    rw [noteLexical_eq]
    exact coherent
  note report := .of_stays (.note report) fun _ coherent => keeps_note report coherent
  change := by
    intro α change seen keeps
    have tokens (s : ParserState) : (change s).2.tokens = s.tokens := by rw [seen s]; rfl
    refine .of_stays (.modifyGet fun s => congrArg TokenStream.anchor (tokens s)) fun s coherent => ?_
    show (change s).2.tokens.Coherent (change s).2.visible.operators
    rw [tokens, keeps s]
    exact coherent
  removeMacros name kinds := .of_stays (.modifyGet fun _ => rfl) fun _ coherent => coherent
  restart := .of_stays (.modifyGet fun _ => rfl) fun _ _ => coherent_forget _ _
  repeated offset key := .of_stays (.note _) fun _ coherent => keeps_note _ coherent
  registerOperator op offset := .of_stays (.registerOperator options op offset) fun s _ =>
    keeps_registerOperator options op offset s
  dropOperators name keyword offset cause :=
    .of_stays (.dropOperators name keyword offset cause) fun s _ =>
      keeps_dropOperators name keyword offset cause s
  counted travels := by
    have counts : Travels errorCount := .of_stays (fun _ => rfl) fun _ coherent => coherent
    exact counts.bind fun _ => travels.bind fun _ => counts.bind fun _ =>
      .of_stays (.pure _) fun _ coherent => coherent
  enlistVisible new := .of_stays (.modifyGet fun _ => rfl) fun _ coherent => coherent
  resolveImport path := .of_stays (.resolveImport resolver path) fun s coherent => by
    rw [Harmony.resolveImport_eq]
    cases resolver path s.imports <;> exact coherent
  takeImport isPublic path offset answer :=
    .of_stays (.takeImport isPublic path offset answer) fun s _ =>
      keeps_takeImport isPublic path offset answer s
  dropImport path offset answer := .of_stays (.dropImport path offset answer) fun _ coherent =>
    keeps_dropImport path offset answer coherent

end Parser

end TreeLang
