import TreeLang.Proofs.Spanning

/-!
# The spans of what is read

What is read inside a statement lies in front of the parser: by induction on the calls, every node ends
where the next token begins, or before.  A group is left behind its closer, or where a token tells that
it was not closed; an operand begins behind its operator, and an operator behind the operand in front of
it.  From there the values of a source follow, one statement after the other.

* `Reading.Given`, `Reading.Makes` — what a call is given, and what it makes.
* `Reading.encloses_round` — one round, as far as the calls in it go.
* **`Reading.encloses_within`** — every call.
* **`compile_spans`** — the spans of a compilation.
-/

namespace TreeLang

namespace Parser

open TokenStream

variable {α β : Type} {s t u : ParserState} {length low : Nat} {node : Node} {nodes : List Node}
  {options : CompileOptions} {resolver : Resolver}

namespace Leaves

variable {result : β → ParserState → Prop}

lemma closesAwaited {kind : TokenKind} {next : Bool → Parser β}
    (h : Leaves (next (kind.isCloser && s.awaited.contains kind)) s result) :
    Leaves (Parser.closesAwaited kind >>= next) s result :=
  h

lemma position {next : Nat → Parser β} (settled : s.Settled)
    (h : Leaves (next s.here.offset) s result) : Leaves (Parser.position >>= next) s result := by
  have here : Ends Parser.position s fun offset t => offset = s.here.offset ∧ t = s := by
    have ends : Ends (Parser.position >>= Pure.pure) s fun offset t =>
        offset = s.here.offset ∧ t = s := .position settled (.pure settled ⟨rfl, rfl⟩)
    exact ends
  refine .after here ?_
  rintro _ _ - ⟨rfl, rfl⟩
  exact h

end Leaves

/-! ## Calls -/

namespace Reading

/-- What lies in front of a parser that makes a call inside of a value. -/
def Given (length : Nat) : Reading α → ParserState → Prop
  | properties start known, s => start ≤ s.here.offset ∧ Row length start (known.map Prod.snd) s
  | elements start _ closer known, s =>
    closer.isCloser ∧ start ≤ s.here.offset ∧ Row length start known.reverse s
  | binary _ _ left, s | postfixes _ left, s => Lies length left.span.start left s
  | value, _ | operand, _ | group .., _ | expression, _ | level _, _ => True
  | parameters .., _ | clauses _, _ | skipGroup _, _ | skipToSeparator _, _ => False

/-- Where the nodes that such a call makes lie. -/
def Makes (length : Nat) : Reading α → ParserState → α → ParserState → Prop
  | value, s, node, t | operand, s, node, t | expression, s, node, t | level _, s, node, t =>
    Lies length s.here.offset node t
  | group .., s, found, t => ∀ node, found = some node → Lies length s.here.offset node t
  | properties start _, _, (entries, stop), t =>
    Filled length start (entries.map Prod.snd) stop t
  | elements start .., _, (nodes, stop), t => Filled length start nodes stop t
  | binary _ _ left, _, node, t | postfixes _ left, _, node, t =>
    Lies length left.span.start node t
  | parameters .., _, _, _ | clauses _, _, _, _ | skipGroup _, _, _, _
  | skipToSeparator _, _, _, _ => True

/-- **A step that reads for a call**: it goes on, and makes nodes that lie in front of the parser. -/
def Encloses (length : Nat) (call : Reading α) (step : Parser α) : Prop :=
  ∀ s, Lone length s → call.Given length s →
    Leaves step s fun value t => Strides s t ∧ call.Makes length s value t

/-- Outside of templates no name is that of a parameter. -/
lemma leaves_reference (lone : Lone length s) (head : Head) :
    Leaves head.reference s fun _ t => t = s := by
  rw [Head.reference]
  split
  · split
    · exact (leaves_parameterIndex? lone _).mono fun _ _ found => found.2
    · exact .pure rfl
  · exact .pure rfl

variable {calls : ∀ {β : Type}, Reading β → Parser β}
  (placed : ∀ {β : Type} (call : Reading β), call.Encloses length (calls call))

include placed

/-- A value or an operand. -/
lemma encloses_atom (nameMode mode : Mode) (missing : Token → Cause) (lone : Lone length s) :
    Leaves (atomRound calls nameMode mode missing) s fun node t =>
      Strides s t ∧ Lies length s.here.offset node t := by
  refine .changed ?_
  have first : Strides s { s with suppressed := false } :=
    .change lone.settled rfl rfl rfl rfl rfl
  refine (placed (group nameMode !s.suppressed) _ (lone.strides first) trivial).bind
    fun found t grouped => ?_
  obtain ⟨strides, lies⟩ := grouped
  have strides := first.trans strides
  cases found with
  | some node => exact .pure ⟨strides, lies node rfl⟩
  | none =>
    refine .after (strides_peek (lone.strides strides).settled true mode) fun token u settled looked => ?_
    obtain ⟨rfl, further, stays⟩ := looked
    have strides := strides.trans further
    have lone := lone.strides strides
    have same := further.reads_eq stays true mode
    have begins : (t.reads true mode).token.start = front u := by
      rw [← same]
      exact (covers_reads u true mode).start
    have le : s.here.offset ≤ front u := Nat.le_trans strides.offset_le (offset_le_front u)
    split
    · refine .after (strides_skipToken settled true mode) fun _ v settled taken => ?_
      obtain ⟨further, place⟩ := taken
      have strides := strides.trans further
      have lone := lone.strides further
      refine (leaves_primitive lone _ _).mono fun node w made => ?_
      obtain ⟨further, stays, empty, span⟩ := made
      have covers := covers_reads u true mode
      have behind : (t.reads true mode).token.stop = w.here.offset := by
        rw [← same, stays, place]
        exact covers.stop
      refine ⟨strides.trans further, .leaf (lone.strides further) empty ?_ ?_ ?_ fun _ => ?_⟩
      · rw [span, begins]
        exact le
      · rw [span, begins, behind, stays, place]
        exact covers.reaches.offset_le
      · rw [span, behind]
        exact offset_le_front w
      · rw [span, behind]
    · rw [begins]
      refine (leaves_missing lone _ le).mono fun node v made => ?_
      exact ⟨strides.trans made.1, made.2⟩

/-- The contents of a group, from its opener on. -/
lemma encloses_content (opener : TokenKind) {start : Nat} (lone : Lone length s)
    (le : start ≤ s.here.offset) :
    Leaves (contentRound calls opener start) s fun content t =>
      Strides s t ∧ Filled length start content.nodes content.stop t := by
  rw [contentRound]
  split
  · refine (placed (properties start []) s lone ⟨le, .nil ..⟩).bind ?_
    rintro ⟨entries, stop⟩ t ⟨strides, filled⟩
    exact .pure ⟨strides, filled⟩
  have closes := isCloser_closer? opener
  set closer := opener.closer?.getD .rParen
  split
  · refine (placed (elements start .value closer []) s lone ⟨closes, le, .nil ..⟩).bind ?_
    rintro ⟨elements, stop⟩ t ⟨strides, filled⟩
    exact .pure ⟨strides, filled⟩
  · refine (placed (elements start .operation closer []) s lone ⟨closes, le, .nil ..⟩).bind ?_
    rintro ⟨elements, stop⟩ t ⟨strides, filled⟩
    exact .pure ⟨strides, filled⟩

/-- A group, if one is next. -/
lemma encloses_group (nameMode : Mode) (expands : Bool) (lone : Lone length s) :
    Leaves (groupRound options calls nameMode expands) s fun found t =>
      Strides s t ∧ ∀ node, found = some node → Lies length s.here.offset node t := by
  refine .after (strides_groupHead? lone.settled nameMode) fun found t settled looked => ?_
  obtain ⟨strides, between⟩ := looked
  match found with
  | none => exact .pure ⟨strides, nofun⟩
  | some (name, opener) =>
    obtain ⟨low, high⟩ := between name opener rfl
    have awaits : Strides t (t.awaiting (opener.kind.closer?.getD .rParen)) :=
      .change settled rfl rfl rfl rfl rfl
    refine (leaves_reference (lone.strides strides) ⟨name, opener, expands⟩).bind ?_
    rintro reference _ rfl
    refine .modify ?_
    have strides := strides.trans awaits
    refine (encloses_content placed opener.kind (lone.strides strides) high).bind
      fun content u inside => .modify ?_
    obtain ⟨further, filled⟩ := inside
    have settles : Strides u { u with awaited := u.awaited.tail } :=
      .change further.settled rfl rfl rfl rfl rfl
    have strides := strides.trans (further.trans settles)
    refine (leaves_completeGroup (lone.strides strides) name expands reference
      (filled.strides settles) low).bind fun node v made => .pure ?_
    refine ⟨strides.trans made.1, ?_⟩
    rintro _ ⟨⟩
    exact made.2

/-- The elements of a list or an operation. -/
lemma encloses_elements {start : Nat} {closer : TokenKind} {known : List Node} (mode : Mode)
    (closes : closer.isCloser) (lone : Lone length s) (le : start ≤ s.here.offset)
    (row : Row length start known.reverse s) :
    Leaves (elementsRound calls start mode closer known) s fun found t =>
      Strides s t ∧ Filled length start found.1 found.2 t := by
  refine .after (strides_peek lone.settled true mode) fun token t settled looked => ?_
  obtain ⟨rfl, strides, stays⟩ := looked
  have covers := covers_reads s true mode
  have same := strides.reads_eq stays true mode
  have again {u : ParserState} (strides : Strides s u) {known : List Node}
      (row : Row length start known.reverse u) :
      Leaves (calls (elements start mode closer known)) u fun found v =>
        Strides s v ∧ Filled length start found.1 found.2 v :=
    (placed (elements start mode closer known) u (lone.strides strides)
      ⟨closes, Nat.le_trans le strides.offset_le, row⟩).mono
        fun _ _ rest => ⟨strides.trans rest.1, rest.2⟩
  dsimp only
  split
  · refine .after (strides_skipToken settled true mode) fun _ u _ taken => .pure ?_
    obtain ⟨further, place⟩ := taken
    have strides := strides.trans further
    exact ⟨strides, row.closed strides le covers (place.trans (congrArg Lexeme.after same))⟩
  refine .closesAwaited ?_
  split
  · refine .after (strides_note settled _) fun _ u _ noted => .pure ?_
    obtain ⟨further, -, told⟩ := noted
    exact ⟨strides.trans further, row.unclosed (strides.trans further) le covers
      (told (lone.strides strides).attends)⟩
  split
  · refine .after (strides_skipToken settled true mode) fun _ u settled taken => ?_
    refine .after (strides_note settled _) fun _ v settled noted => ?_
    have strides := strides.trans (taken.1.trans noted.1)
    exact again strides (row.strides strides)
  · have element : Leaves (elementRound calls mode) t fun node u =>
        Strides t u ∧ Lies length t.here.offset node u := by
      rw [elementRound]
      split
      · exact placed expression t (lone.strides strides) trivial
      · exact placed value t (lone.strides strides) trivial
    refine element.bind fun node u read => ?_
    obtain ⟨further, lies⟩ := read
    have row := (row.strides strides).append further.leads further.silent
      (Nat.le_trans le strides.offset_le) lies
    have strides := strides.trans further
    refine .after (strides_separator strides.settled (lone.strides strides).attends closes)
      fun _ v settled separated => ?_
    refine again (strides.trans separated) ?_
    rw [List.reverse_cons]
    exact row.strides separated

/-- The properties of an object. -/
lemma encloses_properties {start : Nat} {known : List (String × Node)} (lone : Lone length s)
    (le : start ≤ s.here.offset) (row : Row length start (known.map Prod.snd) s) :
    Leaves (propertiesRound options calls start known) s fun found t =>
      Strides s t ∧ Filled length start (found.1.map Prod.snd) found.2 t := by
  refine .after (strides_peek lone.settled true .key) fun token t settled looked => ?_
  obtain ⟨rfl, strides, stays⟩ := looked
  have covers := covers_reads s true .key
  have same := strides.reads_eq stays true .key
  have again {u : ParserState} (strides : Strides s u) {known : List (String × Node)}
      (row : Row length start (known.map Prod.snd) u) :
      Leaves (calls (properties start known)) u fun found v =>
        Strides s v ∧ Filled length start (found.1.map Prod.snd) found.2 v :=
    (placed (properties start known) u (lone.strides strides)
      ⟨Nat.le_trans le strides.offset_le, row⟩).mono
        fun _ _ rest => ⟨strides.trans rest.1, rest.2⟩
  have passed {u : ParserState} (strides : Strides s u) :
      Leaves (calls (properties start known)) u fun found v =>
        Strides s v ∧ Filled length start (found.1.map Prod.snd) found.2 v :=
    again strides (row.strides strides)
  dsimp only
  split
  · refine .after (strides_skipToken settled true .key) fun _ u _ taken => .pure ?_
    obtain ⟨further, place⟩ := taken
    have strides := strides.trans further
    exact ⟨strides, row.closed strides le covers (place.trans (congrArg Lexeme.after same))⟩
  refine .closesAwaited ?_
  split
  · refine .after (strides_note settled _) fun _ u _ noted => .pure ?_
    obtain ⟨further, -, told⟩ := noted
    exact ⟨strides.trans further, row.unclosed (strides.trans further) le covers
      (told (lone.strides strides).attends)⟩
  split
  · refine .after (strides_skipToken settled true .key) fun _ u settled taken => ?_
    refine .after (strides_note settled _) fun _ v settled noted => ?_
    exact passed (strides.trans (taken.1.trans noted.1))
  have recovered {u : ParserState} (strides : Strides s u) (offset : Nat) (cause : Cause) :
      Leaves (do complain offset cause; recover (some .rBrace); calls (properties start known)) u
        fun found v => Strides s v ∧ Filled length start (found.1.map Prod.snd) found.2 v := by
    have attends := (lone.strides strides).attends
    refine .after (strides_note strides.settled _) fun _ v settled noted => ?_
    obtain ⟨further, -, told⟩ := noted
    refine .after (strides_recover settled (further.recovering.trans attends) (told attends) _)
      fun _ w settled passes => ?_
    exact passed (strides.trans (further.trans passes))
  split
  · refine .after (strides_skipToken settled true .key) fun _ u settled taken => ?_
    refine .after (strides_peek settled false .key) fun colon v settled looked => ?_
    have strides := strides.trans (taken.1.trans looked.2.1)
    split
    · exact recovered strides _ _
    · refine .after (strides_skipToken settled false .key) fun _ w settled taken => ?_
      have strides := strides.trans taken.1
      refine (placed value w (lone.strides strides) trivial).bind fun node x read => ?_
      obtain ⟨further, lies⟩ := read
      have le := Nat.le_trans le strides.offset_le
      refine (leaves_addProperty (lone.strides (strides.trans further)) _ node
        ((row.strides strides).strides further)
        ((row.strides strides).append further.leads further.silent le lies)).bind
          fun extended y added => ?_
      have strides := strides.trans (further.trans added.1)
      refine .after (strides_separator strides.settled (lone.strides strides).attends rfl)
        fun _ z settled separated => ?_
      exact again (strides.trans separated) (added.2.strides separated)
  · exact recovered strides _ _

/-- An expression of some groups of operators. -/
lemma encloses_level (groups : List PriorityGroup) (lone : Lone length s) :
    Leaves (levelRound calls groups) s fun node t =>
      Strides s t ∧ Lies length s.here.offset node t := by
  cases groups with
  | nil => exact placed operand s lone trivial
  | cons ops tighter =>
    have inner {t : ParserState} (strides : Strides s t) (groups : List PriorityGroup) :
        Leaves (calls (level groups)) t fun node u =>
          Strides s u ∧ Lies length t.here.offset node u :=
      (placed (level groups) t (lone.strides strides) trivial).mono
        fun _ _ read => ⟨strides.trans read.1, read.2⟩
    have refl := Strides.refl lone.settled
    simp only [levelRound]
    cases ops.fixity with
    | binary =>
      refine (inner refl tighter).bind fun left t read => ?_
      obtain ⟨strides, lies⟩ := read
      refine (placed (binary ops tighter left) t (lone.strides strides) lies.itself).mono
        fun node u rest => ?_
      exact ⟨strides.trans rest.1, rest.2.lower lies.low⟩
    | postfixed =>
      refine (inner refl tighter).bind fun left t read => ?_
      obtain ⟨strides, lies⟩ := read
      refine (placed (postfixes ops left) t (lone.strides strides) lies.itself).mono
        fun node u rest => ?_
      exact ⟨strides.trans rest.1, rest.2.lower lies.low⟩
    | prefixed =>
      refine .position lone.settled (.after (strides_operatorOf? lone.settled ops true)
        fun found t _ looked => ?_)
      obtain ⟨strides, -⟩ := looked
      cases found with
      | none =>
        exact (inner strides tighter).mono fun _ _ read =>
          ⟨read.1, read.2.lower strides.offset_le⟩
      | some op =>
        refine (inner strides (ops :: tighter)).bind fun node u read => ?_
        obtain ⟨strides', lies⟩ := read
        refine (leaves_operatorNode (lone.strides strides') op [node] _).mono
          fun made v built => ?_
        obtain ⟨further, -, children, span⟩ := built
        have lies := lies.strides further
        have strides'' := strides'.trans further
        exact ⟨strides'', (Filled.one lies (Nat.le_trans strides.offset_le lies.low)
          (Nat.le_refl _) lies.stop fun silent => (lies.ordered silent).2).lies
            (lone.strides strides'') children span (Nat.le_refl _)⟩

/-- An operand and the binary operators behind it. -/
lemma encloses_binary (ops : PriorityGroup) (tighter : List PriorityGroup) {left : Node}
    (lone : Lone length s) (lies : Lies length left.span.start left s) :
    Leaves (binaryRound calls ops tighter left) s fun node t =>
      Strides s t ∧ Lies length left.span.start node t := by
  refine .after (strides_operatorOf? lone.settled ops false) fun found t _ looked => ?_
  obtain ⟨strides, onward⟩ := looked
  cases found with
  | none => exact .pure ⟨strides, lies.strides strides⟩
  | some op =>
    have behind : left.span.stop ≤ t.here.offset := Nat.le_trans lies.stop (onward rfl)
    have makes {u : ParserState} {right : Node} (strides : Strides s u)
        (second : Lies length t.here.offset right u) :
        Leaves (binaryNode op left right) u fun node v =>
          Strides s v ∧ Lies length left.span.start node v :=
      (leaves_binaryNode (lone.strides strides) op (lies.strides strides) second
        (Nat.le_trans behind second.low)).mono
          fun _ _ made => ⟨strides.trans made.1, made.2.2⟩
    have suppresses {u : ParserState} (suppressed : Bool) (strides : Strides s u) :
        Strides u (u.suppress suppressed) :=
      .change strides.settled rfl rfl rfl rfl rfl
    dsimp only
    split
    · refine (placed (level (ops :: tighter)) t (lone.strides strides) trivial).bind
        fun right u read => ?_
      exact makes (strides.trans read.1) read.2
    · have strides' := strides.trans (suppresses op.accessor strides)
      refine .modify ((placed (level tighter) _ (lone.strides strides') trivial).bind
        fun right u read => .modify ?_)
      obtain ⟨further, second⟩ := read
      have strides := strides'.trans further
      have resumes := suppresses false strides
      refine (makes (strides.trans resumes) (second.strides resumes)).bind fun node v made => ?_
      obtain ⟨strides, lies⟩ := made
      exact (placed (binary ops tighter node) v (lone.strides strides) lies.itself).mono
        fun _ _ rest => ⟨strides.trans rest.1, rest.2.lower lies.low⟩

/-- An operand and the postfix operators behind it. -/
lemma encloses_postfixes (ops : PriorityGroup) {inner : Node} (lone : Lone length s)
    (lies : Lies length inner.span.start inner s) :
    Leaves (postfixesRound calls ops inner) s fun node t =>
      Strides s t ∧ Lies length inner.span.start node t := by
  refine .after (strides_operatorOf? lone.settled ops false) fun found t settled looked => ?_
  obtain ⟨strides, onward⟩ := looked
  cases found with
  | none => exact .pure ⟨strides, lies.strides strides⟩
  | some op =>
    have behind : inner.span.stop ≤ t.here.offset := Nat.le_trans lies.stop (onward rfl)
    refine .position settled ((leaves_operatorNode (lone.strides strides) op [inner] _).bind
      fun made u built => ?_)
    obtain ⟨further, stays, children, span⟩ := built
    have strides := strides.trans further
    have lies : Lies length inner.span.start made u :=
      (Filled.one (lies.strides strides) (Nat.le_refl _) behind
        (stays ▸ offset_le_front u) fun _ => Nat.le_of_eq (congrArg Place.offset stays.symm)).lies
          (lone.strides strides) children span (Nat.le_refl _)
    exact (placed (postfixes ops made) u (lone.strides strides) lies.itself).mono
      fun _ _ rest => ⟨strides.trans rest.1, rest.2.lower lies.low⟩

/-- **A round encloses what it reads**, as far as the calls in it do. -/
theorem encloses_round (call : Reading α) : call.Encloses length (call.round options calls) := by
  intro s lone given
  cases call with
  | value => exact encloses_atom placed _ _ _ lone
  | operand => exact encloses_atom placed _ _ _ lone
  | group nameMode expands => exact encloses_group placed nameMode expands lone
  | properties start known => exact encloses_properties placed lone given.1 given.2
  | elements start mode closer known =>
    exact encloses_elements placed mode given.1 lone given.2.1 given.2.2
  | expression => exact .get (placed (level _) s lone trivial)
  | level groups => exact encloses_level placed groups lone
  | binary ops tighter left => exact encloses_binary placed ops tighter lone given
  | postfixes ops inner => exact encloses_postfixes placed ops lone given
  | parameters | clauses | skipGroup | skipToSeparator => exact given.elim

omit placed

/-- **Every call encloses what it reads**, by induction on its bound. -/
theorem encloses_within (fuel : Nat) (call : Reading α) :
    call.Encloses length (call.within options fuel) := by
  induction fuel generalizing α with
  | zero =>
    intro s _ _
    rw [within_zero]
    exact fun _ _ run => nomatch run
  | succ fuel ih =>
    rw [within_succ]
    exact encloses_round ih call

end Reading

/-! ## Statements -/

/-- **What becomes of a state** in a source that stands by itself: no macro comes in, and no report is
taken back. -/
structure Bears (s t : ParserState) : Prop where
  macros : s.visible.macros.definitions = [] → t.visible.macros.definitions = []
  silent : t.reports = #[] → s.reports = #[]

namespace Bears

lemma refl (s : ParserState) : Bears s s := ⟨id, id⟩

lemma trans (first : Bears s t) (second : Bears t u) : Bears s u :=
  ⟨fun none => second.macros (first.macros none), fun silent => first.silent (second.silent silent)⟩

/-- A change of neither. -/
lemma of_eq (macros : t.visible.macros = s.visible.macros) (reports : t.reports = s.reports) :
    Bears s t :=
  ⟨fun none => macros ▸ none, fun silent => reports ▸ silent⟩

lemma flush (s : ParserState) : Bears s s.flush := by
  refine ⟨id, fun silent => ?_⟩
  rw [ParserState.flush] at silent
  dsimp only at silent
  split at silent
  · exact silent
  · rw [← Array.toList_eq_nil_iff, Array.toList_appendList, List.append_eq_nil_iff] at silent
    exact Array.toList_eq_nil_iff.mp silent.1

end Bears

/-- A step in which no macro comes in, and no report is taken back. -/
def Bearing (step : Parser α) : Prop :=
  ∀ s, match step s with
    | .ok _ t | .error _ t => Bears s t

namespace Bearing

lemma modifyGet {change : ParserState → α × ParserState} (bears : ∀ s, Bears s (change s).2) :
    Bearing (MonadStateOf.modifyGet change) :=
  bears

lemma bind {step : Parser α} {next : α → Parser β} (first : Bearing step)
    (second : ∀ value, Bearing (next value)) : Bearing (step >>= next) := by
  intro s
  have bears := first s
  match outcome : step s with
  | .ok value t =>
    rw [outcome] at bears
    have further := second value t
    rw [bind_ok outcome]
    generalize next value t = result at further
    cases result <;> exact Bears.trans bears further
  | .error fault t =>
    rw [outcome] at bears
    rw [bind_error outcome]
    exact bears

lemma attempt {step : Parser α} (bearing : Bearing step) : Bearing (attempt step) := by
  intro s
  have bears := bearing s
  rw [Parser.attempt]
  generalize step s = outcome at bears
  cases outcome <;> exact bears

lemma note (report : Report) : Bearing (note report) := by
  refine modifyGet fun s => ?_
  dsimp only
  split
  · exact .refl s
  · exact ⟨id, fun silent => by simp at silent⟩

lemma forget : Bearing forget :=
  modifyGet fun _ => .of_eq rfl rfl

end Bearing

open TreeLang.Harmony (registerOperator_eq enlistVisibleOperator enlistExportedOperator)

/-- **Steps without macros and imports** bring in no macro and take no report back. -/
theorem uniform_bearing (options : CompileOptions) :
    Uniform options options fun step _ => Bearing step where
  collapse := rfl
  pure value := fun s => .refl s
  throw fault := fun s => .refl s
  bind := .bind
  attempt := .attempt
  lookAhead skipBreaks mode := .modifyGet fun s => .of_eq rfl rfl
  rewind := .modifyGet fun s => .of_eq rfl rfl
  commit s := by
    have taken : Bears s { s with tokens := s.tokens.commit } := .of_eq rfl rfl
    rw [commit_eq]
    exact taken.trans (.flush _)
  noteLexical s := by
    rw [noteLexical_eq]
    exact .flush s
  note := .note
  change seen keeps := .modifyGet fun s => .of_eq (congrArg _ (keeps s)) (by rw [seen s]; rfl)
  restart := .modifyGet fun s => .of_eq rfl rfl
  repeated offset key := .note _
  removeMacros name kinds := .modifyGet fun s => ⟨fun none => by
    simp [MacroRegistry.remove, none], id⟩
  registerOperator op offset := by
    have visible : Bearing (enlistVisibleOperator op) := .modifyGet fun s => .of_eq rfl rfl
    have exported : Bearing (enlistExportedOperator op) := .modifyGet fun s => .of_eq rfl rfl
    rw [registerOperator_eq]
    refine visible.bind fun conflict => ?_
    cases conflict with
    | some conflict => exact (Bearing.note _).bind fun _ => .forget
    | none =>
      refine exported.bind fun conflict => ?_
      cases conflict with
      | some conflict => exact (Bearing.note _).bind fun _ => .forget
      | none => exact .forget
  dropOperators name keyword offset cause := by
    refine Bearing.bind (.modifyGet fun s => .of_eq rfl rfl) fun removed =>
      Bearing.bind ?_ fun _ => .forget
    rw [warnIfNone]
    split
    · exact .note _
    · exact fun s => .refl s

namespace Leaves

variable {step : Parser α} {next : α → Parser β} {property other : α → ParserState → Prop}
  {result : β → ParserState → Prop}

lemma and (first : Leaves step s property) (second : Leaves step s other) :
    Leaves step s fun value t => property value t ∧ other value t :=
  fun value t run => ⟨first value t run, second value t run⟩

/-- What holds whatever a first step comes to. -/
lemma behind (second : ∀ value t, Leaves (next value) t result) :
    Leaves (step >>= next) s result := by
  have anyhow : Leaves step s fun _ _ => True := fun _ _ _ => trivial
  exact anyhow.bind fun value t _ => second value t

lemma attempt (leaves : Leaves step s property) :
    Leaves (attempt step) s fun outcome t => ∀ value, outcome = .ok value → property value t := by
  intro outcome t run value same
  subst same
  rw [Parser.attempt] at run
  generalize hp : step s = p at run
  cases p with
  | ok value t =>
    cases run
    exact leaves value t hp
  | error fault t => cases run

end Leaves

/-- A step that travels and bears leads on. -/
lemma leaves_of_travels {step : Parser α} (coherent : s.tokens.Coherent s.visible.operators)
    (travels : Travels step) (bearing : Bearing step) :
    Leaves step s fun _ t => t.tokens.Coherent t.visible.operators ∧ s.here.Leads t.here ∧
      Bears s t := by
  intro value t run
  obtain ⟨keeps, further⟩ := travels s coherent
  have bears := bearing s
  rw [run] at keeps further bears
  exact ⟨keeps, further, bears⟩

/-- The value of a statement lies in front of the parser. -/
lemma leaves_plainStatement (lone : Lone length s) :
    Leaves (plainStatement options (s.reads true .word).token) s fun found t =>
      ∀ node, found = some node → Lies length s.here.offset node t := by
  obtain ⟨opening, t, keyword, settled, -, moves, stays⟩ := ends_statementKeyword? lone.settled
  have strides : Strides s t := .of_moves settled moves (.of_eq stays.symm)
  intro found u run
  rw [plainStatement, bind_ok (valueFuel_eq lone.settled), bind_ok keyword] at run
  cases opening with
  | some opening =>
    obtain ⟨_, _, -, run⟩ := bind_eq_ok.mp run
    cases run
    rintro _ ⟨⟩
  | none =>
    obtain ⟨node, v, run, made⟩ := bind_eq_ok.mp run
    cases made
    rintro _ ⟨⟩
    have enclosed (fuel : Nat) : Reading.value.Encloses length (parseValue options fuel) :=
      Reading.encloses_within fuel .value
    obtain ⟨-, lies⟩ := enclosed _ t (lone.strides strides) trivial node _ run
    exact lies.lower (Nat.le_of_eq (congrArg Place.offset stays.symm))

/-- **A round adds nothing, or a value** that lies in front of the parser. -/
theorem leaves_plainRound (lone : Lone length s) :
    Leaves (plainRound options (s.reads true .word).token) s fun added t =>
      added = [] ∨ ∃ node, added = [node] ∧ Lies length s.here.offset node t := by
  rw [plainRound]
  split
  · exact .behind fun _ _ => .behind fun _ _ => .pure (.inl rfl)
  split
  · exact .behind fun _ _ => .pure (.inl rfl)
  split
  · exact .behind fun _ _ => .behind fun _ _ => .pure (.inl rfl)
  have goes := leaves_of_travels lone.settled.coherent
    ((travels_uniform options).plainStatement (s.reads true .word).token)
    ((uniform_bearing options).plainStatement (s.reads true .word).token)
  refine ((leaves_plainStatement lone).and goes).attempt.bind fun outcome t ended => ?_
  cases outcome with
  | error fault => exact .behind fun _ _ => .pure (.inl rfl)
  | ok found =>
    obtain ⟨lies, coherent, -⟩ := ended found rfl
    refine (leaves_of_travels coherent (travels_uniform options).endStatement
      (uniform_bearing options).endStatement).bind fun _ u behind => .pure ?_
    obtain ⟨-, leads, bears⟩ := behind
    cases found with
    | none => exact .inl rfl
    | some node => exact .inr ⟨node, rfl, (lies node rfl).later leads bears.silent⟩

/-! ## Sources -/

/-- **The values of a source that stands by itself** lie one behind the other. -/
theorem leaves_parseAll (settled : s.Settled) (resting : s.Resting)
    (contained : SelfContained options resolver s) (macros : s.visible.macros.definitions = [])
    (total : s.here.offset + s.here.rest.length = length) (fuel : Nat) (values : List Node)
    (row : Row length 0 values.reverse s) :
    Leaves (parseAll options resolver fuel values) s fun result t => Row length 0 result t := by
  induction fuel generalizing s values with
  | zero => exact fun _ _ run => nomatch run
  | succ fuel ih =>
    have lone : Lone length s := ⟨settled, macros, resting.scope, resting.attends, total⟩
    obtain ⟨_, t, looked, settled', rfl, moves, stays, -⟩ := ends_peek settled true .word
    have strides : Strides s t := .of_moves settled' moves (.of_eq stays.symm)
    rw [parseAll_succ]
    intro result u run
    rw [sourceRound_eq, bind_ok looked] at run
    split at run
    · rw [bind_ok (noteLexical_eq t)] at run
      cases run
      exact row.later strides.leads fun silent => strides.silent ((Bears.flush t).silent silent)
    rename_i more
    obtain ⟨added, v, taken, run⟩ := bind_eq_ok.mp run
    have round := taken
    rw [roundFrom_eq_plain settled (contained s (.here s)) looked,
      ← strides.reads_eq stays] at round
    have read := leaves_plainRound (lone.strides strides) added v round
    obtain ⟨-, leads, bears⟩ := leaves_of_travels settled'.coherent
      ((travels_uniform options).plainRound _) ((uniform_bearing options).plainRound _) added v round
    have reaches := Reaches.of_round settled looked more taken
    obtain ⟨settled, resting⟩ := resting_of_reaches settled resting reaches
    have row := row.strides strides
    have lone := lone.strides strides
    refine ih settled resting (contained.reached reaches) (bears.macros lone.macros)
      (leads.reaches.total.trans lone.total) (added ++ values) ?_ result u run
    rcases read with rfl | ⟨node, rfl, lies⟩
    · exact row.later leads bears.silent
    · rw [List.singleton_append, List.reverse_cons]
      exact row.append leads bears.silent (Nat.zero_le _) lies

/-- **The spans of a source that stands by itself.**  Below the root every node spans a part of the
source, and its children lie within.  Where nothing is reported, the values and the children of every
node are in order. -/
theorem compile_spans (options : CompileOptions) (resolver : Resolver) (source : Source)
    (imports : ImportState)
    (contained : SelfContained options resolver (initial options source imports)) :
    let compiled := (compile options resolver source imports).1
    (∀ value ∈ compiled.values, value.All (Node.Spans source.length)) ∧
      (compiled.reports = [] → compiled.values.IsChain Node.Precedes ∧
        ∀ value ∈ compiled.values, value.All Node.InOrder) := by
  have row : Leaves (parseAll options resolver (source.length + 1) [])
      (initial options source imports) fun values t => Row source.length 0 values t :=
    leaves_parseAll (outside_initial source imports).settled (resting_initial source imports)
      contained rfl (Nat.zero_add _) _ _ (.nil _ _ _)
  rw [Harmony.compile_eq]
  generalize hp : parseAll options resolver _ _ _ = outcome
  cases outcome with
  | error fault t => exact ⟨nofun, nofun⟩
  | ok values t =>
    have row := row values t hp
    refine ⟨fun value mem => (row.lies value mem).spans, fun silent => ?_⟩
    have silent : t.reports = #[] := Array.toList_eq_nil_iff.mp silent
    exact ⟨row.ordered silent, fun value mem => ((row.lies value mem).ordered silent).1⟩

/-- For instance, the spans of an object in an object, and of a value behind it. -/
theorem compile_spans_of_object :
    let source : Source := ⟨"", "\x7ba: [x, p\x7bb: y\x7d], c: \x22d\x22\x7d\nz"⟩
    let compiled := (compile {} (tableResolver []) source {}).1
    SelfContained {} (tableResolver []) (initial {} source {}) ∧ compiled.reports = [] ∧
      compiled.values.map Node.span = [⟨0, 25⟩, ⟨26, 27⟩] ∧
      ∀ value ∈ compiled.values,
        value.All (Node.Spans source.length) ∧ value.All Node.InOrder := by
  intro source compiled
  have contained : SelfContained {} (tableResolver []) (initial {} source {}) :=
    selfContained_of_rounds 3 (outside_initial source {}).settled (resting_initial source {})
      (by decide +kernel)
  have silent : compiled.reports = [] := by decide +kernel
  obtain ⟨spans, ordered⟩ := compile_spans {} (tableResolver []) source {} contained
  exact ⟨contained, silent, by decide +kernel,
    fun value mem => ⟨spans value mem, (ordered silent).2 value mem⟩⟩

end Parser

end TreeLang
