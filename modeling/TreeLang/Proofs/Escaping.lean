import TreeLang.Proofs.Travelling

/-!
# Reading under another policy

What happens to a malformed escape is a matter of policy: it may be an error, a warning, or nothing at
all.  The policy says what is reported and nothing else.  A token is the same under every policy, and
its reports are those of the strictest one, except that those on escapes are reworded or left out.

Which reports are on escapes shows in where they stand: on a backslash, where no other report about a
token stands.

* `Report.isEscape`, `EscapePolicy.voice?` — reports on escapes, and what a policy makes of a report.
* **`lex_policy`** — a token is the same under every policy, up to what is made of its reports.
* `Report.Marks` — a report that stands on a backslash if and only if it is on an escape.
* **`marks_lex`** — so do the reports about the tokens of a text.
-/

namespace TreeLang

/-! ## Policies -/

/-- Whether a report is on a malformed escape. -/
def Report.isEscape (report : Report) : Bool :=
  match report.cause with
  | .invalidEscape _ _ _ => true
  | _ => false

/-- What a policy makes of a report about a token. -/
def EscapePolicy.voice? (policy : EscapePolicy) (report : Report) : Option Report :=
  if report.isEscape then policy.severity?.map report.withSeverity else some report

/-- A token as it is read under a policy, from how it is read under the strictest one. -/
def Lexeme.under (policy : EscapePolicy) (lexeme : Lexeme) : Lexeme :=
  { lexeme with reports := lexeme.reports.filterMap policy.voice? }

/-- A scan as it is read under a policy. -/
def QuotedScan.under (policy : EscapePolicy) (scan : QuotedScan) : QuotedScan :=
  { scan with reports := scan.reports.filterMap policy.voice? }

/-- A scan as it is read under a policy. -/
def LiteralScan.under (policy : EscapePolicy) (scan : LiteralScan) : LiteralScan :=
  { scan with reports := scan.reports.filterMap policy.voice? }

/-- An escape as it is read under a policy. -/
def Escape.under (policy : EscapePolicy) (escape : Escape) : Escape :=
  { escape with reports := escape.reports.filterMap policy.voice? }

lemma Escape.read_policy (policy : EscapePolicy) (offset : Nat) (letter : Char)
    (following : List Char) :
    read policy offset letter following = (read .error offset letter following).under policy := by
  have unicode (digits : Nat) : unicode policy offset letter digits following
      = (unicode .error offset letter digits following).under policy := by
    simp only [Escape.unicode]
    split
    · rfl
    · cases policy <;> rfl
  unfold read
  split_ifs
  all_goals first | exact unicode _ | rfl

/-- **A quoted text under a policy.** -/
lemma quotedFrom_policy (policy : EscapePolicy) (quote : Char) (place : Place) :
    quotedFrom policy quote place = (quotedFrom .error quote place).under policy := by
  fun_induction quotedFrom .error quote place with
  | case1 place hrest => exact quotedFrom_nil policy quote hrest
  | case2 place rest hrest => rw [quotedFrom_cons hrest, if_pos rfl]; rfl
  | case3 place open_ hrest _ ih => rw [quotedFrom_cons hrest, if_neg open_, if_pos rfl]; exact ih
  | case4 place following open_ hrest _ ih =>
    rw [quotedFrom_cons hrest, if_neg open_, if_pos rfl]
    exact ih
  | case5 =>
    rename_i place letter following solid escape _ scan open_ hrest _ ih
    have same : Escape.read policy place.offset letter following = escape.under policy :=
      Escape.read_policy ..
    rw [quotedFrom_cons hrest, if_neg open_, if_pos rfl]
    simp only [if_neg solid, same]
    rw [show (escape.under policy).width = escape.width from rfl, ih]
    simp [QuotedScan.under, Escape.under, scan]
  | case6 place c rest hrest open_ escape return_ ih =>
    rw [quotedFrom_cons hrest, if_neg open_, if_neg escape, if_pos return_]
    exact ih
  | case7 =>
    rename_i place rest _ scan hrest open_ escape return_ ih
    rw [quotedFrom_cons hrest, if_neg open_, if_neg escape, if_neg return_, if_pos rfl, ih]
    rfl
  | case8 =>
    rename_i place c rest hrest open_ escape return_ newline scan ih
    rw [quotedFrom_cons hrest, if_neg open_, if_neg escape, if_neg return_, if_neg newline, ih]
    rfl

/-- **A literal under a policy.** -/
lemma literalFrom_policy (operators : OperatorRegistry) (policy : EscapePolicy) (mode : Mode)
    (first : Bool) (place : Place) : literalFrom operators policy mode first place
      = (literalFrom operators .error mode first place).under policy := by
  fun_induction literalFrom operators .error mode first place with
  | case1 first place hrest =>
    rw [literalFrom]
    split
    · rfl
    · simp_all
  | case2 first place hrest => rw [literalFrom_backslash hrest]; rfl
  | case3 first place following hrest _ ih => rw [literalFrom_escape hrest, if_pos rfl]; exact ih
  | case4 =>
    rename_i first place letter following solid escape _ after scan _ hrest ih
    have same : Escape.read policy place.offset letter following = escape.under policy :=
      Escape.read_policy ..
    rw [literalFrom_escape hrest]
    simp only [if_neg solid, same]
    rw [show (escape.under policy).width = escape.width from rfl, ih]
    simp [LiteralScan.under, Escape.under, LiteralScan.keep, scan, after]
  | case5 first place c rest hrest escape delimits =>
    rw [literalFrom_cons hrest escape, if_pos delimits]
    rfl
  | case6 first place c rest hrest escape delimits blank ends =>
    rw [literalFrom_cons hrest escape, if_neg delimits, if_pos blank, if_pos ends]
    rfl
  | case7 first place c rest hrest escape delimits blank ends ih =>
    rw [literalFrom_cons hrest escape, if_neg delimits, if_pos blank, if_neg ends, ih]
    rfl
  | case8 first place c rest hrest escape delimits blank comment =>
    rw [literalFrom_cons hrest escape, if_neg delimits, if_neg blank, if_pos comment]
    rfl
  | case9 first place c rest hrest escape delimits blank comment operator =>
    rw [literalFrom_cons hrest escape, if_neg delimits, if_neg blank, if_neg comment,
      if_pos operator]
    rfl
  | case10 first place c rest hrest escape delimits blank comment operator ih =>
    rw [literalFrom_cons hrest escape, if_neg delimits, if_neg blank, if_neg comment,
      if_neg operator, ih]
    rfl

/-- **A token is the same under every policy**, up to what the policy makes of its reports. -/
theorem lex_policy (operators : OperatorRegistry) (policy : EscapePolicy) (skipBreaks : Bool)
    (mode : Mode) (place : Place) : lex operators policy skipBreaks mode place
      = (lex operators .error skipBreaks mode place).under policy := by
  have literal (place : Place) : lexLiteral operators policy mode place
      = (lexLiteral operators .error mode place).under policy := by
    rw [lexLiteral, lexLiteral, literalFrom_policy]
    rfl
  simp only [lex]
  cases skipTrivia skipBreaks place with
  | openComment place => rfl
  | token place =>
    simp only [lexHere]
    split
    · rfl
    split
    · rfl
    split
    · rename_i c _ _
      simp only [lexQuoted, quotedFrom_policy policy, QuotedScan.under, Lexeme.under,
        List.filterMap_append]
      split <;> rfl
    split
    · cases found : lexOperator? operators place with
      | none => exact literal place
      | some lexeme =>
        have silent : lexeme.reports = [] := by
          rw [lexOperator?] at found
          rcases Option.or_eq_some_iff.mp found with h | ⟨-, h⟩ <;>
          · obtain ⟨_, -, rfl⟩ := Option.map_eq_some_iff.mp h
            rfl
        simp only [Option.getD_some, Lexeme.under, silent, List.filterMap_nil]
        rw [← silent]
    · exact literal place

/-! ## Where reports stand -/

variable {operators : OperatorRegistry} {policy : EscapePolicy} {skipBreaks first : Bool}
  {mode : Mode} {text : List Char} {p : Place}

/-- A comment that is not closed begins with a slash. -/
lemma head_openComment {q : Place} (skips : skipTrivia skipBreaks p = .openComment q) :
    q.rest.head? = some '/' := by
  fun_induction skipTrivia skipBreaks p with
  | case1 | case2 | case8 => cases skips
  | case3 _ _ _ _ _ _ ih | case4 _ _ _ _ _ _ _ ih | case5 _ _ _ _ _ _ _ _ ih
  | case6 _ _ _ _ _ _ _ _ _ _ _ ih => exact ih skips
  | case7 p c rest hrest _ _ _ _ block =>
    cases skips
    rw [hrest, block.1]
    rfl

/-- **A report that stands on a backslash** of a text if and only if it is on an escape. -/
def Report.Marks (text : List Char) (report : Report) : Prop :=
  report.isEscape = decide (text[report.offset.getD 0]? = some '\\')

lemma Escape.marks_read (policy : EscapePolicy) (letter : Char) (following : List Char)
    {offset : Nat} (stands : text[offset]? = some '\\') :
    ∀ report ∈ (Escape.read policy offset letter following).reports, report.Marks text := by
  have unicode (digits : Nat) : ∀ report ∈ (Escape.unicode policy offset letter digits
      following).reports, report.Marks text := by
    intro report mem
    rw [Escape.unicode] at mem
    split at mem
    · cases mem
    · obtain ⟨severity, -, rfl⟩ := List.mem_map.mp mem
      exact (decide_eq_true stands).symm
  intro report mem
  unfold Escape.read at mem
  repeat' split at mem
  all_goals first | exact unicode _ report mem | cases mem

lemma marks_quotedFrom (policy : EscapePolicy) (quote : Char)
    (reaches : (Place.start text).Reaches p) :
    ∀ report ∈ (quotedFrom policy quote p).reports, report.Marks text := by
  have fold {p : Place} (reaches : (Place.start text).Reaches p) :
      (Place.start text).Reaches (skipFold p) := by
    rw [skipFold]
    split
    · exact reaches.skip _
    · exact reaches
  fun_induction quotedFrom policy quote p with
  | case1 | case2 => exact List.forall_mem_nil _
  | case3 p _ _ _ ih | case6 p _ _ _ _ _ _ ih | case8 p _ _ _ _ _ _ _ _ ih => exact ih reaches.next
  | case4 p _ _ _ _ ih => exact ih (reaches.skip _)
  | case5 =>
    rename_i hrest _ ih
    intro report mem
    rcases List.mem_append.mp mem with mem | mem
    · have stands := reaches.head?
      rw [hrest] at stands
      exact Escape.marks_read _ _ _ stands.symm report mem
    · exact ih (reaches.skip _) report mem
  | case7 p _ _ _ _ _ _ _ ih => exact ih (fold reaches.next)

lemma marks_literalFrom (reaches : (Place.start text).Reaches p) :
    ∀ report ∈ (literalFrom operators policy mode first p).reports, report.Marks text := by
  fun_induction literalFrom operators policy mode first p with
  | case1 | case2 | case5 | case6 | case8 | case9 => exact List.forall_mem_nil _
  | case3 _ p _ _ _ ih => exact ih (reaches.skip _)
  | case4 =>
    rename_i hrest ih
    intro report mem
    rcases List.mem_append.mp mem with mem | mem
    · have stands := reaches.head?
      rw [hrest] at stands
      exact Escape.marks_read _ _ _ stands.symm report mem
    · exact ih (reaches.skip _) report mem
  | case7 _ p _ _ _ _ _ _ _ ih => exact ih reaches.next
  | case10 _ p _ _ _ _ _ _ _ _ ih => exact ih reaches.next

/-- **What is reported about a token stands on a backslash** if and only if it is on an escape. -/
theorem marks_lex (operators : OperatorRegistry) (policy : EscapePolicy) (skipBreaks : Bool)
    (mode : Mode) (reaches : (Place.start text).Reaches p) :
    ∀ report ∈ (lex operators policy skipBreaks mode p).reports, report.Marks text := by
  have begun := reaches.trans (reaches_begin skipBreaks p)
  -- A report at a place with another character than a backslash.
  have other {q : Place} {c : Char} {cause : Cause} (reaches : (Place.start text).Reaches q)
      (head : q.rest.head? = some c) (solid : c ≠ '\\')
      (lexical : (Report.errorAt q.offset cause).isEscape = false) :
      (Report.errorAt q.offset cause).Marks text := by
    have stands : ¬ text[q.offset]? = some '\\' := by
      rw [← reaches.head?, head]
      simpa using solid
    rw [Report.Marks, lexical]
    exact (decide_eq_false stands).symm
  rw [lex]
  split
  · rename_i q hskip
    rw [Place.begin, hskip, TriviaEnd.place] at begun
    rw [lexHere]
    split
    · exact List.forall_mem_nil _
    split
    · exact List.forall_mem_nil _
    split
    · rename_i c head _ _ quotes
      intro report mem
      rcases List.mem_append.mp mem with mem | mem
      · exact marks_quotedFrom _ _ begun.next report mem
      · split at mem
        · cases mem
        · rw [List.mem_singleton.mp mem]
          exact other begun head (by rcases quotes with rfl | rfl <;> decide) rfl
    dsimp only
    split
    · cases found : lexOperator? operators q with
      | none => exact marks_literalFrom begun
      | some lexeme =>
        intro report mem
        rw [lexOperator?] at found
        rcases Option.or_eq_some_iff.mp found with h | ⟨-, h⟩ <;>
        · obtain ⟨_, -, rfl⟩ := Option.map_eq_some_iff.mp h
          cases mem
    · exact marks_literalFrom begun
  · rename_i q hskip
    rw [Place.begin, hskip, TriviaEnd.place] at begun
    intro report mem
    rw [List.mem_singleton.mp mem]
    exact other begun (head_openComment hskip) (by decide) rfl

end TreeLang
