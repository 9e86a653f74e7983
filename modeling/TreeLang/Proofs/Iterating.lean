import TreeLang.Proofs.Gathering

/-!
# What every statement begins with

A statement sets aside what it needs while it is read: the scope of a template, the closers its groups
wait for, how deep it is in an expansion, and tokens it looked ahead to.  All of it is gone when the loop
over the statements of a source goes on to the next one, whether the statement was read to its end, was
given up, or broke off.

* `Parser.parseAll_of_reaches` — the states between two statements are those the loop goes on from.
* **`Parser.idle_of_reaches`** — in each of them nothing is left of a statement.
-/

namespace TreeLang.Parser

variable {options : CompileOptions} {resolver : Resolver} {s t : ParserState}

/-- **The loop over the statements goes on from every state between two statements**, and what lies
ahead is still within its bound. -/
lemma parseAll_of_reaches (settled : s.Settled) (resting : s.Resting)
    (reaches : Reaches options resolver s t) {fuel : Nat} (enough : s.here.rest.length < fuel)
    (values : List Node) : ∃ fuel' values', t.here.rest.length < fuel' ∧
      parseAll options resolver fuel values s = parseAll options resolver fuel' values' t := by
  induction reaches generalizing fuel values with
  | here => exact ⟨fuel, values, enough, rfl⟩
  | @round s _ _ earlier result more run others ih =>
    obtain ⟨fuel, rfl⟩ : ∃ rest, fuel = rest + 1 := ⟨fuel - 1, by omega⟩
    -- What follows a round does not change what the round does.
    obtain ⟨v, added, looked, taken⟩ := exists_taken_of_round settled more run
    obtain ⟨_, w, round, settled, resting, -, shorter⟩ :=
      ends_sourceRound_resting settled resting earlier
    obtain ⟨rfl, rfl⟩ := ok_unique round run
    have step : parseAll options resolver (fuel + 1) values s
        = parseAll options resolver fuel (added ++ values) w := by
      rw [parseAll_succ, sourceRound_of_more looked more, bind_ok taken]
    rw [step]
    exact ih settled resting (by have := shorter more; omega) (added ++ values)

/-- **Between two statements nothing is left of a statement**, whatever the statement before did: it may
have been read to its end, have been given up, or have broken off.  Every start of an iteration of the
loop over a source is one of these states, and in each of them no template is being read, no expansion is
going on, mistakes are reported, nothing is kept from being expanded, no closer is awaited, and the stream
of tokens stands where it stood when a token was last taken. -/
theorem idle_of_reaches (options : CompileOptions) (resolver : Resolver) (source : Source)
    (imports : ImportState) (reaches : Reaches options resolver (initial options source imports) s) :
    (∃ fuel values, parseAll options resolver (source.length + 1) [] (initial options source imports)
      = parseAll options resolver (fuel + 1) values s) ∧
    s.scope = none ∧ s.depth = 0 ∧ s.recovering = false ∧ s.suppressed = false ∧ s.awaited = [] ∧
      s.tokens.handed = [] ∧ s.tokens.place = s.tokens.anchor := by
  have begun : (initial options source imports).Settled := (outside_initial source imports).settled
  have idle : (initial options source imports).Resting := resting_initial source imports
  obtain ⟨settled, resting⟩ := resting_of_reaches begun idle reaches
  refine ⟨?_, resting.scope, resting.depth, resting.attends, resting.suppressed, resting.awaited,
    settled.handed, by rw [TokenStream.place, settled.handed]⟩
  obtain ⟨fuel, values, enough, step⟩ :=
    parseAll_of_reaches begun idle reaches (Nat.lt_succ_self source.length) []
  obtain ⟨rest, rfl⟩ : ∃ rest, fuel = rest + 1 := ⟨fuel - 1, by omega⟩
  exact ⟨rest, values, step⟩

/-- For instance behind an import that breaks off. -/
theorem idle_of_reaches_of_broken_import :
    let resolver : Resolver := fun _ => throw (.loader none)
    let s := initial {} ⟨"", "use p\n[a"⟩ {}
    ∃ t, Reaches {} resolver s t ∧ t.reports = #[.errorAt 0 (.fault "unknown cause")] ∧
      (∃ fuel values, parseAll {} resolver 9 [] s = parseAll {} resolver (fuel + 1) values t) ∧
      t.scope = none ∧ t.depth = 0 ∧ t.recovering = false ∧ t.suppressed = false ∧ t.awaited = [] ∧
      t.tokens.handed = [] ∧ t.tokens.place = t.tokens.anchor := by
  intro resolver s
  obtain ⟨_, t, round, -, -⟩ : Ends (sourceRound {} resolver pure []) s _ :=
    ends_sourceRound_resting (outside_initial _ _).settled (resting_initial _ _) []
  have reaches : Reaches {} resolver s t := .round (by decide +kernel) round (.here t)
  have told : (stateOf (sourceRound {} resolver pure [] s)).reports
      = #[.errorAt 0 (.fault "unknown cause")] := by decide +kernel
  rw [round] at told
  exact ⟨t, reaches, told, idle_of_reaches {} resolver ⟨"", "use p\n[a"⟩ {} reaches⟩

end TreeLang.Parser
