import TreeLang.Proofs.Registering
import TreeLang.Token.Lexer

/-!
# Which operator is split off

In operations a text is split at the registered symbols and words.  Each sort is looked up longest
first, so what is found is the longest one of its sort that may stand there.  But the words are asked
before the symbols, and a word that fits keeps the symbols from being asked at all: the token is the
longest of both sorts except where a symbol is longer than every word that fits.

* `OperatorRegistry.Fits`, `OperatorRegistry.Longest` — what may be read at a place.
* `symbolAt?_eq_some`, `wordAt?_eq_some` — a lookup finds the longest of its sort.
* **`lexHere_operation`** — which token begins where no delimiter and no quote stands.
* **`lexHere_munches`** — it is the longest of both sorts exactly if no word hides a longer symbol.
-/

namespace TreeLang

namespace OperatorRegistry

variable {operators : OperatorRegistry} {place : Place} {keyword : Bool} {name other : String}

/-- Whether a name may end where its characters do: a word is not followed by more of a word, and a
point does not stand between two digits. -/
def Ends (place : Place) (keyword : Bool) (name : String) : Prop :=
  if keyword then (place.rest.drop name.length).head?.any Text.continuesWord = false
  else name = "." → betweenDigits place = false

/-- **A registered name that may be read at a place.** -/
structure Fits (operators : OperatorRegistry) (place : Place) (keyword : Bool) (name : String) :
    Prop where
  registered : ∃ op ∈ operators.definitions, op.name = name ∧ op.keyword = keyword
  nonempty : name ≠ ""
  begins : name.toList <+: place.rest
  ends : Ends place keyword name

/-- The longest name of a sort that may be read at a place. -/
structure Longest (operators : OperatorRegistry) (place : Place) (keyword : Bool) (name : String) :
    Prop where
  fits : operators.Fits place keyword name
  longest : ∀ other, operators.Fits place keyword other → other.length ≤ name.length

/-- Names that begin at one place and have one length are one name. -/
lemma Fits.eq_of_length {sort : Bool} (fits : operators.Fits place keyword name)
    (others : operators.Fits place sort other) (length : name.length = other.length) :
    name = other := by
  have lengths : name.toList.length = other.toList.length := by
    rw [String.length_toList, String.length_toList, length]
  have prefixed := List.prefix_of_prefix_length_le fits.begins others.begins (Nat.le_of_eq lengths)
  exact String.toList_injective (prefixed.eq_of_length lengths)

lemma Longest.unique (first : operators.Longest place keyword name)
    (second : operators.Longest place keyword other) : name = other :=
  first.fits.eq_of_length second.fits
    (Nat.le_antisymm (second.longest name first.fits) (first.longest other second.fits))

/-! ## One lookup -/

/-- The index of a character holds the names of a sort that fit where it stands. -/
lemma fits_iff {c : Char} (here : place.rest.head? = some c) :
    operators.Fits place keyword name ↔
      name ∈ operators.symbols keyword c ∧ name.toList <+: place.rest ∧ Ends place keyword name := by
  have head : name.toList <+: place.rest → (name ≠ "" ↔ name.toList.head? = some c) := by
    rintro ⟨rest, eq⟩
    rw [← eq] at here
    cases characters : name.toList with
    | nil => simp [String.toList_eq_nil_iff.mp characters]
    | cons first more =>
      rw [characters] at here
      refine ⟨fun _ => by simpa using here, ?_⟩
      rintro - rfl
      simp at characters
  rw [mem_symbols_iff]
  constructor
  · rintro ⟨registered, nonempty, begins, ends⟩
    exact ⟨⟨(head begins).mp nonempty, registered⟩, begins, ends⟩
  · rintro ⟨⟨first, registered⟩, begins, ends⟩
    exact ⟨registered, (head begins).mpr first, begins, ends⟩

/-- Nothing fits at the end of a text. -/
lemma not_fits_of_end (ended : place.rest.head? = none) : ¬ operators.Fits place keyword name := by
  intro fits
  obtain ⟨rest, eq⟩ := fits.begins
  rw [← eq, List.head?_eq_none_iff, List.append_eq_nil_iff] at ended
  exact fits.nonempty (String.toList_eq_nil_iff.mp ended.1)

/-- The first name of an index with a property is the longest one with it. -/
lemma length_le_of_find? {c : Char} {accepted : String → Bool}
    (found : (operators.symbols keyword c).find? accepted = some name)
    (member : other ∈ operators.symbols keyword c) (accept : accepted other) :
    other.length ≤ name.length := by
  obtain ⟨-, before, after, split, rejected⟩ := List.find?_eq_some_iff_append.mp found
  have sorted := operators.sorted_symbols keyword c
  rw [split] at sorted member
  rcases List.mem_append.mp member with earlier | later
  · simpa [accept] using rejected other earlier
  · rcases List.mem_cons.mp later with rfl | later
    · exact Nat.le_refl _
    · have order := (List.pairwise_cons.mp (List.pairwise_append.mp sorted).2.1).1 other later
      omega

/-- **A lookup finds the longest name of its sort**: it goes through the index of the character and
takes the first name that fits. -/
lemma lookup_eq_some {accepted : String → Bool}
    (accepts : ∀ name, accepted name ↔ name.toList <+: place.rest ∧ Ends place keyword name) :
    (place.rest.head?.bind fun c => (operators.symbols keyword c).find? accepted) = some name ↔
      operators.Longest place keyword name := by
  cases here : place.rest.head? with
  | none => simpa using fun longest : operators.Longest place keyword name =>
      not_fits_of_end here longest.fits
  | some c =>
    have fits (name : String) : operators.Fits place keyword name ↔
        name ∈ operators.symbols keyword c ∧ accepted name := by rw [fits_iff here, accepts]
    have longest {name : String}
        (found : (operators.symbols keyword c).find? accepted = some name) :
        operators.Longest place keyword name := by
      refine ⟨(fits name).mpr ⟨List.mem_of_find?_eq_some found, List.find?_some found⟩, ?_⟩
      intro other another
      obtain ⟨member, accept⟩ := (fits other).mp another
      exact length_le_of_find? found member accept
    refine ⟨longest, fun known => ?_⟩
    obtain ⟨member, accept⟩ := (fits name).mp known.fits
    cases found : (operators.symbols keyword c).find? accepted with
    | none => exact absurd accept (List.find?_eq_none.mp found name member)
    | some first => rw [Option.bind_some, found, (longest found).unique known]

/-- It finds nothing only if nothing fits. -/
lemma lookup_eq_none {accepted : String → Bool}
    (accepts : ∀ name, accepted name ↔ name.toList <+: place.rest ∧ Ends place keyword name)
    (missed : (place.rest.head?.bind fun c => (operators.symbols keyword c).find? accepted) = none) :
    ¬ operators.Fits place keyword name := by
  intro fits
  cases here : place.rest.head? with
  | none => exact not_fits_of_end here fits
  | some c =>
    rw [here, Option.bind_some] at missed
    obtain ⟨member, accept⟩ := (fits_iff here).mp fits
    exact List.find?_eq_none.mp missed name member ((accepts name).mpr accept)

end OperatorRegistry

open OperatorRegistry

variable {operators : OperatorRegistry} {place : Place} {name : String}

/-- The test that the index of symbols is searched with. -/
lemma symbol_accepts (place : Place) (name : String) :
    (name.toList.isPrefixOf place.rest && (name ≠ "." || !betweenDigits place)) ↔
      name.toList <+: place.rest ∧ Ends place false name := by
  simp [Ends, Classical.or_iff_not_imp_left]

/-- The test that the index of words is searched with. -/
lemma word_accepts (place : Place) (name : String) :
    (name.toList.isPrefixOf place.rest &&
        !((place.rest.drop name.length).head?.any Text.continuesWord)) ↔
      name.toList <+: place.rest ∧ Ends place true name := by
  simp [Ends]

/-- **The longest symbol that fits.** -/
lemma symbolAt?_eq_some :
    symbolAt? operators place = some name ↔ operators.Longest place false name :=
  lookup_eq_some (symbol_accepts place)

/-- **The longest word that fits.** -/
lemma wordAt?_eq_some :
    wordAt? operators place = some name ↔ operators.Longest place true name :=
  lookup_eq_some (word_accepts place)

/-! ## The token -/

/-- The token that a registered name makes. -/
def namedLexeme (place : Place) (keyword : Bool) (name : String) : Lexeme :=
  let after := place.skip name.length
  ⟨⟨if keyword then .keyword else .operator, name, place.offset, after.offset⟩, after, []⟩

/-- **The token that begins where no delimiter and no quote stands** is the longest word that fits;
without a word that fits it is the longest symbol, and without either it is a literal. -/
theorem lexHere_operation (policy : EscapePolicy) {c : Char} (here : place.rest.head? = some c)
    (plain : delimiter? .operation c = none) (unquoted : ¬ (c = '"' ∨ c = '\'')) :
    (∃ word, operators.Longest place true word ∧
        lexHere operators policy .operation place = namedLexeme place true word) ∨
      (∀ word, ¬ operators.Fits place true word) ∧
        ((∃ symbol, operators.Longest place false symbol ∧
            lexHere operators policy .operation place = namedLexeme place false symbol) ∨
          (∀ symbol, ¬ operators.Fits place false symbol) ∧
            lexHere operators policy .operation place =
              lexLiteral operators policy .operation place) := by
  have token : lexHere operators policy .operation place =
      (lexOperator? operators place).getD (lexLiteral operators policy .operation place) := by
    simp [lexHere, here, plain, unquoted]
  rw [token, lexOperator?]
  cases word : wordAt? operators place with
  | some name => exact .inl ⟨name, wordAt?_eq_some.mp word, rfl⟩
  | none =>
    refine .inr ⟨fun _ => lookup_eq_none (word_accepts place) word, ?_⟩
    cases symbol : symbolAt? operators place with
    | some name => exact .inl ⟨name, symbolAt?_eq_some.mp symbol, rfl⟩
    | none => exact .inr ⟨fun _ => lookup_eq_none (symbol_accepts place) symbol, rfl⟩

/-- **The token is as long as everything that fits** exactly if no symbol is longer than the longest
word that fits. -/
theorem lexHere_munches (policy : EscapePolicy) {c : Char} (here : place.rest.head? = some c)
    (plain : delimiter? .operation c = none) (unquoted : ¬ (c = '"' ∨ c = '\'')) :
    (∀ keyword name, operators.Fits place keyword name →
        name.length ≤ (lexHere operators policy .operation place).token.content.length) ↔
      ∀ word symbol, operators.Longest place true word → operators.Fits place false symbol →
        symbol.length ≤ word.length := by
  obtain ⟨word, longest, token⟩ | ⟨wordless, ⟨symbol, longest, token⟩ | ⟨symbolless, -⟩⟩ :=
    @lexHere_operation operators place policy c here plain unquoted
  · rw [token]
    refine ⟨fun munches other symbol known fits => ?_, fun unhidden keyword name fits => ?_⟩
    · rw [known.unique longest]
      exact munches false symbol fits
    · cases keyword
      · exact unhidden word name longest fits
      · exact longest.longest name fits
  · rw [token]
    refine ⟨fun _ word _ known => absurd known.fits (wordless word), fun _ keyword name fits => ?_⟩
    cases keyword
    · exact longest.longest name fits
    · exact absurd fits (wordless name)
  · refine ⟨fun _ word _ known => absurd known.fits (wordless word), fun _ keyword name fits => ?_⟩
    cases keyword
    · exact absurd fits (symbolless name)
    · exact absurd fits (wordless name)

/-- A short word hides a longer symbol. -/
example :
    let operators : OperatorRegistry := ⟨[
      { OperatorDefinition.symbol "in" .binary (.ofNat 1) with keyword := true },
      .symbol "in+" .binary (.ofNat 2)]⟩
    (lexHere operators .error .operation (.start "in+ y".toList)).token = ⟨.keyword, "in", 0, 2⟩ := by
  decide +kernel

end TreeLang
