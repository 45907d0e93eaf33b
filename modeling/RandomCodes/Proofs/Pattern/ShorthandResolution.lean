import RandomCodes.Proofs.Pattern.Drawing
/-!
# Shorthands resolved one kind after the other and all at once

The shorthands are drawn in two passes, and the pass for digits reads the letters that the other one
has drawn. The passes are meant to put a letter in the place of each `\w` of the text and a digit in
the place of each `\d` of it. So they do, unless a backslash stands in front of some `\w`: a drawn
`d` makes a shorthand with it, which the second pass takes for one of the text.
-/

namespace RandomCodes

theorem Draws.canReturn_collect_replicate
    {program : Draws Char} {symbol : Char} (returned : program.CanReturn symbol) (count : Nat) :
    (collect count program).CanReturn (List.replicate count symbol) := by
  induction count with
  | zero => rfl
  | succ count inductionHypothesis =>
      rw [collect_succ, canReturn_bind]
      refine ⟨symbol, returned, ?_⟩
      rw [canReturn_bind]
      exact ⟨_, inductionHypothesis, rfl⟩

namespace Alphabet

variable (alphabet : Alphabet)

theorem subset_of_canReturn_collect
    {count : Nat} {drawn : List Char}
    (returned : (Draws.collect count alphabet.draw).CanReturn drawn) :
    drawn ⊆ alphabet.characters := by
  induction count generalizing drawn with
  | zero =>
      rw [(Draws.canReturn_pure _ _).mp returned]
      exact List.nil_subset _
  | succ count inductionHypothesis =>
      rw [Draws.collect_succ, Draws.canReturn_bind] at returned
      obtain ⟨symbol, symbolDrawn, returned⟩ := returned
      obtain ⟨others, othersDrawn, same⟩ := (Draws.canReturn_bind _ _ _).mp returned
      rw [(Draws.canReturn_pure _ _).mp same]
      have member := (alphabet.canReturn_draw symbol).mp symbolDrawn
      exact List.cons_subset.mpr ⟨member, inductionHypothesis othersDrawn⟩

theorem count_run_collect
    {State : Type} (source : Source State) (count : Nat) (recording : Recording State) :
    ((Draws.collect count alphabet.draw).run source.recorded recording).2.count =
      count + recording.count := by
  induction count generalizing recording with
  | zero => exact (Nat.zero_add _).symm
  | succ count inductionHypothesis =>
      have one : (alphabet.draw.run source.recorded recording).2.count = recording.count + 1 := rfl
      rw [Draws.collect_succ, Draws.run_bind, Draws.run_bind]
      refine (inductionHypothesis _).trans ?_
      rw [one]
      omega

end Alphabet

namespace Pattern

namespace Shorthand

/-- The kind of the shorthand that a character makes behind a backslash. -/
def ofSymbol? : Char → Option Shorthand
  | 'w' => some .letter
  | 'd' => some .digit
  | _ => none

/-- The text with the shorthands of both kinds set aside. -/
def parts : Text → List (Piece Shorthand)
  | '\\' :: symbol :: rest =>
      match ofSymbol? symbol with
      | some kind => .found ['\\', symbol] kind :: parts rest
      | none => .copied '\\' :: parts (symbol :: rest)
  | symbol :: rest => .copied symbol :: parts rest
  | [] => []

/-- The number of shorthands of one kind. -/
def count (kind : Shorthand) (parts : List (Piece Shorthand)) : Nat :=
  (parts.filterMap Piece.value?).count kind

/-- Puts the chosen characters, in order, in the place of the shorthands of one kind. -/
def put (kind : Shorthand) (chosen : List Char) :
    List (Piece Shorthand) → List (Piece Shorthand)
  | [] => []
  | .copied symbol :: rest => .copied symbol :: put kind chosen rest
  | .found span other :: rest =>
      if other = kind then (chosen.take 1).map .copied ++ put kind (chosen.drop 1) rest
      else .found span other :: put kind chosen rest

end Shorthand

/-- Draws a letter for each `\w` of the text, then a digit for each `\d` of it, and puts them in
their places. -/
def resolveAtOnce (text : Text) : Draws Text := do
  let parts := Shorthand.parts text
  let letters ← Draws.collect (Shorthand.letter.count parts) Alphabet.lowercase.draw
  let digits ← Draws.collect (Shorthand.digit.count parts) Alphabet.digits.draw
  return (Shorthand.digit.put digits (Shorthand.letter.put letters parts)).flatMap Piece.source

namespace Shorthand

section Steps

variable (kind : Shorthand) (symbol : Char) (span : Text) (rest : List (Piece Shorthand))

theorem count_copied : kind.count (.copied symbol :: rest) = kind.count rest := rfl

theorem count_found_self : kind.count (.found span kind :: rest) = kind.count rest + 1 := by
  simp [count, Piece.value?]

theorem count_found_of_ne {other : Shorthand} (different : other ≠ kind) :
    kind.count (.found span other :: rest) = kind.count rest := by
  simp [count, Piece.value?, different]

theorem put_copied (chosen : List Char) :
    kind.put chosen (.copied symbol :: rest) = .copied symbol :: kind.put chosen rest := rfl

theorem put_found_self (chosen : List Char) :
    kind.put (symbol :: chosen) (.found span kind :: rest) =
      .copied symbol :: kind.put chosen rest := by
  simp [put]

theorem put_found_of_ne {other : Shorthand} (different : other ≠ kind) (chosen : List Char) :
    kind.put chosen (.found span other :: rest) = .found span other :: kind.put chosen rest := by
  simp [put, different]

end Steps

theorem ofSymbol?_eq_some_iff {symbol : Char} {kind : Shorthand} :
    ofSymbol? symbol = some kind ↔ kind.symbol = symbol := by
  constructor
  · intro found
    unfold ofSymbol? at found
    split at found <;> cases found <;> rfl
  · rintro rfl
    cases kind <;> rfl

theorem ofSymbol?_eq_none_iff {symbol : Char} :
    ofSymbol? symbol = none ↔ ∀ kind : Shorthand, symbol ≠ kind.symbol := by
  rw [Option.eq_none_iff_forall_ne_some]
  constructor
  · intro none kind same
    exact none kind (ofSymbol?_eq_some_iff.mpr same.symm)
  · intro other kind found
    exact other kind (ofSymbol?_eq_some_iff.mp found).symm

theorem parts_of_ne {symbol : Char} (noEscape : symbol ≠ '\\') (rest : Text) :
    parts (symbol :: rest) = .copied symbol :: parts rest := by
  rw [parts]
  intro _ _ escape
  exact absurd escape noEscape

theorem parts_shorthand (kind : Shorthand) (rest : Text) :
    parts ('\\' :: kind.symbol :: rest) = .found ['\\', kind.symbol] kind :: parts rest := by
  rw [parts, ofSymbol?_eq_some_iff.mpr rfl]

theorem parts_escape
    {rest : Text} (other : ∀ kind : Shorthand, rest.head? ≠ some kind.symbol) :
    parts ('\\' :: rest) = .copied '\\' :: parts rest := by
  cases rest with
  | nil => rfl
  | cons symbol rest =>
      have none : ofSymbol? symbol = none := by
        refine ofSymbol?_eq_none_iff.mpr fun kind same => other kind ?_
        rw [List.head?_cons, same]
      rw [parts, none]

/-- A text begins with a shorthand or with a character that makes none. -/
theorem induction_on_parts
    {motive : Text → Prop} (nil : motive [])
    (shorthand : ∀ (kind : Shorthand) rest, motive rest → motive ('\\' :: kind.symbol :: rest))
    (escape : ∀ rest, (∀ kind : Shorthand, rest.head? ≠ some kind.symbol) → motive rest →
      motive ('\\' :: rest))
    (plain : ∀ symbol rest, symbol ≠ '\\' → motive rest → motive (symbol :: rest))
    (text : Text) : motive text := by
  fun_induction parts text with
  | case1 symbol rest kind found inductionHypothesis =>
      obtain rfl := ofSymbol?_eq_some_iff.mp found
      exact shorthand kind rest inductionHypothesis
  | case2 symbol rest none inductionHypothesis =>
      refine escape (symbol :: rest) (fun kind same => ?_) inductionHypothesis
      exact ofSymbol?_eq_none_iff.mp none kind (Option.some.inj same)
  | case3 symbol rest shape inductionHypothesis =>
      by_cases same : symbol = '\\'
      · subst same
        cases rest with
        | nil => exact escape [] (by simp) nil
        | cons next rest => exact absurd rfl (shape next rest rfl)
      · exact plain symbol rest same inductionHypothesis
  | case4 => exact nil

/-- The parts are the text cut apart. -/
theorem source_parts (text : Text) : (parts text).flatMap Piece.source = text := by
  induction text using induction_on_parts with
  | nil => rfl
  | shorthand kind rest inductionHypothesis =>
      rw [parts_shorthand, List.flatMap_cons, inductionHypothesis]
      rfl
  | escape rest other inductionHypothesis =>
      rw [parts_escape other, List.flatMap_cons, inductionHypothesis]
      rfl
  | plain symbol rest noEscape inductionHypothesis =>
      rw [parts_of_ne noEscape, List.flatMap_cons, inductionHypothesis]
      rfl

theorem resolve_cons_of_eq_none
    {kind : Shorthand} {symbol : Char} {rest : Text}
    (refused : shorthandReader kind (symbol :: rest) = none) :
    kind.resolve (symbol :: rest) = (symbol :: ·) <$> kind.resolve rest := by
  rw [kind.resolve_eq]
  exact Reader.rewrite_cons_of_eq_none refused _

theorem resolve_shorthand (kind : Shorthand) (rest : Text) :
    kind.resolve ('\\' :: kind.symbol :: rest) = do
      let drawn ← kind.alphabet.draw
      let others ← kind.resolve rest
      return drawn :: others := by
  have read : shorthandReader kind (['\\', kind.symbol] ++ rest) =
      some ((), ['\\', kind.symbol].length) := shorthandReader_read kind rest
  have step := Reader.rewrite_append_of_eq_some (List.cons_ne_nil _ _) read
    fun _ => return [← kind.alphabet.draw]
  rw [← kind.resolve_eq] at step
  simpa using step

/-- A pass draws for the shorthands of its kind and leaves the others as they are. -/
theorem resolve_eq_put (kind : Shorthand) (text : Text) :
    kind.resolve text =
      (fun chosen => (kind.put chosen (parts text)).flatMap Piece.source) <$>
        Draws.collect (kind.count (parts text)) kind.alphabet.draw := by
  induction text using induction_on_parts with
  | nil => rfl
  | shorthand other rest inductionHypothesis =>
      rw [parts_shorthand]
      by_cases same : other = kind
      · subst same
        rw [resolve_shorthand, inductionHypothesis, count_found_self, Draws.collect_succ]
        simp [put_found_self, Piece.source]
      · have noEscape := ne_of_not_special (symbol_not_special other) (by decide : '\\' ∈ _)
        have different : other.symbol ≠ kind.symbol := by
          cases other <;> cases kind <;> first | exact absurd rfl same | decide
        rw [resolve_cons_of_eq_none (shorthandReader_escape_of_ne different rest),
          resolve_cons_of_eq_none (shorthandReader_of_ne kind noEscape rest),
          inductionHypothesis, count_found_of_ne kind _ _ same]
        simp [put_found_of_ne kind _ _ same, Piece.source]
  | escape rest other inductionHypothesis =>
      have refused : shorthandReader kind ('\\' :: rest) = none := by
        cases rest with
        | nil => rfl
        | cons symbol rest => exact shorthandReader_escape_of_ne (by simpa using other kind) rest
      rw [parts_escape other, resolve_cons_of_eq_none refused, inductionHypothesis, count_copied]
      simp [put_copied, Piece.source]
  | plain symbol rest noEscape inductionHypothesis =>
      rw [parts_of_ne noEscape, resolve_cons_of_eq_none (shorthandReader_of_ne kind noEscape rest),
        inductionHypothesis, count_copied]
      simp [put_copied, Piece.source]

/-! ## Where the passes agree -/

/-- The characters put in the place of one kind do not change the number of the other. -/
theorem count_put {kind other : Shorthand} (different : other ≠ kind) (chosen : List Char)
    (parts : List (Piece Shorthand)) :
    other.count (kind.put chosen parts) = other.count parts := by
  induction parts generalizing chosen with
  | nil => rfl
  | cons piece rest inductionHypothesis =>
      cases piece with
      | copied symbol => exact inductionHypothesis chosen
      | found span another =>
          by_cases same : another = kind
          · subst same
            rw [count_found_of_ne other span rest different.symm]
            cases chosen with
            | nil => simpa [put] using inductionHypothesis []
            | cons symbol chosen =>
                rw [put_found_self, count_copied, inductionHypothesis]
          · rw [put_found_of_ne kind _ _ same]
            by_cases counted : another = other
            · subst counted
              rw [count_found_self, count_found_self, inductionHypothesis]
            · rw [count_found_of_ne other _ _ counted, count_found_of_ne other _ _ counted,
                inductionHypothesis]

/-- A letter that is put in changes the first character only where it stands first. -/
theorem head?_put_letters
    {text : Text} (other : ¬ ['\\', 'w'] <+: text) (letters : List Char) :
    ((letter.put letters (parts text)).flatMap Piece.source).head? = text.head? := by
  cases text using induction_on_parts with
  | nil => rfl
  | shorthand kind rest =>
      cases kind with
      | letter => exact absurd ⟨rest, rfl⟩ other
      | digit =>
          rw [parts_shorthand, put_found_of_ne letter _ _ (by decide)]
          rfl
  | escape rest unmade =>
      rw [parts_escape unmade]
      rfl
  | plain symbol rest noEscape =>
      rw [parts_of_ne noEscape]
      rfl

/-- As long as no backslash stands in front of a `\w`, the letters that are put in make no shorthand
with what stands around them. -/
theorem parts_put_letters
    {text : Text} (clear : ¬ ['\\', '\\', 'w'] <:+: text)
    {letters : List Char} (visible : '\\' ∉ letters) :
    parts ((letter.put letters (parts text)).flatMap Piece.source) =
      letter.put letters (parts text) := by
  induction text using induction_on_parts generalizing letters with
  | nil => rfl
  | shorthand kind rest inductionHypothesis =>
      have clearRest : ¬ ['\\', '\\', 'w'] <:+: rest := fun inside =>
        clear (inside.trans (List.suffix_append ['\\', kind.symbol] rest).isInfix)
      rw [parts_shorthand]
      cases kind with
      | letter =>
          cases letters with
          | nil => simpa [put] using inductionHypothesis clearRest visible
          | cons symbol letters =>
              obtain ⟨first, later⟩ := List.ne_and_not_mem_of_not_mem_cons visible
              rw [put_found_self, List.flatMap_cons, Piece.source, List.singleton_append,
                parts_of_ne (Ne.symm first), inductionHypothesis clearRest later]
      | digit =>
          have step := parts_shorthand digit
            ((letter.put letters (parts rest)).flatMap Piece.source)
          rw [put_found_of_ne letter _ _ (by decide), List.flatMap_cons, Piece.source]
          rw [inductionHypothesis clearRest visible] at step
          exact step
  | escape rest other inductionHypothesis =>
      have behind := inductionHypothesis
        (fun inside => clear (inside.trans (List.suffix_cons '\\' rest).isInfix)) visible
      have noLetter : ¬ ['\\', 'w'] <+: rest :=
        fun front => clear ((List.prefix_cons_inj '\\').mpr front).isInfix
      have first := head?_put_letters noLetter letters
      rw [parts_escape other, put_copied, List.flatMap_cons, Piece.source, List.singleton_append,
        parts_escape (by rwa [first]), behind]
  | plain symbol rest noEscape inductionHypothesis =>
      have behind := inductionHypothesis
        (fun inside => clear (inside.trans (List.suffix_cons symbol rest).isInfix)) visible
      rw [parts_of_ne noEscape, put_copied, List.flatMap_cons, Piece.source,
        List.singleton_append, parts_of_ne noEscape, behind]

end Shorthand

open Shorthand (parts put letter digit)

theorem resolveShorthands_eq (text : Text) :
    resolveShorthands text =
      Draws.collect (letter.count (parts text)) Alphabet.lowercase.draw >>= fun letters =>
        digit.resolve ((letter.put letters (parts text)).flatMap Piece.source) := by
  simp only [resolveShorthands, Shorthand.all, List.foldlM_cons, List.foldlM_nil, bind_pure]
  rw [letter.resolve_eq_put, bind_map_left]
  rfl

theorem run_resolveShorthands
    {State : Type} {source : Source State} {text : Text}
    (clear : ¬ ['\\', '\\', 'w'] <:+: text) (lawful : source.Lawful) (state : State) :
    (resolveShorthands text).run source.recorded { state } =
      (resolveAtOnce text).run source.recorded { state } := by
  let drawing := Draws.collect (letter.count (parts text)) Alphabet.lowercase.draw
  have visible : '\\' ∉ (drawing.run source.recorded { state }).1 := by
    rw [(Draws.run_recorded source drawing { state }).1]
    have drawn := Alphabet.lowercase.subset_of_canReturn_collect
      (Draws.canReturn_run lawful drawing state)
    exact fun escape => absurd (drawn escape) (by decide)
  rw [resolveShorthands_eq, resolveAtOnce]
  refine (Draws.run_bind _ _ _ _).trans (Eq.trans ?_ (Draws.run_bind _ _ _ _).symm)
  rw [digit.resolve_eq_put, Shorthand.parts_put_letters clear visible,
    Shorthand.count_put (by decide), map_eq_pure_bind]
  rfl

/-! ## Where they do not -/

namespace Shorthand

/-- The text between the passes if the same letter is drawn for each `\w`. -/
def afterLetter (symbol : Char) (text : Text) : Text :=
  (letter.put (List.replicate (letter.count (parts text)) symbol) (parts text)).flatMap Piece.source

theorem afterLetter_letter (symbol : Char) (rest : Text) :
    afterLetter symbol ('\\' :: letter.symbol :: rest) = symbol :: afterLetter symbol rest := by
  rw [afterLetter, parts_shorthand, count_found_self, List.replicate_succ, put_found_self]
  rfl

theorem afterLetter_digit (symbol : Char) (rest : Text) :
    afterLetter symbol ('\\' :: digit.symbol :: rest) =
      '\\' :: digit.symbol :: afterLetter symbol rest := by
  rw [afterLetter, parts_shorthand, count_found_of_ne letter _ _ (by decide),
    put_found_of_ne letter _ _ (by decide)]
  rfl

theorem afterLetter_escape
    (symbol : Char) {rest : Text} (unmade : ∀ kind : Shorthand, rest.head? ≠ some kind.symbol) :
    afterLetter symbol ('\\' :: rest) = '\\' :: afterLetter symbol rest := by
  rw [afterLetter, parts_escape unmade]
  rfl

theorem afterLetter_of_ne (symbol : Char) {other : Char} (noEscape : other ≠ '\\') (rest : Text) :
    afterLetter symbol (other :: rest) = other :: afterLetter symbol rest := by
  rw [afterLetter, parts_of_ne noEscape]
  rfl

/-- A character in front of a text breaks none of its shorthands. -/
theorem count_parts_le (kind : Shorthand) (symbol : Char) (text : Text) :
    kind.count (parts text) ≤ kind.count (parts (symbol :: text)) := by
  by_cases escape : symbol = '\\'
  · subst escape
    cases text with
    | nil => exact Nat.zero_le _
    | cons next rest =>
        cases made : ofSymbol? next with
        | none =>
            have unmade : ∀ other : Shorthand, (next :: rest).head? ≠ some other.symbol :=
              fun other same => ofSymbol?_eq_none_iff.mp made other (Option.some.inj same)
            rw [parts_escape unmade]
            rfl
        | some other =>
            obtain rfl := ofSymbol?_eq_some_iff.mp made
            have noEscape := ne_of_not_special (symbol_not_special other) (by decide : '\\' ∈ _)
            rw [parts_shorthand, parts_of_ne noEscape, count_copied]
            by_cases same : other = kind
            · subst same
              rw [count_found_self]
              exact Nat.le_succ _
            · rw [count_found_of_ne kind _ _ same]
  · rw [parts_of_ne escape]
    rfl

/-- With the letter `d` throughout, no shorthand for a digit gets lost between the passes, and one is
new if a backslash stands in front of some `\w`. -/
theorem count_afterLetter (text : Text) :
    digit.count (parts text) ≤ digit.count (parts (afterLetter digit.symbol text)) ∧
      (['\\', '\\', 'w'] <:+: text →
        digit.count (parts text) < digit.count (parts (afterLetter digit.symbol text))) := by
  induction text using induction_on_parts with
  | nil => exact ⟨Nat.le_refl _, fun inside => absurd inside (by decide)⟩
  | shorthand kind rest inductionHypothesis =>
      have later : ['\\', '\\', 'w'] <:+: '\\' :: kind.symbol :: rest →
          ['\\', '\\', 'w'] <:+: rest := by
        intro inside
        cases kind <;> simpa [List.infix_cons_iff, symbol] using inside
      cases kind with
      | letter =>
          rw [afterLetter_letter, parts_shorthand, parts_of_ne (by decide),
            count_found_of_ne digit _ _ (by decide), count_copied]
          exact ⟨inductionHypothesis.1, fun inside => inductionHypothesis.2 (later inside)⟩
      | digit =>
          rw [afterLetter_digit, parts_shorthand, parts_shorthand, count_found_self,
            count_found_self]
          exact ⟨Nat.succ_le_succ inductionHypothesis.1,
            fun inside => Nat.succ_lt_succ (inductionHypothesis.2 (later inside))⟩
  | escape rest unmade inductionHypothesis =>
      have kept := count_parts_le digit '\\' (afterLetter digit.symbol rest)
      rw [afterLetter_escape _ unmade, parts_escape unmade, count_copied]
      refine ⟨inductionHypothesis.1.trans kept, fun inside => ?_⟩
      rcases List.infix_cons_iff.mp inside with front | inside
      · obtain ⟨behind, rfl⟩ := (List.prefix_cons_inj '\\').mp front
        have before : digit.count (parts ('\\' :: letter.symbol :: behind)) ≤
            digit.count (parts (afterLetter digit.symbol ('\\' :: letter.symbol :: behind))) :=
          inductionHypothesis.1
        rw [afterLetter_letter, parts_of_ne (show digit.symbol ≠ '\\' by decide), count_copied]
          at before
        show digit.count (parts ('\\' :: letter.symbol :: behind)) < digit.count
          (parts ('\\' :: afterLetter digit.symbol ('\\' :: letter.symbol :: behind)))
        rw [afterLetter_letter, parts_shorthand digit, count_found_self]
        exact Nat.lt_succ_of_le before
      · exact (inductionHypothesis.2 inside).trans_le kept
  | plain symbol rest noEscape inductionHypothesis =>
      rw [afterLetter_of_ne _ noEscape, parts_of_ne noEscape, parts_of_ne noEscape, count_copied,
        count_copied]
      refine ⟨inductionHypothesis.1, fun inside => inductionHypothesis.2 ?_⟩
      rcases List.infix_cons_iff.mp inside with front | inside
      · obtain ⟨_, same⟩ := front
        exact absurd (List.cons.inj same).1.symm noEscape
      · exact inside

end Shorthand

/-- The two passes give the same text and ask the same questions as resolving all shorthands at
once, whatever a lawful source answers, exactly if no backslash stands in front of a `\w`. -/
theorem resolveShorthands_eq_resolveAtOnce_iff (text : Text) :
    (∀ (State : Type) (source : Source State), source.Lawful → ∀ state : State,
      (resolveShorthands text).run source.recorded { state } =
        (resolveAtOnce text).run source.recorded { state }) ↔
      ¬ ['\\', '\\', 'w'] <:+: text := by
  constructor
  · intro same inside
    have returned : Alphabet.lowercase.draw.CanReturn digit.symbol :=
      (Alphabet.lowercase.canReturn_draw _).mpr (by decide)
    obtain ⟨answers, replayed⟩ := Replay.exists_recorded_run_eq_of_canReturn
      (Draws.canReturn_collect_replicate returned (letter.count (parts text)))
    obtain ⟨calls, _, letters⟩ := replayed []
    have counts := congrArg (fun run => run.2.count)
      (same (List Nat) Replay.source Replay.source_permits answers)
    rw [resolveShorthands_eq, resolveAtOnce] at counts
    simp only [Draws.run_bind, letters, digit.resolve_eq_put, map_eq_pure_bind] at counts
    have totals := (Alphabet.count_run_collect _ _ _ _).symm.trans
      (counts.trans (Alphabet.count_run_collect _ _ _ _))
    exact Nat.ne_of_gt ((Shorthand.count_afterLetter text).2 inside) (Nat.add_right_cancel totals)
  · intro clear State source lawful state
    exact run_resolveShorthands clear lawful state

/-- Behind a backslash, the letter `d` that is drawn for a `\w` is resolved again. -/
theorem resolve_escapedLetter :
    let passes := (resolveShorthands "\\\\w".toList).run Script.source.recorded
      { state := { values := [3, 5] } }
    let atOnce := (resolveAtOnce "\\\\w".toList).run Script.source.recorded
      { state := { values := [3, 5] } }
    passes.1 = "5".toList ∧ passes.2.calls = [(.index 26, 3), (.index 10, 5)] ∧
      atOnce.1 = "\\d".toList ∧ atOnce.2.calls = [(.index 26, 3)] := by
  decide

end Pattern

end RandomCodes
