import RandomCodes.Proofs.Outcomes
import RandomCodes.Proofs.Pattern.EscapeParity
import RandomCodes.Proofs.Pattern.QuantifierExpansion
/-!
# Drafts

A draft is a text with a record of what has been done to it: which characters are still those of the
text as it was, and which spans of it have been replaced, each with the word that stands there now.
The passes are told here once more as they go along a text, the word for a span being drawn before
anything behind the span is read. What they write is what the passes give, and the draft says in
addition where it comes from.
-/

namespace RandomCodes.Pattern

variable {α Memory : Type} {m : Type → Type} [Monad m] [LawfulMonad m]

/-- The parts of a text in order, a replaced span with the word in its place. -/
abbrev Draft := List (Piece Text)

namespace Draft

/-- The text as it stands now. -/
def text (draft : Draft) : Text :=
  draft.flatMap fun
    | .copied symbol => [symbol]
    | .found _ word => word

/-- The text as it was. -/
def original (draft : Draft) : Text :=
  draft.flatMap Piece.source

/-- Which characters are kept and which spans are replaced, in order, without the words. -/
def outline (draft : Draft) : List (Piece Unit) :=
  draft.map fun
    | .copied symbol => .copied symbol
    | .found span _ => .found span ()

/-- A text to which nothing has been done yet. -/
def fresh (text : Text) : Draft :=
  text.map .copied

@[simp]
theorem text_nil : text [] = [] := rfl

@[simp]
theorem text_copied (symbol : Char) (rest : Draft) :
    text (.copied symbol :: rest) = symbol :: text rest := rfl

@[simp]
theorem text_found (span word : Text) (rest : Draft) :
    text (.found span word :: rest) = word ++ text rest := rfl

theorem text_fresh (written : Text) : (fresh written).text = written := by
  simp [text, fresh, List.flatMap_map]

theorem original_fresh (written : Text) : (fresh written).original = written := by
  simp [original, fresh, List.flatMap_map, Piece.source]

/-- What stood in the text can be told from the outline. -/
theorem original_eq_of_outline_eq
    {first second : Draft} (same : first.outline = second.outline) :
    first.original = second.original := by
  have read : ∀ draft : Draft, draft.original = draft.outline.flatMap Piece.source := by
    intro draft
    rw [outline, List.flatMap_map, original]
    congr 1
    funext piece
    cases piece <;> rfl
  rw [read, read, same]

end Draft

/-- Goes along a text at `position`; the next `skip` characters belong to a span that has been
replaced. Where the attempt reads something, the word for it is drawn before the pass goes on. -/
def Attempt.draftFrom
    (attempt : Attempt Memory α) (replacement : α → m Text) (memory : Memory)
    (position skip : Nat) : Text → m Draft
  | [] => pure []
  | symbol :: rest =>
      match skip with
      | skip + 1 => attempt.draftFrom replacement memory (position + 1) skip rest
      | 0 =>
          let here : Cursor := { position, rest := symbol :: rest }
          match attempt here memory with
          | (some (value, next), memory) => do
              let word ← replacement value
              let others ← attempt.draftFrom replacement memory (position + 1)
                (next.position - (position + 1)) rest
              return .found (here.textTo next) word :: others
          | (none, memory) => do
              let others ← attempt.draftFrom replacement memory (position + 1) 0 rest
              return .copied symbol :: others

def Attempt.draft
    (attempt : Attempt Memory α) (replacement : α → m Text) (memory : Memory) (text : Text) :
    m Draft :=
  attempt.draftFrom replacement memory 0 0 text

/-- What is drafted for a piece. -/
def Piece.drafted (replacement : α → m Text) : Piece α → m (Piece Text)
  | .copied symbol => pure (.copied symbol)
  | .found span value => .found span <$> replacement value

/-- Drawing while reading is reading first and drawing then. -/
theorem Attempt.draft_eq_mapM
    (attempt : Attempt Memory α) (replacement : α → m Text) (memory : Memory) (text : Text) :
    attempt.draft replacement memory text =
      (pieces attempt memory text).mapM (Piece.drafted replacement) := by
  suffices along : ∀ memory position skip, attempt.draftFrom replacement memory position skip text =
      (pieces.go attempt memory position skip [] text).mapM (Piece.drafted replacement) from
    along memory 0 0
  clear memory
  intro memory position skip
  induction text generalizing memory position skip with
  | nil => simp [draftFrom, pieces.go]
  | cons symbol rest inductionHypothesis =>
      cases skip with
      | succ skip => exact inductionHypothesis memory (position + 1) skip
      | zero =>
          simp only [draftFrom, pieces.go]
          cases attempt { position, rest := symbol :: rest } memory with
          | mk result memory =>
              cases result with
              | none =>
                  simp only [pieces.go_eq attempt memory _ _ [_], inductionHypothesis]
                  simp [Piece.drafted]
              | some found =>
                  simp only [pieces.go_eq attempt memory _ _ [_], inductionHypothesis]
                  simp [Piece.drafted]

theorem text_mapM_drafted (replacement : α → m Text) (pieces : List (Piece α)) :
    Draft.text <$> pieces.mapM (Piece.drafted replacement) = render replacement pieces := by
  induction pieces with
  | nil => simp
  | cons piece rest inductionHypothesis =>
      cases piece with
      | copied symbol =>
          rw [render_copied, ← inductionHypothesis]
          simp [Piece.drafted]
      | found span value =>
          rw [render_found, ← inductionHypothesis]
          simp [Piece.drafted]

namespace Draft

/-- Goes along a draft, `escaped` saying whether the first character of its text is escaped. A kept
character that is an unescaped `marker` is replaced, and so is any in a word. -/
def replaceFrom (marker : Char) (replacement : m Text) : Bool → Draft → m Draft
  | _, [] => pure []
  | escaped, .copied symbol :: rest =>
      if symbol = marker ∧ escaped = false then do
        let word ← replacement
        let others ← replaceFrom marker replacement false rest
        return .found [symbol] word :: others
      else do
        let others ← replaceFrom marker replacement (escapesNext escaped symbol) rest
        return .copied symbol :: others
  | escaped, .found span word :: rest => do
      let rewritten ← Pattern.replaceFrom marker replacement escaped word
      let others ← replaceFrom marker replacement (word.foldl escapesNext escaped) rest
      return .found span rewritten :: others

/-- On the text of the draft, this is replacing what is not escaped. -/
theorem text_replaceFrom
    {marker : Char} (noEscape : marker ≠ '\\') (replacement : m Text) (escaped : Bool)
    (draft : Draft) :
    text <$> replaceFrom marker replacement escaped draft =
      Pattern.replaceFrom marker replacement escaped draft.text := by
  induction draft generalizing escaped with
  | nil => simp [replaceFrom]
  | cons piece rest inductionHypothesis =>
      cases piece with
      | copied symbol =>
          rw [text_copied, replaceFrom]
          split
          · rename_i free
            obtain ⟨rfl, rfl⟩ := free
            rw [replaceFrom_marker, ← inductionHypothesis]
            simp
          · rename_i kept
            have kept : symbol = marker → escaped = true := fun same => by
              simpa [same] using kept
            rw [replaceFrom_cons_of_kept kept, ← inductionHypothesis]
            simp
      | found span word =>
          rw [text_found, replaceFrom, replaceFrom_append noEscape, ← inductionHypothesis]
          simp

/-- Writes the markers of a list out, one kind after the other. -/
def expand (markers : List Marker) (draft : Draft) : Draws Draft :=
  markers.foldlM (fun draft marker =>
    draft.replaceFrom marker.symbol (Quantifier.toText <$> marker.quantifier) false) draft

theorem text_expand (markers : List Marker) (draft : Draft) :
    text <$> draft.expand markers =
      markers.foldlM (fun text marker => marker.expand text) draft.text := by
  induction markers generalizing draft with
  | nil => simp [expand]
  | cons marker markers inductionHypothesis =>
      have first := text_replaceFrom marker.symbol_ne_escape
        (Quantifier.toText <$> marker.quantifier) false draft
      simp only [expand] at inductionHypothesis
      simp only [expand, List.foldlM_cons, map_bind, inductionHypothesis]
      rw [Marker.expand, replaceUnescaped_eq_replaceFrom, ← first, bind_map_left]

end Draft

/-- A pass that draws: one for all markers, one for each kind of atom, and those for alternations,
classes and wildcards. -/
inductive Pass where
  | markers
  | repetitions (kind : AtomKind)
  | alternations
  | classes
  | wildcards
deriving DecidableEq, Repr

namespace Pass

def apply : Pass → Text → Draws Text
  | markers, text => expandMarkers text
  | repetitions kind, text => kind.repeatAll text
  | alternations, text => resolveAlternation text
  | classes, text => resolveClasses text
  | wildcards, text => resolveWildcards text

/-- The pass, with a record of what it keeps and what it replaces. -/
def draft : Pass → Text → Draws Draft
  | markers, text => (Draft.fresh text).expand Marker.all
  | repetitions kind, text =>
      kind.attempt.draft Repetition.copies { stops := kind.stops } text
  | alternations, text =>
      Alternation.body.attempt.draft Alternation.choose { stops := Alternation.stops } text
  | classes, text =>
      CharacterClass.body.attempt.draft CharacterClass.choose
        { stops := CharacterClass.stops } text
  | wildcards, text =>
      (Draft.fresh text).replaceFrom '.' (return [← Wildcard.draw]) false

end Pass

theorem Attempt.text_draft
    (attempt : Attempt Memory α) (replacement : α → m Text) (memory : Memory) (text : Text) :
    Draft.text <$> attempt.draft replacement memory text =
      render replacement (pieces attempt memory text) := by
  rw [draft_eq_mapM, text_mapM_drafted]

/-- What a pass writes down as the text of its draft is what it gives. -/
theorem Pass.text_draft (pass : Pass) (text : Text) :
    Draft.text <$> pass.draft text = pass.apply text := by
  cases pass with
  | markers =>
      have passes := (Draft.fresh text).text_expand Marker.all
      rwa [Draft.text_fresh] at passes
  | repetitions kind => exact Attempt.text_draft _ _ _ text
  | alternations => exact Attempt.text_draft _ _ _ text
  | classes => exact Attempt.text_draft _ _ _ text
  | wildcards =>
      have noEscape : '.' ≠ '\\' := by decide
      have replaced := Draft.text_replaceFrom noEscape (return [← Wildcard.draw]) false (.fresh text)
      rwa [Draft.text_fresh] at replaced

/-- Both pieces keep the same character, or both replace the same span by some word. -/
inductive Piece.Alike (Word : Text → Prop) : Piece Text → Piece Text → Prop
  | copied (symbol : Char) : Alike Word (.copied symbol) (.copied symbol)
  | found (span : Text) {word other : Text} :
      Word word → Word other → Alike Word (.found span word) (.found span other)

/-- The drafts keep the same characters and replace the same spans by words, which may differ. -/
abbrev Draft.Alike (Word : Text → Prop) : Draft → Draft → Prop :=
  List.Forall₂ (Piece.Alike Word)

namespace Draft

variable {Word : Text → Prop} {first second : Draft}

theorem alike_fresh (written : Text) : Alike Word (fresh written) (fresh written) := by
  induction written with
  | nil => exact .nil
  | cons symbol rest inductionHypothesis => exact .cons (.copied symbol) inductionHypothesis

theorem Alike.outline_eq (alike : Alike Word first second) : first.outline = second.outline := by
  induction alike with
  | nil => rfl
  | cons pieces _ inductionHypothesis =>
      rw [outline, outline, List.map_cons, List.map_cons]
      cases pieces <;> exact congrArg _ inductionHypothesis

/-- A word that a pass for `marker` reads without a change and that escapes nothing behind it. -/
structure Quiet (marker : Char) (word : Text) : Prop where
  nonempty : word ≠ []
  noEscape : '\\' ∉ word
  absent : marker ∉ word

/-- If the words in two drafts are quiet, replacing what is not escaped asks the same of both. -/
theorem Alike.replaceFrom
    {marker : Char} {After : Text → Prop} {replacement : Draws Text}
    (quiet : ∀ word, Word word → Quiet marker word) (kept : ∀ word, Word word → After word)
    (written : Draws.Alike (fun word other => After word ∧ After other) replacement replacement)
    (alike : Alike Word first second) (escaped : Bool) :
    Draws.Alike (fun result other => Alike After result other ∧ result.original = first.original)
      (first.replaceFrom marker replacement escaped)
      (second.replaceFrom marker replacement escaped) := by
  induction alike generalizing escaped with
  | nil => exact .done ⟨.nil, rfl⟩
  | cons pieces _ inductionHypothesis =>
      cases pieces with
      | copied symbol =>
          rw [Draft.replaceFrom, Draft.replaceFrom]
          split
          · refine written.bind fun word other words => ?_
            refine (inductionHypothesis false).bind fun result others later => ?_
            exact .done ⟨.cons (.found _ words.1 words.2) later.1, congrArg (symbol :: ·) later.2⟩
          · refine (inductionHypothesis _).bind fun result others later => ?_
            exact .done ⟨.cons (.copied symbol) later.1, congrArg (symbol :: ·) later.2⟩
      | found span word other =>
          -- Nothing is asked for in the words, and whatever they are, they escape nothing behind.
          have inWord := quiet _ word
          have inOther := quiet _ other
          rw [Draft.replaceFrom, Draft.replaceFrom, replaceFrom_of_not_mem inWord.absent,
            replaceFrom_of_not_mem inOther.absent,
            foldl_escapesNext_of_ne_nil inWord.nonempty inWord.noEscape,
            foldl_escapesNext_of_ne_nil inOther.nonempty inOther.noEscape, pure_bind, pure_bind]
          refine (inductionHypothesis false).bind fun result others later => ?_
          exact .done ⟨.cons (.found span (kept _ word) (kept _ other)) later.1,
            congrArg (span ++ ·) later.2⟩

end Draft

/-! ## What the passes ask -/

/-- The two drafts have the same outline, which is one of the text. -/
def Draft.SameOutline (text : Text) (first second : Draft) : Prop :=
  first.outline = second.outline ∧ first.original = text

/-- Drawing for one piece after the other asks the same from every source, if the program for one
piece does. -/
theorem alike_mapM_drafted
    {replacement : α → Draws Text}
    (each : ∀ value, Draws.Alike (fun _ _ => True) (replacement value) (replacement value))
    (pieces : List (Piece α)) :
    Draws.Alike
      (fun first second => Draft.Alike (fun _ => True) first second ∧
        first.original = pieces.flatMap Piece.source)
      (pieces.mapM (Piece.drafted replacement)) (pieces.mapM (Piece.drafted replacement)) := by
  induction pieces with
  | nil => exact .done ⟨.nil, rfl⟩
  | cons piece rest inductionHypothesis =>
      have drawn : Draws.Alike
          (fun first second => Piece.Alike (fun _ => True) first second ∧
            first.source = piece.source)
          (piece.drafted replacement) (piece.drafted replacement) := by
        cases piece with
        | copied symbol => exact .done ⟨.copied symbol, rfl⟩
        | found span value =>
            exact (each value).map fun _ _ _ => ⟨.found span trivial trivial, rfl⟩
      rw [List.mapM_cons]
      refine drawn.bind fun first second here => ?_
      refine inductionHypothesis.bind fun others more later => ?_
      refine .done ⟨.cons here.1 later.1, ?_⟩
      rw [Draft.original, List.flatMap_cons, List.flatMap_cons, here.2]
      exact congrArg _ later.2

theorem Attempt.alike_draft
    {replacement : α → Draws Text}
    (each : ∀ value, Draws.Alike (fun _ _ => True) (replacement value) (replacement value))
    (attempt : Attempt Memory α) (memory : Memory) {text : Text}
    (whole : (pieces attempt memory text).flatMap Piece.source = text) :
    Draws.Alike (Draft.SameOutline text) (attempt.draft replacement memory text)
      (attempt.draft replacement memory text) := by
  rw [draft_eq_mapM]
  exact (alike_mapM_drafted each _).mono fun _ _ both =>
    ⟨both.1.outline_eq, both.2.trans whole⟩

/-- A quantifier as the passes for markers write it. -/
def Quantifier.Written (word : Text) : Prop :=
  ∃ quantifier : Quantifier, word = quantifier.toText

theorem Quantifier.Written.quiet (marker : Marker) (word : Text) (written : Written word) :
    Draft.Quiet marker.symbol word := by
  obtain ⟨quantifier, rfl⟩ := written
  refine ⟨List.cons_ne_nil _ _, quantifier.not_mem_toText (by decide) (by decide), ?_⟩
  exact quantifier.not_mem_toText (by cases marker <;> decide) (by cases marker <;> decide)

theorem Marker.alike_quantifier (marker : Marker) :
    Draws.Alike (fun word other => Quantifier.Written word ∧ Quantifier.Written other)
      (Quantifier.toText <$> marker.quantifier) (Quantifier.toText <$> marker.quantifier) := by
  have drawn : Draws.Alike (fun _ _ => True) marker.quantifier marker.quantifier := by
    cases marker with
    | optional => exact .done trivial
    | zeroOrMore => exact (Draws.Alike.between _ _).bind fun _ _ _ => .done trivial
    | oneOrMore => exact (Draws.Alike.between _ _).bind fun _ _ _ => .done trivial
  exact drawn.map fun _ _ _ => ⟨⟨_, rfl⟩, ⟨_, rfl⟩⟩

/-- The drafts that one marker leaves differ in the bounds only, which the next one passes over. -/
theorem alike_markers
    (markers : List Marker) {first second : Draft}
    (alike : Draft.Alike Quantifier.Written first second) :
    Draws.Alike
      (fun result other => Draft.Alike Quantifier.Written result other ∧
        result.original = first.original)
      (first.expand markers) (second.expand markers) := by
  induction markers generalizing first second with
  | nil => exact .done ⟨alike, rfl⟩
  | cons marker markers inductionHypothesis =>
      have step := alike.replaceFrom (Quantifier.Written.quiet marker) (fun _ => id)
        marker.alike_quantifier false
      rw [Draft.expand, Draft.expand, List.foldlM_cons, List.foldlM_cons]
      refine step.bind fun result other passed => ?_
      exact (inductionHypothesis passed.1).mono fun _ _ later =>
        ⟨later.1, later.2.trans passed.2⟩

theorem Pass.alike_draft (pass : Pass) (text : Text) :
    Draws.Alike (Draft.SameOutline text) (pass.draft text) (pass.draft text) := by
  cases pass with
  | markers =>
      have passes := alike_markers Marker.all (Draft.alike_fresh text)
      rw [Draft.original_fresh] at passes
      exact passes.mono fun _ _ both => ⟨both.1.outline_eq, both.2⟩
  | repetitions kind =>
      have copies : ∀ repetition : Repetition,
          Draws.Alike (fun _ _ => True) repetition.copies repetition.copies := fun repetition =>
        (Draws.Alike.between _ _).bind fun _ _ _ => .done trivial
      exact Attempt.alike_draft copies _ _ (kind.composes_pieces text).source
  | alternations =>
      have choose : ∀ body, Draws.Alike (fun _ _ => True) (Alternation.choose body)
          (Alternation.choose body) := fun body =>
        (Draws.Alike.sample? _).bind fun _ _ _ => .done trivial
      exact Attempt.alike_draft choose _ _ (composes_alternations text).source
  | classes =>
      have choose : ∀ body, Draws.Alike (fun _ _ => True) (CharacterClass.choose body)
          (CharacterClass.choose body) := fun body =>
        (Draws.Alike.sample? _).bind fun _ _ _ => .done trivial
      exact Attempt.alike_draft choose _ _ (composes_classes text).source
  | wildcards =>
      have drawn : Draws.Alike (fun _ _ => True ∧ True) (do return [← Wildcard.draw] : Draws Text)
          (do return [← Wildcard.draw]) := by
        have symbol : Draws.Alike (fun _ _ => True) Wildcard.draw Wildcard.draw :=
          (Draws.Alike.index _).bind fun _ _ _ => .done trivial
        exact symbol.bind fun _ _ _ => .done ⟨trivial, trivial⟩
      have nothing : ∀ word : Text, False → Draft.Quiet '.' word := fun _ => False.elim
      have passes := (Draft.alike_fresh text).replaceFrom nothing (fun _ => False.elim) drawn false
      rw [Draft.original_fresh] at passes
      exact passes.mono fun _ _ both => ⟨both.1.outline_eq, both.2⟩

/-- From any two sources, in any two states, a pass over the same text asks the same questions in
the same order, keeps the same characters of the text and replaces the same spans of it; what it
gives is the text with the words for these spans in their places. -/
theorem passes_ask_alike
    (pass : Pass) (text : Text) {State Other : Type} (source : Source State) (state : State)
    (other : Source Other) (otherState : Other) :
    let (first, recording) := (pass.draft text).run source.recorded { state }
    let (second, otherRecording) := (pass.draft text).run other.recorded { state := otherState }
    recording.calls.map Prod.fst = otherRecording.calls.map Prod.fst ∧
      first.outline = second.outline ∧ first.original = text ∧ second.original = text ∧
      (pass.apply text).run source.recorded { state } = (first.text, recording) ∧
      (pass.apply text).run other.recorded { state := otherState } =
        (second.text, otherRecording) := by
  obtain ⟨⟨outlines, whole⟩, questions⟩ :=
    (pass.alike_draft text).run source other { state } { state := otherState } rfl
  have otherWhole := (Draft.original_eq_of_outline_eq outlines).symm.trans whole
  refine ⟨questions, outlines, whole, otherWhole, ?_, ?_⟩
  · rw [← pass.text_draft, map_eq_pure_bind, Draws.run_bind]
    rfl
  · rw [← pass.text_draft, map_eq_pure_bind, Draws.run_bind]
    rfl

end RandomCodes.Pattern
