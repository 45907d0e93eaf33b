import RandomCodes.Pattern.Stage
import RandomCodes.Proofs.Pattern.QuantifierReading
/-!
# Reading spans, repetitions and shorthands

Each pass of an expansion is a pass of a reader. What the readers of the passes read at a construct
is said here, and that they read nothing where no construct of their kind begins.
-/

namespace RandomCodes.Pattern

variable {α : Type}

namespace Bracketed

/-- A span whose body has no stop in it ends behind the body. -/
theorem reader_span
    (bracketed : Bracketed α) {stops : List Char} {body : Text} {close : Char}
    (free : ∀ symbol ∈ body, symbol ∉ stops) (closes : close ∈ stops) (rest : Text) :
    bracketed.attempt.reader { stops } (bracketed.opening :: (body ++ close :: rest)) =
      (bracketed.accept { position := 1, rest := body ++ close :: rest }
        { symbol := close, position := 1 + body.length, after := rest }).map
          fun (value, next) => (value, next.position) := by
  rw [reader_opening, firstStop_append free, firstStop_cons_of_mem closes, Option.bind_some]

end Bracketed

/-- The text of a span in brackets, the closing one included. -/
theorem Cursor.textTo_next (body after : Text) (close : Char) (position : Nat) :
    Cursor.textTo { position, rest := body ++ close :: after }
      (Stop.next { symbol := close, position := position + body.length, after }) =
        body ++ [close] := by
  have length : position + body.length + 1 - position = (body ++ [close]).length := by
    rw [List.length_append, List.length_singleton]
    omega
  have joined : body ++ close :: after = (body ++ [close]) ++ after :=
    List.append_cons body close after
  simp only [textTo, Stop.next]
  rw [length, joined, List.take_left]

/-- The spans from `opening` to the next stop, with something in between: groups and classes. -/
def enclosed (opening : Char) : Bracketed Text where
  opening := opening
  accept body stop :=
    if stop.position = body.position then none
    else some (opening :: body.textTo stop.next, stop.next)

/-- Reads a span from `opening` to the next `close` with a quantifier behind it. -/
def repeatedReader (opening close : Char) (kind : AtomKind) : Reader Repetition :=
  ((enclosed opening).repeated kind).attempt.reader { stops := [close] }

section RepeatedReader

variable {opening close : Char} {kind : AtomKind}

theorem repeatedReader_of_ne {symbol : Char} (other : symbol ≠ opening) (rest : Text) :
    repeatedReader opening close kind (symbol :: rest) = none :=
  Bracketed.reader_of_ne _ _ other rest

theorem repeatedReader_span {body : Text} (free : close ∉ body) (rest : Text) :
    repeatedReader opening close kind (opening :: (body ++ close :: rest)) =
      (((enclosed opening).repeated kind).accept { position := 1, rest := body ++ close :: rest }
        { symbol := close, position := 1 + body.length, after := rest }).map
          fun (value, next) => (value, next.position) := by
  have inside : ∀ symbol ∈ body, symbol ∉ [close] := by
    intro symbol member closes
    exact free (List.mem_singleton.mp closes ▸ member)
  exact Bracketed.reader_span _ inside (List.mem_singleton.mpr rfl) rest

theorem repeatedReader_unquantified
    {body rest : Text} (free : close ∉ body) (unquantified : rest.head? ≠ some '{') :
    repeatedReader opening close kind (opening :: (body ++ close :: rest)) = none := by
  rw [repeatedReader_span free]
  simp only [Bracketed.repeated, Stop.next, Quantifier.recogniser_of_head?_ne unquantified]
  rfl

theorem repeatedReader_quantified
    {body : Text} (nonempty : body ≠ []) (free : close ∉ body) (bounds : Bounds) (rest : Text) :
    repeatedReader opening close kind (opening :: (body ++ close :: (bounds.text ++ rest))) =
      some ({ kind, atom := opening :: (body ++ [close]), quantifier := bounds.quantifier },
        (opening :: (body ++ close :: bounds.text)).length) := by
  have length : body.length ≠ 0 := fun zero => nonempty (List.length_eq_zero_iff.mp zero)
  have span := Cursor.textTo_next body (bounds.text ++ rest) close 1
  have taken : 1 + body.length ≠ 1 := by omega
  rw [repeatedReader_span free]
  simp only [Bracketed.repeated, enclosed, Stop.next, bounds.recogniser_read, bind, Option.bind]
    at span ⊢
  rw [if_neg taken, span]
  simp only [pure, Option.map_some, List.length_cons, List.length_append, Option.some.injEq,
    Prod.mk.injEq, true_and]
  omega

end RepeatedReader

/-- Reads a single character, escaped or not, with a quantifier behind it. -/
def singleReader : Reader Repetition := fun text =>
  (repeatedSingle (Cursor.start text)).map fun (value, next) => (value, next.position)

theorem repeatedSingle_eq (cursor : Cursor) :
    repeatedSingle cursor =
      (repeatedAtom escapedChar cursor).or (repeatedAtom plainChar cursor) := by
  show (repeatedAtom escapedChar cursor <|> repeatedAtom plainChar cursor) = _
  cases repeatedAtom escapedChar cursor <;> rfl

theorem repeatedAtom_of_eq_none
    {atom : Recogniser Text} {cursor : Cursor} (refused : atom cursor = none) :
    repeatedAtom atom cursor = none := by
  simp only [repeatedAtom, bind, StateT.bind, refused]
  rfl

theorem repeatedAtom_escapedChar_of_ne
    {symbol : Char} (noEscape : symbol ≠ '\\') (position : Nat) (rest : Text) :
    repeatedAtom escapedChar { position, rest := symbol :: rest } = none := by
  have other : (symbol :: rest).head? ≠ some '\\' := by simpa using noEscape
  exact repeatedAtom_of_eq_none (Recogniser.char_bind_of_head?_ne other _ position)

theorem repeatedAtom_of_eq_some
    {atom : Recogniser Text} {cursor next : Cursor} {text : Text}
    (read : atom cursor = some (text, next)) :
    repeatedAtom atom cursor =
      (Quantifier.recogniser next).map fun (quantifier, behind) =>
        ({ kind := .single, atom := text, quantifier }, behind) := by
  rw [repeatedAtom, Recogniser.bind_of_eq_some read]
  simp only [bind, StateT.bind]
  cases Quantifier.recogniser next <;> rfl

theorem plainChar_read
    {symbol : Char} (sameLine : symbol ≠ '\n') (position : Nat) (rest : Text) :
    plainChar { position, rest := symbol :: rest } =
      some ([symbol], { position := position + 1, rest }) := by
  have passed : (guard (symbol ≠ '\n') : Recogniser Unit) = pure () := if_pos sameLine
  show ((guard (symbol ≠ '\n') : Recogniser Unit) >>= fun _ => pure [symbol]) _ = _
  rw [passed]
  rfl

theorem escapedChar_read
    {symbol : Char} (sameLine : symbol ≠ '\n') (position : Nat) (rest : Text) :
    escapedChar { position, rest := '\\' :: symbol :: rest } =
      some (['\\', symbol], { position := position + 2, rest }) := by
  rw [escapedChar, Recogniser.bind_of_eq_some (Recogniser.char_cons_self _ _ _)]
  have passed : (guard (symbol ≠ '\n') : Recogniser Unit) = pure () := if_pos sameLine
  show ((guard (symbol ≠ '\n') : Recogniser Unit) >>= fun _ => pure ['\\', symbol]) _ = _
  rw [passed]
  rfl

theorem singleReader_unquantified
    {symbol : Char} (noEscape : symbol ≠ '\\') (sameLine : symbol ≠ '\n') {rest : Text}
    (unquantified : rest.head? ≠ some '{') :
    singleReader (symbol :: rest) = none := by
  rw [singleReader, Cursor.start, repeatedSingle_eq, repeatedAtom_escapedChar_of_ne noEscape,
    repeatedAtom_of_eq_some (plainChar_read sameLine _ _),
    Quantifier.recogniser_of_head?_ne unquantified]
  rfl

theorem singleReader_quantified
    {symbol : Char} (noEscape : symbol ≠ '\\') (sameLine : symbol ≠ '\n') (bounds : Bounds)
    (rest : Text) :
    singleReader (symbol :: (bounds.text ++ rest)) =
      some ({ kind := .single, atom := [symbol], quantifier := bounds.quantifier },
        (symbol :: bounds.text).length) := by
  rw [singleReader, Cursor.start, repeatedSingle_eq, repeatedAtom_escapedChar_of_ne noEscape,
    repeatedAtom_of_eq_some (plainChar_read sameLine _ _), bounds.recogniser_read]
  simp [Nat.add_comm]

/-- A backslash in front of a character that is not repeated is not repeated either. -/
theorem singleReader_escape_unquantified
    {symbol : Char} (sameLine : symbol ≠ '\n') (noBrace : symbol ≠ '{') {rest : Text}
    (unquantified : rest.head? ≠ some '{') :
    singleReader ('\\' :: symbol :: rest) = none := by
  have next : (symbol :: rest).head? ≠ some '{' := by simpa using noBrace
  rw [singleReader, Cursor.start, repeatedSingle_eq,
    repeatedAtom_of_eq_some (escapedChar_read sameLine _ _),
    Quantifier.recogniser_of_head?_ne unquantified,
    repeatedAtom_of_eq_some (plainChar_read (by decide) _ _),
    Quantifier.recogniser_of_head?_ne next]
  rfl

theorem singleReader_escape_quantified
    {symbol : Char} (sameLine : symbol ≠ '\n') (bounds : Bounds) (rest : Text) :
    singleReader ('\\' :: symbol :: (bounds.text ++ rest)) =
      some ({ kind := .single, atom := ['\\', symbol], quantifier := bounds.quantifier },
        ('\\' :: symbol :: bounds.text).length) := by
  rw [singleReader, Cursor.start, repeatedSingle_eq,
    repeatedAtom_of_eq_some (escapedChar_read sameLine _ _),
    bounds.recogniser_read]
  simp only [Option.map_some, Option.some_or, List.length_cons, Option.some.injEq,
    Prod.mk.injEq, true_and]
  omega

def alternationReader : Reader Text :=
  Alternation.body.attempt.reader { stops := Alternation.stops }

theorem alternationReader_of_ne {symbol : Char} (other : symbol ≠ '(') (rest : Text) :
    alternationReader (symbol :: rest) = none :=
  Bracketed.reader_of_ne _ _ other rest

theorem alternationReader_span
    {body : Text} (free : ∀ symbol ∈ body, symbol ∉ Alternation.stops) (rest : Text) :
    alternationReader ('(' :: (body ++ ')' :: rest)) = some (body, body.length + 2) := by
  have closes : ')' ∈ Alternation.stops := by decide
  have span := Alternation.body.reader_span free closes rest
  apply span.trans
  simp only [Alternation.body, Stop.next, if_true, Option.map_some]
  simp
  omega

def classBodyReader : Reader Text :=
  CharacterClass.body.attempt.reader { stops := CharacterClass.stops }

theorem classBodyReader_of_ne {symbol : Char} (other : symbol ≠ '[') (rest : Text) :
    classBodyReader (symbol :: rest) = none :=
  Bracketed.reader_of_ne _ _ other rest

theorem classBodyReader_opening (rest : Text) :
    classBodyReader ('[' :: rest) =
      ((firstStop CharacterClass.stops { position := 1, rest }).bind
        (CharacterClass.body.accept { position := 1, rest })).map
          fun (value, next) => (value, next.position) :=
  Bracketed.reader_opening CharacterClass.body CharacterClass.stops rest

theorem classBodyReader_span
    {body : Text} (nonempty : body ≠ []) (free : ']' ∉ body) (rest : Text) :
    classBodyReader (('[' :: (body ++ [']'])) ++ rest) =
      some (body, ('[' :: (body ++ [']'])).length) := by
  have inside : ∀ symbol ∈ body, symbol ∉ CharacterClass.stops := by
    intro symbol member closes
    exact free (List.mem_singleton.mp closes ▸ member)
  have length : body.length ≠ 0 := fun zero => nonempty (List.length_eq_zero_iff.mp zero)
  have joined : ('[' :: (body ++ [']'])) ++ rest = '[' :: (body ++ ']' :: rest) := by simp
  have span := CharacterClass.body.reader_span inside (List.mem_singleton.mpr rfl) rest
  rw [joined]
  apply span.trans
  simp only [CharacterClass.body, Stop.next]
  rw [if_neg (by omega)]
  simp
  omega

def shorthandReader (shorthand : Shorthand) : Reader Unit :=
  (Shorthand.recogniser shorthand.symbol).attempt.reader ()

theorem shorthandReader_of_ne
    (shorthand : Shorthand) {symbol : Char} (noEscape : symbol ≠ '\\') (rest : Text) :
    shorthandReader shorthand (symbol :: rest) = none := by
  have other : (symbol :: rest).head? ≠ some '\\' := by simpa using noEscape
  simp only [shorthandReader, Attempt.reader, Recogniser.attempt, Shorthand.recogniser,
    Cursor.start, Recogniser.char_bind_of_head?_ne other]
  rfl

theorem shorthandReader_escape_of_ne
    {shorthand : Shorthand} {symbol : Char} (other : symbol ≠ shorthand.symbol) (rest : Text) :
    shorthandReader shorthand ('\\' :: symbol :: rest) = none := by
  have next : (symbol :: rest).head? ≠ some shorthand.symbol := by simpa using other
  simp only [shorthandReader, Attempt.reader, Recogniser.attempt, Shorthand.recogniser,
    Cursor.start, Recogniser.bind_of_eq_some (Recogniser.char_cons_self _ _ _),
    Recogniser.char_of_head?_ne next]
  rfl

theorem shorthandReader_read (shorthand : Shorthand) (rest : Text) :
    shorthandReader shorthand ('\\' :: shorthand.symbol :: rest) = some ((), 2) := by
  simp only [shorthandReader, Attempt.reader, Recogniser.attempt, Shorthand.recogniser,
    Cursor.start, Recogniser.bind_of_eq_some (Recogniser.char_cons_self _ _ _),
    Recogniser.char_cons_self]
  rfl

end RandomCodes.Pattern
