import RandomCodes.Text.Basic
/-!
# Passes over a text

A cursor is a place in a text. A recogniser looks at the text from a cursor on and either reads a
construct there, which moves the cursor past it, or refuses.

A span in brackets ends at the first stop character after its opening. A stop finder answers such
searches and keeps its latest result, so that trying every place of a text costs one walk over it:
a stop is good for every place up to it, and a text without one stays without one.

A pass tries a recogniser at every place from left to right. Where it reads something, the span is
set aside with the value read and the pass goes on behind it; otherwise one character is copied.
What the pieces of a text are is settled before any of them is replaced, so replacement text is
never looked at by the same pass.
-/

namespace RandomCodes.Pattern

/-- A place in a text. -/
structure Cursor where
  position : Nat
  rest : Text
deriving DecidableEq, Repr

namespace Cursor

/-- The place before the first character. -/
def start (text : Text) : Cursor :=
  { position := 0, rest := text }

/-- The place `count` characters further on. -/
def advance (cursor : Cursor) (count : Nat) : Cursor :=
  { position := cursor.position + count, rest := cursor.rest.drop count }

/-- The text between a cursor and one further along the same text. -/
def textTo (cursor stop : Cursor) : Text :=
  cursor.rest.take (stop.position - cursor.position)

end Cursor

/-- Reads a construct at a cursor, or refuses. -/
abbrev Recogniser := StateT Cursor Option

namespace Recogniser

/-- Any one character. -/
def anyChar : Recogniser Char := fun cursor =>
  match cursor.rest with
  | [] => none
  | symbol :: rest => some (symbol, { position := cursor.position + 1, rest })

def char (expected : Char) : Recogniser Unit := fun cursor =>
  match cursor.rest with
  | [] => none
  | symbol :: rest =>
      if symbol = expected then some ((), { position := cursor.position + 1, rest }) else none

/-- The longest run of decimal digits, which has at least one. -/
def digits : Recogniser Text := fun cursor =>
  match cursor.rest.takeWhile Char.isDigit with
  | [] => none
  | digit :: run => some (digit :: run, cursor.advance (digit :: run).length)

/-- The greatest number that is told apart; anything above it counts as this number. -/
def greatestNumber : Nat := UInt64.size - 1

def number : Recogniser Nat := do
  return min (Text.digitsValue (← digits)) greatestNumber

end Recogniser

structure Stop where
  symbol : Char
  position : Nat
  after : Text
deriving DecidableEq, Repr

def Stop.next (stop : Stop) : Cursor :=
  { position := stop.position + 1, rest := stop.after }

/-- The first stop at or after a place. -/
def firstStop (stops : List Char) (cursor : Cursor) : Option Stop :=
  go cursor.position cursor.rest
where
  /-- Walks along the text, keeping count of the position. -/
  go (position : Nat) : Text → Option Stop
    | [] => none
    | symbol :: after =>
        if stops.contains symbol then some { symbol, position, after }
        else go (position + 1) after

/-- A search that has been made. -/
structure Search where
  start : Nat
  found : Option Stop
deriving DecidableEq, Repr

/-- A search covers the places from its beginning up to the stop that it found, or all of them. -/
def Search.covers (search : Search) (position : Nat) : Bool :=
  search.start ≤ position &&
    match search.found with
    | some stop => position ≤ stop.position
    | none => true

/-- Finds stops in one text, keeping the latest search. -/
structure StopFinder where
  stops : List Char
  latest : Option Search := none
deriving DecidableEq, Repr

namespace StopFinder

/-- Searches anew from a place, and keeps the result. -/
def search (finder : StopFinder) (cursor : Cursor) : Option Stop × StopFinder :=
  let found := firstStop finder.stops cursor
  (found, { finder with latest := some { start := cursor.position, found } })

/-- The first stop at or after a place, by the latest search where that covers the place. -/
def find (finder : StopFinder) (cursor : Cursor) : Option Stop × StopFinder :=
  match finder.latest with
  | some latest =>
      if latest.covers cursor.position then (latest.found, finder) else finder.search cursor
  | none => finder.search cursor

end StopFinder

variable {α Memory : Type}

/-- A part of a text after a pass has read it. -/
inductive Piece (α : Type) where
  /-- A character that belongs to no construct. -/
  | copied (symbol : Char)
  | found (span : Text) (value : α)
deriving DecidableEq, Repr

/-- The characters of the text that a piece stands for. -/
def Piece.source : Piece α → Text
  | .copied symbol => [symbol]
  | .found span _ => span

def Piece.value? : Piece α → Option α
  | .copied _ => none
  | .found _ value => some value

/-- Reading at a cursor with something to remember between the attempts. -/
abbrev Attempt (Memory α : Type) := Cursor → Memory → Option (α × Cursor) × Memory

/-- A recogniser, which remembers nothing. -/
def Recogniser.attempt (recogniser : Recogniser α) : Attempt Unit α := fun cursor memory =>
  (recogniser cursor, memory)

/-- Reads the spans that begin with `opening` and end at the next stop. -/
structure Bracketed (α : Type) where
  opening : Char
  /-- The value of the span whose body begins at a place and whose end is a stop, and the place
  where reading goes on. -/
  accept : (body : Cursor) → (stop : Stop) → Option (α × Cursor)

/-- Reads a span, its end found by a stop finder. -/
def Bracketed.attempt (bracketed : Bracketed α) : Attempt StopFinder α := fun cursor finder =>
  match Recogniser.char bracketed.opening cursor with
  | none => (none, finder)
  | some (_, body) =>
      let (stop, finder) := finder.find body
      (stop.bind (bracketed.accept body), finder)

/-- The pieces of a text, left to right. -/
def pieces (attempt : Attempt Memory α) (memory : Memory) (text : Text) : List (Piece α) :=
  go memory 0 0 [] text
where
  /-- Goes on at `position`. The next `skip` characters belong to a span that has been set aside,
  and `latestFirst` holds the pieces so far. -/
  go (memory : Memory) (position skip : Nat) (latestFirst : List (Piece α)) :
      Text → List (Piece α)
    | [] => latestFirst.reverse
    | symbol :: rest =>
        match skip with
        | skip + 1 => go memory (position + 1) skip latestFirst rest
        | 0 =>
            let here : Cursor := { position, rest := symbol :: rest }
            match attempt here memory with
            | (some (value, next), memory) =>
                go memory (position + 1) (next.position - (position + 1))
                  (.found (here.textTo next) value :: latestFirst) rest
            | (none, memory) =>
                go memory (position + 1) 0 (.copied symbol :: latestFirst) rest

def Recogniser.pieces (recogniser : Recogniser α) (text : Text) : List (Piece α) :=
  Pattern.pieces recogniser.attempt () text

/-- The pieces of a text for spans that end at one of `stops`. -/
def Bracketed.pieces (bracketed : Bracketed α) (stops : List Char) (text : Text) :
    List (Piece α) :=
  Pattern.pieces bracketed.attempt { stops } text

/-- Every reading of a text, overlapping ones included: where it begins, its value, and where it
ends. The place behind the last character is tried too. -/
def readings (attempt : Attempt Memory α) (memory : Memory) (text : Text) :
    List (Nat × α × Nat) :=
  go memory 0 [] text
where
  /-- Goes on at `position`, with the readings so far in `latestFirst`. -/
  go (memory : Memory) (position : Nat) (latestFirst : List (Nat × α × Nat)) :
      Text → List (Nat × α × Nat)
    | [] => (tryAt memory position latestFirst []).2.reverse
    | symbol :: rest =>
        let (memory, latestFirst) := tryAt memory position latestFirst (symbol :: rest)
        go memory (position + 1) latestFirst rest
  tryAt (memory : Memory) (position : Nat) (latestFirst : List (Nat × α × Nat)) (rest : Text) :
      Memory × List (Nat × α × Nat) :=
    match attempt { position, rest } memory with
    | (some (value, next), memory) => (memory, (position, value, next.position) :: latestFirst)
    | (none, memory) => (memory, latestFirst)

section Render

variable {m : Type → Type} [Monad m]

/-- Writes the pieces out again, the recognised ones as `replacement` says, in order. -/
def render (replacement : α → m Text) (pieces : List (Piece α)) : m Text :=
  go [] pieces
where
  /-- Writes the remaining pieces behind `written`, which holds the latest character first. -/
  go (written : Text) : List (Piece α) → m Text
    | [] => pure written.reverse
    | .copied symbol :: rest => go (symbol :: written) rest
    | .found _ value :: rest => do
        let text ← replacement value
        go (text.reverseAux written) rest

@[simp]
theorem render_nil (replacement : α → m Text) :
    render replacement ([] : List (Piece α)) = pure [] := rfl

variable [LawfulMonad m]

theorem render.go_eq (replacement : α → m Text) (written : Text) (pieces : List (Piece α)) :
    render.go replacement written pieces =
      (written.reverse ++ ·) <$> render replacement pieces := by
  induction pieces generalizing written with
  | nil => simp [render, render.go]
  | cons piece rest inductionHypothesis =>
      cases piece with
      | copied symbol =>
          simp only [render, render.go]
          rw [inductionHypothesis, inductionHypothesis [symbol], Functor.map_map]
          simp
      | found span value =>
          simp only [render, render.go, map_bind]
          congr 1
          funext text
          rw [inductionHypothesis, inductionHypothesis (text.reverseAux []), Functor.map_map]
          simp [List.reverseAux_eq]

theorem render_copied (replacement : α → m Text) (symbol : Char) (rest : List (Piece α)) :
    render replacement (.copied symbol :: rest) =
      (symbol :: ·) <$> render replacement rest := by
  rw [render, render.go, render.go_eq]
  simp

theorem render_found
    (replacement : α → m Text) (span : Text) (value : α) (rest : List (Piece α)) :
    render replacement (.found span value :: rest) = do
      let text ← replacement value
      let others ← render replacement rest
      return text ++ others := by
  rw [render, render.go]
  congr 1
  funext text
  rw [render.go_eq, map_eq_pure_bind]
  simp [List.reverseAux_eq]

end Render

end RandomCodes.Pattern
