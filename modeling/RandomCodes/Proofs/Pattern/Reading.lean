import Mathlib.Data.Nat.Init
import RandomCodes.Pattern.Scanning
/-!
# The pieces of a text without places and memory

The latest search of a stop finder answers for every place that it covers. As long as that search
was made in the text the places belong to, the answer is the first stop at or after the place, and
the finder stays fit for the text.

So what an attempt reads at a place hangs on the text from there on alone: neither the number of the
place nor what is remembered from other attempts matters, and the pieces of a text are those that a
reader finds, which knows nothing but the text in front of it.
-/

namespace RandomCodes.Pattern

/-- The place before the character number `position` of a text. -/
def Cursor.at (text : Text) (position : Nat) : Cursor :=
  { position, rest := text.drop position }

theorem firstStop_cons_of_mem
    {stops : List Char} {symbol : Char} (stop : symbol ∈ stops) (position : Nat) (after : Text) :
    firstStop stops { position, rest := symbol :: after } =
      some { symbol, position, after } := by
  simp [firstStop, firstStop.go, stop]

theorem firstStop_cons_of_not_mem
    {stops : List Char} {symbol : Char} (other : symbol ∉ stops) (position : Nat) (after : Text) :
    firstStop stops { position, rest := symbol :: after } =
      firstStop stops { position := position + 1, rest := after } := by
  simp [firstStop, firstStop.go, other]

/-- The first stop behind a run of characters that are no stops. -/
theorem firstStop_append
    {stops : List Char} {run : Text} (free : ∀ symbol ∈ run, symbol ∉ stops)
    (position : Nat) (rest : Text) :
    firstStop stops { position, rest := run ++ rest } =
      firstStop stops { position := position + run.length, rest } := by
  induction run generalizing position with
  | nil => rfl
  | cons symbol run inductionHypothesis =>
      have other : symbol ∉ stops := free symbol List.mem_cons_self
      rw [List.cons_append, firstStop_cons_of_not_mem other,
        inductionHypothesis fun member inside => free member (List.mem_cons_of_mem symbol inside)]
      congr 2
      simp only [List.length_cons]
      omega

/-- A text without stops has no first one. -/
theorem firstStop_eq_none
    {stops : List Char} {text : Text} (free : ∀ symbol ∈ text, symbol ∉ stops) (position : Nat) :
    firstStop stops { position, rest := text } = none := by
  have behind := firstStop_append free position []
  rw [List.append_nil] at behind
  rw [behind]
  rfl

/-- What a first stop says about the text: the characters before it are no stops. -/
theorem firstStop_eq_some
    {stops : List Char} {position : Nat} {text : Text} {stop : Stop}
    (found : firstStop stops { position, rest := text } = some stop) :
    ∃ run : Text, (∀ symbol ∈ run, symbol ∉ stops) ∧ stop.symbol ∈ stops ∧
      text = run ++ stop.symbol :: stop.after ∧ stop.position = position + run.length := by
  induction text generalizing position with
  | nil => simp [firstStop, firstStop.go] at found
  | cons symbol rest inductionHypothesis =>
      by_cases member : symbol ∈ stops
      · rw [firstStop_cons_of_mem member, Option.some.injEq] at found
        subst found
        exact ⟨[], by simp, member, rfl, rfl⟩
      · rw [firstStop_cons_of_not_mem member] at found
        obtain ⟨run, free, stopMember, rfl, place⟩ := inductionHypothesis found
        refine ⟨symbol :: run, ?_, stopMember, rfl, ?_⟩
        · intro inside insideMember
          rcases List.mem_cons.mp insideMember with rfl | later
          · exact member
          · exact free inside later
        · rw [place, List.length_cons]
          omega

/-- Places from `first` on see the same first stop as long as they do not pass it. -/
theorem firstStop_at_of_le
    {stops : List Char} {text : Text} {first later : Nat} (ordered : first ≤ later)
    (inside : ∀ stop ∈ firstStop stops (Cursor.at text first), later ≤ stop.position) :
    firstStop stops (Cursor.at text later) = firstStop stops (Cursor.at text first) := by
  induction later, ordered using Nat.le_induction with
  | base => rfl
  | succ later ordered inductionHypothesis =>
      have unchanged := inductionHypothesis fun stop found =>
        Nat.le_of_succ_le (inside stop found)
      rw [← unchanged] at inside ⊢
      match tail : text.drop later with
      | [] =>
          have none : text.drop (later + 1) = [] := by
            rw [← List.drop_drop, tail, List.drop_nil]
          simp only [Cursor.at, tail, none]
          rfl
      | symbol :: rest =>
          have next : text.drop (later + 1) = rest := by
            rw [← List.drop_drop, tail, List.drop_succ_cons, List.drop_zero]
          simp only [Cursor.at, tail, next] at inside ⊢
          have other : symbol ∉ stops := by
            intro member
            have passed := inside _ (firstStop_cons_of_mem member later rest)
            exact Nat.not_succ_le_self later passed
          rw [firstStop_cons_of_not_mem other]

namespace StopFinder

/-- The latest search, if there was any, was made in `text`. -/
def Fits (text : Text) (finder : StopFinder) : Prop :=
  ∀ search ∈ finder.latest,
    search.found = firstStop finder.stops (Cursor.at text search.start)

theorem fits_of_unused (text : Text) (stops : List Char) : Fits text { stops } := by
  intro search member
  cases member

theorem search_fits (text : Text) (finder : StopFinder) (position : Nat) :
    Fits text (finder.search (Cursor.at text position)).2 := by
  intro search member
  obtain rfl := Option.some.inj member
  rfl

/-- A finder that fits the text finds the first stop, keeps its stops and still fits. -/
theorem find_spec
    {text : Text} {finder : StopFinder} (fits : Fits text finder) (position : Nat) :
    (finder.find (Cursor.at text position)).1 =
        firstStop finder.stops (Cursor.at text position) ∧
      (finder.find (Cursor.at text position)).2.stops = finder.stops ∧
      Fits text (finder.find (Cursor.at text position)).2 := by
  unfold find
  split
  · rename_i latest remembered
    split
    · rename_i covered
      refine ⟨?_, rfl, fits⟩
      have found := fits latest remembered
      simp only [Search.covers, Bool.and_eq_true, decide_eq_true_eq] at covered
      have inside : ∀ stop ∈ firstStop finder.stops (Cursor.at text latest.start),
          position ≤ stop.position := by
        intro stop member
        rw [found.trans member] at covered
        exact of_decide_eq_true covered.2
      exact found.trans (firstStop_at_of_le covered.1 inside).symm
    · exact ⟨rfl, rfl, search_fits text finder position⟩
  · exact ⟨rfl, rfl, search_fits text finder position⟩

end StopFinder

variable {α β Memory : Type}

/-- Reads at the beginning of a text: a value and the number of characters it takes. -/
abbrev Reader (α : Type) := Text → Option (α × Nat)

namespace Reader

/-- The pieces of a text, left to right. -/
def pieces (reader : Reader α) (text : Text) : List (Piece α) :=
  go 0 text
where
  /-- Passes over the next `skip` characters first. -/
  go : Nat → Text → List (Piece α)
    | _, [] => []
    | skip + 1, _ :: rest => go skip rest
    | 0, symbol :: rest =>
        match reader (symbol :: rest) with
        | some (value, length) =>
            .found ((symbol :: rest).take length) value :: go (length - 1) rest
        | none => .copied symbol :: go 0 rest

theorem pieces.go_eq (reader : Reader α) (skip : Nat) (text : Text) :
    pieces.go reader skip text = reader.pieces (text.drop skip) := by
  induction text generalizing skip with
  | nil => cases skip <;> rfl
  | cons symbol rest inductionHypothesis =>
      cases skip with
      | zero => rfl
      | succ skip => exact inductionHypothesis skip

theorem pieces_of_eq_none
    {reader : Reader α} {symbol : Char} {rest : Text}
    (refused : reader (symbol :: rest) = none) :
    reader.pieces (symbol :: rest) = .copied symbol :: reader.pieces rest := by
  rw [pieces, pieces.go, refused]
  rfl

theorem pieces_of_eq_some
    {reader : Reader α} {span rest : Text} {value : α} (nonempty : span ≠ [])
    (read : reader (span ++ rest) = some (value, span.length)) :
    reader.pieces (span ++ rest) = .found span value :: reader.pieces rest := by
  obtain ⟨symbol, others, rfl⟩ := List.exists_cons_of_ne_nil nonempty
  rw [List.cons_append] at read ⊢
  rw [pieces, pieces.go, read]
  simp [pieces.go_eq]

end Reader

theorem pieces.go_eq
    (attempt : Attempt Memory α) (memory : Memory) (position skip : Nat)
    (latestFirst : List (Piece α)) (text : Text) :
    pieces.go attempt memory position skip latestFirst text =
      latestFirst.reverse ++ pieces.go attempt memory position skip [] text := by
  induction text generalizing memory position skip latestFirst with
  | nil => simp [pieces.go]
  | cons symbol rest inductionHypothesis =>
      cases skip with
      | succ skip => exact inductionHypothesis memory (position + 1) skip latestFirst
      | zero =>
          simp only [pieces.go]
          split
          · rw [inductionHypothesis, inductionHypothesis _ _ _ [_]]
            simp
          · rw [inductionHypothesis, inductionHypothesis _ _ _ [_]]
            simp

theorem pieces.go_skip
    (attempt : Attempt Memory α) (memory : Memory) (position skip : Nat) (text : Text) :
    pieces.go attempt memory position skip [] text =
      pieces.go attempt memory (position + skip) 0 [] (text.drop skip) := by
  induction text generalizing position skip with
  | nil => rw [List.drop_nil, pieces.go, pieces.go]
  | cons symbol rest inductionHypothesis =>
      cases skip with
      | zero => rfl
      | succ skip =>
          have place : position + (skip + 1) = position + 1 + skip := by omega
          rw [pieces.go, List.drop_succ_cons, place]
          exact inductionHypothesis (position + 1) skip

/-- What an attempt reads at the beginning of a text, given what it remembers. -/
def Attempt.reader (attempt : Attempt Memory α) (memory : Memory) : Reader α := fun text =>
  (attempt (Cursor.start text) memory).1.map fun (value, next) => (value, next.position)

/-- As long as its memory is fit, an attempt reads at every place of the text what the reader reads
there, and its memory stays fit. -/
def Attempt.Follows
    (attempt : Attempt Memory α) (reader : Reader α) (text : Text) (Fit : Memory → Prop) : Prop :=
  ∀ position memory, Fit memory →
    (attempt (Cursor.at text position) memory).1.map
        (fun (value, next) => (value, next.position)) =
      (reader (text.drop position)).map (fun (value, length) => (value, position + length)) ∧
    Fit (attempt (Cursor.at text position) memory).2

theorem pieces.go_eq_of_follows
    {attempt : Attempt Memory α} {reader : Reader α} {text : Text} {Fit : Memory → Prop}
    (follows : attempt.Follows reader text Fit) {memory : Memory} (fit : Fit memory)
    {position : Nat} {remaining : Text} (tail : text.drop position = remaining)
    (skip : Nat) (latestFirst : List (Piece α)) :
    pieces.go attempt memory position skip latestFirst remaining =
      latestFirst.reverse ++ Reader.pieces.go reader skip remaining := by
  induction remaining generalizing memory position skip latestFirst with
  | nil => simp [pieces.go, Reader.pieces.go]
  | cons symbol rest inductionHypothesis =>
      have next : text.drop (position + 1) = rest := by
        rw [← List.drop_drop, tail, List.drop_succ_cons, List.drop_zero]
      cases skip with
      | succ skip =>
          rw [pieces.go, Reader.pieces.go]
          exact inductionHypothesis fit next skip latestFirst
      | zero =>
          -- What is read decides the memory that the rest is read with, so both are opened together.
          obtain ⟨same, stillFit⟩ := follows position memory fit
          rw [pieces.go, Reader.pieces.go]
          simp only [Cursor.at, tail] at same stillFit
          generalize attempt { position, rest := symbol :: rest } memory = attempted at *
          obtain ⟨read, memory⟩ := attempted
          cases known : reader (symbol :: rest) with
          | none =>
              rw [known, Option.map_none, Option.map_eq_none_iff] at same
              subst same
              simp [inductionHypothesis stillFit next]
          | some result =>
              obtain ⟨value, length⟩ := result
              rw [known, Option.map_some, Option.map_eq_some_iff] at same
              obtain ⟨⟨_, stop⟩, rfl, same⟩ := same
              simp only [Prod.mk.injEq] at same
              obtain ⟨rfl, place⟩ := same
              -- The attempt counts places from the beginning of the text, the reader from here.
              have taken : stop.position - position = length := by omega
              have skipped : stop.position - (position + 1) = length - 1 := by omega
              simp [inductionHypothesis stillFit next, Cursor.textTo, taken, skipped]

/-- The pieces that an attempt finds are those of the reader that it follows. -/
theorem pieces_eq_of_follows
    {attempt : Attempt Memory α} {reader : Reader α} {text : Text} {Fit : Memory → Prop}
    (follows : attempt.Follows reader text Fit) {memory : Memory} (fit : Fit memory) :
    pieces attempt memory text = reader.pieces text :=
  pieces.go_eq_of_follows follows fit rfl 0 []

/-- The same cursor, with `offset` more characters before it. -/
def Cursor.shift (offset : Nat) (cursor : Cursor) : Cursor :=
  { cursor with position := cursor.position + offset }

namespace Recogniser

/-- What is read does not depend on how the places are numbered. -/
def Uniform (recogniser : Recogniser α) : Prop :=
  ∀ offset cursor, recogniser (Cursor.shift offset cursor) =
    (recogniser cursor).map fun (value, next) => (value, next.shift offset)

theorem attempt_follows
    {recogniser : Recogniser α} (uniform : Uniform recogniser) (text : Text) :
    recogniser.attempt.Follows (recogniser.attempt.reader ()) text fun _ => True := by
  intro position memory _
  refine ⟨?_, trivial⟩
  have shifted : Cursor.at text position =
      (Cursor.start (text.drop position)).shift position := by
    simp [Cursor.at, Cursor.start, Cursor.shift]
  simp only [attempt, Attempt.reader, shifted]
  rw [uniform position, Option.map_map, Option.map_map]
  congr 1
  funext result
  simp [Cursor.shift, Nat.add_comm]

theorem pieces_eq {recogniser : Recogniser α} (uniform : Uniform recogniser) (text : Text) :
    recogniser.pieces text = Reader.pieces (recogniser.attempt.reader ()) text :=
  pieces_eq_of_follows (attempt_follows uniform text) trivial

end Recogniser

namespace Bracketed

theorem reader_of_ne
    (bracketed : Bracketed α) (finder : StopFinder) {symbol : Char}
    (other : symbol ≠ bracketed.opening) (rest : Text) :
    bracketed.attempt.reader finder (symbol :: rest) = none := by
  simp [Attempt.reader, attempt, Recogniser.char, Cursor.start, other]

theorem reader_opening (bracketed : Bracketed α) (stops : List Char) (body : Text) :
    bracketed.attempt.reader { stops } (bracketed.opening :: body) =
      ((firstStop stops { position := 1, rest := body }).bind
        (bracketed.accept { position := 1, rest := body })).map
          fun (value, next) => (value, next.position) := by
  simp [Attempt.reader, attempt, Recogniser.char, Cursor.start, StopFinder.find,
    StopFinder.search]

end Bracketed

end RandomCodes.Pattern
