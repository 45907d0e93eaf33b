import RandomCodes.Proofs.Pattern.SpanReading
import RandomCodes.Proofs.Pattern.Splitting
/-!
# The grammars of the constructs

Each pass looks for one kind of construct, and for each kind there is a grammar: the spans that are
constructs of the kind, and what they are read as. A recogniser accepts its grammar when, from every
place on, it reads a span of the grammar and moves behind it, and reads nothing where there is none.
-/

namespace RandomCodes.Pattern

variable {α : Type}

/-- A stretch of text between two cursors. -/
structure Cursor.Moves (before : Cursor) (span : Text) (after : Cursor) : Prop where
  text : before.rest = span ++ after.rest
  place : after.position = before.position + span.length

namespace Cursor.Moves

theorem append
    {first second third : Cursor} {front back : Text} (start : first.Moves front second)
    (further : second.Moves back third) : first.Moves (front ++ back) third where
  text := by rw [start.text, further.text, List.append_assoc]
  place := by rw [further.place, start.place, List.length_append, Nat.add_assoc]

theorem of_append {first third : Cursor} {front back : Text}
    (moves : first.Moves (front ++ back) third) :
    let second : Cursor :=
      { position := first.position + front.length, rest := back ++ third.rest }
    first.Moves front second ∧ second.Moves back third := by
  refine ⟨⟨?_, rfl⟩, rfl, ?_⟩
  · rw [moves.text, List.append_assoc]
  · rw [moves.place, List.length_append, Nat.add_assoc]

theorem before_eq {before after : Cursor} {span : Text} (moves : before.Moves span after) :
    before = { position := before.position, rest := span ++ after.rest } := by
  rw [← moves.text]

theorem after_eq {before after : Cursor} {span : Text} (moves : before.Moves span after) :
    after = { position := before.position + span.length, rest := after.rest } := by
  rw [← moves.place]

theorem nil_iff {before after : Cursor} : before.Moves [] after ↔ after = before := by
  constructor
  · intro moves
    rw [moves.after_eq, moves.before_eq]
    rfl
  · rintro rfl
    exact ⟨rfl, rfl⟩

end Cursor.Moves

/-- In one text, moving over a span leads to the place behind it. -/
theorem Cursor.moves_at_iff {text span : Text} {position : Nat} {next : Cursor} :
    (Cursor.at text position).Moves span next ↔
      span <+: text.drop position ∧ next = Cursor.at text (position + span.length) := by
  constructor
  · intro moves
    have front : text.drop position = span ++ next.rest := moves.text
    have behind : text.drop (position + span.length) = next.rest := by
      rw [← List.drop_drop, front, List.drop_left]
    refine ⟨⟨next.rest, front.symm⟩, ?_⟩
    rw [Cursor.at, behind]
    exact moves.after_eq
  · intro stands
    obtain ⟨⟨behind, front⟩, rfl⟩ := stands
    refine ⟨?_, rfl⟩
    show text.drop position = span ++ text.drop (position + span.length)
    rw [← List.drop_drop, ← front, List.drop_left]

/-! ## Recognisers of a grammar -/

namespace Recogniser

/-- From every place on, the recogniser reads exactly the spans of the grammar. -/
def Accepts (recogniser : Recogniser α) (grammar : Grammar α) : Prop :=
  ∀ cursor value next, recogniser cursor = some (value, next) ↔
    ∃ span, grammar span value ∧ cursor.Moves span next

variable {recogniser : Recogniser α} {grammar : Grammar α}

/-- It is enough that every span of the grammar is read and nothing else makes it read at all. -/
theorem Accepts.of_reads
    (reads : ∀ span value position rest, grammar span value →
      recogniser { position, rest := span ++ rest } =
        some (value, { position := position + span.length, rest }))
    (begins : ∀ cursor result, recogniser cursor = some result → grammar.Begins cursor.rest) :
    recogniser.Accepts grammar := by
  intro cursor value next
  constructor
  · intro read
    obtain ⟨span, known, construct, ⟨behind, front⟩⟩ := begins cursor _ read
    obtain ⟨position, rest⟩ := cursor
    obtain rfl : span ++ behind = rest := front
    rw [reads span known position behind construct] at read
    obtain ⟨rfl, rfl⟩ := Prod.mk.inj (Option.some.inj read)
    exact ⟨span, construct, rfl, rfl⟩
  · intro stands
    obtain ⟨span, construct, moves⟩ := stands
    rw [moves.before_eq, moves.after_eq]
    exact reads span value cursor.position next.rest construct

theorem bind_eq_some_iff
    {β : Type} {first : Recogniser α} {following : α → Recogniser β} {cursor : Cursor}
    {result : β × Cursor} :
    (first >>= following) cursor = some result ↔
      ∃ value next, first cursor = some (value, next) ∧ following value next = some result := by
  constructor
  · exact bind_eq_some
  · intro found
    obtain ⟨value, next, read, followed⟩ := found
    rw [bind_of_eq_some read, followed]

theorem pure_accepts (value : α) :
    (pure value : Recogniser α).Accepts fun span result => span = [] ∧ result = value := by
  apply Accepts.of_reads
  · intro span result position rest empty
    obtain ⟨rfl, rfl⟩ := empty
    rfl
  · intro cursor result _
    exact ⟨[], value, ⟨rfl, rfl⟩, cursor.rest, rfl⟩

theorem Accepts.congr
    {other : Grammar α} (accepts : recogniser.Accepts grammar)
    (same : ∀ span value, grammar span value ↔ other span value) : recogniser.Accepts other := by
  intro cursor value next
  rw [accepts cursor value next]
  simp only [same]

theorem char_accepts (expected : Char) :
    (char expected).Accepts fun span _ => span = [expected] := by
  apply Accepts.of_reads
  · rintro _ _ position rest rfl
    exact char_cons_self expected position rest
  · intro cursor result read
    exact ⟨[expected], (), rfl, result.2.rest, (char_eq_some read).symm⟩

theorem anyChar_accepts : anyChar.Accepts fun span symbol => span = [symbol] := by
  apply Accepts.of_reads
  · rintro _ symbol position rest rfl
    rfl
  · intro cursor result read
    obtain ⟨position, rest⟩ := cursor
    cases rest with
    | nil => cases read
    | cons symbol rest => exact ⟨[symbol], symbol, rfl, rest, rfl⟩

theorem guard_accepts (condition : Prop) [Decidable condition] :
    (guard condition : Recogniser Unit).Accepts fun span _ => span = [] ∧ condition := by
  by_cases holds : condition
  · have passed : (guard condition : Recogniser Unit) = pure () := if_pos holds
    rw [passed]
    apply (pure_accepts ()).congr
    simp [holds]
  · have refused : (guard condition : Recogniser Unit) = failure := if_neg holds
    rw [refused]
    apply Accepts.of_reads
    · intro span value position rest stands
      exact absurd stands.2 holds
    · intro cursor result read
      cases read

/-- One construct right behind another. -/
theorem Accepts.bind
    {β : Type} {following : α → Recogniser β} {further : α → Grammar β}
    (accepts : recogniser.Accepts grammar)
    (followed : ∀ value, (following value).Accepts (further value)) :
    (recogniser >>= following).Accepts fun span result =>
      ∃ front value back, grammar front value ∧ further value back result ∧ span = front ++ back := by
  intro cursor result next
  rw [bind_eq_some_iff]
  constructor
  · intro found
    obtain ⟨value, between, read, behind⟩ := found
    obtain ⟨front, construct, start⟩ := (accepts _ _ _).mp read
    obtain ⟨back, last, further⟩ := (followed value _ _ _).mp behind
    exact ⟨front ++ back, ⟨front, value, back, construct, last, rfl⟩, start.append further⟩
  · intro stands
    obtain ⟨_, ⟨front, value, back, construct, last, rfl⟩, moves⟩ := stands
    obtain ⟨start, further⟩ := Cursor.Moves.of_append moves
    exact ⟨value, _, (accepts _ _ _).mpr ⟨front, construct, start⟩,
      (followed value _ _ _).mpr ⟨back, last, further⟩⟩

theorem Accepts.eq_none_iff (accepts : recogniser.Accepts grammar) (cursor : Cursor) :
    recogniser cursor = none ↔ ¬ grammar.Begins cursor.rest := by
  constructor
  · intro refused begins
    obtain ⟨span, value, construct, behind, front⟩ := begins
    have moves : cursor.Moves span { position := cursor.position + span.length, rest := behind } :=
      ⟨front.symm, rfl⟩
    have read := (accepts cursor value _).mpr ⟨span, construct, moves⟩
    rw [refused] at read
    cases read
  · intro outside
    rw [Option.eq_none_iff_forall_ne_some]
    intro result read
    obtain ⟨span, construct, moves⟩ := (accepts _ _ _).mp read
    exact outside ⟨span, result.1, construct, result.2.rest, moves.text.symm⟩

/-- As a reader of texts, the recogniser obeys its grammar. -/
theorem Accepts.obeys (accepts : recogniser.Accepts grammar) :
    (recogniser.attempt.reader ()).Obeys grammar := by
  intro text value length
  constructor
  · intro read
    obtain ⟨⟨_, next⟩, found, same⟩ := Option.map_eq_some_iff.mp read
    obtain ⟨rfl, rfl⟩ := Prod.mk.inj same
    obtain ⟨span, construct, moves⟩ := (accepts _ _ next).mp found
    refine ⟨span, construct, ⟨next.rest, moves.text.symm⟩, ?_⟩
    exact moves.place.trans (Nat.zero_add span.length)
  · intro stands
    obtain ⟨span, construct, ⟨behind, front⟩, rfl⟩ := stands
    have moves : (Cursor.start text).Moves span { position := span.length, rest := behind } :=
      ⟨front.symm, (Nat.zero_add span.length).symm⟩
    have found := (accepts _ value _).mpr ⟨span, construct, moves⟩
    simp only [Attempt.reader, attempt, found]
    rfl

end Recogniser

/-- One numeral in braces, read as its number or the greatest of 64 bits. -/
inductive CountSpan : Grammar Nat
  | numeral (count : Numeral) :
      CountSpan (fixedText count) (min count.value (UInt64.size - 1))

/-- Two numerals in braces, in order as numbers of 64 bits, both cut down to a thousand. -/
inductive QuantifierSpan : Grammar Quantifier
  | numerals (least most : Numeral)
      (ordered : min least.value (UInt64.size - 1) ≤ min most.value (UInt64.size - 1)) :
      QuantifierSpan (quantifierText least most)
        { least := min least.value 1000, most := min most.value 1000 }

theorem fixedCount_accepts : Recogniser.Accepts fixedCount CountSpan := by
  apply Recogniser.Accepts.of_reads
  · intro span value position rest construct
    obtain ⟨count⟩ := construct
    exact fixedCount_read count position rest
  · intro cursor result read
    obtain ⟨count, behind, written⟩ := fixedCount_eq_some read
    exact ⟨fixedText count, _, .numeral count, behind, written.symm⟩

theorem Quantifier.between?_eq_some_iff {first second : Nat} {quantifier : Quantifier} :
    between? first second = some quantifier ↔
      first ≤ second ∧
        quantifier = { least := min first greatestCount, most := min second greatestCount } := by
  rw [between?]
  split
  · rename_i ordered
    simp [ordered, eq_comm]
  · rename_i reversed
    simp [reversed]

/-- Cutting a number down twice leaves the smaller bound. -/
theorem min_greatestNumber_greatestCount (number : Nat) :
    min (min number Recogniser.greatestNumber) Quantifier.greatestCount = min number 1000 := by
  have smaller : Quantifier.greatestCount = 1000 ∧ 1000 ≤ Recogniser.greatestNumber := by decide
  omega

theorem Quantifier.recogniser_accepts : Recogniser.Accepts recogniser QuantifierSpan := by
  apply Recogniser.Accepts.of_reads
  · intro span quantifier position rest construct
    obtain ⟨least, most, ordered⟩ := construct
    have bounded : between? (min least.value Recogniser.greatestNumber)
        (min most.value Recogniser.greatestNumber) =
          some { least := min least.value 1000, most := min most.value 1000 } := by
      rw [between?_eq_some_iff, min_greatestNumber_greatestCount, min_greatestNumber_greatestCount]
      exact ⟨ordered, rfl⟩
    rw [recogniser_quantifierText, bounded]
    rfl
  · intro cursor result read
    obtain ⟨least, most, behind, written, bounded⟩ := recogniser_eq_some read
    obtain ⟨quantifier, bounded⟩ := Option.isSome_iff_exists.mp bounded
    have ordered := (between?_eq_some_iff.mp bounded).1
    exact ⟨quantifierText least most, _, .numerals least most ordered, behind, written.symm⟩

namespace Bracketed

/-- Reads a span whose end is searched for anew every time. -/
def recogniser (bracketed : Bracketed α) (stops : List Char) : Recogniser α := fun cursor =>
  (Recogniser.char bracketed.opening cursor).bind fun (_, body) =>
    (firstStop stops body).bind (bracketed.accept body)

variable {bracketed : Bracketed α} {stops : List Char}

/-- A span is read up to the first stop behind its opening. -/
theorem recogniser_span
    {run : Text} (free : ∀ symbol ∈ run, symbol ∉ stops) {close : Char} (closes : close ∈ stops)
    (position : Nat) (after : Text) :
    bracketed.recogniser stops
        { position, rest := bracketed.opening :: (run ++ close :: after) } =
      bracketed.accept { position := position + 1, rest := run ++ close :: after }
        { symbol := close, position := position + 1 + run.length, after } := by
  rw [recogniser, Recogniser.char_cons_self, Option.bind_some]
  simp only [firstStop_append free, firstStop_cons_of_mem closes, Option.bind_some]

/-- Nothing is read unless an opening and a stop behind it are there. -/
theorem rest_of_recogniser_eq_some
    {cursor : Cursor} {result : α × Cursor}
    (read : bracketed.recogniser stops cursor = some result) :
    ∃ run close after, (∀ symbol ∈ run, symbol ∉ stops) ∧ close ∈ stops ∧
      cursor.rest = bracketed.opening :: (run ++ close :: after) := by
  obtain ⟨⟨_, body⟩, opened, read⟩ := Option.bind_eq_some_iff.mp read
  obtain ⟨stop, found, _⟩ := Option.bind_eq_some_iff.mp read
  obtain ⟨run, free, closes, cut, _⟩ := firstStop_eq_some found
  refine ⟨run, stop.symbol, stop.after, free, closes, ?_⟩
  rw [Recogniser.char_eq_some opened, cut]

/-- A recogniser of spans accepts a grammar when it reads every span of it from the opening to the
first stop and on to the end, and when all that it reads this way are spans of the grammar. -/
theorem recogniser_accepts
    {grammar : Grammar α}
    (reads : ∀ span value, grammar span value → ∃ run close back,
      (∀ symbol ∈ run, symbol ∉ stops) ∧ close ∈ stops ∧
        span = bracketed.opening :: (run ++ close :: back) ∧
        ∀ position after next,
          Cursor.Moves { position := position + run.length + 1, rest := after } back next →
          bracketed.accept { position, rest := run ++ close :: after }
            { symbol := close, position := position + run.length, after } = some (value, next))
    (written : ∀ run close position after value next, (∀ symbol ∈ run, symbol ∉ stops) →
      close ∈ stops →
      bracketed.accept { position, rest := run ++ close :: after }
          { symbol := close, position := position + run.length, after } = some (value, next) →
      ∃ back, grammar (bracketed.opening :: (run ++ close :: back)) value ∧
        Cursor.Moves { position := position + run.length + 1, rest := after } back next) :
    (bracketed.recogniser stops).Accepts grammar := by
  intro cursor value next
  obtain ⟨position, rest⟩ := cursor
  constructor
  · intro read
    obtain ⟨run, close, after, free, closes, cut⟩ := rest_of_recogniser_eq_some read
    obtain rfl : rest = bracketed.opening :: (run ++ close :: after) := cut
    rw [recogniser_span free closes] at read
    obtain ⟨back, construct, further⟩ := written _ _ _ _ _ _ free closes read
    have front : Cursor.Moves
        { position, rest := bracketed.opening :: (run ++ close :: after) }
        (bracketed.opening :: (run ++ [close]))
        { position := position + 1 + run.length + 1, rest := after } := by
      refine ⟨by simp, ?_⟩
      simp only [List.length_cons, List.length_append, List.length_nil]
      omega
    refine ⟨_, construct, ?_⟩
    simpa using front.append further
  · intro stands
    obtain ⟨span, construct, moves⟩ := stands
    obtain ⟨run, close, back, free, closes, rfl, accepted⟩ := reads span value construct
    have cut : rest = bracketed.opening :: (run ++ close :: (back ++ next.rest)) := by
      simpa using moves.text
    have place := moves.place
    subst cut
    rw [recogniser_span free closes]
    apply accepted
    refine ⟨rfl, ?_⟩
    simp only [List.length_cons, List.length_append] at place ⊢
    omega

end Bracketed

/-- From an opening bracket to the first closing one, with something in between and a quantifier
right behind. -/
inductive EnclosedSpan (opening close : Char) (kind : AtomKind) : Grammar Repetition
  | quantified (body : Text) (nonempty : body ≠ []) (free : close ∉ body) {bounds : Text}
      {quantifier : Quantifier} (bounded : QuantifierSpan bounds quantifier) :
      EnclosedSpan opening close kind (opening :: (body ++ close :: bounds))
        { kind, atom := opening :: (body ++ [close]), quantifier }

theorem enclosed_accept_iff
    {opening close : Char} {body after atom : Text} {position : Nat} {next : Cursor} :
    (enclosed opening).accept { position, rest := body ++ close :: after }
        { symbol := close, position := position + body.length, after } = some (atom, next) ↔
      body ≠ [] ∧ atom = opening :: (body ++ [close]) ∧
        next = { position := position + body.length + 1, rest := after } := by
  simp only [enclosed]
  rw [Cursor.textTo_next]
  by_cases empty : body = []
  · simp [empty]
  · simp [empty, Stop.next, eq_comm]

theorem forall_not_mem_singleton_iff {run : Text} {close : Char} :
    (∀ symbol ∈ run, symbol ∉ [close]) ↔ close ∉ run := by
  simp only [List.mem_singleton]
  exact ⟨fun free member => free close member rfl, fun free symbol member same => free (same ▸ member)⟩

theorem repeated_accepts (opening close : Char) (kind : AtomKind) :
    Recogniser.Accepts (((enclosed opening).repeated kind).recogniser [close])
      (EnclosedSpan opening close kind) := by
  apply Bracketed.recogniser_accepts
  · intro span repetition construct
    obtain ⟨body, nonempty, free, bounded⟩ := construct
    refine ⟨body, close, _, forall_not_mem_singleton_iff.mpr free, List.mem_singleton.mpr rfl, rfl, ?_⟩
    intro position after next moves
    have quantified := (Quantifier.recogniser_accepts _ _ _).mpr ⟨_, bounded, moves⟩
    have spanned : (enclosed opening).accept { position, rest := body ++ close :: after }
        { symbol := close, position := position + body.length, after } =
          some (opening :: (body ++ [close]), _) :=
      enclosed_accept_iff.mpr ⟨nonempty, rfl, rfl⟩
    simp only [Bracketed.repeated, Stop.next, quantified, spanned]
    rfl
  · intro run final position after repetition next free closes accepted
    obtain rfl := List.mem_singleton.mp closes
    obtain ⟨⟨quantifier, behind⟩, quantified, accepted⟩ := Option.bind_eq_some_iff.mp accepted
    obtain ⟨⟨atom, _⟩, spanned, accepted⟩ := Option.bind_eq_some_iff.mp accepted
    obtain ⟨rfl, rfl⟩ := Prod.mk.inj (Option.some.inj accepted)
    obtain ⟨nonempty, rfl, _⟩ := enclosed_accept_iff.mp spanned
    obtain ⟨bounds, bounded, moves⟩ := (Quantifier.recogniser_accepts _ _ _).mp quantified
    exact ⟨bounds, .quantified run nonempty (forall_not_mem_singleton_iff.mp free) bounded, moves⟩

/-- One character that does not end the line, or a backslash with such a character behind it, and a
quantifier right behind. -/
inductive SingleSpan : Grammar Repetition
  | escaped (symbol : Char) (sameLine : symbol ≠ '\n') {bounds : Text} {quantifier : Quantifier}
      (bounded : QuantifierSpan bounds quantifier) :
      SingleSpan ('\\' :: symbol :: bounds) { kind := .single, atom := ['\\', symbol], quantifier }
  | plain (symbol : Char) (sameLine : symbol ≠ '\n') {bounds : Text} {quantifier : Quantifier}
      (bounded : QuantifierSpan bounds quantifier) :
      SingleSpan (symbol :: bounds) { kind := .single, atom := [symbol], quantifier }

theorem plainChar_accepts :
    Recogniser.Accepts plainChar fun span atom =>
      ∃ symbol, symbol ≠ '\n' ∧ span = [symbol] ∧ atom = [symbol] := by
  have parts := Recogniser.anyChar_accepts.bind fun symbol =>
    (Recogniser.guard_accepts (symbol ≠ '\n')).bind fun _ => Recogniser.pure_accepts [symbol]
  apply parts.congr
  intro span atom
  constructor
  · intro parts
    obtain ⟨_, symbol, _, rfl, ⟨_, _, _, ⟨rfl, sameLine⟩, ⟨rfl, rfl⟩, rfl⟩, rfl⟩ := parts
    exact ⟨symbol, sameLine, rfl, rfl⟩
  · intro single
    obtain ⟨symbol, sameLine, rfl, rfl⟩ := single
    exact ⟨[symbol], symbol, [], rfl, ⟨[], (), [], ⟨rfl, sameLine⟩, ⟨rfl, rfl⟩, rfl⟩, rfl⟩

theorem escapedChar_accepts :
    Recogniser.Accepts escapedChar fun span atom =>
      ∃ symbol, symbol ≠ '\n' ∧ span = ['\\', symbol] ∧ atom = ['\\', symbol] := by
  have parts := (Recogniser.char_accepts '\\').bind fun _ =>
    Recogniser.anyChar_accepts.bind fun symbol =>
      (Recogniser.guard_accepts (symbol ≠ '\n')).bind fun _ =>
        Recogniser.pure_accepts ['\\', symbol]
  apply parts.congr
  intro span atom
  constructor
  · intro parts
    obtain ⟨_, _, _, rfl, ⟨_, symbol, _, rfl, behind, rfl⟩, rfl⟩ := parts
    obtain ⟨_, _, _, ⟨rfl, sameLine⟩, ⟨rfl, rfl⟩, rfl⟩ := behind
    exact ⟨symbol, sameLine, rfl, rfl⟩
  · intro escaped
    obtain ⟨symbol, sameLine, rfl, rfl⟩ := escaped
    exact ⟨['\\'], (), [symbol], rfl,
      ⟨[symbol], symbol, [], rfl, ⟨[], (), [], ⟨rfl, sameLine⟩, ⟨rfl, rfl⟩, rfl⟩, rfl⟩, rfl⟩

theorem repeatedAtom_accepts
    {atom : Recogniser Text} {grammar : Grammar Text} (accepts : atom.Accepts grammar) :
    (repeatedAtom atom).Accepts fun span repetition =>
      ∃ front text bounds quantifier, grammar front text ∧ QuantifierSpan bounds quantifier ∧
        span = front ++ bounds ∧ repetition = { kind := .single, atom := text, quantifier } := by
  have parts := accepts.bind fun text => Quantifier.recogniser_accepts.bind fun quantifier =>
    Recogniser.pure_accepts ({ kind := .single, atom := text, quantifier } : Repetition)
  apply parts.congr
  intro span repetition
  constructor
  · intro parts
    obtain ⟨front, text, _, construct, ⟨bounds, quantifier, _, bounded, ⟨rfl, rfl⟩, rfl⟩, rfl⟩ := parts
    exact ⟨front, text, bounds, quantifier, construct, bounded, by rw [List.append_nil], rfl⟩
  · intro stands
    obtain ⟨front, text, bounds, quantifier, construct, bounded, rfl, rfl⟩ := stands
    exact ⟨front, text, bounds, construct,
      ⟨bounds, quantifier, [], bounded, ⟨rfl, rfl⟩, (List.append_nil bounds).symm⟩, rfl⟩

theorem QuantifierSpan.exists_eq_append_close
    {span : Text} {quantifier : Quantifier} (construct : QuantifierSpan span quantifier) :
    ∃ front, span = front ++ ['}'] := by
  obtain ⟨least, most, _⟩ := construct
  exact ⟨'{' :: (least.digits ++ ',' :: most.digits), by simp [quantifierText]⟩

/-- Behind the brace of a quantifier there is a digit, so no quantifier begins there. -/
theorem QuantifierSpan.exists_eq_cons_cons
    {bounds : Text} {quantifier : Quantifier} (bounded : QuantifierSpan bounds quantifier)
    (rest : Text) : ∃ symbol behind, bounds ++ rest = '{' :: symbol :: behind ∧ symbol ≠ '{' := by
  obtain ⟨least, most, _⟩ := bounded
  obtain ⟨digit, others, digits⟩ := List.exists_cons_of_ne_nil least.ne_nil
  have member : digit ∈ least.digits := by rw [digits]; exact List.mem_cons_self
  refine ⟨digit, others ++ ',' :: most.digits ++ '}' :: rest, ?_, least.ne_of_mem member (by decide)⟩
  simp [quantifierText, digits]

/-- The two forms of a single character exclude each other, so it does not matter which one is tried
first: behind a backslash that is repeated itself there is a quantifier, and what is behind the
brace of that is not another brace. -/
theorem repeatedAtom_escapedChar_eq_none
    {bounds : Text} {quantifier : Quantifier} (bounded : QuantifierSpan bounds quantifier)
    (symbol : Char) (position : Nat) (rest : Text) :
    repeatedAtom escapedChar { position, rest := symbol :: (bounds ++ rest) } = none := by
  obtain ⟨digit, behind, written, noBrace⟩ := bounded.exists_eq_cons_cons rest
  rw [Option.eq_none_iff_forall_ne_some]
  intro result read
  obtain ⟨_, ⟨_, _, others, _, ⟨escaped, _, rfl, _⟩, further, rfl, _⟩, moves⟩ :=
    (repeatedAtom_accepts escapedChar_accepts _ _ result.2).mp read
  obtain ⟨next, tail, quantified, _⟩ := further.exists_eq_cons_cons result.2.rest
  have whole : symbol :: (bounds ++ rest) = ('\\' :: escaped :: (others ++ result.2.rest)) := by
    simpa using moves.text
  rw [written, quantified] at whole
  simp only [List.cons.injEq] at whole
  exact noBrace whole.2.2.1

theorem repeatedSingle_accepts : Recogniser.Accepts repeatedSingle SingleSpan := by
  have escapedAccepts := repeatedAtom_accepts escapedChar_accepts
  have plainAccepts := repeatedAtom_accepts plainChar_accepts
  intro cursor repetition next
  rw [repeatedSingle_eq, Option.or_eq_some_iff]
  constructor
  · intro read
    rcases read with escaped | ⟨_, plain⟩
    · obtain ⟨_, ⟨_, _, _, _, ⟨symbol, sameLine, rfl, rfl⟩, bounded, rfl, rfl⟩, moves⟩ :=
        (escapedAccepts _ _ _).mp escaped
      exact ⟨_, .escaped symbol sameLine bounded, moves⟩
    · obtain ⟨_, ⟨_, _, _, _, ⟨symbol, sameLine, rfl, rfl⟩, bounded, rfl, rfl⟩, moves⟩ :=
        (plainAccepts _ _ _).mp plain
      exact ⟨_, .plain symbol sameLine bounded, moves⟩
  · intro stands
    obtain ⟨span, construct, moves⟩ := stands
    cases construct with
    | escaped symbol sameLine bounded =>
        left
        exact (escapedAccepts _ _ _).mpr
          ⟨_, ⟨_, _, _, _, ⟨symbol, sameLine, rfl, rfl⟩, bounded, rfl, rfl⟩, moves⟩
    | plain symbol sameLine bounded =>
        right
        refine ⟨?_, (plainAccepts _ _ _).mpr
          ⟨_, ⟨_, _, _, _, ⟨symbol, sameLine, rfl, rfl⟩, bounded, rfl, rfl⟩, moves⟩⟩
        rw [moves.before_eq]
        exact repeatedAtom_escapedChar_eq_none bounded symbol cursor.position next.rest

/-- The atoms of a kind with a quantifier behind them. -/
def AtomKind.Span : AtomKind → Grammar Repetition
  | group => EnclosedSpan '(' ')' .group
  | characterClass => EnclosedSpan '[' ']' .characterClass
  | single => SingleSpan

/-- From `[` to the first `]`, with something in between, which is the value. -/
inductive ClassSpan : Grammar Text
  | body (body : Text) (nonempty : body ≠ []) (free : ']' ∉ body) :
      ClassSpan ('[' :: (body ++ [']'])) body

/-- From `(` to the first `)` on the same line; what is in between is the value and may be empty. -/
inductive AlternationSpan : Grammar Text
  | body (body : Text) (free : ')' ∉ body) (sameLine : '\n' ∉ body) :
      AlternationSpan ('(' :: (body ++ [')'])) body

/-- A backslash and the character of the shorthand. -/
inductive ShorthandSpan (symbol : Char) : Grammar Unit
  | escaped : ShorthandSpan symbol ['\\', symbol] ()

theorem classBody_accepts :
    Recogniser.Accepts (CharacterClass.body.recogniser CharacterClass.stops) ClassSpan := by
  have accepted : ∀ (run after : Text) (position : Nat), run ≠ [] →
      CharacterClass.body.accept { position, rest := run ++ ']' :: after }
          { symbol := ']', position := position + run.length, after } =
        some (run, { position := position + run.length + 1, rest := after }) := by
    intro run after position nonempty
    simp [CharacterClass.body, Stop.next, nonempty]
  apply Bracketed.recogniser_accepts
  · intro span body construct
    obtain ⟨_, nonempty, free⟩ := construct
    refine ⟨body, ']', [], forall_not_mem_singleton_iff.mpr free, List.mem_singleton.mpr rfl, rfl, ?_⟩
    intro position after next moves
    rw [Cursor.Moves.nil_iff.mp moves]
    exact accepted body after position nonempty
  · intro run close position after value next free closes read
    obtain rfl := List.mem_singleton.mp closes
    have nonempty : run ≠ [] := by
      rintro rfl
      simp [CharacterClass.body] at read
    rw [accepted run after position nonempty] at read
    obtain ⟨rfl, rfl⟩ := Prod.mk.inj (Option.some.inj read)
    exact ⟨[], .body run nonempty (forall_not_mem_singleton_iff.mp free), Cursor.Moves.nil_iff.mpr rfl⟩

theorem alternationBody_accepts :
    Recogniser.Accepts (Alternation.body.recogniser Alternation.stops) AlternationSpan := by
  have accepted : ∀ (run after : Text) (position : Nat),
      Alternation.body.accept { position, rest := run ++ ')' :: after }
          { symbol := ')', position := position + run.length, after } =
        some (run, { position := position + run.length + 1, rest := after }) := by
    intro run after position
    simp [Alternation.body, Stop.next]
  apply Bracketed.recogniser_accepts
  · intro span body construct
    obtain ⟨_, free, sameLine⟩ := construct
    refine ⟨body, ')', [], ?_, by decide, rfl, ?_⟩
    · intro symbol member stop
      simp only [Alternation.stops, List.mem_cons, List.not_mem_nil, or_false] at stop
      rcases stop with rfl | rfl
      · exact free member
      · exact sameLine member
    · intro position after next moves
      rw [Cursor.Moves.nil_iff.mp moves]
      exact accepted body after position
  · intro run close position after value next free _ read
    have closes : close = ')' := by
      simp only [Alternation.body] at read
      split at read
      · assumption
      · cases read
    subst closes
    rw [accepted run after position] at read
    obtain ⟨rfl, rfl⟩ := Prod.mk.inj (Option.some.inj read)
    have noClose : ')' ∉ run := fun member => free ')' member (by decide)
    have sameLine : '\n' ∉ run := fun member => free '\n' member (by decide)
    exact ⟨[], .body run noClose sameLine, Cursor.Moves.nil_iff.mpr rfl⟩

theorem shorthand_accepts (symbol : Char) :
    (Shorthand.recogniser symbol).Accepts (ShorthandSpan symbol) := by
  have parts := (Recogniser.char_accepts '\\').bind fun _ => Recogniser.char_accepts symbol
  apply parts.congr
  intro span value
  constructor
  · intro parts
    obtain ⟨_, _, _, rfl, rfl, rfl⟩ := parts
    exact .escaped
  · intro construct
    cases construct
    exact ⟨['\\'], (), [symbol], rfl, rfl, rfl⟩

end RandomCodes.Pattern
