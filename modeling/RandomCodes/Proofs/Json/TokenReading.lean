import RandomCodes.Json.Reader
import RandomCodes.Proofs.Json.Grammar
/-!
# Reading tokens and entries between brackets

What readers do with single characters, blanks and strings. A reader reads a text when it takes
exactly that text, whatever follows, as long as the text ends there; its result is then that of the
text alone. Entries with commas between them are read one after the other, each in the light of the
state that those before it have led to. Blanks around the entries make no difference.
-/

namespace RandomCodes.Json

/-- What can stand behind a token. No value begins with these characters or goes on with them. -/
def delimiters : List Char := blanks ++ [',', ':', ']', '}']

def Ends (rest : Text) : Prop :=
  ∀ symbol ∈ rest.head?, symbol ∈ delimiters

def Starts (text : Text) : Prop :=
  ∃ first ∈ text.head?, first ∉ delimiters

theorem Ends.head?_ne {rest : Text} (ends : Ends rest) {symbol : Char}
    (other : symbol ∉ delimiters) : rest.head? ≠ some symbol :=
  fun same => other (ends symbol same)

namespace Reader

variable {Reason α β : Type}

theorem bind_of_run_eq_ok
    {reader : Reader Reason α} {text rest : Text} {value : α}
    (read : reader.run text = .ok (value, rest)) (following : α → Reader Reason β) :
    (reader >>= following).run text = (following value).run rest := by
  rw [StateT.run_bind, read]
  rfl

/-- Takes the text, whatever follows it, with this result. -/
def Reads (reader : Reader Reason α) (text : Text) (result : Except (Failure Reason) α) : Prop :=
  ∀ rest, Ends rest → reader.run (text ++ rest) = (·, rest) <$> result

theorem ends_nil : Ends [] := by
  rintro symbol ⟨⟩

theorem Reads.run'_eq
    {reader : Reader Reason α} {text : Text} {result : Except (Failure Reason) α}
    (reads : Reads reader text result) : reader.run' text = result := by
  have alone := reads [] ends_nil
  rw [List.append_nil] at alone
  show Prod.fst <$> reader.run text = result
  rw [alone]
  cases result <;> rfl

theorem map_run
    {reader : Reader Reason α} {text rest : Text} {result : Except (Failure Reason) α}
    (read : reader.run text = (·, rest) <$> result) (convert : α → β) :
    (do return convert (← reader)).run text = (·, rest) <$> (convert <$> result) := by
  rw [StateT.run_bind, read]
  cases result <;> rfl

theorem Reads.map
    {reader : Reader Reason α} {text : Text} {result : Except (Failure Reason) α}
    (reads : Reads reader text result) (convert : α → β) :
    Reads (do return convert (← reader)) text (convert <$> result) :=
  fun rest ends => map_run (reads rest ends) convert

/-- What follows looks at the result only. -/
theorem Reads.bind
    {reader : Reader Reason α} {text : Text} {result : Except (Failure Reason) α}
    (reads : Reads reader text result) {following : α → Reader Reason β}
    {settled : α → Except (Failure Reason) β}
    (settles : ∀ value rest, (following value).run rest = (·, rest) <$> settled value) :
    Reads (reader >>= following) text (result >>= settled) := by
  intro rest ends
  rw [StateT.run_bind, reads rest ends]
  cases result with
  | error failure => rfl
  | ok value => exact settles value rest

theorem takes_self (symbol : Char) (rest : Text) :
    (takes symbol : Reader Reason Bool).run (symbol :: rest) = .ok (true, rest) :=
  if_pos rfl

theorem takes_of_head?_ne {symbol : Char} {text : Text} (other : text.head? ≠ some symbol) :
    (takes symbol : Reader Reason Bool).run text = .ok (false, text) := by
  cases text with
  | nil => rfl
  | cons first rest =>
      have different : first ≠ symbol := by simpa using other
      exact if_neg different

theorem expect_self (symbol : Char) (rest : Text) :
    (expect symbol : Reader Reason Unit).run (symbol :: rest) = .ok ((), rest) :=
  bind_of_run_eq_ok (takes_self symbol rest) _

theorem expectWord_append (word rest : Text) :
    (expectWord word : Reader Reason Unit).run (word ++ rest) = .ok ((), rest) := by
  induction word with
  | nil => rfl
  | cons symbol word inductionHypothesis =>
      exact (bind_of_run_eq_ok (expect_self symbol (word ++ rest)) _).trans inductionHypothesis

theorem blank_nil : Blank [] := by
  simp [Blank]

theorem isBlank_iff (symbol : Char) : isBlank symbol ↔ symbol ∈ blanks := by
  simp [isBlank, blanks, or_assoc]

/-- The next character, if there is one, is no blank. -/
def Tight (text : Text) : Prop :=
  ∀ symbol ∈ text.head?, symbol ∉ blanks

theorem dropWhile_isBlank {before text : Text} (blank : Blank before) (tight : Tight text) :
    (before ++ text).dropWhile isBlank = text := by
  have front : ∀ symbol ∈ before, isBlank symbol :=
    fun symbol member => (isBlank_iff symbol).mpr (blank symbol member)
  rw [List.dropWhile_append_of_pos front]
  cases text with
  | nil => rfl
  | cons symbol rest =>
      have other : ¬isBlank symbol := fun found => tight symbol rfl ((isBlank_iff symbol).mp found)
      exact List.dropWhile_cons_of_neg other

theorem skipBlank_append {before text : Text} (blank : Blank before) (tight : Tight text) :
    (skipBlank : Reader Reason Unit).run (before ++ text) = .ok ((), text) := by
  show Except.ok ((), (before ++ text).dropWhile isBlank) = _
  rw [dropWhile_isBlank blank tight]

theorem peek?_append {before text : Text} (blank : Blank before) (tight : Tight text) :
    (peek? : Reader Reason (Option Char)).run (before ++ text) = .ok (text.head?, text) :=
  bind_of_run_eq_ok (skipBlank_append blank tight) _

theorem peek?_of_tight {text : Text} (tight : Tight text) :
    (peek? : Reader Reason (Option Char)).run text = .ok (text.head?, text) :=
  peek?_append blank_nil tight

theorem takesToken_self {before : Text} (blank : Blank before) {symbol : Char}
    (visible : symbol ∉ blanks) (rest : Text) :
    (takesToken symbol : Reader Reason Bool).run (before ++ symbol :: rest) = .ok (true, rest) := by
  have tight : Tight (symbol :: rest) := by
    rintro first ⟨rfl⟩
    exact visible
  rw [takesToken, bind_of_run_eq_ok (skipBlank_append blank tight), takes_self]

theorem takesToken_of_head?_ne {before text : Text} (blank : Blank before) (tight : Tight text)
    {symbol : Char} (other : text.head? ≠ some symbol) :
    (takesToken symbol : Reader Reason Bool).run (before ++ text) = .ok (false, text) := by
  rw [takesToken, bind_of_run_eq_ok (skipBlank_append blank tight), takes_of_head?_ne other]

theorem hexDigit?_of_mem {digit : Char × Nat} (member : digit ∈ hexDigits) :
    hexDigit? digit.1 = some digit.2 ∧ digit.2 < 16 := by
  have table : ∀ known ∈ hexDigits, hexDigit? known.1 = some known.2 ∧ known.2 < 16 := by decide
  exact table digit member

theorem shortEscape?_of_mem {letter symbol : Char} (member : (letter, symbol) ∈ shortEscapes) :
    shortEscape? letter = some symbol ∧ letter ≠ 'u' := by
  have table : ∀ known ∈ shortEscapes, shortEscape? known.1 = some known.2 ∧ known.1 ≠ 'u' := by
    decide
  exact table (letter, symbol) member

theorem charOfCode?_toNat (symbol : Char) : charOfCode? symbol.toNat = some symbol := by
  have valid : symbol.toNat.isValidChar := symbol.valid
  rw [charOfCode?, dif_pos valid]
  rfl

theorem stringBody?_word
    {word : Text} {value : Nat} (hex : HexWord word value) (leading : Option Nat)
    (latestFirst rest : Text) :
    stringBody? leading latestFirst ('\\' :: 'u' :: (word ++ rest)) = (
      match leading with
      | some leading => do
          let symbol ← charOfSurrogates? leading value
          stringBody? none (symbol :: latestFirst) rest
      | none =>
          if isLeadingSurrogate value then stringBody? (some value) latestFirst rest
          else do
            let symbol ← charOfCode? value
            stringBody? none (symbol :: latestFirst) rest) := by
  cases hex with
  | @digits first second third fourth firstMem secondMem thirdMem fourthMem =>
      have read : hexWord? first.1 second.1 third.1 fourth.1 =
          some (((first.2 * 16 + second.2) * 16 + third.2) * 16 + fourth.2) := by
        simp only [hexWord?, (hexDigit?_of_mem firstMem).1, (hexDigit?_of_mem secondMem).1,
          (hexDigit?_of_mem thirdMem).1, (hexDigit?_of_mem fourthMem).1, Option.bind_eq_bind,
          Option.bind_some, Option.pure_def, Option.some.injEq]
        omega
      simp only [List.cons_append, List.nil_append]
      rw [stringBody?, read]
      rfl

theorem stringBody?_plain
    {symbol : Char} (visible : ' ' ≤ symbol) (noQuote : symbol ≠ '"') (noEscape : symbol ≠ '\\')
    (latestFirst rest : Text) :
    stringBody? none latestFirst (symbol :: rest) =
      stringBody? none (symbol :: latestFirst) rest := by
  rw [stringBody?]
  · exact if_neg (Char.not_lt.mpr visible)
  all_goals simp_all

theorem stringBody?_short
    {letter symbol : Char} (member : (letter, symbol) ∈ shortEscapes) (latestFirst rest : Text) :
    stringBody? none latestFirst ('\\' :: letter :: rest) =
      stringBody? none (symbol :: latestFirst) rest := by
  obtain ⟨known, other⟩ := shortEscape?_of_mem member
  rw [stringBody?]
  · intro _ _ _ _ _ same
    exact absurd same other
  · exact known

/-- The code of a character is that of no surrogate. -/
theorem isLeadingSurrogate_toNat (symbol : Char) : isLeadingSurrogate symbol.toNat = false := by
  have valid : symbol.toNat.isValidChar := symbol.valid
  simp only [Nat.isValidChar] at valid
  simp only [isLeadingSurrogate, Bool.and_eq_false_iff, decide_eq_false_iff_not]
  omega

theorem stringBody?_spelledChar
    {symbol : Char} {spelling : Text} (spelled : SpelledChar symbol spelling)
    (latestFirst rest : Text) :
    stringBody? none latestFirst (spelling ++ rest) =
      stringBody? none (symbol :: latestFirst) rest := by
  cases spelled with
  | plain visible noQuote noEscape =>
      exact stringBody?_plain visible noQuote noEscape latestFirst rest
  | short member => exact stringBody?_short member latestFirst rest
  | code hex =>
      rw [List.cons_append, List.cons_append, stringBody?_word hex]
      simp [isLeadingSurrogate_toNat, charOfCode?_toNat]
  | @surrogates _ _ _ high low highSmall lowSmall value leading trailing =>
      have first : isLeadingSurrogate (0xD800 + high) = true := by
        simp only [isLeadingSurrogate, Bool.and_eq_true, decide_eq_true_eq]
        omega
      have joined : charOfSurrogates? (0xD800 + high) (0xDC00 + low) = some symbol := by
        have code : 0x10000 + (0xD800 + high - 0xD800) * 0x400 + (0xDC00 + low - 0xDC00) =
            symbol.toNat := by
          omega
        rw [charOfSurrogates?, if_pos (by omega), code, charOfCode?_toNat]
      rw [List.cons_append, List.cons_append, List.append_assoc, stringBody?_word leading]
      simp only [first, if_true, List.cons_append]
      rw [stringBody?_word trailing]
      simp [joined]

theorem stringBody?_spelledText
    {text spelling : Text} (spelled : SpelledText text spelling) (latestFirst rest : Text) :
    stringBody? none latestFirst (spelling ++ '"' :: rest) =
      some (latestFirst.reverse ++ text, rest) := by
  induction spelled generalizing latestFirst with
  | nil => simp [stringBody?]
  | cons first _ inductionHypothesis =>
      rw [List.append_assoc, stringBody?_spelledChar first, inductionHypothesis]
      simp

theorem string_append {text spelling : Text} (spelled : SpelledText text spelling) (rest : Text) :
    (string : Reader Reason Text).run (stringText spelling ++ rest) = .ok (text, rest) := by
  have body := stringBody?_spelledText spelled [] rest
  have joined : stringText spelling ++ rest = '"' :: (spelling ++ '"' :: rest) := by
    simp [stringText]
  rw [joined, string, bind_of_run_eq_ok (expect_self '"' _)]
  simp only [List.reverse_nil, List.nil_append] at body
  have current : (get : Reader Reason Text).run (spelling ++ '"' :: rest) =
      .ok (spelling ++ '"' :: rest, spelling ++ '"' :: rest) :=
    rfl
  rw [bind_of_run_eq_ok current, body]
  rfl

end Reader

theorem Blank.append {front back : Text} (first : Blank front) (second : Blank back) :
    Blank (front ++ back) := by
  intro symbol member
  exact (List.mem_append.mp member).elim (first symbol) (second symbol)

theorem Ends.prepend {before text : Text} (blank : Blank before) (ends : Ends text) :
    Ends (before ++ text) := by
  cases before with
  | nil => exact ends
  | cons symbol others =>
      rintro first ⟨rfl⟩
      exact List.mem_append_left _ (blank symbol List.mem_cons_self)

theorem ends_cons {symbol : Char} (delimiter : symbol ∈ delimiters) (rest : Text) :
    Ends (symbol :: rest) := by
  rintro first ⟨rfl⟩
  exact delimiter

namespace Starts

theorem append {text : Text} (starts : Starts text) (rest : Text) : Starts (text ++ rest) := by
  obtain ⟨first, head, other⟩ := starts
  exact ⟨first, by simp [List.head?_append, Option.mem_def.mp head], other⟩

theorem tight {text : Text} (starts : Starts text) : Reader.Tight text := by
  obtain ⟨first, head, other⟩ := starts
  intro symbol same
  obtain rfl := Option.mem_unique head same
  exact fun blank => other (List.mem_append_left _ blank)

theorem head?_ne {text : Text} (starts : Starts text) {symbol : Char}
    (delimiter : symbol ∈ delimiters) : text.head? ≠ some symbol := by
  obtain ⟨first, head, other⟩ := starts
  intro same
  obtain rfl := Option.mem_unique head same
  exact other delimiter

end Starts

/-- A text with blanks around it. -/
structure Place where
  before : Text
  core : Text
  after : Text

def Place.text (place : Place) : Text :=
  place.before ++ (place.core ++ place.after)

namespace Reader

variable {Reason State Entry α β : Type}

/-- Blanks in front make no difference. -/
def SkipsBlank (reader : Reader Reason α) : Prop :=
  ∀ before text, Blank before → Tight text → reader.run (before ++ text) = reader.run text

theorem skipsBlank_skipBlank : SkipsBlank (skipBlank : Reader Reason Unit) := by
  intro before text blank tight
  rw [skipBlank_append blank tight]
  exact (skipBlank_append blank_nil tight).symm

theorem SkipsBlank.bind
    {reader : Reader Reason α} (skips : SkipsBlank reader) (following : α → Reader Reason β) :
    SkipsBlank (reader >>= following) := by
  intro before text blank tight
  rw [StateT.run_bind, StateT.run_bind, skips before text blank tight]

theorem Reads.skip
    {reader : Reader Reason α} {text : Text} {result : Except (Failure Reason) α}
    (reads : Reads reader text result) (skips : SkipsBlank reader) (starts : Starts text)
    {before : Text} (blank : Blank before) : Reads reader (before ++ text) result := by
  intro rest ends
  rw [List.append_assoc, skips before _ blank (starts.append rest).tight, reads rest ends]

/-- The entry at a place is read like its core alone. -/
structure ReadsEntry (entry : State → Reader Reason State) (place : Place)
    (step : State → Except (Failure Reason) State) : Prop where
  before : Blank place.before
  after : Blank place.after
  starts : Starts place.core
  reads : ∀ state, Reads (entry state) place.core (step state)
  skips : ∀ state, SkipsBlank (entry state)

theorem ReadsEntry.bind_append
    {entry : State → Reader Reason State} {place : Place}
    {step : State → Except (Failure Reason) State} (readsEntry : ReadsEntry entry place step)
    (state : State) (following : State → Reader Reason β) {before rest : Text}
    (blank : Blank before) (ends : Ends rest) :
    (entry state >>= following).run (before ++ (place.core ++ (place.after ++ rest))) =
      step state >>= fun next => (following next).run (place.after ++ rest) := by
  have tight := (readsEntry.starts.append (place.after ++ rest)).tight
  rw [StateT.run_bind, readsEntry.skips state before _ blank tight,
    readsEntry.reads state (place.after ++ rest) (ends.prepend readsEntry.after)]
  cases step state <;> rfl

/-- The entries behind the first one, each with its comma. -/
def furtherText (places : List Place) : Text :=
  places.flatMap fun place => ',' :: place.text

theorem ends_furtherText
    {closing : Char} (closes : closing ∈ [']', '}']) (places : List Place) (rest : Text) :
    Ends (furtherText places ++ closing :: rest) := by
  cases places with
  | nil =>
      have delimiter : ∀ symbol ∈ [']', '}'], symbol ∈ delimiters := by simp [delimiters]
      exact ends_cons (delimiter closing closes) rest
  | cons place places => exact ends_cons (by decide) _

variable {closing : Char} {entry : State → Reader Reason State} {layout : Entry → Place}
  {step : State → Entry → Except (Failure Reason) State}

theorem length_le_furtherText (places : List Place) :
    places.length ≤ (furtherText places).length := by
  induction places with
  | nil => exact Nat.le_refl 0
  | cons place places inductionHypothesis =>
      rw [furtherText, List.flatMap_cons, List.length_append, List.length_cons, List.length_cons]
      have others : places.length ≤ (places.flatMap fun place => ',' :: place.text).length :=
        inductionHypothesis
      omega

theorem further_comma
    (closes : closing ∈ [']', '}']) {behind : Text} (blank : Blank behind) (bound : Nat)
    (state : State) (rest : Text) :
    (entries.further closing entry (bound + 1) state).run (behind ++ ',' :: rest) =
      (entry state >>= entries.further closing entry bound).run rest := by
  have different : ∀ symbol ∈ [']', '}'], ',' ≠ symbol := by simp
  have noClosing : (',' :: rest).head? ≠ some closing := by
    simpa using different closing closes
  have comma : Tight (',' :: rest) := by
    rintro symbol ⟨rfl⟩
    decide
  have taken : (takesToken ',' : Reader Reason Bool).run (',' :: rest) = .ok (true, rest) :=
    takesToken_self blank_nil (by decide) rest
  rw [entries.further, bind_of_run_eq_ok (takesToken_of_head?_ne blank comma noClosing),
    if_neg Bool.false_ne_true, bind_of_run_eq_ok taken, if_pos rfl]

theorem further_append
    (closes : closing ∈ [']', '}']) {placed : List Entry}
    (readsEntry : ∀ item ∈ placed, ReadsEntry entry (layout item) fun state => step state item)
    {behind : Text} (blank : Blank behind) {bound : Nat} (bounded : placed.length < bound)
    (state : State) (rest : Text) :
    (entries.further closing entry bound state).run
        (behind ++ (furtherText (placed.map layout) ++ closing :: rest)) =
      (·, rest) <$> placed.foldlM step state := by
  induction placed generalizing behind bound state with
  | nil =>
      have visible : ∀ symbol ∈ [']', '}'], symbol ∉ blanks := by simp [blanks]
      obtain ⟨bound, rfl⟩ := Nat.exists_eq_add_one.mpr bounded
      exact bind_of_run_eq_ok (takesToken_self blank (visible closing closes) rest) _
  | cons item placed inductionHypothesis =>
      obtain ⟨bound, rfl⟩ := Nat.exists_eq_add_one.mpr (Nat.zero_lt_of_lt bounded)
      have first := readsEntry item List.mem_cons_self
      have others := fun other member => readsEntry other (List.mem_cons_of_mem item member)
      have text : furtherText ((item :: placed).map layout) ++ closing :: rest =
          ',' :: ((layout item).before ++ ((layout item).core ++ ((layout item).after ++
            (furtherText (placed.map layout) ++ closing :: rest)))) := by
        simp [furtherText, Place.text]
      rw [text, further_comma closes blank, List.foldlM_cons,
        first.bind_append state _ first.before (ends_furtherText closes _ rest)]
      cases step state item with
      | error failure => rfl
      | ok next => exact inductionHypothesis others first.after (Nat.lt_of_succ_lt_succ bounded) next

theorem intercalate_cons (place : Place) (places : List Place) :
    [','].intercalate ((place :: places).map Place.text) = place.text ++ furtherText places := by
  induction places generalizing place with
  | nil => simp [furtherText]
  | cons next places inductionHypothesis =>
      rw [List.map_cons, List.map_cons, List.intercalate_cons_cons, ← List.map_cons,
        inductionHypothesis]
      simp [furtherText]

theorem entries_append
    (closes : closing ∈ [']', '}']) {placed : List Entry}
    (readsEntry : ∀ item ∈ placed, ReadsEntry entry (layout item) fun state => step state item)
    {before : Text} (blank : Blank before) (state : State) (rest : Text) :
    (entries closing entry state).run
        (before ++ ([','].intercalate (placed.map fun item => (layout item).text) ++
          closing :: rest)) =
      (·, rest) <$> placed.foldlM step state := by
  cases placed with
  | nil =>
      have visible : ∀ symbol ∈ [']', '}'], symbol ∉ blanks := by simp [blanks]
      exact bind_of_run_eq_ok (takesToken_self blank (visible closing closes) rest) _
  | cons item placed =>
      have first := readsEntry item List.mem_cons_self
      have others := fun other member => readsEntry other (List.mem_cons_of_mem item member)
      have delimiter : ∀ symbol ∈ [']', '}'], symbol ∈ delimiters := by simp [delimiters]
      have ends := ends_furtherText closes (placed.map layout) rest
      have text : before ++ ([','].intercalate
            ((item :: placed).map fun item => (layout item).text) ++ closing :: rest) =
          (before ++ (layout item).before) ++ ((layout item).core ++ ((layout item).after ++
            (furtherText (placed.map layout) ++ closing :: rest))) := by
        have joined := intercalate_cons (layout item) (placed.map layout)
        rw [← List.map_cons, List.map_map] at joined
        rw [show (fun item => (layout item).text) = Place.text ∘ layout from rfl, joined]
        simp [Place.text]
      have starts := first.starts.append
        ((layout item).after ++ (furtherText (placed.map layout) ++ closing :: rest))
      have bounded : placed.length < ((layout item).after ++
          (furtherText (placed.map layout) ++ closing :: rest)).length := by
        have counted := length_le_furtherText (placed.map layout)
        rw [List.length_map] at counted
        simp only [List.length_append, List.length_cons]
        omega
      rw [text, entries, bind_of_run_eq_ok (takesToken_of_head?_ne (blank.append first.before)
        starts.tight (starts.head?_ne (delimiter closing closes))), if_neg Bool.false_ne_true]
      refine (first.bind_append state _ blank_nil ends).trans ?_
      rw [List.foldlM_cons]
      cases step state item with
      | error failure => rfl
      | ok next => exact further_append closes others first.after bounded next rest

end Reader

end RandomCodes.Json
