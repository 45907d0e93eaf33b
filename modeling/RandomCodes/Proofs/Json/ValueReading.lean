import RandomCodes.Json.Reader
import RandomCodes.Proofs.Json.NumberReading
import RandomCodes.Proofs.Json.TokenReading
/-!
# Reading values

A value is read to its end, whatever follows it. What is read agrees with what the text says; only
a number that is no word may be refused, and what nests too deep.
-/

namespace RandomCodes.Json

/-- A value says what a tree does: truth values, texts and words exactly, arrays and objects as
such. -/
inductive Conveys : Tree → Value → Prop
  | null : Conveys .null .null
  | boolean (value : Bool) : Conveys (.boolean value) (.boolean value)
  | number {literal : NumberLiteral} {number : Number} :
      literal.Conveys number → Conveys (.number literal) (.number number)
  | string (text : Text) : Conveys (.string text) (.string text)
  | array (items : List Tree) (values : List Value) : Conveys (.array items) (.array values)
  | object (members : List (Text × Tree)) (values : List (Text × Value)) :
      Conveys (.object members) (.object values)

/-- What cannot be refused: it neither nests nor exceeds a range. -/
inductive Tree.Plain : Tree → Prop
  | null : Plain .null
  | boolean (value : Bool) : Plain (.boolean value)
  | word {literal : NumberLiteral} {word : UInt64} : literal.IsWord word → Plain (.number literal)
  | string (text : Text) : Plain (.string text)

structure Tree.Yields {Reason : Type} (tree : Tree) (result : Except (Failure Reason) Value) :
    Prop where
  conveys : ∀ value, result = .ok value → Conveys tree value
  succeeds : tree.Plain → ∃ value, result = .ok value

theorem Conveys.yields
    {Reason : Type} {tree : Tree} {value : Value} (conveys : Conveys tree value) :
    tree.Yields (.ok value : Except (Failure Reason) Value) where
  conveys result same := by
    cases same
    exact conveys
  succeeds _ := ⟨value, rfl⟩

theorem Tree.yields_map
    {Reason α : Type} {tree : Tree} {convert : α → Value}
    (conveys : ∀ value, Conveys tree (convert value)) (nested : ¬tree.Plain)
    (result : Except (Failure Reason) α) : tree.Yields (convert <$> result) where
  conveys value same := by
    cases result with
    | error failure => cases same
    | ok read =>
        cases same
        exact conveys read
  succeeds plain := absurd plain nested

theorem NumberLiteral.Yields.tree
    {Reason : Type} {literal : NumberLiteral} {result : Except (Failure Reason) Number}
    (yields : literal.Yields result) : (Tree.number literal).Yields (Value.number <$> result) where
  conveys value same := by
    cases result with
    | error failure => cases same
    | ok number =>
        cases same
        exact .number (yields.conveys number rfl)
  succeeds plain := by
    obtain ⟨⟩ | ⟨⟩ | ⟨isWord⟩ | ⟨⟩ := plain
    obtain ⟨number, rfl⟩ := yields.succeeds _ isWord
    exact ⟨.number number, rfl⟩

def Item.place (item : Item) : Place where
  before := item.before
  core := item.text
  after := item.after

def Member.place (member : Member) : Place where
  before := member.before
  core := stringText member.nameSpelling ++
    (member.between ++ ':' :: (member.item.before ++ member.item.text))
  after := member.item.after

theorem Member.text_place (member : Member) : member.place.text = member.spelling := by
  simp [Place.text, place, spelling, Item.spelling]

theorem NumberLiteral.exists_head? (literal : NumberLiteral) :
    ∃ first, literal.text.head? = some first ∧ (first = '-' ∨ first.isDigit) := by
  rw [text, signText]
  cases literal.negative with
  | true => exact ⟨'-', rfl, .inl rfl⟩
  | false =>
      obtain ⟨first, others, digits⟩ := List.exists_cons_of_ne_nil literal.whole.ne_nil
      exact ⟨first, by simp [digits], .inr (literal.whole.isDigit first (by simp [digits]))⟩

/-- A number begins with no character that is neither a digit nor its sign. -/
theorem NumberLiteral.head_notMem
    {first : Char} (known : first = '-' ∨ first.isDigit) {others : List Char}
    (noDigits : others.all fun mark => mark ≠ '-' ∧ mark.isDigit = false) : first ∉ others := by
  intro member
  obtain ⟨noSign, noDigit⟩ := of_decide_eq_true (List.all_eq_true.mp noDigits first member)
  rcases known with sign | digit
  · exact noSign sign
  · rw [noDigit] at digit
    cases digit

theorem NumberLiteral.starts (literal : NumberLiteral) : Starts literal.text := by
  obtain ⟨first, head, known⟩ := literal.exists_head?
  exact ⟨first, head, head_notMem known (by decide)⟩

theorem starts_stringText (spelling : Text) : Starts (stringText spelling) :=
  ⟨'"', rfl, by decide⟩

theorem Written.starts {tree : Tree} {text : Text} (written : Written tree text) : Starts text := by
  cases written with
  | null => exact ⟨'n', rfl, by decide⟩
  | true => exact ⟨'t', rfl, by decide⟩
  | false => exact ⟨'f', rfl, by decide⟩
  | number literal => exact literal.starts
  | string _ => exact starts_stringText _
  | array => exact ⟨'[', rfl, by decide⟩
  | object => exact ⟨'{', rfl, by decide⟩

theorem Written.exists_head? {tree : Tree} {text : Text} (written : Written tree text) :
    ∃ first, text.head? = some first ∧ (first = '[' ↔ ∃ items, tree = .array items) ∧
      (first = '{' ↔ ∃ members, tree = .object members) := by
  cases written with
  | null => exact ⟨'n', rfl, by simp⟩
  | true => exact ⟨'t', rfl, by simp⟩
  | false => exact ⟨'f', rfl, by simp⟩
  | number literal =>
      obtain ⟨first, head, known⟩ := literal.exists_head?
      have other : first ∉ ['[', '{'] := NumberLiteral.head_notMem known (by decide)
      simp only [List.mem_cons, List.not_mem_nil, or_false, not_or] at other
      exact ⟨first, head, by simp [other.1], by simp [other.2]⟩
  | string _ => exact ⟨'"', rfl, by simp⟩
  | array => exact ⟨'[', rfl, by simp⟩
  | object => exact ⟨'{', rfl, by simp⟩

theorem enclosedText_append
    (opening closing : Char) (blanks : Text) (entries : List Text) (rest : Text) :
    enclosedText opening closing blanks entries ++ rest =
      opening :: (blanks ++ ([','].intercalate entries ++ closing :: rest)) := by
  simp [enclosedText]

namespace Reader

variable {Reason α β : Type}

theorem skipsBlank_value (depth : Nat) : SkipsBlank (value depth : Reader Reason Value) := by
  rw [value.eq_def]
  exact (skipsBlank_skipBlank.bind _).bind _

theorem memberName_append
    {name spelling : Text} (spelled : SpelledText name spelling) (rest : Text) :
    (memberName : Reader Reason Text).run (stringText spelling ++ rest) = .ok (name, rest) := by
  have tight := ((starts_stringText spelling).append rest).tight
  exact (bind_of_run_eq_ok (skipBlank_append blank_nil tight) _).trans (string_append spelled rest)

theorem Reads.named
    {name spelling text : Text} (spelled : SpelledText name spelling)
    {following : Text → Reader Reason α} {result : Except (Failure Reason) α}
    (reads : Reads (following name) text result) :
    Reads (memberName >>= following) (stringText spelling ++ text) result := by
  intro rest ends
  rw [List.append_assoc, bind_of_run_eq_ok (memberName_append spelled _), reads rest ends]

theorem colon_append {between : Text} (blank : Blank between) (rest : Text) :
    (colon : Reader Reason Unit).run (between ++ ':' :: rest) = .ok ((), rest) := by
  have tight : Tight (':' :: rest) := by
    rintro symbol ⟨rfl⟩
    decide
  exact (bind_of_run_eq_ok (skipBlank_append blank tight) _).trans (expect_self ':' rest)

theorem Reads.behindColon
    {between text : Text} (blank : Blank between) {reader : Reader Reason α}
    {result : Except (Failure Reason) α} (reads : Reads reader text result) :
    Reads (colon >>= fun _ => reader) (between ++ ':' :: text) result := by
  intro rest ends
  rw [List.append_assoc, List.cons_append, bind_of_run_eq_ok (colon_append blank _),
    reads rest ends]

/-- What no other value begins with is read as a number. -/
theorem value_of_head?
    {text : Text} {first : Char} (head : text.head? = some first) (tight : Tight text)
    (other : first ∉ ['n', 't', 'f', '"', '[', '{']) (depth : Nat) :
    (value depth : Reader Reason Value).run text =
      (do return Value.number (← number)).run text := by
  rw [value.eq_def, bind_of_run_eq_ok (peek?_of_tight tight), head]
  split <;> simp_all

theorem value_number_reads (literal : NumberLiteral) (depth : Nat) :
    ∃ result, Reads (value depth : Reader Reason Value) literal.text result ∧
      (Tree.number literal).Yields result := by
  obtain ⟨result, reads, yields⟩ := number_reads Reason literal
  refine ⟨Value.number <$> result, fun rest ends => ?_, yields.tree⟩
  obtain ⟨first, head, known⟩ := literal.exists_head?
  have other : first ∉ ['n', 't', 'f', '"', '[', '{'] :=
    NumberLiteral.head_notMem known (by decide)
  have tight := (literal.starts.append rest).tight
  have headBefore : (literal.text ++ rest).head? = some first := by
    simp [List.head?_append, head]
  rw [value_of_head? headBefore tight other]
  exact reads.map Value.number rest ends

def nextItem (depth : Nat) (values : List Value) : Reader Reason (List Value) :=
  return (← value depth) :: values

/-- What reading an item comes to: its value in front of those before it. -/
def addItem (depth : Nat) (values : List Value) (item : Item) :
    Except (Failure Reason) (List Value) :=
  (· :: values) <$> (value depth).run' item.text

theorem readsEntry_item
    {depth : Nat} {item : Item} {result : Except (Failure Reason) Value}
    (blank : item.Blank) (starts : Starts item.text) (reads : Reads (value depth) item.text result) :
    ReadsEntry (nextItem depth : _ → Reader Reason _) item.place
      fun values => addItem depth values item where
  before := blank.1
  after := blank.2
  starts := starts
  reads values := by
    rw [addItem, reads.run'_eq]
    exact reads.map (· :: values)
  skips _ := (skipsBlank_value depth).bind _

def nextMember (depth : Nat) (members : List (Text × Value)) :
    Reader Reason (List (Text × Value)) := do
  let name ← memberName
  colon
  return (name, ← value depth) :: members

def addMember (depth : Nat) (values : List (Text × Value)) (member : Member) :
    Except (Failure Reason) (List (Text × Value)) :=
  (fun value => (member.name, value) :: values) <$> (value depth).run' member.item.text

theorem readsEntry_member
    {depth : Nat} {member : Member} {result : Except (Failure Reason) Value}
    (blank : member.Blank) (spelled : SpelledText member.name member.nameSpelling)
    (starts : Starts member.item.text) (reads : Reads (value depth) member.item.text result) :
    ReadsEntry (nextMember depth : _ → Reader Reason _) member.place
      fun values => addMember depth values member where
  before := blank.1
  after := blank.2.2.2
  starts := (starts_stringText member.nameSpelling).append _
  reads values := by
    rw [addMember, reads.run'_eq]
    have behind := reads.skip (skipsBlank_value depth) starts blank.2.2.1
    exact ((behind.map fun value => (member.name, value) :: values).behindColon blank.2.1).named
      spelled
  skips _ := (skipsBlank_skipBlank.bind _).bind _

theorem value_array_reads
    {blanks : Text} {items : List Item} (blank : Blank blanks)
    (itemBlank : ∀ item ∈ items, item.Blank)
    (written : ∀ item ∈ items, Written item.tree item.text)
    (inner : ∀ item ∈ items, ∀ depth, ∃ result,
      Reads (value depth : Reader Reason Value) item.text result ∧ item.tree.Yields result)
    (depth : Nat) :
    ∃ result, Reads (value depth : Reader Reason Value)
        (enclosedText '[' ']' blanks (items.map Item.spelling)) result ∧
      (Tree.array (items.map Item.tree)).Yields result := by
  have nested : ¬(Tree.array (items.map Item.tree)).Plain := fun plain => by cases plain
  have starts := (Written.array blank itemBlank written).starts
  cases depth with
  | zero =>
      refine ⟨_, fun rest ends => ?_, Tree.yields_map (.array _) nested (.error .malformed)⟩
      rw [value.eq_def, bind_of_run_eq_ok (peek?_of_tight (starts.append rest).tight)]
      rfl
  | succ depth =>
      have readsEntry : ∀ item ∈ items,
          ReadsEntry (nextItem depth : _ → Reader Reason _) item.place
            fun values => addItem depth values item := by
        intro item member
        obtain ⟨result, reads, _⟩ := inner item member depth
        exact readsEntry_item (itemBlank item member) (written item member).starts reads
      refine ⟨_, fun rest ends => ?_,
        Tree.yields_map (fun values => .array _ values.reverse) nested
          (items.foldlM (addItem depth) [])⟩
      have closes : ']' ∈ [']', '}'] := by decide
      have whole := entries_append closes readsEntry blank [] rest
      rw [value.eq_def, bind_of_run_eq_ok (peek?_of_tight (starts.append rest).tight),
        enclosedText_append]
      exact (bind_of_run_eq_ok (expect_self '[' _) _).trans (map_run whole _)

theorem value_object_reads
    {blanks : Text} {members : List Member} (blank : Blank blanks)
    (memberBlank : ∀ member ∈ members, member.Blank)
    (spelled : ∀ member ∈ members, SpelledText member.name member.nameSpelling)
    (written : ∀ member ∈ members, Written member.item.tree member.item.text)
    (inner : ∀ member ∈ members, ∀ depth, ∃ result,
      Reads (value depth : Reader Reason Value) member.item.text result ∧
        member.item.tree.Yields result)
    (depth : Nat) :
    ∃ result, Reads (value depth : Reader Reason Value)
        (enclosedText '{' '}' blanks (members.map Member.spelling)) result ∧
      (Tree.object (members.map Member.entry)).Yields result := by
  have nested :
      ¬(Tree.object (members.map Member.entry)).Plain :=
    fun plain => by cases plain
  have starts := (Written.object blank memberBlank spelled written).starts
  cases depth with
  | zero =>
      refine ⟨_, fun rest ends => ?_, Tree.yields_map (.object _) nested (.error .malformed)⟩
      rw [value.eq_def, bind_of_run_eq_ok (peek?_of_tight (starts.append rest).tight)]
      rfl
  | succ depth =>
      have readsEntry : ∀ member ∈ members,
          ReadsEntry (nextMember depth : _ → Reader Reason _) member.place
            fun values => addMember depth values member := by
        intro member place
        obtain ⟨result, reads, _⟩ := inner member place depth
        exact readsEntry_member (memberBlank member place) (spelled member place)
          (written member place).starts reads
      refine ⟨_, fun rest ends => ?_,
        Tree.yields_map (fun values => .object _ values.reverse) nested
          (members.foldlM (addMember depth) [])⟩
      have closes : '}' ∈ [']', '}'] := by decide
      have whole := entries_append closes readsEntry blank [] rest
      simp only [Member.text_place] at whole
      rw [value.eq_def, bind_of_run_eq_ok (peek?_of_tight (starts.append rest).tight),
        enclosedText_append]
      exact (bind_of_run_eq_ok (expect_self '{' _) _).trans (map_run whole _)

theorem value_reads
    (Reason : Type) {tree : Tree} {text : Text} (written : Written tree text) (depth : Nat) :
    ∃ result, Reads (value depth : Reader Reason Value) text result ∧ tree.Yields result := by
  have peeked (text rest : Text) (starts : Starts text) :
      (peek? : Reader Reason _).run (text ++ rest) = .ok ((text ++ rest).head?, text ++ rest) :=
    peek?_of_tight (starts.append rest).tight
  induction written generalizing depth with
  | null =>
      refine ⟨_, fun rest ends => ?_, Conveys.null.yields⟩
      rw [value.eq_def, bind_of_run_eq_ok (peeked _ rest Written.null.starts)]
      exact bind_of_run_eq_ok (expectWord_append ['n', 'u', 'l', 'l'] rest) _
  | true =>
      refine ⟨_, fun rest ends => ?_, (Conveys.boolean true).yields⟩
      rw [value.eq_def, bind_of_run_eq_ok (peeked _ rest Written.true.starts)]
      exact bind_of_run_eq_ok (expectWord_append ['t', 'r', 'u', 'e'] rest) _
  | false =>
      refine ⟨_, fun rest ends => ?_, (Conveys.boolean false).yields⟩
      rw [value.eq_def, bind_of_run_eq_ok (peeked _ rest Written.false.starts)]
      exact bind_of_run_eq_ok (expectWord_append ['f', 'a', 'l', 's', 'e'] rest) _
  | number literal => exact value_number_reads literal depth
  | @string text spelling spelled =>
      refine ⟨_, fun rest ends => ?_, (Conveys.string text).yields⟩
      rw [value.eq_def, bind_of_run_eq_ok (peeked _ rest (starts_stringText spelling))]
      exact bind_of_run_eq_ok (string_append spelled rest) _
  | array blank itemBlank written inductionHypothesis =>
      exact value_array_reads blank itemBlank written inductionHypothesis depth
  | object blank memberBlank spelled written inductionHypothesis =>
      exact value_object_reads blank memberBlank spelled written inductionHypothesis depth

end Reader

end RandomCodes.Json
