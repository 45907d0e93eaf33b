import Mathlib.Data.Nat.Count
import RandomCodes.Proofs.Pattern.Characters
import RandomCodes.Proofs.Pattern.EscapeParity
/-!
# All markers at once

A character stands free at a place of a text when the run of backslashes right before it is even.
Replacing what is not escaped replaces a character at the places where it stands free, in order. The
markers are expanded in three passes, the later ones over a text that has been rewritten already,
but no word that is put in has a backslash or a marker in it. So the three passes together put words
in the free places of the text as it was, all of them at once.
-/

namespace RandomCodes

namespace Draws

variable {α β : Type}

theorem mapM_replicate (count : Nat) (program : Draws α) :
    (List.replicate count program).mapM id = collect count program := by
  induction count with
  | zero => rfl
  | succ count inductionHypothesis =>
      rw [List.replicate_succ, List.mapM_cons, inductionHypothesis, collect_succ]
      rfl

theorem collect_map (function : α → β) (program : Draws α) (count : Nat) :
    collect count (function <$> program) = List.map function <$> collect count program := by
  induction count with
  | zero => rfl
  | succ count inductionHypothesis =>
      rw [collect_succ, collect_succ, inductionHypothesis]
      simp

theorem collect_pure (value : α) (count : Nat) :
    collect count (pure value) = pure (List.replicate count value) := by
  induction count with
  | zero => rfl
  | succ count inductionHypothesis =>
      rw [collect_succ, inductionHypothesis]
      rfl

end Draws

namespace Pattern

variable {m : Type → Type} [Monad m] [LawfulMonad m] {marker symbol : Char} {replacement : m Text}
  {escaped : Bool} {text : Text} {words : Char → List Text}

/-- The character stands at the place, and the run of backslashes right before it is even. -/
def StandsFree (symbol : Char) (text : Text) (position : Nat) : Prop :=
  text[position]? = some symbol ∧ Even (escapeRun (text.take position))

instance (symbol : Char) (text : Text) : DecidablePred (StandsFree symbol text) :=
  fun _ => inferInstanceAs (Decidable (_ ∧ _))

/-- The number of places of the text in which the character stands free. -/
def freeCount (symbol : Char) (text : Text) : Nat :=
  Nat.count (StandsFree symbol text) text.length

/-- The word for a place: where a character stands free and `k` times so before, the word with
number `k` of those for the character. -/
def wordAt (words : Char → List Text) (text : Text) (position : Nat) : Option Text :=
  text[position]?.bind fun symbol =>
    if StandsFree symbol text position then
      (words symbol)[Nat.count (StandsFree symbol text) position]?
    else none

/-- The text with the words in their places, and all other characters where they were. -/
def putWords (words : Char → List Text) (text : Text) : Text :=
  (List.range text.length).flatMap fun position =>
    (wordAt words text position).getD text[position]?.toList

/-- The number of free places of the character, `escaped` saying whether the first is escaped. -/
def countFrom (marker : Char) : Bool → Text → Nat
  | _, [] => 0
  | escaped, symbol :: rest =>
      (if symbol = marker ∧ escaped = false then 1 else 0) +
        countFrom marker (escapesNext escaped symbol) rest

/-- Goes along the text and takes the next word for each character that stands free. -/
def fillFrom : Bool → (Char → List Text) → Text → Text
  | _, _, [] => []
  | escaped, words, symbol :: rest =>
      match words symbol with
      | [] => symbol :: fillFrom (escapesNext escaped symbol) words rest
      | word :: later =>
          if escaped then symbol :: fillFrom false words rest
          else word ++ fillFrom (escapesNext false symbol) (Function.update words symbol later) rest

theorem fillFrom_word {word : Text} {later : List Text} (first : words symbol = word :: later)
    (rest : Text) :
    fillFrom false words (symbol :: rest) =
      word ++ fillFrom (escapesNext false symbol) (Function.update words symbol later) rest := by
  simp only [fillFrom, first]
  rfl

theorem fillFrom_kept (kept : words symbol = [] ∨ escaped = true) (rest : Text) :
    fillFrom escaped words (symbol :: rest) =
      symbol :: fillFrom (escapesNext escaped symbol) words rest := by
  rcases kept with none | rfl
  · simp only [fillFrom, none]
  · have passed : escapesNext true symbol = false := by simp [escapesNext]
    rw [passed, fillFrom, passed]
    cases words symbol <;> rfl

theorem fillFrom_nothing (escaped : Bool) (text : Text) :
    fillFrom escaped (fun _ => []) text = text := by
  induction text generalizing escaped with
  | nil => rfl
  | cons symbol rest inductionHypothesis =>
      rw [fillFrom_kept (.inl rfl), inductionHypothesis]

theorem standsFree_length_iff {front : Text} (other : Char) :
    StandsFree symbol (front ++ other :: text) front.length ↔
      other = symbol ∧ front.foldl escapesNext false = false := by
  rw [StandsFree, foldl_escapesNext_eq_false_iff]
  simp

/-- Counting the free places of a whole text goes on behind any front of it. -/
theorem count_standsFree (symbol : Char) (front text : Text) :
    Nat.count (StandsFree symbol (front ++ text)) (front.length + text.length) =
      Nat.count (StandsFree symbol (front ++ text)) front.length +
        countFrom symbol (front.foldl escapesNext false) text := by
  induction text generalizing front with
  | nil => rfl
  | cons head rest inductionHypothesis =>
      have behind := inductionHypothesis (front ++ [head])
      rw [List.append_assoc, List.singleton_append, List.length_append, List.length_singleton,
        List.foldl_append, List.foldl_cons, List.foldl_nil, Nat.count_succ] at behind
      have place : StandsFree symbol (front ++ head :: rest) front.length ↔
          head = symbol ∧ front.foldl escapesNext false = false := standsFree_length_iff head
      rw [List.length_cons, ← Nat.add_assoc, Nat.add_right_comm, behind, countFrom,
        if_congr place rfl rfl, Nat.add_assoc]

theorem freeCount_eq (symbol : Char) (text : Text) :
    freeCount symbol text = countFrom symbol false text := by
  have whole := count_standsFree symbol [] text
  simpa [freeCount] using whole

/-- The words that are left for each character at a place. -/
def wordsLeft
    (words : Char → List Text) (text : Text) (position : Nat) (symbol : Char) : List Text :=
  (words symbol).drop (Nat.count (StandsFree symbol text) position)

section AtPlace

variable {front : Text} (head : Char) (rest : Text)

theorem wordAt_length :
    wordAt words (front ++ head :: rest) front.length =
      if front.foldl escapesNext false = false then
        (wordsLeft words (front ++ head :: rest) front.length head).head?
      else none := by
  have here : (front ++ head :: rest)[front.length]? = some head := by simp
  simp only [wordAt, here, Option.bind_some, wordsLeft, List.head?_drop, standsFree_length_iff,
    true_and]

theorem wordsLeft_succ_of_free (free : front.foldl escapesNext false = false) :
    wordsLeft words (front ++ head :: rest) (front.length + 1) =
      Function.update (wordsLeft words (front ++ head :: rest) front.length) head
        ((wordsLeft words (front ++ head :: rest) front.length head).drop 1) := by
  funext symbol
  rw [wordsLeft, Nat.count_succ]
  by_cases same : symbol = head
  · subst same
    rw [if_pos ((standsFree_length_iff _).mpr ⟨rfl, free⟩), Function.update_self, wordsLeft,
      List.drop_drop]
  · have elsewhere : ¬ StandsFree symbol (front ++ head :: rest) front.length := fun stands =>
      same ((standsFree_length_iff _).mp stands).1.symm
    rw [if_neg elsewhere, Function.update_of_ne same]
    rfl

theorem wordsLeft_succ_of_escaped (taken : front.foldl escapesNext false = true) :
    wordsLeft words (front ++ head :: rest) (front.length + 1) =
      wordsLeft words (front ++ head :: rest) front.length := by
  funext symbol
  have elsewhere : ¬ StandsFree symbol (front ++ head :: rest) front.length := fun stands =>
    absurd ((standsFree_length_iff _).mp stands).2 (by simp [taken])
  rw [wordsLeft, Nat.count_succ, if_neg elsewhere]
  rfl

end AtPlace

/-- Putting the words in place behind a front is going along from there with what it leaves. -/
theorem flatMap_wordAt (words : Char → List Text) (front text : Text) :
    ((List.range text.length).flatMap fun offset =>
        (wordAt words (front ++ text) (front.length + offset)).getD
          (front ++ text)[front.length + offset]?.toList) =
      fillFrom (front.foldl escapesNext false) (wordsLeft words (front ++ text) front.length)
        text := by
  induction text generalizing front with
  | nil => rfl
  | cons head rest inductionHypothesis =>
      have behind := inductionHypothesis (front ++ [head])
      rw [List.append_assoc, List.singleton_append, List.length_append, List.length_singleton,
        List.foldl_append, List.foldl_cons, List.foldl_nil] at behind
      have here : (front ++ head :: rest)[front.length]? = some head := by simp
      rw [List.length_cons, List.range_succ_eq_map, List.flatMap_cons, List.flatMap_map,
        Nat.add_zero, wordAt_length, here]
      simp only [Nat.succ_eq_add_one, ← Nat.add_assoc, Nat.add_right_comm _ _ 1, behind]
      cases state : front.foldl escapesNext false with
      | true =>
          rw [wordsLeft_succ_of_escaped head rest state, fillFrom_kept (.inr rfl)]
          rfl
      | false =>
          rw [wordsLeft_succ_of_free head rest state, if_pos rfl]
          cases left : wordsLeft words (front ++ head :: rest) front.length head with
          | nil =>
              rw [fillFrom_kept (.inl left), List.drop_nil, ← left, Function.update_eq_self]
              simp [left]
          | cons word later =>
              rw [fillFrom_word left]
              rfl

theorem putWords_eq (words : Char → List Text) (text : Text) :
    putWords words text = fillFrom false words text := by
  have whole := flatMap_wordAt words [] text
  have unused : wordsLeft words text 0 = words := by
    funext symbol
    simp [wordsLeft]
  simpa [putWords, unused] using whole

/-- Words that a pass for `marker` neither changes nor is changed by: it has none of its own yet,
there is none for the backslash, and neither of the two is in any word. -/
structure Passable (marker : Char) (words : Char → List Text) : Prop where
  unused : words marker = []
  escape : words '\\' = []
  noEscape : ∀ symbol, ∀ word ∈ words symbol, '\\' ∉ word
  absent : ∀ symbol, ∀ word ∈ words symbol, marker ∉ word

theorem passable_nothing (marker : Char) : Passable marker fun _ => [] where
  unused := rfl
  escape := rfl
  noEscape _ _ member := absurd member List.not_mem_nil
  absent _ _ member := absurd member List.not_mem_nil

namespace Passable

theorem ne_of_eq_cons
    (passable : Passable marker words) {word : Text} {later : List Text}
    (first : words symbol = word :: later) : symbol ≠ marker ∧ symbol ≠ '\\' := by
  constructor
  · rintro rfl
    rw [passable.unused] at first
    cases first
  · rintro rfl
    rw [passable.escape] at first
    cases first

theorem drop
    (passable : Passable marker words) {word : Text} {later : List Text}
    (first : words symbol = word :: later) :
    Passable marker (Function.update words symbol later) := by
  obtain ⟨other, plain⟩ := passable.ne_of_eq_cons first
  have among : ∀ another, ∀ taken ∈ Function.update words symbol later another,
      taken ∈ words another := by
    intro another taken member
    by_cases same : another = symbol
    · subst same
      rw [Function.update_self] at member
      rw [first]
      exact List.mem_cons_of_mem word member
    · rwa [Function.update_of_ne same] at member
  exact
    { unused := by rw [Function.update_of_ne (Ne.symm other), passable.unused]
      escape := by rw [Function.update_of_ne (Ne.symm plain), passable.escape]
      noEscape := fun another taken member =>
        passable.noEscape another taken (among another taken member)
      absent := fun another taken member =>
        passable.absent another taken (among another taken member) }

end Passable

/-- Replacing one more character in a text that has words in some places already: the words asked
for are those of this character in the text as it was. -/
theorem replaceFrom_fillFrom
    (noEscape : marker ≠ '\\') (passable : Passable marker words) (escaped : Bool) (text : Text) :
    replaceFrom marker replacement escaped (fillFrom escaped words text) =
      (fun drawn => fillFrom escaped (Function.update words marker drawn) text) <$>
        (List.replicate (countFrom marker escaped text) replacement).mapM id := by
  induction text generalizing escaped words with
  | nil => simp [fillFrom, countFrom]
  | cons symbol rest inductionHypothesis =>
      rcases replaced_or_kept marker symbol escaped with ⟨rfl, rfl⟩ | kept
      · -- The character is replaced here, and no earlier pass has put a word in its place.
        have behind := inductionHypothesis passable false
        rw [fillFrom_kept (.inl passable.unused), escapesNext_of_ne noEscape, replaceFrom_marker,
          behind, countFrom, if_pos ⟨rfl, rfl⟩, escapesNext_of_ne noEscape, Nat.add_comm,
          List.replicate_succ, List.mapM_cons]
        have step : ∀ word later,
            fillFrom false (Function.update words symbol (word :: later)) (symbol :: rest) =
              word ++ fillFrom false (Function.update words symbol later) rest := by
          intro word later
          rw [fillFrom_word (Function.update_self _ _ _), Function.update_idem,
            escapesNext_of_ne noEscape]
        simp [step]
      · have notHere : ¬ (symbol = marker ∧ escaped = false) := fun here => by
          rw [kept here.1] at here
          exact absurd here.2 (by decide)
        rw [countFrom, if_neg notHere, Nat.zero_add]
        by_cases stays : words symbol = [] ∨ escaped = true
        · have behind := inductionHypothesis passable (escapesNext escaped symbol)
          have step : ∀ drawn,
              fillFrom escaped (Function.update words marker drawn) (symbol :: rest) =
                symbol :: fillFrom (escapesNext escaped symbol)
                  (Function.update words marker drawn) rest := by
            intro drawn
            apply fillFrom_kept
            by_cases same : symbol = marker
            · exact .inr (kept same)
            · exact stays.imp_left fun none => by rw [Function.update_of_ne same, none]
          rw [fillFrom_kept stays, replaceFrom_cons_of_kept kept, behind]
          simp [step]
        · -- An earlier pass has put a word here, which this one reads without a change.
          obtain ⟨something, free⟩ := not_or.mp stays
          obtain rfl := Bool.eq_false_of_not_eq_true free
          obtain ⟨word, later, left⟩ := List.exists_cons_of_ne_nil something
          obtain ⟨other, plain⟩ := passable.ne_of_eq_cons left
          have inWords : word ∈ words symbol := left ▸ List.mem_cons_self
          have behind := inductionHypothesis (passable.drop left) false
          have step : ∀ drawn,
              fillFrom false (Function.update words marker drawn) (symbol :: rest) =
                word ++ fillFrom false
                  (Function.update (Function.update words symbol later) marker drawn) rest := by
            intro drawn
            have first : Function.update words marker drawn symbol = word :: later := by
              rw [Function.update_of_ne other, left]
            rw [fillFrom_word first, escapesNext_of_ne plain, Function.update_comm other]
          have inWord := passable.noEscape symbol word inWords
          have absent := passable.absent symbol word inWords
          rw [fillFrom_word left, escapesNext_of_ne plain,
            replaceFrom_word_append inWord absent noEscape, behind]
          simp [step]

/-- One pass over a text: the words asked for, one for each free place of the character, are put in
these places. -/
theorem replaceUnescaped_eq_putWords (noEscape : marker ≠ '\\') (text : Text) :
    replaceUnescaped marker replacement text =
      (fun drawn => putWords (Function.update (fun _ => []) marker drawn) text) <$>
        (List.replicate (freeCount marker text) replacement).mapM id := by
  rw [replaceUnescaped_eq_replaceFrom, freeCount_eq]
  simp only [putWords_eq]
  rw [← replaceFrom_fillFrom noEscape (passable_nothing marker), fillFrom_nothing]

/-! ## All passes -/

/-- Written quantifiers may be put in the places of one marker before another is expanded. -/
theorem Passable.update
    {other : Marker} (passable : Passable other.symbol words) (kind : Marker)
    (different : other ≠ kind) (quantifiers : List Quantifier) :
    Passable other.symbol
      (Function.update words kind.symbol (quantifiers.map Quantifier.toText)) := by
  have elsewhere : other.symbol ≠ kind.symbol := by
    cases other <;> cases kind <;> first | exact absurd rfl different | decide
  have plain : '\\' ≠ kind.symbol := by cases kind <;> decide
  have parts : ∀ symbol, ∀ word ∈ Function.update words kind.symbol
      (quantifiers.map Quantifier.toText) symbol,
        word ∈ words symbol ∨ ∃ quantifier : Quantifier, quantifier.toText = word := by
    intro symbol word member
    by_cases same : symbol = kind.symbol
    · subst same
      rw [Function.update_self] at member
      obtain ⟨quantifier, _, written⟩ := List.mem_map.mp member
      exact .inr ⟨quantifier, written⟩
    · rw [Function.update_of_ne same] at member
      exact .inl member
  refine ⟨?_, ?_, ?_, ?_⟩
  · rw [Function.update_of_ne elsewhere, passable.unused]
  · rw [Function.update_of_ne plain, passable.escape]
  · intro symbol word member
    rcases parts symbol word member with before | ⟨quantifier, rfl⟩
    · exact passable.noEscape symbol word before
    · exact quantifier.not_mem_toText (by decide) (by decide)
  · intro symbol word member
    rcases parts symbol word member with before | ⟨quantifier, rfl⟩
    · exact passable.absent symbol word before
    · exact quantifier.not_mem_toText (by cases other <;> decide) (by cases other <;> decide)

theorem Marker.expand_fillFrom
    (kind : Marker) (passable : Passable kind.symbol words) (text : Text) :
    kind.expand (fillFrom false words text) =
      (fun quantifiers => fillFrom false
          (Function.update words kind.symbol (quantifiers.map Quantifier.toText)) text) <$>
        Draws.collect (freeCount kind.symbol text) kind.quantifier := by
  have noEscape : kind.symbol ≠ '\\' := by cases kind <;> decide
  rw [expand, replaceUnescaped_eq_replaceFrom, replaceFrom_fillFrom noEscape passable,
    Draws.mapM_replicate, Draws.collect_map, freeCount_eq, Functor.map_map]

/-- The words for the markers of a text: one and the same for each `?`, one with the next bound for
each `*` and each `+`. -/
def markerWords (optional : Nat) (stars pluses : List Nat) : Char → List Text
  | '?' => List.replicate optional ['{', '0', ',', '1', '}']
  | '*' => stars.map fun most => '{' :: '0' :: ',' :: Nat.toDigits 10 most ++ ['}']
  | '+' => pluses.map fun most => '{' :: '1' :: ',' :: Nat.toDigits 10 most ++ ['}']
  | _ => []

theorem update_eq_markerWords (optional : Nat) (stars pluses : List Nat) :
    Function.update (Function.update (Function.update (fun _ => [])
        Marker.optional.symbol
          ((List.replicate optional { least := 0, most := 1 }).map Quantifier.toText))
        Marker.zeroOrMore.symbol
          ((stars.map fun most => { least := 0, most }).map Quantifier.toText))
        Marker.oneOrMore.symbol
          ((pluses.map fun most => { least := 1, most }).map Quantifier.toText) =
      markerWords optional stars pluses := by
  have fromZero := Quantifier.toText_of_digit (show Nat.toDigits 10 0 = ['0'] from rfl)
  have fromOne := Quantifier.toText_of_digit (show Nat.toDigits 10 1 = ['1'] from rfl)
  rw [List.map_replicate, List.map_map, List.map_map]
  funext symbol
  unfold markerWords
  simp only [← Quantifier.toText_zero_one, ← fromZero, ← fromOne]
  split
  · rfl
  · rfl
  · rfl
  · rename_i notOptional notStar notPlus
    exact (Function.update_of_ne notPlus _ _).trans
      ((Function.update_of_ne notStar _ _).trans (Function.update_of_ne notOptional _ _))

/-- The bounds are drawn for each `*` of the text as it was, then for each `+` of it. -/
theorem expandMarkers_eq_putWords (text : Text) :
    expandMarkers text = (do
      let stars ← Draws.collect (freeCount '*' text) (Draws.between 1 9)
      let pluses ← Draws.collect (freeCount '+' text) (Draws.between 1 9)
      return putWords (markerWords (freeCount '?' text) stars pluses) text) := by
  have fixed : Marker.optional.quantifier = pure { least := 0, most := 1 } := rfl
  have free : Marker.zeroOrMore.quantifier =
      (fun most => { least := 0, most }) <$> Draws.between 1 9 := rfl
  have positive : Marker.oneOrMore.quantifier =
      (fun most => { least := 1, most }) <$> Draws.between 1 9 := rfl
  have first := Marker.optional.expand_fillFrom (passable_nothing _) text
  have second := fun bounds => Marker.zeroOrMore.expand_fillFrom
    ((passable_nothing _).update .optional (by decide) bounds) text
  have third := fun bounds others => Marker.oneOrMore.expand_fillFrom
    (((passable_nothing _).update .optional (by decide) bounds).update .zeroOrMore (by decide)
      others) text
  rw [fillFrom_nothing, fixed, Draws.collect_pure] at first
  simp only [free, Draws.collect_map, Functor.map_map] at second
  simp only [positive, Draws.collect_map, Functor.map_map] at third
  simp only [expandMarkers, Marker.all, List.foldlM_cons, List.foldlM_nil, bind_pure, first,
    map_pure, pure_bind, second, bind_map_left, third, update_eq_markerWords]
  simp only [map_eq_pure_bind, putWords_eq]
  rfl

/-- Replacing a character that is not escaped, by whatever words a program gives one after the
other, puts these words in the free places of the text in order and changes nothing else. The three
passes for the markers draw a bound for each free `*` of the text they begin with and then one for
each free `+` of it, and put the quantifiers in the free places of that text, all at once. -/
theorem markers_expand_at_once :
    (∀ {m : Type → Type} [Monad m] [LawfulMonad m] (marker : Char), marker ≠ '\\' →
      ∀ (replacement : m Text) (text : Text),
        replaceUnescaped marker replacement text =
          (fun drawn => putWords (Function.update (fun _ => []) marker drawn) text) <$>
            (List.replicate (freeCount marker text) replacement).mapM id) ∧
      ∀ text, expandMarkers text = do
        let stars ← Draws.collect (freeCount '*' text) (Draws.between 1 9)
        let pluses ← Draws.collect (freeCount '+' text) (Draws.between 1 9)
        return putWords (markerWords (freeCount '?' text) stars pluses) text :=
  ⟨fun _ noEscape _ text => replaceUnescaped_eq_putWords noEscape text, expandMarkers_eq_putWords⟩

/-- One number more with each call, in decimal notation. -/
def numbered : StateM Nat Text := fun number => (Text.decimal number, number + 1)

/-- The first star is escaped, the second stands behind two backslashes and the third behind it. -/
theorem markers_expand_at_once_numbered :
    let text := "\\**\\\\*".toList
    '*' ≠ '\\' ∧
      replaceUnescaped '*' numbered text =
        (fun drawn => putWords (Function.update (fun _ => []) '*' drawn) text) <$>
          (List.replicate (freeCount '*' text) numbered).mapM id ∧
      Id.run ((replaceUnescaped '*' numbered text).run 1) = ("\\*1\\\\2".toList, 3) := by
  intro text
  have noEscape : '*' ≠ '\\' := by decide
  exact ⟨noEscape, markers_expand_at_once.1 '*' noEscape numbered text, by decide⟩

end Pattern

end RandomCodes
