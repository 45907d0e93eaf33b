import RandomCodes.Proofs.Pattern.Replacement
/-!
# What repeating groups and classes leaves in a text

A pass that repeats groups or classes reads neither the copies that it writes nor what comes to stand
together where a span has been left out. So it can leave a span with a quantifier behind it: when
there are two quantifiers behind one span, and when a span that is left out stands inside the bounds
of a quantifier. Where a text has neither, nothing is left.
-/

namespace RandomCodes.Pattern

/-- A closing bracket with two quantifiers behind it. -/
inductive Stacked (close : Char) : Grammar Unit
  | quantified {first second : Text} {inner outer : Quantifier}
      (bounded : QuantifierSpan first inner) (again : QuantifierSpan second outer) :
      Stacked close (close :: (first ++ second)) ()

/-- A character and, behind characters of some kind only, one of a few others. -/
inductive Reaches (first : Char) (Between : Char → Prop) (ends : List Char) : Grammar Unit
  | run (inside : Text) (between : ∀ symbol ∈ inside, Between symbol) {last : Char}
      (among : last ∈ ends) : Reaches first Between ends (first :: (inside ++ [last])) ()

/-- The beginning of a quantifier with an opening bracket behind it. -/
abbrev Broken : Grammar Unit :=
  Reaches '{' (fun symbol => symbol.isDigit ∨ symbol = ',') ['(', '[']

/-- The brackets of a group and those of a class. -/
inductive Brackets : Char → Char → Prop
  | round : Brackets '(' ')'
  | square : Brackets '[' ']'

theorem QuantifierSpan.exists_eq_braces
    {bounds : Text} {quantifier : Quantifier} (bounded : QuantifierSpan bounds quantifier) :
    ∃ inner, bounds = '{' :: (inner ++ ['}']) ∧ ∀ symbol ∈ inner, symbol.isDigit ∨ symbol = ',' := by
  obtain ⟨least, most, _⟩ := bounded
  refine ⟨least.digits ++ ',' :: most.digits, by simp [quantifierText], ?_⟩
  intro symbol member
  simp only [List.mem_append, List.mem_cons] at member
  rcases member with digit | comma | digit
  · exact .inl (least.isDigit symbol digit)
  · exact .inr comma
  · exact .inl (most.isDigit symbol digit)

theorem QuantifierSpan.not_bracket
    {bounds : Text} {quantifier : Quantifier} (bounded : QuantifierSpan bounds quantifier) :
    ∀ symbol ∈ bounds, symbol ∉ ['(', ')', '[', ']'] := by
  obtain ⟨least, most, _⟩ := bounded
  have other : ∀ bracket ∈ ['(', ')', '[', ']'], ¬ (bracket.isDigit ∨ bracket ∈ ['{', ',', '}']) :=
    forall_of_all (by decide)
  exact fun symbol member bracket => other symbol bracket (mem_quantifierText member)

/-- A text that begins with a quantifier begins with a brace. -/
theorem QuantifierSpan.head?_eq
    {rest : Text} (begins : Grammar.Begins QuantifierSpan rest) : rest.head? = some '{' := by
  obtain ⟨bounds, quantifier, bounded, behind, rfl⟩ := begins
  obtain ⟨inner, rfl, _⟩ := bounded.exists_eq_braces
  rfl

namespace Brackets

variable {opening close : Char} (brackets : Brackets opening close)

include brackets

theorem ne : opening ≠ close := by
  cases brackets <;> decide

theorem opens : opening ∈ ['(', '['] := by
  cases brackets <;> decide

theorem ne_brace : opening ≠ '{' := by
  cases brackets <;> decide

theorem close_not_mem
    {bounds : Text} {quantifier : Quantifier} (bounded : QuantifierSpan bounds quantifier) :
    close ∉ bounds := by
  intro member
  refine bounded.not_bracket close member ?_
  cases brackets <;> decide

end Brackets

theorem prefix_of_append_eq_concat
    {front back others : Text} {last : Char} (cut : front ++ back = others ++ [last])
    (nonempty : back ≠ []) : front <+: others := by
  have within : front <+: others ++ [last] := ⟨back, cut⟩
  rcases List.prefix_concat_iff.mp within with whole | within
  · exact absurd (by simpa [whole] using cut) nonempty
  · exact within

/-- A text has one first place of a character. -/
theorem eq_of_append_cons_eq
    {close : Char} {first second : Text} (firstFree : close ∉ first) (secondFree : close ∉ second)
    {behind later : Text} (same : first ++ close :: behind = second ++ close :: later) :
    first = second ∧ behind = later := by
  induction first generalizing second with
  | nil =>
      cases second with
      | nil => exact ⟨rfl, (List.cons.inj same).2⟩
      | cons symbol second =>
          obtain ⟨rfl, _⟩ := List.cons.inj same
          exact absurd List.mem_cons_self secondFree
  | cons symbol first inductionHypothesis =>
      cases second with
      | nil =>
          obtain ⟨rfl, _⟩ := List.cons.inj same
          exact absurd List.mem_cons_self firstFree
      | cons other second =>
          obtain ⟨rfl, others⟩ := List.cons.inj same
          obtain ⟨rfl, rest⟩ := inductionHypothesis (List.ne_and_not_mem_of_not_mem_cons firstFree).2
            (List.ne_and_not_mem_of_not_mem_cons secondFree).2 others
          exact ⟨rfl, rest⟩

/-- What holds behind the copies of an atom and is kept by one more copy holds in front of them. -/
theorem Repetition.Makes.induction
    {repetition : Repetition} {word : Text} (made : repetition.Makes word) {motive : Text → Prop}
    {rest : Text} (behind : motive rest)
    (copy : ∀ later, motive later → motive (repetition.atom ++ later)) : motive (word ++ rest) := by
  obtain ⟨count, rfl⟩ := made
  induction count with
  | zero => exact behind
  | succ count inductionHypothesis =>
      rw [List.replicate_succ, List.flatten_cons, List.append_assoc]
      exact copy _ inductionHypothesis

/-- The result is the text with some copies of its atom in the place of each span in these brackets
that has a quantifier. -/
abbrev Repeated (opening close : Char) (kind : AtomKind) : Text → Text → Prop :=
  Becomes (EnclosedSpan opening close kind) Repetition.Makes

/-- Behind these closing brackets no quantifier has another one behind it, and no quantifier is
interrupted by a bracket. -/
structure Sparse (close : Char) (text : Text) : Prop where
  stacked : Grammar.Absent (Stacked close) text
  broken : Grammar.Absent Broken text

theorem Sparse.of_suffix
    {close : Char} {text rest : Text} (sparse : Sparse close text) (suffix : rest <:+ text) :
    Sparse close rest where
  stacked later inside := sparse.stacked later (inside.trans suffix)
  broken later inside := sparse.broken later (inside.trans suffix)

section Enclosed

variable {opening close : Char} {kind : AtomKind} {text result : Text}

theorem EnclosedSpan.exists_eq_cons
    {span : Text} {repetition : Repetition}
    (construct : EnclosedSpan opening close kind span repetition) :
    ∃ behind, span = opening :: behind := by
  cases construct
  exact ⟨_, rfl⟩

theorem begins_enclosed_iff {rest : Text} :
    Grammar.Begins (EnclosedSpan opening close kind) rest ↔
      ∃ body later, rest = opening :: (body ++ close :: later) ∧ body ≠ [] ∧ close ∉ body ∧
        Grammar.Begins QuantifierSpan later := by
  constructor
  · intro begins
    obtain ⟨_, _, ⟨body, nonempty, free, bounded⟩, behind, rfl⟩ := begins
    exact ⟨body, _, by simp, nonempty, free, _, _, bounded, List.prefix_append _ behind⟩
  · intro parts
    obtain ⟨body, _, rfl, nonempty, free, bounds, _, bounded, behind, rfl⟩ := parts
    exact ⟨_, _, .quantified body nonempty free bounded, behind, by simp⟩

theorem not_begins_enclosed_of_head?_ne {rest : Text} (other : rest.head? ≠ some opening) :
    ¬ Grammar.Begins (EnclosedSpan opening close kind) rest := by
  intro begins
  obtain ⟨body, later, rfl, _⟩ := begins_enclosed_iff.mp begins
  exact other rfl

/-- A repeated span with a quantifier behind it has two of them. -/
theorem EnclosedSpan.not_begins_quantifier
    {span : Text} {repetition : Repetition}
    (construct : EnclosedSpan opening close kind span repetition)
    (sparse : Sparse close (span ++ text)) : ¬ Grammar.Begins QuantifierSpan text := by
  intro begins
  obtain ⟨body, _, _, bounded⟩ := construct
  obtain ⟨second, quantifier, again, later, rfl⟩ := begins
  refine sparse.stacked _ ⟨opening :: body, ?_⟩ ⟨_, (), .quantified bounded again, later, rfl⟩
  simp

/-- A quantifier in front of a result is one of the text. -/
theorem Becomes.quantifier
    (becomes : Repeated opening close kind text result)
    (brackets : Brackets opening close) (sparse : Sparse close text)
    {bounds behind : Text} {quantifier : Quantifier} (bounded : QuantifierSpan bounds quantifier)
    (cut : result = bounds ++ behind) :
    ∃ later, text = bounds ++ later ∧
      Repeated opening close kind later behind := by
  induction becomes with
  | nil =>
      obtain ⟨inner, rfl, _⟩ := bounded.exists_eq_braces
      cases cut
  | kept symbol outside becomes _ =>
      obtain ⟨inner, rfl, inside⟩ := bounded.exists_eq_braces
      obtain ⟨rfl, others⟩ := List.cons.inj cut
      rcases becomes.of_append others with whole | interrupted
      · obtain ⟨later, rfl, further⟩ := whole
        exact ⟨later, rfl, further⟩
      · obtain ⟨begun, rest, span, repetition, later, _, _, parts, nonempty, construct, rfl, _⟩ :=
          interrupted
        have front := prefix_of_append_eq_concat parts.symm nonempty
        have bounds : ∀ symbol ∈ begun, symbol.isDigit ∨ symbol = ',' :=
          fun symbol member => inside symbol (front.subset member)
        obtain ⟨behind, rfl⟩ := construct.exists_eq_cons
        have broken : Grammar.Begins Broken ('{' :: (begun ++ (opening :: behind ++ later))) :=
          ⟨_, (), .run begun bounds brackets.opens, behind ++ later, by simp⟩
        exact absurd broken (sparse.broken _ List.suffix_rfl)
  | @word span word later _ repetition construct made becomes inductionHypothesis =>
      obtain ⟨count, rfl⟩ := made
      cases count with
      | zero =>
          have front := inductionHypothesis (sparse.of_suffix (List.suffix_append span later)) cut
          obtain ⟨later, rfl, _⟩ := front
          exact absurd ⟨_, _, bounded, List.prefix_append bounds later⟩
            (construct.not_begins_quantifier sparse)
      | succ count =>
          have first := QuantifierSpan.head?_eq ⟨_, _, bounded, behind, cut.symm⟩
          obtain ⟨body, _, _, _⟩ := construct
          rw [List.replicate_succ] at first
          exact absurd (Option.some.inj first) brackets.ne_brace

theorem Becomes.begins_quantifier
    (becomes : Repeated opening close kind text result)
    (brackets : Brackets opening close) (sparse : Sparse close text)
    (begins : Grammar.Begins QuantifierSpan result) : Grammar.Begins QuantifierSpan text := by
  obtain ⟨bounds, quantifier, bounded, behind, rfl⟩ := begins
  obtain ⟨later, rfl, _⟩ := becomes.quantifier brackets sparse bounded rfl
  exact ⟨bounds, quantifier, bounded, List.prefix_append bounds later⟩

/-- An atom in front of a text that begins with no quantifier adds no span with one. -/
theorem absent_enclosed_append
    (brackets : Brackets opening close) {body later : Text} (free : close ∉ body)
    (absent : Grammar.Absent (EnclosedSpan opening close kind) later)
    (unquantified : ¬ Grammar.Begins QuantifierSpan later) :
    Grammar.Absent (EnclosedSpan opening close kind) (opening :: (body ++ [close]) ++ later) := by
  apply absent.append
  intro tail nonempty suffix begins
  have within : tail <:+ (opening :: body) ++ [close] := suffix
  rcases List.suffix_concat_iff.mp within with none | cut
  · exact nonempty none
  · obtain ⟨front, rfl, inAtom⟩ := cut
    obtain ⟨otherBody, rest, written, _, otherFree, quantified⟩ := begins_enclosed_iff.mp begins
    have frontFree : close ∉ front := by
      intro member
      rcases List.mem_cons.mp (inAtom.subset member) with same | inBody
      · exact brackets.ne same.symm
      · exact free inBody
    have bothFree : close ∉ opening :: otherBody := by
      simp [brackets.ne.symm, otherFree]
    rw [List.append_assoc] at written
    obtain ⟨_, rfl⟩ := eq_of_append_cons_eq frontFree bothFree written
    exact unquantified quantified

/-- The pass leaves no span with a quantifier behind it. -/
theorem Becomes.absent_enclosed
    (becomes : Repeated opening close kind text result)
    (brackets : Brackets opening close) (sparse : Sparse close text) :
    Grammar.Absent (EnclosedSpan opening close kind) result := by
  apply becomes.absent (not_begins_enclosed_of_head?_ne (by simp))
  · intro symbol later laterResult suffix outside further begins
    obtain ⟨body, _, written, nonempty, free, bounded⟩ := begins_enclosed_iff.mp begins
    obtain ⟨rfl, others⟩ := List.cons.inj written.symm
    have cut := others.symm.trans (List.append_cons body close _)
    rcases further.of_append cut with whole | interrupted
    · obtain ⟨rest, rfl, restBecomes⟩ := whole
      have restSparse := sparse.of_suffix
        ((List.suffix_append (opening :: (body ++ [close])) rest).trans suffix)
      have quantified := restBecomes.begins_quantifier brackets restSparse bounded
      exact outside (begins_enclosed_iff.mpr ⟨body, rest, by simp, nonempty, free, quantified⟩)
    · -- The span that is repeated ends at the same bracket if it is taken to begin earlier.
      obtain ⟨kept, rest, _, _, unread, _, _, parts, restNonempty, inner, rfl, _⟩ := interrupted
      have front := prefix_of_append_eq_concat parts.symm restNonempty
      have innerBegins := begins_enclosed_iff.mp ⟨_, _, inner, List.prefix_append _ unread⟩
      obtain ⟨innerBody, later, innerWritten, _, innerFree, innerBounded⟩ := innerBegins
      have wholeFree : close ∉ kept ++ opening :: innerBody := by
        simp only [List.mem_append, List.mem_cons, not_or]
        exact ⟨fun member => free (front.subset member), brackets.ne.symm, innerFree⟩
      refine outside (begins_enclosed_iff.mpr ⟨_, later, ?_, by simp, wholeFree, innerBounded⟩)
      rw [innerWritten, List.append_assoc, List.cons_append]
  · intro span repetition word later laterResult suffix construct made further absent
    have laterSparse := sparse.of_suffix ((List.suffix_append span later).trans suffix)
    have unquantified : ¬ Grammar.Begins QuantifierSpan laterResult := fun begins =>
      construct.not_begins_quantifier (sparse.of_suffix suffix)
        (further.begins_quantifier brackets laterSparse begins)
    obtain ⟨body, _, free, _⟩ := construct
    -- Behind each copy there is another one, or what follows the last.
    have copies := made.induction (motive := fun rest =>
      Grammar.Absent (EnclosedSpan opening close kind) rest ∧ ¬ Grammar.Begins QuantifierSpan rest)
      ⟨absent, unquantified⟩ fun rest behind => by
        refine ⟨absent_enclosed_append brackets free behind.1 behind.2, fun begins => ?_⟩
        exact brackets.ne_brace (Option.some.inj (QuantifierSpan.head?_eq begins))
    exact copies.1

/-- An atom ends with its closing bracket. -/
theorem EnclosedSpan.exists_eq_concat
    {span : Text} {repetition : Repetition}
    (construct : EnclosedSpan opening close kind span repetition) :
    ∃ front bounds, repetition.atom = front ++ [close] ∧ span = repetition.atom ++ bounds := by
  cases construct with
  | @quantified body _ _ bounds _ _ => exact ⟨opening :: body, bounds, rfl, by simp⟩

/-- A construct that has the closing bracket at its end at most comes in at a kept character or not
at all. -/
theorem Becomes.absent_of_kept
    (becomes : Repeated opening close kind text result)
    {target : Grammar Unit} (absent : target.Absent text)
    (ends : ∀ front back, target (front ++ close :: back) () → back = [])
    (kept : ∀ symbol later laterResult, symbol :: later <:+ text →
      Repeated opening close kind later laterResult →
      target.Begins (symbol :: laterResult) → target.Begins (symbol :: later)) :
    target.Absent result := by
  apply becomes.absent (absent [] (List.nil_suffix))
  · intro symbol later laterResult suffix _ further begins
    exact absent _ suffix (kept symbol later laterResult suffix further begins)
  · intro span repetition word later laterResult suffix construct made _ behind
    obtain ⟨front, bounds, atom, rfl⟩ := construct.exists_eq_concat
    refine made.induction behind fun rest restAbsent => restAbsent.append ?_
    intro tail nonempty inAtom begins
    obtain ⟨found, _, targeted, stands⟩ := begins
    have inText : tail ++ (bounds ++ later) <:+ text := by
      obtain ⟨before, whole⟩ := inAtom
      refine List.IsSuffix.trans ⟨before, ?_⟩ suffix
      rw [← whole]
      simp
    rcases List.prefix_or_prefix_of_prefix stands (List.prefix_append tail rest) with within | beyond
    · exact absent _ inText ⟨found, (), targeted, within.trans (List.prefix_append _ _)⟩
    · -- It would go on behind the closing bracket of a copy.
      obtain ⟨more, rfl⟩ := beyond
      rw [atom] at inAtom
      rcases List.suffix_concat_iff.mp inAtom with none | cut
      · exact nonempty none
      · obtain ⟨start, rfl, _⟩ := cut
        obtain rfl := ends start more (by simpa using targeted)
        exact absent _ inText ⟨_, (), targeted, by simp⟩

/-- Where an opening bracket can end a construct as well as its last character, a span that is
repeated inside it brings in none. -/
theorem Becomes.absent_reaches
    (becomes : Repeated opening close kind text result)
    {first : Char} {Between : Char → Prop} {ends : List Char} (opens : opening ∈ ends)
    (other : close ≠ first) (outside : ¬ Between close)
    (absent : Grammar.Absent (Reaches first Between ends) text) :
    Grammar.Absent (Reaches first Between ends) result := by
  apply becomes.absent_of_kept absent
  · intro front back construct
    generalize whole : front ++ close :: back = span at construct
    obtain ⟨inside, between, _⟩ := construct
    cases front with
    | nil => exact absurd (List.cons.inj whole).1 other
    | cons symbol front =>
        have cut := (List.append_cons front close back).symm.trans (List.cons.inj whole).2
        by_contra nonempty
        have front := prefix_of_append_eq_concat cut nonempty
        exact outside (between close (front.subset (by simp)))
  · intro symbol later laterResult _ further begins
    obtain ⟨_, _, ⟨inside, between, among⟩, behind, written⟩ := begins
    obtain ⟨rfl, others⟩ := List.cons.inj written
    rcases further.of_append others.symm with whole | interrupted
    · obtain ⟨unread, rfl, _⟩ := whole
      exact ⟨_, (), .run inside between among, unread, by simp⟩
    · obtain ⟨kept, rest, _, _, unread, _, _, parts, nonempty, construct, rfl, _⟩ := interrupted
      have front := prefix_of_append_eq_concat parts.symm nonempty
      obtain ⟨spanBehind, rfl⟩ := construct.exists_eq_cons
      exact ⟨_, (), .run kept (fun symbol member => between symbol (front.subset member)) opens,
        spanBehind ++ unread, by simp⟩

/-- Nor are two quantifiers brought together behind another closing bracket. -/
theorem Becomes.absent_stacked
    (becomes : Repeated opening close kind text result)
    (brackets : Brackets opening close) (sparse : Sparse close text) {other : Char}
    (different : close ≠ other) (absent : Grammar.Absent (Stacked other) text) :
    Grammar.Absent (Stacked other) result := by
  apply becomes.absent_of_kept absent
  · intro front back construct
    generalize whole : front ++ close :: back = span at construct
    obtain ⟨bounded, again⟩ := construct
    have member : close ∈ other :: (_ ++ _) := whole ▸ List.mem_append_right front List.mem_cons_self
    simp only [List.mem_cons, List.mem_append, different, brackets.close_not_mem bounded,
      brackets.close_not_mem again, or_self] at member
  · intro symbol later laterResult suffix further begins
    obtain ⟨_, _, ⟨bounded, again⟩, behind, written⟩ := begins
    obtain ⟨rfl, others⟩ := List.cons.inj written
    have laterSparse := sparse.of_suffix ((List.suffix_cons other later).trans suffix)
    obtain ⟨middle, rfl, middleBecomes⟩ :=
      further.quantifier brackets laterSparse bounded (others.symm.trans (List.append_assoc _ _ _))
    have middleSparse := laterSparse.of_suffix (List.suffix_append _ middle)
    obtain ⟨unread, rfl, _⟩ := middleBecomes.quantifier brackets middleSparse again rfl
    exact ⟨_, (), .quantified bounded again, unread, by simp⟩

end Enclosed

end RandomCodes.Pattern
