import RandomCodes.Proofs.Pattern.Acceptance
/-!
# Searches that leave no trace

A stop finder keeps its latest search, so what it has been asked before decides which walk over the
text it makes. It does not decide what it finds: asked at any places of a text, in any order, it
gives the first stop at or after each of them. A pass therefore finds the same pieces as one that
takes a new finder at every place.
-/

namespace RandomCodes.Pattern

variable {α Memory : Type} {stops : List Char} {text : Text} {position : Nat}

/-- A stop of the text at or after a place, with no other one between the two, and the place right
behind it. -/
structure FirstStop (stops : List Char) (text : Text) (position : Nat) (stop : Stop) : Prop where
  notBefore : position ≤ stop.position
  stands : text[stop.position]? = some stop.symbol
  isStop : stop.symbol ∈ stops
  noneBetween : ∀ earlier, position ≤ earlier → earlier < stop.position →
    ∀ symbol ∈ text[earlier]?, symbol ∉ stops
  next : stop.next = Cursor.at text (stop.position + 1)

namespace FirstStop

theorem position_le
    {stop other : Stop} (first : FirstStop stops text position stop)
    (second : FirstStop stops text position other) : stop.position ≤ other.position := by
  by_contra earlier
  have outside := first.noneBetween other.position second.notBefore (Nat.lt_of_not_le earlier)
    other.symbol second.stands
  exact outside second.isStop

theorem unique
    {stop other : Stop} (first : FirstStop stops text position stop)
    (second : FirstStop stops text position other) : stop = other := by
  have place : stop.position = other.position :=
    Nat.le_antisymm (first.position_le second) (second.position_le first)
  have symbol : stop.symbol = other.symbol := by
    have stands := first.stands
    rw [place, second.stands] at stands
    exact (Option.some.inj stands).symm
  have after : stop.after = other.after := by
    have next := first.next
    rw [place, ← second.next] at next
    exact congrArg Cursor.rest next
  cases stop
  cases other
  simp only at place symbol after
  rw [place, symbol, after]

end FirstStop

/-- A search that gives a stop gives the first one. -/
theorem firstStop_of_eq_some
    {stop : Stop} (found : firstStop stops (Cursor.at text position) = some stop) :
    FirstStop stops text position stop := by
  obtain ⟨run, free, isStop, cut, place⟩ := firstStop_eq_some found
  have placed : ∀ index, text[position + index]? = (run ++ stop.symbol :: stop.after)[index]? := by
    intro index
    rw [← cut, List.getElem?_drop]
  refine ⟨by omega, ?_, isStop, ?_, ?_⟩
  · rw [place, placed, List.getElem?_append_right (Nat.le_refl _), Nat.sub_self]
    rfl
  · intro earlier notBefore before symbol stands
    obtain ⟨index, rfl⟩ := Nat.exists_eq_add_of_le notBefore
    have inside : index < run.length := by omega
    rw [placed, List.getElem?_append_left inside] at stands
    exact free symbol (List.mem_of_getElem? stands)
  · have behind : text.drop (stop.position + 1) = stop.after := by
      rw [place, Nat.add_assoc, ← List.drop_drop, cut, ← List.drop_drop, List.drop_left]
      rfl
    rw [Cursor.at, behind]
    rfl

theorem firstStop_ne_none
    {symbol : Char} (isStop : symbol ∈ stops) (member : symbol ∈ text) (position : Nat) :
    firstStop stops { position, rest := text } ≠ none := by
  induction text generalizing position with
  | nil => cases member
  | cons head rest inductionHypothesis =>
      by_cases stopsHere : head ∈ stops
      · rw [firstStop_cons_of_mem stopsHere]
        exact Option.some_ne_none _
      · rw [firstStop_cons_of_not_mem stopsHere]
        have other : symbol ≠ head := fun same => stopsHere (same ▸ isStop)
        exact inductionHypothesis (List.mem_of_ne_of_mem other member) (position + 1)

theorem firstStop_eq_none_iff :
    firstStop stops (Cursor.at text position) = none ↔
      ∀ symbol ∈ text.drop position, symbol ∉ stops := by
  constructor
  · intro missed symbol member isStop
    exact firstStop_ne_none isStop member position missed
  · intro free
    exact firstStop_eq_none free position

theorem firstStop_eq_some_iff {stop : Stop} :
    firstStop stops (Cursor.at text position) = some stop ↔ FirstStop stops text position stop := by
  constructor
  · exact firstStop_of_eq_some
  · intro first
    cases found : firstStop stops (Cursor.at text position) with
    | none =>
        have free := firstStop_eq_none_iff.mp found
        have member : stop.symbol ∈ text.drop position := by
          apply List.mem_of_getElem? (i := stop.position - position)
          rw [List.getElem?_drop, Nat.add_sub_cancel' first.notBefore, first.stands]
        exact absurd first.isStop (free stop.symbol member)
    | some other => rw [(firstStop_of_eq_some found).unique first]

namespace StopFinder

/-- What one finder finds at several places, asked in the order given. -/
def findAll (finder : StopFinder) : List Cursor → List (Option Stop)
  | [] => []
  | cursor :: others =>
      let (found, finder) := finder.find cursor
      found :: finder.findAll others

theorem findAll_eq_map
    {finder : StopFinder} (fits : finder.Fits text) (positions : List Nat) :
    finder.findAll (positions.map (Cursor.at text)) =
      positions.map fun position => firstStop finder.stops (Cursor.at text position) := by
  induction positions generalizing finder with
  | nil => rfl
  | cons position others inductionHypothesis =>
      obtain ⟨found, stops, stillFits⟩ := find_spec fits position
      have later := inductionHypothesis stillFits
      rw [stops] at later
      rw [List.map_cons, List.map_cons, ← found, ← later]
      rfl

end StopFinder

/-- Reads what the attempt reads when it remembers nothing. -/
def Attempt.anew (attempt : Attempt Memory α) (unused : Memory) : Recogniser α := fun cursor =>
  (attempt cursor unused).1

/-- Every cursor is a place in some text. -/
theorem Cursor.exists_eq_at (cursor : Cursor) : ∃ text, cursor = Cursor.at text cursor.position := by
  refine ⟨List.replicate cursor.position ' ' ++ cursor.rest, ?_⟩
  rw [Cursor.at, List.drop_left' List.length_replicate]

theorem Attempt.Agrees.anew_eq
    {attempt : Attempt Memory α} {unused : Memory} {recogniser : Recogniser α}
    (agrees : attempt.Agrees unused recogniser) : attempt.anew unused = recogniser := by
  funext cursor
  obtain ⟨text, same⟩ := cursor.exists_eq_at
  rw [same]
  exact agrees text unused .unused cursor.position

theorem Attempt.Agrees.pieces_anew
    {attempt : Attempt Memory α} {unused : Memory} {recogniser : Recogniser α}
    (agrees : attempt.Agrees unused recogniser) (uniform : recogniser.Uniform) (text : Text) :
    (attempt.anew unused).pieces text = pieces attempt unused text := by
  rw [agrees.anew_eq, agrees.pieces_eq uniform, Recogniser.pieces_eq uniform]

/-- Whatever a finder has been asked before, it finds the first stop at or after a place, with what
stands right behind it, and nothing exactly where none is left. So the passes for atoms with a
quantifier, for alternations and for classes are the same programs with a new finder at every place. -/
theorem searches_forget_history :
    (∀ stops text positions, List.Forall₂ (fun position found =>
        (∀ stop, found = some stop ↔ FirstStop stops text position stop) ∧
          (found = none ↔ ∀ symbol ∈ text.drop position, symbol ∉ stops))
      positions (StopFinder.findAll { stops } (positions.map (Cursor.at text)))) ∧
    (∀ (kind : AtomKind) text, kind.repeatAll text =
      render Repetition.copies ((kind.attempt.anew { stops := kind.stops }).pieces text)) ∧
    (∀ text, resolveAlternation text =
      render Alternation.choose
        ((Alternation.body.attempt.anew { stops := Alternation.stops }).pieces text)) ∧
    (∀ text, expandClassRanges text =
      Id.run (render (fun body => pure (CharacterClass.spellOut body))
        ((CharacterClass.body.attempt.anew { stops := CharacterClass.stops }).pieces text))) ∧
    ∀ text, resolveClasses text =
      render CharacterClass.choose
        ((CharacterClass.body.attempt.anew { stops := CharacterClass.stops }).pieces text) := by
  have classes := (CharacterClass.body.agrees CharacterClass.stops).pieces_anew
    classBody_accepts.uniform
  have alternations := (Alternation.body.agrees Alternation.stops).pieces_anew
    alternationBody_accepts.uniform
  refine ⟨?_, ?_, ?_, ?_, ?_⟩
  · intro stops text positions
    rw [StopFinder.findAll_eq_map (StopFinder.fits_of_unused text stops), List.forall₂_map_right_iff,
      List.forall₂_same]
    intro position _
    exact ⟨fun stop => firstStop_eq_some_iff, firstStop_eq_none_iff⟩
  · intro kind text
    rw [kind.agrees.pieces_anew kind.recogniser_accepts.uniform]
    rfl
  · intro text
    rw [alternations]
    rfl
  · intro text
    rw [classes]
    rfl
  · intro text
    rw [classes]
    rfl

/-- Asked forwards, then backwards, then behind the last stop. -/
example :
    (StopFinder.findAll { stops := [']'] } ([3, 0, 5].map (Cursor.at "ab]c]d".toList))).map
      (·.map Stop.position) = [some 4, some 2, none] := by
  decide

end RandomCodes.Pattern
