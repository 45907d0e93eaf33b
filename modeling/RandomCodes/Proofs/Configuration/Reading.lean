import RandomCodes.Configuration.Reader
import RandomCodes.Proofs.Configuration.Members
/-!
# Reading objects as configurations

A kind is read exactly where the name of one stands. The members of an object are read one after the
other; all are kept but the kind, of which there may be one only.
-/

namespace RandomCodes.Configuration

open Json (Tree Written Blank)

namespace Reader

open Json.Reader

/-- What a kind is taken for once its value is read. -/
def kindOf : Json.Value → Except ReadError Kind
  | .string name =>
      match Kind.ofName? (String.ofList name) with
      | some kind => .ok kind
      | none => .error (.unfit (.unknownChoice name (Kind.all.map Kind.name)))
  | other => .error (.unfit (.wrongType (.ofValue other) .kindName))

theorem kindOf_eq_ok_iff (value : Json.Value) (kind : Kind) :
    kindOf value = .ok kind ↔ value = .string kind.name.toList := by
  cases value with
  | string name =>
      have named := Kind.ofName?_eq_some_iff (String.ofList name) kind
      rw [ofList_eq_iff] at named
      rw [kindOf, Json.Value.string.injEq, ← named]
      split <;> simp_all
  | _ => simp [kindOf]

/-- A value that conveys a tree exists only for the text itself. -/
theorem exists_string_iff
    {tree : Tree} {result : Except ReadError Json.Value} (yields : tree.Yields result)
    (text : Text) : result = .ok (.string text) ↔ tree = .string text := by
  constructor
  · intro same
    cases yields.conveys _ same
    rfl
  · rintro rfl
    obtain ⟨value, same⟩ := yields.succeeds (.string text)
    cases yields.conveys value same
    exact same

theorem kind_reads {tree : Tree} {text : Text} (written : Written tree text) :
    ∃ result, Reads kind text result ∧
      ∀ kind : Kind, result = .ok kind ↔ tree = .string kind.name.toList := by
  obtain ⟨first, head, isArray, isObject⟩ := written.exists_head?
  have peeked (rest : Text) : (peek? : Reader _).run (text ++ rest) =
      .ok (some first, text ++ rest) := by
    rw [peek?_of_tight (written.starts.append rest).tight, List.head?_append, head]
    rfl
  by_cases opensArray : first = '['
  · obtain ⟨items, rfl⟩ := isArray.mp opensArray
    subst opensArray
    refine ⟨.error (.unfit (.wrongType .sequence .kindName)), fun rest ends => ?_, by simp⟩
    exact bind_of_run_eq_ok (peeked rest) _
  by_cases opensObject : first = '{'
  · obtain ⟨members, rfl⟩ := isObject.mp opensObject
    subst opensObject
    refine ⟨.error (.unfit (.wrongType .map .kindName)), fun rest ends => ?_, by simp⟩
    exact bind_of_run_eq_ok (peeked rest) _
  · obtain ⟨result, reads, yields⟩ := value_reads Misfit written 0
    refine ⟨result >>= kindOf, fun rest ends => ?_, fun kind => ?_⟩
    · rw [kind, bind_of_run_eq_ok (peeked rest)]
      split
      · exact absurd (Option.some.inj ‹_›) opensArray
      · exact absurd (Option.some.inj ‹_›) opensObject
      · refine reads.bind (fun value rest => ?_) rest ends
        cases value with
        | string name =>
            simp only [kindOf]
            cases Kind.ofName? (String.ofList name) <;> rfl
        | _ => rfl
    · simp only [bind_eq_ok_iff, kindOf_eq_ok_iff, exists_eq_right, exists_string_iff yields]

def NamesKind (name : Text) : Prop :=
  name = kindName.toList

instance (name : Text) : Decidable (NamesKind name) :=
  inferInstanceAs (Decidable (name = kindName.toList))

/-- What reading a member comes to. -/
def addMember (members : Members) (member : Json.Member) : Except ReadError Members :=
  if NamesKind member.name then
    if members.kind.isSome then .error (.unfit (.duplicateField kindName))
    else (fun found => { members with kind := some found }) <$> kind.run' member.item.text
  else
    (fun value => { members with latestFirst := (member.name, value) :: members.latestFirst }) <$>
      (value innerDepth).run' member.item.text

theorem skipsBlank_kind : SkipsBlank kind :=
  (skipsBlank_skipBlank.bind _).bind _

theorem readsEntry_member
    {member : Json.Member} (blank : member.Blank)
    (spelled : Json.SpelledText member.name member.nameSpelling)
    (written : Written member.item.tree member.item.text) :
    ReadsEntry Reader.member member.place fun members => addMember members member where
  before := blank.1
  after := blank.2.2.2
  starts := (Json.starts_stringText member.nameSpelling).append _
  reads members := by
    refine Reads.named spelled ?_
    by_cases isKind : NamesKind member.name
    · rw [addMember, if_pos isKind, if_pos ((ofList_eq_iff _ _).mpr isKind)]
      by_cases repeated : members.kind.isSome
      · rw [if_pos repeated, if_pos repeated]
        exact fun _ _ => rfl
      · rw [if_neg repeated, if_neg repeated]
        obtain ⟨result, reads, _⟩ := kind_reads written
        rw [reads.run'_eq]
        exact ((reads.skip skipsBlank_kind written.starts blank.2.2.1).map _).behindColon blank.2.1
    · rw [addMember, if_neg isKind, if_neg (isKind ∘ (ofList_eq_iff _ _).mp)]
      obtain ⟨result, reads, _⟩ := value_reads Misfit written innerDepth
      rw [reads.run'_eq]
      have behind := reads.skip (skipsBlank_value innerDepth) written.starts blank.2.2.1
      exact (behind.map _).behindColon blank.2.1
  skips _ := (skipsBlank_skipBlank.bind _).bind _

def KindRead (item : Json.Item) (found : Kind) : Prop :=
  kind.run' item.text = .ok found

def ItemRead (item : Json.Item) (found : Json.Value) : Prop :=
  (value innerDepth : Reader _).run' item.text = .ok found

def MemberRead (member : Json.Member) (given : Text × Json.Value) : Prop :=
  member.name = given.1 ∧ ItemRead member.item given.2

theorem addMember_eq_ok_iff_of_kind
    {member : Json.Member} (isKind : NamesKind member.name) (members next : Members) :
    addMember members member = .ok next ↔
      members.kind = none ∧ ∃ found, KindRead member.item found ∧
        next = { members with kind := some found } := by
  rw [addMember, if_pos isKind]
  by_cases repeated : members.kind.isSome
  · rw [if_pos repeated]
    have notNone := Option.isSome_iff_ne_none.mp repeated
    exact ⟨fun same => (by cases same), fun same => absurd same.1 notNone⟩
  · rw [if_neg repeated, map_eq_ok_iff]
    exact (and_iff_right (Option.not_isSome_iff_eq_none.mp repeated)).symm

theorem addMember_eq_ok_iff_of_not_kind
    {member : Json.Member} (other : ¬NamesKind member.name) (members next : Members) :
    addMember members member = .ok next ↔
      ∃ given, MemberRead member given ∧
        next = { members with latestFirst := given :: members.latestFirst } := by
  rw [addMember, if_neg other, map_eq_ok_iff]
  constructor
  · rintro ⟨value, read, rfl⟩
    exact ⟨(member.name, value), ⟨rfl, read⟩, rfl⟩
  · rintro ⟨⟨_, value⟩, ⟨rfl, read⟩, rfl⟩
    exact ⟨value, read, rfl⟩

/-- All members are read exactly if all kinds and all other values are, and there is one kind at
most. -/
theorem foldlM_addMember_eq_ok_iff (members : List Json.Member) (start final : Members) :
    members.foldlM addMember start = .ok final ↔
      ∃ kinds values,
        List.Forall₂ (fun member => KindRead member.item)
          (members.filter fun member => NamesKind member.name) kinds ∧
        List.Forall₂ MemberRead (members.filter fun member => ¬NamesKind member.name) values ∧
        final.kind.toList = start.kind.toList ++ kinds ∧
        final.latestFirst = values.reverse ++ start.latestFirst := by
  induction members generalizing start with
  | nil =>
      constructor
      · rintro ⟨⟩
        exact ⟨[], [], .nil, .nil, by simp, rfl⟩
      · rintro ⟨_, _, ⟨⟩, ⟨⟩, sameKind, sameMembers⟩
        obtain ⟨startKind, startMembers⟩ := start
        obtain ⟨finalKind, finalMembers⟩ := final
        have same : finalKind = startKind := by
          cases finalKind <;> cases startKind <;> simp_all
        cases same
        cases sameMembers
        rfl
  | cons member members inductionHypothesis =>
      rw [List.foldlM_cons, bind_eq_ok_iff]
      by_cases isKind : NamesKind member.name
      · simp only [addMember_eq_ok_iff_of_kind isKind, inductionHypothesis, List.filter_cons,
          isKind, decide_true, not_true_eq_false, decide_false, if_true, Bool.false_eq_true,
          if_false]
        constructor
        · rintro ⟨_, ⟨single, found, read, rfl⟩, kinds, values, kindsRead, valuesRead, sameKind,
            sameMembers⟩
          refine ⟨found :: kinds, values, .cons read kindsRead, valuesRead, ?_, sameMembers⟩
          rw [sameKind, single]
          rfl
        · rintro ⟨_, values, allRead, valuesRead, sameKind, sameMembers⟩
          obtain ⟨found, kinds, read, kindsRead, rfl⟩ := List.forall₂_cons_left_iff.mp allRead
          have single : start.kind = none := by
            cases known : start.kind with
            | none => rfl
            | some first =>
                rw [known] at sameKind
                cases last : final.kind <;> simp [last] at sameKind
          rw [single] at sameKind
          exact ⟨_, ⟨single, found, read, rfl⟩, kinds, values, kindsRead, valuesRead, sameKind,
            sameMembers⟩
      · simp only [addMember_eq_ok_iff_of_not_kind isKind, inductionHypothesis, List.filter_cons,
          isKind, decide_true, not_false_eq_true, decide_false, if_true, Bool.false_eq_true,
          if_false]
        constructor
        · rintro ⟨_, ⟨given, read, rfl⟩, kinds, values, kindsRead, valuesRead, sameKind,
            sameMembers⟩
          refine ⟨kinds, given :: values, kindsRead, .cons read valuesRead, sameKind, ?_⟩
          rw [sameMembers]
          simp
        · rintro ⟨kinds, _, kindsRead, allRead, sameKind, sameMembers⟩
          obtain ⟨given, values, read, valuesRead, rfl⟩ := List.forall₂_cons_left_iff.mp allRead
          refine ⟨_, ⟨given, read, rfl⟩, kinds, values, kindsRead, valuesRead, sameKind, ?_⟩
          rw [sameMembers]
          simp

theorem atEnd_run {after : Text} (blank : Blank after) :
    (atEnd : Reader Unit).run after = .ok ((), []) := by
  have tight : Tight [] := by
    rintro _ ⟨⟩
  have peeked : (peek? : Reader _).run (after ++ []) = .ok (none, []) :=
    peek?_append blank tight
  rw [List.append_nil] at peeked
  exact bind_of_run_eq_ok peeked _

/-- A value that begins behind blanks is read up to the blanks that end the text. -/
theorem ofJson_eq
    {text after : Text} (blank : Blank after) {result : Except ReadError Configuration}
    (read : configuration.run text = (·, after) <$> result) : ofJson text = result := by
  rw [ofJson, read]
  cases result with
  | error failure => rfl
  | ok configuration =>
      show ((atEnd : Reader Unit).run after >>= fun _ => pure configuration) = _
      rw [atEnd_run blank]
      rfl

/-- What comes of the kind, if there is one, once all else is read. -/
def finish (kind : Option Kind) (make : Kind → Except Misfit Configuration) :
    Except ReadError Configuration :=
  match kind with
  | none => .error (.unfit (.missingField kindName))
  | some kind => (make kind).mapError .unfit

theorem finish_run
    (kind : Option Kind) (make : Kind → Except Misfit Configuration) (after : Text) :
    (match kind with
      | none => unfit (.missingField kindName)
      | some kind => fitting (make kind) : Reader Configuration).run after =
      (·, after) <$> finish kind make := by
  cases kind with
  | none => rfl
  | some kind =>
      show (fitting (make kind)).run after = (·, after) <$> (make kind).mapError .unfit
      cases make kind <;> rfl

theorem finish_eq_ok_iff
    (kind : Option Kind) (make : Kind → Except Misfit Configuration)
    (configuration : Configuration) :
    finish kind make = .ok configuration ↔
      ∃ found, kind = some found ∧ make found = .ok configuration := by
  cases kind with
  | none => simp [finish]
  | some kind => simp only [finish, mapError_eq_ok_iff, Option.some.injEq, exists_eq_left']

/-- What the members of an object come to. -/
def Members.finish (members : Members) : Except ReadError Configuration :=
  Reader.finish members.kind fun kind => ofMembers kind members.latestFirst.reverse

section Object

variable {blanks : Text} {members : List Json.Member} (blank : Blank blanks)
  (memberBlank : ∀ member ∈ members, member.Blank)
  (spelled : ∀ member ∈ members, Json.SpelledText member.name member.nameSpelling)
  (written : ∀ member ∈ members, Written member.item.tree member.item.text)
include blank memberBlank spelled written

theorem object_run (after : Text) :
    object.run (Json.enclosedText '{' '}' blanks (members.map Json.Member.spelling) ++
        after) =
      (·, after) <$> (members.foldlM addMember {} >>= Members.finish) := by
  have readsEntry (member : Json.Member) (place : member ∈ members) :=
    readsEntry_member (memberBlank member place) (spelled member place) (written member place)
  have closes : '}' ∈ [']', '}'] := by decide
  have whole := entries_append closes readsEntry blank {} after
  simp only [Json.Member.text_place] at whole
  rw [Json.enclosedText_append, object, bind_of_run_eq_ok (expect_self '{' _), StateT.run_bind,
    whole]
  cases members.foldlM addMember {} with
  | error failure => rfl
  | ok members => exact finish_run _ _ after

theorem ofJson_object
    {before after : Text} (beforeBlank : Blank before) (afterBlank : Blank after) :
    ofJson (before ++ (Json.enclosedText '{' '}' blanks
        (members.map Json.Member.spelling) ++ after)) =
      members.foldlM addMember {} >>= Members.finish := by
  have starts : Json.Starts (Json.enclosedText '{' '}' blanks
      (members.map Json.Member.spelling)) :=
    ⟨'{', rfl, by decide⟩
  refine ofJson_eq afterBlank ?_
  rw [configuration, bind_of_run_eq_ok (peek?_append beforeBlank (starts.append after).tight)]
  exact object_run blank memberBlank spelled written after

end Object

/-- An object is read as a configuration exactly if it has one kind, of which the other members
make the configuration. -/
theorem foldlM_addMember_finish_eq_ok_iff
    (members : List Json.Member) (configuration : Configuration) :
    (members.foldlM addMember {} >>= Members.finish) = .ok configuration ↔
      ∃ kind values,
        List.Forall₂ (fun member => KindRead member.item)
          (members.filter fun member => NamesKind member.name) [kind] ∧
        List.Forall₂ MemberRead (members.filter fun member => ¬NamesKind member.name) values ∧
        ofMembers kind values = .ok configuration := by
  simp only [bind_eq_ok_iff, foldlM_addMember_eq_ok_iff, Members.finish, finish_eq_ok_iff]
  constructor
  · rintro ⟨final, ⟨kinds, values, kindsRead, valuesRead, sameKind, sameMembers⟩, kind, isKind,
      made⟩
    rw [isKind] at sameKind
    rw [sameMembers] at made
    have only : kinds = [kind] := sameKind.symm
    refine ⟨kind, values, only ▸ kindsRead, valuesRead, ?_⟩
    simpa using made
  · rintro ⟨kind, values, kindsRead, valuesRead, made⟩
    refine ⟨{ kind := some kind, latestFirst := values.reverse },
      ⟨[kind], values, kindsRead, valuesRead, rfl, ?_⟩, kind, rfl, ?_⟩
    · exact (List.append_nil _).symm
    · rw [List.reverse_reverse]
      exact made

end Reader

end RandomCodes.Configuration
