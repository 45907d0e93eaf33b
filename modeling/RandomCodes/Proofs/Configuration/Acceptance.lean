import RandomCodes.Configuration.Writer
import RandomCodes.Proofs.Configuration.Arrays
import RandomCodes.Proofs.Json.Grammar
/-!
# Which texts are configurations

A text that is an object is accepted exactly if its members fit a kind, in whatever order they
stand, and the result has the settings that the members give. A configuration that was written is
read back unchanged, and a text that was read is written in one way only.
-/

namespace RandomCodes.Configuration

open Json (Document Tree Written WrittenEntry)

namespace Setting

def tree : Setting → Tree
  | length value => .number (.ofNat value.toNat)
  | noLeadingZero value => .boolean value
  | letterCase value => .string value.name.toList
  | characters text => .string text
  | pattern text => .string text

def text : Setting → Text
  | length value => Text.decimal value.toNat
  | noLeadingZero value => Json.boolText value
  | letterCase value => Json.quote value.name.toList
  | characters text => Json.quote text
  | pattern text => Json.quote text

theorem written (setting : Setting) : Written setting.tree setting.text := by
  cases setting with
  | length value => exact Json.written_decimal value.toNat
  | noLeadingZero value => exact Json.written_boolText value
  | letterCase value => exact Json.written_quote value.name.toList
  | characters text => exact Json.written_quote text
  | pattern text => exact Json.written_quote text

theorem saidBy_tree (setting : Setting) : setting.SaidBy setting.tree := by
  cases setting with
  | length value => exact .length (Json.NumberLiteral.isWord_ofNat value)
  | noLeadingZero value => exact .noLeadingZero value
  | letterCase value => exact .letterCase value
  | characters text => exact .characters text
  | pattern text => exact .pattern text

def entry (setting : Setting) : WrittenEntry where
  name := setting.field.name.toList
  tree := setting.tree
  text := setting.text
  written := setting.written

end Setting

def kindEntry (kind : Kind) : WrittenEntry where
  name := kindName.toList
  tree := .string kind.name.toList
  text := Json.quote kind.name.toList
  written := Json.written_quote kind.name.toList

/-- All members of a configuration that is written. -/
def entries (configuration : Configuration) : List WrittenEntry :=
  kindEntry configuration.kind :: configuration.settings.map Setting.entry

theorem fieldTexts_eq (configuration : Configuration) :
    configuration.fieldTexts =
      configuration.settings.map fun setting => fieldText setting.field setting.text := by
  cases configuration <;> rfl

theorem toJson_eq (configuration : Configuration) :
    configuration.toJson =
      Json.objectText (configuration.entries.map fun entry => (entry.name, entry.text)) := by
  rw [toJson, fieldTexts_eq, entries, List.map_cons, List.map_map]
  rfl

/-- The members of a configuration that is written, as they are read. -/
def memberTrees (configuration : Configuration) : List (Text × Tree) :=
  configuration.entries.map fun entry => (entry.name, entry.tree)

theorem memberTrees_eq (configuration : Configuration) :
    configuration.memberTrees =
      (kindName.toList, .string configuration.kind.name.toList) ::
        configuration.settings.map fun setting => (setting.field.name.toList, setting.tree) := by
  simp only [memberTrees, entries, List.map_cons, List.map_map]
  rfl

theorem describes_memberTrees (configuration : Configuration) :
    Describes configuration.memberTrees configuration := by
  rw [memberTrees_eq]
  refine ⟨?_, List.mem_cons_self, fun member place other => ?_, fun setting own => .inl ?_⟩
  · have names : configuration.settings.map (fun setting => setting.field.name.toList) =
        configuration.kind.fields.map fun field => field.name.toList := by
      rw [← map_field_settings, List.map_map]
      rfl
    rw [List.map_cons, List.map_map]
    show (kindName.toList ::
      configuration.settings.map fun setting => setting.field.name.toList).Nodup
    rw [names]
    cases configuration.kind <;> decide
  · rcases List.mem_cons.mp place with rfl | later
    · exact absurd rfl other
    · obtain ⟨setting, own, rfl⟩ := List.mem_map.mp later
      exact ⟨setting, own, rfl, setting.saidBy_tree⟩
  · refine List.mem_map.mpr ⟨(setting.field.name.toList, setting.tree), ?_, rfl⟩
    exact List.mem_cons_of_mem _ (List.mem_map.mpr ⟨setting, own, rfl⟩)

theorem plainCase_memberTrees (configuration : Configuration) :
    ∀ member ∈ configuration.memberTrees, PlainCase member := by
  intro member place _ members same
  rw [memberTrees_eq] at place
  rcases List.mem_cons.mp place with rfl | later
  · cases same
  · obtain ⟨setting, _, rfl⟩ := List.mem_map.mp later
    cases setting <;> cases same

theorem document_toJson (configuration : Configuration) :
    Json.Document (.object configuration.memberTrees) configuration.toJson := by
  rw [toJson_eq]
  exact Json.document_objectText configuration.entries

theorem ofJson_toJson (configuration : Configuration) :
    ofJson configuration.toJson = .ok configuration :=
  (ofJson_eq_ok_iff_describes configuration.document_toJson configuration.plainCase_memberTrees
    configuration).mpr configuration.describes_memberTrees

/-- Every configuration is read back from its text. A text that can be read is written anew as one
that is read in the same way and is not changed by writing it once more. -/
theorem ofJson_toJson_stable :
    (∀ configuration : Configuration, ofJson configuration.toJson = .ok configuration) ∧
      ∀ text : Text,
        (do ofJson (← ofJson text).toJson) = ofJson text ∧
          (do return (← ofJson (← ofJson text).toJson).toJson) =
            (do return (← ofJson text).toJson : Except ReadError Text) := by
  refine ⟨ofJson_toJson, fun text => ?_⟩
  cases ofJson text with
  | error failure => exact ⟨rfl, rfl⟩
  | ok configuration =>
      have again := ofJson_toJson configuration
      constructor
      · exact again
      · show (do return (← ofJson configuration.toJson).toJson) = .ok configuration.toJson
        rw [again]
        rfl

/-- The trees that a field takes. -/
def Field.Takes (field : Field) (tree : Tree) : Prop :=
  ∃ setting : Setting, setting.field = field ∧ setting.SaidBy tree

/-- The fields that may be left out. -/
def Field.HasDefault (field : Field) : Prop :=
  ∃ setting : Setting, setting.field = field ∧ setting.IsDefault

/-- The members of an object are those of a configuration of a kind: one of them is the kind, each
other one is a field of the kind with a value that the field takes, no name stands twice, and only
fields that may be left out are missing. -/
structure FitsKind (members : List (Text × Tree)) (kind : Kind) : Prop where
  once : (members.map Prod.fst).Nodup
  kindNamed : (kindName.toList, .string kind.name.toList) ∈ members
  known : ∀ member ∈ members, member.1 ≠ kindName.toList →
    ∃ field ∈ kind.fields, member.1 = field.name.toList ∧ field.Takes member.2
  present : ∀ field ∈ kind.fields,
    field.name.toList ∈ members.map Prod.fst ∨ field.HasDefault

/-- Settings for all fields of a kind make a configuration. -/
theorem exists_settings_eq
    {kind : Kind} {given : List Setting} (sameFields : given.map Setting.field = kind.fields) :
    ∃ configuration : Configuration, configuration.kind = kind ∧
      configuration.settings = given := by
  cases kind <;>
    simp only [Kind.fields, List.map_eq_cons_iff, List.map_eq_nil_iff] at sameFields
  case digits | letters | charset =>
    obtain ⟨first, _, rfl, firstField, second, _, rfl, secondField, rfl⟩ := sameFields
    cases first <;> cases firstField
    cases second <;> cases secondField
    first
      | exact ⟨.digits _ _, rfl, rfl⟩
      | exact ⟨.letters _ _, rfl, rfl⟩
      | exact ⟨.charset _ _, rfl, rfl⟩
  case word | pattern =>
    obtain ⟨only, _, rfl, onlyField, rfl⟩ := sameFields
    cases only <;> cases onlyField
    first
      | exact ⟨.word _, rfl, rfl⟩
      | exact ⟨.pattern _, rfl, rfl⟩

theorem Describes.fitsKind
    {members : List (Text × Tree)} {configuration : Configuration}
    (describes : Describes members configuration) : FitsKind members configuration.kind where
  once := describes.once
  kindNamed := describes.kind
  known member place other := by
    obtain ⟨setting, own, givenBy⟩ := describes.known member place other
    refine ⟨setting.field, ?_, givenBy.name, setting, rfl, givenBy.said⟩
    rw [← map_field_settings]
    exact List.mem_map_of_mem own
  present field listed := by
    rw [← map_field_settings] at listed
    obtain ⟨setting, own, rfl⟩ := List.mem_map.mp listed
    exact (describes.present setting own).imp_right fun isDefault => ⟨setting, rfl, isDefault⟩

theorem FitsKind.exists_describes
    {members : List (Text × Tree)} {kind : Kind} (fits : FitsKind members kind) :
    ∃ configuration, configuration.kind = kind ∧ Describes members configuration := by
  have chosen : ∀ field ∈ kind.fields, ∃ setting : Setting,
      ((∀ member ∈ members, member.1 = setting.field.name.toList → setting.SaidBy member.2) ∧
        (setting.field.name.toList ∈ members.map Prod.fst ∨ setting.IsDefault)) ∧
      setting.field = field := by
    intro field listed
    by_cases named : field.name.toList ∈ members.map Prod.fst
    · obtain ⟨member, place, name⟩ := List.mem_map.mp named
      have other : member.1 ≠ kindName.toList := name ▸ not_namesKind_field field
      obtain ⟨_, _, sameName, setting, rfl, said⟩ := fits.known member place other
      have same := Field.nameText_injective (sameName.symm.trans name)
      refine ⟨setting, ⟨fun another inside again => ?_, .inl (same ▸ named)⟩, same⟩
      rw [List.inj_on_of_nodup_map fits.once inside place (again.trans sameName.symm)]
      exact said
    · obtain ⟨setting, rfl, isDefault⟩ := (fits.present field listed).resolve_left named
      refine ⟨setting, ⟨fun member place name => ?_, .inr isDefault⟩, rfl⟩
      exact absurd (List.mem_map.mpr ⟨member, place, name⟩) named
  obtain ⟨given, inStep⟩ := exists_forall₂_of_forall_mem chosen
  obtain ⟨settled, sameFields⟩ := (List.forall₂_and_left given kind.fields).mp inStep.flip
  rw [← List.forall₂_map_left_iff, List.forall₂_eq_eq_eq] at sameFields
  obtain ⟨configuration, rfl, rfl⟩ := exists_settings_eq sameFields
  refine ⟨configuration, rfl, fits.once, fits.kindNamed, fun member place other => ?_,
    fun setting own => (settled setting own).2⟩
  obtain ⟨field, listed, name, _⟩ := fits.known member place other
  rw [← map_field_settings] at listed
  obtain ⟨setting, own, rfl⟩ := List.mem_map.mp listed
  exact ⟨setting, own, name, (settled setting own).1 member place name⟩

/-- An object text in which no letter case is itself an object is accepted exactly if its members
fit a kind. The result has the settings that the members give and, for what is missing, those that
hold of their own accord. The members may be put in any other order, and spelled in any other way.
An array is accepted exactly if it lists a configuration. -/
theorem ofJson_accepts_exactly
    {members : List (Text × Tree)} {text : Text} (document : Document (.object members) text)
    (plain : ∀ member ∈ members, PlainCase member) :
    ((∃ configuration, ofJson text = .ok configuration) ↔ ∃ kind, FitsKind members kind) ∧
      (∀ configuration, ofJson text = .ok configuration ↔ Describes members configuration) ∧
      (∀ others otherText, members.Perm others → Document (.object others) otherText →
        ∀ configuration, ofJson otherText = .ok configuration ↔ ofJson text = .ok configuration) ∧
      ∀ items listed, Document (.array items) listed → (∀ tree ∈ items, NoObject tree) →
        ∀ configuration, ofJson listed = .ok configuration ↔ Lists items configuration := by
  have describes := ofJson_eq_ok_iff_describes document plain
  refine ⟨?_, describes, fun others otherText perm otherDocument configuration => ?_,
    fun items listed array noObject => ofJson_eq_ok_iff_lists array noObject⟩
  · constructor
    · rintro ⟨configuration, read⟩
      exact ⟨configuration.kind, ((describes configuration).mp read).fitsKind⟩
    · rintro ⟨kind, fits⟩
      obtain ⟨configuration, _, described⟩ := fits.exists_describes
      exact ⟨configuration, (describes configuration).mpr described⟩
  · have plainOthers : ∀ member ∈ others, PlainCase member :=
      fun member place => plain member (perm.mem_iff.mpr place)
    rw [ofJson_eq_ok_iff_describes otherDocument plainOthers, describes]
    exact ⟨fun described => described.perm perm.symm, fun described => described.perm perm⟩

def lettersText : Text :=
  ' ' :: '{' :: "\"length\" : 8 ,\"k\\u0069nd\":\"letters\"".toList ++ ['}']

def lettersMembers : List (Text × Tree) :=
  [(Field.length.name.toList, .number (.ofNat 8)),
    (kindName.toList, .string Kind.letters.name.toList)]

theorem spelledText_self
    {text : Text}
    (plain : text.all fun symbol => ' ' ≤ symbol ∧ symbol ≠ '"' ∧ symbol ≠ '\\') :
    Json.SpelledText text text := by
  induction text with
  | nil => exact .nil
  | cons symbol text inductionHypothesis =>
      rw [List.all_cons, Bool.and_eq_true] at plain
      obtain ⟨visible, noQuote, noBackslash⟩ := of_decide_eq_true plain.1
      exact .cons (.plain visible noQuote noBackslash) (inductionHypothesis plain.2)

/-- The kind, one letter of its name written as a code. -/
theorem spelledText_kindName :
    Json.SpelledText kindName.toList
      (['k'] ++ ('\\' :: 'u' :: ['0', '0', '6', '9'] ++ ['n', 'd'])) := by
  have code : Json.HexWord ['0', '0', '6', '9'] 'i'.toNat :=
    Json.hexWord_of_lt (show 'i'.toNat < 256 by decide)
  have behind : Json.SpelledText ['n', 'd'] ['n', 'd'] := spelledText_self (by decide)
  exact .cons (.plain (by decide) (by decide) (by decide)) (.cons (.code code) behind)

theorem document_lettersText : Document (.object lettersMembers) lettersText := by
  let length : Json.Member := {
    before := [], name := Field.length.name.toList, nameSpelling := Field.length.name.toList
    between := [' ']
    item := { before := [' '], tree := .number (.ofNat 8), text := ['8'], after := [' '] } }
  let kind : Json.Member := {
    before := [], name := kindName.toList
    nameSpelling := ['k'] ++ ('\\' :: 'u' :: ['0', '0', '6', '9'] ++ ['n', 'd'])
    between := []
    item := {
      before := [], tree := .string Kind.letters.name.toList
      text := Json.stringText Kind.letters.name.toList, after := [] } }
  have blanks : Json.Blank [] ∧ Json.Blank [' '] := by simp [Json.Blank, Json.blanks]
  have written : Json.Written (.object ([length, kind].map Json.Member.entry))
      (Json.enclosedText '{' '}' [] ([length, kind].map Json.Member.spelling)) := by
    refine .object blanks.1 ?_ ?_ ?_ <;>
      simp only [List.mem_cons, List.not_mem_nil, or_false, forall_eq_or_imp, forall_eq]
    · exact ⟨⟨blanks.1, blanks.2, blanks.2, blanks.2⟩, blanks.1, blanks.1, blanks.1, blanks.1⟩
    · exact ⟨spelledText_self (by decide), spelledText_kindName⟩
    · exact ⟨Json.written_decimal 8, .string (spelledText_self (by decide))⟩
  have text : lettersText = [' '] ++
      (Json.enclosedText '{' '}' [] ([length, kind].map Json.Member.spelling) ++ []) := by
    decide
  rw [text]
  exact .intro blanks.2 written blanks.1

theorem ofJson_lettersText :
    Document (.object lettersMembers) lettersText ∧
      (∀ member ∈ lettersMembers, PlainCase member) ∧
      ofJson lettersText = .ok (.letters 8 .mixed) := by
  have plain : ∀ member ∈ lettersMembers, PlainCase member := by
    simp [lettersMembers, PlainCase]
  have describes : Describes lettersMembers (.letters 8 .mixed) := by
    refine ⟨by decide, by simp [lettersMembers, kind], ?_, ?_⟩
    · simp only [lettersMembers, List.mem_cons, List.not_mem_nil, or_false, forall_eq_or_imp,
        forall_eq, ne_eq, not_true_eq_false, false_implies, and_true]
      have word := Json.NumberLiteral.isWord_ofNat 8
      exact fun _ => ⟨.length 8, List.mem_cons_self, rfl, .length word⟩
    · simp only [settings, List.mem_cons, List.not_mem_nil, or_false, forall_eq_or_imp, forall_eq]
      exact ⟨.inl List.mem_cons_self, .inr .letterCase⟩
  exact ⟨document_lettersText, plain,
    ((ofJson_accepts_exactly document_lettersText plain).2.1 _).mpr describes⟩

end RandomCodes.Configuration
