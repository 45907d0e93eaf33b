import Mathlib.Data.List.Nodup
import RandomCodes.Configuration.Reader
import RandomCodes.Proofs.Json.ValueReading
/-!
# Settings

A configuration is a kind with settings, one for each field of the kind. A value is taken for a
field exactly if what it stands for says a setting of that field, and settings are completed to the
configuration that has them, where those that are missing hold of their own accord.
-/

namespace RandomCodes.Configuration

open Json (Tree)

theorem bind_eq_ok_iff
    {Reason α β : Type} (result : Except Reason α) (following : α → Except Reason β) (value : β) :
    (result >>= following) = .ok value ↔
      ∃ found, result = .ok found ∧ following found = .ok value := by
  cases result with
  | error reason => exact ⟨fun same => (by cases same), fun ⟨_, same, _⟩ => (by cases same)⟩
  | ok found =>
      refine ⟨fun same => ⟨found, rfl, same⟩, ?_⟩
      rintro ⟨_, ⟨⟩, same⟩
      exact same

theorem map_eq_ok_iff
    {Reason α β : Type} (result : Except Reason α) (convert : α → β) (value : β) :
    convert <$> result = .ok value ↔ ∃ found, result = .ok found ∧ value = convert found := by
  rw [map_eq_pure_bind, bind_eq_ok_iff]
  exact exists_congr fun found => and_congr_right fun _ =>
    ⟨fun same => (Except.ok.inj same).symm, fun same => congrArg Except.ok same.symm⟩

theorem mapError_eq_ok_iff
    {Reason Other α : Type} (result : Except Reason α) (convert : Reason → Other) (value : α) :
    result.mapError convert = .ok value ↔ result = .ok value := by
  cases result <;> simp [Except.mapError]

theorem ofList_eq_iff (text : Text) (name : String) :
    String.ofList text = name ↔ text = name.toList := by
  rw [← String.ofList_inj, String.ofList_toList]

theorem find?_name_eq_some_iff
    {α : Type} {nameOf : α → String} (injective : Function.Injective nameOf) {known : List α}
    {name : String} {item : α} :
    known.find? (fun other => nameOf other == name) = some item ↔
      item ∈ known ∧ nameOf item = name := by
  constructor
  · intro found
    exact ⟨List.mem_of_find?_eq_some found, by simpa using List.find?_some found⟩
  · rintro ⟨member, rfl⟩
    obtain ⟨other, found⟩ : ∃ other, known.find? (fun other => nameOf other == nameOf item) =
        some other :=
      Option.isSome_iff_exists.mp (List.find?_isSome.mpr ⟨item, member, by simp⟩)
    have same : nameOf other = nameOf item := by simpa using List.find?_some found
    rw [found, injective same]

theorem LetterCase.ofName?_eq_some_iff (name : String) (letterCase : LetterCase) :
    LetterCase.ofName? name = some letterCase ↔ name = letterCase.name := by
  have injective : Function.Injective LetterCase.name := by
    rintro ⟨⟩ ⟨⟩ <;> decide
  have listed : letterCase ∈ LetterCase.all := by cases letterCase <;> decide
  rw [LetterCase.ofName?, find?_name_eq_some_iff injective]
  exact ⟨fun found => found.2.symm, fun same => ⟨listed, same.symm⟩⟩

theorem Kind.ofName?_eq_some_iff (name : String) (kind : Kind) :
    Kind.ofName? name = some kind ↔ name = kind.name := by
  have injective : Function.Injective Kind.name := by
    rintro ⟨⟩ ⟨⟩ <;> decide
  have listed : kind ∈ Kind.all := by cases kind <;> decide
  rw [Kind.ofName?, find?_name_eq_some_iff injective]
  exact ⟨fun found => found.2.symm, fun same => ⟨listed, same.symm⟩⟩

theorem Field.name_injective : Function.Injective Field.name := by
  rintro ⟨⟩ ⟨⟩ <;> decide

theorem Field.nameText_injective : Function.Injective fun field : Field => field.name.toList :=
  fun _ _ same => Field.name_injective (String.toList_inj.mp same)

theorem Kind.field?_eq_some_iff (kind : Kind) (name : String) (field : Field) :
    kind.field? name = some field ↔ field ∈ kind.fields ∧ field.name = name :=
  find?_name_eq_some_iff Field.name_injective

/-- A field with its value. -/
inductive Setting where
  | length (length : UInt64)
  | noLeadingZero (value : Bool)
  | letterCase (letterCase : LetterCase)
  | characters (text : Text)
  | pattern (text : Text)

/-- The settings of a configuration, in the order of its fields. -/
def settings : Configuration → List Setting
  | digits length noLeadingZero => [.length length, .noLeadingZero noLeadingZero]
  | letters length letterCase => [.length length, .letterCase letterCase]
  | word length => [.length length]
  | charset length characters => [.length length, .characters characters]
  | pattern text => [.pattern text]

namespace Setting

def field : Setting → Field
  | length _ => .length
  | noLeadingZero _ => .noLeadingZero
  | letterCase _ => .letterCase
  | characters _ => .characters
  | pattern _ => .pattern

/-- The trees that stand for a setting. -/
inductive SaidBy : Setting → Tree → Prop
  | length {literal : Json.NumberLiteral} {word : UInt64} :
      literal.IsWord word → SaidBy (.length word) (.number literal)
  | noLeadingZero (value : Bool) : SaidBy (.noLeadingZero value) (.boolean value)
  | letterCase (letterCase : LetterCase) :
      SaidBy (.letterCase letterCase) (.string letterCase.name.toList)
  | characters (text : Text) : SaidBy (.characters text) (.string text)
  | pattern (text : Text) : SaidBy (.pattern text) (.string text)

theorem SaidBy.plain {setting : Setting} {tree : Tree} (said : setting.SaidBy tree) :
    tree.Plain := by
  cases said with
  | length isWord => exact .word isWord
  | noLeadingZero value => exact .boolean value
  | letterCase letterCase => exact .string letterCase.name.toList
  | characters text => exact .string text
  | pattern text => exact .string text

/-- The settings that hold unless something else is said: zeros may lead, and letters have both
cases. -/
inductive IsDefault : Setting → Prop
  | noLeadingZero : IsDefault (.noLeadingZero false)
  | letterCase : IsDefault (.letterCase .mixed)

theorem isDefault_iff (setting : Setting) :
    setting.IsDefault ↔ setting = .noLeadingZero false ∨ setting = .letterCase .mixed := by
  constructor
  · rintro ⟨⟩ <;> simp
  · rintro (rfl | rfl)
    · exact .noLeadingZero
    · exact .letterCase

/-- A member gives a setting by the name of its field. -/
structure GivenBy (setting : Setting) (member : Text × Tree) : Prop where
  name : member.1 = setting.field.name.toList
  said : setting.SaidBy member.2

end Setting

theorem map_field_settings (configuration : Configuration) :
    configuration.settings.map Setting.field = configuration.kind.fields := by
  cases configuration <;> rfl

/-- The settings of a configuration belong to different fields. -/
theorem nodup_field_settings (configuration : Configuration) :
    (configuration.settings.map Setting.field).Nodup := by
  rw [map_field_settings]
  cases configuration.kind <;> decide

theorem eq_of_field_eq
    {configuration : Configuration} {first second : Setting}
    (firstMember : first ∈ configuration.settings) (secondMember : second ∈ configuration.settings)
    (same : first.field = second.field) : first = second :=
  List.inj_on_of_nodup_map (nodup_field_settings configuration) firstMember secondMember same

section Values

variable {tree : Tree} {value : Json.Value}

theorem lengthOf_eq_ok_iff (conveys : Json.Conveys tree value) (word : UInt64) :
    lengthOf value = .ok word ↔ (Setting.length word).SaidBy tree := by
  constructor
  · intro same
    cases conveys with
    | @number literal number conveys =>
        apply Setting.SaidBy.length
        rw [← conveys.word]
        cases number with
        | fractional => cases same
        | whole value =>
            have fits := conveys.fits value rfl
            rw [lengthOf] at same
            split at same
            · cases same
            · rename_i unsigned
              cases same
              rw [UInt64.toNat_ofNat_of_lt' (by omega), Int.toNat_of_nonneg (by omega)]
    | _ => cases same
  · rintro ⟨isWord⟩
    cases conveys with
    | number conveys =>
        rw [(conveys.word word).mpr isWord, lengthOf, if_neg (by omega), Int.toNat_natCast,
          UInt64.ofNat_toNat]

theorem boolOf_eq_ok_iff (conveys : Json.Conveys tree value) (flag : Bool) :
    boolOf value = .ok flag ↔ (Setting.noLeadingZero flag).SaidBy tree := by
  constructor
  · intro same
    cases conveys <;> cases same
    exact .noLeadingZero _
  · rintro ⟨⟩
    cases conveys
    rfl

/-- The settings that are texts are said by that text. -/
theorem textOf_eq_ok_iff
    (conveys : Json.Conveys tree value) {make : Text → Setting}
    (makes : make = .characters ∨ make = .pattern) (text : Text) :
    textOf value = .ok text ↔ (make text).SaidBy tree := by
  constructor
  · intro same
    cases conveys <;> cases same
    rcases makes with rfl | rfl
    · exact .characters text
    · exact .pattern text
  · intro said
    have spelled : tree = .string text := by
      rcases makes with rfl | rfl <;> cases said <;> rfl
    subst spelled
    cases conveys
    rfl

theorem letterCaseNamed_eq_ok_iff (name : Text) (letterCase : LetterCase) :
    letterCaseNamed name = .ok letterCase ↔ name = letterCase.name.toList := by
  have named := LetterCase.ofName?_eq_some_iff (String.ofList name) letterCase
  rw [ofList_eq_iff] at named
  rw [letterCaseNamed, ← named]
  split <;> simp_all

theorem letterCaseOf_eq_ok_iff
    (conveys : Json.Conveys tree value) (noObject : ∀ members, tree ≠ .object members)
    (letterCase : LetterCase) :
    letterCaseOf value = .ok letterCase ↔ (Setting.letterCase letterCase).SaidBy tree := by
  constructor
  · intro same
    cases conveys with
    | string text =>
        rw [(letterCaseNamed_eq_ok_iff text letterCase).mp same]
        exact .letterCase letterCase
    | object => exact absurd rfl (noObject _)
    | _ => cases same
  · rintro ⟨⟩
    cases conveys
    exact (letterCaseNamed_eq_ok_iff _ letterCase).mpr rfl

end Values

/-! ## Collecting settings -/

namespace Settings

/-- The setting that a field has been given. -/
def get? (settings : Settings) : Field → Option Setting
  | .length => settings.length.map .length
  | .noLeadingZero => settings.noLeadingZero.map .noLeadingZero
  | .letterCase => settings.letterCase.map .letterCase
  | .characters => settings.characters.map .characters
  | .pattern => settings.pattern.map .pattern

def set (settings : Settings) : Setting → Settings
  | .length length => { settings with length := some length }
  | .noLeadingZero value => { settings with noLeadingZero := some value }
  | .letterCase letterCase => { settings with letterCase := some letterCase }
  | .characters text => { settings with characters := some text }
  | .pattern text => { settings with pattern := some text }

theorem get?_empty (field : Field) : ({} : Settings).get? field = none := by
  cases field <;> rfl

theorem get?_set (settings : Settings) (setting : Setting) (field : Field) :
    (settings.set setting).get? field =
      if setting.field = field then some setting else settings.get? field := by
  cases setting <;> cases field <;> rfl

theorem get?_set_eq_none_iff (settings : Settings) (setting : Setting) (field : Field) :
    (settings.set setting).get? field = none ↔
      setting.field ≠ field ∧ settings.get? field = none := by
  rw [get?_set]
  split <;> simp_all

theorem has_eq (settings : Settings) (field : Field) :
    settings.has field = (settings.get? field).isSome := by
  cases field <;> simp [has, get?]

/-- A field is given by what its value is read as. -/
theorem returned_set_eq_ok_iff
    {α : Type} {tree : Tree} (settings : Settings) {field : Field} {read : Except Misfit α}
    {make : α → Setting}
    (made : ∀ setting : Setting, setting.field = field ↔ ∃ value, setting = make value)
    (reads : ∀ value, read = .ok value ↔ (make value).SaidBy tree) (next : Settings) :
    (do return settings.set (make (← read))) = .ok next ↔
      ∃ setting : Setting, setting.field = field ∧ setting.SaidBy tree ∧
        next = settings.set setting := by
  rw [bind_pure_comp, map_eq_ok_iff]
  constructor
  · rintro ⟨value, known, rfl⟩
    exact ⟨make value, (made _).mpr ⟨value, rfl⟩, (reads value).mp known, rfl⟩
  · rintro ⟨setting, same, said, rfl⟩
    obtain ⟨value, rfl⟩ := (made setting).mp same
    exact ⟨value, (reads value).mpr said, rfl⟩

theorem give_eq_ok_iff
    {tree : Tree} {value : Json.Value} (conveys : Json.Conveys tree value)
    (settings : Settings) {field : Field}
    (noObject : field = .letterCase → ∀ members, tree ≠ .object members) (next : Settings) :
    settings.give field value = .ok next ↔
      ∃ setting : Setting, setting.field = field ∧ setting.SaidBy tree ∧
        next = settings.set setting := by
  cases field with
  | length =>
      refine returned_set_eq_ok_iff settings ?_ (lengthOf_eq_ok_iff conveys) next
      exact fun setting => by cases setting <;> simp [Setting.field]
  | noLeadingZero =>
      refine returned_set_eq_ok_iff settings ?_ (boolOf_eq_ok_iff conveys) next
      exact fun setting => by cases setting <;> simp [Setting.field]
  | letterCase =>
      refine returned_set_eq_ok_iff settings ?_ (letterCaseOf_eq_ok_iff conveys (noObject rfl)) next
      exact fun setting => by cases setting <;> simp [Setting.field]
  | characters =>
      refine returned_set_eq_ok_iff settings ?_ (textOf_eq_ok_iff conveys (.inl rfl)) next
      exact fun setting => by cases setting <;> simp [Setting.field]
  | pattern =>
      refine returned_set_eq_ok_iff settings ?_ (textOf_eq_ok_iff conveys (.inr rfl)) next
      exact fun setting => by cases setting <;> simp [Setting.field]

theorem get?_foldl_set_of_notMem
    (given : List Setting) (start : Settings) {field : Field}
    (absent : field ∉ given.map Setting.field) :
    (given.foldl set start).get? field = start.get? field := by
  induction given generalizing start with
  | nil => rfl
  | cons setting given inductionHypothesis =>
      rw [List.map_cons, List.mem_cons, not_or] at absent
      rw [List.foldl_cons, inductionHypothesis _ absent.2, get?_set, if_neg (Ne.symm absent.1)]

theorem get?_foldl_set_of_mem
    {given : List Setting} (once : (given.map Setting.field).Nodup) (start : Settings)
    {setting : Setting} (member : setting ∈ given) :
    (given.foldl set start).get? setting.field = some setting := by
  induction given generalizing start with
  | nil => cases member
  | cons first given inductionHypothesis =>
      rw [List.map_cons, List.nodup_cons] at once
      rcases List.mem_cons.mp member with rfl | later
      · rw [List.foldl_cons, get?_foldl_set_of_notMem given _ once.1, get?_set, if_pos rfl]
      · exact inductionHypothesis once.2 _ later

theorem required_eq_ok_iff
    {α : Type} (missing : Field → Misfit) (field : Field) (given : Option α) (value : α) :
    required missing field given = .ok value ↔ given = some value := by
  cases given <;> simp [required]

theorem eq_getD_iff {α : Type} (given : Option α) (value other : α) :
    value = given.getD other ↔ given = some value ∨ given = none ∧ value = other := by
  cases given <;> simp [eq_comm]

theorem complete_eq_ok_iff
    (settings : Settings) (missing : Field → Misfit) (kind : Kind)
    (configuration : Configuration) :
    settings.complete missing kind = .ok configuration ↔
      configuration.kind = kind ∧ ∀ setting ∈ configuration.settings,
        settings.get? setting.field = some setting ∨
          settings.get? setting.field = none ∧ setting.IsDefault := by
  cases kind <;> cases configuration <;>
    simp [complete, bind_eq_ok_iff, map_eq_ok_iff, required_eq_ok_iff, eq_getD_iff,
      Configuration.kind, Configuration.settings, get?, Setting.field, Setting.isDefault_iff]

end Settings

end RandomCodes.Configuration
