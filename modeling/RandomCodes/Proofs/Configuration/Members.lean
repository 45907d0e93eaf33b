import RandomCodes.Proofs.Configuration.Settings
import RandomCodes.Proofs.ListsInStep
/-!
# Members that give settings

Members specify a configuration of their kind when each of them gives one of its settings, no name
stands twice, and what is not given holds of its own accord. The configuration that is put together
from members is the one they specify, and there is none where they specify none.
-/

namespace RandomCodes.Configuration

open Json (Tree)

/-- A member as it is read has the name and says the value that the tree does. -/
structure MemberConveys (tree : Text × Tree) (member : Text × Json.Value) : Prop where
  name : tree.1 = member.1
  conveys : Json.Conveys tree.2 member.2

/-- A letter case is not given by an object. -/
def PlainCase (member : Text × Tree) : Prop :=
  member.1 = Field.letterCase.name.toList → ∀ members, member.2 ≠ .object members

namespace Settings

theorem giveMember_eq_ok_iff
    {tree : Text × Tree} {member : Text × Json.Value} (conveys : MemberConveys tree member)
    (plain : PlainCase tree) (kind : Kind) (settings next : Settings) :
    settings.giveMember kind member = .ok next ↔
      ∃ setting : Setting, setting.GivenBy tree ∧ setting.field ∈ kind.fields ∧
        settings.get? setting.field = none ∧ next = settings.set setting := by
  have known (field : Field) : kind.field? (String.ofList member.1) = some field ↔
      field ∈ kind.fields ∧ tree.1 = field.name.toList := by
    rw [Kind.field?_eq_some_iff, eq_comm, ofList_eq_iff, conveys.name]
  cases found : kind.field? (String.ofList member.1) with
  | none =>
      simp only [giveMember, found]
      constructor
      · rintro ⟨⟩
      · rintro ⟨setting, given, listed, _⟩
        rw [(known setting.field).mpr ⟨listed, given.name⟩] at found
        cases found
  | some field =>
      obtain ⟨listed, name⟩ := (known field).mp found
      have noObject (same : field = .letterCase) : ∀ members, tree.2 ≠ .object members :=
        plain (same ▸ name)
      have only {setting : Setting} (given : setting.GivenBy tree) : setting.field = field :=
        Field.name_injective (String.toList_inj.mp (given.name.symm.trans name))
      simp only [giveMember, found, has_eq]
      by_cases new : settings.get? field = none
      · rw [new, Option.isSome_none, if_neg Bool.false_ne_true,
          give_eq_ok_iff conveys.conveys settings noObject]
        constructor
        · rintro ⟨setting, rfl, said, rfl⟩
          exact ⟨setting, ⟨name, said⟩, listed, new, rfl⟩
        · rintro ⟨setting, given, _, _, rfl⟩
          exact ⟨setting, only given, given.said, rfl⟩
      · rw [if_pos (Option.isSome_iff_ne_none.mpr new)]
        constructor
        · rintro ⟨⟩
        · rintro ⟨setting, given, _, absent, _⟩
          exact absurd (only given ▸ absent) new

/-- Giving all members succeeds exactly if each gives a setting of its own. -/
theorem foldlM_giveMember_eq_ok_iff
    {trees : List (Text × Tree)} {members : List (Text × Json.Value)}
    (conveys : List.Forall₂ MemberConveys trees members) (plain : ∀ tree ∈ trees, PlainCase tree)
    (kind : Kind) (start final : Settings) :
    members.foldlM (giveMember kind) start = .ok final ↔
      ∃ given : List Setting, List.Forall₂ Setting.GivenBy given trees ∧
        (∀ setting ∈ given, setting.field ∈ kind.fields ∧ start.get? setting.field = none) ∧
        (given.map Setting.field).Nodup ∧ final = given.foldl set start := by
  induction conveys generalizing start with
  | nil =>
      constructor
      · rintro ⟨⟩
        exact ⟨[], .nil, by simp, .nil, rfl⟩
      · rintro ⟨_, ⟨⟩, _, _, rfl⟩
        rfl
  | @cons tree member trees members first _ inductionHypothesis =>
      have plainFirst := plain tree List.mem_cons_self
      have plainOthers := fun other member => plain other (List.mem_cons_of_mem tree member)
      rw [List.foldlM_cons, bind_eq_ok_iff]
      constructor
      · rintro ⟨_, step, rest⟩
        obtain ⟨setting, given, listed, new, rfl⟩ :=
          (giveMember_eq_ok_iff first plainFirst kind start _).mp step
        obtain ⟨others, givenOthers, fresh, once, rfl⟩ :=
          (inductionHypothesis plainOthers _).mp rest
        simp only [get?_set_eq_none_iff] at fresh
        refine ⟨setting :: others, .cons given givenOthers, ?_, ?_, rfl⟩
        · rintro other member
          rcases List.mem_cons.mp member with rfl | later
          · exact ⟨listed, new⟩
          · exact ⟨(fresh other later).1, (fresh other later).2.2⟩
        · refine List.nodup_cons.mpr ⟨fun repeated => ?_, once⟩
          obtain ⟨other, later, same⟩ := List.mem_map.mp repeated
          exact (fresh other later).2.1 same.symm
      · rintro ⟨_, _ | ⟨given, givenOthers⟩, fresh, once, rfl⟩
        rename_i setting others
        obtain ⟨listed, new⟩ := fresh setting List.mem_cons_self
        obtain ⟨notRepeated, onceOthers⟩ := List.nodup_cons.mp once
        refine ⟨start.set setting, (giveMember_eq_ok_iff first plainFirst kind start _).mpr
          ⟨setting, given, listed, new, rfl⟩, (inductionHypothesis plainOthers _).mpr
          ⟨others, givenOthers, fun other later => ?_, onceOthers, rfl⟩⟩
        obtain ⟨listedOther, newOther⟩ := fresh other (List.mem_cons_of_mem setting later)
        rw [get?_set_eq_none_iff]
        exact ⟨listedOther, fun same => notRepeated (same ▸ List.mem_map_of_mem later), newOther⟩

end Settings

/-- Members other than the kind describe the settings of a configuration. -/
structure Specifies (members : List (Text × Tree)) (configuration : Configuration) : Prop where
  once : (members.map Prod.fst).Nodup
  known : ∀ member ∈ members, ∃ setting ∈ configuration.settings, setting.GivenBy member
  present : ∀ setting ∈ configuration.settings,
    setting.field.name.toList ∈ members.map Prod.fst ∨ setting.IsDefault

theorem map_name_of_givenBy
    {given : List Setting} {trees : List (Text × Tree)}
    (givenBy : List.Forall₂ Setting.GivenBy given trees) :
    trees.map Prod.fst = (given.map Setting.field).map fun field => field.name.toList := by
  induction givenBy with
  | nil => rfl
  | cons first _ inductionHypothesis =>
      simp only [List.map_cons, first.name, inductionHypothesis]

theorem name_mem_iff
    {given : List Setting} {trees : List (Text × Tree)}
    (givenBy : List.Forall₂ Setting.GivenBy given trees) (field : Field) :
    field.name.toList ∈ trees.map Prod.fst ↔ field ∈ given.map Setting.field := by
  rw [map_name_of_givenBy givenBy]
  exact List.mem_map_of_injective Field.nameText_injective

theorem ofMembers_eq_ok_iff
    {trees : List (Text × Tree)} {members : List (Text × Json.Value)}
    (conveys : List.Forall₂ MemberConveys trees members) (plain : ∀ tree ∈ trees, PlainCase tree)
    (kind : Kind) (configuration : Configuration) :
    ofMembers kind members = .ok configuration ↔
      configuration.kind = kind ∧ Specifies trees configuration := by
  rw [ofMembers, bind_eq_ok_iff]
  simp only [Settings.foldlM_giveMember_eq_ok_iff conveys plain, Settings.complete_eq_ok_iff,
    Settings.get?_empty, and_true]
  constructor
  · rintro ⟨_, ⟨given, givenBy, listed, once, rfl⟩, rfl, complete⟩
    refine ⟨rfl, ?_, fun member place => ?_, fun setting own => ?_⟩
    · rw [map_name_of_givenBy givenBy]
      exact once.map Field.nameText_injective
    · obtain ⟨setting, taken, gives⟩ := exists_mem_of_forall₂ givenBy place
      have ownField := listed setting taken
      rw [← map_field_settings] at ownField
      obtain ⟨own, ownMember, sameField⟩ := List.mem_map.mp ownField
      have held := Settings.get?_foldl_set_of_mem once {} taken
      rw [← sameField] at held
      have same : setting = own := by
        rcases complete own ownMember with known | ⟨absent, _⟩
        · exact Option.some.inj (held.symm.trans known)
        · rw [held] at absent
          cases absent
      exact ⟨setting, same ▸ ownMember, gives⟩
    · refine (complete setting own).imp (fun known => ?_) And.right
      rw [name_mem_iff givenBy]
      by_contra absent
      rw [Settings.get?_foldl_set_of_notMem given {} absent, Settings.get?_empty] at known
      cases known
  · rintro ⟨rfl, once, known, present⟩
    obtain ⟨given, inStep⟩ := exists_forall₂_of_forall_mem known
    obtain ⟨owned, givenBy⟩ := (List.forall₂_and_left given trees).mp inStep.flip
    have onceFields : (given.map Setting.field).Nodup := by
      rw [map_name_of_givenBy givenBy] at once
      exact once.of_map
    refine ⟨_, ⟨given, givenBy, fun setting taken => ?_, onceFields, rfl⟩, rfl,
      fun setting own => ?_⟩
    · rw [← map_field_settings]
      exact List.mem_map_of_mem (owned setting taken)
    · by_cases taken : setting.field ∈ given.map Setting.field
      · obtain ⟨other, otherTaken, sameField⟩ := List.mem_map.mp taken
        have same := eq_of_field_eq (owned other otherTaken) own sameField
        exact .inl (Settings.get?_foldl_set_of_mem onceFields {} (same ▸ otherTaken))
      · have absent := Settings.get?_foldl_set_of_notMem given {} taken
        refine .inr ⟨absent.trans (Settings.get?_empty setting.field), ?_⟩
        refine (present setting own).resolve_left fun named => taken ?_
        exact (name_mem_iff givenBy setting.field).mp named

end RandomCodes.Configuration
