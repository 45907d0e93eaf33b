import RandomCodes.Proofs.Configuration.Reading
/-!
# Which objects are configurations

An object is accepted exactly if its members describe a configuration, in whatever order they
stand, and the result is the configuration they describe.
-/

namespace RandomCodes.Configuration

open Json (Tree Written Document)
open Reader (NamesKind KindRead ItemRead MemberRead)

/-- The members of an object describe a configuration: one of them is its kind, each other one gives
one of its settings, no name stands twice, and what is not given holds of its own accord. -/
structure Describes (members : List (Text × Tree)) (configuration : Configuration) : Prop where
  once : (members.map Prod.fst).Nodup
  kind : (kindName.toList, .string configuration.kind.name.toList) ∈ members
  known : ∀ member ∈ members, member.1 ≠ kindName.toList →
    ∃ setting ∈ configuration.settings, setting.GivenBy member
  present : ∀ setting ∈ configuration.settings,
    setting.field.name.toList ∈ members.map Prod.fst ∨ setting.IsDefault

theorem Describes.perm
    {members others : List (Text × Tree)} {configuration : Configuration}
    (describes : Describes members configuration) (perm : members.Perm others) :
    Describes others configuration where
  once := (perm.map Prod.fst).nodup_iff.mp describes.once
  kind := perm.mem_iff.mp describes.kind
  known member place := describes.known member (perm.mem_iff.mpr place)
  present setting own :=
    (describes.present setting own).imp_left (perm.map Prod.fst).mem_iff.mp

theorem eq_singleton_of_nodup
    {α β : Type} {convert : α → β} {items : List α} (once : (items.map convert).Nodup)
    {item : α} (member : item ∈ items) (same : ∀ other ∈ items, convert other = convert item) :
    items = [item] := by
  match items, once, member, same with
  | [only], _, member, _ => rw [List.mem_singleton.mp member]
  | first :: second :: others, once, _, same =>
      have equal : convert first = convert second :=
        (same first (by simp)).trans (same second (by simp)).symm
      simp [equal] at once

theorem not_namesKind_field (field : Field) : ¬NamesKind field.name.toList := by
  cases field <;> decide

theorem Describes.kinds
    {members : List (Text × Tree)} {configuration : Configuration}
    (describes : Describes members configuration) :
    members.filter (fun member => NamesKind member.1) =
      [(kindName.toList, .string configuration.kind.name.toList)] := by
  have once := describes.once.sublist
    ((List.filter_sublist (p := fun member => NamesKind member.1)).map Prod.fst)
  refine eq_singleton_of_nodup once ?_ fun other place => ?_
  · exact List.mem_filter.mpr ⟨describes.kind, decide_eq_true rfl⟩
  · exact of_decide_eq_true (List.mem_filter.mp place).2

theorem Describes.specifies
    {members : List (Text × Tree)} {configuration : Configuration}
    (describes : Describes members configuration) :
    Specifies (members.filter fun member => ¬NamesKind member.1) configuration where
  once := describes.once.sublist (List.filter_sublist.map Prod.fst)
  known member place := by
    obtain ⟨inside, other⟩ := List.mem_filter.mp place
    exact describes.known member inside (of_decide_eq_true other)
  present setting own := by
    refine (describes.present setting own).imp_left fun named => ?_
    obtain ⟨member, place, name⟩ := List.mem_map.mp named
    have other : ¬NamesKind member.1 := name ▸ not_namesKind_field setting.field
    exact List.mem_map.mpr ⟨member, List.mem_filter.mpr ⟨place, decide_eq_true other⟩, name⟩

theorem describes_iff (members : List (Text × Tree)) (configuration : Configuration) :
    Describes members configuration ↔
      members.filter (fun member => NamesKind member.1) =
          [(kindName.toList, .string configuration.kind.name.toList)] ∧
        Specifies (members.filter fun member => ¬NamesKind member.1) configuration := by
  refine ⟨fun describes => ⟨describes.kinds, describes.specifies⟩, ?_⟩
  rintro ⟨only, specifies⟩
  have perm := List.filter_append_perm (fun member => decide (NamesKind member.1)) members
  simp only [← decide_not] at perm
  rw [only] at perm
  have others : ∀ member ∈ members.filter fun member => ¬NamesKind member.1,
      ¬NamesKind member.1 :=
    fun member place => of_decide_eq_true (List.mem_filter.mp place).2
  refine Describes.perm ?_ perm
  refine ⟨?_, List.mem_cons_self, fun member place other => ?_, fun setting own => ?_⟩
  · rw [List.singleton_append, List.map_cons, List.nodup_cons]
    refine ⟨fun named => ?_, specifies.once⟩
    obtain ⟨member, place, name⟩ := List.mem_map.mp named
    exact others member place name
  · rcases List.mem_cons.mp place with rfl | later
    · exact absurd rfl other
    · exact specifies.known member later
  · exact (specifies.present setting own).imp_left (List.mem_cons_of_mem _)

section Written

variable {item : Json.Item} (written : Written item.tree item.text)
include written

theorem kindRead_iff (kind : Kind) :
    KindRead item kind ↔ item.tree = .string kind.name.toList := by
  obtain ⟨result, reads, known⟩ := Reader.kind_reads written
  rw [KindRead, reads.run'_eq, known]

theorem conveys_of_itemRead {value : Json.Value} (read : ItemRead item value) :
    Json.Conveys item.tree value := by
  obtain ⟨result, reads, yields⟩ :=
    Json.Reader.value_reads Misfit written Reader.innerDepth
  rw [ItemRead, reads.run'_eq] at read
  exact yields.conveys value read

/-- The tree of a setting is not refused. -/
theorem exists_itemRead {setting : Setting} (said : setting.SaidBy item.tree) :
    ∃ value, ItemRead item value := by
  obtain ⟨result, reads, yields⟩ :=
    Json.Reader.value_reads Misfit written Reader.innerDepth
  obtain ⟨value, known⟩ := yields.succeeds said.plain
  exact ⟨value, reads.run'_eq.trans known⟩

end Written

theorem forall₂_kindRead_iff
    {members : List Json.Member}
    (written : ∀ member ∈ members, Written member.item.tree member.item.text)
    (named : ∀ member ∈ members, NamesKind member.name) (kind : Kind) :
    List.Forall₂ (fun member => KindRead member.item) members [kind] ↔
      members.map Json.Member.entry = [(kindName.toList, .string kind.name.toList)] := by
  constructor
  · intro read
    obtain ⟨member, rest, first, none, rfl⟩ := List.forall₂_cons_right_iff.mp read
    obtain rfl := List.forall₂_nil_right_iff.mp none
    have tree := (kindRead_iff (written member List.mem_cons_self) kind).mp first
    have name : member.name = kindName.toList := named member List.mem_cons_self
    simp [Json.Member.entry, name, tree]
  · intro same
    obtain ⟨member, rest, rfl, entry, none⟩ := List.map_eq_cons_iff.mp same
    obtain rfl := List.map_eq_nil_iff.mp none
    have tree : member.item.tree = .string kind.name.toList := congrArg Prod.snd entry
    exact .cons ((kindRead_iff (written member List.mem_cons_self) kind).mpr tree) .nil

theorem forall₂_memberConveys
    {members : List Json.Member}
    (written : ∀ member ∈ members, Written member.item.tree member.item.text)
    {values : List (Text × Json.Value)} (read : List.Forall₂ MemberRead members values) :
    List.Forall₂ MemberConveys (members.map Json.Member.entry) values := by
  refine forall₂_map_of_forall (fun member place given memberRead => ?_) read
  exact ⟨memberRead.1, conveys_of_itemRead (written member place) memberRead.2⟩

theorem foldlM_finish_iff_describes
    {members : List Json.Member}
    (written : ∀ member ∈ members, Written member.item.tree member.item.text)
    (plain : ∀ member ∈ members, PlainCase member.entry) (configuration : Configuration) :
    (members.foldlM Reader.addMember {} >>= Reader.Members.finish) = .ok configuration ↔
      Describes (members.map Json.Member.entry) configuration := by
  have kinds : ∀ member ∈ members.filter fun member => NamesKind member.name,
      member ∈ members ∧ NamesKind member.name := by
    simp [List.mem_filter]
  have others : ∀ member ∈ members.filter fun member => ¬NamesKind member.name,
      member ∈ members := by
    simp +contextual [List.mem_filter]
  have onlyKind (kind : Kind) := forall₂_kindRead_iff
    (fun member place => written member (kinds member place).1)
    (fun member place => (kinds member place).2) kind
  have conveys {values : List (Text × Json.Value)} :
      List.Forall₂ MemberRead (members.filter fun member => ¬NamesKind member.name) values →
        List.Forall₂ MemberConveys _ values :=
    forall₂_memberConveys fun member place => written member (others member place)
  have plainOthers : ∀ tree ∈ (members.filter fun member => ¬NamesKind member.name).map
      Json.Member.entry, PlainCase tree := by
    intro tree place
    obtain ⟨member, inside, rfl⟩ := List.mem_map.mp place
    exact plain member (others member inside)
  rw [Reader.foldlM_addMember_finish_eq_ok_iff, describes_iff, List.filter_map, List.filter_map]
  constructor
  · rintro ⟨kind, values, kindsRead, valuesRead, made⟩
    obtain ⟨rfl, specifies⟩ :=
      (ofMembers_eq_ok_iff (conveys valuesRead) plainOthers kind configuration).mp made
    exact ⟨(onlyKind _).mp kindsRead, specifies⟩
  · rintro ⟨only, specifies⟩
    have readable : ∀ member ∈ members.filter fun member => ¬NamesKind member.name,
        ∃ given, MemberRead member given := by
      intro member place
      obtain ⟨setting, _, givenBy⟩ := specifies.known member.entry (List.mem_map_of_mem place)
      obtain ⟨value, read⟩ := exists_itemRead (written member (others member place)) givenBy.said
      exact ⟨(member.name, value), rfl, read⟩
    obtain ⟨values, valuesRead⟩ := exists_forall₂_of_forall_mem readable
    exact ⟨configuration.kind, values, (onlyKind _).mpr only, valuesRead,
      (ofMembers_eq_ok_iff (conveys valuesRead) plainOthers _ configuration).mpr ⟨rfl, specifies⟩⟩

theorem ofJson_eq_ok_iff_describes
    {members : List (Text × Tree)} {text : Text} (document : Document (.object members) text)
    (plain : ∀ member ∈ members, PlainCase member) (configuration : Configuration) :
    ofJson text = .ok configuration ↔ Describes members configuration := by
  obtain ⟨beforeBlank, written, afterBlank⟩ := document
  cases written with
  | object blank memberBlank spelled written =>
      rename_i members
      have plainMembers (member : Json.Member) (place : member ∈ members) :
          PlainCase member.entry :=
        plain member.entry (List.mem_map_of_mem place)
      rw [← foldlM_finish_iff_describes written plainMembers,
        Reader.ofJson_object blank memberBlank spelled written beforeBlank afterBlank]

end RandomCodes.Configuration
