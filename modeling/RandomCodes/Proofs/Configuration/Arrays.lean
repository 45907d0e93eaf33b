import RandomCodes.Proofs.Configuration.Objects
/-!
# Which arrays are configurations

An array is accepted exactly if it lists a configuration: its kind first and then its settings in
the order of the fields, where settings that hold of their own accord may be left out at the end.
-/

namespace RandomCodes.Configuration

open Json (Tree Written Document Blank)

/-- The trees say the settings of a configuration in order, but for some at the end that hold of
their own accord. -/
structure SaysSettings (trees : List Tree) (configuration : Configuration)
    (given others : List Setting) : Prop where
  settings : configuration.settings = given ++ others
  said : List.Forall₂ Setting.SaidBy given trees
  isDefault : ∀ setting ∈ others, setting.IsDefault

/-- The items of an array list a configuration: its kind and then its settings. -/
inductive Lists : List Tree → Configuration → Prop
  | intro {trees : List Tree} {configuration : Configuration} {given others : List Setting} :
      SaysSettings trees configuration given others →
      Lists (.string configuration.kind.name.toList :: trees) configuration

def NoObject (tree : Tree) : Prop :=
  ∀ members, tree ≠ .object members

namespace Settings

theorem foldlM_give_eq_ok_iff
    {trees : List Tree} {values : List Json.Value}
    (conveys : List.Forall₂ Json.Conveys trees values) (plain : ∀ tree ∈ trees, NoObject tree)
    {fields : List Field} (enough : values.length ≤ fields.length) (start final : Settings) :
    (fields.zip values).foldlM (fun settings (field, value) => settings.give field value) start =
        .ok final ↔
      ∃ given : List Setting, given.map Setting.field = fields.take values.length ∧
        List.Forall₂ Setting.SaidBy given trees ∧ final = given.foldl set start := by
  induction conveys generalizing fields start with
  | nil =>
      rw [List.zip_nil_right]
      constructor
      · rintro ⟨⟩
        exact ⟨[], rfl, .nil, rfl⟩
      · rintro ⟨_, _, ⟨⟩, rfl⟩
        rfl
  | @cons tree value trees values first _ inductionHypothesis =>
      have plainFirst := plain tree List.mem_cons_self
      have plainOthers := fun other member => plain other (List.mem_cons_of_mem tree member)
      cases fields with
      | nil => exact absurd enough (Nat.not_succ_le_zero _)
      | cons field fields =>
          have enoughOthers := Nat.le_of_succ_le_succ enough
          rw [List.zip_cons_cons, List.foldlM_cons, bind_eq_ok_iff]
          constructor
          · rintro ⟨_, step, rest⟩
            obtain ⟨setting, rfl, said, rfl⟩ :=
              (give_eq_ok_iff first start (fun _ => plainFirst) _).mp step
            obtain ⟨given, sameFields, saidOthers, rfl⟩ :=
              (inductionHypothesis plainOthers enoughOthers _).mp rest
            refine ⟨setting :: given, ?_, .cons said saidOthers, rfl⟩
            rw [List.map_cons, sameFields, List.length_cons, List.take_succ_cons]
          · rintro ⟨_, sameFields, saidAll, rfl⟩
            obtain ⟨setting, given, said, saidOthers, rfl⟩ := List.forall₂_cons_right_iff.mp saidAll
            rw [List.map_cons, List.length_cons, List.take_succ_cons, List.cons.injEq] at sameFields
            exact ⟨start.set setting,
              (give_eq_ok_iff first start (fun _ => plainFirst) _).mpr
                ⟨setting, sameFields.1, said, rfl⟩,
              (inductionHypothesis plainOthers enoughOthers _).mpr
                ⟨given, sameFields.2, saidOthers, rfl⟩⟩

end Settings

theorem eq_of_map_eq
    {α β : Type} {convert : α → β} {firsts seconds : List α}
    (same : firsts.map convert = seconds.map convert)
    (injective : ∀ first ∈ firsts, ∀ second ∈ seconds,
      convert first = convert second → first = second) :
    firsts = seconds := by
  induction firsts generalizing seconds with
  | nil => exact (List.map_eq_nil_iff.mp same.symm).symm
  | cons first firsts inductionHypothesis =>
      obtain ⟨second, others, rfl, head, tail⟩ := List.map_eq_cons_iff.mp same.symm
      rw [injective first List.mem_cons_self second List.mem_cons_self head.symm,
        inductionHypothesis tail.symm fun left leftMember right rightMember =>
          injective left (List.mem_cons_of_mem _ leftMember) right
            (List.mem_cons_of_mem _ rightMember)]

theorem field_notMem_of_append
    {configuration : Configuration} {given others : List Setting}
    (settings : configuration.settings = given ++ others) {setting : Setting}
    (left : setting ∈ others) : setting.field ∉ given.map Setting.field := by
  have once := nodup_field_settings configuration
  rw [settings, List.map_append] at once
  exact fun taken => List.disjoint_of_nodup_append once taken (List.mem_map_of_mem left)

/-- Settings given in order complete a configuration exactly if they are its first ones and all
others hold of their own accord. -/
theorem complete_foldl_iff
    {configuration : Configuration} {given : List Setting} {count : Nat}
    (sameFields : given.map Setting.field = configuration.kind.fields.take count) :
    (∀ setting ∈ configuration.settings,
        (given.foldl Settings.set {}).get? setting.field = some setting ∨
          (given.foldl Settings.set {}).get? setting.field = none ∧ setting.IsDefault) ↔
      ∃ others, configuration.settings = given ++ others ∧
        ∀ setting ∈ others, setting.IsDefault := by
  have once : (given.map Setting.field).Nodup := by
    rw [sameFields, ← map_field_settings]
    exact (nodup_field_settings configuration).sublist (List.take_sublist count _)
  have absent {setting : Setting} (notTaken : setting.field ∉ given.map Setting.field) :
      (given.foldl Settings.set {}).get? setting.field = none := by
    rw [Settings.get?_foldl_set_of_notMem given {} notTaken, Settings.get?_empty]
  constructor
  · intro complete
    have front : given = configuration.settings.take count := by
      rw [← map_field_settings, ← List.map_take] at sameFields
      refine eq_of_map_eq sameFields fun first taken second own same => ?_
      have held := Settings.get?_foldl_set_of_mem once {} taken
      rw [same] at held
      rcases complete second (List.mem_of_mem_take own) with known | ⟨notHeld, _⟩
      · exact Option.some.inj (held.symm.trans known)
      · rw [held] at notHeld
        cases notHeld
    have parts : configuration.settings = given ++ configuration.settings.drop count := by
      rw [front, List.take_append_drop]
    refine ⟨_, parts, fun setting left => ?_⟩
    have notHeld := absent (field_notMem_of_append parts left)
    rcases complete setting (List.mem_of_mem_drop left) with known | ⟨_, isDefault⟩
    · rw [notHeld] at known
      cases known
    · exact isDefault
  · rintro ⟨others, settings, isDefault⟩ setting own
    rw [settings] at own
    rcases List.mem_append.mp own with taken | left
    · exact .inl (Settings.get?_foldl_set_of_mem once {} taken)
    · exact .inr ⟨absent (field_notMem_of_append settings left), isDefault setting left⟩

theorem ofItems_accepts_iff
    (kind : Kind) (values : List Json.Value) (configuration : Configuration) :
    ofItems kind values = .ok configuration ↔
      values.length ≤ kind.fields.length ∧ ∃ settings,
        (kind.fields.zip values).foldlM (fun settings (field, value) => settings.give field value)
          ({} : Settings) = .ok settings ∧
        settings.complete (fun _ => .wrongLength values.length (.fieldsOf kind)) kind =
          .ok configuration := by
  simp only [ofItems, bind_eq_ok_iff]
  by_cases tooMany : kind.fields.length < values.length
  · simp only [if_pos tooMany]
    constructor
    · rintro ⟨_, _, _, _, ⟨⟩⟩
    · rintro ⟨enough, _⟩
      exact absurd tooMany (Nat.not_lt.mpr enough)
  · simp only [if_neg tooMany, Nat.le_of_not_lt tooMany, true_and]
    constructor
    · rintro ⟨settings, given, _, complete, ⟨⟩⟩
      exact ⟨settings, given, complete⟩
    · rintro ⟨settings, given, complete⟩
      exact ⟨settings, given, configuration, complete, rfl⟩

theorem ofItems_eq_ok_iff
    {trees : List Tree} {values : List Json.Value}
    (conveys : List.Forall₂ Json.Conveys trees values) (plain : ∀ tree ∈ trees, NoObject tree)
    (kind : Kind) (configuration : Configuration) :
    ofItems kind values = .ok configuration ↔
      configuration.kind = kind ∧
        ∃ given others, SaysSettings trees configuration given others := by
  rw [ofItems_accepts_iff]
  simp only [Settings.complete_eq_ok_iff]
  constructor
  · rintro ⟨enough, _, taken, rfl, complete⟩
    obtain ⟨given, sameFields, said, rfl⟩ :=
      (Settings.foldlM_give_eq_ok_iff conveys plain enough {} _).mp taken
    obtain ⟨others, settings, isDefault⟩ := (complete_foldl_iff sameFields).mp complete
    exact ⟨rfl, given, others, settings, said, isDefault⟩
  · rintro ⟨rfl, given, others, settings, said, isDefault⟩
    have counted : values.length = given.length := by
      rw [← conveys.length_eq, said.length_eq]
    have sameFields : given.map Setting.field = configuration.kind.fields.take values.length := by
      rw [← map_field_settings, settings, List.map_append, counted, ← List.length_map Setting.field,
        List.take_left]
    have enough : values.length ≤ configuration.kind.fields.length := by
      rw [← map_field_settings, settings, List.length_map, List.length_append]
      omega
    refine ⟨enough, _, (Settings.foldlM_give_eq_ok_iff conveys plain enough {} _).mpr
      ⟨given, sameFields, said, rfl⟩, rfl, ?_⟩
    exact (complete_foldl_iff sameFields).mpr ⟨others, settings, isDefault⟩

namespace Reader

open Json.Reader

/-- What reading an item comes to. -/
def addItem (items : Items) (item : Json.Item) : Except ReadError Items :=
  match items.kind with
  | none => (fun found => { items with kind := some found }) <$> kind.run' item.text
  | some _ =>
      (fun value => { items with latestFirst := value :: items.latestFirst }) <$>
        (value innerDepth).run' item.text

theorem skipsBlank_item (items : Items) : SkipsBlank (item items) := by
  obtain ⟨kind, latestFirst⟩ := items
  cases kind with
  | none => exact skipsBlank_kind.bind _
  | some kind => exact (skipsBlank_value innerDepth).bind _

theorem readsEntry_item
    {item : Json.Item} (blank : item.Blank) (written : Written item.tree item.text) :
    ReadsEntry Reader.item item.place fun items => addItem items item where
  before := blank.1
  after := blank.2
  starts := written.starts
  reads items := by
    obtain ⟨kind, latestFirst⟩ := items
    cases kind with
    | none =>
        obtain ⟨result, reads, _⟩ := kind_reads written
        rw [addItem, reads.run'_eq]
        exact reads.map _
    | some kind =>
        obtain ⟨result, reads, _⟩ := value_reads Misfit written innerDepth
        rw [addItem, reads.run'_eq]
        exact reads.map _
  skips := skipsBlank_item

/-- Behind the kind, all items are read exactly if all their values are. -/
theorem foldlM_addItem_eq_ok_iff
    (items : List Json.Item) (kind : Kind) (latestFirst : List Json.Value) (final : Items) :
    items.foldlM addItem { kind := some kind, latestFirst } = .ok final ↔
      ∃ values, List.Forall₂ ItemRead items values ∧
        final = { kind := some kind, latestFirst := values.reverse ++ latestFirst } := by
  induction items generalizing latestFirst with
  | nil =>
      constructor
      · rintro ⟨⟩
        exact ⟨[], .nil, rfl⟩
      · rintro ⟨_, ⟨⟩, rfl⟩
        rfl
  | cons item items inductionHypothesis =>
      rw [List.foldlM_cons, bind_eq_ok_iff]
      simp only [addItem, map_eq_ok_iff]
      constructor
      · rintro ⟨_, ⟨value, read, rfl⟩, rest⟩
        obtain ⟨values, readOthers, rfl⟩ := (inductionHypothesis _).mp rest
        exact ⟨value :: values, .cons read readOthers, by simp⟩
      · rintro ⟨_, allRead, rfl⟩
        obtain ⟨value, values, read, readOthers, rfl⟩ := List.forall₂_cons_left_iff.mp allRead
        exact ⟨_, ⟨value, read, rfl⟩, (inductionHypothesis _).mpr ⟨values, readOthers, by simp⟩⟩

/-- What the items of an array come to. -/
def Items.finish (items : Items) : Except ReadError Configuration :=
  Reader.finish items.kind fun kind => ofItems kind items.latestFirst.reverse

section Array

variable {blanks : Text} {items : List Json.Item} (blank : Blank blanks)
  (itemBlank : ∀ item ∈ items, item.Blank) (written : ∀ item ∈ items, Written item.tree item.text)
include blank itemBlank written

theorem array_run (after : Text) :
    array.run (Json.enclosedText '[' ']' blanks (items.map Json.Item.spelling) ++ after) =
      (·, after) <$> (items.foldlM addItem {} >>= Items.finish) := by
  have readsEntry (item : Json.Item) (place : item ∈ items) :=
    readsEntry_item (itemBlank item place) (written item place)
  have closes : ']' ∈ [']', '}'] := by decide
  have whole : (entries ']' item {}).run
      (blanks ++ ([','].intercalate (items.map Json.Item.spelling) ++ ']' :: after)) =
      (·, after) <$> items.foldlM addItem {} :=
    entries_append closes readsEntry blank {} after
  rw [Json.enclosedText_append, array, bind_of_run_eq_ok (expect_self '[' _), StateT.run_bind,
    whole]
  cases items.foldlM addItem {} with
  | error failure => rfl
  | ok items => exact finish_run _ _ after

theorem ofJson_array
    {before after : Text} (beforeBlank : Blank before) (afterBlank : Blank after) :
    ofJson (before ++ (Json.enclosedText '[' ']' blanks (items.map Json.Item.spelling) ++ after)) =
      items.foldlM addItem {} >>= Items.finish := by
  have starts : Json.Starts (Json.enclosedText '[' ']' blanks (items.map Json.Item.spelling)) :=
    ⟨'[', rfl, by decide⟩
  refine ofJson_eq afterBlank ?_
  rw [configuration, bind_of_run_eq_ok (peek?_append beforeBlank (starts.append after).tight)]
  exact array_run blank itemBlank written after

end Array

/-- An array is read as a configuration exactly if its first item is a kind, of which the other
items make the configuration. -/
theorem foldlM_addItem_finish_eq_ok_iff
    (items : List Json.Item) (configuration : Configuration) :
    (items.foldlM addItem {} >>= Items.finish) = .ok configuration ↔
      ∃ first others kind values, items = first :: others ∧ KindRead first kind ∧
        List.Forall₂ ItemRead others values ∧ ofItems kind values = .ok configuration := by
  cases items with
  | nil =>
      constructor
      · rintro ⟨⟩
      · rintro ⟨_, _, _, _, ⟨⟩, _⟩
  | cons first others =>
      simp only [bind_eq_ok_iff, List.foldlM_cons, Items.finish, finish_eq_ok_iff]
      constructor
      · rintro ⟨final, ⟨next, step, rest⟩, kind, isKind, made⟩
        obtain ⟨found, read, rfl⟩ := (map_eq_ok_iff _ _ _).mp step
        obtain ⟨values, valuesRead, rfl⟩ := (foldlM_addItem_eq_ok_iff _ _ _ _).mp rest
        cases isKind
        exact ⟨first, others, kind, values, rfl, read, valuesRead, by simpa using made⟩
      · rintro ⟨_, _, kind, values, ⟨⟩, read, valuesRead, made⟩
        refine ⟨_, ⟨_, (map_eq_ok_iff _ _ _).mpr ⟨kind, read, rfl⟩,
          (foldlM_addItem_eq_ok_iff _ _ _ _).mpr ⟨values, valuesRead, rfl⟩⟩, kind, rfl, ?_⟩
        simpa using made

end Reader

/-! ## Acceptance -/

theorem forall₂_conveys
    {items : List Json.Item} (written : ∀ item ∈ items, Written item.tree item.text)
    {values : List Json.Value} (read : List.Forall₂ Reader.ItemRead items values) :
    List.Forall₂ Json.Conveys (items.map Json.Item.tree) values :=
  forall₂_map_of_forall
    (fun item place _ itemRead => conveys_of_itemRead (written item place) itemRead) read

theorem foldlM_addItem_finish_iff_lists
    {items : List Json.Item} (written : ∀ item ∈ items, Written item.tree item.text)
    (plain : ∀ item ∈ items, NoObject item.tree) (configuration : Configuration) :
    (items.foldlM Reader.addItem {} >>= Reader.Items.finish) = .ok configuration ↔
      Lists (items.map Json.Item.tree) configuration := by
  rw [Reader.foldlM_addItem_finish_eq_ok_iff]
  have plainTrees {first : Json.Item} {others : List Json.Item} (same : items = first :: others) :
      ∀ tree ∈ others.map Json.Item.tree, NoObject tree := by
    intro tree place
    obtain ⟨item, member, rfl⟩ := List.mem_map.mp place
    exact plain item (same ▸ List.mem_cons_of_mem first member)
  constructor
  · rintro ⟨first, others, kind, values, rfl, read, valuesRead, made⟩
    have conveys := forall₂_conveys
      (fun item member => written item (List.mem_cons_of_mem first member)) valuesRead
    obtain ⟨rfl, given, left, saysSettings⟩ :=
      (ofItems_eq_ok_iff conveys (plainTrees rfl) kind configuration).mp made
    rw [List.map_cons, (kindRead_iff (written first List.mem_cons_self) _).mp read]
    exact .intro saysSettings
  · intro lists
    generalize same : items.map Json.Item.tree = trees at lists
    obtain ⟨saysSettings⟩ := lists
    obtain ⟨first, others, rfl, tree, rfl⟩ := List.map_eq_cons_iff.mp same
    have writtenOthers := fun item member => written item (List.mem_cons_of_mem first member)
    have readable : ∀ item ∈ others, ∃ value, Reader.ItemRead item value := by
      intro item place
      obtain ⟨setting, _, said⟩ :=
        exists_mem_of_forall₂ saysSettings.said (List.mem_map_of_mem place)
      exact exists_itemRead (writtenOthers item place) said
    obtain ⟨values, valuesRead⟩ := exists_forall₂_of_forall_mem readable
    have read := (kindRead_iff (written first List.mem_cons_self) configuration.kind).mpr tree
    exact ⟨first, others, configuration.kind, values, rfl, read, valuesRead,
      (ofItems_eq_ok_iff (forall₂_conveys writtenOthers valuesRead) (plainTrees rfl) _ _).mpr
        ⟨rfl, _, _, saysSettings⟩⟩

theorem ofJson_eq_ok_iff_lists
    {items : List Tree} {text : Text} (document : Document (.array items) text)
    (plain : ∀ tree ∈ items, NoObject tree) (configuration : Configuration) :
    ofJson text = .ok configuration ↔ Lists items configuration := by
  obtain ⟨beforeBlank, written, afterBlank⟩ := document
  cases written with
  | array blank itemBlank written =>
      rename_i items
      have plainItems (item : Json.Item) (place : item ∈ items) : NoObject item.tree :=
        plain item.tree (List.mem_map_of_mem place)
      rw [← foldlM_addItem_finish_iff_lists written plainItems,
        Reader.ofJson_array blank itemBlank written beforeBlank afterBlank]

end RandomCodes.Configuration
