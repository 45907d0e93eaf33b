import Mathlib.Data.List.Forall2
/-!
# Lists in step

Two lists are in step when their items are related one by one. An image can be chosen for every item
of a list, and what is in one of two lists in step has a partner in the other.
-/

namespace RandomCodes

variable {α β γ : Type} {Related : α → β → Prop} {items : List α} {images : List β}

theorem exists_forall₂_of_forall_mem (known : ∀ item ∈ items, ∃ image, Related item image) :
    ∃ images, List.Forall₂ Related items images := by
  induction items with
  | nil => exact ⟨[], .nil⟩
  | cons item rest inductionHypothesis =>
      obtain ⟨image, related⟩ := known item List.mem_cons_self
      obtain ⟨images, others⟩ :=
        inductionHypothesis fun other later => known other (List.mem_cons_of_mem item later)
      exact ⟨image :: images, .cons related others⟩

theorem exists_forall₂ (total : ∀ item, ∃ image, Related item image) (items : List α) :
    ∃ images, List.Forall₂ Related items images :=
  exists_forall₂_of_forall_mem fun item _ => total item

/-- The image of one item can be chosen freely. -/
theorem exists_forall₂_mem
    (total : ∀ item, ∃ image, Related item image) {item : α} (member : item ∈ items) {image : β}
    (related : Related item image) :
    ∃ images, List.Forall₂ Related items images ∧ image ∈ images := by
  induction items with
  | nil => cases member
  | cons head tail inductionHypothesis =>
      rcases List.mem_cons.mp member with rfl | later
      · obtain ⟨images, others⟩ := exists_forall₂ total tail
        exact ⟨image :: images, .cons related others, List.mem_cons_self⟩
      · obtain ⟨first, firstRelated⟩ := total head
        obtain ⟨images, others, imageMember⟩ := inductionHypothesis later
        exact ⟨first :: images, .cons firstRelated others, List.mem_cons_of_mem first imageMember⟩

theorem exists_mem_of_forall₂
    (related : List.Forall₂ Related items images) {image : β} (member : image ∈ images) :
    ∃ item ∈ items, Related item image := by
  induction related with
  | nil => cases member
  | cons first others inductionHypothesis =>
      rcases List.mem_cons.mp member with rfl | later
      · exact ⟨_, List.mem_cons_self, first⟩
      · obtain ⟨item, itemMember, itemRelated⟩ := inductionHypothesis later
        exact ⟨item, List.mem_cons_of_mem _ itemMember, itemRelated⟩

theorem exists_mem_image
    (related : List.Forall₂ Related items images) {item : α} (member : item ∈ items) :
    ∃ image ∈ images, Related item image :=
  exists_mem_of_forall₂ related.flip member

theorem forall₂_map_of_forall
    {convert : α → γ} {Converted : γ → β → Prop}
    (each : ∀ item ∈ items, ∀ image, Related item image → Converted (convert item) image)
    (related : List.Forall₂ Related items images) :
    List.Forall₂ Converted (items.map convert) images := by
  have inside := (List.forall₂_and_left items images).mpr ⟨fun _ member => member, related⟩
  exact List.forall₂_map_left_iff.mpr
    (inside.imp fun item image both => each item both.1 image both.2)

end RandomCodes
