import Mathlib.Data.List.Nodup
import Mathlib.Logic.Relation

/-! A mailbox that keeps its promises, over names and contents of any kind. It
takes a message under a new name, hands it over as it was posted and once, and
reports it once it was handed over, and once. What every such mailbox can say of
itself follows, and so it holds of all that refines one. -/
namespace Defragmenter.Mailbox

/-- What was posted, handed over and reported, last first. -/
structure Box (α β : Type) where
  posted : List (α × β) := []
  handed : List (α × β) := []
  told : List α := []

inductive Next {α β : Type} (box : Box α β) : Box α β → Prop where
  | post {a : α} {b : β} : (∀ c, (a, c) ∉ box.posted) → Next box { box with posted := (a, b) :: box.posted }
  | handOver {a : α} {b : β} : (a, b) ∈ box.posted → (∀ c, (a, c) ∉ box.handed) →
      Next box { box with handed := (a, b) :: box.handed }
  | tell {a : α} {b : β} : (a, b) ∈ box.handed → a ∉ box.told → Next box { box with told := a :: box.told }

variable {α β : Type} {box box' : Box α β} {a : α}

/-- Each name stands for one message, which is handed over as it was and before
it is reported, and neither happens twice. -/
structure Sound (box : Box α β) : Prop where
  named : (box.posted.map Prod.fst).Nodup
  genuine : box.handed ⊆ box.posted
  once : (box.handed.map Prod.fst).Nodup
  grounded : box.told ⊆ box.handed.map Prod.fst
  single : box.told.Nodup

theorem fst_not_mem {pairs : List (α × β)} : a ∉ pairs.map Prod.fst ↔ ∀ c, (a, c) ∉ pairs := by
  simp

theorem Sound.empty : Sound ({} : Box α β) where
  named := List.nodup_nil
  genuine := List.Subset.refl _
  once := List.nodup_nil
  grounded := List.Subset.refl _
  single := List.nodup_nil

theorem Sound.next (sound : Sound box) (step : Next box box') : Sound box' := by
  cases step with
  | post new =>
    refine { sound with named := ?_, genuine := ?_ }
    · exact List.nodup_cons.mpr ⟨fst_not_mem.mpr new, sound.named⟩
    · exact List.subset_cons_of_subset _ sound.genuine
  | handOver posted new =>
    refine { sound with genuine := ?_, once := ?_, grounded := ?_ }
    · exact List.cons_subset.mpr ⟨posted, sound.genuine⟩
    · exact List.nodup_cons.mpr ⟨fst_not_mem.mpr new, sound.once⟩
    · exact List.subset_cons_of_subset _ sound.grounded
  | tell handed new =>
    refine { sound with grounded := ?_, single := ?_ }
    · exact List.cons_subset.mpr ⟨List.mem_map_of_mem handed, sound.grounded⟩
    · exact List.nodup_cons.mpr ⟨new, sound.single⟩

theorem Sound.reached (reached : Relation.ReflTransGen Next {} box) : Sound box := by
  induction reached with
  | refl => exact .empty
  | tail _ step ih => exact ih.next step

end Defragmenter.Mailbox
