import LeakTrace.Proofs.Catalog.Validity
import Mathlib.Data.List.Flatten

namespace LeakTrace

namespace Classifier

variable {shapes : ShapeStore} {epoch depth more : Nat} {name : String} {shape : ShapeId}
  {subject : Subject} {holder : Option String}

/-- With more levels an object tells of at least as much. How many levels the classifier states is not
looked at inside the object. -/
theorem sublist_ofObject (catalog : Catalog) (first second : Nat) (le : depth ≤ more) :
    (((mk catalog first).ofObject shapes epoch depth name shape subject).exposed holder).Sublist
      (((mk catalog second).ofObject shapes epoch more name shape subject).exposed holder) := by
  induction depth using Nat.strongRecOn generalizing more name shape subject holder with | ind depth ih
  rw [exposed_ofObject_eq, exposed_ofObject_eq, ofObject_eq, ofObject_eq]
  have gates : (mk catalog second).objectGate? name subject =
      (mk catalog first).objectGate? name subject := rfl
  rw [gates]
  cases (mk catalog first).objectGate? name subject with
  | some reason => exact .refl _
  | none =>
    simp only [assembled, ClassifiedNode.properties, ClassifiedNode.exposedIn_eq, List.flatMap_map]
    refine List.Sublist.flatMap_right _ fun entry _ => ?_
    rw [exposed_property_eq, exposed_property_eq]
    refine (List.Sublist.refl _).append ?_
    rw [nested?, nested?]
    by_cases levels : 1 < depth ∧ shapes.isObject entry.2 = true
    · rw [if_pos levels, if_pos ⟨by omega, levels.2⟩, Option.toList_some, Option.toList_some,
        List.flatMap_singleton, List.flatMap_singleton, ← exposed_ofObject_eq _ _ _ _ _ _ _ holder,
        ← exposed_ofObject_eq _ _ _ _ _ _ _ holder]
      exact ih (depth - 1) (by omega) (by omega)
    · rw [if_neg levels]
      exact List.nil_sublist _

/-- Looking at more levels of properties only adds to what a value tells of. All that is found with fewer
levels is found again, in the same order, with the same holders and the same judgements. -/
theorem levels_only_add (catalog : Catalog) (le : depth ≤ more) (shapes : ShapeStore) (epoch : Nat)
    (name : String) (shape : ShapeId) (subject : Subject) :
    (((ofCatalog catalog depth).ofShape shapes epoch name shape subject).exposed none).Sublist
      (((ofCatalog catalog more).ofShape shapes epoch name shape subject).exposed none) := by
  unfold ofShape
  split
  · exact sublist_ofObject catalog _ _ (by simp only [ofCatalog]; omega)
  · exact .refl _
  · exact .refl _

/-- The object `user` tells of its own address, and with a second level of the one in it as well. -/
theorem levels_only_add_nested :
    let catalog := Catalog.anyName []
    let shapes : ShapeStore := ⟨#[.object none [⟨.name "work", 2, 1, 0⟩, ⟨.name "email", 1, 1, 0⟩],
      .leaf (.string "x"), .object none [⟨.name "email", 1, 1, 0⟩]]⟩
    let told (depth : Nat) := ((ofCatalog catalog depth).ofShape shapes 1 "user" 0 {}).exposed none
    told 1 ≠ [] ∧ (told 1).Sublist (told 2) := by
  intro catalog shapes told
  have exposes : told 1 ≠ [] :=
    (exposed_ofObject_iff rfl).2
      (.field (by decide +kernel) List.mem_cons_self rfl (Catalog.telling_email _))
  exact ⟨exposes, levels_only_add catalog (by decide) shapes 1 "user" 0 {}⟩

end Classifier

end LeakTrace
