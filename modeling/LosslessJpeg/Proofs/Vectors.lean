import Mathlib.Order.Fin.Basic

set_option autoImplicit false

/-!
Entries of vectors, by an index that is in range.
-/

namespace LosslessJpeg

variable {α β : Type} {n : Nat}

@[simp]
theorem get_map (change : α → β) (vector : Vector α n) (index : Fin n) :
    (vector.map change).get index = change (vector.get index) :=
  Vector.getElem_map change index.isLt

@[simp]
theorem get_ofFn (content : Fin n → α) (index : Fin n) :
    (Vector.ofFn content).get index = content index :=
  Vector.getElem_ofFn index.isLt

@[simp]
theorem get_replicate (value : α) (index : Fin n) :
    (Vector.replicate n value).get index = value :=
  Vector.getElem_replicate index.isLt

theorem get_set (vector : Vector α n) (index other : Fin n) (value : α) :
    (vector.set index.val value).get other =
      if index = other then value else vector.get other := by
  have entry : (vector.set index.val value).get other =
      if index.val = other.val then value else vector.get other :=
    Vector.getElem_set index.isLt other.isLt
  simp only [← Fin.ext_iff] at entry
  exact entry

theorem get_foldl_set (content : Fin n → α) {entries : List (Fin n × α)}
    (belongs : ∀ entry ∈ entries, entry.2 = content entry.1) (start : Vector α n)
    (index : Fin n) :
    (entries.foldl (fun vector entry => vector.set entry.1.val entry.2 entry.1.isLt)
        start).get index =
      if index ∈ entries.map (·.1) then content index else start.get index := by
  induction entries generalizing start with
  | nil => rfl
  | cons first rest inductionHypothesis =>
      have later := inductionHypothesis
        (fun entry member => belongs entry (List.mem_cons_of_mem _ member))
        (start.set first.1.val first.2)
      rw [List.foldl_cons, later, List.map_cons, get_set]
      by_cases inRest : index ∈ rest.map (·.1)
      · rw [if_pos inRest, if_pos (List.mem_cons_of_mem _ inRest)]
      · rw [if_neg inRest]
        by_cases same : first.1 = index
        · rw [if_pos same, belongs first List.mem_cons_self, same, if_pos List.mem_cons_self]
        · rw [if_neg same, if_neg]
          rw [List.mem_cons, not_or]
          exact ⟨fun equal => same equal.symm, inRest⟩

theorem getElem?_join_val (slots : Vector (Option α) n) (index : Fin n) :
    slots[index.val]?.join = slots.get index := by
  rw [Vector.getElem?_eq_getElem index.isLt]
  rfl

theorem setIfInBounds_val (vector : Vector α n) (index : Fin n) (value : α) :
    vector.setIfInBounds index.val value = vector.set index.val value :=
  Vector.ext fun place inside => by
    rw [Vector.getElem_setIfInBounds, Vector.getElem_set]

theorem ext_get {first second : Vector α n}
    (same : ∀ index, first.get index = second.get index) : first = second :=
  Vector.ext fun index inside => same ⟨index, inside⟩

theorem set_get_self (vector : Vector α n) (index : Fin n) :
    vector.set index.val (vector.get index) index.isLt = vector := by
  apply ext_get
  intro other
  rw [get_set]
  split
  · rename_i same
    rw [same]
  · rfl

end LosslessJpeg
