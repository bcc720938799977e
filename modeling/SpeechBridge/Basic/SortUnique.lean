import Mathlib.Data.Finset.Sort
import Mathlib.Data.List.Destutter

set_option autoImplicit false

/-! # Sort, unique, erase: the canonical form of a list

The idiom `sort`, `unique`, `erase` turns a list into the strictly ascending list of its
elements. The two library algorithms are given by their contracts (`SortFn`, `UniqueFn`):
`sort` may produce any ascending rearrangement of the range, and `unique` says nothing about
the cells behind the new end. The canonical form (`canonical`) is the ascending enumeration
of the finite set of elements, and `eraseRange_unique_sort` says that the idiom computes it
whatever implementations meet the contracts.
-/

namespace SortUnique

variable {α β : Type*} [LinearOrder α]

/-! ## The contracts -/

/-- The contract of `std::sort`: some ascending rearrangement of the range. -/
structure SortFn (α : Type*) [LinearOrder α] where
  run : List α → List α
  perm : ∀ l, (run l).Perm l
  ascending : ∀ l, (run l).Pairwise (· ≤ ·)

/-- What a call of `std::unique` leaves: the range, and the position returned as its new
end. -/
structure UniqueResult (α : Type*) where
  range : List α
  newEnd : Nat

/-- The contract of `std::unique`: the range keeps its length, and its cells before the new
end are the first elements of the runs of equal elements. The cells from the new end on are
unspecified. -/
structure UniqueFn (α : Type*) [LinearOrder α] where
  run : List α → UniqueResult α
  length_range : ∀ l, (run l).range.length = l.length
  newEnd_eq : ∀ l, (run l).newEnd = (l.destutter (· ≠ ·)).length
  kept : ∀ l, (run l).range.take (run l).newEnd = l.destutter (· ≠ ·)

/-- Insertion sort meets the contract. -/
instance : Inhabited (SortFn α) :=
  ⟨⟨List.insertionSort (· ≤ ·), List.perm_insertionSort (· ≤ ·),
    List.pairwise_insertionSort (· ≤ ·)⟩⟩

/-- Moving the kept elements to the front and leaving the old cells behind them meets the
contract. -/
instance : Inhabited (UniqueFn α) :=
  ⟨{ run := fun l =>
      { range := l.destutter (· ≠ ·) ++ l.drop (l.destutter (· ≠ ·)).length
        newEnd := (l.destutter (· ≠ ·)).length }
     length_range := by
      intro l
      have hle : (l.destutter (· ≠ ·)).length ≤ l.length :=
        (l.destutter_sublist (· ≠ ·)).length_le
      simp only [List.length_append, List.length_drop]
      omega
     newEnd_eq := fun _ => rfl
     kept := fun _ => List.take_left }⟩

/-- `vector::erase` of the cells from position `first` up to position `last`. -/
def eraseRange (l : List β) (first last : Nat) : List β := l.take first ++ l.drop last

theorem eraseRange_length (l : List β) (first : Nat) :
    eraseRange l first l.length = l.take first := by
  rw [eraseRange, List.drop_length, List.append_nil]

/-! ## Ascending enumerations -/

/-- `l` is the strictly ascending list of exactly the elements with the property `p`. -/
structure Enumerates (l : List α) (p : α → Prop) : Prop where
  ascending : l.Pairwise (· < ·)
  mem_iff : ∀ x, x ∈ l ↔ p x

theorem Enumerates.nodup {l : List α} {p : α → Prop} (h : Enumerates l p) : l.Nodup :=
  h.ascending.imp ne_of_lt

theorem Enumerates.congr {l : List α} {p q : α → Prop} (h : Enumerates l p)
    (hpq : ∀ x, p x ↔ q x) : Enumerates l q :=
  ⟨h.ascending, fun x => (h.mem_iff x).trans (hpq x)⟩

/-- **There is only one ascending enumeration.** Two of them have the same elements, each
once, so they are rearrangements of each other, and both are sorted. -/
theorem Enumerates.unique {l m : List α} {p : α → Prop} (hl : Enumerates l p)
    (hm : Enumerates m p) : l = m := by
  have hmem : ∀ x, x ∈ l ↔ x ∈ m := fun x => (hl.mem_iff x).trans (hm.mem_iff x).symm
  have hperm : l.Perm m := (List.perm_ext_iff_of_nodup hl.nodup hm.nodup).mpr hmem
  refine List.Perm.eq_of_pairwise ?_ hl.ascending hm.ascending hperm
  intro a b _ _ hab hba
  exact absurd hba (lt_asymm hab)

/-! ## The canonical form -/

/-- The ascending enumeration of the elements of a list. -/
def canonical (l : List α) : List α := l.toFinset.sort (· ≤ ·)

theorem canonical_enumerates (l : List α) : Enumerates (canonical l) (· ∈ l) where
  ascending := l.toFinset.sortedLT_sort.pairwise
  mem_iff := by
    intro x
    rw [canonical, Finset.mem_sort, List.mem_toFinset]

@[simp] theorem mem_canonical {l : List α} {x : α} : x ∈ canonical l ↔ x ∈ l :=
  (canonical_enumerates l).mem_iff x

theorem canonical_nodup (l : List α) : (canonical l).Nodup := (canonical_enumerates l).nodup

/-- The canonical form is determined by the set of elements, and determines it. -/
theorem canonical_eq_iff {l m : List α} : canonical l = canonical m ↔ ∀ x, x ∈ l ↔ x ∈ m := by
  constructor
  · intro h x
    rw [← mem_canonical (l := l), h, mem_canonical]
  · intro h
    exact (canonical_enumerates l).unique ((canonical_enumerates m).congr fun x => (h x).symm)

theorem canonical_perm {l m : List α} (h : l.Perm m) : canonical l = canonical m :=
  canonical_eq_iff.mpr fun _ => h.mem_iff

/-- The canonical form of a field of some records does not see their order. -/
theorem canonical_map_perm {ρ : Type*} (f : ρ → α) {l m : List ρ} (h : l.Perm m) :
    canonical (l.map f) = canonical (m.map f) := canonical_perm (h.map f)

@[simp] theorem canonical_nil : canonical ([] : List α) = [] := by
  simp [canonical]

/-- Removing duplicates early is harmless: what is appended later meets the same set. -/
theorem canonical_canonical_append (l m : List α) :
    canonical (canonical l ++ m) = canonical (l ++ m) :=
  canonical_eq_iff.mpr fun x => by simp

/-! ## The idiom computes the canonical form -/

/-- On an ascending range the kept elements are those of the range, strictly ascending:
equal elements are adjacent there, so a run of equal elements is all of them. -/
theorem destutter_eq_canonical {l : List α} (hl : l.Pairwise (· ≤ ·)) :
    l.destutter (· ≠ ·) = canonical l := by
  rw [hl.destutter_eq_dedup]
  have hsub : l.dedup.Pairwise (· ≤ ·) := hl.sublist l.dedup_sublist
  have hlt : l.dedup.Pairwise (· < ·) :=
    hsub.imp₂ (fun _ _ hle hne => lt_of_le_of_ne hle hne) l.nodup_dedup
  have hdedup : Enumerates l.dedup (· ∈ l) := ⟨hlt, fun _ => List.mem_dedup⟩
  exact hdedup.unique (canonical_enumerates l)

theorem eraseRange_unique_sort (sort : SortFn α) (unique : UniqueFn α) (l : List α) :
    eraseRange (unique.run (sort.run l)).range (unique.run (sort.run l)).newEnd
        (unique.run (sort.run l)).range.length
      = canonical l := by
  rw [eraseRange_length, unique.kept, destutter_eq_canonical (sort.ascending l)]
  exact canonical_perm (sort.perm l)

end SortUnique
