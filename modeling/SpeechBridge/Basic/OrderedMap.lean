import Mathlib
import SpeechBridge.Basic.SortUnique

set_option autoImplicit false

/-! # Ordered maps with a creating subscript

`std::map` as `Std.ExtTreeMap` over a linear order: a finite map whose keys are enumerated in
ascending order. The one operation with a behaviour of its own is `operator[]`, which creates
a missing key with a default value before it returns a reference. `subscript m k f` is the
map after the statement that applies `f` to `m[k]`; `value m k` is what the expression `m[k]`
evaluates to.
-/

/-- `std::map<K, V>`. -/
abbrev OrderedMap (K V : Type*) [LinearOrder K] := Std.ExtTreeMap K V compare

namespace OrderedMap

open SortUnique

variable {K V W : Type*} [LinearOrder K]

/-! ## Keys and entries -/

/-- The key sequence is the ascending enumeration of the keys. -/
theorem keys_enumerates (m : OrderedMap K V) : Enumerates m.keys (· ∈ m) where
  ascending := m.ordered_keys.imp fun h => compare_lt_iff_lt.mp h
  mem_iff := fun _ => Std.ExtTreeMap.mem_keys

theorem mem_iff_exists (m : OrderedMap K V) (k : K) : k ∈ m ↔ ∃ v, m[k]? = some v := by
  rw [Std.ExtTreeMap.mem_iff_isSome_getElem?, Option.isSome_iff_exists]

/-- The entries of a map are its keys, in order, each with its value. -/
theorem toList_eq_map_keys {m : OrderedMap K V} {f : K → V}
    (h : ∀ k v, m[k]? = some v → v = f k) : m.toList = m.keys.map fun k => (k, f k) := by
  have hentry : ∀ p ∈ m.toList, p = (p.1, f p.1) := by
    rintro ⟨k, v⟩ hp
    rw [← h k v (Std.ExtTreeMap.mem_toList_iff_getElem?_eq_some.mp hp)]
  calc m.toList = m.toList.map id := (List.map_id _).symm
    _ = m.toList.map fun p => (p.1, f p.1) := List.map_congr_left hentry
    _ = m.keys.map fun k => (k, f k) := by
        rw [← Std.ExtTreeMap.map_fst_toList_eq_keys, List.map_map]
        rfl

theorem map_default {φ : V → W} :
    Std.ExtTreeMap.map (fun _ v => φ v) (default : OrderedMap K V) = default := by
  apply Std.ExtTreeMap.ext_getElem?
  intro k
  rw [Std.ExtTreeMap.getElem?_map]
  rfl

/-! ## Look-ups -/

/-- A look-up that succeeds on an existing key only. -/
def lookup (m : OrderedMap K V) (k : K) : Option V := m[k]?

/-- A look-up that succeeds on an existing key with a non-empty list only. -/
def lookupNonempty (m : OrderedMap K (List V)) (k : K) : Option (List V) :=
  (m.lookup k).filter fun l => !l.isEmpty

theorem lookupNonempty_of_not_mem {m : OrderedMap K (List V)} {k : K} (hk : k ∉ m) :
    m.lookupNonempty k = none := by
  rw [lookupNonempty, lookup, Std.ExtTreeMap.getElem?_eq_none hk]
  rfl

/-! ## The creating subscript -/

section Subscript

variable [Inhabited V]

/-- What the expression `m[k]` evaluates to: the value under `k`, or the default value. -/
def value (m : OrderedMap K V) (k : K) : V := m[k]?.getD default

/-- The map after `f` was applied to `m[k]`: `operator[]` creates a missing key with the
default value first. -/
def subscript (m : OrderedMap K V) (k : K) (f : V → V) : OrderedMap K V :=
  m.alter k fun v => some (f (v.getD default))

theorem getElem?_subscript (m : OrderedMap K V) (k k' : K) (f : V → V) :
    (m.subscript k f)[k']? = if k = k' then some (f (m.value k)) else m[k']? := by
  rw [subscript, Std.ExtTreeMap.getElem?_alter]
  simp only [compare_eq_iff_eq, value]

theorem value_of_getElem? {m : OrderedMap K V} {k : K} {v : V} (h : m[k]? = some v) :
    m.value k = v := by
  rw [value, h, Option.getD_some]

theorem getElem?_of_mem {m : OrderedMap K V} {k : K} (h : k ∈ m) : m[k]? = some (m.value k) := by
  obtain ⟨v, hv⟩ := (mem_iff_exists m k).mp h
  rw [hv, value_of_getElem? hv]

theorem lookup_of_mem {m : OrderedMap K V} {k : K} (h : k ∈ m) :
    m.lookup k = some (m.value k) := getElem?_of_mem h

theorem lookupNonempty_of_mem {m : OrderedMap K (List W)} {k : K} (hk : k ∈ m)
    (hne : m.value k ≠ []) : m.lookupNonempty k = some (m.value k) := by
  rw [lookupNonempty, lookup_of_mem hk]
  simp [hne]

theorem value_subscript_self (m : OrderedMap K V) (k : K) (f : V → V) :
    (m.subscript k f).value k = f (m.value k) :=
  value_of_getElem? (by rw [getElem?_subscript, if_pos rfl])

/-- Two statements on the same reference are one statement. -/
theorem subscript_subscript (m : OrderedMap K V) (k : K) (f g : V → V) :
    (m.subscript k f).subscript k g = m.subscript k fun v => g (f v) := by
  apply Std.ExtTreeMap.ext_getElem?
  intro k'
  simp only [getElem?_subscript, value_subscript_self]
  by_cases h : k = k'
  · simp only [if_pos h]
  · simp only [if_neg h]

/-- Mapping the values commutes with a subscript when it commutes with the statement, from
the default value on. -/
theorem map_subscript [Inhabited W] (m : OrderedMap K V) (k : K) {φ : V → W} {f : V → V}
    {g : W → W} (hd : φ default = default) (hf : ∀ v, φ (f v) = g (φ v)) :
    Std.ExtTreeMap.map (fun _ v => φ v) (m.subscript k f)
      = subscript (Std.ExtTreeMap.map (fun _ v => φ v) m) k g := by
  apply Std.ExtTreeMap.ext_getElem?
  intro k'
  -- a missing key reads as the default value on both sides
  have hval : value (Std.ExtTreeMap.map (fun _ v => φ v) m) k = φ (m.value k) := by
    rw [value, Std.ExtTreeMap.getElem?_map, value]
    cases m[k]? with
    | none => exact hd.symm
    | some v => rfl
  rw [Std.ExtTreeMap.getElem?_map, getElem?_subscript, getElem?_subscript, hval]
  by_cases h : k = k'
  · rw [if_pos h, if_pos h, Option.map_some, hf]
  · rw [if_neg h, if_neg h, Std.ExtTreeMap.getElem?_map]

end Subscript

end OrderedMap
