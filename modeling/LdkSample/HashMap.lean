import Mathlib.Data.Finmap

/-!
# Hash maps

A hash map is an association list without duplicate keys, in its iteration order.
`iterMut` is the loop over mutable entries, `modify` the write through one mutable
entry (the occupied case of the entry interface): both leave the keys and their
order alone. `insert` is Mathlib's. Two maps are equal as maps when their `toFinmap`
agree, which is when every key looks up the same (`toFinmap_ext`).
-/

namespace LdkSample

abbrev HashMap (K V : Type) := AList fun _ : K => V

namespace HashMap

variable {K V : Type}

/-- Replace every value by `f` of its key and itself. -/
def iterMut (m : HashMap K V) (f : K → V → V) : HashMap K V where
  entries := m.entries.map fun e => ⟨e.1, f e.1 e.2⟩
  nodupKeys := by
    have h : (m.entries.map fun e => (⟨e.1, f e.1 e.2⟩ : Sigma fun _ : K => V)).keys =
        m.entries.keys := by simp [List.keys, List.map_map, Function.comp_def]
    unfold List.NodupKeys
    rw [h]
    exact m.nodupKeys

theorem keys_iterMut (m : HashMap K V) (f : K → V → V) : (m.iterMut f).keys = m.keys := by
  simp [iterMut, AList.keys, List.keys, List.map_map, Function.comp_def]

variable [DecidableEq K]

/-- Apply `f` to the value at `k`, if there is one. -/
def modify (m : HashMap K V) (k : K) (f : V → V) : HashMap K V :=
  m.iterMut fun k' v => if k' = k then f v else v

theorem lookup_iterMut (m : HashMap K V) (f : K → V → V) (k : K) :
    (m.iterMut f).lookup k = (m.lookup k).map (f k) :=
  List.dlookup_map₂ (f := f) k

theorem lookup_modify_self (m : HashMap K V) (k : K) (f : V → V) :
    (m.modify k f).lookup k = (m.lookup k).map f := by
  rw [modify, lookup_iterMut]
  cases m.lookup k <;> simp

theorem lookup_modify_ne (m : HashMap K V) {k k' : K} (f : V → V) (h : k' ≠ k) :
    (m.modify k f).lookup k' = m.lookup k' := by
  rw [modify, lookup_iterMut]
  cases m.lookup k' <;> simp [h]

theorem lookup_modify (m : HashMap K V) (k k' : K) (f : V → V) :
    (m.modify k f).lookup k' = if k' = k then (m.lookup k').map f else m.lookup k' := by
  split
  · next h => rw [h, lookup_modify_self]
  · next h => rw [lookup_modify_ne m f h]

theorem lookup_insert (m : HashMap K V) (k k' : K) (v : V) :
    AList.lookup k' (AList.insert k v m) = if k' = k then some v else m.lookup k' := by
  split
  · next h => rw [h, AList.lookup_insert]
  · next h => rw [AList.lookup_insert_ne h]

theorem mem_of_lookup {m : HashMap K V} {k : K} {v : V} (h : m.lookup k = some v) : k ∈ m :=
  AList.lookup_isSome.mp (by rw [h]; rfl)

theorem lookup_of_mem {m : HashMap K V} {k : K} (h : k ∈ m) : ∃ v, m.lookup k = some v :=
  Option.isSome_iff_exists.mp (AList.lookup_isSome.mpr h)

theorem toFinmap_ext {m m' : HashMap K V} (h : ∀ k, m.lookup k = m'.lookup k) :
    m.toFinmap = m'.toFinmap :=
  Finmap.ext_lookup fun k => by rw [Finmap.lookup_toFinmap, Finmap.lookup_toFinmap, h k]

end HashMap

end LdkSample
