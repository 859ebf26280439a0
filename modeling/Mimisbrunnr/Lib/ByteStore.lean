import Mathlib.Data.List.OfFn

/-!
# Byte-addressed storage

Storage as a function from addresses to bytes, with the write of a byte string
at an address and the read of a range. A range that a write covers reads back
what was written there, a range that it misses is unchanged.
-/

namespace Mimisbrunnr.Lib.ByteStore

set_option autoImplicit false

abbrev Bytes := Nat → UInt8

def overwrite (store : Bytes) (offset : Nat) (data : List UInt8) : Bytes := fun address =>
  if offset ≤ address then data.getD (address - offset) (store address) else store address

def read (store : Bytes) (offset length : Nat) : List UInt8 :=
  (List.range length).map fun index => store (offset + index)

def Apart (left leftLength right rightLength : Nat) : Prop :=
  left + leftLength ≤ right ∨ right + rightLength ≤ left

instance (left leftLength right rightLength : Nat) :
    Decidable (Apart left leftLength right rightLength) :=
  inferInstanceAs (Decidable (_ ∨ _))

@[simp] theorem length_read (store : Bytes) (offset length : Nat) :
    (read store offset length).length = length := by
  simp [read]

theorem get_read (store : Bytes) (offset length index : Nat) (inside : index < length) :
    (read store offset length)[index]? = some (store (offset + index)) := by
  simp [read, inside]

theorem read_eq_iff (store : Bytes) (offset : Nat) (data : List UInt8) :
    read store offset data.length = data ↔
      ∀ index, index < data.length → data[index]? = some (store (offset + index)) := by
  constructor
  · intro same index inside
    rw [← same]
    exact get_read store offset data.length index inside
  · intro all
    apply List.ext_getElem?
    intro index
    cases Nat.lt_or_ge index data.length with
    | inl inside => rw [get_read store offset data.length index inside, all index inside]
    | inr beyond => simp [beyond, read]

theorem overwrite_inside (store : Bytes) (offset index : Nat) (data : List UInt8)
    (inside : index < data.length) :
    data[index]? = some (overwrite store offset data (offset + index)) := by
  simp [overwrite, inside, List.getD]

theorem overwrite_outside (store : Bytes) (offset address : Nat) (data : List UInt8)
    (outside : address < offset ∨ offset + data.length ≤ address) :
    overwrite store offset data address = store address := by
  unfold overwrite
  split
  · next after =>
      have beyond : data.length ≤ address - offset := by omega
      simp [List.getD, beyond]
  · rfl

@[simp] theorem read_overwrite (store : Bytes) (offset : Nat) (data : List UInt8) :
    read (overwrite store offset data) offset data.length = data := by
  rw [read_eq_iff]
  intro index inside
  exact overwrite_inside store offset index data inside

theorem overwrite_take_same (store : Bytes) (offset count : Nat) (data : List UInt8)
    (here : read store offset data.length = data) :
    overwrite store offset (data.take count) = store := by
  funext address
  by_cases inside : offset ≤ address ∧ address < offset + (data.take count).length
  · obtain ⟨above, below⟩ := inside
    have index : address - offset < (data.take count).length := by omega
    have first : address - offset < count := by
      rw [List.length_take] at index
      omega
    have within : address - offset < data.length := by
      rw [List.length_take] at index
      omega
    have written := overwrite_inside store offset (address - offset) (data.take count) index
    have stored := (read_eq_iff store offset data).mp here (address - offset) within
    rw [List.getElem?_take, if_pos first, stored, Nat.add_sub_cancel' above] at written
    exact (Option.some.inj written).symm
  · exact overwrite_outside store offset address (data.take count) (by omega)

theorem read_overwrite_apart (store : Bytes) (offset : Nat) (data : List UInt8)
    (start length : Nat) (apart : Apart offset data.length start length) :
    read (overwrite store offset data) start length = read store start length := by
  apply List.map_congr_left
  intro index member
  have inside := List.mem_range.mp member
  apply overwrite_outside
  unfold Apart at apart
  omega

theorem read_add (store : Bytes) (offset first second : Nat) :
    read store offset (first + second) =
      read store offset first ++ read store (offset + first) second := by
  simp only [read, List.range_add, List.map_append, List.map_map]
  congr 1
  apply List.map_congr_left
  intro index _
  simp only [Function.comp_apply, Nat.add_assoc]

theorem read_part (store : Bytes) (offset length skip count : Nat) (fits : skip + count ≤ length) :
    read store (offset + skip) count = ((read store offset length).drop skip).take count := by
  have whole : length = skip + (count + (length - skip - count)) := by omega
  rw [whole, read_add, List.drop_left' (length_read store offset skip), read_add,
    List.take_left' (length_read _ _ _)]

/-- A range that begins inside a write and ends behind it. -/
theorem read_overwrite_across (store : Bytes) (offset : Nat) (data : List UInt8)
    (start length : Nat) (low : offset ≤ start) (inside : start ≤ offset + data.length)
    (high : offset + data.length ≤ start + length) :
    read (overwrite store offset data) start length =
      data.drop (start - offset) ++
        read store (offset + data.length) (start + length - (offset + data.length)) := by
  have split : length = (offset + data.length - start) +
      (start + length - (offset + data.length)) := by omega
  have middle : start + (offset + data.length - start) = offset + data.length := by omega
  have place : start = offset + (start - offset) := by omega
  have first : read (overwrite store offset data) start (offset + data.length - start) =
      data.drop (start - offset) := by
    rw [place, read_part _ offset data.length (start - offset) _ (by omega), read_overwrite,
      Nat.add_sub_cancel_left]
    apply List.take_of_length_le
    rw [List.length_drop]
    omega
  have second := read_overwrite_apart store offset data (offset + data.length)
    (start + length - (offset + data.length)) (.inl (Nat.le_refl _))
  conv_lhs => rw [split]
  rw [read_add, first, middle, second]

theorem read_congr (left right : Bytes) (offset length : Nat)
    (same : ∀ address, offset ≤ address → address < offset + length →
      left address = right address) :
    read left offset length = read right offset length := by
  apply List.map_congr_left
  intro index member
  have inside := List.mem_range.mp member
  exact same _ (by omega) (by omega)

end Mimisbrunnr.Lib.ByteStore
