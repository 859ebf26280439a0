import Mathlib.Data.List.Induction
import Mathlib.Data.Nat.Bitwise
import Mathlib.Tactic.Ring

/-!
# Bit streams and varints

Numbers as strings of bits, most significant bit first, and strings of bits as
bytes, filled up with zero bits. A number of at most seven bits per byte is an
unsigned LEB128 varint: least significant group first, a set top bit on every
byte but the last.
-/

namespace Mimisbrunnr.Lib.BitStream

set_option autoImplicit false

def bitsOf (value : Nat) : Nat → List Bool
  | 0 => []
  | width + 1 => value.testBit width :: bitsOf value width

def ofBits (bits : List Bool) : Nat :=
  bits.foldl (fun number bit => 2 * number + bit.toNat) 0

@[simp] theorem length_bits_of (value width : Nat) : (bitsOf value width).length = width := by
  induction width with
  | zero => rfl
  | succ width ih => simp [bitsOf, ih]

theorem foldl_bits_of (value width : Nat) :
    ∀ start, (bitsOf value width).foldl (fun number bit => 2 * number + bit.toNat) start =
      start * 2 ^ width + value % 2 ^ width := by
  induction width with
  | zero =>
      intro start
      simp [bitsOf, Nat.mod_one]
  | succ width ih =>
      intro start
      have top : value % 2 ^ (width + 1) =
          2 ^ width * (value.testBit width).toNat + value % 2 ^ width := by
        rw [Nat.mod_pow_succ, Nat.toNat_testBit, Nat.add_comm]
      rw [bitsOf, List.foldl_cons, ih, top]
      ring

theorem of_bits_of (value width : Nat) : ofBits (bitsOf value width) = value % 2 ^ width := by
  rw [ofBits, foldl_bits_of, Nat.zero_mul, Nat.zero_add]

/-- A number of groups of eight bits, filled up with zeros. -/
def groups : Nat → List Bool → List UInt8
  | 0, _ => []
  | count + 1, bits =>
      UInt8.ofNat (ofBits ((bits ++ List.replicate 8 false).take 8)) :: groups count (bits.drop 8)

def toBytes (bits : List Bool) : List UInt8 := groups ((bits.length + 7) / 8) bits

def ofBytes (bytes : List UInt8) : List Bool :=
  bytes.flatMap fun byte => bitsOf byte.toNat 8

@[simp] theorem length_of_bytes (bytes : List UInt8) :
    (ofBytes bytes).length = 8 * bytes.length := by
  induction bytes with
  | nil => rfl
  | cons byte rest ih =>
      have step : ofBytes (byte :: rest) = bitsOf byte.toNat 8 ++ ofBytes rest := rfl
      rw [step, List.length_append, ih, length_bits_of, List.length_cons]
      omega

theorem bits_of_of_bits (bits : List Bool) : bitsOf (ofBits bits) bits.length = bits := by
  induction bits using List.reverseRecOn with
  | nil => rfl
  | append_singleton bits bit ih =>
      have value : ofBits (bits ++ [bit]) = 2 * ofBits bits + bit.toNat := by
        simp [ofBits]
      have shifted (width : Nat) :
          bitsOf (2 * ofBits bits + bit.toNat) (width + 1) = bitsOf (ofBits bits) width ++ [bit] := by
        induction width with
        | zero =>
            simp only [bitsOf, List.nil_append, List.cons.injEq, and_true]
            cases bit <;> simp [Nat.testBit_zero]
        | succ width step =>
            rw [bitsOf, step, bitsOf, List.cons_append]
            congr 1
            rw [Nat.testBit_succ]
            congr 1
            cases bit
            · simp
            · simp
              omega
      rw [value, List.length_append, List.length_singleton, shifted, ih]

theorem of_bits_lt (bits : List Bool) : ofBits bits < 2 ^ bits.length := by
  have fixed := of_bits_of (ofBits bits) bits.length
  rw [bits_of_of_bits] at fixed
  rw [fixed]
  exact Nat.mod_lt _ (Nat.two_pow_pos _)

@[simp] theorem length_groups (count : Nat) : ∀ bits, (groups count bits).length = count := by
  induction count with
  | zero =>
      intro bits
      rfl
  | succ count ih =>
      intro bits
      simp [groups, ih]

@[simp] theorem length_to_bytes (bits : List Bool) : (toBytes bits).length = (bits.length + 7) / 8 :=
  length_groups _ bits

theorem of_groups (count : Nat) :
    ∀ bits, bits.length ≤ 8 * count →
      ofBytes (groups count bits) = bits ++ List.replicate (8 * count - bits.length) false := by
  induction count with
  | zero =>
      intro bits short
      have none : bits = [] := List.eq_nil_of_length_eq_zero (by omega)
      subst none
      rfl
  | succ count ih =>
      intro bits enough
      have eight : ((bits ++ List.replicate 8 false).take 8).length = 8 := by
        simp only [List.length_take, List.length_append, List.length_replicate]
        omega
      have byte : bitsOf (UInt8.ofNat (ofBits ((bits ++ List.replicate 8 false).take 8))).toNat 8 =
          (bits ++ List.replicate 8 false).take 8 := by
        have small := of_bits_lt ((bits ++ List.replicate 8 false).take 8)
        have exactly := bits_of_of_bits ((bits ++ List.replicate 8 false).take 8)
        rw [eight] at small exactly
        rw [UInt8.toNat_ofNat', Nat.mod_eq_of_lt small, exactly]
      have step : ofBytes (groups (count + 1) bits) =
          bitsOf (UInt8.ofNat (ofBits ((bits ++ List.replicate 8 false).take 8))).toNat 8 ++
            ofBytes (groups count (bits.drop 8)) := rfl
      rw [step, byte, ih _ (by rw [List.length_drop]; omega), List.length_drop]
      cases Nat.lt_or_ge bits.length 8 with
      | inl short =>
          rw [List.drop_of_length_le (Nat.le_of_lt short), List.take_append,
            List.take_of_length_le (Nat.le_of_lt short), List.take_replicate, List.nil_append,
            List.append_assoc, List.replicate_append_replicate]
          congr 2
          omega
      | inr long =>
          rw [List.take_append_of_le_length long, ← List.append_assoc, List.take_append_drop]
          congr 2
          omega

theorem of_to_bytes (bits : List Bool) :
    ofBytes (toBytes bits) =
      bits ++ List.replicate (8 * ((bits.length + 7) / 8) - bits.length) false :=
  of_groups _ bits (by omega)

theorem of_bits_part (before bits after : List Bool) :
    ofBits (((ofBytes (toBytes (before ++ bits ++ after))).drop before.length).take bits.length) =
      ofBits bits := by
  rw [of_to_bytes, List.append_assoc, List.append_assoc, List.drop_left, List.take_left]

theorem of_bits_cons (bit : Bool) (bits : List Bool) :
    ofBits (bit :: bits) = bit.toNat * 2 ^ bits.length + ofBits bits := by
  have folded (start : Nat) :
      bits.foldl (fun number bit => 2 * number + bit.toNat) start =
        start * 2 ^ bits.length + ofBits bits := by
    have bound := foldl_bits_of (ofBits bits) bits.length start
    rwa [bits_of_of_bits, Nat.mod_eq_of_lt (of_bits_lt bits)] at bound
  rw [ofBits, List.foldl_cons, folded, Nat.mul_zero, Nat.zero_add]

theorem drop_bits_of (value width : Nat) :
    ∀ position, position < width → (bitsOf value width).drop position =
      value.testBit (width - 1 - position) :: (bitsOf value width).drop (position + 1) := by
  induction width with
  | zero =>
      intro position inside
      exact absurd inside (Nat.not_lt_zero _)
  | succ width ih =>
      intro position inside
      cases position with
      | zero => rfl
      | succ position =>
          have place : width + 1 - 1 - (position + 1) = width - 1 - position := by omega
          rw [bitsOf, List.drop_succ_cons, List.drop_succ_cons, place]
          exact ih position (by omega)

theorem drop_of_bytes (bytes : List UInt8) :
    ∀ (position : Nat) (byte : UInt8), bytes[position / 8]? = some byte →
      (ofBytes bytes).drop position =
        byte.toNat.testBit (7 - position % 8) :: (ofBytes bytes).drop (position + 1) := by
  induction bytes with
  | nil =>
      intro position byte found
      rw [List.getElem?_nil] at found
      cases found
  | cons first rest ih =>
      intro position byte found
      have step : ofBytes (first :: rest) = bitsOf first.toNat 8 ++ ofBytes rest := rfl
      have eight : (bitsOf first.toNat 8).length = 8 := length_bits_of first.toNat 8
      cases Nat.lt_or_ge position 8 with
      | inl here =>
          have place : position / 8 = 0 := by omega
          have same : position % 8 = position := by omega
          rw [place, List.getElem?_cons_zero] at found
          cases found
          rw [step, List.drop_append_of_le_length (by omega),
            List.drop_append_of_le_length (by omega), drop_bits_of _ _ position here, same,
            List.cons_append]
      | inr later =>
          have next : position / 8 = (position - 8) / 8 + 1 := by omega
          have bit : (position - 8) % 8 = position % 8 := by omega
          have following : position - 8 + 1 = position + 1 - 8 := by omega
          rw [next, List.getElem?_cons_succ] at found
          have earlier := ih (position - 8) byte found
          rw [bit, following] at earlier
          have gone (index : Nat) (far : 8 ≤ index) : (bitsOf first.toNat 8).drop index = [] :=
            List.drop_of_length_le (Nat.le_trans (Nat.le_of_eq eight) far)
          rw [step, List.drop_append, List.drop_append, eight, gone position later,
            gone (position + 1) (by omega), List.nil_append, List.nil_append, earlier]

def varint (value : Nat) : List UInt8 :=
  if value < 128 then [UInt8.ofNat value]
  else UInt8.ofNat (value % 128 + 128) :: varint (value / 128)
termination_by value
decreasing_by omega

inductive VarintError where
  | truncated
  | tooWide
deriving DecidableEq, Repr

/-- The number of at most 64 bits at the start of the bytes, and the bytes behind it. -/
def readVarint (shift : Nat) : List UInt8 → Except VarintError (Nat × List UInt8)
  | [] => .error .truncated
  | byte :: rest =>
      if 64 ≤ shift ∨ (shift = 63 ∧ 1 < byte.toNat % 128) then .error .tooWide
      else if byte.toNat < 128 then .ok (byte.toNat * 2 ^ shift, rest)
      else (readVarint (shift + 7) rest).map fun found =>
        (byte.toNat % 128 * 2 ^ shift + found.1, found.2)

theorem read_varint (rest : List UInt8) (value : Nat) :
    ∀ shift, value * 2 ^ shift < 2 ^ 64 → shift < 64 →
      readVarint shift (varint value ++ rest) = .ok (value * 2 ^ shift, rest) := by
  fun_induction varint value with
  | case1 value small =>
      intro shift fits narrow
      have byte : (UInt8.ofNat value).toNat = value := by
        rw [UInt8.toNat_ofNat']
        exact Nat.mod_eq_of_lt (by omega)
      have guard : ¬ (64 ≤ shift ∨ (shift = 63 ∧ 1 < value % 128)) := by
        rintro (wide | ⟨last, wide⟩)
        · omega
        · subst last
          have big : 2 * 2 ^ 63 ≤ value * 2 ^ 63 := Nat.mul_le_mul_right _ (by omega)
          omega
      simp only [List.cons_append, List.nil_append, readVarint, byte]
      rw [if_neg guard, if_pos small]
  | case2 value large ih =>
      intro shift fits narrow
      have byte : (UInt8.ofNat (value % 128 + 128)).toNat = value % 128 + 128 := by
        rw [UInt8.toNat_ofNat']
        exact Nat.mod_eq_of_lt (by omega)
      have spread : 2 ^ (shift + 7) = 128 * 2 ^ shift := by
        rw [Nat.pow_add]
        omega
      have least : 128 * 2 ^ shift ≤ value * 2 ^ shift := Nat.mul_le_mul_right _ (by omega)
      have below : shift + 7 < 64 := by
        rw [← spread] at least
        exact (Nat.pow_lt_pow_iff_right (by omega)).mp (Nat.lt_of_le_of_lt least fits)
      have parts : value / 128 * 2 ^ (shift + 7) + value % 128 * 2 ^ shift = value * 2 ^ shift := by
        have division := Nat.div_add_mod value 128
        calc value / 128 * 2 ^ (shift + 7) + value % 128 * 2 ^ shift
            = (128 * (value / 128) + value % 128) * 2 ^ shift := by rw [spread]; ring
          _ = value * 2 ^ shift := by rw [division]
      have guard : ¬ (64 ≤ shift ∨ (shift = 63 ∧ 1 < (value % 128 + 128) % 128)) := by omega
      have more : ¬ value % 128 + 128 < 128 := by omega
      have group : (value % 128 + 128) % 128 = value % 128 := by omega
      rw [List.cons_append, readVarint, byte, if_neg guard, if_neg more,
        ih (shift + 7) (by omega) below, Except.map, group, Nat.add_comm, parts]

theorem read_varint_small (bytes : List UInt8) :
    ∀ shift, shift % 7 = 0 → ∀ found, readVarint shift bytes = .ok found →
      found.1 + 2 ^ shift ≤ 2 ^ 64 ∧ found.2 <:+ bytes := by
  induction bytes with
  | nil =>
      intro shift _ found read
      cases read
  | cons byte rest ih =>
      intro shift sevenfold found read
      unfold readVarint at read
      split at read
      · cases read
      next guard =>
      have spread : 2 ^ (shift + 7) = 128 * 2 ^ shift := by
        rw [Nat.pow_add]
        omega
      have group : byte.toNat % 128 * 2 ^ shift + 2 ^ shift ≤ 128 * 2 ^ shift := by
        rw [← Nat.succ_mul]
        exact Nat.mul_le_mul_right _ (Nat.mod_lt _ (by omega))
      split at read
      · next last =>
          cases read
          dsimp only
          rw [Nat.mod_eq_of_lt last] at group guard
          refine ⟨?_, List.suffix_cons byte rest⟩
          by_cases top : shift = 63
          · subst top
            have digit : byte.toNat * 2 ^ 63 ≤ 1 * 2 ^ 63 := Nat.mul_le_mul_right _ (by omega)
            exact Nat.le_trans (Nat.add_le_add_right digit _) (by decide)
          · have power : 2 ^ (shift + 7) ≤ 2 ^ 64 := Nat.pow_le_pow_right (by omega) (by omega)
            omega
      · cases later : readVarint (shift + 7) rest with
        | error err =>
            rw [later] at read
            cases read
        | ok more =>
            rw [later] at read
            cases read
            obtain ⟨small, behind⟩ := ih (shift + 7) (by omega) more later
            dsimp only
            exact ⟨by omega, behind.trans (List.suffix_cons byte rest)⟩

end Mimisbrunnr.Lib.BitStream
