import Mimisbrunnr.Lib.MachineOrder
import Mimisbrunnr.Storage.AtomicCommit

/-!
# The root of an opened superblock

A superblock in memory is a block with its checksum. Opening takes the newest of
the copies that can be used; a copy whose active root is broken is used with its
other root, under a new checksum. The other root is reached by flipping the
lowest bit of the byte that names the active one, and every byte but zero names
the second root.
-/

namespace Mimisbrunnr.Storage.Superblock

set_option autoImplicit false

open Mimisbrunnr.Lib.ByteStore
open Mimisbrunnr.Lib.Layout
open Mimisbrunnr.Lib.MachineOrder

def flipped (sb : Superblock) : Superblock := { sb with activeRoot := sb.activeRoot ^^^ 1 }

private theorem active_flipped (sb : Superblock) (named : sb.activeRoot = 0 ∨ sb.activeRoot = 1) :
    sb.flipped.activeRootPointer = sb.inactiveRootPointer := by
  unfold activeRootPointer inactiveRootPointer flipped
  cases named with
  | inl zero => simp [zero]
  | inr one => simp [one]

theorem active_not_flipped (sb : Superblock) (not_zero : sb.activeRoot ≠ 0)
    (not_one : sb.activeRoot ≠ 1) : sb.flipped.activeRootPointer = sb.activeRootPointer := by
  have still : sb.activeRoot ^^^ 1 ≠ 0 := by
    intro zero
    exact not_one (UInt8.xor_eq_zero_iff.mp zero)
  unfold activeRootPointer flipped
  rw [if_neg still, if_neg not_zero]

/-- As `candidate`, with the block of the superblock to use. -/
def candidateBlock (crc : Crc) (bytes : List UInt8) : Option (UInt64 × UInt64 × List UInt8) :=
  let sb := bodyOf body bytes
  if sb.magicFull ≠ superblockMagicFull then none
  else if (brokenSeal crc body bytes).isSome then none
  else if sb.activeRootPointer.verifyCrc crc then
    some (sb.activeRootPointer.seq, sb.activeRootPointer.lsn, bytes)
  else if sb.inactiveRootPointer.verifyCrc crc then
    some (sb.inactiveRootPointer.seq, sb.inactiveRootPointer.lsn, sealed crc body sb.flipped)
  else none

def newerBlock (best next : Option (UInt64 × UInt64 × List UInt8)) :
    Option (UInt64 × UInt64 × List UInt8) :=
  match best, next with
  | best, none => best
  | none, next => next
  | some best, some next =>
      if best.1 < next.1 ∨ best.1 = next.1 ∧ best.2.1 < next.2.1 then some next else some best

def blockAt (crc : Crc) (d : Device) (offset : Nat) : Option (UInt64 × UInt64 × List UInt8) :=
  match d.readAt offset blockSize with
  | .error _ => none
  | .ok bytes => candidateBlock crc bytes

def newestBlock (crc : Crc) (d : Device) (offsets : List Nat)
    (best : Option (UInt64 × UInt64 × List UInt8)) : Option (UInt64 × UInt64 × List UInt8) :=
  offsets.foldl (fun best offset => newerBlock best (blockAt crc d offset)) best

/-- As `open`, with the block of the superblock. -/
def openBlock (crc : Crc) (d : Device) : Except StorageError (List UInt8) :=
  if d.capacity < blockSize * 3 then .error (.deviceTooSmall (blockSize * 3) d.capacity)
  else
    match newestBlock crc d (copyOffsets d.capacity) none with
    | some found => .ok found.2.2
    | none => .error .noValidSuperblock

def fieldsOf (found : UInt64 × UInt64 × List UInt8) : UInt64 × UInt64 × Superblock :=
  (found.1, found.2.1, bodyOf body found.2.2)

private theorem candidate_fields (crc : Crc) (bytes : List UInt8) :
    candidate crc bytes = (candidateBlock crc bytes).map fieldsOf := by
  rw [candidate, candidateBlock]
  split
  · rfl
  · split
    · rfl
    · split
      · rfl
      · split
        · rw [Option.map_some, fieldsOf, body_of_sealed]
          rfl
        · rfl

private theorem newer_fields (best next : Option (UInt64 × UInt64 × List UInt8)) :
    newer (best.map fieldsOf) (next.map fieldsOf) = (newerBlock best next).map fieldsOf := by
  cases best with
  | none => cases next <;> rfl
  | some best =>
      cases next with
      | none => rfl
      | some next =>
          simp only [Option.map_some, newer, newerBlock, fieldsOf]
          split <;> rfl

private theorem newest_fields (crc : Crc) (d : Device) (offsets : List Nat)
    (best : Option (UInt64 × UInt64 × List UInt8)) :
    offsets.foldl (fun best offset => newer best (copyAt crc d offset)) (best.map fieldsOf) =
      (newestBlock crc d offsets best).map fieldsOf := by
  induction offsets generalizing best with
  | nil => rfl
  | cons offset rest ih =>
      have copy : copyAt crc d offset = (blockAt crc d offset).map fieldsOf := by
        unfold copyAt blockAt
        cases d.readAt offset blockSize with
        | error err => rfl
        | ok bytes => exact candidate_fields crc bytes
      rw [List.foldl_cons, copy, newer_fields, ih]
      rfl

theorem open_fields (crc : Crc) (d : Device) :
    Superblock.open crc d = (openBlock crc d).map (bodyOf body) := by
  have same := newest_fields crc d (copyOffsets d.capacity) none
  rw [Option.map_none] at same
  rw [Superblock.open, openBlock, same]
  split
  · rfl
  · cases newestBlock crc d (copyOffsets d.capacity) none <;> rfl

def age (root : RootPointer) : UInt64 ×ₗ UInt64 := toLex (root.seq, root.lsn)

/-- The root a copy counts with: its active one, or the other one when that is
broken. -/
def countedRoot (crc : Crc) (bytes : List UInt8) : Option RootPointer :=
  let sb := bodyOf body bytes
  if sb.magicFull = superblockMagicFull ∧ brokenSeal crc body bytes = none then
    if sb.activeRootPointer.verifyCrc crc then some sb.activeRootPointer
    else if sb.inactiveRootPointer.verifyCrc crc then some sb.inactiveRootPointer
    else none
  else none

/-- A readable copy and the root it counts with. -/
def countedAt (crc : Crc) (d : Device) (offset : Nat) : Option (List UInt8 × RootPointer) :=
  match d.readAt offset blockSize with
  | .error _ => none
  | .ok bytes => (countedRoot crc bytes).map fun root => (bytes, root)

/-- What a caller expects of an opened superblock. -/
structure UsableRoot (crc : Crc) (d : Device) (block : List UInt8) : Prop where
  verified : brokenSeal crc body block = none
  root : (bodyOf body block).activeRootPointer.verifyCrc crc = true
  counted : ∃ offset ∈ copyOffsets d.capacity, ∃ copy root,
    countedAt crc d offset = some (copy, root) ∧
      age (bodyOf body block).activeRootPointer = age root
  newest : ∀ offset ∈ copyOffsets d.capacity, ∀ copy root,
    countedAt crc d offset = some (copy, root) →
      age root ≤ age (bodyOf body block).activeRootPointer

/-- The first of the newest copies, with the root it counts with. -/
def NewestCopy (crc : Crc) (d : Device) (copy : List UInt8) (root : RootPointer) : Prop :=
  ∃ front offset back, copyOffsets d.capacity = front ++ offset :: back ∧
    countedAt crc d offset = some (copy, root) ∧
    (∀ other ∈ front, ∀ earlier, countedAt crc d other = some earlier →
      age earlier.2 < age root) ∧
    ∀ other ∈ back, ∀ later, countedAt crc d other = some later → age later.2 ≤ age root

/-- The byte names the root that the copy does not break off from when it is
flipped. -/
def Healable (crc : Crc) (copy : List UInt8) : Prop :=
  (bodyOf body copy).activeRootPointer.verifyCrc crc = true ∨
    (bodyOf body copy).activeRoot = 0 ∨ (bodyOf body copy).activeRoot = 1

def ageOf (found : UInt64 × UInt64 × List UInt8) : UInt64 ×ₗ UInt64 := toLex (found.1, found.2.1)

/-- The block opening makes of a copy. -/
def healed (crc : Crc) (copy : List UInt8) : List UInt8 :=
  let sb := bodyOf body copy
  if sb.activeRootPointer.verifyCrc crc then copy
  else sealed crc body sb.flipped

private theorem block_at_counted (crc : Crc) (d : Device) (offset : Nat) :
    blockAt crc d offset =
      (countedAt crc d offset).map fun counted =>
        (counted.2.seq, counted.2.lsn, healed crc counted.1) := by
  unfold blockAt countedAt
  cases d.readAt offset blockSize with
  | error err => rfl
  | ok bytes =>
      simp only [candidateBlock, countedRoot]
      by_cases magic : (bodyOf body bytes).magicFull = superblockMagicFull
      · rw [if_neg (not_not.mpr magic)]
        cases stored : brokenSeal crc body bytes with
        | some broken => simp
        | none =>
            have usable : (bodyOf body bytes).magicFull = superblockMagicFull ∧
                (none : Option (UInt32 × UInt32)) = none := ⟨magic, rfl⟩
            rw [if_pos usable, if_neg (by simp)]
            by_cases active : (bodyOf body bytes).activeRootPointer.verifyCrc crc = true
            · rw [if_pos active, if_pos active, Option.map_some, Option.map_some, healed, if_pos active]
            · rw [if_neg active, if_neg active]
              by_cases inactive : (bodyOf body bytes).inactiveRootPointer.verifyCrc crc = true
              · rw [if_pos inactive, if_pos inactive, Option.map_some, Option.map_some, healed,
                  if_neg active]
              · rw [if_neg inactive, if_neg inactive]
                rfl
      · rw [if_pos magic, if_neg fun both => magic both.1]
        rfl

theorem newer_block_lt (best next : UInt64 × UInt64 × List UInt8) :
    newerBlock (some best) (some next) = if ageOf best < ageOf next then some next else some best := by
  have order : ageOf best < ageOf next ↔
      best.1 < next.1 ∨ best.1 = next.1 ∧ best.2.1 < next.2.1 := Prod.Lex.lt_iff
  by_cases less : ageOf best < ageOf next
  · rw [if_pos less]
    exact if_pos (order.mp less)
  · rw [if_neg less]
    exact if_neg fun newer => less (order.mpr newer)

theorem newer_block_ge (best next : Option (UInt64 × UInt64 × List UInt8))
    (one : UInt64 × UInt64 × List UInt8) (among : best = some one ∨ next = some one) :
    ∃ kept, newerBlock best next = some kept ∧ ageOf one ≤ ageOf kept := by
  cases best with
  | none =>
      cases among with
      | inl impossible => cases impossible
      | inr here => exact ⟨one, by rw [here]; rfl, le_refl _⟩
  | some best =>
      cases next with
      | none =>
          cases among with
          | inl here => exact ⟨one, here, le_refl _⟩
          | inr impossible => cases impossible
      | some next =>
          rw [newer_block_lt]
          by_cases less : ageOf best < ageOf next
          · refine ⟨next, if_pos less, ?_⟩
            cases among with
            | inl here =>
                cases here
                exact le_of_lt less
            | inr here =>
                cases here
                exact le_refl _
          · refine ⟨best, if_neg less, ?_⟩
            cases among with
            | inl here =>
                cases here
                exact le_refl _
            | inr here =>
                cases here
                exact not_lt.mp less

/-- The fold takes what it starts with, or the first of the newest copies when
that one is newer. -/
theorem newest_first (crc : Crc) (d : Device) (offsets : List Nat)
    (best : Option (UInt64 × UInt64 × List UInt8)) (found : UInt64 × UInt64 × List UInt8)
    (chosen : newestBlock crc d offsets best = some found) :
    (best = some found ∧
      ∀ other ∈ offsets, ∀ next, blockAt crc d other = some next → ageOf next ≤ ageOf found) ∨
    ∃ front offset back, offsets = front ++ offset :: back ∧ blockAt crc d offset = some found ∧
      (∀ before, best = some before → ageOf before < ageOf found) ∧
      (∀ other ∈ front, ∀ next, blockAt crc d other = some next → ageOf next < ageOf found) ∧
      ∀ other ∈ back, ∀ next, blockAt crc d other = some next → ageOf next ≤ ageOf found := by
  induction offsets generalizing best with
  | nil =>
      left
      refine ⟨chosen, ?_⟩
      intro other member
      cases member
  | cons offset rest ih =>
      cases ih (newerBlock best (blockAt crc d offset)) chosen with
      | inl kept =>
          obtain ⟨here, later⟩ := kept
          cases offered : blockAt crc d offset with
          | none =>
              rw [offered] at here
              left
              have same : best = some found := by
                cases best <;> exact here
              refine ⟨same, ?_⟩
              intro other member next present
              cases List.mem_cons.mp member with
              | inl first =>
                  rw [first, offered] at present
                  cases present
              | inr behind => exact later other behind next present
          | some next =>
              rw [offered] at here
              cases best with
              | none =>
                  cases here
                  right
                  refine ⟨[], offset, rest, rfl, offered, ?_, ?_, later⟩
                  · intro before impossible
                    cases impossible
                  · intro other member
                    cases member
              | some best =>
                  rw [newer_block_lt] at here
                  split at here
                  · next less =>
                      cases here
                      right
                      refine ⟨[], offset, rest, rfl, offered, ?_, ?_, later⟩
                      · intro before same
                        cases same
                        exact less
                      · intro other member
                        cases member
                  · next notLess =>
                      cases here
                      left
                      refine ⟨rfl, ?_⟩
                      intro other member seen present
                      cases List.mem_cons.mp member with
                      | inl first =>
                          rw [first, offered] at present
                          cases present
                          exact not_lt.mp notLess
                      | inr behind => exact later other behind seen present
      | inr taken =>
          obtain ⟨front, taken_at, back, split, offered, before, earlier, later⟩ := taken
          right
          refine ⟨offset :: front, taken_at, back, by rw [split]; rfl, offered, ?_, ?_, later⟩
          · intro first same
            obtain ⟨kept, newer, older⟩ :=
              newer_block_ge best (blockAt crc d offset) first (Or.inl same)
            exact lt_of_le_of_lt older (before kept newer)
          · intro other member next present
            cases List.mem_cons.mp member with
            | inl first =>
                rw [first] at present
                obtain ⟨kept, newer, older⟩ :=
                  newer_block_ge best (blockAt crc d offset) next (Or.inr present)
                exact lt_of_le_of_lt older (before kept newer)
            | inr behind => exact earlier other behind next present

theorem open_block_newest (crc : Crc) (d : Device) (block : List UInt8)
    (opened : openBlock crc d = .ok block) :
    ∃ copy root, NewestCopy crc d copy root ∧ block = healed crc copy := by
  rw [openBlock] at opened
  split at opened
  · cases opened
  · split at opened
    · next found chosen =>
        cases opened
        cases newest_first crc d _ none found chosen with
        | inl kept => cases kept.1
        | inr taken =>
            obtain ⟨front, offset, back, split, offered, -, earlier, later⟩ := taken
            rw [block_at_counted] at offered
            obtain ⟨⟨copy, root⟩, counted, rfl⟩ := Option.map_eq_some_iff.mp offered
            refine ⟨copy, root, ⟨front, offset, back, split, counted, ?_, ?_⟩, rfl⟩
            · intro other member seen present
              apply earlier other member (seen.2.seq, seen.2.lsn, healed crc seen.1)
              rw [block_at_counted, present]
              rfl
            · intro other member seen present
              apply later other member (seen.2.seq, seen.2.lsn, healed crc seen.1)
              rw [block_at_counted, present]
              rfl
    · cases opened

private theorem verified_healed (crc : Crc) (copy : List UInt8) (root : RootPointer)
    (counted : countedRoot crc copy = some root) : brokenSeal crc body (healed crc copy) = none := by
  simp only [countedRoot] at counted
  split at counted
  · next usable =>
      simp only [healed]
      split
      · exact usable.2
      · exact broken_seal_sealed crc body _
  · cases counted

/-- The active root of the block opening makes is the one the copy counts with
where the copy can be healed, and a broken one elsewhere. -/
theorem active_healed (crc : Crc) (copy : List UInt8) (root : RootPointer)
    (counted : countedRoot crc copy = some root) :
    (Healable crc copy →
      (bodyOf body (healed crc copy)).activeRootPointer = root ∧ root.verifyCrc crc = true) ∧
    (¬Healable crc copy →
      (bodyOf body (healed crc copy)).activeRootPointer.verifyCrc crc = false) := by
  simp only [countedRoot] at counted
  split at counted
  · split at counted
    · next active =>
        cases counted
        constructor
        · intro _
          rw [healed, if_pos active]
          exact ⟨rfl, active⟩
        · intro lost
          exact absurd (Or.inl active) lost
    · next broken =>
        split at counted
        · next inactive =>
            cases counted
            rw [healed, if_neg broken, body_of_sealed]
            constructor
            · intro healable
              refine ⟨?_, inactive⟩
              cases healable with
              | inl active => exact absurd active broken
              | inr named => exact active_flipped _ named
            · intro lost
              have other : (bodyOf body copy).activeRoot ≠ 0 ∧ (bodyOf body copy).activeRoot ≠ 1 :=
                ⟨fun zero => lost (Or.inr (Or.inl zero)), fun one => lost (Or.inr (Or.inr one))⟩
              rw [active_not_flipped _ other.1 other.2]
              exact Bool.eq_false_iff.mpr broken
        · cases counted
  · cases counted

private theorem counted_at_root (crc : Crc) (d : Device) (offset : Nat) (copy : List UInt8)
    (root : RootPointer) (counted : countedAt crc d offset = some (copy, root)) :
    countedRoot crc copy = some root := by
  unfold countedAt at counted
  split at counted
  · cases counted
  · next bytes _ =>
      obtain ⟨found, present, same⟩ := Option.map_eq_some_iff.mp counted
      cases same
      exact present

/-- No copy counts with a newer root than the newest copy. -/
theorem NewestCopy.oldest_of_all {crc : Crc} {d : Device} {copy : List UInt8} {root : RootPointer}
    (newest : NewestCopy crc d copy root) :
    (∃ offset ∈ copyOffsets d.capacity, countedAt crc d offset = some (copy, root)) ∧
      ∀ offset ∈ copyOffsets d.capacity, ∀ other, countedAt crc d offset = some other →
        age other.2 ≤ age root := by
  obtain ⟨front, offset, back, split, counted, earlier, later⟩ := newest
  rw [split]
  constructor
  · exact ⟨offset, List.mem_append_right front List.mem_cons_self, counted⟩
  · intro elsewhere member other present
    rw [List.mem_append, List.mem_cons] at member
    rcases member with before | here | behind
    · exact le_of_lt (earlier elsewhere before other present)
    · rw [here, counted] at present
      cases present
      exact le_refl _
    · exact later elsewhere behind other present

private theorem NewestCopy.unique {crc : Crc} {d : Device} {copy copy' : List UInt8}
    {root root' : RootPointer} (newest : NewestCopy crc d copy root)
    (newest' : NewestCopy crc d copy' root') : copy = copy' := by
  have bounded := newest.oldest_of_all.2
  have bounded' := newest'.oldest_of_all.2
  obtain ⟨front, offset, back, split, counted, earlier, -⟩ := newest
  obtain ⟨front', offset', back', split', counted', earlier', -⟩ := newest'
  have member : offset ∈ copyOffsets d.capacity := by simp [split]
  have member' : offset' ∈ copyOffsets d.capacity := by simp [split']
  have order := bounded' offset member _ counted
  have order' := bounded offset' member' _ counted'
  rw [split] at split'
  rcases List.append_eq_append_iff.mp split' with ⟨rest, same, tail⟩ | ⟨rest, same, tail⟩
  · cases rest with
    | nil =>
        cases tail
        rw [counted] at counted'
        cases counted'
        rfl
    | cons head rest =>
        cases tail
        have behind : offset ∈ front' := by simp [same]
        exact absurd (earlier' offset behind _ counted) (not_lt.mpr order')
  · cases rest with
    | nil =>
        cases tail
        rw [counted] at counted'
        cases counted'
        rfl
    | cons head rest =>
        cases tail
        have behind : offset' ∈ front := by simp [same]
        exact absurd (earlier offset' behind _ counted') (not_lt.mpr order)

/-- An opened superblock has a usable newest root exactly when the first of the
newest copies need not be healed or names its active root by zero or one. -/
theorem opened_root_usable_iff (crc : Crc) (d : Device) (block : List UInt8)
    (opened : openBlock crc d = .ok block) :
    UsableRoot crc d block ↔ ∀ copy root, NewestCopy crc d copy root → Healable crc copy := by
  obtain ⟨copy, root, newest, rfl⟩ := open_block_newest crc d block opened
  obtain ⟨⟨offset, member, counted⟩, bounded⟩ := newest.oldest_of_all
  have countedRoot := counted_at_root crc d offset copy root counted
  have active := active_healed crc copy root countedRoot
  constructor
  · intro usable other root' newest'
    rw [← newest.unique newest']
    by_contra lost
    have broken := active.2 lost
    rw [usable.root] at broken
    cases broken
  · intro healable
    obtain ⟨same, verified⟩ := active.1 (healable copy root newest)
    constructor
    · exact verified_healed crc copy root countedRoot
    · rw [same]
      exact verified
    · exact ⟨offset, member, copy, root, counted, by rw [same]⟩
    · intro elsewhere inside other root' present
      rw [same]
      exact bounded elsewhere inside (other, root') present

/-- A superblock with a broken second root, which the byte names. -/
def damaged (crc : Crc) (activeRoot : UInt8) : Superblock :=
  { newBlank crc blankFormat 12288 with
    activeRoot := activeRoot
    rootB := { RootPointer.zero with crc := RootPointer.zero.computeCrc crc + 1 } }

theorem damaged_roots (crc : Crc) (activeRoot : UInt8) (second : activeRoot ≠ 0) :
    (damaged crc activeRoot).activeRootPointer.verifyCrc crc = false ∧
      (damaged crc activeRoot).inactiveRootPointer.verifyCrc crc = true := by
  have active : (damaged crc activeRoot).activeRootPointer =
      { RootPointer.zero with crc := RootPointer.zero.computeCrc crc + 1 } := if_neg second
  have inactive : (damaged crc activeRoot).inactiveRootPointer =
      RootPointer.zero.recomputeCrc crc := if_neg second
  rw [active, inactive]
  constructor
  · apply decide_eq_false
    intro same
    have slot := RootPointer.compute_crc_slot crc RootPointer.zero
      (RootPointer.zero.computeCrc crc + 1)
    have grown : RootPointer.zero.computeCrc crc + 1 = RootPointer.zero.computeCrc crc :=
      same.trans slot
    simp at grown
  · exact RootPointer.verify_recompute crc RootPointer.zero

theorem damaged_device (crc : Crc) (activeRoot : UInt8) :
    ∃ d : Device, blockSize * 3 ≤ d.capacity ∧
      ∀ offset ∈ copyOffsets d.capacity,
        d.readAt offset blockSize = .ok (sealed crc body (damaged crc activeRoot)) := by
  have healthy : blankDevice.Healthy := ⟨rfl, fun _ member => absurd member List.not_mem_nil⟩
  obtain ⟨d, written, -⟩ := write_copies_healthy (sealed crc body (damaged crc activeRoot))
    (copyOffsets blankDevice.capacity) blankDevice healthy (by
      rw [length_copy]
      decide)
  obtain ⟨capacity, -, copies⟩ := write_copies_ok _ (length_copy crc _) _
    (copies_apart blankDevice.capacity (by decide)) _ _ written
  refine ⟨d, ?_, ?_⟩
  · rw [capacity]
    decide
  · rw [capacity]
    exact copies

theorem open_damaged (crc : Crc) (activeRoot : UInt8) (second : activeRoot ≠ 0) (d : Device)
    (room : blockSize * 3 ≤ d.capacity)
    (copies : ∀ offset ∈ copyOffsets d.capacity,
      d.readAt offset blockSize = .ok (sealed crc body (damaged crc activeRoot))) :
    openBlock crc d = .ok (sealed crc body (damaged crc activeRoot).flipped) := by
  have roots := damaged_roots crc activeRoot second
  have magic : (damaged crc activeRoot).magicFull = superblockMagicFull := rfl
  have copy (offset : Nat) (member : offset ∈ copyOffsets d.capacity) :
      blockAt crc d offset = some ((damaged crc activeRoot).inactiveRootPointer.seq,
        (damaged crc activeRoot).inactiveRootPointer.lsn,
        sealed crc body (damaged crc activeRoot).flipped) := by
    rw [blockAt, copies offset member]
    simp only [candidateBlock, body_of_sealed, broken_seal_sealed]
    rw [if_neg (not_not.mpr magic), if_neg (by simp), if_neg (by simp [roots.1]),
      if_pos roots.2]
  have first := copy 0 List.mem_cons_self
  have second := copy blockSize (List.mem_cons_of_mem _ List.mem_cons_self)
  have third := copy (d.capacity - blockSize)
    (List.mem_cons_of_mem _ (List.mem_cons_of_mem _ List.mem_cons_self))
  rw [openBlock, if_neg (Nat.not_lt.mpr room), newestBlock, copyOffsets, List.foldl_cons,
    List.foldl_cons, List.foldl_cons, List.foldl_nil, first, second, third]
  simp [newerBlock]

theorem healed_root_broken :
    ¬∀ (d : Device) (block : List UInt8), blockSize * 3 ≤ d.capacity →
      openBlock crc32c d = .ok block → UsableRoot crc32c d block := by
  intro usable
  obtain ⟨d, room, copies⟩ := damaged_device crc32c 2
  have opened := open_damaged crc32c 2 (by decide) d room copies
  have verified := (usable d _ room opened).root
  rw [body_of_sealed, active_not_flipped _ (by decide) (by decide),
    (damaged_roots crc32c 2 (by decide)).1] at verified
  cases verified

/-- A copy that names its broken root by one is healed. -/
theorem opened_root_usable_healed :
    ∃ d block, openBlock crc32c d = .ok block ∧ UsableRoot crc32c d block := by
  obtain ⟨d, room, copies⟩ := damaged_device crc32c 1
  have opened := open_damaged crc32c 1 (by decide) d room copies
  refine ⟨d, _, opened, (opened_root_usable_iff crc32c d _ opened).mpr ?_⟩
  intro copy root newest
  obtain ⟨offset, member, counted⟩ := newest.oldest_of_all.1
  unfold countedAt at counted
  rw [copies offset member] at counted
  obtain ⟨found, -, same⟩ := Option.map_eq_some_iff.mp counted
  cases same
  right
  right
  rw [body_of_sealed]
  rfl

end Mimisbrunnr.Storage.Superblock
