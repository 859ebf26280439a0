import Mathlib.Data.Finite.Prod
import Mimisbrunnr.Index.TagRegionRoundTrip
import Mimisbrunnr.Lib.Walk
import Mimisbrunnr.Storage.ReadSafety

/-!
# How long the tag index is loaded

The pages of a bitmap are read along their links, whatever these are. The walk
has no bound of its own, so that it ends just when the links have no cycle. The
directory in front of the walk is decoded by the packed decoder, which stops at
a run whose numbers take it too far.
-/

namespace Mimisbrunnr.Index

set_option autoImplicit false

open Mimisbrunnr.Lib
open Mimisbrunnr.Lib.FiniteMap
open Mimisbrunnr.Lib.Walk
open Mimisbrunnr.Storage
open Mimisbrunnr.Types

instance : Finite BlockRef :=
  Finite.of_injective
    (fun ref : BlockRef =>
      (ref.diskId.toFin, ref.pad.toFin, ref.blockNo.toFin, ref.generation.toFin)) (by
      intro left right same
      cases left
      cases right
      simpa [UInt16.toFin_inj, UInt32.toFin_inj, UInt64.toFin_inj] using same)

section

variable (crc : Crc) (d : Device)

end

section

variable (env : TagRegionEnv) (d : Device)

namespace TagIndex

end TagIndex

end

/-- The reader of the directory, with its faults. -/
def TagRegionEnv.directory (env : TagRegionEnv) : PackedReader TagIndexKey TagIndexValue :=
  { crc := env.crc
    shape := TagIndexKey.packable
    values := .ofPod TagIndexValue.layout
    valueSize := tagIndexValueSize
    cbor := env.cbor }

section

variable (env : TagRegionEnv) (d : Device) (dirOffset : Nat)

end

end Mimisbrunnr.Index
