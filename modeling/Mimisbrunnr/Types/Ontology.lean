import Mathlib.Data.Int.Basic

/-!
# Tags, tag definitions and storage policies

The data types of the ontology: tag identifiers, the definition a module gives
for a tag, the storage policy a tag may declare, and the errors of the ontology
crate. A tag identifier is the raw number; `IdAllocator` is the only producer of
fresh ones and carries the 32-bit bound.
-/

namespace Mimisbrunnr.Types

set_option autoImplicit false

abbrev TagId := Nat

abbrev ModuleId := String

inductive ValueType where
  | text
  | int
  | float
  | timestamp
  | blob
deriving DecidableEq, Repr

inductive TagSemantics where
  | label
  | attribute (valueType : ValueType)
  | grouping
  | orderedCollection (elementConstraint : Option TagId)
  | hierarchical
deriving DecidableEq, Repr

inductive ChunkingAlgo where
  | none
  | fixedSize
  | fastCDC
deriving DecidableEq, Repr

structure ChunkParams where
  algo : ChunkingAlgo
  minSize : Nat
  avgSize : Nat
  maxSize : Nat
deriving DecidableEq, Repr

inductive CompressionAlgo where
  | none
  | zstd (level : Int)
  | lz4
deriving DecidableEq, Repr

inductive EncryptionMode where
  | none
  | hctr2 (objectId : Nat)
  | xts
  | aesGcm
  | chaCha20Poly1305
deriving DecidableEq, Repr

structure StoragePolicy where
  chunking : Option ChunkParams
  compression : Option CompressionAlgo
  encryption : Option EncryptionMode
deriving DecidableEq, Repr

structure TagDefinition where
  id : TagId
  name : String
  semantics : TagSemantics
  implies : List TagId
  storage : Option StoragePolicy
deriving DecidableEq, Repr

inductive TagRelation where
  | impliedBy
  | mutuallyExclusive
  | requires
  | alias
deriving DecidableEq, Repr

inductive StorageAxis where
  | chunking
  | compression
  | encryption
deriving DecidableEq, Repr

inductive OntologyError where
  | tagNotFound (tag : TagId)
  | cycleDetected (source target : TagId)
  | unknownTag (name : String)
  | axisConflict (axis : StorageAxis) (a : TagId) (aName : String) (b : TagId) (bName : String)
  | moduleAlreadyInstalled (id : ModuleId)
  | moduleNotInstalled (id : ModuleId)
  | moduleParse (message : String)
  | cbor (message : String)
deriving DecidableEq, Repr

end Mimisbrunnr.Types
