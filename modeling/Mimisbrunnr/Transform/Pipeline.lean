import Mimisbrunnr.Types.Ontology

/-!
# The transform pipeline

Hash, compress, pad and encrypt the content of an object. The content hash and
the zstd encoder are external and enter as parameters; no cipher is wired, so
every encryption mode but `none` is refused.
-/

namespace Mimisbrunnr.Transform

set_option autoImplicit false

open Mimisbrunnr.Types

inductive TransformError where
  | compression (message : String)
  | unsupportedAlgo (name : String)
  | encryptionDisabled
deriving DecidableEq, Repr

/-- The external functions of the pipeline. -/
structure Codecs where
  blake3 : List UInt8 → List UInt8
  zstdEncode : List UInt8 → Int → Except String (List UInt8)

structure TransformResult where
  contentHash : List UInt8
  data : List UInt8
  originalSize : Nat
  compressedSize : Nat
  storedSize : Nat
deriving DecidableEq

structure TransformPipeline where
  compression : CompressionAlgo
  encryption : EncryptionMode
  key : Option (List UInt8)
deriving DecidableEq

def sectorSize : Nat := 4096

def compress (codecs : Codecs) (plaintext : List UInt8) :
    CompressionAlgo → Except TransformError (List UInt8)
  | .none => .ok plaintext
  | .zstd level =>
      match codecs.zstdEncode plaintext level with
      | .ok compressed => .ok compressed
      | .error message => .error (.compression message)
  | .lz4 => .error (.unsupportedAlgo "Lz4")

def requiresSectorAlignment : EncryptionMode → Bool
  | .xts => true
  | .hctr2 _ => true
  | _ => false

def padToSector (data : List UInt8) : List UInt8 :=
  data ++ List.replicate ((data.length + sectorSize - 1) / sectorSize * sectorSize - data.length) 0

def encrypt (data : List UInt8) : EncryptionMode → Except TransformError (List UInt8)
  | .none => .ok data
  | _ => .error .encryptionDisabled

namespace TransformPipeline

def passthrough : TransformPipeline :=
  { compression := .none
    encryption := .none
    key := none }

def apply (codecs : Codecs) (pipeline : TransformPipeline) (plaintext : List UInt8) :
    Except TransformError TransformResult :=
  match compress codecs plaintext pipeline.compression with
  | .error err => .error err
  | .ok compressed =>
      let staged :=
        if requiresSectorAlignment pipeline.encryption then padToSector compressed else compressed
      match encrypt staged pipeline.encryption with
      | .error err => .error err
      | .ok data =>
          .ok
            { contentHash := codecs.blake3 plaintext
              data := data
              originalSize := plaintext.length
              compressedSize := compressed.length
              storedSize := data.length }

end TransformPipeline

end Mimisbrunnr.Transform
