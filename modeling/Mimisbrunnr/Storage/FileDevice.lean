import Mathlib.Logic.Function.Basic
import Mimisbrunnr.Storage.Device

/-!
# Devices on files

A block device over a file of the host. Opening creates a missing file, and with
a capacity given extends a shorter file with zeros; without one the device is as
long as the file. What a program does to the device stays in the file.

Opening and reading a file do not fail here. The failures of writes and syncs
belong to the path.
-/

namespace Mimisbrunnr.Storage

set_option autoImplicit false

open Mimisbrunnr.Lib.ByteStore

structure File where
  bytes : Bytes
  length : Nat

abbrev Path := List UInt8

structure FileSystem where
  files : Path → Option File
  faults : Path → List (Option Fault)

structure FileBlockDevice where
  path : Path
  capacity : Nat
  readOnly : Bool
deriving DecidableEq, Repr

namespace FileSystem

def file (fs : FileSystem) (path : Path) : File :=
  (fs.files path).getD { bytes := fun _ => 0, length := 0 }

def setFile (fs : FileSystem) (path : Path) (file : File) : FileSystem :=
  { fs with files := Function.update fs.files path (some file) }

def openDevice (fs : FileSystem) (path : Path) (capacity : Nat) : FileBlockDevice × FileSystem :=
  let file := fs.file path
  if capacity = 0 then
    ({ path := path, capacity := file.length, readOnly := false }, fs.setFile path file)
  else
    ({ path := path, capacity := capacity, readOnly := false },
      fs.setFile path { file with length := max file.length capacity })

/-- The open file as a device. -/
def device (fs : FileSystem) (handle : FileBlockDevice) : Device :=
  { bytes := (fs.file handle.path).bytes
    capacity := handle.capacity
    readOnly := handle.readOnly
    faults := fs.faults handle.path }

/-- The file system after the device has changed. -/
def stored (fs : FileSystem) (handle : FileBlockDevice) (d : Device) : FileSystem :=
  { files := Function.update fs.files handle.path
      (some { fs.file handle.path with bytes := d.bytes })
    faults := Function.update fs.faults handle.path d.faults }

/-- A program on one device. -/
def on {ε α : Type} (fs : FileSystem) (handle : FileBlockDevice) (program : DeviceM ε α) :
    Except ε α × FileSystem :=
  let (result, d) := program (fs.device handle)
  (result, fs.stored handle d)

@[simp] theorem file_set_file (fs : FileSystem) (path other : Path) (file : File) :
    (fs.setFile path file).file other = if other = path then file else fs.file other := by
  unfold FileSystem.file setFile
  by_cases same : other = path
  · subst same
    simp
  · simp [same]

@[simp] theorem file_stored (fs : FileSystem) (handle : FileBlockDevice) (d : Device)
    (path : Path) :
    (fs.stored handle d).file path =
      if path = handle.path then { fs.file handle.path with bytes := d.bytes }
      else fs.file path := by
  unfold stored
  by_cases same : path = handle.path
  · subst same
    simp [FileSystem.file]
  · simp [FileSystem.file, same]

theorem on_ok {ε α : Type} (fs after : FileSystem) (handle : FileBlockDevice)
    (program : DeviceM ε α) (value : α) (ok : fs.on handle program = (.ok value, after)) :
    ∃ d, program (fs.device handle) = (.ok value, d) ∧ after = fs.stored handle d := by
  unfold FileSystem.on at ok
  rcases done : program (fs.device handle) with ⟨result, d⟩
  rw [done] at ok
  cases ok
  exact ⟨d, rfl, rfl⟩

end FileSystem

end Mimisbrunnr.Storage
