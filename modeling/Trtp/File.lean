import Trtp.Packet

/-!
# The file

What `pread` gives of it, in chunks of `MAX_PAYLOAD_SIZE` bytes.
-/

open Trtp.Lib

namespace Trtp

variable (file : List UInt8)

/-- `pread(fd, copybuf, MAX_PAYLOAD_SIZE, offset)`. An offset that is negative as an `off_t` is an error. -/
def filePread (offset : UInt64) : Option (List UInt8) :=
  if offset.toNat < 2 ^ 63 then some ((file.drop offset.toNat).take MAX_PAYLOAD_SIZE) else none

/-- Chunk `k` of the file. -/
def fileChunk (k : Nat) : List UInt8 := (file.drop (MAX_PAYLOAD_SIZE * k)).take MAX_PAYLOAD_SIZE

/-- The number of chunks, the last of which may be short. -/
def chunkCount : Nat := (file.length + (MAX_PAYLOAD_SIZE - 1)) / MAX_PAYLOAD_SIZE

theorem fileChunk_length (k : Nat) :
    (fileChunk file k).length = min MAX_PAYLOAD_SIZE (file.length - MAX_PAYLOAD_SIZE * k) := by
  rw [fileChunk, List.length_take, List.length_drop]

theorem fileChunk_length_le (k : Nat) : (fileChunk file k).length ≤ MAX_PAYLOAD_SIZE := by
  rw [fileChunk_length]
  exact Nat.min_le_left _ _

/-- The chunks of the file are those that are not empty. -/
theorem fileChunk_eq_nil_iff (k : Nat) : fileChunk file k = [] ↔ chunkCount file ≤ k := by
  rw [← List.length_eq_zero_iff, fileChunk_length, chunkCount, MAX_PAYLOAD_SIZE]
  omega

theorem flatten_chunks (m : Nat) :
    ((List.range' 0 m).map (fileChunk file)).flatten = file.take (MAX_PAYLOAD_SIZE * m) := by
  induction m with
  | zero => simp
  | succ m ih =>
    rw [List.range'_1_concat, List.map_append, List.flatten_append, ih, Nat.zero_add, List.map_singleton,
      List.flatten_singleton, fileChunk, Nat.mul_succ, List.take_add]

theorem flatten_all_chunks : ((List.range' 0 (chunkCount file)).map (fileChunk file)).flatten = file := by
  rw [flatten_chunks, List.take_of_length_le]
  rw [chunkCount, MAX_PAYLOAD_SIZE]
  omega

/-- `m` full chunks and one byte. -/
def markedFile (m : Nat) : List UInt8 := List.replicate (MAX_PAYLOAD_SIZE * m) 0 ++ [1]

theorem markedFile_length (m : Nat) : (markedFile m).length = MAX_PAYLOAD_SIZE * m + 1 := by
  simp [markedFile]

theorem markedFile_count (m : Nat) : chunkCount (markedFile m) = m + 1 := by
  rw [chunkCount, markedFile_length, MAX_PAYLOAD_SIZE]
  omega

end Trtp
