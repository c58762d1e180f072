import BeautyAwg.Lib.Bytes

/-!
# `Zlib`: compressed streams

A zlib writer with a reader that inflates what it writes. `Zlib.stored` is the simplest one: it compresses nothing,
and writes the data in blocks as they are, between a header and a checksum.
-/

/-- A compressor and its decompressor. -/
structure Zlib where
  deflate : Bytes → Bytes
  inflate : Bytes → Option Bytes
  inflate_deflate : ∀ data, inflate (deflate data) = some data

namespace Zlib

open Bytes

/-! ## Checksum -/

/-- Adler-32: the sum of the bytes and the sum of these sums. -/
def adler (data : Bytes) : Nat × Nat :=
  data.foldl (fun s b => ((s.1 + b.toNat) % 65521, (s.2 + s.1 + b.toNat) % 65521)) (1, 0)

/-- The check at a stream's end, the highest byte first. -/
def checksum (data : Bytes) : Bytes := be32 ((adler data).2 * 65536 + (adler data).1)

/-! ## Stored blocks -/

/-- The longest block. -/
def blockSize : Nat := 65535

/-- The head of a block: whether it is the last, its length and the complement of the length. -/
def blockHead (last : Bool) (n : Nat) : Bytes :=
  [if last then 1 else 0, UInt8.ofNat n, UInt8.ofNat (n / 256), UInt8.ofNat (blockSize - n),
    UInt8.ofNat ((blockSize - n) / 256)]

/-- So many full blocks, and a last one. -/
def blocks : Nat → Bytes → Bytes
  | 0, data => blockHead true data.length ++ data
  | n + 1, data => blockHead false blockSize ++ (data.take blockSize ++ blocks n (data.drop blockSize))

/-- The data of the blocks, and what follows the last one. -/
def readBlocks : Nat → Bytes → Option (Bytes × Bytes)
  | fuel + 1, last :: l₀ :: l₁ :: c₀ :: c₁ :: s =>
    let n := l₀.toNat + 256 * l₁.toNat
    if n + (c₀.toNat + 256 * c₁.toNat) = blockSize ∧ n ≤ s.length then
      if last = 1 then some (s.take n, s.drop n)
      else (readBlocks fuel (s.drop n)).map fun r => (s.take n ++ r.1, r.2)
    else none
  | _, _ => none

/-- A stream of stored blocks. -/
def storedStream (data : Bytes) : Bytes :=
  0x78 :: 0xda :: (blocks (data.length / blockSize) data ++ checksum data)

/-- What a stream of stored blocks holds. -/
def readStored : Bytes → Option Bytes
  | 0x78 :: 0xda :: s =>
    (readBlocks s.length s).bind fun r => if r.2 = checksum r.1 then some r.1 else none
  | _ => none

/-- A block is read back. -/
theorem readBlocks_head {last : Bool} {data rest : Bytes} {fuel : Nat} (h : data.length ≤ blockSize) :
    readBlocks (fuel + 1) (blockHead last data.length ++ (data ++ rest)) =
      if last then some (data, rest) else (readBlocks fuel rest).map fun r => (data ++ r.1, r.2) := by
  unfold blockSize at h
  have hlen : (UInt8.ofNat data.length).toNat + 256 * (UInt8.ofNat (data.length / 256)).toNat = data.length := by
    simp only [UInt8.toNat_ofNat']
    omega
  have hcomplement : (UInt8.ofNat (blockSize - data.length)).toNat +
      256 * (UInt8.ofNat ((blockSize - data.length) / 256)).toNat = blockSize - data.length := by
    simp only [UInt8.toNat_ofNat', blockSize]
    omega
  have hfits : data.length + (blockSize - data.length) = blockSize ∧ data.length ≤ (data ++ rest).length := by
    rw [List.length_append]
    unfold blockSize
    omega
  rw [blockHead, List.cons_append, List.cons_append, List.cons_append, List.cons_append, List.cons_append,
    List.nil_append, readBlocks, hlen, hcomplement, if_pos hfits, List.take_left, List.drop_left]
  cases last <;> rfl

/-- **Blocks are read back**, with as many calls as there are blocks. -/
theorem readBlocks_blocks {n fuel : Nat} {data rest : Bytes} (hfuel : n < fuel) (hn : n = data.length / blockSize) :
    readBlocks fuel (blocks n data ++ rest) = some (data, rest) := by
  induction n generalizing fuel data with
  | zero =>
    obtain ⟨fuel, rfl⟩ : ∃ k, fuel = k + 1 := ⟨fuel - 1, by omega⟩
    have hlen : data.length ≤ blockSize := by
      unfold blockSize at hn ⊢
      omega
    rw [blocks, List.append_assoc, readBlocks_head hlen]
    rfl
  | succ n ih =>
    obtain ⟨fuel, rfl⟩ : ∃ k, fuel = k + 1 := ⟨fuel - 1, by omega⟩
    -- a full block that is not the last, then the others
    have hfull : (data.take blockSize).length = blockSize := by
      rw [List.length_take]
      unfold blockSize at hn ⊢
      omega
    have hrest : n = (data.drop blockSize).length / blockSize := by
      rw [List.length_drop]
      unfold blockSize at hn ⊢
      omega
    have hhead := @readBlocks_head false (data.take blockSize) (blocks n (data.drop blockSize) ++ rest) fuel
      (Nat.le_of_eq hfull)
    rw [hfull] at hhead
    rw [blocks, List.append_assoc, List.append_assoc, hhead, ih (by omega) hrest, if_neg (by decide), Option.map_some,
      List.take_append_drop]

/-- The blocks are longer than their number, as each starts with a head of five bytes. -/
theorem length_le_blocks (n : Nat) (data : Bytes) : n < (blocks n data).length := by
  induction n generalizing data with
  | zero => simp [blocks, blockHead]
  | succ n ih =>
    have hlt := ih (data.drop blockSize)
    rw [blocks, List.length_append, List.length_append, blockHead]
    simp only [List.length_cons, List.length_nil]
    omega

/-- Streams of stored blocks. -/
def stored : Zlib where
  deflate := storedStream
  inflate := readStored
  inflate_deflate data := by
    have hfuel : data.length / blockSize < (blocks (data.length / blockSize) data ++ checksum data).length := by
      have hlt := length_le_blocks (data.length / blockSize) data
      rw [List.length_append]
      omega
    rw [storedStream, readStored, readBlocks_blocks hfuel rfl, Option.bind_some, if_pos rfl]

end Zlib
