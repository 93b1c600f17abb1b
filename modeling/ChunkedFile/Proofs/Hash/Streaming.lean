import Mathlib.Data.List.Basic
import ChunkedFile.Hash.Verifier

/-!
# Digests taken in pieces

A digest in the making has folded all full blocks of what it took in and keeps the bytes after the
last of them. So its end is the digest of the whole message, in whatever pieces the message came,
and a verifier compares the digest of exactly the bytes that it was given.
-/

namespace ChunkedFile

namespace BlockHash

variable {hash : BlockHash}

/-- Whole blocks in front are folded first, whatever follows them. -/
theorem foldBlocks_append {front back : ByteArray} {blocks : Nat}
    (hfront : front.size = blockSize * blocks) (state : hash.State) :
    hash.foldBlocks (front ++ back) state = hash.foldBlocks back (hash.foldBlocks front state) := by
  have hpos : 0 < blockSize := by decide
  have hblocks : front.size / blockSize = blocks := by
    rw [hfront, Nat.mul_div_cancel_left blocks hpos]
  have hsize : (front ++ back).size / blockSize = blocks + back.size / blockSize := by
    rw [ByteArray.size_append, hfront, Nat.mul_add_div hpos]
  rw [foldBlocks, foldBlocks, foldBlocks, hsize, hblocks, List.range_add, List.foldl_append,
    List.foldl_map]
  have hbefore : ∀ i ∈ List.range blocks,
      (front ++ back).extract (blockSize * i) (blockSize * (i + 1)) =
        front.extract (blockSize * i) (blockSize * (i + 1)) := by
    intro i hi
    have hle : blockSize * (i + 1) ≤ front.size := by
      rw [hfront]
      exact Nat.mul_le_mul_left blockSize (List.mem_range.mp hi)
    have hnone : back.extract (blockSize * i - front.size) (blockSize * (i + 1) - front.size) =
        ByteArray.empty := by
      rw [ByteArray.extract_eq_empty_iff]
      omega
    rw [ByteArray.extract_append, hnone, ByteArray.append_empty]
  have hafter : ∀ i, (front ++ back).extract (blockSize * (blocks + i))
      (blockSize * (blocks + i + 1)) = back.extract (blockSize * i) (blockSize * (i + 1)) := by
    intro i
    rw [Nat.add_assoc, Nat.mul_add, Nat.mul_add blockSize blocks]
    exact ByteArray.extract_append_size_add' hfront.symm
  rw [List.foldl_ext _ _ state fun state i hi => by rw [hbefore i hi]]
  exact List.foldl_ext _ _ _ fun state i _ => by rw [hafter i]

namespace Running

variable {running : Running hash} {message : ByteArray}

/-- A digest in the making that has taken in a message. -/
structure Took (running : Running hash) (message : ByteArray) : Prop where
  length : running.length = message.size
  /-- All blocks but the last, unfinished one are folded. -/
  folded : ∃ front blocks, front.size = blockSize * blocks ∧
    message = front ++ running.pending ∧ running.state = hash.foldBlocks front hash.initial
  pending : running.pending.size < blockSize

/-- At the start nothing was taken in. -/
theorem took_start : (start hash).Took ByteArray.empty :=
  ⟨rfl, ⟨ByteArray.empty, 0, rfl, rfl, rfl⟩, Nat.zero_lt_succ 63⟩

/-- A block by itself is folded by one step. -/
theorem foldBlocks_block {block : ByteArray} (hblock : block.size = blockSize)
    (state : hash.State) : hash.foldBlocks block state = hash.compress state block := by
  have hwhole : block.extract 0 blockSize = block := by
    rw [← hblock, ByteArray.extract_zero_size]
  have hone : block.size / blockSize = 1 := by rw [hblock]; decide
  rw [foldBlocks, hone, List.range_one, List.foldl_cons, List.foldl_nil, Nat.mul_zero, Nat.zero_add,
    Nat.mul_one, hwhole]

/-- One more byte completes the unfinished block or is kept with it. -/
theorem Took.absorb (h : running.Took message) (byte : UInt8) :
    (running.absorb byte).Took (message.push byte) := by
  obtain ⟨front, blocks, hfront, hmessage, hstate⟩ := h.folded
  have hpending := h.pending
  have hlength := h.length
  have hpush : message.push byte = front ++ running.pending.push byte := by
    rw [hmessage]
    exact ByteArray.ext (by simp)
  rw [Running.absorb]
  by_cases hroom : (running.pending.push byte).size < blockSize
  · rw [if_pos hroom]
    exact ⟨by simp [hlength], ⟨front, blocks, hfront, hpush, hstate⟩, hroom⟩
  · have hfull : (running.pending.push byte).size = blockSize := by
      rw [ByteArray.size_push] at hroom ⊢
      omega
    rw [if_neg hroom]
    refine ⟨by simp [hlength], ⟨message.push byte, blocks + 1, ?_, by simp, ?_⟩,
      Nat.zero_lt_succ 63⟩
    · rw [hpush, ByteArray.size_append, hfront, hfull, Nat.mul_succ]
    · rw [hpush, foldBlocks_append hfront, foldBlocks_block hfull, hstate]

/-- A piece follows what was taken in before. -/
theorem Took.update (h : running.Took message) (piece : ByteArray) :
    (running.update piece).Took (message ++ piece) := by
  have hbytes : ∀ (bytes : List UInt8) (running : Running hash) (message : ByteArray),
      running.Took message →
        (bytes.foldl Running.absorb running).Took (message ++ ⟨bytes.toArray⟩) := by
    intro bytes
    induction bytes with
    | nil =>
      intro running message h
      have hnone : message ++ ⟨[].toArray⟩ = message := ByteArray.ext (by simp)
      rw [hnone]
      exact h
    | cons byte rest ih =>
      intro running message h
      have hfirst : message ++ ⟨(byte :: rest).toArray⟩ = message.push byte ++ ⟨rest.toArray⟩ :=
        ByteArray.ext (by simp)
      rw [hfirst]
      exact ih _ _ (h.absorb byte)
  rw [Running.update, ← Array.foldl_toList]
  exact hbytes piece.data.toList running message h

/-- What has taken in a message ends in the digest of the message. -/
theorem Took.finish (h : running.Took message) : running.finish = hash.digest message := by
  obtain ⟨front, blocks, hfront, hmessage, hstate⟩ := h.folded
  have hpadded : message ++ hash.padding message.size =
      front ++ (running.pending ++ hash.padding message.size) := by
    rw [← ByteArray.append_assoc, ← hmessage]
  rw [Running.finish, digest, hpadded, foldBlocks_append hfront, h.length, hstate]

end Running

end BlockHash

namespace Verifier

variable {v : Verifier} {a b : ByteArray}

@[simp] theorem update_empty (v : Verifier) : v.update ByteArray.empty = v := rfl

/-- No bytes change nothing, with a verifier or without. -/
theorem map_update_empty (v : Option Verifier) : v.map (·.update ByteArray.empty) = v := by
  cases v with
  | none => rfl
  | some v => rw [Option.map_some, update_empty]

/-- Two pieces one after the other are taken in like one. -/
theorem update_update (v : Verifier) (a b : ByteArray) :
    (v.update a).update b = v.update (a ++ b) := by
  simp only [update, BlockHash.Running.update, ByteArray.data_append, Array.foldl_append]

/-- A new verifier looks for the recorded digits, without blanks around them and in lower case. -/
theorem ofHex_eq_ok {algorithm : Algorithm} {hex : String}
    (h : ofHex algorithm hex = .ok v) :
    v = ⟨algorithm, Text.asciiLower (Text.trim hex), .start _⟩ := by
  simp only [ofHex] at h
  split at h
  · rw [Except.ok.injEq] at h
    exact h.symm
  · cases h

/-- A new verifier compares the digest of all bytes that it is given. -/
theorem verify_update_ofHex {algorithm : Algorithm} {hex : String}
    (h : ofHex algorithm hex = .ok v) (bytes : ByteArray) :
    (v.update bytes).verify =
      if algorithm.digestHex bytes = Text.asciiLower (Text.trim hex) then .ok ()
      else .error (.integrity (Text.asciiLower (Text.trim hex)) (algorithm.digestHex bytes)) := by
  have hstart : (BlockHash.Running.start algorithm.hash).Took ByteArray.empty :=
    BlockHash.Running.took_start
  have htook := hstart.update bytes
  rw [ByteArray.empty_append] at htook
  have hfinish : (v.update bytes).running.finish = algorithm.hash.digest bytes := by
    rw [ofHex_eq_ok h]
    exact htook.finish
  have hexpected : (v.update bytes).expected = Text.asciiLower (Text.trim hex) := by
    rw [ofHex_eq_ok h]
    rfl
  rw [verify, hfinish, hexpected, Algorithm.digestHex]

end Verifier

end ChunkedFile
