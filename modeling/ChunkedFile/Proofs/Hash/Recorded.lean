import ChunkedFile.Proofs.Hash.Streaming
import ChunkedFile.Proofs.Stream.Admission
import ChunkedFile.Proofs.Text.Parts

/-!
# Recorded digests

A recorded digest is a text that somebody wrote down: blanks around it and capitals do not matter,
and what is left has to be as many hexadecimal digits as its algorithm gives. A verifier made of it
takes the delivered bytes in pieces, and its verdict is the one on all of them at once.
-/

namespace ChunkedFile

namespace Text.Hex

variable {c : Char}

/-- Ten decimal digits and six letters of either case. -/
theorem isDigit_iff : isDigit c = true ↔
    ('0' ≤ c ∧ c ≤ '9') ∨ ('a' ≤ c ∧ c ≤ 'f') ∨ ('A' ≤ c ∧ c ≤ 'F') := by
  rw [isDigit, value?]
  split_ifs with hdecimal hlower hupper
  · simp [hdecimal]
  · simp [hlower]
  · simp [hupper]
  · simp [hdecimal, hlower, hupper]

/-- Capitals lie 32 places before the small letters. -/
theorem toNat_toLower (c : Char) :
    c.toLower.toNat = if 65 ≤ c.toNat ∧ c.toNat ≤ 90 then c.toNat + 32 else c.toNat := by
  have hcapital : c.val ≥ 'A'.val ∧ c.val ≤ 'Z'.val ↔ 65 ≤ c.toNat ∧ c.toNat ≤ 90 := Iff.rfl
  delta Char.toLower
  by_cases h : 65 ≤ c.toNat ∧ c.toNat ≤ 90
  · rw [dif_pos (hcapital.mpr h), if_pos h]
    have hsum : (c.val + ('a'.val - 'A'.val)).toNat = (c.toNat + 32) % 4294967296 :=
      UInt32.toNat_add c.val _
    refine hsum.trans ?_
    omega
  · rw [dif_neg (hcapital.not.mpr h), if_neg h]

/-- The case of a letter does not matter for a digit. -/
@[simp] theorem isDigit_toLower (c : Char) : isDigit c.toLower = isDigit c := by
  have hle (a b : Char) : a ≤ b ↔ a.toNat ≤ b.toNat := Iff.rfl
  have hlower := toNat_toLower c
  rw [Bool.eq_iff_iff, isDigit_iff, isDigit_iff]
  simp only [hle, hlower, Char.reduceToNat]
  split <;> omega

end Text.Hex

variable {algorithm : Algorithm} {hex : String} {core : List Char}

/-- The recorded text in the form in which digests are compared. -/
theorem Text.asciiLower_trim (hcore : Trims hex.toList core) :
    asciiLower (trim hex) = String.ofList (core.map Char.toLower) := by
  rw [asciiLower, trim, String.toList_ofList, hcore.trimBlanks_eq]

/-- A digest is well-formed where what stands between the blanks is as many digits as its algorithm
gives, in whatever case. -/
theorem ExpectedDigest.wellFormed_iff (hcore : Text.Trims hex.toList core) :
    ExpectedDigest.WellFormed ⟨algorithm, hex⟩ ↔ core.length = algorithm.hexLength ∧
      ∀ c ∈ core, ('0' ≤ c ∧ c ≤ '9') ∨ ('a' ≤ c ∧ c ≤ 'f') ∨ ('A' ≤ c ∧ c ≤ 'F') := by
  simp [WellFormed, Text.asciiLower_trim hcore, Verifier.isDigest, Text.Hex.isDigit_iff]

namespace Verifier

variable {v : Verifier}

/-- Pieces one after the other are taken in like all of them at once. -/
theorem foldl_update (v : Verifier) (pieces : List ByteArray) :
    pieces.foldl update v = v.update (joined pieces) := by
  induction pieces generalizing v with
  | nil => exact v.update_empty.symm
  | cons piece pieces ih => rw [List.foldl_cons, ih, update_update, joined_cons]

/-- A new verifier counts the bytes that it is given. -/
theorem length_update_ofHex (h : ofHex algorithm hex = .ok v) (bytes : ByteArray) :
    (v.update bytes).length = bytes.size := by
  have hstart : (BlockHash.Running.start algorithm.hash).Took ByteArray.empty :=
    BlockHash.Running.took_start
  have htook := hstart.update bytes
  rw [ByteArray.empty_append] at htook
  rw [ofHex_eq_ok h]
  exact htook.length

/-- A recorded text is accepted exactly where, without the blanks around it, it consists of as many
hexadecimal digits of either case as the algorithm gives. A verifier made of it counts the bytes of
all the pieces that it is given, and finds them right exactly where the digest of all of them at
once is the recorded one in small letters; otherwise it tells both. -/
theorem pieces_verified (algorithm : Algorithm) (hex : String) :
    ∃ core, Text.Trims hex.toList core ∧
      ((∃ v, ofHex algorithm hex = .ok v) ↔ core.length = algorithm.hexLength ∧
        ∀ c ∈ core, ('0' ≤ c ∧ c ≤ '9') ∨ ('a' ≤ c ∧ c ≤ 'f') ∨ ('A' ≤ c ∧ c ≤ 'F')) ∧
      ∀ v, ofHex algorithm hex = .ok v → ∀ pieces : List ByteArray,
        (pieces.foldl update v).length = (pieces.map ByteArray.size).sum ∧
        ((pieces.foldl update v).verify = .ok () ↔
          algorithm.digestHex (joined pieces) = String.ofList (core.map Char.toLower)) ∧
        ∀ error, (pieces.foldl update v).verify = .error error ↔
          algorithm.digestHex (joined pieces) ≠ String.ofList (core.map Char.toLower) ∧
          error = .integrity (String.ofList (core.map Char.toLower))
            (algorithm.digestHex (joined pieces)) := by
  have hcore := Text.trims_trimBlanks hex.toList
  have haccepted := @ExpectedDigest.exists_ofHex_iff ⟨algorithm, hex⟩
  refine ⟨_, hcore, haccepted.trans (ExpectedDigest.wellFormed_iff hcore), fun v hv pieces => ?_⟩
  have hverify := verify_update_ofHex hv (joined pieces)
  rw [Text.asciiLower_trim hcore] at hverify
  rw [foldl_update, length_update_ofHex hv, hverify]
  refine ⟨size_joined pieces, ?_⟩
  by_cases hsame : algorithm.digestHex (joined pieces) =
      String.ofList ((Text.trimBlanks hex.toList).map Char.toLower)
  · simp [hsame]
  · simp [hsame, eq_comm]

/-- Seventy bytes in three pieces: the first one does not fill a block, one is empty, and the last
one goes past the end of the block. -/
def straddlingPieces : List ByteArray :=
  [⟨(List.replicate 60 97).toArray⟩, ByteArray.empty, ⟨(List.replicate 10 98).toArray⟩]

/-- The digest of the seventy bytes in capitals. -/
def straddlingDigits : List Char := "034D376FA528B0770B2492B0CA261497".toList

/-- Recorded between blanks, the digest in capitals is that of the pieces. -/
theorem pieces_verified_straddling :
    Text.Trims (String.ofList ('\u3000' :: straddlingDigits ++ ['\n'])).toList straddlingDigits ∧
      ∃ v, ofHex .md5 (String.ofList ('\u3000' :: straddlingDigits ++ ['\n'])) = .ok v ∧
        (straddlingPieces.foldl update v).length = 70 ∧
        (straddlingPieces.foldl update v).verify = .ok () := by
  have hcore : Text.Trims (String.ofList ('\u3000' :: straddlingDigits ++ ['\n'])).toList
      straddlingDigits := Text.trimBlanks_eq_iff.mp (by decide +kernel)
  have hdigest : Algorithm.md5.digestHex (joined straddlingPieces) =
      String.ofList (straddlingDigits.map Char.toLower) := by decide +kernel
  obtain ⟨core, htrims, haccepted, hpieces⟩ :=
    pieces_verified .md5 (String.ofList ('\u3000' :: straddlingDigits ++ ['\n']))
  obtain rfl : core = straddlingDigits := htrims.trimBlanks_eq.symm.trans hcore.trimBlanks_eq
  have hdigits : straddlingDigits.all Text.Hex.isDigit = true := by decide +kernel
  obtain ⟨v, hv⟩ := haccepted.mpr ⟨by decide +kernel, fun c hc =>
    Text.Hex.isDigit_iff.mp (List.all_eq_true.mp hdigits c hc)⟩
  obtain ⟨hlength, hverify, -⟩ := hpieces v hv straddlingPieces
  exact ⟨hcore, v, hv, hlength, hverify.mpr hdigest⟩

end Verifier

end ChunkedFile
