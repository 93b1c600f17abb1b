import ChunkedFile.CommandLine
import ChunkedFile.Proofs.Range.Header

/-!
# Ranges on the command line

A range is given as a header, whose last position is included, or as a start and a length, numbers
with a sign. What is written for a number is read back as that number, so the two forms give the
same range wherever both can say it. Numbers with a sign have 63 bits, and a length counts the last
position too, so the last position is at least two below that bound.
-/

namespace ChunkedFile.CommandLine

open Text

variable {start length : Int} {first last : Nat}

/-- What is written for a number that fits 64 bits is read as that number. -/
theorem readNumber_toString (failure : NumeralError → Failure) (hge : -2 ^ 63 ≤ start)
    (hlt : start < 2 ^ 63) : readNumber failure (toString start) = .ok start := by
  rw [readNumber, readInt_eq_ok_iff.mpr ⟨isSigned_toString start, hge, hlt⟩]
  rfl

/-- What is written for a number does not begin as a header does. -/
theorem not_header_toString (z : Int) :
    "bytes=".toList.isPrefixOf (toString z).toList = false := by
  rw [Bool.eq_false_iff, ne_eq, List.isPrefixOf_iff_prefix]
  rintro ⟨rest, htext⟩
  have hsigned := isSigned_toString z
  rw [← htext] at hsigned
  obtain ⟨n, ⟨digits, hdigits | hdigits, -, hdecimal, -⟩, -⟩ | ⟨digits, hminus, -⟩ := hsigned
  · cases hdecimal 'b' (hdigits ▸ List.mem_cons_self)
  · cases hdigits
  · cases hminus

/-- A start alone asks for all that follows. -/
theorem parseRange_start (start : Int) (hge : -2 ^ 63 ≤ start) (hlt : start < 2 ^ 63) :
    parseRange [toString start] = orRange (ByteRange.ofSigned start (-1)) := by
  simp only [parseRange, not_header_toString, Bool.false_eq_true, if_false,
    readNumber_toString _ hge hlt]
  rfl

/-- A start and a length are taken as the numbers that they are. -/
theorem parseRange_start_length (start length : Int) (hge : -2 ^ 63 ≤ start) (hlt : start < 2 ^ 63)
    (hlength : -2 ^ 63 ≤ length) (hlength' : length < 2 ^ 63) :
    parseRange [toString start, toString length] = orRange (ByteRange.ofSigned start length) := by
  simp only [parseRange, not_header_toString, Bool.false_eq_true, if_false,
    readNumber_toString _ hge hlt, readNumber_toString _ hlength hlength']
  rfl

/-- An argument that begins as a header does is answered as one. -/
theorem parseRange_of_asks {header : String} {first : UInt64} {last : Option UInt64}
    (hstart : "bytes=".toList <+: header.toList) (hasks : ByteRange.Asks header first last) :
    parseRange [header] = orRange (ByteRange.answer first last) := by
  simp only [parseRange, List.isPrefixOf_iff_prefix.mpr hstart, if_true, List.isEmpty_nil,
    hasks.ofHeader_eq]

private theorem toNat_ofNat {n : Nat} (h : n < 2 ^ 63) : (UInt64.ofNat n).toNat = n :=
  UInt64.toNat_ofNat_of_lt' (by rw [UInt64.size]; omega)

private theorem toString_ofNat {n : Nat} (h : n < 2 ^ 63) :
    toString (UInt64.ofNat n) = toString n := by
  change (UInt64.ofNat n).toNat.repr = n.repr
  rw [toNat_ofNat h]

/-- A header of two positions asks for the bytes at both and between them. -/
theorem parseRange_inclusive (hle : first ≤ last) (hlt : last < 2 ^ 63) :
    parseRange [s!"bytes={first}-{last}"] =
      .ok ⟨UInt64.ofNat first, some (UInt64.ofNat (last - first + 1))⟩ := by
  have hasks := ByteRange.asks_decimal (UInt64.ofNat first) (UInt64.ofNat last)
  rw [toString_ofNat (by omega), toString_ofNat hlt] at hasks
  have hfirst : (UInt64.ofNat first).toNat = first := toNat_ofNat (by omega)
  have hlast : (UInt64.ofNat last).toNat = last := toNat_ofNat (by omega)
  have hanswer : ByteRange.answer (UInt64.ofNat first) (some (UInt64.ofNat last)) =
      .ok ⟨UInt64.ofNat first, some (UInt64.ofNat (last - first + 1))⟩ := by
    refine ByteRange.inclusive_eq_ok_iff.mpr ⟨?_, ?_⟩
    · rwa [UInt64.le_iff_toNat_le, hfirst, hlast]
    · rw [hfirst, hlast, Nat.min_eq_left (by rw [Size.limit]; omega)]
  rw [parseRange_of_asks (by simp [ToString.toString]) hasks, hanswer]
  rfl

/-- A header of one position asks for all bytes from there on. -/
theorem parseRange_open (hlt : first < 2 ^ 63) :
    parseRange [s!"bytes={first}-"] = .ok ⟨UInt64.ofNat first, none⟩ := by
  have hasks := ByteRange.asks_decimal_open (UInt64.ofNat first)
  rw [toString_ofNat hlt] at hasks
  rw [parseRange_of_asks (by simp [ToString.toString]) hasks]
  rfl

/-- From one position to another there is one range, whether the last position or the number of
bytes is given, and from one position to the end there is one, whether a header leaves the last
position out, no length is given, or one below zero. -/
theorem range_forms_agree :
    (∀ first last : Nat, first ≤ last → last < 2 ^ 63 - 1 → ∃ range : ByteRange,
      parseRange [s!"bytes={first}-{last}"] = .ok range ∧
      parseRange [s!"{first}", s!"{last - first + 1}"] = .ok range ∧
      range.start.toNat = first ∧ range.length.map UInt64.toNat = some (last - first + 1)) ∧
    ∀ start : Nat, start < 2 ^ 63 → ∃ range : ByteRange,
      parseRange [s!"bytes={start}-"] = .ok range ∧
      parseRange [s!"{start}"] = .ok range ∧
      (∀ length : Int, -2 ^ 63 ≤ length → length < 0 →
        parseRange [s!"{start}", s!"{length}"] = .ok range) ∧
      range.start.toNat = start ∧ range.length = none := by
  constructor
  · intro first last hle hlt
    refine ⟨_, parseRange_inclusive hle (by omega), ?_, toNat_ofNat (by omega), ?_⟩
    · exact parseRange_start_length first (last - first + 1 : Nat) (by omega) (by omega) (by omega)
        (by omega)
    · rw [Option.map_some, toNat_ofNat (by omega)]
  · intro start hlt
    refine ⟨_, parseRange_open hlt, parseRange_start start (by omega) (by omega), ?_,
      toNat_ofNat hlt, rfl⟩
    intro length hge hneg
    rw [show s!"{start}" = toString (start : Int) from rfl,
      parseRange_start_length start length (by omega) (by omega) hge (by omega),
      ByteRange.ofSigned, if_neg (by omega), if_pos hneg]
    rfl

/-- As many bytes as a length with a sign can say, and a start as far on as one can be, with the
least length. -/
theorem range_forms_agree_widest :
    (∃ range : ByteRange, parseRange ["bytes=0-9223372036854775806"] = .ok range ∧
      parseRange ["0", "9223372036854775807"] = .ok range ∧
      range.start.toNat = 0 ∧ range.length.map UInt64.toNat = some 9223372036854775807) ∧
    ∃ range : ByteRange, parseRange ["bytes=9223372036854775807-"] = .ok range ∧
      parseRange ["9223372036854775807"] = .ok range ∧
      parseRange ["9223372036854775807", "-9223372036854775808"] = .ok range := by
  obtain ⟨hbounded, hunbounded⟩ := range_forms_agree
  obtain ⟨_, hheader, hstart, hnegative, -⟩ := hunbounded 9223372036854775807 (by decide)
  refine ⟨hbounded 0 9223372036854775806 (by decide) (by decide), _, hheader, hstart, ?_⟩
  exact hnegative (-9223372036854775808) (by decide) (by decide)

end ChunkedFile.CommandLine
