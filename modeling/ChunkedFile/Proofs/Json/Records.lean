import Mathlib.Data.List.TakeWhile
import ChunkedFile.Json.Storable
import ChunkedFile.Proofs.Json.Documents

/-!
# What documents denote

A text, a count, a list or a record is found again in the document that is written for it: the
fields of a record by their names, and none under any other name. Such documents can be held in
memory, however large their counts.
-/

namespace ChunkedFile

/-- A size that was recorded is read. -/
theorem Size.ofNat?_toNat (n : UInt64) : ofNat? n.toNat = some n := by
  rw [ofNat?, if_pos (toNat_le_limit n), UInt64.ofNat_toNat]

namespace Json

variable {α : Type} {f : α → Json} {g : Json → Option α} {depth : Nat}

theorem literalText?_escape (text : String) : literalText? (escape text.toList) = some text := by
  rw [literalText?, unescape?_escape, Option.map_some, String.ofList_toList]

/-- The value of a text is read as that text. -/
theorem string?_ofString (text : String) : (ofString text).string? = some text :=
  literalText?_escape text

/-- The value of a size is read as that size. -/
theorem size?_ofNat (n : UInt64) : (ofNat n.toNat).size? = some n := by
  have hall : (Nat.toDigits 10 n.toNat).all Char.isDigit = true :=
    List.all_eq_true.mpr fun _ => Text.isDigit_of_mem_toDigits
  rw [size?, ofNat, nat?, if_pos ⟨Nat.toDigits_ne_nil, hall⟩, digitsValue_toDigits,
    Option.bind_some, Size.ofNat?_toNat]

/-- The items of a list are read if each is. -/
theorem list?_map (h : ∀ a, g (f a) = some a) (items : List α) :
    list? g (.array (items.map f)) = some items := by
  rw [list?]
  induction items with
  | nil => rfl
  | cons item items ih => simp [h, ih]

/-- A value or none is read, where values are not written as nulls. -/
theorem nullable?_ofOption (h : ∀ a, g (f a) = some a) (hnull : ∀ a, f a ≠ .null)
    (value : Option α) : nullable? g (ofOption f value) = some value := by
  cases value with
  | none => rfl
  | some a =>
    have ha := hnull a
    rw [ofOption]
    cases hjson : f a with
    | null => exact absurd hjson ha
    | bool | number | string | array | object =>
      rw [nullable?, ← hjson, h, Option.map_some]
      simp

/-- The names of written members are read back. -/
theorem namedMembers?_written (members : List (String × Json)) :
    namedMembers? (members.map written) = some members := by
  rw [namedMembers?]
  induction members with
  | nil => rfl
  | cons member members ih => simp [written, literalText?_escape, ih]

/-- Under a name stands the value that was put there. -/
theorem uniqueMember?_eq_lookup {members : List (String × Json)}
    (hnames : (members.map Prod.fst).Nodup) (name : String) :
    uniqueMember? members name = some (members.lookup name) := by
  induction members with
  | nil => rfl
  | cons member members ih =>
    obtain ⟨key, value⟩ := member
    rw [List.map_cons, List.nodup_cons] at hnames
    by_cases hkey : key = name
    · have hothers : members.filter (·.1 == name) = [] := by
        refine List.filter_eq_nil_iff.mpr fun other hother => ?_
        have hne : other.1 ≠ name := fun hsame =>
          hnames.1 (List.mem_map.mpr ⟨other, hother, hsame.trans hkey.symm⟩)
        simpa using hne
      simp [uniqueMember?, hkey, hothers]
    · have hkey' : (name == key) = false := by simpa using Ne.symm hkey
      have hrest := ih hnames.2
      simp only [uniqueMember?] at hrest
      simp [uniqueMember?, List.lookup_cons, hkey, hkey', hrest]

/-- The fields of a record are found by their names. -/
theorem fields?_record {members : List (String × Json)} (hnames : (members.map Prod.fst).Nodup)
    (names : List String) :
    (record members).fields? names = some (names.map fun name => members.lookup name) := by
  have hrecord : record members = .object (members.map written) := rfl
  simp only [hrecord, fields?, namedMembers?_written, Option.bind_eq_bind, Option.bind_some]
  induction names with
  | nil => rfl
  | cons name names ih => simp [uniqueMember?_eq_lookup hnames, ih]

/-- A member is told by its name, however that is written. -/
theorem any_written (p : String → Bool) (member : String × Json) :
    (literalText? (written member).1).any p = p member.1 := by
  rw [written, literalText?_escape, Option.any_some]

theorem isStorable_ofString (text : String) : (ofString text).isStorable depth = true := by
  rw [ofString, isStorable, unescape?_escape]
  rfl

/-- Digits that fit 64 bits are all kept. -/
theorem takeDigits_eq {digits : List Char} {value : Nat}
    (h : Nat.ofDigitChars 10 digits value ≤ Size.limit) :
    takeDigits value digits = (Nat.ofDigitChars 10 digits value, []) := by
  induction digits generalizing value with
  | nil => rfl
  | cons c digits ih =>
    have hle := Text.le_ofDigitChars digits (10 * value + (c.toNat - 48))
    have hcons : Nat.ofDigitChars 10 (c :: digits) value =
        Nat.ofDigitChars 10 digits (10 * value + (c.toNat - 48)) := rfl
    rw [hcons] at h ⊢
    rw [takeDigits, if_pos (by omega), ih h]

/-- A count of 64 bits is kept as it is. -/
theorem decimalParts_toDigits {n : Nat} (h : n ≤ Size.limit) :
    decimalParts (Nat.toDigits 10 n) = (n, 0) := by
  have hne {c : Char} (hc : c ∈ Nat.toDigits 10 n) :=
    Text.ne_of_isDigit (Text.isDigit_of_mem_toDigits hc)
  have hminus : (Nat.toDigits 10 n).filter (· != '-') = Nat.toDigits 10 n :=
    List.filter_eq_self.mpr fun c hc => by simp [hne hc '-' rfl]
  have hexponent : ∀ c ∈ Nat.toDigits 10 n, (!(c == 'e' || c == 'E')) = true := fun c hc => by
    simp [hne hc 'e' rfl, hne hc 'E' rfl]
  have hpoint : ∀ c ∈ Nat.toDigits 10 n, (c != '.') = true := fun c hc => by
    simp [hne hc '.' rfl]
  have hkept : takeDigits 0 (Nat.toDigits 10 n) = (n, []) := by
    rw [takeDigits_eq (by rwa [Nat.ofDigitChars_ten_toDigits]), Nat.ofDigitChars_ten_toDigits]
  simp only [decimalParts, hminus, List.takeWhile_eq_self_iff.mpr hexponent,
    List.dropWhile_eq_nil_iff.mpr hexponent, List.takeWhile_eq_self_iff.mpr hpoint,
    List.dropWhile_eq_nil_iff.mpr hpoint, hkept]
  rfl

/-- Rounding a count does not double it. -/
theorem roundBinary_le (n : Nat) : roundBinary n ≤ 2 * n := by
  by_cases hzero : n = 0
  · rw [hzero]
    decide
  have hunit : 2 ^ (Nat.log2 n - 52) ≤ n :=
    Nat.le_trans (Nat.pow_le_pow_right (by omega) (Nat.sub_le _ _)) (Nat.log2_self_le hzero)
  have hround (unit : Nat) : Text.roundHalfEven n unit ≤ n / unit + 1 := by
    have heven := Nat.mod_lt (n / unit) (show 0 < 2 by omega)
    simp only [Text.roundHalfEven]
    split_ifs <;> omega
  calc roundBinary n
      ≤ (n / 2 ^ (Nat.log2 n - 52) + 1) * 2 ^ (Nat.log2 n - 52) :=
        Nat.mul_le_mul_right _ (hround _)
    _ ≤ 2 * n := by
        rw [Nat.add_mul, Nat.one_mul]
        have hquotient := Nat.div_mul_le_self n (2 ^ (Nat.log2 n - 52))
        omega

/-- Every count of 64 bits is far from infinite. -/
theorem isStorable_ofNat {n : Nat} (h : n ≤ Size.limit) : (ofNat n).isStorable depth = true := by
  have hround := roundBinary_le n
  have hone : roundBinary (Nat.pow 10 (0 : Int).toNat) = 1 := by decide
  have hlarge : 2 * Size.limit < Nat.pow 2 1024 - Nat.pow 2 970 := by decide +kernel
  have hfinite : roundBinary n < Nat.pow 2 1024 - Nat.pow 2 970 := by omega
  rw [ofNat, isStorable, isFinite, decimalParts_toDigits h]
  simp only [hone, Nat.mul_one, hfinite, decide_true]
  simp

/-- An array is one deeper than its items. -/
theorem isStorable_list (h : ∀ a, (f a).isStorable depth = true) (items : List α) :
    (Json.array (items.map f)).isStorable (depth + 1) = true := by
  rw [isStorable]
  induction items with
  | nil => rfl
  | cons item items ih => simp [itemsStorable, h, ih]

/-- Members can be stored where their values can. -/
theorem membersStorable_written {members : List (String × Json)}
    (h : ∀ member ∈ members, member.2.isStorable depth = true) :
    membersStorable depth (members.map written) = true := by
  induction members with
  | nil => rfl
  | cons member members ih =>
    rw [List.forall_mem_cons] at h
    simp [membersStorable, written, unescape?_escape, h.1, ih h.2]

/-- A record is one deeper than its members. -/
theorem isStorable_record {members : List (String × Json)}
    (h : ∀ member ∈ members, member.2.isStorable depth = true) :
    (record members).isStorable (depth + 1) = true :=
  membersStorable_written h

end Json

end ChunkedFile
