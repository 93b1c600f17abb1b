import ChunkedFile.Proofs.Text.Bytes
import ChunkedFile.Text.Percent

/-!
# Percent encoding, read back

An encoded text stands for bytes: two digits behind a percent sign for one, and every other
character for its own code. Percent signs are encoded themselves, so each text is read back from
what is written for it, and a path segment by segment, since no slash is written but those between
its segments.
-/

namespace ChunkedFile.Text.Percent

variable {c : Char} {text rest : List Char}

/-- The upper-case hexadecimal digits. -/
def IsUpperDigit (c : Char) : Prop := ('0' ≤ c ∧ c ≤ '9') ∨ ('A' ≤ c ∧ c ≤ 'F')

/-- Texts of letters, digits, four marks and slashes, and of percent signs with two digits each. -/
inductive Written : List Char → Prop
  | nil : Written []
  | plain {c : Char} {rest : List Char}
      (hplain : c.isAlphanum = true ∨ c ∈ ['-', '_', '.', '~', '/'])
      (others : Written rest) : Written (c :: rest)
  | octet {high low : Char} {rest : List Char} (hhigh : IsUpperDigit high)
      (hlow : IsUpperDigit low) (others : Written rest) : Written ('%' :: high :: low :: rest)

theorem Written.append (h : Written text) (hrest : Written rest) : Written (text ++ rest) := by
  induction h with
  | nil => exact hrest
  | plain hplain _ ih => exact .plain hplain ih
  | octet hhigh hlow _ ih => exact .octet hhigh hlow ih

/-- The digits of an escape are letters and digits. -/
theorem IsUpperDigit.isAlphanum (h : IsUpperDigit c) : c.isAlphanum = true := by
  rcases h with hdecimal | hletter
  · have hdigit : c.isDigit = true := by
      rw [Char.isDigit, Bool.and_eq_true, decide_eq_true_eq, decide_eq_true_eq]
      exact hdecimal
    exact Bool.or_eq_true_iff.mpr (Or.inr hdigit)
  · have hupper : c.isUpper = true := decide_eq_true ⟨hletter.1, hletter.2.trans (by decide)⟩
    have halpha : c.isAlpha = true := Bool.or_eq_true_iff.mpr (Or.inl hupper)
    exact Bool.or_eq_true_iff.mpr (Or.inl halpha)

/-- No other characters stand in a written text. -/
theorem Written.of_mem (h : Written text) (hc : c ∈ text) :
    c.isAlphanum = true ∨ c ∈ ['-', '_', '.', '~', '/'] ∨ c = '%' := by
  induction h with
  | nil => cases hc
  | plain hplain _ ih =>
    rcases List.mem_cons.mp hc with rfl | hc
    · exact hplain.imp_right Or.inl
    · exact ih hc
  | octet hhigh hlow _ ih =>
    simp only [List.mem_cons] at hc
    rcases hc with rfl | rfl | rfl | hc
    · exact Or.inr (Or.inr rfl)
    · exact Or.inl hhigh.isAlphanum
    · exact Or.inl hlow.isAlphanum
    · exact ih hc

/-- Numbers below sixteen have a digit. -/
theorem isUpperDigit_upperDigit {n : Nat} (h : n < 16) : IsUpperDigit (Hex.upperDigit n) := by
  revert n
  unfold IsUpperDigit
  decide

/-- So has each half of a byte. -/
theorem isUpperDigit_halves (b : UInt8) : IsUpperDigit (Hex.upperDigit (b.toNat / 16)) ∧
    IsUpperDigit (Hex.upperDigit (b.toNat % 16)) := by
  have hb := b.toNat_lt
  exact ⟨isUpperDigit_upperDigit (by omega), isUpperDigit_upperDigit (by omega)⟩

theorem written_encodeByte (b : UInt8) : Written (encodeByte b) :=
  .octet (isUpperDigit_halves b).1 (isUpperDigit_halves b).2 .nil

/-- A text is written if its parts are. -/
theorem written_flatMap {α : Type} {items : List α} {f : α → List Char}
    (h : ∀ item ∈ items, Written (f item)) : Written (items.flatMap f) := by
  induction items with
  | nil => exact .nil
  | cons item items ih =>
    rw [List.flatMap_cons]
    rw [List.forall_mem_cons] at h
    exact h.1.append (ih h.2)

/-- An encoded character is written. -/
theorem written_encodeChar (c : Char) : Written (encodeChar c) := by
  rw [encodeChar]
  split
  · rename_i hplain
    refine .plain ?_ .nil
    simp only [isUnreserved, Bool.or_eq_true, beq_iff_eq] at hplain
    simp only [List.mem_cons]
    tauto
  · exact written_flatMap fun b _ => written_encodeByte b

theorem written_encodePath (path : String) : Written (encodePath path).toList := by
  rw [encodePath, String.toList_ofList]
  refine written_flatMap fun c _ => ?_
  split
  · exact .plain (Or.inr (by simp)) .nil
  · exact written_encodeChar c

/-- The bytes that an encoded text stands for. -/
def octets? : List Char → Option (List UInt8)
  | [] => some []
  | '%' :: high :: low :: rest => do
    let high ← Hex.value? high
    let low ← Hex.value? low
    return UInt8.ofNat (16 * high + low) :: (← octets? rest)
  | '%' :: _ => none
  | c :: rest => (octets? rest).map (String.utf8EncodeChar c ++ ·)

/-- The text that an encoded text stands for, where its bytes are those of a text. -/
def decode? (s : String) : Option String :=
  (octets? s.toList).bind fun octets => String.fromUTF8? ⟨octets.toArray⟩

/-- The stretches of a path between its slashes. -/
def segments (path : String) : List String := (path.toList.splitOn '/').map String.ofList

/-- The path whose encoded segments are given. -/
def decodePath? (path : String) : Option String :=
  ((segments path).mapM decode?).map ("/".intercalate ·)

/-- A digit is read back. -/
theorem value?_upperDigit {n : Nat} (h : n < 16) : Hex.value? (Hex.upperDigit n) = some n := by
  revert n
  decide

/-- An encoded byte is read back. -/
theorem octets?_encodeByte (b : UInt8) (rest : List Char) :
    octets? (encodeByte b ++ rest) = (octets? rest).map (b :: ·) := by
  have hb := b.toNat_lt
  have hvalue : 16 * (b.toNat / 16) + b.toNat % 16 = b.toNat := by omega
  rw [encodeByte, List.cons_append, List.cons_append, List.cons_append, List.nil_append, octets?,
    value?_upperDigit (by omega), value?_upperDigit (by omega)]
  simp only [Option.bind_eq_bind, Option.bind_some, hvalue, UInt8.ofNat_toNat]
  cases octets? rest <;> rfl

theorem octets?_flatMap_encodeByte (octets : List UInt8) (rest : List Char) :
    octets? (octets.flatMap encodeByte ++ rest) = (octets? rest).map (octets ++ ·) := by
  induction octets with
  | nil => simp
  | cons b octets ih =>
    rw [List.flatMap_cons, List.append_assoc, octets?_encodeByte, ih, Option.map_map]
    rfl

/-- A character is read back as the bytes of its code. -/
theorem octets?_encodeChar (c : Char) (rest : List Char) :
    octets? (encodeChar c ++ rest) = (octets? rest).map (String.utf8EncodeChar c ++ ·) := by
  rw [encodeChar]
  split
  · rename_i hplain
    rw [List.singleton_append, octets?]
    · rintro high low rest' rfl
      cases hplain
    · rintro rfl
      cases hplain
  · exact octets?_flatMap_encodeByte _ rest

/-- Encoded characters are read back as their bytes. -/
theorem octets?_flatMap_encodeChar (cs : List Char) :
    octets? (cs.flatMap encodeChar) = some (cs.flatMap String.utf8EncodeChar) := by
  induction cs with
  | nil => rfl
  | cons c cs ih =>
    rw [List.flatMap_cons, octets?_encodeChar, ih, List.flatMap_cons, Option.map_some]

/-- An encoded text is read back. -/
theorem decode?_encode (s : String) : decode? (encode s) = some s := by
  rw [decode?, encode, String.toList_ofList, octets?_flatMap_encodeChar, ← bytes_eq,
    Option.bind_some, bytes, Array.toArray_toList]
  exact dif_pos s.isValidUTF8

/-- Encoded texts are decoded one by one. -/
theorem mapM_decode?_encode (texts : List String) :
    (texts.map encode).mapM decode? = some texts := by
  induction texts with
  | nil => rfl
  | cons text texts ih => simp [decode?_encode, ih]

/-- What holds no slash belongs to the first segment. -/
theorem splitOn_append_of_not_mem {cs : List Char} (h : '/' ∉ text) :
    (text ++ cs).splitOn '/' = (cs.splitOn '/').modifyHead (text ++ ·) := by
  induction text with
  | nil => exact (congrFun List.modifyHead_id (cs.splitOn '/')).symm
  | cons c text ih =>
    rw [List.mem_cons, not_or] at h
    rw [List.cons_append, List.splitOn_cons_eq_if_modifyHead, if_neg (by simpa using Ne.symm h.1),
      ih h.2, List.modifyHead_modifyHead]
    rfl

/-- No slash is written for a character. -/
theorem not_mem_encodeChar (c : Char) (hc : c ≠ '/') : '/' ∉ encodeChar c := by
  have hdigit : ¬ IsUpperDigit '/' := by
    unfold IsUpperDigit
    decide
  rw [encodeChar]
  split
  · simpa using Ne.symm hc
  · rw [List.mem_flatMap]
    rintro ⟨b, -, hmem⟩
    simp only [encodeByte, List.mem_cons, List.not_mem_nil, or_false] at hmem
    obtain ⟨hhigh, hlow⟩ := isUpperDigit_halves b
    rcases hmem with hmem | hmem | hmem
    · cases hmem
    · exact hdigit (hmem ▸ hhigh)
    · exact hdigit (hmem ▸ hlow)

/-- An encoded path has the encoded segments of the path. -/
theorem splitOn_encodePath (cs : List Char) :
    (cs.flatMap fun c => if c = '/' then ['/'] else encodeChar c).splitOn '/' =
      (cs.splitOn '/').map (·.flatMap encodeChar) := by
  induction cs with
  | nil => rfl
  | cons c cs ih =>
    rw [List.flatMap_cons, List.splitOn_cons_eq_if_modifyHead]
    by_cases hc : c = '/'
    · simp [hc, List.splitOn_cons_eq_if_modifyHead, ih]
    · rw [if_neg hc, splitOn_append_of_not_mem (not_mem_encodeChar c hc), ih,
        if_neg (by simpa using hc)]
      cases cs.splitOn '/' <;> simp

/-- The segments of an encoded path are the encoded segments. -/
theorem segments_encodePath (path : String) :
    segments (encodePath path) = (segments path).map encode := by
  rw [segments, encodePath, String.toList_ofList, splitOn_encodePath, segments, List.map_map,
    List.map_map]
  refine List.map_congr_left fun segment _ => ?_
  simp [encode]

/-- The segments of a path, with slashes between them, are the path. -/
theorem intercalate_segments (path : String) : "/".intercalate (segments path) = path := by
  rw [← String.toList_inj, String.toList_intercalate, segments, List.map_map]
  have hsame : String.toList ∘ String.ofList = id := by
    funext cs
    exact String.toList_ofList
  rw [hsame, List.map_id]
  exact List.intercalate_splitOn '/'

/-- An encoded path is read back. -/
theorem decodePath?_encodePath (path : String) : decodePath? (encodePath path) = some path := by
  rw [decodePath?, segments_encodePath, mapM_decode?_encode, Option.map_some,
    intercalate_segments]

end ChunkedFile.Text.Percent
