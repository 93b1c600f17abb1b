import ChunkedFile.Error
import ChunkedFile.Text.Trim

/-!
# Byte ranges

The stretch of a file that a reader asks for: a start, and a length unless it runs to the end. A
range is given as two numbers, of which a negative length means no length, or as the text of an
HTTP range header with one inclusive pair of positions.
-/

namespace ChunkedFile

/-- A requested stretch of a file. -/
structure ByteRange where
  /-- The offset of the first byte. -/
  start : UInt64
  /-- The number of bytes, or `none` for all that follow. -/
  length : Option UInt64
  deriving DecidableEq, Repr

namespace ByteRange

/-- The range that covers a file of any size. -/
def full : ByteRange := ⟨0, none⟩

/-- The range of a start and a length, numbers of 64 bits with a sign. -/
def ofSigned (start length : Int) : Except Error ByteRange :=
  if start < 0 then .error (.range (.negativeStart start))
  else .ok {
    start := UInt64.ofNat start.toNat
    length := if length < 0 then none else some (UInt64.ofNat length.toNat) }

/-- The range from the first to the last position, both included. -/
def inclusive (first last : UInt64) : Except Error ByteRange :=
  if last < first then .error (.range (.reversed first.toNat last.toNat))
  else .ok ⟨first, some (UInt64.ofNat (Size.add (last.toNat - first.toNat) 1))⟩

/-- The range that a header such as `bytes=0-499` or `bytes=500-` asks for. -/
def ofHeader (header : String) : Except Error ByteRange :=
  let text := Text.trimBlanks header.toList
  match Text.afterStart? "bytes=".toList text with
  | none => .error (.parse (.rangeUnit (String.ofList text)))
  | some range =>
    match Text.splitFirst? '-' range with
    | none => .error (.parse (.rangeForm (String.ofList range)))
    | some (first, last) =>
      match Text.readSize (Text.trimBlanks first) with
      | .error fault => .error (.parse (.rangeStart fault))
      | .ok first =>
        let last := Text.trimBlanks last
        if last.isEmpty then .ok ⟨first, none⟩
        else
          match Text.readSize last with
          | .error fault => .error (.parse (.rangeLast fault))
          | .ok last => inclusive first last

/-- The number of bytes that a file of the given size has in the range. -/
def effectiveLength (range : ByteRange) (size : Nat) : Nat :=
  let available := size - range.start.toNat
  match range.length with
  | some length => min length.toNat available
  | none => available

end ByteRange

end ChunkedFile
