import Mathlib.Data.Int.Order.Basic
import Mathlib.Data.Prod.Lex
import Mathlib.Tactic.SplitIfs
import ChunkedFile.Time.Instant

/-!
# The order of instants

Instants are ordered by date and then by time of day. The rank of an instant is a number that has
the fields for its digits, so it orders instants in the same way, and the latest and the earliest of
two instants are their maximum and minimum.
-/

namespace ChunkedFile.Instant

variable {a b : Instant}

/-- The fields of an instant, in the order in which they tell instants apart. -/
def fields (t : Instant) : ℤ ×ₗ ℕ ×ₗ ℕ ×ₗ ℕ ×ₗ ℕ ×ₗ ℕ ×ₗ ℕ :=
  toLex (t.year, toLex (t.month, toLex (t.day, toLex (t.hour, toLex (t.minute,
    toLex (t.second, t.nano))))))

/-- An instant is told by its fields. -/
theorem fields_injective : Function.Injective fields := by
  intro a b h
  cases a
  cases b
  simp only [fields, toLex_inj, Prod.mk.injEq] at h
  obtain ⟨rfl, rfl, rfl, rfl, rfl, rfl, rfl⟩ := h
  rfl

/-- Instants are ordered in time. -/
instance : LinearOrder Instant := LinearOrder.lift' fields fields_injective

/-- No month has more than thirty-one days. -/
theorem daysInMonth_le (year : Int) (month : Nat) : daysInMonth year month ≤ 31 := by
  unfold daysInMonth
  split_ifs <;> omega

/-- The later of two instants has the greater rank. -/
theorem rank_lt_rank (h : a < b) : a.rank < b.rank := by
  change a.fields < b.fields at h
  simp only [fields, Prod.Lex.toLex_lt_toLex] at h
  -- no digit reaches its base
  have hday := a.day_le.trans (daysInMonth_le a.year a.month)
  have hday' := b.day_le.trans (daysInMonth_le b.year b.month)
  have hmonth := a.month_le
  have hmonth' := b.month_le
  have hhour := a.hour_lt
  have hhour' := b.hour_lt
  have hminute := a.minute_lt
  have hminute' := b.minute_lt
  have hsecond := a.second_lt
  have hsecond' := b.second_lt
  have hnano := a.nano_lt
  have hnano' := b.nano_lt
  unfold rank
  omega

/-- Ranks compare as their instants do. -/
theorem rank_le_rank_iff : a.rank ≤ b.rank ↔ a ≤ b := by
  constructor
  · intro h
    by_contra hlt
    have := rank_lt_rank (lt_of_not_ge hlt)
    omega
  · intro h
    obtain rfl | hlt := eq_or_lt_of_le h
    · exact Int.le_refl _
    · exact Int.le_of_lt (rank_lt_rank hlt)

/-- The latest of two instants is their maximum. -/
theorem latest_eq_max (a b : Instant) : a.latest b = max a b := by
  simp only [latest, rank_le_rank_iff, max_def]

/-- The earliest of two instants is their minimum. -/
theorem earliest_eq_min (a b : Instant) : a.earliest b = min a b := by
  simp only [earliest, rank_le_rank_iff, min_def]

end ChunkedFile.Instant
