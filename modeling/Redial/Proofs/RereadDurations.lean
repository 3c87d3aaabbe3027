import Redial.Delay.Seconds
import Redial.Proofs.NearestDoubles

/-!
# Durations that come back from their doubles

Below 2 ^ 23 seconds a duration comes back from its double as it was. From there on the way through
the doubles can make it longer, by one part in 2 ^ 52 and a nanosecond at most. The last 1024 seconds
of the durations share the double 2 ^ 64 seconds, which is too long for any duration; it is the only
double among those of durations that does not lead back.
-/

namespace Redial.Duration

open Binary64

variable {d cap : Duration}

/-- The units of 2 ^ 64 seconds: the first double that is too long for a duration. -/
def limitUnits : Nat := UInt64.size * one

/-- The whole seconds as a double. -/
def wholeUnits (d : Duration) : Nat := nearest (d.seconds * one) 1

/-- The rest below a second as a double. -/
def partUnits (d : Duration) : Nat := nearest (d.subsecNanos * one) 1_000_000_000

lemma limitUnits_eq : limitUnits = 2 ^ 64 * one := rfl

lemma toUnits_eq (d : Duration) : d.toUnits = nearest (d.wholeUnits + d.partUnits) 1 := rfl

lemma isDouble_toUnits (d : Duration) : IsDouble d.toUnits := isDouble_nearest _ Nat.one_pos

lemma seconds_lt (d : Duration) : d.seconds < UInt64.size :=
  Nat.div_lt_of_lt_mul (by rw [Nat.mul_comm]; exact d.nanos_lt)

lemma subsecNanos_lt (d : Duration) : d.subsecNanos < 1_000_000_000 := Nat.mod_lt _ (by decide)

lemma nanos_eq (d : Duration) : d.nanos = d.seconds * 1_000_000_000 + d.subsecNanos :=
  (Nat.div_add_mod' d.nanos 1_000_000_000).symm

lemma nanos_mul_one (d : Duration) :
    d.nanos * one = 1_000_000_000 * (d.seconds * one) + d.subsecNanos * one := by
  rw [nanos_eq]
  ring

section Rounding

/-- A part of a second is rounded by one part in 2 ^ 54 of a second at most. -/
lemma partUnits_error (d : Duration) :
    2 ^ 54 * (d.partUnits * 1_000_000_000) ≤ 2 ^ 54 * (d.subsecNanos * one) + 1_000_000_000 * one ∧
      2 ^ 54 * (d.subsecNanos * one) ≤
        2 ^ 54 * (d.partUnits * 1_000_000_000) + 1_000_000_000 * one := by
  have herror := nearest_error (n := d.subsecNanos * one) (d := 1_000_000_000) (by decide)
  have hbelow : d.subsecNanos * one / 1_000_000_000 < 2 ^ 0 * one := by
    rw [Nat.div_lt_iff_lt_mul (by decide), Nat.pow_zero, Nat.one_mul one, Nat.mul_comm one]
    exact Nat.mul_lt_mul_of_pos_right d.subsecNanos_lt Binary64.one_pos
  have hstep := spacing_le_of_lt_seconds hbelow
  unfold partUnits
  omega

lemma partUnits_lt (d : Duration) : d.partUnits < one := by
  have herror := d.partUnits_error.1
  have hnanos : d.subsecNanos * one ≤ 999_999_999 * one :=
    Nat.mul_le_mul_right one (Nat.le_of_lt_succ d.subsecNanos_lt)
  have hone := Binary64.one_pos
  omega

lemma wholeUnits_eq (d : Duration) : d.wholeUnits = nearest d.seconds 1 * one :=
  nearest_mul_one d.seconds

/-- Close to 2 ^ 64 the doubles are 2048 apart, and the half-way point counts for 2 ^ 64. -/
lemma nearest_seconds (d : Duration) :
    if UInt64.size - 1024 ≤ d.seconds then nearest d.seconds 1 = UInt64.size
    else nearest d.seconds 1 ≤ UInt64.size - 2048 := by
  have hless := d.seconds_lt
  generalize d.seconds = s at *
  by_cases hlower : s < 2 ^ 63
  · rw [if_neg (by simp only [UInt64.size]; omega)]
    have hdouble : IsDouble (2 ^ 63) := by simpa using isDouble_mul_two_pow (k := 1) (by decide) 63
    have hbound := nearest_le_of_isDouble (n := s) Nat.one_pos hdouble (by omega)
    exact Nat.le_trans hbound (by decide)
  · have hspacing : spacing s = 2 ^ 11 := spacing_of_bounds (Nat.le_of_not_lt hlower) hless
    have hnearest : nearest s 1 = nearestQuotient s 2048 * 2048 := by
      unfold nearest
      rw [Nat.div_one, hspacing]
      rfl
    have hlast := nearestQuotient_le_iff (n := s) (d := 2048) (k := 2 ^ 53 - 1) (by decide)
    have hlimit := nearestQuotient_le_iff (n := s) (d := 2048) (k := 2 ^ 53) (by decide)
    rw [hnearest]
    simp only [UInt64.size] at *
    split <;> omega

/-- The last 1024 seconds of the durations share one double. -/
lemma toUnits_of_long (h : UInt64.size - 1024 ≤ d.seconds) : d.toUnits = limitUnits := by
  have hwhole : d.wholeUnits = limitUnits := by
    have hseconds := d.nearest_seconds
    rw [if_pos h] at hseconds
    rw [wholeUnits_eq, hseconds, limitUnits]
  have hspacing : spacing limitUnits = 2 ^ 12 * one := spacing_two_pow_mul_one 12
  have hpart := d.partUnits_lt
  rw [toUnits_eq, hwhole]
  exact (isDouble_two_pow_mul_one 64).nearest_add (by rw [← limitUnits_eq, hspacing]; omega)

lemma toUnits_lt_of_short (h : d.seconds < UInt64.size - 1024) : d.toUnits < limitUnits := by
  have hseconds := d.nearest_seconds
  rw [if_neg (by omega)] at hseconds
  have hwhole := Nat.mul_le_mul_right one hseconds
  rw [← wholeUnits_eq] at hwhole
  have hpart := d.partUnits_lt
  have herror := (nearest_error (n := d.wholeUnits + d.partUnits) Nat.one_pos).1
  have hbelow : (d.wholeUnits + d.partUnits) / 1 < 2 ^ 64 * one := by
    simp only [UInt64.size] at hwhole
    omega
  have hstep := spacing_le_of_lt_seconds hbelow
  rw [← toUnits_eq] at herror
  simp only [limitUnits, UInt64.size] at *
  omega

lemma toUnits_le (d : Duration) : d.toUnits ≤ limitUnits := by
  rcases Nat.lt_or_ge d.seconds (UInt64.size - 1024) with hshort | hlong
  · exact Nat.le_of_lt (toUnits_lt_of_short hshort)
  · exact Nat.le_of_eq (toUnits_of_long hlong)

lemma toUnits_eq_limitUnits_iff : d.toUnits = limitUnits ↔ UInt64.size - 1024 ≤ d.seconds := by
  refine ⟨fun h => ?_, toUnits_of_long⟩
  by_contra hshort
  exact absurd h (Nat.ne_of_lt (toUnits_lt_of_short (Nat.lt_of_not_le hshort)))

end Rounding

section Back

variable {units : Nat}

lemma nanos_of_ofUnits? (h : ofUnits? units = some d) :
    d.nanos = nearestQuotient (units * 1_000_000_000) one := by
  unfold ofUnits? at h
  dsimp only at h
  split at h
  · rw [← Option.some.inj h]
  · exact absurd h (by simp)

lemma ofUnits?_mono {longer : Nat} {e : Duration} (h : units ≤ longer)
    (hd : ofUnits? units = some d) (he : ofUnits? longer = some e) : d ≤ e := by
  rw [le_def, nanos_of_ofUnits? hd, nanos_of_ofUnits? he]
  exact nearestQuotient_mono Binary64.one_pos (Nat.mul_le_mul_right _ h)

/-- Each double below 2 ^ 64 seconds leads back to a duration. -/
lemma ofUnits?_eq_none_iff (h : IsDouble units) : ofUnits? units = none ↔ limitUnits ≤ units := by
  have hnone : ofUnits? units = none ↔
      UInt64.size * 1_000_000_000 ≤ nearestQuotient (units * 1_000_000_000) one := by
    unfold ofUnits?
    dsimp only
    split <;> simp <;> omega
  rw [hnone]
  constructor
  · intro hlong
    by_contra hshort
    have hgap := h.add_le_seconds (k := 64) (by rw [← limitUnits_eq]; omega)
    have hbelow :
        nearestQuotient (units * 1_000_000_000) one ≤ UInt64.size * 1_000_000_000 - 1 := by
      rw [nearestQuotient_le_iff Binary64.one_pos]
      left
      have hone := Binary64.one_pos
      simp only [UInt64.size]
      omega
    have hpositive : 0 < UInt64.size := by decide
    omega
  · intro hlong
    have hmono := nearestQuotient_mono Binary64.one_pos (Nat.mul_le_mul_right 1_000_000_000 hlong)
    rwa [limitUnits, Nat.mul_right_comm, nearestQuotient_mul Binary64.one_pos] at hmono

/-- Below 2 ^ 23 seconds the doubles lie so close that a duration comes back from its own. -/
lemma ofUnits?_toUnits (h : d.seconds < 2 ^ 23) : ofUnits? d.toUnits = some d := by
  have hwhole : d.wholeUnits = d.seconds * one := (isDouble_mul_one (by omega)).nearest_one
  have hseconds := Nat.mul_le_mul_right one (Nat.le_sub_one_of_lt h)
  have hpart := d.partUnits_error
  have hsum := nearest_error (n := d.wholeUnits + d.partUnits) Nat.one_pos
  have hbelow : (d.wholeUnits + d.partUnits) / 1 < 2 ^ 23 * one := by
    have hlt := d.partUnits_lt
    rw [Nat.div_one, hwhole]
    omega
  have hstep := spacing_le_of_lt_seconds hbelow
  have hnanos : nearestQuotient (d.toUnits * 1_000_000_000) one = d.nanos := by
    -- The part of a second and the sum are rounded by less than half a nanosecond together.
    rw [← toUnits_eq] at hsum
    apply nearestQuotient_eq <;> rw [nanos_mul_one] <;> omega
  unfold ofUnits?
  simp only [hnanos, d.nanos_lt, dif_pos]

end Back

/-- A duration as it comes back from its double; one whose double is too long stays as it is. -/
def reread (d : Duration) : Duration := (ofUnits? d.toUnits).getD d

lemma reread_of_short (h : d.seconds < 2 ^ 23) : d.reread = d := by
  rw [reread, ofUnits?_toUnits h, Option.getD_some]

/-- The way through the doubles makes a duration longer by one part in 2 ^ 52 and a nanosecond at
most. -/
lemma reread_le (d : Duration) :
    2 ^ 52 * d.reread.nanos ≤ (2 ^ 52 + 1) * d.nanos + 2 ^ 52 := by
  unfold reread
  cases hback : ofUnits? d.toUnits with
  | none =>
    rw [Option.getD_none]
    omega
  | some back =>
    -- Three roundings lead there and one leads back; the excess is counted in units of 2 ^ -1074
    -- seconds until the end.
    have hlimit := Nat.mul_le_mul_right one (Nat.le_of_lt d.nanos_lt)
    have hwhole : 2 ^ 53 * d.wholeUnits ≤ (2 ^ 53 + 1) * (d.seconds * one) := by
      rw [wholeUnits_eq, ← Nat.mul_assoc, ← Nat.mul_assoc]
      exact Nat.mul_le_mul_right one (nearest_one_le d.seconds)
    have hpart := d.partUnits_error.1
    have hsum := nearest_one_le (d.wholeUnits + d.partUnits)
    rw [← toUnits_eq] at hsum
    have hnanos := (nearestQuotient_error (n := d.toUnits * 1_000_000_000) Binary64.one_pos).1
    rw [Option.getD_some, nanos_of_ofUnits? hback]
    apply Nat.le_of_mul_le_mul_right _ Binary64.one_pos
    simp only [UInt64.size] at hlimit
    rw [Nat.add_mul, Nat.mul_assoc, Nat.mul_assoc, nanos_mul_one] at *
    omega

/-- Doubles up to that of a duration lead back to what the duration itself comes back as at most. -/
lemma le_reread {units : Nat} (hdouble : IsDouble units) (hunits : units ≤ cap.toUnits)
    (h : ofUnits? units = some d) : d ≤ cap.reread := by
  unfold reread
  cases hback : ofUnits? cap.toUnits with
  | some back => exact ofUnits?_mono hunits h hback
  | none =>
    -- The cap is among the last durations, and every double that leads back is far below them.
    have hlimit := (ofUnits?_eq_none_iff cap.isDouble_toUnits).mp hback
    have hlong := toUnits_eq_limitUnits_iff.mp (Nat.le_antisymm cap.toUnits_le hlimit)
    have hless : units < limitUnits := by
      by_contra hcontra
      have hnone := (ofUnits?_eq_none_iff hdouble).mpr (Nat.le_of_not_lt hcontra)
      exact absurd (hnone.symm.trans h) (by simp)
    have hgap := hdouble.add_le_seconds (k := 64) hless
    have hnanos : d.nanos ≤ (UInt64.size - 2048) * 1_000_000_000 := by
      rw [nanos_of_ofUnits? h]
      apply nearestQuotient_le Binary64.one_pos
      simp only [UInt64.size]
      omega
    rw [Option.getD_none, le_def, nanos_eq cap]
    simp only [UInt64.size] at *
    omega

end Redial.Duration
