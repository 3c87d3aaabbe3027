import Redial.Proofs.DoubleRounding

/-!
# The nearest double

Doubles as counts of units that are whole multiples of their spacing. Rounding ends at a double,
leaves doubles where they are and moves by half the distance of the neighbours at most. Whole seconds
are rounded among whole seconds, and what does not lead half-way to the next double is lost.
-/

namespace Redial.Binary64

lemma nearestQuotient_mono {n m d : Nat} (hd : 0 < d) (h : n ≤ m) :
    nearestQuotient n d ≤ nearestQuotient m d := by
  have hm := (nearestQuotient_le_iff hd).mp (Nat.le_refl (nearestQuotient m d))
  rw [nearestQuotient_le_iff hd]
  omega

lemma nearestQuotient_mul {k d : Nat} (hd : 0 < d) : nearestQuotient (k * d) d = k := by
  unfold nearestQuotient
  simp [hd]

lemma nearestQuotient_mul_right {n d c : Nat} (hc : 0 < c) :
    nearestQuotient (n * c) (d * c) = nearestQuotient n d := by
  have hscale : ∀ a b : Nat, (2 * (a * c) < b * c ↔ 2 * a < b) ∧ (b * c < 2 * (a * c) ↔ b < 2 * a) := by
    intro a b
    rw [← Nat.mul_assoc]
    exact ⟨Nat.mul_lt_mul_right hc, Nat.mul_lt_mul_right hc⟩
  unfold nearestQuotient
  simp only [Nat.mul_div_mul_right _ _ hc, Nat.mul_mod_mul_right, hscale]

/-- Rounding to a whole number moves by a half at most. -/
lemma nearestQuotient_error {n d : Nat} (hd : 0 < d) :
    2 * (nearestQuotient n d * d) ≤ 2 * n + d ∧ 2 * n ≤ 2 * (nearestQuotient n d * d) + d := by
  generalize hk : nearestQuotient n d = k
  constructor
  · cases k with
    | zero => omega
    | succ k =>
      have hpast : ¬ nearestQuotient n d ≤ k := by omega
      rw [nearestQuotient_le_iff hd] at hpast
      have hmiddle : 2 * ((k + 1) * d) = (2 * k + 1) * d + d := by ring
      omega
  · have hupto := (nearestQuotient_le_iff hd).mp (Nat.le_of_eq hk)
    have hmiddle : (2 * k + 1) * d = 2 * (k * d) + d := by ring
    omega

/-- A whole number less than a half away is the nearest one. -/
lemma nearestQuotient_eq {n d k : Nat} (hlow : 2 * (k * d) < 2 * n + d)
    (hhigh : 2 * n < 2 * (k * d) + d) : nearestQuotient n d = k := by
  obtain ⟨habove, hbelow⟩ := nearestQuotient_error (n := n) (d := d) (by omega)
  have hupper : nearestQuotient n d * d < (k + 1) * d := by
    rw [Nat.succ_mul]
    omega
  have hlower : k * d < (nearestQuotient n d + 1) * d := by
    rw [Nat.succ_mul]
    omega
  exact Nat.le_antisymm (Nat.le_of_lt_succ (Nat.lt_of_mul_lt_mul_right hupper))
    (Nat.le_of_lt_succ (Nat.lt_of_mul_lt_mul_right hlower))

section Spacing

variable {units e k : Nat}

lemma lt_spacing (units : Nat) : units < 2 ^ 53 * spacing units := by
  rw [spacing_eq, ← Nat.pow_add]
  exact Nat.lt_of_lt_of_le Nat.lt_log2_self (Nat.pow_le_pow_right (by decide) (by omega))

lemma spacing_dvd_two_pow (h : units < 2 ^ (e + 53)) : spacing units ∣ 2 ^ e := by
  rw [spacing_eq]
  apply Nat.pow_dvd_pow
  by_cases hzero : units = 0
  · simp [hzero]
  · have hlog := (Nat.log2_lt hzero).mpr h
    omega

/-- Between two powers of two the doubles are evenly spread. -/
lemma spacing_of_bounds (hlow : 2 ^ (e + 52) ≤ units) (hhigh : units < 2 ^ (e + 53)) :
    spacing units = 2 ^ e := by
  have hne : units ≠ 0 := Nat.ne_of_gt (Nat.lt_of_lt_of_le (Nat.two_pow_pos _) hlow)
  have hlog : units.log2 = e + 52 := (Nat.log2_eq_iff hne).mpr ⟨hlow, hhigh⟩
  rw [spacing_eq, hlog, Nat.add_sub_cancel]

lemma spacing_mul_two_pow (h : 2 ^ 52 ≤ units) (k : Nat) :
    spacing (units * 2 ^ k) = spacing units * 2 ^ k := by
  have hne : units ≠ 0 := Nat.ne_of_gt (Nat.lt_of_lt_of_le (Nat.two_pow_pos 52) h)
  obtain ⟨e, he⟩ : ∃ e, units.log2 = e + 52 :=
    ⟨units.log2 - 52, (Nat.sub_add_cancel ((Nat.le_log2 hne).mpr h)).symm⟩
  have hbounds : 2 ^ (e + 52) ≤ units ∧ units < 2 ^ (e + 53) := (Nat.log2_eq_iff hne).mp he
  rw [spacing_of_bounds hbounds.1 hbounds.2, ← Nat.pow_add]
  apply spacing_of_bounds
  · rw [Nat.add_right_comm, Nat.pow_add]
    exact Nat.mul_le_mul_right _ hbounds.1
  · rw [Nat.add_right_comm, Nat.pow_add]
    exact Nat.mul_lt_mul_of_pos_right hbounds.2 (Nat.two_pow_pos k)

/-- The neighbours of a value are one part in 2 ^ 52 of it away, or a single unit. -/
lemma spacing_le (units : Nat) : spacing units = 1 ∨ 2 ^ 52 * spacing units ≤ units := by
  by_cases hsmall : units.log2 ≤ 52
  · left
    rw [spacing_eq, Nat.sub_eq_zero_of_le hsmall, Nat.pow_zero]
  · right
    have hne : units ≠ 0 := by
      rintro rfl
      exact hsmall (by decide)
    calc 2 ^ 52 * spacing units = 2 ^ units.log2 := by
          rw [spacing_eq, ← Nat.pow_add]
          congr 1
          omega
      _ ≤ units := Nat.log2_self_le hne

end Spacing

/-- A count of units that is a double, as if the exponent had no upper end. -/
def IsDouble (units : Nat) : Prop := spacing units ∣ units

section Nearest

variable {units n d e k : Nat}

lemma isDouble_mul_two_pow (hk : k ≤ 2 ^ 53) (e : Nat) : IsDouble (k * 2 ^ e) := by
  rcases Nat.lt_or_eq_of_le hk with hless | rfl
  · refine Nat.dvd_trans (spacing_dvd_two_pow ?_) (Nat.dvd_mul_left _ _)
    rw [Nat.add_comm, Nat.pow_add]
    exact Nat.mul_lt_mul_of_pos_right hless (Nat.two_pow_pos e)
  · have hstep : spacing (2 ^ 53 * 2 ^ e) ∣ 2 ^ (e + 1) := by
      apply spacing_dvd_two_pow
      rw [← Nat.pow_add]
      exact Nat.pow_lt_pow_right (by decide) (by omega)
    refine Nat.dvd_trans hstep ?_
    rw [← Nat.pow_add]
    exact Nat.pow_dvd_pow 2 (by omega)

/-- Rounding ends at a double. -/
lemma isDouble_nearest (n : Nat) (hd : 0 < d) : IsDouble (nearest n d) := by
  have hupto : nearestQuotient n (d * spacing (n / d)) ≤ 2 ^ 53 := by
    apply nearestQuotient_le (Nat.mul_pos hd (spacing_pos _))
    have hless := lt_spacing (n / d)
    rw [Nat.div_lt_iff_lt_mul hd] at hless
    calc n ≤ 2 ^ 53 * spacing (n / d) * d := Nat.le_of_lt hless
      _ = 2 ^ 53 * (d * spacing (n / d)) := by ring
  unfold nearest
  dsimp only
  generalize nearestQuotient n (d * spacing (n / d)) = steps at *
  rw [spacing_eq]
  exact isDouble_mul_two_pow hupto _

lemma nearest_le_of_isDouble {bound : Nat} (hd : 0 < d) (hbound : IsDouble bound)
    (h : n ≤ bound * d) : nearest n d ≤ bound := by
  have hquotient : n / d ≤ bound := Nat.div_le_of_le_mul (by rwa [Nat.mul_comm] at h)
  exact nearest_le hd (Nat.dvd_trans (spacing_dvd_spacing hquotient) hbound) h

/-- Rounding to a double moves by half the distance of its neighbours at most. -/
lemma nearest_error (hd : 0 < d) :
    2 * (nearest n d * d) ≤ 2 * n + d * spacing (n / d) ∧
      2 * n ≤ 2 * (nearest n d * d) + d * spacing (n / d) := by
  have herror := nearestQuotient_error (n := n) (Nat.mul_pos hd (spacing_pos (n / d)))
  have hunits : nearest n d * d =
      nearestQuotient n (d * spacing (n / d)) * (d * spacing (n / d)) := by
    unfold nearest
    dsimp only
    ring
  rwa [hunits]

namespace IsDouble

lemma nearest_mul (h : IsDouble units) (hd : 0 < d) : nearest (units * d) d = units := by
  obtain ⟨steps, hsteps⟩ := h
  have hmultiple : units * d = steps * (d * spacing units) := by
    calc units * d = spacing units * steps * d := by rw [← hsteps]
      _ = steps * (d * spacing units) := by ring
  unfold nearest
  dsimp only
  rw [Nat.mul_div_cancel _ hd, hmultiple, nearestQuotient_mul (Nat.mul_pos hd (spacing_pos _)),
    Nat.mul_comm, ← hsteps]

lemma nearest_one (h : IsDouble units) : nearest units 1 = units := by
  simpa using h.nearest_mul Nat.one_pos

/-- No double lies between the last one below a power of two and that power. -/
lemma add_le_two_pow (h : IsDouble units) (hless : units < 2 ^ (e + 53)) :
    units + 2 ^ e ≤ 2 ^ (e + 53) := by
  by_cases hlower : units < 2 ^ (e + 52)
  · have hpow : (2 : Nat) ^ (e + 53) = 2 * 2 ^ (e + 52) := by ring
    have hstep : (2 : Nat) ^ e ≤ 2 ^ (e + 52) := Nat.pow_le_pow_right (by decide) (by omega)
    omega
  · have hspacing := spacing_of_bounds (Nat.le_of_not_lt hlower) hless
    obtain ⟨steps, rfl⟩ : 2 ^ e ∣ units := by rwa [IsDouble, hspacing] at h
    rw [Nat.pow_add] at hless ⊢
    have hsteps : steps + 1 ≤ 2 ^ 53 := Nat.lt_of_mul_lt_mul_left hless
    calc 2 ^ e * steps + 2 ^ e = 2 ^ e * (steps + 1) := by ring
      _ ≤ 2 ^ e * 2 ^ 53 := Nat.mul_le_mul_left _ hsteps

/-- What does not lead half-way to the next double is lost. -/
lemma nearest_add {extra : Nat} (h : IsDouble units) (hextra : 2 * extra < spacing units) :
    nearest (units + extra) 1 = units := by
  by_cases hzero : extra = 0
  · rw [hzero]
    exact h.nearest_one
  · have hlow := (spacing_le units).resolve_left (by omega)
    have hne : units ≠ 0 := by
      rintro rfl
      exact absurd hextra (by rw [spacing_eq]; omega)
    have hlog : 52 ≤ units.log2 :=
      (Nat.le_log2 hne).mpr (Nat.le_trans (Nat.le_mul_of_pos_right _ (spacing_pos units)) hlow)
    obtain ⟨e, he⟩ : ∃ e, units.log2 = e + 52 := ⟨units.log2 - 52, by omega⟩
    have hbounds : 2 ^ (e + 52) ≤ units ∧ units < 2 ^ (e + 53) := (Nat.log2_eq_iff hne).mp he
    have hspacing := spacing_of_bounds hbounds.1 hbounds.2
    have hnext := h.add_le_two_pow hbounds.2
    -- The sum stays below the next power of two, so the spacing there is the same.
    have hsame : spacing (units + extra) = 2 ^ e :=
      spacing_of_bounds (Nat.le_add_right_of_le hbounds.1) (by omega)
    obtain ⟨steps, hsteps⟩ := h
    rw [hspacing] at hsteps hextra
    have hquotient : nearestQuotient (units + extra) (2 ^ e) = steps := by
      rw [Nat.mul_comm] at hsteps
      apply nearestQuotient_eq <;> omega
    unfold nearest
    dsimp only
    rw [Nat.div_one, hsame, Nat.one_mul, hquotient, Nat.mul_comm, hsteps]

end IsDouble

/-- A whole number is rounded up by one part in 2 ^ 53 at most. -/
lemma nearest_one_le (n : Nat) : 2 ^ 53 * nearest n 1 ≤ (2 ^ 53 + 1) * n := by
  have herror := (nearest_error (n := n) Nat.one_pos).1
  rw [Nat.div_one] at herror
  rcases spacing_le n with hsmall | hstep
  · have hn : IsDouble n := by
      rw [IsDouble, hsmall]
      exact Nat.one_dvd n
    rw [hn.nearest_one]
    omega
  · omega

lemma isDouble_of_ofQuotient {s t : Bool} (hd : 0 < d) (h : ofQuotient s n d = finite t units) :
    IsDouble units := by
  unfold ofQuotient at h
  dsimp only at h
  split at h
  · obtain ⟨-, rfl⟩ := finite.inj h
    exact isDouble_nearest n hd
  · exact absurd h (by simp)

/-- A product that is an ordinary number is a double. -/
lemma isDouble_of_mul {a b : Binary64} {s : Bool} (h : a * b = finite s units) :
    IsDouble units := by
  rw [mul_def] at h
  cases a with
  | nan => exact absurd h (by simp [mul])
  | infinite sa =>
    cases b with
    | nan | infinite sb => exact absurd h (by simp [mul])
    | finite sb m =>
      have hnone : mul (infinite sa) (finite sb m) ≠ finite s units := by
        rw [mul]
        split <;> simp
      exact absurd h hnone
  | finite sa m =>
    cases b with
    | nan => exact absurd h (by simp [mul])
    | infinite sb =>
      have hnone : mul (finite sa m) (infinite sb) ≠ finite s units := by
        rw [mul]
        split <;> simp
      exact absurd h hnone
    | finite sb m' => exact isDouble_of_ofQuotient one_pos h

end Nearest

section Seconds

variable {units n k : Nat}

lemma one_eq : one = 2 ^ 1074 := by decide +kernel

lemma isDouble_mul_one (hk : k ≤ 2 ^ 53) : IsDouble (k * one) := by
  rw [one_eq]
  exact isDouble_mul_two_pow hk 1074

lemma isDouble_two_pow_mul_one (k : Nat) : IsDouble (2 ^ k * one) := by
  rw [one_eq, ← Nat.pow_add]
  simpa using isDouble_mul_two_pow (k := 1) (by decide) (k + 1074)

lemma spacing_two_pow_mul_one (k : Nat) : spacing (2 ^ (k + 52) * one) = 2 ^ k * one := by
  rw [one_eq, ← Nat.pow_add, ← Nat.pow_add, spacing_eq, Nat.log2_two_pow]
  congr 1

lemma two_pow_mul_one (k : Nat) : 2 ^ k * one = 2 ^ (k + 1021 + 53) := by
  rw [one_eq, ← Nat.pow_add]

/-- Below 2 ^ k seconds the doubles are one part in 2 ^ 53 of that apart. -/
lemma spacing_le_of_lt_seconds (h : units < 2 ^ k * one) :
    2 ^ 53 * spacing units ≤ 2 ^ k * one := by
  rw [two_pow_mul_one] at h ⊢
  rw [Nat.pow_add 2 (k + 1021) 53, Nat.mul_comm (2 ^ 53)]
  exact Nat.mul_le_mul_right _ (Nat.le_of_dvd (Nat.two_pow_pos _) (spacing_dvd_two_pow h))

/-- The last double below 2 ^ k seconds leaves one part in 2 ^ 53 of them. -/
lemma IsDouble.add_le_seconds (h : IsDouble units) (hless : units < 2 ^ k * one) :
    2 ^ 53 * units + 2 ^ k * one ≤ 2 ^ 53 * (2 ^ k * one) := by
  rw [two_pow_mul_one] at hless ⊢
  have hgap := Nat.mul_le_mul_left (2 ^ 53) (h.add_le_two_pow hless)
  rw [Nat.mul_add, ← Nat.pow_add, Nat.add_comm 53] at hgap
  exact hgap

/-- Whole seconds are rounded among whole seconds. -/
lemma nearest_mul_one (n : Nat) : nearest (n * one) 1 = nearest n 1 * one := by
  by_cases hsmall : n ≤ 2 ^ 53
  · have hn : IsDouble n := by simpa using isDouble_mul_two_pow hsmall 0
    rw [(isDouble_mul_one hsmall).nearest_one, hn.nearest_one]
  · have hspacing : spacing (n * one) = spacing n * one := by
      rw [one_eq]
      exact spacing_mul_two_pow (by omega) 1074
    unfold nearest
    dsimp only
    rw [Nat.div_one, Nat.div_one, hspacing, Nat.one_mul, Nat.one_mul,
      nearestQuotient_mul_right one_pos, Nat.mul_assoc]

end Seconds

end Redial.Binary64
