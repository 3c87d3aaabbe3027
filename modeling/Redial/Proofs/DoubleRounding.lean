import Mathlib.Data.Nat.Log
import Mathlib.Tactic.Ring
import Redial.Binary64

/-!
# Rounding to doubles

Rounding goes to the nearest double, so it does not lead past a double that bounds the exact result.
What decides is the middle between two neighbours. Doubles of at most one keep their powers at most
one.
-/

namespace Redial.Binary64

/-- An ordinary number. -/
def isFinite : Binary64 → Bool
  | finite _ _ => true
  | nan | infinite _ => false

/-- An ordinary number from minus one to one. -/
def IsAtMostOne : Binary64 → Prop
  | finite _ units => units ≤ one
  | nan | infinite _ => False

lemma one_pos : 0 < one := by decide +kernel

lemma one_lt_overflow : one < overflow := by decide +kernel

lemma spacing_eq (units : Nat) : spacing units = 2 ^ (units.log2 - 52) := by
  unfold spacing
  rw [Nat.shiftLeft_eq, Nat.one_mul]

lemma spacing_pos (units : Nat) : 0 < spacing units := by
  rw [spacing_eq]
  exact Nat.two_pow_pos _

lemma spacing_dvd_spacing {m n : Nat} (h : m ≤ n) : spacing m ∣ spacing n := by
  have hlog : m.log2 ≤ n.log2 := by
    rw [Nat.log2_eq_log_two, Nat.log2_eq_log_two]
    exact Nat.log_mono_right h
  rw [spacing_eq, spacing_eq]
  exact Nat.pow_dvd_pow 2 (by omega)

/-- The doubles around a value below one lie so close that one is among them. -/
lemma spacing_dvd_one {units : Nat} (h : units ≤ one) : spacing units ∣ one :=
  Nat.dvd_trans (spacing_dvd_spacing h) (by decide +kernel)

/-- The nearest whole number stays up to `k` just if the quotient does not pass the middle between
`k` and its successor, the middle itself counting for the even one. -/
lemma nearestQuotient_le_iff {n d k : Nat} (hd : 0 < d) :
    nearestQuotient n d ≤ k ↔
      2 * n < (2 * k + 1) * d ∨ 2 * n = (2 * k + 1) * d ∧ k % 2 = 0 := by
  have hexact : d * (n / d) + n % d = n := Nat.div_add_mod n d
  have hrest : n % d < d := Nat.mod_lt n hd
  have hmiddle : (2 * k + 1) * d = 2 * (d * k) + d := by ring
  rw [hmiddle]
  unfold nearestQuotient
  dsimp only
  generalize n / d = q at *
  generalize n % d = r at *
  rcases Nat.lt_trichotomy k q with hless | rfl | hmore
  · have hgap : d * (k + 1) ≤ d * q := Nat.mul_le_mul_left d hless
    rw [Nat.mul_add] at hgap
    split_ifs <;> omega
  · split_ifs <;> omega
  · have hgap : d * (q + 1) ≤ d * k := Nat.mul_le_mul_left d hmore
    rw [Nat.mul_add] at hgap
    split_ifs <;> omega

/-- A whole number that bounds a quotient bounds the nearest whole number too. -/
lemma nearestQuotient_le {n d k : Nat} (hd : 0 < d) (h : n ≤ k * d) : nearestQuotient n d ≤ k := by
  rw [nearestQuotient_le_iff hd, Nat.add_mul, Nat.mul_assoc]
  omega

lemma nearest_le {n d bound : Nat} (hd : 0 < d) (hbound : spacing (n / d) ∣ bound)
    (h : n ≤ bound * d) : nearest n d ≤ bound := by
  obtain ⟨k, rfl⟩ := hbound
  have hstep := spacing_pos (n / d)
  have hk : n ≤ k * (d * spacing (n / d)) := by
    calc n ≤ spacing (n / d) * k * d := h
      _ = k * (d * spacing (n / d)) := by
        rw [Nat.mul_comm (spacing _), Nat.mul_assoc, Nat.mul_comm (spacing _)]
  have hrounded := nearestQuotient_le (Nat.mul_pos hd hstep) hk
  unfold nearest
  rw [Nat.mul_comm _ k]
  exact Nat.mul_le_mul_right _ hrounded

@[simp] lemma nearestQuotient_zero (d : Nat) : nearestQuotient 0 d = 0 := by
  unfold nearestQuotient
  simp

@[simp] lemma nearest_zero (d : Nat) : nearest 0 d = 0 := by
  unfold nearest
  simp

lemma mul_def (a b : Binary64) : a * b = mul a b := rfl

/-- Nothing times an ordinary number is nothing, and otherwise it is not a number. -/
lemma zero_mul (negative : Bool) (b : Binary64) :
    (∃ s, b.isFinite = true ∧ finite negative 0 * b = finite s 0) ∨
      b.isFinite = false ∧ finite negative 0 * b = nan := by
  cases b with
  | nan => exact Or.inr ⟨rfl, rfl⟩
  | infinite t => exact Or.inr ⟨rfl, rfl⟩
  | finite t n =>
    refine Or.inl ⟨negative != t, rfl, ?_⟩
    rw [mul_def, mul, ofQuotient, Nat.zero_mul, nearest_zero]
    exact if_pos (Nat.zero_lt_of_lt one_lt_overflow)

namespace IsAtMostOne

variable {a b : Binary64}

lemma isFinite (h : a.IsAtMostOne) : a.isFinite = true := by
  cases a with
  | finite => rfl
  | nan | infinite => exact h.elim

lemma mul (ha : a.IsAtMostOne) (hb : b.IsAtMostOne) : (a * b).IsAtMostOne := by
  cases a with
  | nan | infinite => exact ha.elim
  | finite s m =>
    cases b with
    | nan | infinite => exact hb.elim
    | finite t n =>
      have hprod : m * n ≤ one * one := Nat.mul_le_mul ha hb
      have hunits : m * n / one ≤ one := Nat.div_le_of_le_mul hprod
      have hle : nearest (m * n) one ≤ one := nearest_le one_pos (spacing_dvd_one hunits) hprod
      rw [mul_def, Binary64.mul, ofQuotient, if_pos (Nat.lt_of_le_of_lt hle one_lt_overflow)]
      exact hle

lemma powerFrom (hbase : a.IsAtMostOne) (hresult : b.IsAtMostOne) (bits exponent : Nat) :
    (Binary64.powerFrom bits a exponent b).IsAtMostOne := by
  induction bits generalizing a b exponent with
  | zero => exact hresult
  | succ bits ih =>
    have hnext : (if exponent % 2 = 1 then b * a else b).IsAtMostOne := by
      split
      · exact hresult.mul hbase
      · exact hresult
    unfold Binary64.powerFrom
    dsimp only
    split
    · exact hnext
    · exact ih (hbase.mul hbase) hnext _

lemma power (h : a.IsAtMostOne) (exponent : Nat) : (a.power exponent).IsAtMostOne := by
  have hone : (finite false one).IsAtMostOne := Nat.le_refl one
  exact h.powerFrom hone _ _

end IsAtMostOne

end Redial.Binary64
