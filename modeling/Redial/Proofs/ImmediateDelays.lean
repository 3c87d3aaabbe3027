import Redial.Delay.Backoff
import Redial.Proofs.DoubleRounding

/-!
# Immediate delays

A backoff counts as immediate when its cap is zero, or when its first delay is and the jitter does
not add to it. That leaves the factor out: once a power of the factor is beyond the doubles, nothing
times it is not a number, and the delay falls back to the cap. Before that, and with factors between
minus one and one for ever, the delays are indeed zero.
-/

namespace Redial

namespace Duration

@[simp] lemma toUnits_zero : zero.toUnits = 0 := by decide +kernel

@[simp] lemma ofUnits?_zero : ofUnits? 0 = some zero := by decide +kernel

@[simp] lemma zero_shorter (d : Duration) : zero.shorter d = zero := if_pos (Nat.zero_le _)

@[simp] lemma shorter_zero (d : Duration) : d.shorter zero = zero := by
  unfold shorter
  split
  · rename_i h
    exact ext (Nat.le_zero.mp h)
  · rfl

lemma shorter_le (d cap : Duration) : d.shorter cap ≤ cap := by
  unfold shorter
  split
  · assumption
  · exact Nat.le_refl _

lemma ofMillis_ne_zero {n : Nat} (h : n ≠ 0) : ofMillis n ≠ zero := by
  intro hzero
  have hnanos : min n maxMillis * 1_000_000 = 0 := congrArg nanos hzero
  have hmax : 0 < maxMillis := by decide
  omega

end Duration

namespace Delay

namespace Jitter

variable {jitter : Jitter} {delay floor cap : Duration}

/-- Only the decorrelated jitter makes something out of nothing. -/
lemma spread_zero (h : jitter ≠ .decorrelated) : jitter.spread .zero floor cap = .exactly .zero := by
  cases jitter with
  | none | full | equal => rfl
  | decorrelated => exact absurd rfl h

lemma spread_zero_cap (jitter : Jitter) : jitter.spread .zero .zero .zero = .exactly .zero := by
  cases jitter <;> rfl

/-- A jitter that widens a delay has a draw that is not nothing. -/
lemma spread_eq_zero (hplain : jitter ≠ .decorrelated) :
    (∀ draw, (jitter.spread delay floor cap).pick draw = .zero) ↔
      jitter.spread delay floor cap = .exactly .zero := by
  constructor
  · intro h
    cases jitter with
    | none => exact congrArg Spread.exactly (h 0)
    | full =>
      by_cases hms : delay.millis = 0
      · exact if_pos hms
      · -- The number of milliseconds itself is among the draws.
        have hpick := h delay.millis
        rw [spread, if_neg hms, Spread.pick, Nat.sub_zero,
          Nat.mod_eq_of_lt (Nat.lt_succ_self _)] at hpick
        exact absurd hpick (Duration.ofMillis_ne_zero (by omega))
    | equal =>
      by_cases hhalf : delay.millis / 2 = 0
      · exact if_pos hhalf
      · have hpick := h 0
        rw [spread, if_neg hhalf, Spread.pick] at hpick
        exact absurd hpick (Duration.ofMillis_ne_zero (by omega))
    | decorrelated => exact absurd rfl hplain
  · intro h draw
    rw [h]
    rfl

end Jitter

namespace Backoff

variable {b : Backoff} {retry : Nat}

/-- The power of the factor before retry number `retry` is an ordinary number. -/
def HasFinitePower (b : Backoff) (retry : Nat) : Prop :=
  (b.factor.power (min retry maxExponent)).isFinite = true

instance (b : Backoff) (retry : Nat) : Decidable (b.HasFinitePower retry) :=
  inferInstanceAs (Decidable (_ = true))

lemma first_zero_of_isImmediate (h : b.isImmediate = true) :
    b.cap = .zero ∨ b.first = .zero ∧ b.jitter ≠ .decorrelated := by
  unfold isImmediate at h
  simpa using h

lemma delay_of_base {d : Duration} (h : b.base retry = .ok d) (draw : Nat) :
    b.delay retry draw = .ok ((b.jitter.spread d (b.first.shorter b.cap) b.cap).pick draw) := by
  unfold delay spread
  rw [h]
  rfl

lemma base_of_cap_zero (h : b.cap = .zero) : b.base retry = .ok .zero := by
  unfold base
  rw [h, Duration.toUnits_zero]
  split
  · rfl
  · rfl
  · rename_i units _
    split
    · rfl
    · rename_i hwithin
      have hunits : units = 0 := by
        simp only [Bool.or_eq_true, decide_eq_true_eq, not_or] at hwithin
        omega
      rw [hunits, Duration.ofUnits?_zero]

/-- From nothing at first a delay grows to nothing, or it falls back to the cap. -/
lemma base_of_first_zero (h : b.first = .zero) :
    b.base retry = .ok (if b.HasFinitePower retry then .zero else b.cap) := by
  unfold base growth
  rw [h, Duration.toUnits_zero]
  rcases Binary64.zero_mul false (b.factor.power (min retry maxExponent)) with
    ⟨s, hfinite, hproduct⟩ | ⟨hfinite, hproduct⟩
  · have hpower : b.HasFinitePower retry := hfinite
    rw [hproduct, if_pos hpower]
    simp
  · have hpower : ¬ b.HasFinitePower retry := by
      intro hcontra
      exact Bool.false_ne_true (hfinite.symm.trans hcontra)
    rw [hproduct, if_neg hpower]

/-- A backoff that counts as immediate has delays of zero, except that without an ordinary power of
the factor the cap takes their place. -/
lemma delay_eq_of_isImmediate (h : b.isImmediate = true) (draw : Nat) :
    b.delay retry draw =
      .ok (if b.cap = .zero ∨ b.HasFinitePower retry then .zero
        else (b.jitter.spread b.cap .zero b.cap).pick draw) := by
  by_cases hcap : b.cap = .zero
  · rw [delay_of_base (base_of_cap_zero hcap), hcap, Duration.shorter_zero, Jitter.spread_zero_cap,
      if_pos (Or.inl rfl)]
    rfl
  · obtain ⟨hfirst, hplain⟩ := (first_zero_of_isImmediate h).resolve_left hcap
    rw [delay_of_base (base_of_first_zero hfirst), hfirst, Duration.zero_shorter]
    by_cases hpower : b.HasFinitePower retry
    · rw [if_pos hpower, if_pos (Or.inr hpower), Jitter.spread_zero hplain]
      rfl
    · rw [if_neg hpower, if_neg (not_or.mpr ⟨hcap, hpower⟩)]

/-- A backoff that counts as immediate has delays of zero, except that without an ordinary power of
the factor the cap takes their place. So all delays before a retry are zero just if there is such a
power, or the cap or what the jitter makes of it is zero; and for a factor between minus one and one
the delays are zero before every retry. -/
theorem delay_of_isImmediate (h : b.isImmediate = true) :
    (∀ retry draw, b.delay retry draw =
      .ok (if b.cap = .zero ∨ b.HasFinitePower retry then .zero
        else (b.jitter.spread b.cap .zero b.cap).pick draw)) ∧
    (∀ retry, (∀ draw, b.delay retry draw = .ok .zero) ↔
      b.cap = .zero ∨ b.HasFinitePower retry ∨
        b.jitter.spread b.cap .zero b.cap = .exactly .zero) ∧
    (b.factor.IsAtMostOne → ∀ retry draw, b.delay retry draw = .ok .zero) := by
  refine ⟨fun retry draw => delay_eq_of_isImmediate h draw, fun retry => ?_,
    fun hfactor retry draw => ?_⟩
  · rw [← or_assoc]
    by_cases hzero : b.cap = .zero ∨ b.HasFinitePower retry
    · refine ⟨fun _ => Or.inl hzero, fun _ draw => ?_⟩
      rw [delay_eq_of_isImmediate h, if_pos hzero]
    · obtain ⟨hcap, -⟩ := not_or.mp hzero
      obtain ⟨-, hplain⟩ := (first_zero_of_isImmediate h).resolve_left hcap
      simp only [delay_eq_of_isImmediate h, hzero, if_false, false_or, Except.ok.injEq]
      exact Jitter.spread_eq_zero hplain
  · have hpower : b.HasFinitePower retry := (hfactor.power _).isFinite
    rw [delay_eq_of_isImmediate h, if_pos (Or.inr hpower)]

/-- Doubling a first delay of nothing, which is two to the power of 1024 times nothing before retry
1024. -/
def doublingNothing : Backoff :=
  exponential .zero (.ofMillis 10_000) (.finite false (2 * Binary64.one))

theorem delay_of_isImmediate_doublingNothing :
    doublingNothing.delay 1023 0 = .ok .zero ∧
      doublingNothing.delay 1024 0 = .ok (.ofMillis 10_000) := by
  obtain ⟨hdelay, -, -⟩ := delay_of_isImmediate (b := doublingNothing) (by decide +kernel)
  rw [hdelay, hdelay]
  exact ⟨by decide +kernel, by decide +kernel⟩

/-- Not all delays of a backoff that counts as immediate are zero. -/
theorem not_isImmediate_imp_delay_zero :
    ¬ ∀ b : Backoff, b.isImmediate = true →
      ∀ retry < UInt32.size, ∀ draw, b.delay retry draw = .ok .zero := by
  intro h
  have hzero : doublingNothing.delay 1024 0 = .ok .zero :=
    h doublingNothing (by decide +kernel) 1024 (by decide) 0
  have hcap : doublingNothing.delay 1024 0 = .ok doublingNothing.cap := by decide +kernel
  have heq : doublingNothing.cap = .zero := Except.ok.inj (hcap.symm.trans hzero)
  exact absurd heq (by decide +kernel)

end Backoff

end Delay

end Redial
