import Mathlib.Tactic.Lemma
import Redial.Delay.Jitter

/-!
# The ranges of jittered delays

Jitter counts in whole milliseconds and cuts off what is below one. So it never exceeds what a delay,
a cap or a floor allow, and it never draws from an empty range. At the lower ends the cut shows: half
of a delay is reached by every draw just if the delay is an even number of milliseconds, and the
floor just if it is a whole number of them or there is no room above it.
-/

namespace Redial

namespace Duration

variable {d : Duration} {m n : Nat}

lemma nanos_ofMillis (h : n ≤ maxMillis) : (ofMillis n).nanos = n * 1_000_000 := by
  show min n maxMillis * 1_000_000 = n * 1_000_000
  rw [Nat.min_eq_left h]

lemma ofMillis_mono (h : m ≤ n) : ofMillis m ≤ ofMillis n := by
  show min m maxMillis * 1_000_000 ≤ min n maxMillis * 1_000_000
  omega

lemma millis_le_maxMillis (d : Duration) : d.millis ≤ maxMillis := Nat.min_le_right _ _

lemma ofMillis_millis_le (d : Duration) : ofMillis d.millis ≤ d := by
  rw [le_def, nanos_ofMillis d.millis_le_maxMillis]
  unfold millis
  omega

lemma ofMillis_le (h : n ≤ d.millis) : ofMillis n ≤ d :=
  Nat.le_trans (ofMillis_mono h) d.ofMillis_millis_le

/-- What is cut off lies below a millisecond, as long as the count does not saturate. -/
lemma lt_ofMillis_millis (h : d.millis < maxMillis) :
    d.nanos < (ofMillis d.millis).nanos + 1_000_000 := by
  rw [nanos_ofMillis (Nat.le_of_lt h)]
  unfold millis at *
  omega

end Duration

namespace Delay

namespace Spread

/-- A range of 64-bit words: it is not empty, and no sum of its low end and what is drawn above it
overflows. -/
def IsDrawable : Spread → Prop
  | exactly _ => True
  | uniform low high =>
    low ≤ high ∧ ∀ extra ≤ high - low, (UInt64.ofNat low + UInt64.ofNat extra).toNat = low + extra

lemma isDrawable_uniform {low high : Nat} (h : low ≤ high) (hword : high ≤ Duration.maxMillis) :
    (uniform low high).IsDrawable := by
  refine ⟨h, fun extra hextra => ?_⟩
  have hsum : low + extra < UInt64.size := by
    simp only [Duration.maxMillis, UInt64.size] at *
    omega
  rw [UInt64.toNat_add, UInt64.toNat_ofNat', UInt64.toNat_ofNat', ← Nat.add_mod]
  exact Nat.mod_eq_of_lt hsum

lemma least_le_pick (s : Spread) (draw : Nat) : s.least ≤ s.pick draw := by
  cases s with
  | exactly d => exact Nat.le_refl _
  | uniform low high => exact Duration.ofMillis_mono (Nat.le_add_right _ _)

lemma pick_le_greatest (s : Spread) (draw : Nat) : s.pick draw ≤ s.greatest := by
  cases s with
  | exactly d => exact Nat.le_refl _
  | uniform low high =>
    have hdraw := Nat.mod_lt draw (Nat.succ_pos (high - low))
    exact Duration.ofMillis_mono (Nat.add_le_add_left (Nat.le_of_lt_succ hdraw) low)

lemma pick_zero (s : Spread) : s.pick 0 = s.least := by
  cases s with
  | exactly d => rfl
  | uniform low high => rw [pick, Nat.zero_mod, Nat.add_zero, least]

/-- Among the draws is the least duration of the spread. -/
lemma forall_pick_iff {P : Nat → Prop} (hmono : ∀ {m n}, m ≤ n → P m → P n) (s : Spread) :
    (∀ draw, P (s.pick draw).nanos) ↔ P s.least.nanos := by
  refine ⟨fun h => ?_, fun h draw => hmono (s.least_le_pick draw) h⟩
  rw [← s.pick_zero]
  exact h 0

end Spread

namespace Jitter

variable {jitter : Jitter} {delay floor cap : Duration}

/-- There are whole milliseconds above the floor, up to three times the delay and the cap. -/
def HasRoom (delay floor cap : Duration) : Prop :=
  floor.millis < min (3 * delay.millis) cap.millis

instance (delay floor cap : Duration) : Decidable (HasRoom delay floor cap) :=
  inferInstanceAs (Decidable (_ < _))

lemma spread_full (delay floor cap : Duration) : full.spread delay floor cap =
    if delay.millis = 0 then .exactly .zero else .uniform 0 delay.millis := rfl

lemma spread_equal (delay floor cap : Duration) : equal.spread delay floor cap =
    if delay.millis / 2 = 0 then .exactly .zero
    else .uniform (delay.millis / 2) (delay.millis / 2 + delay.millis / 2) := rfl

lemma spread_decorrelated (delay floor cap : Duration) : decorrelated.spread delay floor cap =
    if HasRoom delay floor cap then .uniform floor.millis (min (3 * delay.millis) cap.millis)
    else .exactly floor := by
  have hcap := cap.millis_le_maxMillis
  unfold spread tripled
  dsimp only
  by_cases hroom : HasRoom delay floor cap
  · rw [if_pos hroom]
    unfold HasRoom at hroom
    rw [if_neg (by omega)]
    congr 1
    omega
  · rw [if_neg hroom]
    unfold HasRoom at hroom
    rw [if_pos (by omega)]

lemma isDrawable_spread (jitter : Jitter) (delay floor cap : Duration) :
    (jitter.spread delay floor cap).IsDrawable := by
  have hdelay := delay.millis_le_maxMillis
  have hcap := cap.millis_le_maxMillis
  cases jitter with
  | none => exact True.intro
  | full =>
    rw [spread_full]
    split
    · exact True.intro
    · exact Spread.isDrawable_uniform (Nat.zero_le _) hdelay
  | equal =>
    rw [spread_equal]
    split
    · exact True.intro
    · exact Spread.isDrawable_uniform (Nat.le_add_left _ _) (by omega)
  | decorrelated =>
    rw [spread_decorrelated]
    split
    · rename_i hroom
      exact Spread.isDrawable_uniform (Nat.le_of_lt hroom) (by omega)
    · exact True.intro

section UpperEnds

/-- Only the decorrelated jitter makes a delay longer. -/
lemma greatest_le_delay (h : jitter ≠ .decorrelated) :
    (jitter.spread delay floor cap).greatest ≤ delay := by
  cases jitter with
  | none => exact Nat.le_refl _
  | full =>
    rw [spread_full]
    split
    · exact Nat.zero_le _
    · exact Duration.ofMillis_le (by omega)
  | equal =>
    rw [spread_equal]
    split
    · exact Nat.zero_le _
    · exact Duration.ofMillis_le (by omega)
  | decorrelated => exact absurd rfl h

lemma greatest_decorrelated_le_cap (h : floor ≤ cap) :
    (decorrelated.spread delay floor cap).greatest ≤ cap := by
  rw [spread_decorrelated]
  split
  · rename_i hroom
    unfold HasRoom at hroom
    exact Duration.ofMillis_le (by omega)
  · exact h

lemma greatest_decorrelated_le (delay floor cap : Duration) :
    ((decorrelated.spread delay floor cap).greatest).nanos ≤ max floor.nanos (3 * delay.nanos) := by
  rw [spread_decorrelated]
  split
  · rename_i hroom
    unfold HasRoom at hroom
    have hcap := cap.millis_le_maxMillis
    have hhigh : floor.millis + (min (3 * delay.millis) cap.millis - floor.millis) ≤
        3 * delay.millis := by omega
    have hdelay := delay.ofMillis_millis_le
    rw [Duration.le_def, Duration.nanos_ofMillis delay.millis_le_maxMillis] at hdelay
    rw [Spread.greatest, Duration.nanos_ofMillis (by omega)]
    calc (floor.millis + (min (3 * delay.millis) cap.millis - floor.millis)) * 1_000_000
        ≤ 3 * delay.millis * 1_000_000 := Nat.mul_le_mul_right _ hhigh
      _ = 3 * (delay.millis * 1_000_000) := Nat.mul_assoc _ _ _
      _ ≤ 3 * delay.nanos := Nat.mul_le_mul_left 3 hdelay
      _ ≤ max floor.nanos (3 * delay.nanos) := Nat.le_max_right _ _
  · exact Nat.le_max_left _ _

/-- Three times a 64-bit word if no bit of the product is lost, and the greatest word otherwise. -/
def tripledWord (ms : UInt64) : UInt64 :=
  if ms ≤ UInt64.ofNat Duration.maxMillis / 3 then 3 * ms else UInt64.ofNat Duration.maxMillis

/-- Words are enough to triple a count of milliseconds: no product is taken that overflows. -/
lemma toNat_tripledWord (delay : Duration) :
    (tripledWord (UInt64.ofNat delay.millis)).toNat = tripled delay := by
  have hword : (UInt64.ofNat delay.millis).toNat = delay.millis := by
    have hmillis := delay.millis_le_maxMillis
    rw [UInt64.toNat_ofNat']
    exact Nat.mod_eq_of_lt (Nat.lt_of_le_of_lt hmillis (by decide))
  have hthird : (UInt64.ofNat Duration.maxMillis / 3).toNat = Duration.maxMillis / 3 := rfl
  unfold tripledWord tripled
  by_cases hfits : UInt64.ofNat delay.millis ≤ UInt64.ofNat Duration.maxMillis / 3
  · rw [if_pos hfits, UInt64.toNat_mul, hword]
    rw [UInt64.le_iff_toNat_le, hword, hthird] at hfits
    show 3 * delay.millis % 2 ^ 64 = _
    simp only [Duration.maxMillis, UInt64.size] at *
    omega
  · rw [if_neg hfits]
    rw [UInt64.le_iff_toNat_le, hword, hthird] at hfits
    show Duration.maxMillis = _
    simp only [Duration.maxMillis, UInt64.size] at *
    omega

/-- No draw leads past the delay, or with the decorrelated jitter past the cap and past the longer
of the floor and three times the delay. The tripled count of milliseconds is found on 64-bit words
without a product that overflows, and all draws are from ranges of such words that are not empty. -/
theorem spread_upper_ends (delay : Duration) (h : floor ≤ cap) :
    (∀ draw, (full.spread delay floor cap).pick draw ≤ delay) ∧
    (∀ draw, (equal.spread delay floor cap).pick draw ≤ delay) ∧
    (∀ draw, (decorrelated.spread delay floor cap).pick draw ≤ cap ∧
      ((decorrelated.spread delay floor cap).pick draw).nanos ≤ max floor.nanos (3 * delay.nanos)) ∧
    (tripledWord (UInt64.ofNat delay.millis)).toNat = tripled delay ∧
    ∀ jitter : Jitter, (jitter.spread delay floor cap).IsDrawable := by
  refine ⟨fun draw => ?_, fun draw => ?_, fun draw => ⟨?_, ?_⟩, ?_, fun jitter => ?_⟩
  · exact Nat.le_trans (Spread.pick_le_greatest _ draw) (greatest_le_delay (by decide))
  · exact Nat.le_trans (Spread.pick_le_greatest _ draw) (greatest_le_delay (by decide))
  · exact Nat.le_trans (Spread.pick_le_greatest _ draw) (greatest_decorrelated_le_cap h)
  · exact Nat.le_trans (Spread.pick_le_greatest _ draw) (greatest_decorrelated_le delay floor cap)
  · exact toNat_tripledWord delay
  · exact jitter.isDrawable_spread delay floor cap

/-- The longest of all delays under the longest cap, where the count of milliseconds saturates. -/
theorem spread_upper_ends_longest :
    Duration.ofMillis 1 ≤ Duration.longest ∧
      ((decorrelated.spread .longest (.ofMillis 1) .longest).pick 7).nanos ≤
        3 * Duration.longest.nanos ∧
      (tripledWord (UInt64.ofNat Duration.longest.millis)).toNat = Duration.maxMillis ∧
      (equal.spread .longest (.ofMillis 1) .longest).IsDrawable := by
  have hfloor : Duration.ofMillis 1 ≤ Duration.longest := by decide +kernel
  obtain ⟨-, -, hdecorrelated, htripled, hdrawable⟩ := spread_upper_ends .longest hfloor
  exact ⟨hfloor, Nat.le_trans (hdecorrelated 7).2 (by decide +kernel),
    htripled.trans (by decide +kernel), hdrawable .equal⟩

end UpperEnds

section LowerEnds

/-- One half of the milliseconds is certain. -/
lemma least_equal (delay floor cap : Duration) :
    (equal.spread delay floor cap).least = .ofMillis (delay.millis / 2) := by
  rw [spread_equal]
  split
  · rename_i hhalf
    rw [hhalf]
    rfl
  · rfl

lemma least_decorrelated (delay floor cap : Duration) :
    (decorrelated.spread delay floor cap).least =
      if HasRoom delay floor cap then .ofMillis floor.millis else floor := by
  rw [spread_decorrelated]
  split <;> rfl

/-- Half of a delay is reached by all draws just if it is an even number of milliseconds that can be
counted, and less than a millisecond is missing otherwise. The floor is reached just if it is a
whole number of milliseconds or there is no room above it, and again less than a millisecond is
missing. -/
theorem spread_lower_ends (delay floor cap : Duration) :
    ((∀ draw, delay.nanos ≤ 2 * ((equal.spread delay floor cap).pick draw).nanos) ↔
      delay.nanos % 2_000_000 = 0 ∧ delay.nanos / 1_000_000 ≤ Duration.maxMillis) ∧
    (∀ draw, min delay.nanos (Duration.maxMillis * 1_000_000) <
      2 * ((equal.spread delay floor cap).pick draw).nanos + 2_000_000) ∧
    ((∀ draw, floor ≤ (decorrelated.spread delay floor cap).pick draw) ↔
      floor.nanos % 1_000_000 = 0 ∨ ¬ HasRoom delay floor cap) ∧
    ∀ draw, floor.nanos < ((decorrelated.spread delay floor cap).pick draw).nanos + 1_000_000 := by
  have hdelay := delay.millis_le_maxMillis
  have hhalf : (equal.spread delay floor cap).least.nanos = delay.millis / 2 * 1_000_000 := by
    rw [least_equal, Duration.nanos_ofMillis (by omega)]
  refine ⟨?_, fun draw => ?_, ?_, fun draw => ?_⟩
  · rw [Spread.forall_pick_iff (P := fun n => delay.nanos ≤ 2 * n) (by omega), hhalf]
    simp only [Duration.millis, Duration.maxMillis, UInt64.size]
    omega
  · have hleast := Spread.least_le_pick (equal.spread delay floor cap) draw
    rw [Duration.le_def, hhalf] at hleast
    unfold Duration.millis at *
    omega
  · show (∀ draw, floor.nanos ≤ ((decorrelated.spread delay floor cap).pick draw).nanos) ↔ _
    rw [Spread.forall_pick_iff (P := fun n => floor.nanos ≤ n) (by omega), least_decorrelated]
    split
    · rename_i hroom
      have hcap := cap.millis_le_maxMillis
      rw [Duration.nanos_ofMillis floor.millis_le_maxMillis]
      unfold HasRoom Duration.millis at *
      omega
    · rename_i hfull
      exact ⟨fun _ => Or.inr hfull, fun _ => Nat.le_refl _⟩
  · have hleast := Spread.least_le_pick (decorrelated.spread delay floor cap) draw
    rw [Duration.le_def, least_decorrelated] at hleast
    split at hleast
    · rename_i hroom
      have hcap := cap.millis_le_maxMillis
      have hcut := Duration.lt_ofMillis_millis (d := floor) (by unfold HasRoom at hroom; omega)
      omega
    · omega

/-- Four milliseconds above a floor of two. -/
theorem spread_lower_ends_evenMillis :
    (∀ draw, (Duration.ofMillis 4).nanos ≤
      2 * ((equal.spread (.ofMillis 4) (.ofMillis 2) (.ofMillis 30)).pick draw).nanos) ∧
    ∀ draw, Duration.ofMillis 2 ≤
      (decorrelated.spread (.ofMillis 4) (.ofMillis 2) (.ofMillis 30)).pick draw := by
  obtain ⟨hequal, -, hdecorrelated, -⟩ :=
    spread_lower_ends (.ofMillis 4) (.ofMillis 2) (.ofMillis 30)
  exact ⟨hequal.mpr (by decide +kernel), hdecorrelated.mpr (Or.inl (by decide +kernel))⟩

/-- A floor of one millisecond and a half. -/
def betweenMillis : Duration := ⟨1_500_000, by decide⟩

/-- A single millisecond has a draw of nothing, and a floor between two milliseconds has a draw of
the lower one. -/
theorem not_spread_lower_ends :
    (¬ ∀ delay floor cap : Duration, floor ≤ cap →
      ∀ draw, delay.nanos ≤ 2 * ((equal.spread delay floor cap).pick draw).nanos) ∧
    ¬ ∀ delay floor cap : Duration, floor ≤ cap →
      ∀ draw, floor ≤ (decorrelated.spread delay floor cap).pick draw := by
  constructor
  · intro h
    exact absurd (h (.ofMillis 1) .zero (.ofMillis 30_000) (by decide +kernel) 0)
      (by decide +kernel)
  · intro h
    exact absurd (h (.ofMillis 3) betweenMillis (.ofMillis 4) (by decide +kernel) 0)
      (by decide +kernel)

end LowerEnds

end Jitter

end Delay

end Redial
