import Redial.Proofs.ImmediateDelays
import Redial.Proofs.JitterRanges
import Redial.Proofs.RereadDurations

/-!
# Delays and their caps

A delay grows as a double, is compared with the double of the cap and becomes a duration again. Where
doubles tell durations apart, that is under caps below 2 ^ 23 seconds, no delay exceeds the cap; a
longer cap is exceeded just if it does not come back from its own double, and then by what it is
longer that way. A cap within the last 1024 seconds lets the double 2 ^ 64 seconds pass, which is no
duration; no other double fails.
-/

namespace Redial.Delay.Backoff

open Duration (limitUnits)

variable {b : Backoff} {cap d : Duration} {retry : Nat}

section Growth

lemma isDouble_of_growth {negative : Bool} {units : Nat}
    (h : b.growth retry = .finite negative units) : Binary64.IsDouble units :=
  Binary64.isDouble_of_mul h

/-- Before a retry the delay has grown to 2 ^ 64 seconds, and as a double the cap is as long. -/
def Overruns (b : Backoff) (retry : Nat) : Prop :=
  b.growth retry = .finite false limitUnits ∧ UInt64.size - 1024 ≤ b.cap.seconds

instance (b : Backoff) (retry : Nat) : Decidable (b.Overruns retry) :=
  inferInstanceAs (Decidable (_ ∧ _))

lemma base_of_growth {negative : Bool} {units : Nat}
    (hgrowth : b.growth retry = .finite negative units) (hsign : negative = true → units = 0)
    (hcap : units ≤ b.cap.toUnits) :
    b.base retry = (Duration.ofUnits? units).elim (.error .seconds) .ok := by
  have hwithin : ¬ ((negative && units != 0) = true ∨ b.cap.toUnits < units) := by
    rw [not_or]
    exact ⟨by simpa using hsign, Nat.not_lt_of_le hcap⟩
  unfold base
  rw [hgrowth]
  simp only [gt_iff_lt, Bool.or_eq_true, decide_eq_true_eq, hwithin, if_false]
  cases Duration.ofUnits? units <;> rfl

/-- Where a delay does not become the cap, it comes from a double up to that of the cap. -/
lemma base_cases (b : Backoff) (retry : Nat) :
    (b.base retry = .ok b.cap ∧ ¬ b.Overruns retry) ∨
    ∃ negative units, b.growth retry = .finite negative units ∧ (negative = true → units = 0) ∧
      Binary64.IsDouble units ∧ units ≤ b.cap.toUnits ∧
      b.base retry = (Duration.ofUnits? units).elim (.error .seconds) .ok := by
  cases hgrowth : b.growth retry with
  | nan | infinite s =>
    left
    constructor
    · unfold base
      rw [hgrowth]
    · rintro ⟨hlimit, -⟩
      exact absurd (hgrowth.symm.trans hlimit) (by simp)
  | finite negative units =>
    by_cases hbeyond : (negative && units != 0) = true ∨ b.cap.toUnits < units
    · left
      constructor
      · unfold base
        rw [hgrowth]
        simp only [gt_iff_lt, Bool.or_eq_true, decide_eq_true_eq, hbeyond, if_true]
      · -- A cap that counts as 2 ^ 64 seconds is not passed by them.
        rintro ⟨hlimit, hlong⟩
        obtain ⟨rfl, rfl⟩ := Binary64.finite.inj (hgrowth.symm.trans hlimit)
        rw [Duration.toUnits_of_long hlong] at hbeyond
        simp at hbeyond
    · right
      obtain ⟨hsign, hcap⟩ := not_or.mp hbeyond
      have hsign' : negative = true → units = 0 := by simpa using hsign
      have hcap' := Nat.le_of_not_lt hcap
      exact ⟨negative, units, rfl, hsign', isDouble_of_growth hgrowth, hcap',
        base_of_growth hgrowth hsign' hcap'⟩

lemma base_eq_error_iff : b.base retry = .error .seconds ↔ b.Overruns retry := by
  rcases b.base_cases retry with ⟨hbase, hwithin⟩ |
    ⟨negative, units, hgrowth, hsign, hdouble, hcap, hbase⟩
  · rw [hbase]
    simp [hwithin]
  · have herror : b.base retry = .error .seconds ↔ limitUnits ≤ units := by
      rw [hbase, ← Duration.ofUnits?_eq_none_iff hdouble]
      cases Duration.ofUnits? units <;> simp
    rw [herror]
    constructor
    · -- Only the last double up to that of any cap does not lead back.
      intro hlong
      have hlimit := b.cap.toUnits_le
      have hunits : units = limitUnits := by omega
      have hpos : 0 < limitUnits := Nat.mul_pos (by decide) Binary64.one_pos
      cases negative with
      | true => exact absurd (hsign rfl) (by omega)
      | false =>
        exact ⟨by rw [hgrowth, hunits], Duration.toUnits_eq_limitUnits_iff.mp (by omega)⟩
    · rintro ⟨hlimit, -⟩
      obtain ⟨-, rfl⟩ := Binary64.finite.inj (hgrowth.symm.trans hlimit)
      exact Nat.le_refl _

lemma base_le (h : b.base retry = .ok d) : d ≤ b.cap ∨ d ≤ b.cap.reread := by
  rcases b.base_cases retry with ⟨hbase, -⟩ | ⟨negative, units, -, -, hdouble, hcap, hbase⟩
  · left
    rw [Except.ok.inj (h.symm.trans hbase)]
    exact Nat.le_refl _
  · right
    rw [hbase] at h
    cases hback : Duration.ofUnits? units with
    | none =>
      rw [hback] at h
      exact absurd h (by simp)
    | some back =>
      rw [hback] at h
      rw [← Except.ok.inj h]
      exact Duration.le_reread hdouble hcap hback

end Growth

section Reach

lemma spread_eq (b : Backoff) (retry : Nat) : b.spread retry =
    (b.base retry).map fun d => b.jitter.spread d (b.first.shorter b.cap) b.cap := rfl

lemma isDrawable_of_spread {s : Spread} (h : b.spread retry = .ok s) : s.IsDrawable := by
  rw [spread_eq] at h
  cases hbase : b.base retry with
  | error e =>
    rw [hbase] at h
    exact absurd h (by simp [Except.map])
  | ok d =>
    rw [hbase] at h
    rw [← Except.ok.inj h]
    exact Jitter.isDrawable_spread _ _ _ _

lemma delay_of_overruns (h : b.Overruns retry) (draw : Nat) :
    b.delay retry draw = .error .seconds := by
  rw [delay, spread_eq, base_eq_error_iff.mpr h]
  rfl

lemma exists_base (h : ¬ b.Overruns retry) : ∃ d, b.base retry = .ok d := by
  cases hbase : b.base retry with
  | ok d => exact ⟨d, rfl⟩
  | error e =>
    cases e with
    | seconds => exact absurd (base_eq_error_iff.mp hbase) h

/-- There is a delay before every retry under every draw, unless the delay has grown to exactly
2 ^ 64 seconds as a double and the cap is one of the last 1024 seconds; and no random number is ever
drawn from an empty range. -/
theorem delay_exists_unless_overruns (b : Backoff) (retry : Nat) :
    (∀ draw, (∃ d, b.delay retry draw = .ok d) ↔ ¬ b.Overruns retry) ∧
    (b.Overruns retry → ∀ draw, b.delay retry draw = .error .seconds) ∧
    ∀ s, b.spread retry = .ok s → s.IsDrawable := by
  refine ⟨fun draw => ⟨?_, fun h => ?_⟩, delay_of_overruns, fun s => isDrawable_of_spread⟩
  · rintro ⟨d, hd⟩ hover
    exact absurd (hd.symm.trans (delay_of_overruns hover draw)) (by simp)
  · obtain ⟨d, hd⟩ := exists_base h
    exact ⟨_, delay_of_base hd draw⟩

/-- Steady delays as long as their cap. -/
def steady (cap : Duration) : Backoff := exponential cap cap unitFactor

/-- The last duration before those that count as 2 ^ 64 seconds. -/
def lastShort : Duration :=
  ⟨(UInt64.size - 1024) * 1_000_000_000 - 1, by decide⟩

theorem delay_exists_unless_overruns_steady :
    (steady .longest).Overruns 0 ∧ (steady .longest).delay 0 0 = .error .seconds ∧
      ∃ d, (steady lastShort).delay 0 0 = .ok d := by
  have hlong : (steady .longest).Overruns 0 := by decide +kernel
  obtain ⟨-, herror, -⟩ := delay_exists_unless_overruns (steady .longest) 0
  obtain ⟨hshort, -, -⟩ := delay_exists_unless_overruns (steady lastShort) 0
  exact ⟨hlong, herror hlong 0, (hshort 0).mpr (by decide +kernel)⟩

/-- The longest duration as first delay and cap has no delay before the first retry. -/
theorem not_delay_exists :
    ¬ ∀ b : Backoff, ∀ retry < UInt32.size, ∀ draw, ∃ d, b.delay retry draw = .ok d := by
  intro h
  obtain ⟨d, hd⟩ := h (steady .longest) 0 (by decide) 0
  have herror : (steady .longest).delay 0 0 = .error .seconds := by decide +kernel
  exact absurd (hd.symm.trans herror) (by simp)

end Reach

section Caps

/-- Under this cap no delay exceeds it, whatever the rest of the backoff and the draws are. -/
def BoundsDelays (cap : Duration) : Prop :=
  ∀ b : Backoff, b.cap = cap → ∀ retry draw d, b.delay retry draw = .ok d → d ≤ cap

lemma exists_base_of_delay {draw : Nat} (h : b.delay retry draw = .ok d) :
    ∃ base, b.base retry = .ok base ∧
      d = (b.jitter.spread base (b.first.shorter b.cap) b.cap).pick draw := by
  cases hbase : b.base retry with
  | error e =>
    rw [delay, spread_eq, hbase] at h
    exact absurd h (by simp [Except.map])
  | ok base => exact ⟨base, rfl, Except.ok.inj (h.symm.trans (delay_of_base hbase draw))⟩

/-- Drawn above its floor a delay keeps to the cap, whatever it has grown to. -/
lemma le_cap_of_decorrelated {draw : Nat} (hjitter : b.jitter = .decorrelated)
    (h : b.delay retry draw = .ok d) : d ≤ b.cap := by
  obtain ⟨base, -, rfl⟩ := exists_base_of_delay h
  rw [hjitter]
  exact Nat.le_trans (Spread.pick_le_greatest _ draw)
    (Jitter.greatest_decorrelated_le_cap (Duration.shorter_le b.first b.cap))

lemma delay_le {draw : Nat} (h : b.delay retry draw = .ok d) : d ≤ b.cap ∨ d ≤ b.cap.reread := by
  by_cases hjitter : b.jitter = .decorrelated
  · exact Or.inl (le_cap_of_decorrelated hjitter h)
  · obtain ⟨base, hbase, rfl⟩ := exists_base_of_delay h
    have hpick := Nat.le_trans
      (Spread.pick_le_greatest (b.jitter.spread base (b.first.shorter b.cap) b.cap) draw)
      (Jitter.greatest_le_delay hjitter)
    exact (base_le hbase).imp (Nat.le_trans hpick) (Nat.le_trans hpick)

/-- The first retry comes before any growth. -/
lemma growth_zero (b : Backoff) : b.growth 0 = .finite false b.first.toUnits := by
  have hpower : b.factor.power (min 0 maxExponent) = .finite false Binary64.one := rfl
  have hbelow : b.first.toUnits < Binary64.overflow :=
    Nat.lt_of_le_of_lt b.first.toUnits_le (by decide +kernel)
  rw [growth, hpower, Binary64.mul_def, Binary64.mul, Binary64.ofQuotient,
    b.first.isDouble_toUnits.nearest_mul Binary64.one_pos, if_pos hbelow]
  rfl

/-- A steady delay is what comes back from the double of its cap, if anything does. -/
lemma delay_steady {back : Duration} (h : Duration.ofUnits? cap.toUnits = some back) (draw : Nat) :
    (steady cap).delay 0 draw = .ok back := by
  have hfirst : (steady cap).first = cap := rfl
  have hcap : (steady cap).cap = cap := rfl
  have hgrowth := growth_zero (steady cap)
  have hbase : (steady cap).base 0 = .ok back := by
    rw [base_of_growth hgrowth (by simp) (by rw [hfirst, hcap]), hfirst, h]
    rfl
  rw [delay_of_base hbase]
  rfl

/-- A cap is exceeded by no delay just if it does not become longer on the way through its double,
as is the case below 2 ^ 23 seconds. With decorrelated jitter all delays keep to every cap, and
otherwise they exceed it by one part in 2 ^ 52 and a nanosecond at most. -/
theorem cap_bounds_delays (cap : Duration) :
    (BoundsDelays cap ↔ cap.reread ≤ cap) ∧
    (cap.seconds < 2 ^ 23 → BoundsDelays cap) ∧
    ∀ b : Backoff, b.cap = cap → ∀ retry draw d, b.delay retry draw = .ok d →
      (b.jitter = .decorrelated → d ≤ cap) ∧
      2 ^ 52 * d.nanos ≤ (2 ^ 52 + 1) * cap.nanos + 2 ^ 52 := by
  have hiff : BoundsDelays cap ↔ cap.reread ≤ cap := by
    constructor
    · intro h
      unfold Duration.reread
      cases hback : Duration.ofUnits? cap.toUnits with
      | none => exact Nat.le_refl _
      | some back => exact h (steady cap) rfl 0 0 back (delay_steady hback 0)
    · rintro h b rfl retry draw d hdelay
      exact (delay_le hdelay).elim id (fun hback => Nat.le_trans hback h)
  refine ⟨hiff, fun hshort => ?_, ?_⟩
  · rw [hiff, Duration.reread_of_short hshort]
    exact Nat.le_refl _
  · rintro b rfl retry draw d hdelay
    refine ⟨fun hjitter => le_cap_of_decorrelated hjitter hdelay, ?_⟩
    have hreread := b.cap.reread_le
    have hle := delay_le hdelay
    rw [Duration.le_def, Duration.le_def] at hle
    omega

/-- 2 ^ 23 seconds and a nanosecond, which come back with two. -/
def stretched : Duration := ⟨2 ^ 23 * 1_000_000_000 + 1, by decide⟩

/-- 2 ^ 23 seconds but for a nanosecond. -/
def unstretched : Duration := ⟨2 ^ 23 * 1_000_000_000 - 1, by decide⟩

theorem cap_bounds_delays_unstretched :
    ¬ BoundsDelays stretched ∧ unstretched.seconds < 2 ^ 23 ∧ BoundsDelays unstretched := by
  have hshort : unstretched.seconds < 2 ^ 23 := by decide
  have hlonger : ¬ stretched.reread ≤ stretched := by decide +kernel
  exact ⟨mt (cap_bounds_delays stretched).1.mp hlonger, hshort,
    (cap_bounds_delays unstretched).2.1 hshort⟩

/-- Steady delays can exceed their cap. -/
theorem not_delay_le_cap :
    ¬ ∀ b : Backoff, ∀ retry < UInt32.size, ∀ draw d, b.delay retry draw = .ok d → d ≤ b.cap := by
  intro h
  have hdelay : (steady stretched).delay 0 0 = .ok ⟨2 ^ 23 * 1_000_000_000 + 2, by decide⟩ := by
    decide +kernel
  exact absurd (h (steady stretched) 0 (by decide) 0 _ hdelay) (by decide +kernel)

end Caps

end Redial.Delay.Backoff
