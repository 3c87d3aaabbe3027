import Redial.Text.Decimal

/-!
# Durations

Spans of time, counted in whole nanoseconds and shorter than 2 ^ 64 seconds. The text form
names the largest unit that the span reaches and is exact, so two durations with the same text
are equal.
-/

namespace Redial

structure Duration where
  nanos : Nat
  nanos_lt : nanos < UInt64.size * 1_000_000_000
  deriving DecidableEq

namespace Duration

def zero : Duration := ⟨0, by decide⟩

/-- The longest span: one nanosecond short of 2 ^ 64 seconds. -/
def longest : Duration := ⟨UInt64.size * 1_000_000_000 - 1, by decide⟩

instance : Inhabited Duration := ⟨zero⟩

instance : LE Duration := ⟨fun a b => a.nanos ≤ b.nanos⟩

instance : LT Duration := ⟨fun a b => a.nanos < b.nanos⟩

instance (a b : Duration) : Decidable (a ≤ b) := inferInstanceAs (Decidable (a.nanos ≤ b.nanos))

instance (a b : Duration) : Decidable (a < b) := inferInstanceAs (Decidable (a.nanos < b.nanos))

@[ext] theorem ext {a b : Duration} (h : a.nanos = b.nanos) : a = b := by
  cases a; cases b; cases h; rfl

theorem le_def {a b : Duration} : a ≤ b ↔ a.nanos ≤ b.nanos := Iff.rfl

def shorter (a b : Duration) : Duration := if a ≤ b then a else b

/-- A span given in seconds and nanoseconds, if it is not too long. -/
def ofParts? (seconds nanos : Nat) : Option Duration :=
  let total := seconds * 1_000_000_000 + nanos
  if h : total < UInt64.size * 1_000_000_000 then some ⟨total, h⟩ else none

def maxMillis : Nat := UInt64.size - 1

/-- A span of whole milliseconds; counts beyond `maxMillis` saturate. -/
def ofMillis (n : Nat) : Duration :=
  ⟨min n maxMillis * 1_000_000, by simp only [maxMillis, UInt64.size]; omega⟩

/-- The whole milliseconds in a span, saturating at `maxMillis`. -/
def millis (d : Duration) : Nat := min (d.nanos / 1_000_000) maxMillis

def seconds (d : Duration) : Nat := d.nanos / 1_000_000_000

def subsecNanos (d : Duration) : Nat := d.nanos % 1_000_000_000

/-- The exact text of a span in its largest unit: `1.5s`, `20ms`, `999.999µs`, `0ns`. -/
def chars (d : Duration) : List Char :=
  if d.seconds > 0 then
    Text.decimal d.seconds ++ Text.fraction 9 d.subsecNanos ++ ['s']
  else if d.nanos ≥ 1_000_000 then
    Text.decimal (d.nanos / 1_000_000) ++ Text.fraction 6 (d.nanos % 1_000_000) ++ ['m', 's']
  else if d.nanos ≥ 1_000 then
    Text.decimal (d.nanos / 1_000) ++ Text.fraction 3 (d.nanos % 1_000) ++ ['µ', 's']
  else
    Text.decimal d.nanos ++ ['n', 's']

def text (d : Duration) : String := String.ofList d.chars

end Duration

end Redial
