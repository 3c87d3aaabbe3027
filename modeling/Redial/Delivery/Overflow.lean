import Redial.Text.Blank
import Redial.Text.Quoted

/-!
# Overflow rules

What a bounded queue does with a value that arrives when it is full, and how such a rule is read
from text. A rule that nobody chose is `latest`, and the rule of a whole process is resolved from
its environment once, at the first question.
-/

namespace Redial.Delivery

inductive Overflow where
  /-- Keep everything; the queue grows. -/
  | buffer
  | dropOldest
  | latest
  | refuse
  /-- Wait until there is room or the queue closes. -/
  | block
  deriving DecidableEq

instance : Inhabited Overflow := ⟨.latest⟩

/-- A text that names no rule. It is kept as it was given. -/
structure UnknownRule where
  text : String
  deriving DecidableEq

namespace UnknownRule

def label : UnknownRule → String := fun _ => "unknown_backpressure_strategy"

def message (e : UnknownRule) : String :=
  "unknown backpressure strategy " ++ Text.quote e.text

end UnknownRule

namespace Overflow

/-- A character as spellings are compared: letters of ASCII in lower case, `-` as `_`. -/
def foldChar (c : Char) : Char :=
  let lower := c.toLower
  if lower = '-' then '_' else lower

def normalize (s : String) : List Char := (Text.trim s.toList).map foldChar

def spellings : Overflow → List String
  | buffer => ["buffer", "buffer_all"]
  | dropOldest => ["drop", "drop_oldest"]
  | latest => ["latest", "keep_latest"]
  | refuse => ["error"]
  | block => ["block"]

def all : List Overflow := [buffer, dropOldest, latest, refuse, block]

/-- The rule that a text spells, if any. -/
def parse (s : String) : Except UnknownRule Overflow :=
  match all.find? fun rule => rule.spellings.any fun word => word.toList == normalize s with
  | some rule => .ok rule
  | none => .error ⟨s⟩

/-- The rule of an optional setting: a missing, blank or unknown one is `latest`. -/
def resolve : Option String → Overflow
  | none => .latest
  | some s =>
    if (Text.trim s.toList).isEmpty then .latest
    else match parse s with
      | .ok rule => rule
      | .error _ => .latest

end Overflow

/-- The setting of a process, as its environment has it now, and the rule once it is resolved. -/
structure Ambient where
  setting : Option ByteArray := none
  resolved : Option Overflow := none

namespace Ambient

/-- A setting that is not well-formed text counts as missing. -/
def settingText (a : Ambient) : Option String := a.setting.bind String.fromUTF8?

/-- The rule of the process. The first question resolves it, later ones repeat the answer. -/
def rule (a : Ambient) : Overflow × Ambient :=
  match a.resolved with
  | some rule => (rule, a)
  | none =>
    let rule := Overflow.resolve a.settingText
    (rule, { a with resolved := some rule })

/-- The environment changes; a resolved rule stays. -/
def change (a : Ambient) (setting : Option ByteArray) : Ambient := { a with setting }

end Ambient

end Redial.Delivery
