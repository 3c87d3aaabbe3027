import Redial.Event.LogLine
import Redial.Proofs.ReadableText

/-!
# Log lines are unambiguous

The line of an event is a single one, whatever the names and errors are that it shows. And it tells
what the event is: two events have the same line only if they are of one kind and agree in all that
this kind shows, where a field that is missing counts as its default. No name and no error can be
made up to look like another field or like another event.
-/

namespace Redial.Event

/-- The line of such an event shows the attempt. -/
def logsAttempt : EventKind → Bool
  | .deliverySuppressed | .deliveryOverflow | .handleDisposed => false
  | _ => true

def logsError : EventKind → Bool
  | .attemptFailed | .callFailed | .deliveryOverflow => true
  | _ => false

def logsRemaining : EventKind → Bool
  | .resultUnsuccessful => true
  | _ => false

def logsDelay : EventKind → Bool
  | .retryScheduled => true
  | _ => false

/-- The events agree in all that their lines show. A missing call is `?`, a missing number zero, a
missing error empty and a missing delay none at all. -/
structure AgreeInLog (a b : Notice) : Prop where
  kind : a.kind = b.kind
  call : a.call.getD "?" = b.call.getD "?"
  attempt : logsAttempt a.kind = true → a.attempt.getD 0 = b.attempt.getD 0
  error : logsError a.kind = true → a.error.getD "" = b.error.getD ""
  remaining : logsRemaining a.kind = true → a.remaining.getD 0 = b.remaining.getD 0
  delay : logsDelay a.kind = true → a.delay.getD .zero = b.delay.getD .zero

variable {a b : Notice}

lemma blank_not_mem_logTag (kind : EventKind) : ∀ c ∈ (logTag kind).toList, (c != ' ') = true := by
  rw [← List.all_eq_true]
  cases kind <;> decide

lemma logTag_inj : Function.Injective logTag := by
  intro k l h
  cases k <;> cases l <;> first | rfl | exact absurd h (by decide)

/-- A number between a label and a separator. -/
lemma numbered_inj {label sep r s : List Char} {m n : Nat} (hsep : sep.head? = some ' ')
    (h : label ++ Text.decimal m ++ sep ++ r = label ++ Text.decimal n ++ sep ++ s) :
    m = n ∧ r = s := by
  have hblank (l : List Char) : ∀ c ∈ (sep ++ l).head?, c.isDigit = false := by
    rw [List.head?_append, hsep]
    rintro c ⟨rfl⟩
    rfl
  simp only [List.append_assoc] at h
  obtain ⟨hnumber, hrest⟩ :=
    Text.decimal_append_inj (hblank r) (hblank s) (List.append_cancel_left h)
  exact ⟨hnumber, List.append_cancel_left hrest⟩

lemma quoted_toList_inj {s t : String} (h : Text.quoted s.toList = Text.quoted t.toList) : s = t :=
  String.toList_inj.mp (Text.quoted_inj h)

lemma shows_logFields (n : Notice) : Text.Shows (logFields n) := by
  have hattempt {label : List Char} (h : Text.Shows label) :
      Text.Shows (label ++ Text.decimal (n.attempt.getD 0)) :=
    Text.shows_append h (Text.shows_decimal _)
  have herror := Text.shows_quoted (n.error.getD "").toList
  unfold logFields
  cases n.kind with
  | attemptStarting | callSucceeded => exact hattempt (by decide)
  | attemptFailed | callFailed =>
    exact Text.shows_append (Text.shows_append (hattempt (by decide)) (by decide)) herror
  | resultUnsuccessful =>
    exact Text.shows_append (Text.shows_append (hattempt (by decide)) (by decide))
      (Text.shows_decimal _)
  | retryScheduled =>
    exact Text.shows_append (Text.shows_append (hattempt (by decide)) (by decide))
      (Duration.shows_chars _)
  | deliveryOverflow => exact Text.shows_append (by decide) herror
  | deliverySuppressed | handleDisposed => exact List.forall_mem_nil _

lemma shows_logLine (n : Notice) : Text.Shows (logLine n) := by
  have htag : Text.Shows (logTag n.kind).toList := by cases n.kind <;> decide
  exact Text.shows_append (Text.shows_append (Text.shows_append htag (by decide))
    (Text.shows_quoted _)) (shows_logFields n)

/-- The fields of two events of one kind agree if they are written the same. -/
lemma agreeInLog_of_logFields (hkind : a.kind = b.kind) (hcall : a.call.getD "?" = b.call.getD "?")
    (h : logFields a = logFields b) : AgreeInLog a b := by
  unfold logFields at h
  rw [← hkind] at h
  generalize hshown : a.kind = kind at h
  cases kind with
  | attemptStarting | callSucceeded =>
    have hattempt := Text.decimal_inj (List.append_cancel_left h)
    refine ⟨hkind, hcall, fun _ => hattempt, ?_, ?_, ?_⟩ <;> rw [hshown] <;> nofun
  | attemptFailed | callFailed =>
    obtain ⟨hattempt, hrest⟩ := numbered_inj rfl h
    have herror := quoted_toList_inj hrest
    refine ⟨hkind, hcall, fun _ => hattempt, fun _ => herror, ?_, ?_⟩ <;> rw [hshown] <;> nofun
  | resultUnsuccessful =>
    obtain ⟨hattempt, hrest⟩ := numbered_inj rfl h
    have hremaining := Text.decimal_inj hrest
    refine ⟨hkind, hcall, fun _ => hattempt, ?_, fun _ => hremaining, ?_⟩ <;> rw [hshown] <;> nofun
  | retryScheduled =>
    obtain ⟨hattempt, hrest⟩ := numbered_inj rfl h
    have hdelay := Duration.chars_inj hrest
    refine ⟨hkind, hcall, fun _ => hattempt, ?_, ?_, fun _ => hdelay⟩ <;> rw [hshown] <;> nofun
  | deliveryOverflow =>
    have herror := quoted_toList_inj (List.append_cancel_left h)
    refine ⟨hkind, hcall, ?_, fun _ => herror, ?_, ?_⟩ <;> rw [hshown] <;> nofun
  | deliverySuppressed | handleDisposed =>
    refine ⟨hkind, hcall, ?_, ?_, ?_, ?_⟩ <;> rw [hshown] <;> nofun

lemma agreeInLog_of_logLine (h : logLine a = logLine b) : AgreeInLog a b := by
  unfold logLine at h
  simp only [List.append_assoc] at h
  have hblank (l : List Char) : ∀ c ∈ (" call=".toList ++ l).head?, (c != ' ') = false := by
    rintro c ⟨rfl⟩
    rfl
  obtain ⟨htag, hrest⟩ := Text.append_inj_of_all (blank_not_mem_logTag a.kind)
    (blank_not_mem_logTag b.kind) (hblank _) (hblank _) h
  obtain ⟨hcall, hfields⟩ := Text.quoted_append_inj (List.append_cancel_left hrest)
  exact agreeInLog_of_logFields (logTag_inj (String.toList_inj.mp htag))
    (String.toList_inj.mp hcall) hfields

/-- Nothing but what a line shows matters for it. -/
lemma AgreeInLog.logLine_eq (h : AgreeInLog a b) : logLine a = logLine b := by
  obtain ⟨hkind, hcall, hattempt, herror, hremaining, hdelay⟩ := h
  have hfields : logFields a = logFields b := by
    unfold logFields
    rw [← hkind]
    generalize a.kind = kind at hattempt herror hremaining hdelay
    cases kind with
    | attemptStarting | callSucceeded => rw [hattempt rfl]
    | attemptFailed | callFailed => rw [hattempt rfl, herror rfl]
    | resultUnsuccessful => rw [hattempt rfl, hremaining rfl]
    | retryScheduled => rw [hattempt rfl, hdelay rfl]
    | deliveryOverflow => rw [herror rfl]
    | deliverySuppressed | handleDisposed => rfl
  unfold logLine
  rw [hkind, hcall, hfields]

/-- A line has no line break and no other control character, and two events have the same line just
if they are of one kind and agree in what this kind shows. -/
theorem logLine_is_unambiguous :
    (∀ n, '\n' ∉ logLine n ∧ '\r' ∉ logLine n ∧ ∀ c ∈ logLine n, Text.isControl c = false) ∧
      ∀ a b, logLine a = logLine b ↔ AgreeInLog a b := by
  refine ⟨fun n => ⟨fun hfeed => ?_, fun hreturn => ?_, shows_logLine n⟩,
    fun a b => ⟨agreeInLog_of_logLine, AgreeInLog.logLine_eq⟩⟩
  · exact absurd (shows_logLine n _ hfeed) (by decide)
  · exact absurd (shows_logLine n _ hreturn) (by decide)

/-- A name that is made up to look like the rest of a line does not pass for it, and a missing name
passes for the name that stands in for it. -/
theorem logLine_is_unambiguous_crafted :
    let plain : Notice :=
      { kind := .callFailed, call := some "a", attempt := some 1, error := some "" }
    let crafted : Notice :=
      { kind := .callFailed, call := some "a\" attempt=1 err=\"\n\u2028", attempt := some 1 }
    let nameless : Notice := { kind := .handleDisposed, attempt := some 1 }
    logLine crafted =
        "[failed] call=\"a\\\" attempt=1 err=\\\"\\n\\u\x7b2028\x7d\" attempt=1 err=\"\"".toList ∧
      logLine plain ≠ logLine crafted ∧
      logLine nameless = logLine { kind := .handleDisposed, call := some "?" } := by
  intro plain crafted nameless
  obtain ⟨-, hsame⟩ := logLine_is_unambiguous
  refine ⟨by decide +kernel, fun h => absurd ((hsame _ _).mp h).call (by decide), ?_⟩
  exact (hsame _ _).mpr ⟨rfl, rfl, nofun, nofun, nofun, nofun⟩

end Redial.Event
