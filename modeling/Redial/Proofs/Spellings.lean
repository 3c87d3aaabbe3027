import Mathlib.Data.List.DropRight
import Mathlib.Data.List.Forall2
import Mathlib.Tactic.Lemma
import Redial.Delivery.Overflow

/-!
# Spellings

Which texts name a rule. A text is freed from blanks at both ends, and what is left must be one of
the spellings of the rule, up to the case of the letters of ASCII and up to `-` for `_`. Blanks around
a text, the case of its letters and the choice between `-` and `_` make no difference to what it
names, and no text names two rules.
-/

namespace Redial

namespace Text

/-- All of the text is blank. -/
def AllBlank (cs : List Char) : Prop := ∀ c ∈ cs, isBlank c = true

/-- The core is the text without the blanks at its ends. -/
structure Trims (cs core : List Char) : Prop where
  around : ∃ front back, cs = front ++ (core ++ back) ∧ AllBlank front ∧ AllBlank back
  head : ∀ c ∈ core.head?, isBlank c = false
  last : ∀ c ∈ core.getLast?, isBlank c = false

variable {cs core front back : List Char}

lemma trim_eq_rdropWhile (cs : List Char) : trim cs = (cs.dropWhile isBlank).rdropWhile isBlank :=
  rfl

lemma rdropWhile_append_blank (h : AllBlank back) (cs : List Char) :
    (cs ++ back).rdropWhile isBlank = cs.rdropWhile isBlank := by
  unfold List.rdropWhile
  rw [List.reverse_append, List.dropWhile_append_of_pos fun c hc => h c (List.mem_reverse.mp hc)]

/-- Blanks around a text do not matter. -/
theorem trim_append_blank (hfront : AllBlank front) (hback : AllBlank back) (cs : List Char) :
    trim (front ++ (cs ++ back)) = trim cs := by
  rw [trim_eq_rdropWhile, trim_eq_rdropWhile, List.dropWhile_append_of_pos hfront,
    List.dropWhile_append]
  split
  · rename_i hnone
    rw [List.isEmpty_iff.mp hnone, List.dropWhile_eq_nil_iff.mpr hback]
  · exact rdropWhile_append_blank hback _

lemma trim_eq_self (hhead : ∀ c ∈ core.head?, isBlank c = false)
    (hlast : ∀ c ∈ core.getLast?, isBlank c = false) : trim core = core := by
  have hfront : core.dropWhile isBlank = core := by
    cases core with
    | nil => rfl
    | cons c cs => exact List.dropWhile_cons_of_neg (Bool.eq_false_iff.mp (hhead c rfl))
  rw [trim_eq_rdropWhile, hfront, List.rdropWhile_eq_self_iff]
  exact fun hne => Bool.eq_false_iff.mp (hlast _ (List.getLast?_eq_some_getLast hne))

lemma trims_trim (cs : List Char) : Trims cs (trim cs) := by
  rw [trim_eq_rdropWhile]
  refine ⟨⟨cs.takeWhile isBlank, (cs.dropWhile isBlank).rtakeWhile isBlank, ?_,
    fun c hc => List.mem_takeWhile_imp hc, fun c hc => List.mem_rtakeWhile_imp hc⟩, fun c hc => ?_,
    fun c hc => ?_⟩
  · rw [List.rdropWhile_append_rtakeWhile, List.takeWhile_append_dropWhile]
  · have hhead := List.head?_dropWhile_not isBlank cs
    have hc : (cs.dropWhile isBlank).head? = some c :=
      List.singleton_prefix_iff_head?_eq_some.mp
        ((List.singleton_prefix_iff_head?_eq_some.mpr hc).trans (List.rdropWhile_prefix isBlank _))
    rw [hc] at hhead
    exact hhead
  · obtain ⟨hne, rfl⟩ := List.mem_getLast?_eq_getLast hc
    exact Bool.eq_false_iff.mpr (List.rdropWhile_last_not isBlank _ hne)

theorem trims_iff : Trims cs core ↔ trim cs = core := by
  constructor
  · rintro ⟨⟨front, back, rfl, hfront, hback⟩, hhead, hlast⟩
    rw [trim_append_blank hfront hback, trim_eq_self hhead hlast]
  · rintro rfl
    exact trims_trim cs

end Text

namespace Delivery.Overflow

/-- The first is a capital letter of ASCII and the second is the same letter in lower case, or the
first is `-` and the second `_`. -/
def Folds (a b : Char) : Prop := (a.isUpper = true ∧ b.toNat = a.toNat + 32) ∨ (a = '-' ∧ b = '_')

/-- The characters differ at most as letters of ASCII in their case, or as `-` and `_`. -/
def Alike (a b : Char) : Prop := a = b ∨ Folds a b ∨ Folds b a

/-- The text names the rule. -/
def Spells (s : String) (rule : Overflow) : Prop :=
  ∃ core, Text.Trims s.toList core ∧ ∃ word ∈ rule.spellings, core.Forall₂ Alike word.toList

section Folding

variable {a b : Char}

lemma toNat_toLower_of_isUpper (h : a.isUpper = true) : a.toLower.toNat = a.toNat + 32 := by
  have hupper : a.val ≥ 'A'.val ∧ a.val ≤ 'Z'.val := of_decide_eq_true h
  have hbound : a.val.toNat ≤ 90 := UInt32.le_iff_toNat_le.mp hupper.2
  unfold Char.toLower
  rw [dif_pos hupper]
  change (a.val + 32).toNat = a.val.toNat + 32
  rw [UInt32.toNat_add]
  exact Nat.mod_eq_of_lt (by change a.val.toNat + 32 < 4294967296; omega)

lemma toLower_of_not_isUpper (h : a.isUpper = false) : a.toLower = a :=
  dif_neg (of_decide_eq_false h)

lemma isUpper_iff : a.isUpper = true ↔ 65 ≤ a.toNat ∧ a.toNat ≤ 90 :=
  decide_eq_true_iff.trans (and_congr UInt32.le_iff_toNat_le UInt32.le_iff_toNat_le)

/-- What a character folds to does not fold any further. -/
lemma not_folds_of_folds (h : Folds a b) (c : Char) : ¬ Folds b c := by
  rintro (⟨hupper, -⟩ | ⟨rfl, -⟩)
  · rw [isUpper_iff] at hupper
    rcases h with ⟨hlower, hab⟩ | ⟨-, rfl⟩
    · rw [isUpper_iff] at hlower
      omega
    · exact absurd hupper (by decide)
  · rcases h with ⟨hlower, hab⟩ | ⟨-, hdash⟩
    · rw [isUpper_iff] at hlower
      have hdash : '-'.toNat = 45 := rfl
      omega
    · exact absurd hdash (by decide)

lemma eq_of_folds {c : Char} (ha : Folds a c) (hb : Folds b c) : a = b := by
  rcases ha with ⟨hupper, hac⟩ | ⟨rfl, rfl⟩ <;> rcases hb with ⟨hupper', hbc⟩ | ⟨rfl, hc⟩
  · exact Char.toNat_inj.mp (by omega)
  · subst hc
    rw [isUpper_iff] at hupper
    have hlow : '_'.toNat = 95 := rfl
    omega
  · rw [isUpper_iff] at hupper'
    have hlow : '_'.toNat = 95 := rfl
    omega
  · rfl

lemma foldChar_of_folds (h : Folds a b) : foldChar a = b := by
  rcases h with ⟨hupper, hab⟩ | ⟨rfl, rfl⟩
  · have hlower : a.toLower = b :=
      Char.toNat_inj.mp ((toNat_toLower_of_isUpper hupper).trans hab.symm)
    have hletter : b ≠ '-' := by
      rintro rfl
      have hdash : '-'.toNat = 45 := rfl
      rw [isUpper_iff] at hupper
      omega
    unfold foldChar
    rw [hlower]
    exact if_neg hletter
  · rfl

lemma foldChar_of_not_folds (h : ∀ b, ¬ Folds a b) : foldChar a = a := by
  have hlower : a.isUpper = false :=
    Bool.eq_false_iff.mpr fun hupper => h _ (Or.inl ⟨hupper, toNat_toLower_of_isUpper hupper⟩)
  have hdash : a ≠ '-' := fun hdash => h _ (Or.inr ⟨hdash, rfl⟩)
  unfold foldChar
  rw [toLower_of_not_isUpper hlower]
  exact if_neg hdash

lemma foldChar_eq_or_folds (c : Char) : foldChar c = c ∨ Folds c (foldChar c) := by
  by_cases h : ∃ d, Folds c d
  · obtain ⟨d, hd⟩ := h
    exact Or.inr (foldChar_of_folds hd ▸ hd)
  · exact Or.inl (foldChar_of_not_folds fun d hd => h ⟨d, hd⟩)

lemma foldChar_eq_of_folds (h : Folds a b) : foldChar a = foldChar b :=
  (foldChar_of_folds h).trans (foldChar_of_not_folds (not_folds_of_folds h)).symm

lemma isBlank_foldChar (c : Char) : Text.isBlank (foldChar c) = Text.isBlank c := by
  have hmark {d : Char} (hlow : 33 ≤ d.toNat) (hhigh : d.toNat ≤ 122) : Text.isBlank d = false := by
    simp only [Text.isBlank, Bool.or_eq_false_iff, Bool.and_eq_false_iff, decide_eq_false_iff_not]
    omega
  rcases foldChar_eq_or_folds c with h | ⟨hupper, hlower⟩ | ⟨rfl, h⟩
  · rw [h]
  · rw [isUpper_iff] at hupper
    rw [hmark (by omega) (by omega), hmark (by omega) (by omega)]
  · rw [h]
    rfl

/-- Characters are alike if and only if they count as the same character. -/
theorem alike_iff : Alike a b ↔ foldChar a = foldChar b := by
  constructor
  · rintro (rfl | h | h)
    · rfl
    · exact foldChar_eq_of_folds h
    · exact (foldChar_eq_of_folds h).symm
  · intro h
    rcases foldChar_eq_or_folds a with ha | ha <;> rcases foldChar_eq_or_folds b with hb | hb
    · exact Or.inl (ha.symm.trans (h.trans hb))
    · exact Or.inr (Or.inr (ha ▸ h ▸ hb))
    · exact Or.inr (Or.inl (hb ▸ h ▸ ha))
    · exact Or.inl (eq_of_folds ha (h ▸ hb))

end Folding

section Parsing

variable {s t : String} {rule other : Overflow}

lemma foldChar_of_mem_spellings {word : String} (h : word ∈ rule.spellings) :
    word.toList.map foldChar = word.toList := by
  revert word
  cases rule <;> decide

lemma eq_of_mem_spellings {word : String} (h : word ∈ rule.spellings)
    (h' : word ∈ other.spellings) : rule = other := by
  revert word
  cases rule <;> cases other <;> decide

lemma forall₂_alike_iff {cs ds : List Char} :
    cs.Forall₂ Alike ds ↔ cs.map foldChar = ds.map foldChar := by
  have halike : Alike = fun a b => foldChar a = foldChar b :=
    funext₂ fun _ _ => propext alike_iff
  rw [halike, ← List.forall₂_eq_eq_eq, List.forall₂_map_left_iff, List.forall₂_map_right_iff]

lemma spells_iff : Spells s rule ↔ ∃ word ∈ rule.spellings, word.toList = normalize s := by
  unfold Spells normalize
  simp only [Text.trims_iff, exists_eq_left', forall₂_alike_iff]
  refine exists_congr fun word => and_congr_right fun hword => ?_
  rw [foldChar_of_mem_spellings hword, eq_comm]

/-- A text names at most one rule. -/
lemma Spells.unique (h : Spells s rule) (h' : Spells s other) : rule = other := by
  obtain ⟨word, hword, heq⟩ := spells_iff.mp h
  obtain ⟨word', hword', heq'⟩ := spells_iff.mp h'
  obtain rfl := String.toList_inj.mp (heq.trans heq'.symm)
  exact eq_of_mem_spellings hword hword'

lemma any_spellings_iff : (rule.spellings.any fun word => word.toList == normalize s) = true ↔
    Spells s rule := by
  simp only [List.any_eq_true, beq_iff_eq, spells_iff]

lemma parse_of_spells (h : Spells s rule) : parse s = .ok rule := by
  unfold parse
  split
  · rename_i found hfound
    have hword := List.find?_some hfound
    exact congrArg Except.ok ((any_spellings_iff.mp hword).unique h)
  · rename_i hnone
    have hall : rule ∈ all := by cases rule <;> decide
    exact absurd (any_spellings_iff.mpr h) (List.find?_eq_none.mp hnone rule hall)

lemma parse_of_not_spells (h : ∀ rule, ¬ Spells s rule) : parse s = .error ⟨s⟩ := by
  unfold parse
  split
  · rename_i found hfound
    have hword := List.find?_some hfound
    exact absurd (any_spellings_iff.mp hword) (h found)
  · rfl

theorem parse_eq_ok_iff : parse s = .ok rule ↔ Spells s rule := by
  refine ⟨fun h => ?_, parse_of_spells⟩
  by_cases hsome : ∃ other, Spells s other
  · obtain ⟨other, hother⟩ := hsome
    cases h.symm.trans (parse_of_spells hother)
    exact hother
  · cases h.symm.trans (parse_of_not_spells fun other hother => hsome ⟨other, hother⟩)

theorem parse_eq_error_iff {e : UnknownRule} :
    parse s = .error e ↔ e = ⟨s⟩ ∧ ∀ rule, ¬ Spells s rule := by
  constructor
  · intro h
    have hnone (rule : Overflow) (hrule : Spells s rule) : False := by
      cases h.symm.trans (parse_of_spells hrule)
    cases h.symm.trans (parse_of_not_spells hnone)
    exact ⟨rfl, hnone⟩
  · rintro ⟨rfl, hnone⟩
    exact parse_of_not_spells hnone

/-- What a text names is a matter of its normal form. -/
lemma toOption_parse_congr (h : normalize s = normalize t) :
    (parse s).toOption = (parse t).toOption := by
  unfold parse
  rw [h]
  split <;> rfl

/-- Alike texts have the same normal form, as no blank is like another character. -/
lemma normalize_congr (h : s.toList.Forall₂ Alike t.toList) : normalize s = normalize t := by
  have hblank : Text.isBlank ∘ foldChar = Text.isBlank := funext isBlank_foldChar
  have htrim (cs : List Char) : (Text.trim cs).map foldChar = Text.trim (cs.map foldChar) := by
    unfold Text.trim
    rw [List.dropWhile_map, hblank, ← List.map_reverse, List.dropWhile_map, hblank,
      List.map_reverse]
  unfold normalize
  rw [htrim, htrim, forall₂_alike_iff.mp h]

lemma parse_of_blank (h : Text.trim s.toList = []) : parse s = .error ⟨s⟩ := by
  refine parse_of_not_spells fun rule hrule => ?_
  obtain ⟨word, hword, heq⟩ := spells_iff.mp hrule
  unfold normalize at heq
  rw [h] at heq
  revert word
  cases rule <;> decide

theorem resolve_some_eq (s : String) : resolve (some s) = (parse s).toOption.getD .latest := by
  unfold resolve
  dsimp only
  split
  · rename_i hblank
    rw [parse_of_blank (List.isEmpty_iff.mp hblank)]
    rfl
  · cases parse s <;> rfl

/-- A text names a rule if and only if it is one of the spellings of the rule, up to blanks at its
ends, to the case of the letters of ASCII and to `-` for `_`. Then this is what is read from it, and
it names no other rule. Any other text is refused and returned as it was given. So the blanks around
a text do not matter, nor does what its characters are replaced with, as long as these are alike. A
rule that was not given, or given as a text without one, is `latest`. -/
theorem parse_reads_spellings :
    all.map spellings =
      [["buffer", "buffer_all"], ["drop", "drop_oldest"], ["latest", "keep_latest"], ["error"],
        ["block"]] ∧
    (∀ s rule, parse s = .ok rule ↔ Spells s rule) ∧
    (∀ s e, parse s = .error e ↔ e = ⟨s⟩ ∧ ∀ rule, ¬ Spells s rule) ∧
    (∀ s rule other, Spells s rule → Spells s other → rule = other) ∧
    (∀ front s back : String, Text.AllBlank front.toList → Text.AllBlank back.toList →
      (parse (front ++ (s ++ back))).toOption = (parse s).toOption) ∧
    (∀ s t, s.toList.Forall₂ Alike t.toList → (parse s).toOption = (parse t).toOption) ∧
    resolve none = .latest ∧
    ∀ s, resolve (some s) = (parse s).toOption.getD .latest := by
  refine ⟨rfl, fun _ _ => parse_eq_ok_iff, fun _ _ => parse_eq_error_iff,
    fun _ _ _ => Spells.unique,
    fun front s back hfront hback => toOption_parse_congr ?_,
    fun s t h => toOption_parse_congr (normalize_congr h), rfl, resolve_some_eq⟩
  unfold normalize
  rw [String.toList_append, String.toList_append, Text.trim_append_blank hfront hback]

/-- Blanks of several kinds, capitals and a hyphen do not hide a rule, and a letter that only looks
like one of ASCII makes a text another one. -/
theorem parse_reads_spellings_disguised :
    Spells "\u3000 \tBuffer-ALL\u2009" .buffer ∧ parse "\u3000 \tBuffer-ALL\u2009" = .ok .buffer ∧
      parse " bloc\u212A " = .error ⟨" bloc\u212A "⟩ ∧ ¬ Spells " bloc\u212A " .block ∧
      resolve (some "\u00A0") = .latest := by
  obtain ⟨-, hok, herror, -⟩ := parse_reads_spellings
  have hbuffer : parse "\u3000 \tBuffer-ALL\u2009" = .ok .buffer := by decide +kernel
  have hkelvin : parse " bloc\u212A " = .error ⟨" bloc\u212A "⟩ := by decide +kernel
  exact ⟨(hok _ _).mp hbuffer, hbuffer, hkelvin, ((herror _ _).mp hkelvin).2 .block,
    by decide +kernel⟩

end Parsing

end Delivery.Overflow

end Redial
