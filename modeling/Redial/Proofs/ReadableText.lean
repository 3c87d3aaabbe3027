import Mathlib.Algebra.Group.Nat.Defs
import Mathlib.Data.List.DropRight
import Mathlib.Data.List.TakeWhile
import Mathlib.Tactic.Lemma
import Redial.Duration
import Redial.Text.Quoted

/-!
# Text that can be read back

A number ends where its digits end, and a quoted text at the next quotation mark that is not part of
an escape. So either can be followed by other text and still be told from it: what was written is
determined by what is read. The same holds for the text of a duration, which names its unit. None of
these texts has a control character in it.
-/

namespace Redial

namespace Text

section Pieces

variable {α : Type} {p : α → Bool} {a b r s : List α}

/-- What belongs to a piece is told by its items, and what follows it starts with another one. -/
lemma append_inj_of_all (ha : ∀ x ∈ a, p x = true) (hb : ∀ x ∈ b, p x = true)
    (hr : ∀ x ∈ r.head?, p x = false) (hs : ∀ x ∈ s.head?, p x = false)
    (h : a ++ r = b ++ s) : a = b ∧ r = s := by
  have hstop {l : List α} (hl : ∀ x ∈ l.head?, p x = false) :
      l.takeWhile p = [] ∧ l.dropWhile p = l := by
    cases l with
    | nil => exact ⟨rfl, rfl⟩
    | cons x l =>
      have hx := Bool.eq_false_iff.mp (hl x rfl)
      exact ⟨List.takeWhile_cons_of_neg hx, List.dropWhile_cons_of_neg hx⟩
  have htake := congrArg (List.takeWhile p) h
  have hdrop := congrArg (List.dropWhile p) h
  rw [List.takeWhile_append_of_pos ha, List.takeWhile_append_of_pos hb, (hstop hr).1,
    (hstop hs).1, List.append_nil, List.append_nil] at htake
  rw [List.dropWhile_append_of_pos ha, List.dropWhile_append_of_pos hb, (hstop hr).2,
    (hstop hs).2] at hdrop
  exact ⟨htake, hdrop⟩

end Pieces

section Numbers

variable {b m n : Nat} {r s : List Char}

lemma exists_digit_of_mem {c : Char} (hb : 1 < b) (h : c ∈ b.toDigits n) :
    ∃ d < b, c = d.digitChar := by
  induction n using Nat.strongRecOn with
  | ind n ih =>
    rw [Nat.toDigits_eq_if hb] at h
    split at h
    · rename_i hlt
      exact ⟨n, hlt, List.mem_singleton.mp h⟩
    · rename_i hle
      rcases List.mem_append.mp h with hfront | hlast
      · exact ih (n / b) (Nat.div_lt_self (by omega) hb) hfront
      · exact ⟨n % b, Nat.mod_lt n (by omega), List.mem_singleton.mp hlast⟩

lemma digitChar_inj : ∀ d < 16, ∀ e < 16, d.digitChar = e.digitChar → d = e := by decide

lemma toDigits_inj (hb : 1 < b) (hb' : b ≤ 16) (h : b.toDigits m = b.toDigits n) : m = n := by
  have hdigit {d e : Nat} (hd : d < b) (he : e < b) (hde : d.digitChar = e.digitChar) : d = e :=
    digitChar_inj d (by omega) e (by omega) hde
  have hne {k : Nat} : b.toDigits k ≠ [] := Nat.toDigits_ne_nil
  -- The last digits are the remainders, and what stands before them are the quotients.
  induction m using Nat.strongRecOn generalizing n with
  | ind m ih =>
    rw [Nat.toDigits_eq_if hb, Nat.toDigits_eq_if hb (n := n)] at h
    split at h <;> split at h
    · rename_i hm hn
      exact hdigit hm hn (List.singleton_inj.mp h)
    · exact absurd (List.append_singleton_inj.mp h.symm).1 hne
    · exact absurd (List.append_singleton_inj.mp h).1 hne
    · obtain ⟨hquot, hrem⟩ := List.append_singleton_inj.mp h
      have hdiv := ih (m / b) (Nat.div_lt_self (by omega) hb) hquot
      have hmod := hdigit (Nat.mod_lt m (by omega)) (Nat.mod_lt n (by omega)) hrem
      rw [← Nat.div_add_mod m b, hdiv, hmod, Nat.div_add_mod]

/-- A number in decimal is told by its digits. -/
theorem decimal_append_inj (hr : ∀ c ∈ r.head?, c.isDigit = false)
    (hs : ∀ c ∈ s.head?, c.isDigit = false) (h : decimal m ++ r = decimal n ++ s) :
    m = n ∧ r = s := by
  have hdigits (k : Nat) : ∀ c ∈ decimal k, c.isDigit = true := fun _ hc =>
    Nat.isDigit_of_mem_toDigits (by decide) (by decide) hc
  obtain ⟨hnumber, hrest⟩ := append_inj_of_all (hdigits m) (hdigits n) hr hs h
  exact ⟨toDigits_inj (by decide) (by decide) hnumber, hrest⟩

theorem decimal_inj (h : decimal m = decimal n) : m = n :=
  (decimal_append_inj (r := []) (s := []) nofun nofun (congrArg (· ++ []) h)).1

lemma length_decimal_le {width : Nat} (h : n < 10 ^ width) (hwidth : 0 < width) :
    (decimal n).length ≤ width :=
  (Nat.length_toDigits_le_iff (by decide) hwidth).mpr h

lemma length_padded {width : Nat} (h : n < 10 ^ width) (hwidth : 0 < width) :
    (padded width n).length = width := by
  have hle := length_decimal_le h hwidth
  unfold padded
  rw [List.length_append, List.length_replicate]
  omega

/-- The zeros in front of a number do not change it. -/
lemma padded_inj {width : Nat} (h : padded width m = padded width n) : m = n := by
  have hvalue (k : Nat) : Nat.ofDigitChars 10 (padded width k) 0 = k := by
    unfold padded
    rw [Nat.ofDigitChars_append, Nat.ofDigitChars_replicate_zero, Nat.mul_zero]
    exact Nat.ofDigitChars_ten_toDigits
  rw [← hvalue m, h, hvalue]

/-- Texts of one length that agree up to their trailing zeros are the same. -/
lemma dropTrailingZeros_inj {cs ds : List Char} (hlength : cs.length = ds.length)
    (h : dropTrailingZeros cs = dropTrailingZeros ds) : cs = ds := by
  have hzeros (es : List Char) : es = dropTrailingZeros es ++
      List.replicate (es.length - (dropTrailingZeros es).length) '0' := by
    have hsplit : dropTrailingZeros es ++ es.rtakeWhile (· == '0') = es :=
      List.rdropWhile_append_rtakeWhile
    have hzero : es.rtakeWhile (· == '0') =
        List.replicate (es.rtakeWhile (· == '0')).length '0' := by
      refine List.eq_replicate_iff.mpr ⟨rfl, fun c hc => ?_⟩
      have hc := List.mem_rtakeWhile_imp hc
      exact beq_iff_eq.mp hc
    have hcount := congrArg List.length hsplit
    rw [List.length_append] at hcount
    rw [← hcount, Nat.add_sub_cancel_left, ← hzero, hsplit]
  rw [hzeros cs, hzeros ds, h, hlength]

lemma tail_fraction (width n : Nat) :
    (fraction width n).tail = dropTrailingZeros (padded width n) := by
  unfold fraction
  split
  · rename_i hnone
    exact hnone.symm
  · rfl

lemma fraction_inj {width : Nat} (hm : m < 10 ^ width) (hn : n < 10 ^ width)
    (h : fraction width m = fraction width n) : m = n := by
  rcases Nat.eq_zero_or_pos width with rfl | hwidth
  · omega
  have hdigits : dropTrailingZeros (padded width m) = dropTrailingZeros (padded width n) := by
    rw [← tail_fraction, h, tail_fraction]
  refine padded_inj (dropTrailingZeros_inj ?_ hdigits)
  rw [length_padded hm hwidth, length_padded hn hwidth]

lemma head_fraction {width : Nat} {c : Char} (h : c ∈ (fraction width n ++ r).head?) :
    c = '.' ∨ c ∈ r.head? := by
  unfold fraction at h
  split at h
  · exact Or.inr h
  · exact Or.inl (Option.some.inj h).symm

/-- The character stands in numbers: it is a digit or the point of a fraction. -/
def isNumeral (c : Char) : Bool := c.isDigit || c == '.'

lemma isNumeral_of_mem_fraction {width : Nat} {c : Char} (h : c ∈ fraction width n) :
    isNumeral c = true := by
  have hdigit : ∀ d ∈ dropTrailingZeros (padded width n), d.isDigit = true := by
    intro d hd
    have hd : d ∈ padded width n := (List.rdropWhile_prefix _ _).subset hd
    rcases List.mem_append.mp hd with hzero | hd
    · rw [List.eq_of_mem_replicate hzero]
      rfl
    · exact Nat.isDigit_of_mem_toDigits (by decide) (by decide) hd
  unfold fraction at h
  split at h
  · cases h
  · rcases List.mem_cons.mp h with rfl | hc
    · rfl
    · exact Bool.or_eq_true_iff.mpr (Or.inl (hdigit c hc))

end Numbers

section Quoting

/-- The characters that have an escape of their own, with the second character of this escape. -/
def marks : List (Char × Char) :=
  [('\x00', '0'), ('\t', 't'), ('\r', 'r'), ('\n', 'n'), ('\\', '\\'), ('"', '"')]

/-- The three forms in which a character is written. -/
inductive Written (c : Char) : List Char → Prop where
  | marked {mark} (h : (c, mark) ∈ marks) : Written c ['\\', mark]
  | coded : Written c ('\\' :: 'u' :: '\x7b' :: (Nat.toDigits 16 c.toNat ++ ['\x7d']))
  | plain (hslash : c ≠ '\\') (hquote : c ≠ '"') (hvisible : isHidden c = false) : Written c [c]

lemma written_escape (c : Char) : Written c (escape c) := by
  unfold escape
  split_ifs with hnul htab hreturn hfeed hslash hquote hhidden
  · exact .marked (by simp [marks, hnul])
  · exact .marked (by simp [marks, htab])
  · exact .marked (by simp [marks, hreturn])
  · exact .marked (by simp [marks, hfeed])
  · exact .marked (by simp [marks, hslash])
  · exact .marked (by simp [marks, hquote])
  · exact .coded
  · exact .plain hslash hquote (Bool.eq_false_iff.mpr hhidden)

lemma fst_eq_of_marks : ∀ p ∈ marks, ∀ q ∈ marks, p.2 = q.2 → p.1 = q.1 := by decide

lemma mark_ne_u : ∀ p ∈ marks, p.2 ≠ 'u' := by decide

lemma digitChar_ne_brace : ∀ d < 16, (d.digitChar != '\x7d') = true := by decide

lemma code_append_inj {m n : Nat} {r s : List Char}
    (h : Nat.toDigits 16 m ++ '\x7d' :: r = Nat.toDigits 16 n ++ '\x7d' :: s) : m = n ∧ r = s := by
  have hdigits (k : Nat) : ∀ c ∈ Nat.toDigits 16 k, (c != '\x7d') = true := by
    intro c hc
    obtain ⟨d, hd, rfl⟩ := exists_digit_of_mem (by decide) hc
    exact digitChar_ne_brace d hd
  have hbrace (l : List Char) : ∀ c ∈ ('\x7d' :: l).head?, (c != '\x7d') = false := by
    rintro c ⟨rfl⟩
    rfl
  obtain ⟨hcode, hrest⟩ := append_inj_of_all (hdigits m) (hdigits n) (hbrace r) (hbrace s) h
  exact ⟨toDigits_inj (by decide) (by decide) hcode, List.tail_eq_of_cons_eq hrest⟩

variable {c d : Char} {cs ds r s v w : List Char}

/-- A written character ends before the next one starts. -/
lemma Written.append_inj (hc : Written c v) (hd : Written d w) (h : v ++ r = w ++ s) :
    c = d ∧ r = s := by
  cases hc with
  | marked hc =>
    cases hd with
    | marked hd =>
      simp only [List.cons_append, List.nil_append, List.cons.injEq, true_and] at h
      exact ⟨fst_eq_of_marks _ hc _ hd h.1, h.2⟩
    | coded =>
      simp only [List.cons_append, List.nil_append, List.cons.injEq, true_and] at h
      exact absurd h.1 (mark_ne_u _ hc)
    | plain hslash => exact absurd (List.cons.inj h).1.symm hslash
  | coded =>
    cases hd with
    | marked hd =>
      simp only [List.cons_append, List.nil_append, List.cons.injEq, true_and] at h
      exact absurd h.1.symm (mark_ne_u _ hd)
    | coded =>
      simp only [List.cons_append, List.append_assoc, List.nil_append, List.cons.injEq,
        true_and] at h
      obtain ⟨hcode, hrest⟩ := code_append_inj h
      exact ⟨Char.toNat_inj.mp hcode, hrest⟩
    | plain hslash => exact absurd (List.cons.inj h).1.symm hslash
  | plain hslash =>
    cases hd with
    | marked | coded => exact absurd (List.cons.inj h).1 hslash
    | plain => exact List.cons.inj h

/-- A written character is not the quotation mark that ends the text. -/
lemma Written.ne_quote (hc : Written c v) : v ++ r ≠ '"' :: s := by
  cases hc with
  | marked | coded => exact fun h => absurd (List.cons.inj h).1 (by decide)
  | plain _ hquote => exact fun h => hquote (List.cons.inj h).1

/-- A quoted text ends at its second quotation mark, whatever follows. -/
theorem quoted_append_inj (h : quoted cs ++ r = quoted ds ++ s) : cs = ds ∧ r = s := by
  have hinner : cs.flatMap escape ++ '"' :: r = ds.flatMap escape ++ '"' :: s := by
    simpa only [quoted, List.cons_append, List.append_assoc, List.nil_append, List.cons.injEq,
      true_and] using h
  clear h
  -- Either both texts go on with a written character, or both end here: no character is written as
  -- the mark alone.
  induction cs generalizing ds with
  | nil =>
    cases ds with
    | nil => exact ⟨rfl, (List.cons.inj hinner).2⟩
    | cons d ds =>
      rw [List.flatMap_cons, List.append_assoc] at hinner
      exact absurd hinner.symm (written_escape d).ne_quote
  | cons c cs ih =>
    rw [List.flatMap_cons, List.append_assoc] at hinner
    cases ds with
    | nil => exact absurd hinner (written_escape c).ne_quote
    | cons d ds =>
      rw [List.flatMap_cons, List.append_assoc] at hinner
      obtain ⟨rfl, hrest⟩ := (written_escape c).append_inj (written_escape d) hinner
      obtain ⟨rfl, hend⟩ := ih hrest
      exact ⟨rfl, hend⟩

theorem quoted_inj (h : quoted cs = quoted ds) : cs = ds :=
  (quoted_append_inj (r := []) (s := []) (congrArg (· ++ []) h)).1

end Quoting

section Controls

/-- No character of the text is a control. -/
def Shows (cs : List Char) : Prop := ∀ c ∈ cs, isControl c = false

instance : DecidablePred Shows := fun cs => List.decidableBAll (isControl · = false) cs

variable {c : Char} {cs v : List Char}

lemma shows_append {ds : List Char} (hc : Shows cs) (hd : Shows ds) : Shows (cs ++ ds) := fun c h =>
  (List.mem_append.mp h).elim (hc c) (hd c)

lemma isControl_digitChar : ∀ d < 16, isControl d.digitChar = false := by decide

lemma shows_toDigits {b : Nat} (hb : 1 < b) (hb' : b ≤ 16) (n : Nat) : Shows (b.toDigits n) := by
  intro c hc
  obtain ⟨d, hd, rfl⟩ := exists_digit_of_mem hb hc
  exact isControl_digitChar d (by omega)

lemma shows_decimal (n : Nat) : Shows (decimal n) := shows_toDigits (by decide) (by decide) n

lemma isControl_marks : ∀ p ∈ marks, isControl p.2 = false := by decide

lemma isControl_of_not_isHidden (h : isHidden c = false) : isControl c = false :=
  (Bool.or_eq_false_iff.mp h).1

lemma Written.shows (hc : Written c v) : Shows v := by
  cases hc with
  | @marked mark hmark =>
    intro d hd
    rcases List.mem_cons.mp hd with rfl | hd
    · rfl
    · rw [List.mem_singleton.mp hd]
      exact isControl_marks _ hmark
  | coded =>
    have hcode := shows_append (shows_toDigits (b := 16) (by decide) (by decide) c.toNat)
      (show Shows ['\x7d'] by decide)
    exact shows_append (show Shows ['\\', 'u', '\x7b'] by decide) hcode
  | plain _ _ hvisible =>
    intro d hd
    rw [List.mem_singleton.mp hd]
    exact isControl_of_not_isHidden hvisible

lemma shows_quoted (cs : List Char) : Shows (quoted cs) := by
  refine shows_append (shows_append (by decide) fun c hc => ?_) (by decide)
  obtain ⟨d, -, hcd⟩ := List.mem_flatMap.mp hc
  exact (written_escape d).shows c hcd

lemma shows_fraction (width n : Nat) : Shows (fraction width n) := by
  intro c hc
  rcases Bool.or_eq_true_iff.mp (isNumeral_of_mem_fraction hc) with hdigit | hpoint
  · have hbounds := Bool.and_eq_true_iff.mp hdigit
    have hlow : 48 ≤ c.toNat := UInt32.le_iff_toNat_le.mp (of_decide_eq_true hbounds.1)
    have hhigh : c.toNat ≤ 57 := UInt32.le_iff_toNat_le.mp (of_decide_eq_true hbounds.2)
    simp only [isControl, Bool.or_eq_false_iff, Bool.and_eq_false_iff, decide_eq_false_iff_not]
    omega
  · rw [beq_iff_eq.mp hpoint]
    rfl

end Controls

end Text

namespace Duration

/-- The number of decimals of a duration in its unit. -/
def decimals (d : Duration) : Nat :=
  if d.seconds > 0 then 9
  else if d.nanos ≥ 1_000_000 then 6
  else if d.nanos ≥ 1_000 then 3
  else 0

/-- The name of the unit with so many decimals. -/
def unitName : Nat → List Char
  | 9 => ['s']
  | 6 => ['m', 's']
  | 3 => ['µ', 's']
  | _ => ['n', 's']

variable {d e : Duration}

lemma decimals_cases (d : Duration) :
    d.decimals = 9 ∨ d.decimals = 6 ∨ d.decimals = 3 ∨ d.decimals = 0 := by
  unfold decimals
  split
  · exact Or.inl rfl
  · split
    · exact Or.inr (Or.inl rfl)
    · split
      · exact Or.inr (Or.inr (Or.inl rfl))
      · exact Or.inr (Or.inr (Or.inr rfl))

/-- Every text of a duration has the same three parts. -/
lemma chars_eq (d : Duration) : d.chars = Text.decimal (d.nanos / 10 ^ d.decimals) ++
    (Text.fraction d.decimals (d.nanos % 10 ^ d.decimals) ++ unitName d.decimals) := by
  unfold chars decimals
  split
  · rw [List.append_assoc]
    rfl
  · split
    · rw [List.append_assoc]
      rfl
    · split
      · rw [List.append_assoc]
        rfl
      · rw [Nat.pow_zero, Nat.div_one, Nat.mod_one]
        rfl

lemma unitName_not_numeral (d : Duration) :
    ∀ c ∈ (unitName d.decimals).head?, Text.isNumeral c = false := by
  rcases d.decimals_cases with h | h | h | h <;> rw [h] <;> rintro c ⟨rfl⟩ <;> rfl

lemma decimals_inj (h : unitName d.decimals = unitName e.decimals) : d.decimals = e.decimals := by
  rcases d.decimals_cases with hd | hd | hd | hd <;>
    rcases e.decimals_cases with he | he | he | he <;>
    rw [hd, he] at h ⊢ <;> cases h

/-- The text of a duration tells its length. -/
theorem chars_inj (h : d.chars = e.chars) : d = e := by
  have hpoint (c : Duration) : ∀ x ∈ (Text.fraction c.decimals (c.nanos % 10 ^ c.decimals) ++
      unitName c.decimals).head?, x.isDigit = false := by
    intro x hx
    rcases Text.head_fraction hx with rfl | hx
    · rfl
    · exact (Bool.or_eq_false_iff.mp (c.unitName_not_numeral x hx)).1
  rw [chars_eq, chars_eq] at h
  obtain ⟨hwhole, hrest⟩ := Text.decimal_append_inj (hpoint d) (hpoint e) h
  obtain ⟨hpart, hunit⟩ := Text.append_inj_of_all (fun _ => Text.isNumeral_of_mem_fraction)
    (fun _ => Text.isNumeral_of_mem_fraction) d.unitName_not_numeral e.unitName_not_numeral hrest
  have hdecimals := decimals_inj hunit
  rw [← hdecimals] at hwhole hpart
  have hpos : 0 < 10 ^ d.decimals := Nat.pow_pos (by decide)
  have hmod := Text.fraction_inj (Nat.mod_lt _ hpos) (Nat.mod_lt _ hpos) hpart
  apply Duration.ext
  rw [← Nat.div_add_mod d.nanos (10 ^ d.decimals), hwhole, hmod, Nat.div_add_mod]

lemma shows_chars (d : Duration) : Text.Shows d.chars := by
  rw [chars_eq]
  refine Text.shows_append (Text.shows_decimal _) (Text.shows_append (Text.shows_fraction _ _) ?_)
  rcases d.decimals_cases with h | h | h | h <;> rw [h] <;> decide

end Duration

end Redial
