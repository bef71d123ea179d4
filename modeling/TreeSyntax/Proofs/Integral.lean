import Mathlib.Tactic.Ring
import TreeSyntax.Json.Printer
import TreeSyntax.Grammar.Pattern

/-!
# Integral numbers have no point

In positional notation the shortest digits of a magnitude need a decimal point exactly when its
value is not integral.  An integral value is a point of the grid of units, so no finer grid is ever
looked at; and an integer that rounds to a magnitude whose last place is a fraction can only be its
value, for the two are multiples of that last place less than one place apart.
-/

namespace TreeSyntax

namespace Binary64

def IsIntegral (rank : Nat) : Prop := denominator rank ∣ numerator rank

instance (rank : Nat) : Decidable (IsIntegral rank) :=
  inferInstanceAs (Decidable (denominator rank ∣ numerator rank))

/-! ## Magnitudes -/

theorem mantissa_lt (rank : Nat) : mantissa rank < 2 * binadeSize := by
  have hmod : rank % binadeSize < binadeSize := Nat.mod_lt _ (Nat.two_pow_pos _)
  unfold mantissa
  split <;> omega

theorem mantissa_pos {rank : Nat} (h : rank ≠ 0) : 0 < mantissa rank := by
  have hsize : 0 < binadeSize := Nat.two_pow_pos _
  unfold mantissa
  split <;> omega

theorem numerator_pos {rank : Nat} (h : rank ≠ 0) : 0 < numerator rank :=
  Nat.mul_pos (mantissa_pos h) (Nat.two_pow_pos _)

@[simp] theorem isIntegral_zero : IsIntegral 0 := by
  have hnumerator : numerator 0 = 0 := by simp [numerator, mantissa]
  rw [IsIntegral, hnumerator]
  exact Nat.dvd_zero _

theorem isIntegral_of_exponent {rank : Nat} (h : 0 ≤ exponent rank) : IsIntegral rank := by
  have hplaces : (-exponent rank).toNat = 0 := by omega
  simp [IsIntegral, denominator, hplaces]

theorem numerator_of_exponent {rank : Nat} (h : exponent rank < 0) :
    numerator rank = mantissa rank := by
  have hplaces : (exponent rank).toNat = 0 := by omega
  simp [numerator, hplaces]

/-! ## Decimals that round to a magnitude -/

private theorem between_of_roundsTo {rank : Nat} {decimal : Decimal}
    (h : roundsTo rank decimal = true) :
    (onCommonScale rank decimal (lowerQuarters rank)).2 ≤
        (onCommonScale rank decimal (lowerQuarters rank)).1 ∧
      (onCommonScale rank decimal (upperQuarters rank)).1 ≤
        (onCommonScale rank decimal (upperQuarters rank)).2 := by
  unfold roundsTo at h
  split at h <;> simp only [decide_eq_true_eq] at h <;> omega

private theorem roundsTo_of_exact {rank : Nat} {decimal : Decimal} (hrank : rank ≠ 0)
    (h : (onCommonScale rank decimal (4 * mantissa rank)).1 =
      (onCommonScale rank decimal (4 * mantissa rank)).2) :
    roundsTo rank decimal = true := by
  have hmantissa := mantissa_pos hrank
  have hlower : lowerQuarters rank < 4 * mantissa rank := by
    unfold lowerQuarters
    split <;> omega
  have hupper : 4 * mantissa rank < upperQuarters rank := by simp [upperQuarters]
  simp only [onCommonScale] at h
  have hscale (left right : Nat) (hlt : left < right) :
      left * Nat.pow 2 (quarterExponent rank).toNat * Nat.pow 10 (-decimal.exponent).toNat <
        right * Nat.pow 2 (quarterExponent rank).toNat * Nat.pow 10 (-decimal.exponent).toNat :=
    Nat.mul_lt_mul_of_pos_right
      (Nat.mul_lt_mul_of_pos_right hlt (Nat.two_pow_pos _)) (Nat.pow_pos (by decide))
  have hbelow := hscale _ _ hlower
  have habove := hscale _ _ hupper
  simp only [roundsTo, onCommonScale, h]
  split <;> simp only [decide_eq_true_eq] <;> omega

/-- When the last place of a magnitude is a fraction, an integer that rounds to it is its value. -/
theorem eq_of_roundsTo {rank value : Nat} {decimal : Decimal} (hexponent : exponent rank < 0)
    (hvalue : decimal.digits * 10 ^ decimal.exponent.toNat =
      value * 10 ^ (-decimal.exponent).toNat)
    (h : roundsTo rank decimal = true) : value * denominator rank = mantissa rank := by
  obtain ⟨hlower, hupper⟩ := between_of_roundsTo h
  have hwhole : (quarterExponent rank).toNat = 0 := by
    simp only [quarterExponent]
    omega
  have hquarters : (-quarterExponent rank).toNat = (-exponent rank).toNat + 2 := by
    simp only [quarterExponent]
    omega
  have hscaled : decimal.digits * Nat.pow 10 decimal.exponent.toNat *
      Nat.pow 2 ((-exponent rank).toNat + 2) =
        4 * (value * denominator rank) * 10 ^ (-decimal.exponent).toNat := by
    calc decimal.digits * 10 ^ decimal.exponent.toNat * 2 ^ ((-exponent rank).toNat + 2)
        = value * 10 ^ (-decimal.exponent).toNat * 2 ^ ((-exponent rank).toNat + 2) := by
          rw [hvalue]
      _ = 4 * (value * 2 ^ (-exponent rank).toNat) * 10 ^ (-decimal.exponent).toNat := by ring
  simp only [onCommonScale, hwhole, hquarters, hscaled] at hlower hupper
  have hpower : 0 < 10 ^ (-decimal.exponent).toNat := Nat.pow_pos (by decide)
  have hleast : lowerQuarters rank ≤ 4 * (value * denominator rank) := by
    apply Nat.le_of_mul_le_mul_right _ hpower
    simpa using hlower
  have hgreatest : 4 * (value * denominator rank) ≤ upperQuarters rank := by
    apply Nat.le_of_mul_le_mul_right _ hpower
    simpa using hupper
  unfold lowerQuarters at hleast
  unfold upperQuarters at hgreatest
  split at hleast <;> omega

/-- On the grid of units an integral magnitude is a point of its own. -/
theorem roundsTo_gridFloor_of_isIntegral {rank : Nat} (hrank : rank ≠ 0) (h : IsIntegral rank) :
    roundsTo rank (gridFloor rank 0) = true := by
  apply roundsTo_of_exact hrank
  have hfloor : numerator rank / denominator rank * denominator rank = numerator rank :=
    Nat.div_mul_cancel h
  have hplaces : (-quarterExponent rank).toNat + (exponent rank).toNat =
      (-exponent rank).toNat + (quarterExponent rank).toNat + 2 := by
    simp only [quarterExponent]
    omega
  have hscaled : numerator rank / denominator rank * 2 ^ (-quarterExponent rank).toNat =
      4 * mantissa rank * 2 ^ (quarterExponent rank).toNat := by
    apply Nat.eq_of_mul_eq_mul_right (Nat.two_pow_pos (exponent rank).toNat)
    calc numerator rank / denominator rank * 2 ^ (-quarterExponent rank).toNat *
          2 ^ (exponent rank).toNat
        = numerator rank / denominator rank * denominator rank *
            2 ^ (quarterExponent rank).toNat * 4 := by
          rw [Nat.mul_assoc, ← Nat.pow_add, hplaces, denominator, Nat.pow_eq]
          ring
      _ = mantissa rank * 2 ^ (exponent rank).toNat * 2 ^ (quarterExponent rank).toNat * 4 := by
          rw [hfloor, numerator, Nat.pow_eq]
      _ = 4 * mantissa rank * 2 ^ (quarterExponent rank).toNat * 2 ^ (exponent rank).toNat := by
          ring
  simpa [onCommonScale, gridFloor] using hscaled

/-! ## The search -/

private theorem nearer_eq_or (tie : TieRule) (rank : Nat) (below above : Decimal) :
    nearer tie rank below above = below ∨ nearer tie rank below above = above := by
  unfold nearer
  split
  · exact .inl rfl
  · split
    · exact .inr rfl
    · cases tie with
      | upward => exact .inr rfl
      | toEven =>
          dsimp only
          split
          · exact .inl rfl
          · exact .inr rfl

theorem onGrid?_eq_some {tie : TieRule} {rank : Nat} {place : Int} {decimal : Decimal}
    (h : onGrid? tie rank place = some decimal) :
    decimal.exponent = place ∧ roundsTo rank decimal = true := by
  unfold onGrid? at h
  dsimp only at h
  split at h
  · rename_i hbelow habove
    rcases nearer_eq_or tie rank (gridFloor rank place)
      ⟨(gridFloor rank place).digits + 1, place⟩ with hnearer | hnearer
    · rw [hnearer] at h
      obtain rfl := Option.some.inj h
      exact ⟨rfl, hbelow⟩
    · rw [hnearer] at h
      obtain rfl := Option.some.inj h
      exact ⟨rfl, habove⟩
  · rename_i hbelow habove
    obtain rfl := Option.some.inj h
    exact ⟨rfl, hbelow⟩
  · rename_i hbelow habove
    obtain rfl := Option.some.inj h
    exact ⟨rfl, habove⟩
  · cases h

private theorem onGrid?_ne_none {tie : TieRule} {rank : Nat} {place : Int}
    (h : roundsTo rank (gridFloor rank place) = true) : onGrid? tie rank place ≠ none := by
  unfold onGrid?
  simp only [h]
  split <;> simp_all

private theorem mem_before_of_range {count size : Nat} {before after : List Nat}
    (h : List.range size = before ++ count :: after) :
    count < size ∧ before = List.range count := by
  have hmem : count ∈ List.range size := by simp [h]
  rw [List.range_eq_range', List.range'_eq_append_iff] at h
  obtain ⟨split, -, hbefore, hafter⟩ := h
  obtain ⟨hcount, -⟩ := List.range'_eq_cons_iff.1 hafter.symm
  have hsplit : split = count := by omega
  exact ⟨List.mem_range.1 hmem, by rw [hbefore, hsplit, List.range_eq_range']⟩

theorem shortest_cases (tie : TieRule) (rank : Nat) :
    (∃ (count : Nat) (decimal : Decimal), count < mostDigits ∧
      onGrid? tie rank (leadingExponent rank - count) = some decimal ∧
      (∀ earlier : Nat, earlier < count →
        onGrid? tie rank (leadingExponent rank - earlier) = none) ∧
      shortest tie rank = withoutTrailingZeros mostDigits decimal) ∨
    ((∀ count : Nat, count < mostDigits →
        onGrid? tie rank (leadingExponent rank - count) = none) ∧
      shortest tie rank = gridFloor rank (leadingExponent rank - mostDigits)) := by
  simp only [shortest, List.findSome?_map]
  split
  · rename_i decimal hfound
    obtain ⟨before, count, after, hrange, hcount, hbefore⟩ := List.findSome?_eq_some_iff.1 hfound
    obtain ⟨hmost, rfl⟩ := mem_before_of_range hrange
    refine .inl ⟨count, decimal, hmost, hcount, ?_, rfl⟩
    intro earlier hearlier
    exact hbefore earlier (List.mem_range.2 hearlier)
  · rename_i hnone
    refine .inr ⟨?_, rfl⟩
    intro count hcount
    exact List.findSome?_eq_none_iff.1 hnone count (List.mem_range.2 hcount)

theorem withoutTrailingZeros_scaled (count : Nat) (decimal : Decimal) :
    ∃ zeros : Nat,
      (withoutTrailingZeros count decimal).exponent = decimal.exponent + zeros ∧
      decimal.digits = (withoutTrailingZeros count decimal).digits * 10 ^ zeros := by
  induction count generalizing decimal with
  | zero => exact ⟨0, by simp [withoutTrailingZeros]⟩
  | succ count ih =>
      rw [withoutTrailingZeros]
      split
      · rename_i hzero
        obtain ⟨zeros, hexponent, hdigits⟩ := ih ⟨decimal.digits / 10, decimal.exponent + 1⟩
        refine ⟨zeros + 1, ?_, ?_⟩
        · rw [hexponent]
          push_cast
          ring
        · have hscaled : decimal.digits / 10 = _ := hdigits
          rw [pow_succ, ← Nat.mul_assoc, ← hscaled]
          omega
      · exact ⟨0, by simp⟩

/-! ## Where the shortest digits end -/

theorem one_le_digitCount (value : Nat) : 1 ≤ digitCount value :=
  List.length_pos_iff.2 Nat.toDigits_ne_nil

private theorem leadingExponent_nonneg_of_isIntegral {rank : Nat} (hrank : rank ≠ 0)
    (h : IsIntegral rank) : 0 ≤ leadingExponent rank := by
  have hcount := one_le_digitCount (numerator rank / denominator rank)
  rw [leadingExponent, if_pos (Nat.le_of_dvd (numerator_pos hrank) h)]
  omega

private theorem shortest_exponent_nonneg {tie : TieRule} {rank : Nat} (hrank : rank ≠ 0)
    (h : IsIntegral rank) : 0 ≤ (shortest tie rank).exponent := by
  have hleading := leadingExponent_nonneg_of_isIntegral hrank h
  have hunits : onGrid? tie rank (leadingExponent rank - (leadingExponent rank).toNat) ≠ none := by
    rw [Int.toNat_of_nonneg hleading, Int.sub_self]
    exact onGrid?_ne_none (roundsTo_gridFloor_of_isIntegral hrank h)
  rcases shortest_cases tie rank with ⟨count, decimal, -, hcount, hearlier, hshortest⟩ |
    ⟨hnone, hshortest⟩
  · obtain ⟨zeros, hexponent, -⟩ := withoutTrailingZeros_scaled mostDigits decimal
    rw [hshortest, hexponent, (onGrid?_eq_some hcount).1]
    have hle : count ≤ (leadingExponent rank).toNat := by
      by_contra hlt
      exact hunits (hearlier _ (by omega))
    omega
  · have hle : mostDigits ≤ (leadingExponent rank).toNat := by
      by_contra hlt
      exact hunits (hnone _ (by omega))
    have hplace : (shortest tie rank).exponent = leadingExponent rank - mostDigits := by
      rw [hshortest, gridFloor]
    omega

/-- A value with more digits than the search looks at is too great to have a fraction. -/
private theorem isIntegral_of_mostDigits_le {rank : Nat} (h : mostDigits ≤ leadingExponent rank) :
    IsIntegral rank := by
  by_contra hfraction
  have hexponent : exponent rank < 0 := by
    by_contra hnot
    exact hfraction (isIntegral_of_exponent (by omega))
  have hdigits : ¬ digitCount (numerator rank / denominator rank) ≤ mostDigits := by
    have hcount := one_le_digitCount ((denominator rank - 1) / numerator rank)
    unfold leadingExponent at h
    split at h <;> omega
  rw [digitCount, Nat.length_toDigits_le_iff (by decide) (by decide), Nat.not_lt] at hdigits
  have hnumerator : 10 ^ mostDigits ≤ mantissa rank := by
    rw [← numerator_of_exponent hexponent]
    exact hdigits.trans (Nat.div_le_self _ _)
  have hlt := mantissa_lt rank
  have hsizes : 2 * binadeSize ≤ 10 ^ mostDigits := by decide
  omega

private theorem isIntegral_of_shortest_exponent {tie : TieRule} {rank : Nat}
    (h : 0 ≤ (shortest tie rank).exponent) : IsIntegral rank := by
  rcases shortest_cases tie rank with ⟨count, decimal, -, hcount, -, hshortest⟩ | ⟨-, hshortest⟩
  · by_cases hexponent : 0 ≤ exponent rank
    · exact isIntegral_of_exponent hexponent
    · obtain ⟨zeros, hplace, hdigits⟩ := withoutTrailingZeros_scaled mostDigits decimal
      rw [← hshortest] at hplace hdigits
      have hzeros : zeros + decimal.exponent.toNat =
          (shortest tie rank).exponent.toNat + (-decimal.exponent).toNat := by omega
      have hvalue : decimal.digits * 10 ^ decimal.exponent.toNat =
          (shortest tie rank).digits * 10 ^ (shortest tie rank).exponent.toNat *
            10 ^ (-decimal.exponent).toNat := by
        rw [hdigits, Nat.mul_assoc, ← Nat.pow_add, hzeros, Nat.pow_add, Nat.mul_assoc]
      have hmantissa := eq_of_roundsTo (by omega) hvalue (onGrid?_eq_some hcount).2
      rw [IsIntegral, numerator_of_exponent (by omega), ← hmantissa]
      exact Nat.dvd_mul_left _ _
  · rw [hshortest, gridFloor] at h
    exact isIntegral_of_mostDigits_le (by simpa using h)

theorem shortest_exponent_nonneg_iff {tie : TieRule} {rank : Nat} (hrank : rank ≠ 0) :
    0 ≤ (shortest tie rank).exponent ↔ IsIntegral rank :=
  ⟨isIntegral_of_shortest_exponent, shortest_exponent_nonneg hrank⟩

end Binary64

/-! ## The plain text -/

namespace Pattern

theorem isDigit_toDigits {value : Nat} {digit : Char} (h : digit ∈ Nat.toDigits 10 value) :
    isDigit digit = true := by
  have hdigit := Nat.isDigit_of_mem_toDigits (by decide) (by decide) h
  rw [Char.isDigit, Bool.and_eq_true, decide_eq_true_eq, decide_eq_true_eq] at hdigit
  simp only [isDigit, Bool.and_eq_true, decide_eq_true_eq]
  exact hdigit

end Pattern

namespace NumberLayout

open Pattern Binary64

theorem allDigits_positionalText_iff (digits : List Char) (place : Int)
    (hdigits : ∀ digit ∈ digits, isDigit digit = true) :
    (∀ character ∈ plain.positionalText digits place, isDigit character = true) ↔ 0 ≤ place := by
  have hpoint : isDigit '.' = false := by decide
  have hzero : isDigit '0' = true := by decide
  unfold positionalText
  split
  · rename_i hplace
    simp only [hplace, iff_true, List.mem_append]
    rintro character ((hmem | hmem) | hmem)
    · exact hdigits character hmem
    · rw [List.eq_of_mem_replicate hmem]
      exact hzero
    · cases hmem
  · rename_i hplace
    refine iff_of_false ?_ hplace
    intro hall
    have hmem : isDigit '.' = true := by
      apply hall
      dsimp only
      split <;> simp
    rw [hpoint] at hmem
    cases hmem

def Numeral (character : Char) : Prop :=
  isDigit character = true ∨ character = '.' ∨ character = '-'

private theorem numeral_of_mem_positionalText {digits : List Char} {place : Int} {character : Char}
    (hdigits : ∀ digit ∈ digits, isDigit digit = true)
    (h : character ∈ plain.positionalText digits place) : Numeral character := by
  have hzeros : ∀ count, character ∈ zeros count → Numeral character := by
    intro count hmem
    rw [List.eq_of_mem_replicate hmem]
    exact .inl (by decide)
  unfold positionalText at h
  dsimp only at h
  split at h
  · rcases List.mem_append.1 h with hmem | hmem
    · rcases List.mem_append.1 hmem with hmem | hmem
      · exact .inl (hdigits character hmem)
      · exact hzeros _ hmem
    · cases hmem
  · split at h
    · rcases List.mem_append.1 h with hmem | hmem
      · exact .inl (hdigits character (List.mem_of_mem_take hmem))
      · rcases List.mem_cons.1 hmem with rfl | hmem
        · exact .inr (.inl rfl)
        · exact .inl (hdigits character (List.mem_of_mem_drop hmem))
    · rcases List.mem_append.1 h with hmem | hmem
      · rcases List.mem_cons.1 hmem with rfl | hmem
        · exact .inl (by decide)
        · rcases List.mem_cons.1 hmem with rfl | hmem
          · exact .inr (.inl rfl)
          · exact hzeros _ hmem
      · exact .inl (hdigits character hmem)

theorem positionalText_ne_nil {digits : List Char} (hdigits : digits ≠ []) (place : Int) :
    plain.positionalText digits place ≠ [] := by
  unfold positionalText
  dsimp only
  split
  · simp [hdigits]
  · split <;> simp

@[simp] theorem magnitudeText_zero : plain.magnitudeText 0 = ['0'] := rfl

theorem magnitudeText_of_ne_zero {rank : Nat} (h : rank ≠ 0) :
    plain.magnitudeText rank =
      plain.positionalText (Nat.toDigits 10 (shortest .upward rank).digits)
        (shortest .upward rank).exponent := by
  rw [magnitudeText, if_neg h]
  rfl

theorem numeral_of_mem_magnitudeText {rank : Nat} {character : Char}
    (h : character ∈ plain.magnitudeText rank) : Numeral character := by
  by_cases hrank : rank = 0
  · rw [hrank, magnitudeText_zero, List.mem_singleton] at h
    exact h ▸ .inl (by decide)
  · rw [magnitudeText_of_ne_zero hrank] at h
    exact numeral_of_mem_positionalText (fun _ => isDigit_toDigits) h

@[simp] theorem magnitudeText_ne_nil (rank : Nat) : plain.magnitudeText rank ≠ [] := by
  by_cases hrank : rank = 0
  · rw [hrank, magnitudeText_zero]
    exact List.cons_ne_nil _ _
  · rw [magnitudeText_of_ne_zero hrank]
    exact positionalText_ne_nil Nat.toDigits_ne_nil _

theorem allDigits_magnitudeText_iff (rank : Nat) :
    (∀ character ∈ plain.magnitudeText rank, isDigit character = true) ↔ IsIntegral rank := by
  by_cases hrank : rank = 0
  · subst hrank
    simp [isDigit]
  · rw [magnitudeText_of_ne_zero hrank,
      allDigits_positionalText_iff _ _ fun _ => isDigit_toDigits,
      shortest_exponent_nonneg_iff hrank]

end NumberLayout

/-! ## The plain text of a number -/

namespace Number

open Pattern NumberLayout

def isNegative : Number → Bool
  | .integer value => decide (value < 0)
  | .float value => value.negative

def magnitude : Number → List Char
  | .integer value => Nat.toDigits 10 value.natAbs
  | .float value => plain.magnitudeText value.rank

def IsIntegral : Number → Prop
  | .integer _ => True
  | .float value => Binary64.IsIntegral value.rank

/-- Not below zero, and without a fraction.  A float with the sign of minus zero is below zero. -/
def IsNatural (number : Number) : Prop :=
  number.isNegative = false ∧ number.IsIntegral

theorem text_plain (number : Number) :
    number.text .plain =
      String.ofList
        (if number.isNegative then '-' :: number.magnitude else number.magnitude) := by
  cases number with
  | integer value => simp [text, integerText, isNegative, magnitude]
  | float value => rfl

@[simp] theorem magnitude_ne_nil (number : Number) : number.magnitude ≠ [] := by
  cases number with
  | integer value => exact Nat.toDigits_ne_nil
  | float value => exact magnitudeText_ne_nil value.rank

private theorem numeral_of_mem_magnitude {number : Number} {character : Char}
    (h : character ∈ number.magnitude) : Numeral character := by
  cases number with
  | integer value => exact .inl (isDigit_toDigits h)
  | float value => exact numeral_of_mem_magnitudeText h

theorem allDigits_magnitude_iff (number : Number) :
    (∀ character ∈ number.magnitude, isDigit character = true) ↔ number.IsIntegral := by
  cases number with
  | integer value => exact iff_of_true (fun _ => isDigit_toDigits) trivial
  | float value => exact allDigits_magnitudeText_iff value.rank

theorem numeral_of_mem_text {number : Number} {character : Char}
    (h : character ∈ (number.text .plain).toList) : Numeral character := by
  rw [text_plain, String.toList_ofList] at h
  split at h
  · rcases List.mem_cons.1 h with rfl | hmem
    · exact .inr (.inr rfl)
    · exact numeral_of_mem_magnitude hmem
  · exact numeral_of_mem_magnitude h

theorem digits_accepts_text_iff (number : Number) :
    Pattern.digits.accepts (number.text .plain) = true ↔ number.IsNatural := by
  have hminus : isDigit '-' = false := by decide
  rw [IsNatural, ← allDigits_magnitude_iff, text_plain]
  cases number.isNegative with
  | true => simp [accepts, hminus]
  | false => simp [accepts]

end Number

end TreeSyntax
