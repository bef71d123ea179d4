import TreeSyntax.Json.Skip
import TreeSyntax.Proofs.Containers

/-!
# Numbers in texts

Numbers are read and passed over by one grammar: digits, perhaps a fraction, perhaps an exponent.
Reading only asks more of the parts, which have to make a number.
-/

namespace TreeSyntax.Json

/-! ## The grammar -/

def DigitsAt (after : List Char → List Char → List Char → Prop) (text rest : List Char) : Prop :=
  ∃ first more, text = first :: more ∧ isDigit first = true ∧
    after (first :: more.takeWhile isDigit) (more.dropWhile isDigit) rest

def ExponentAt (exponent : List Char → List Char → Prop) (without : Prop)
    (text rest : List Char) : Prop :=
  (∃ letter later, text = letter :: later ∧ (letter = 'e' ∨ letter = 'E') ∧ exponent later rest) ∨
    (text.head? ≠ some 'e' ∧ text.head? ≠ some 'E' ∧ rest = text ∧ without)

def FractionAt (fraction without : List Char → List Char → Prop) (text rest : List Char) : Prop :=
  (∃ later, text = '.' :: later ∧ fraction later rest) ∨
    (text.head? ≠ some '.' ∧ without text rest)

def NoLeadingZero (digits : List Char) : Prop :=
  digits.head? = some '0' → digits = ['0']

section

variable {text rest : List Char}

theorem DigitsAt.mono {after after' : List Char → List Char → List Char → Prop}
    (h : DigitsAt after text rest)
    (hafter : ∀ digits later, after digits later rest → after' digits later rest) :
    DigitsAt after' text rest := by
  obtain ⟨first, more, rfl, hdigit, hmore⟩ := h
  exact ⟨first, more, rfl, hdigit, hafter _ _ hmore⟩

variable {exponent exponent' fraction fraction' without without' : List Char → List Char → Prop}
  {ends ends' : Prop}

theorem ExponentAt.mono (h : ExponentAt exponent ends text rest)
    (hexponent : ∀ later, exponent later rest → exponent' later rest) (hends : ends → ends') :
    ExponentAt exponent' ends' text rest := by
  rcases h with ⟨letter, later, rfl, hletter, hlater⟩ | ⟨hsmall, hlarge, rfl, h⟩
  · exact .inl ⟨letter, later, rfl, hletter, hexponent later hlater⟩
  · exact .inr ⟨hsmall, hlarge, rfl, hends h⟩

theorem FractionAt.mono (h : FractionAt fraction without text rest)
    (hfraction : ∀ later, fraction later rest → fraction' later rest)
    (hwithout : without text rest → without' text rest) :
    FractionAt fraction' without' text rest := by
  rcases h with ⟨later, rfl, hlater⟩ | ⟨hpoint, h⟩
  · exact .inl ⟨later, rfl, hfraction later hlater⟩
  · exact .inr ⟨hpoint, hwithout h⟩

theorem digitsAt_cons_iff {after : List Char → List Char → List Char → Prop} {first : Char}
    {more : List Char} : DigitsAt after (first :: more) rest ↔
      isDigit first = true ∧
        after (first :: more.takeWhile isDigit) (more.dropWhile isDigit) rest := by
  constructor
  · rintro ⟨_, _, ⟨⟩, h⟩
    exact h
  · exact fun h => ⟨first, more, rfl, h⟩

theorem exponentAt_letter_iff {letter : Char} {later : List Char} (htext : text = letter :: later)
    (hletter : letter = 'e' ∨ letter = 'E') :
    ExponentAt exponent ends text rest ↔ exponent later rest := by
  subst htext
  constructor
  · rintro (⟨_, _, ⟨⟩, -, h⟩ | ⟨hsmall, hlarge, -⟩)
    · exact h
    · rw [List.head?_cons, Ne, Option.some.injEq] at hsmall hlarge
      exact (hletter.elim hsmall hlarge).elim
  · exact fun h => .inl ⟨letter, later, rfl, hletter, h⟩

theorem exponentAt_end_iff (hsmall : ∀ later, text ≠ 'e' :: later)
    (hlarge : ∀ later, text ≠ 'E' :: later) :
    ExponentAt exponent ends text rest ↔ rest = text ∧ ends := by
  constructor
  · rintro (⟨letter, later, rfl, rfl | rfl, -⟩ | ⟨-, -, h⟩)
    · exact absurd rfl (hsmall later)
    · exact absurd rfl (hlarge later)
    · exact h
  · refine fun h => .inr ⟨fun hhead => ?_, fun hhead => ?_, h⟩
    · exact (List.head?_eq_some_iff.mp hhead).elim hsmall
    · exact (List.head?_eq_some_iff.mp hhead).elim hlarge

theorem fractionAt_point_iff {later : List Char} (htext : text = '.' :: later) :
    FractionAt fraction without text rest ↔ fraction later rest := by
  subst htext
  constructor
  · rintro (⟨_, ⟨⟩, h⟩ | ⟨hpoint, -⟩)
    · exact h
    · exact absurd rfl hpoint
  · exact fun h => .inl ⟨later, rfl, h⟩

theorem fractionAt_without_iff (hpoint : ∀ later, text ≠ '.' :: later) :
    FractionAt fraction without text rest ↔ without text rest := by
  constructor
  · rintro (⟨later, rfl, -⟩ | ⟨-, h⟩)
    · exact absurd rfl (hpoint later)
    · exact h
  · exact fun h => .inr ⟨fun hhead => (List.head?_eq_some_iff.mp hhead).elim hpoint, h⟩

end

/-! ## Exponents -/

def exponentValue? (negative : Bool) (significand : Nat) (start : Int) (sign : Bool) (first : Char)
    (digits : List Char) : Option Number :=
  let read := (readExponentDigits (digitValue first) digits).1
  if read.2 then
    if significand ≠ 0 ∧ sign = false then none else some (.float ⟨negative, 0⟩)
  else
    (Binary64.ofDecimal? negative significand
      (if sign then start - (read.1 : Int) else start + (read.1 : Int))).map .float

theorem leaves_floatOf_iff {negative : Bool} {significand : Nat} {exponent : Int}
    {text rest : List Char} {start : Rest text} {number : Number} :
    Leaves (floatOf negative significand exponent text start) number rest ↔
      rest = start.1 ∧
        (Binary64.ofDecimal? negative significand exponent).map .float = some number := by
  unfold floatOf
  constructor
  · intro h
    split at h
    next value hvalue =>
      obtain ⟨_, hread, rfl⟩ := h
      cases hread
      exact ⟨rfl, by rw [hvalue]; rfl⟩
    next => exact (Leaves.not_error h).elim
  · rintro ⟨rfl, hnumber⟩
    obtain ⟨value, hvalue, rfl⟩ := Option.map_eq_some_iff.mp hnumber
    rw [hvalue]
    exact ⟨start, rfl, rfl⟩

private theorem readExponentDigits_takeWhile (exponent : Nat) (text : List Char) :
    (readExponentDigits exponent (text.takeWhile isDigit)).1 =
      (readExponentDigits exponent text).1 := by
  induction text generalizing exponent with
  | nil => rfl
  | cons first text ih =>
      by_cases hdigit : isDigit first = true
      · rw [List.takeWhile_cons_of_pos hdigit, readExponentDigits, readExponentDigits,
          if_pos hdigit, if_pos hdigit]
        dsimp only
        split
        · rfl
        · exact ih _
      · rw [List.takeWhile_cons_of_neg hdigit, readExponentDigits, readExponentDigits,
          if_neg hdigit]

/-- The digits that are left when an exponent grew too large are digits all the same. -/
private theorem rest_of_readExponentDigits (exponent : Nat) (text : List Char) :
    (readExponentDigits exponent text).2.1.dropWhile isDigit = text.dropWhile isDigit ∧
      ((readExponentDigits exponent text).1.2 = false →
        (readExponentDigits exponent text).2.1 = text.dropWhile isDigit) := by
  induction text generalizing exponent with
  | nil => exact ⟨rfl, fun _ => rfl⟩
  | cons first rest ih =>
      rw [readExponentDigits]
      by_cases hdigit : isDigit first = true
      · rw [if_pos hdigit, List.dropWhile_cons_of_pos hdigit]
        dsimp only
        split
        · exact ⟨rfl, nofun⟩
        · exact ih _
      · simp [hdigit, wholeText]

theorem leaves_readExponent_iff {negative : Bool} {significand : Nat} {start : Int}
    {text rest : List Char} {number : Number} :
    Leaves (readExponent negative significand start text) number rest ↔
      ∃ first digits, (exponentSign text).2.1 = first :: digits ∧ isDigit first = true ∧
        exponentValue? negative significand start (exponentSign text).1 first
          (digits.takeWhile isDigit) = some number ∧ rest = digits.dropWhile isDigit := by
  unfold readExponent
  dsimp only
  split
  next hend => simp [hend, Leaves]
  next first digits hlater =>
    obtain ⟨hall, hsmall⟩ := rest_of_readExponentDigits (digitValue first) digits
    simp only [hlater, List.cons.injEq, exponentValue?, readExponentDigits_takeWhile]
    by_cases hdigit : isDigit first = true
    · rw [if_pos hdigit]
      constructor
      · intro h
        refine ⟨first, digits, ⟨rfl, rfl⟩, hdigit, ?_⟩
        split at h
        next hlarge =>
          rw [if_pos hlarge]
          split at h
          · exact (Leaves.not_error h).elim
          next hzero =>
            obtain ⟨_, hread, rfl⟩ := h
            cases hread
            exact ⟨if_neg hzero, hall⟩
        next hfits =>
          obtain ⟨rfl, hvalue⟩ := leaves_floatOf_iff.mp h
          rw [if_neg hfits]
          exact ⟨hvalue, hsmall (Bool.not_eq_true _ ▸ hfits)⟩
      · rintro ⟨_, _, ⟨rfl, rfl⟩, -, hvalue, rfl⟩
        split at hvalue
        next hlarge =>
          rw [if_pos hlarge]
          split at hvalue
          · cases hvalue
          next hzero =>
            cases hvalue
            rw [if_neg hzero]
            exact ⟨_, rfl, hall⟩
        next hfits =>
          rw [if_neg hfits, leaves_floatOf_iff]
          exact ⟨(hsmall (Bool.not_eq_true _ ▸ hfits)).symm, hvalue⟩
    · rw [if_neg hdigit]
      constructor
      · exact fun h => (Leaves.not_error h).elim
      · rintro ⟨_, _, ⟨rfl, rfl⟩, hdigit', -⟩
        exact absurd hdigit' hdigit

theorem passed_skipExponent_iff {text rest : List Char} :
    Passed (skipExponent text) rest ↔
      ∃ first digits, (exponentSign text).2.1 = first :: digits ∧ isDigit first = true ∧
        rest = digits.dropWhile isDigit := by
  unfold skipExponent
  dsimp only
  split
  next hend => simp [hend, Passed]
  next first digits hlater =>
    simp only [hlater, List.cons.injEq]
    by_cases hdigit : isDigit first = true
    · rw [if_pos hdigit]
      constructor
      · rintro ⟨_, ⟨⟩, rfl⟩
        exact ⟨first, digits, ⟨rfl, rfl⟩, hdigit, rfl⟩
      · rintro ⟨_, _, ⟨rfl, rfl⟩, -, rfl⟩
        exact ⟨_, rfl, rfl⟩
    · rw [if_neg hdigit]
      constructor
      · exact fun h => (Passed.not_error h).elim
      · rintro ⟨_, _, ⟨rfl, rfl⟩, hdigit', -⟩
        exact absurd hdigit' hdigit

theorem passed_skipExponent {negative : Bool} {significand : Nat} {start : Int}
    {text rest : List Char} {number : Number}
    (h : Leaves (readExponent negative significand start text) number rest) :
    Passed (skipExponent text) rest := by
  obtain ⟨first, digits, hlater, hdigit, -, hrest⟩ := leaves_readExponent_iff.mp h
  exact passed_skipExponent_iff.mpr ⟨first, digits, hlater, hdigit, hrest⟩

theorem leaves_readExponentPart_iff {negative : Bool} {significand : Nat} {start : Int}
    {text rest : List Char} {later : Rest text} {number : Number} :
    Leaves (readExponentPart negative significand start text later) number rest ↔
      ExponentAt (fun text => Leaves (readExponent negative significand start text) number)
        ((Binary64.ofDecimal? negative significand start).map .float = some number)
        later.1 rest := by
  unfold readExponentPart
  split
  next digits hletter => rw [exponentAt_letter_iff hletter (.inl rfl), Leaves.carry_iff]
  next digits hletter => rw [exponentAt_letter_iff hletter (.inr rfl), Leaves.carry_iff]
  next hsmall hlarge => rw [leaves_floatOf_iff, exponentAt_end_iff hsmall hlarge]

theorem passed_skipExponentPart_iff {text rest : List Char} {later : Rest text} :
    Passed (skipExponentPart text later) rest ↔
      ExponentAt (fun text => Passed (skipExponent text)) True later.1 rest := by
  have hends : Passed (.ok later : Except Fault (Rest text)) rest ↔ rest = later.1 ∧ True := by
    simp [Passed, eq_comm]
  unfold skipExponentPart
  split
  next hend => rw [hends, exponentAt_end_iff (by simp [hend]) (by simp [hend])]
  next first digits hlater =>
    by_cases hletter : first = 'e' ∨ first = 'E'
    · rw [if_pos hletter, exponentAt_letter_iff hlater hletter]
      constructor
      · intro h
        split at h
        next => exact (Passed.not_error h).elim
        next last hskip =>
          obtain ⟨_, hlast, rfl⟩ := h
          cases hlast
          exact ⟨last, hskip, rfl⟩
      · rintro ⟨last, hskip, rfl⟩
        simp only [hskip]
        exact ⟨_, rfl, rfl⟩
    · rw [if_neg hletter, hends, exponentAt_end_iff]
      · exact fun _ hsmall => hletter (.inl (List.cons.inj (hlater.symm.trans hsmall)).1)
      · exact fun _ hlarge => hletter (.inr (List.cons.inj (hlater.symm.trans hlarge)).1)

/-! ## Fractions -/

theorem leaves_readFraction_iff {negative : Bool} {significand : Nat} {start : Int}
    {text rest : List Char} {number : Number} :
    Leaves (readFraction negative significand start text) number rest ↔
      DigitsAt (fun digits =>
        let taken := absorb significand digits
        let exponent := start - (digits.length - taken.2.length : Nat)
        ExponentAt (fun text => Leaves (readExponent negative taken.1 exponent text) number)
          ((Binary64.ofDecimal? negative taken.1 exponent).map .float = some number))
        text rest := by
  unfold readFraction
  split
  next => simp [DigitsAt, Leaves]
  next first digits =>
    rw [digitsAt_cons_iff]
    by_cases hdigit : isDigit first = true
    · rw [if_pos hdigit, leaves_readExponentPart_iff]
      exact (and_iff_right hdigit).symm
    · rw [if_neg hdigit]
      exact iff_of_false Leaves.not_error fun h => hdigit h.1

/-- Without a fraction or an exponent, digits that all fitted make a whole number. -/
def plainNumber? (negative : Bool) (significand dropped : Nat) : Option Number :=
  if dropped = 0 then some (wholeNumber negative significand)
  else (Binary64.ofDecimal? negative significand dropped).map .float

theorem leaves_readNumberTail_iff {negative : Bool} {significand dropped : Nat}
    {text rest : List Char} {later : Rest text} {number : Number} :
    Leaves (readNumberTail negative significand dropped text later) number rest ↔
      FractionAt (fun text => Leaves (readFraction negative significand dropped text) number)
        (ExponentAt (fun text => Leaves (readExponent negative significand dropped text) number)
          (plainNumber? negative significand dropped = some number)) later.1 rest := by
  unfold readNumberTail
  split
  next fraction hpoint => rw [fractionAt_point_iff hpoint, Leaves.carry_iff]
  next digits hletter =>
    rw [leaves_readExponentPart_iff, fractionAt_without_iff (by simp [hletter]),
      exponentAt_letter_iff hletter (.inl rfl), exponentAt_letter_iff hletter (.inl rfl)]
  next digits hletter =>
    rw [leaves_readExponentPart_iff, fractionAt_without_iff (by simp [hletter]),
      exponentAt_letter_iff hletter (.inr rfl), exponentAt_letter_iff hletter (.inr rfl)]
  next hpoint hsmall hlarge =>
    rw [fractionAt_without_iff hpoint, exponentAt_end_iff hsmall hlarge, plainNumber?]
    by_cases hdropped : dropped = 0
    · rw [if_pos hdropped, if_pos hdropped, Option.some.injEq]
      constructor
      · rintro ⟨_, ⟨⟩, rfl⟩
        exact ⟨rfl, rfl⟩
      · rintro ⟨rfl, rfl⟩
        exact ⟨later, rfl, rfl⟩
    · rw [if_neg hdropped, if_neg hdropped, leaves_floatOf_iff]

theorem passed_skipNumberTail_iff {text rest : List Char} {later : Rest text} :
    Passed (skipNumberTail text later) rest ↔
      FractionAt (DigitsAt fun _ => ExponentAt (fun text => Passed (skipExponent text)) True)
        (ExponentAt (fun text => Passed (skipExponent text)) True) later.1 rest := by
  unfold skipNumberTail
  split
  next fraction hpoint =>
    rw [fractionAt_point_iff hpoint]
    cases fraction with
    | nil =>
        refine iff_of_false Passed.not_error ?_
        rintro ⟨_, _, ⟨⟩, -⟩
    | cons first digits =>
        rw [digitsAt_cons_iff, List.head?_cons, Option.map_some, Option.getD_some]
        by_cases hdigit : isDigit first = true
        · rw [if_pos hdigit, passed_skipExponentPart_iff]
          dsimp only
          rw [List.dropWhile_cons_of_pos hdigit]
          exact (and_iff_right hdigit).symm
        · rw [if_neg hdigit]
          exact iff_of_false Passed.not_error fun h => hdigit h.1
  next hpoint => rw [fractionAt_without_iff hpoint, passed_skipExponentPart_iff]

/-! ## Whole numbers -/

/-- Whether a digit follows, as it is asked after a zero. -/
theorem noLeadingZero_zero_iff {later : List Char} :
    NoLeadingZero ('0' :: later.takeWhile isDigit) ↔
      ¬ (later.head?.map isDigit).getD false = true := by
  cases later with
  | nil => simp [NoLeadingZero]
  | cons first later =>
      by_cases hdigit : isDigit first = true
      · simp [NoLeadingZero, hdigit]
      · simp [NoLeadingZero, hdigit]

theorem noLeadingZero_cons {first : Char} {digits : List Char} (h : first ≠ '0') :
    NoLeadingZero (first :: digits) :=
  fun hzero => absurd (Option.some.inj hzero) h

theorem dropWhile_isDigit_of_not {later : List Char}
    (h : ¬ (later.head?.map isDigit).getD false = true) :
    later.takeWhile isDigit = [] ∧ later.dropWhile isDigit = later := by
  cases later with
  | nil => exact ⟨rfl, rfl⟩
  | cons first later => exact ⟨List.takeWhile_cons_of_neg h, List.dropWhile_cons_of_neg h⟩

theorem leaves_readMagnitude_iff {negative : Bool} {text rest : List Char} {number : Number} :
    Leaves (readMagnitude negative text) number rest ↔
      DigitsAt (fun digits later rest => NoLeadingZero digits ∧
        let taken := absorb 0 digits
        FractionAt
          (fun text => Leaves (readFraction negative taken.1 taken.2.length text) number)
          (ExponentAt
            (fun text => Leaves (readExponent negative taken.1 taken.2.length text) number)
            (plainNumber? negative taken.1 taken.2.length = some number)) later rest)
        text rest := by
  unfold readMagnitude
  split
  next => simp [DigitsAt, Leaves]
  next later =>
    rw [digitsAt_cons_iff, and_iff_right (by decide), noLeadingZero_zero_iff]
    by_cases hdigit : (later.head?.map isDigit).getD false = true
    · rw [if_pos hdigit]
      exact iff_of_false Leaves.not_error fun h => h.1 hdigit
    · obtain ⟨hdigits, hlater⟩ := dropWhile_isDigit_of_not hdigit
      rw [if_neg hdigit, leaves_readNumberTail_iff, hdigits, hlater]
      exact (and_iff_right hdigit).symm
  next first later hzero =>
    rw [digitsAt_cons_iff]
    by_cases hdigit : isDigit first = true
    · rw [if_pos hdigit, leaves_readNumberTail_iff, and_iff_right hdigit,
        and_iff_right (noLeadingZero_cons hzero)]
      rfl
    · rw [if_neg hdigit]
      exact iff_of_false Leaves.not_error fun h => hdigit h.1

theorem passed_skipMagnitude_iff {text rest : List Char} :
    Passed (skipMagnitude text) rest ↔
      DigitsAt (fun digits later rest => NoLeadingZero digits ∧
        FractionAt (DigitsAt fun _ => ExponentAt (fun text => Passed (skipExponent text)) True)
          (ExponentAt (fun text => Passed (skipExponent text)) True) later rest) text rest := by
  unfold skipMagnitude
  split
  next => simp [DigitsAt, Passed]
  next later =>
    rw [digitsAt_cons_iff, and_iff_right (by decide), noLeadingZero_zero_iff]
    by_cases hdigit : (later.head?.map isDigit).getD false = true
    · rw [if_pos hdigit]
      exact iff_of_false Passed.not_error fun h => h.1 hdigit
    · rw [if_neg hdigit, passed_skipNumberTail_iff, (dropWhile_isDigit_of_not hdigit).2]
      exact (and_iff_right hdigit).symm
  next first later hzero =>
    rw [digitsAt_cons_iff]
    by_cases hdigit : isDigit first = true
    · rw [if_pos hdigit, passed_skipNumberTail_iff, and_iff_right hdigit,
        and_iff_right (noLeadingZero_cons hzero)]
      rfl
    · rw [if_neg hdigit]
      exact iff_of_false Passed.not_error fun h => hdigit h.1

theorem passed_skipMagnitude {negative : Bool} {text rest : List Char} {number : Number}
    (h : Leaves (readMagnitude negative text) number rest) : Passed (skipMagnitude text) rest := by
  refine passed_skipMagnitude_iff.mpr ((leaves_readMagnitude_iff.mp h).mono ?_)
  rintro digits later ⟨hzero, hlater⟩
  refine ⟨hzero, hlater.mono (fun fraction hfraction => ?_) fun hexponent => ?_⟩
  · exact (leaves_readFraction_iff.mp hfraction).mono fun _ _ hexponent =>
      hexponent.mono (fun _ => passed_skipExponent) fun _ => trivial
  · exact hexponent.mono (fun _ => passed_skipExponent) fun _ => trivial

end TreeSyntax.Json
