import Mathlib.Logic.Relation
import TreeSyntax.Proofs.Passed

/-!
# Where parts of a text end

What a reader takes off the front of a text does not depend on the text behind it.  A string and a
container show by themselves where they end; for a number the next character tells.
-/

namespace TreeSyntax.Json

/-! ## Parts that end -/

/-- The front is taken off whatever text stands behind it.  Where it takes a look ahead to see the
end, that text has to begin alike; where it takes none, the front is not empty. -/
def EndsAt (looksAhead : Bool) (takes : List Char → List Char → Prop) (text rest : List Char) :
    Prop :=
  ∃ front, text = front ++ rest ∧ (looksAhead = false → front ≠ []) ∧
    ∀ other, (looksAhead = true → other.head? = rest.head?) → takes (front ++ other) other

abbrev Delimited : (List Char → List Char → Prop) → List Char → List Char → Prop :=
  EndsAt true

abbrev SelfDelimited : (List Char → List Char → Prop) → List Char → List Char → Prop :=
  EndsAt false

section

variable {looksAhead : Bool} {takes takes' : List Char → List Char → Prop}
  {text middle rest : List Char}

theorem head?_append_congr {other : List Char} (front : List Char) (h : other.head? = rest.head?) :
    (front ++ other).head? = (front ++ rest).head? := by
  rw [List.head?_append, List.head?_append, h]

theorem delimited_end (h : ∀ other, other.head? = rest.head? → takes other other) :
    Delimited takes rest rest :=
  ⟨[], rfl, nofun, fun other hother => h other (hother rfl)⟩

namespace EndsAt

theorem holds (h : EndsAt looksAhead takes text rest) : takes text rest := by
  obtain ⟨front, rfl, -, htakes⟩ := h
  exact htakes rest fun _ => rfl

theorem delimited (h : EndsAt looksAhead takes text rest) : Delimited takes text rest := by
  obtain ⟨front, htext, -, htakes⟩ := h
  exact ⟨front, htext, nofun, fun other hother => htakes other fun _ => hother rfl⟩

/-- The first part ends where the second begins, which stays unless it is empty. -/
theorem comp (h : Delimited takes text middle) (h' : EndsAt looksAhead takes' middle rest) :
    EndsAt looksAhead (Relation.Comp takes takes') text rest := by
  obtain ⟨front, rfl, -, htakes⟩ := h
  obtain ⟨front', rfl, hfront, htakes'⟩ := h'
  refine ⟨front ++ front', (List.append_assoc _ _ _).symm, fun hself => ?_, fun other hother => ?_⟩
  · simp [hfront hself]
  · rw [List.append_assoc]
    refine ⟨_, htakes _ fun _ => ?_, htakes' other hother⟩
    cases looksAhead with
    | true => exact head?_append_congr front' (hother rfl)
    | false =>
        rw [List.head?_append_of_ne_nil _ (hfront rfl), List.head?_append_of_ne_nil _ (hfront rfl)]

theorem mono (h : EndsAt looksAhead takes text rest)
    (hstep : ∀ text rest, takes text rest → takes' text rest) :
    EndsAt looksAhead takes' text rest := by
  obtain ⟨front, htext, hfront, htakes⟩ := h
  exact ⟨front, htext, hfront, fun other hother => hstep _ _ (htakes other hother)⟩

theorem cons {first : Char} {later : List Char} (h : EndsAt looksAhead takes later rest)
    (hstep : ∀ later rest, takes later rest → takes' (first :: later) rest) :
    EndsAt looksAhead takes' (first :: later) rest := by
  obtain ⟨front, rfl, -, htakes⟩ := h
  exact ⟨first :: front, rfl, fun _ => List.cons_ne_nil _ _,
    fun other hother => hstep _ _ (htakes other hother)⟩

/-- The text that is taken apart may be asked to begin as it did. -/
theorem head (h : Delimited takes text rest) :
    Delimited (fun text' rest' => text'.head? = text.head? ∧ takes text' rest') text rest := by
  obtain ⟨front, rfl, hfront, htakes⟩ := h
  refine ⟨front, rfl, hfront, fun other hother => ⟨?_, htakes other hother⟩⟩
  exact head?_append_congr front (hother rfl)

end EndsAt

end

section

variable {takes : List Char → List Char → Prop} {text later rest : List Char} {first : Char}

theorem selfDelimited_first (h : ∀ other, takes (first :: other) other) :
    SelfDelimited takes (first :: rest) rest :=
  ⟨[first], rfl, fun _ => List.cons_ne_nil _ _, fun other _ => h other⟩

theorem selfDelimited_skipBlanks (h : skipBlanks text = first :: later) :
    SelfDelimited (fun text later => skipBlanks text = first :: later) text later := by
  have hblank : isBlank first = false := by
    have hhead := List.head?_dropWhile_not isBlank text
    rwa [← skipBlanks, h] at hhead
  have hblanks : AllBlank (text.takeWhile isBlank) := List.all_eq_true.mp List.all_takeWhile
  have hskip (other : List Char) :
      skipBlanks (text.takeWhile isBlank ++ first :: other) = first :: other := by
    rw [skipBlanks_append hblanks, skipBlanks_cons hblank]
  refine ⟨text.takeWhile isBlank ++ [first], ?_, by simp, fun other _ => ?_⟩
  · rw [List.append_assoc, List.singleton_append, ← h, skipBlanks, List.takeWhile_append_dropWhile]
  · rw [List.append_assoc]
    exact hskip other

end

def Begins (first : Char) (text : List Char) : Prop :=
  ∃ later, skipBlanks text = first :: later

namespace Reader

variable {α : Type}

def EndsAlways (looksAhead : Bool) (reader : Reader α) : Prop :=
  ∀ text value rest, Leaves (reader text) value rest → ∃ first,
    EndsAt looksAhead (fun text rest => Begins first text ∧ Leaves (reader text) value rest)
      text rest

abbrev IsDelimited : Reader α → Prop := EndsAlways true

abbrev IsEnclosed : Reader α → Prop := EndsAlways false

def IsSelfDelimited (reader : Reader α) : Prop :=
  ∀ text value rest, Leaves (reader text) value rest →
    SelfDelimited (fun text rest => Leaves (reader text) value rest) text rest

variable {looksAhead : Bool} {reader : Reader α}

theorem EndsAlways.isDelimited (h : reader.EndsAlways looksAhead) : reader.IsDelimited := by
  intro text value rest hread
  obtain ⟨first, hdelimited⟩ := h text value rest hread
  exact ⟨first, hdelimited.delimited⟩

theorem EndsAlways.isSelfDelimited (h : reader.IsEnclosed) : reader.IsSelfDelimited := by
  intro text value rest hread
  obtain ⟨first, hdelimited⟩ := h text value rest hread
  exact hdelimited.mono fun _ _ => And.right

end Reader

/-! ## Strings -/

theorem isSelfDelimited_readHex : readHex.IsSelfDelimited := by
  intro text code rest h
  unfold readHex at h
  split at h
  next a b c d later =>
    split at h
    next code hcode =>
      obtain ⟨_, hread, rfl⟩ := h
      cases hread
      refine ⟨[a, b, c, d], rfl, by simp, fun other _ => ?_⟩
      exact ⟨.after a (.after b (.after c (.tail d other))),
        by simp only [List.cons_append, List.nil_append, readHex, hcode], rfl⟩
    next => exact (Leaves.not_error h).elim
  next => exact (Leaves.not_error h).elim

private theorem isSelfDelimited_readLowSurrogate (high : Nat) :
    (readLowSurrogate high).IsSelfDelimited := by
  intro text character rest h
  obtain ⟨later, low, rfl, hhex, hlow, hcharacter⟩ := leaves_readLowSurrogate_iff.mp h
  refine .cons (.cons (isSelfDelimited_readHex later low rest hhex) fun later rest hhex => ?_)
    fun _ _ h => h
  exact leaves_readLowSurrogate_iff.mpr ⟨later, low, rfl, hhex, hlow, hcharacter⟩

private theorem isSelfDelimited_readUnicodeEscape : readUnicodeEscape.IsSelfDelimited := by
  intro text character rest h
  obtain ⟨code, later, hhex, hlow, ⟨hhigh, hnext⟩ | ⟨hhigh, rfl, hcharacter⟩⟩ :=
    leaves_readUnicodeEscape_iff.mp h
  · refine ((isSelfDelimited_readHex text code later hhex).delimited.comp
      (isSelfDelimited_readLowSurrogate code later character rest hnext)).mono ?_
    rintro text rest ⟨later, hhex, hnext⟩
    exact leaves_readUnicodeEscape_iff.mpr ⟨code, later, hhex, hlow, .inl ⟨hhigh, hnext⟩⟩
  · refine (isSelfDelimited_readHex text code rest hhex).mono fun text rest hhex => ?_
    exact leaves_readUnicodeEscape_iff.mpr ⟨code, rest, hhex, hlow, .inr ⟨hhigh, rfl, hcharacter⟩⟩

private theorem isSelfDelimited_readEscape : readEscape.IsSelfDelimited := by
  intro text character rest h
  rcases leaves_readEscape_iff.mp h with ⟨later, rfl, hunicode⟩ | ⟨letter, hletter, rfl, hsimple⟩
  · refine (isSelfDelimited_readUnicodeEscape later character rest hunicode).cons ?_
    exact fun later rest hunicode => leaves_readEscape_iff.mpr (.inl ⟨later, rfl, hunicode⟩)
  · refine selfDelimited_first fun other => ?_
    exact leaves_readEscape_iff.mpr (.inr ⟨letter, hletter, rfl, hsimple⟩)

theorem isSelfDelimited_readStringFrom (read : List Char) :
    (readStringFrom read).IsSelfDelimited := by
  intro text value rest h
  fun_induction readStringFrom read text with
  | case1 => exact (Leaves.not_error h).elim
  | case2 read later =>
      obtain ⟨_, hread, rfl⟩ := h
      cases hread
      exact selfDelimited_first fun other => ⟨.tail '"' other, by rw [readStringFrom], rfl⟩
  | case3 => exact (Leaves.not_error h).elim
  | case4 read text character later hescape ih =>
      have hescape' := isSelfDelimited_readEscape text character later.1 ⟨later, hescape, rfl⟩
      refine (hescape'.delimited.comp (ih (Leaves.carry_iff.mp h))).cons ?_
      rintro escaped rest ⟨later, hescape, hread⟩
      exact leaves_readStringFrom_escape hescape hread
  | case5 => exact (Leaves.not_error h).elim
  | case6 read first text hquote hbackslash hcontrol ih =>
      refine (ih (Leaves.carry_iff.mp h)).cons fun later rest hread => ?_
      rw [readStringFrom, if_neg hcontrol]
      · exact hread.carry
      · exact hquote
      · exact hbackslash

theorem selfDelimited_skipString {text rest : List Char} (h : Passed (skipString text) rest) :
    SelfDelimited (fun text rest => Passed (skipString text) rest) text rest := by
  fun_induction skipString text with
  | case1 => exact (Passed.not_error h).elim
  | case2 later =>
      obtain ⟨_, hskip, rfl⟩ := h
      cases hskip
      exact selfDelimited_first fun other => ⟨Rest.tail '"' other, by rw [skipString], rfl⟩
  | case3 => exact (Passed.not_error h).elim
  | case4 => exact (Passed.not_error h).elim
  | case5 => exact (Passed.not_error h).elim
  | case6 text code later hhex last hskip ih =>
      obtain ⟨_, hlast, rfl⟩ := h
      cases hlast
      have hdigits := isSelfDelimited_readHex text code later.1 ⟨later, hhex, rfl⟩
      refine .cons (.cons (hdigits.delimited.comp (ih ⟨last, hskip, rfl⟩)) ?_) fun _ _ h => h
      rintro digits rest ⟨later, hhex, hskip⟩
      exact passed_skipString_unicode hhex hskip
  | case7 => exact (Passed.not_error h).elim
  | case8 => exact (Passed.not_error h).elim
  | case9 letter text hletter character hsimple last hskip ih =>
      obtain ⟨_, hlast, rfl⟩ := h
      cases hlast
      refine .cons (.cons (ih ⟨last, hskip, rfl⟩) ?_) fun _ _ h => h
      exact fun _ _ => passed_skipString_simple hletter hsimple
  | case10 => exact (Passed.not_error h).elim
  | case11 => exact (Passed.not_error h).elim
  | case12 first text hquote hend hunicode hescape hcontrol last hskip ih =>
      obtain ⟨_, hlast, rfl⟩ := h
      cases hlast
      have hbackslash : first ≠ '\\' := by
        rintro rfl
        cases text with
        | nil => exact hend rfl rfl
        | cons letter text => exact hescape letter text rfl rfl
      exact (ih ⟨last, hskip, rfl⟩).cons fun _ _ =>
        passed_skipString_character hquote hbackslash hcontrol

/-! ## Numbers -/

private theorem isDigit_head?_dropWhile (text : List Char) :
    ∀ first, (text.dropWhile isDigit).head? = some first → isDigit first = false := by
  intro first hfirst
  have hhead := List.head?_dropWhile_not isDigit text
  rwa [hfirst] at hhead

/-- Digits end where another character follows. -/
theorem delimited_digits (text : List Char) :
    Delimited (fun text' rest => text'.takeWhile isDigit = text.takeWhile isDigit ∧
      text'.dropWhile isDigit = rest) text (text.dropWhile isDigit) := by
  refine ⟨text.takeWhile isDigit, List.takeWhile_append_dropWhile.symm, nofun,
    fun other hother => ?_⟩
  have hdigits : ∀ digit ∈ text.takeWhile isDigit, isDigit digit = true :=
    List.all_eq_true.mp List.all_takeWhile
  have hends : ∀ first, other.head? = some first → isDigit first = false :=
    hother rfl ▸ isDigit_head?_dropWhile text
  beta_reduce
  rw [List.takeWhile_append_of_pos hdigits, List.dropWhile_append_of_pos hdigits]
  cases other with
  | nil => exact ⟨List.append_nil _, rfl⟩
  | cons first other =>
      have hfirst : ¬ isDigit first = true := by simp [hends first rfl]
      rw [List.takeWhile_cons_of_neg hfirst, List.dropWhile_cons_of_neg hfirst]
      exact ⟨List.append_nil _, rfl⟩

theorem selfDelimited_exponentSign {text digits : List Char} {first : Char}
    (hlater : (exponentSign text).2.1 = first :: digits) (hdigit : isDigit first = true) :
    SelfDelimited (fun text' digits => (exponentSign text').1 = (exponentSign text).1 ∧
      (exponentSign text').2.1 = first :: digits) text digits := by
  rcases text with - | ⟨sign, later⟩
  · cases hlater
  by_cases hminus : sign = '-'
  · subst hminus
    obtain rfl : later = first :: digits := hlater
    exact (selfDelimited_first fun _ => ⟨rfl, rfl⟩).cons fun _ _ h => h
  by_cases hplus : sign = '+'
  · subst hplus
    obtain rfl : later = first :: digits := hlater
    exact (selfDelimited_first fun _ => ⟨rfl, rfl⟩).cons fun _ _ h => h
  have hsign (other : List Char) : exponentSign (sign :: other) = (false, wholeText _) := by
    rw [exponentSign]
    · rintro rest ⟨⟩
      exact hminus rfl
    · rintro rest ⟨⟩
      exact hplus rfl
  rw [hsign] at hlater ⊢
  obtain ⟨rfl, rfl⟩ := List.cons.inj hlater
  exact selfDelimited_first fun other => by rw [hsign]; exact ⟨rfl, rfl⟩

theorem delimited_readExponent {negative : Bool} {significand : Nat} {start : Int}
    {text rest : List Char} {number : Number}
    (h : Leaves (readExponent negative significand start text) number rest) :
    Delimited (fun text => Leaves (readExponent negative significand start text) number)
      text rest := by
  obtain ⟨first, digits, hlater, hdigit, hvalue, rfl⟩ := leaves_readExponent_iff.mp h
  have hsign := (selfDelimited_exponentSign hlater hdigit).delimited
  refine (hsign.comp (delimited_digits digits)).mono ?_
  rintro text rest ⟨digits', ⟨hsign, hlater⟩, hdigits, rfl⟩
  refine leaves_readExponent_iff.mpr ⟨first, digits', hlater, hdigit, ?_, rfl⟩
  rw [hsign, hdigits]
  exact hvalue

private theorem delimited_skipExponent {text rest : List Char}
    (h : Passed (skipExponent text) rest) :
    Delimited (fun text => Passed (skipExponent text)) text rest := by
  obtain ⟨first, digits, hlater, hdigit, rfl⟩ := passed_skipExponent_iff.mp h
  have hsign := (selfDelimited_exponentSign hlater hdigit).delimited
  refine (hsign.comp (delimited_digits digits)).mono ?_
  rintro text rest ⟨digits', ⟨-, hlater⟩, -, rfl⟩
  exact passed_skipExponent_iff.mpr ⟨first, digits', hlater, hdigit, rfl⟩

section

variable {text rest : List Char}

theorem DigitsAt.delimited {after : List Char → List Char → List Char → Prop}
    (h : DigitsAt after text rest)
    (hafter : ∀ digits later, after digits later rest → Delimited (after digits) later rest) :
    Delimited (DigitsAt after) text rest := by
  obtain ⟨first, more, rfl, hdigit, hmore⟩ := h
  refine ((delimited_digits more).comp (hafter _ _ hmore)).cons ?_
  rintro more' rest ⟨later, ⟨hdigits, rfl⟩, hlater⟩
  rw [digitsAt_cons_iff, hdigits]
  exact ⟨hdigit, hlater⟩

variable {exponent fraction without : List Char → List Char → Prop} {ends : Prop}

theorem ExponentAt.delimited (h : ExponentAt exponent ends text rest)
    (hexponent : ∀ later, exponent later rest → Delimited exponent later rest) :
    Delimited (ExponentAt exponent ends) text rest := by
  rcases h with ⟨letter, later, rfl, hletter, hlater⟩ | ⟨hsmall, hlarge, rfl, hends⟩
  · exact (hexponent later hlater).cons fun later rest hlater =>
      .inl ⟨letter, later, rfl, hletter, hlater⟩
  · exact delimited_end fun other hother => .inr ⟨hother ▸ hsmall, hother ▸ hlarge, rfl, hends⟩

theorem FractionAt.delimited (h : FractionAt fraction without text rest)
    (hfraction : ∀ later, fraction later rest → Delimited fraction later rest)
    (hwithout : without text rest → Delimited without text rest) :
    Delimited (FractionAt fraction without) text rest := by
  rcases h with ⟨later, rfl, hlater⟩ | ⟨hpoint, h⟩
  · exact (hfraction later hlater).cons fun later rest hlater => .inl ⟨later, rfl, hlater⟩
  · exact (hwithout h).head.mono fun text rest h => .inr ⟨h.1 ▸ hpoint, h.2⟩

private theorem delimited_readFraction {negative : Bool} {significand : Nat} {start : Int}
    {number : Number} (h : Leaves (readFraction negative significand start text) number rest) :
    Delimited (fun text => Leaves (readFraction negative significand start text) number)
      text rest := by
  refine ((leaves_readFraction_iff.mp h).delimited fun digits later hlater => ?_).mono
    fun _ _ => leaves_readFraction_iff.mpr
  exact hlater.delimited fun _ => delimited_readExponent

private theorem delimited_readMagnitude {negative : Bool} {number : Number}
    (h : Leaves (readMagnitude negative text) number rest) :
    Delimited (fun text => Leaves (readMagnitude negative text) number) text rest := by
  refine ((leaves_readMagnitude_iff.mp h).delimited ?_).mono fun _ _ => leaves_readMagnitude_iff.mpr
  rintro digits later ⟨hzero, hlater⟩
  refine (hlater.delimited (fun _ => delimited_readFraction) fun hexponent => ?_).mono
    fun _ _ => And.intro hzero
  exact hexponent.delimited fun _ => delimited_readExponent

private theorem delimited_skipMagnitude (h : Passed (skipMagnitude text) rest) :
    Delimited (fun text => Passed (skipMagnitude text)) text rest := by
  refine ((passed_skipMagnitude_iff.mp h).delimited ?_).mono fun _ _ => passed_skipMagnitude_iff.mpr
  rintro digits later ⟨hzero, hlater⟩
  refine (hlater.delimited (fun _ hfraction => ?_) fun hexponent => ?_).mono
    fun _ _ => And.intro hzero
  · exact hfraction.delimited fun _ _ hexponent =>
      hexponent.delimited fun _ => delimited_skipExponent
  · exact hexponent.delimited fun _ => delimited_skipExponent

end

/-! ## Scalars -/

theorem passed_readWord_iff {letters text rest : List Char} :
    Passed (readWord letters text) rest ↔ text = letters ++ rest := by
  induction letters generalizing text with
  | nil => simp [readWord, wholeText, Passed]
  | cons letter letters ih =>
      cases text with
      | nil => simp [readWord, Passed]
      | cons first text =>
          rw [readWord, List.cons_append, List.cons.injEq, ← ih]
          dsimp only
          by_cases hletter : first = letter
          · rw [if_pos hletter, and_iff_right hletter]
            cases readWord letters text with
            | error fault => exact iff_of_false Passed.not_error Passed.not_error
            | ok later => simp [Passed]
          · rw [if_neg hletter]
            exact iff_of_false Passed.not_error fun h => hletter h.1

theorem leaves_readWordAs_iff {letters text rest : List Char} {word value : Json} {first : Char} :
    Leaves (readWordAs letters word first text) value rest ↔
      text = letters ++ rest ∧ value = word := by
  rw [← passed_readWord_iff, readWordAs]
  cases readWord letters text with
  | error fault => exact iff_of_false Leaves.not_error fun h => Passed.not_error h.1
  | ok later => simp [Leaves, Passed, eq_comm, and_comm]

/-- A part whose first character is known lacks only what stands behind that. -/
theorem EndsAt.tail {takes : List Char → List Char → Prop} {first : Char}
    {later rest : List Char} (h : Delimited takes (first :: later) rest)
    (hrest : rest.length < (first :: later).length) :
    Delimited (fun later => takes (first :: later)) later rest := by
  obtain ⟨front, htext, -, htakes⟩ := h
  cases front with
  | nil =>
      rw [htext] at hrest
      exact absurd hrest (Nat.lt_irrefl _)
  | cons first' front =>
      obtain ⟨rfl, rfl⟩ := List.cons.inj htext
      exact ⟨front, rfl, nofun, htakes⟩

private theorem delimited_word {letters rest : List Char} {takes : List Char → List Char → Prop}
    (h : ∀ other, takes (letters ++ other) other) : Delimited takes (letters ++ rest) rest :=
  ⟨letters, rfl, nofun, fun other _ => h other⟩

theorem delimited_readScalar {first : Char} {later rest : List Char} {value : Json}
    (h : Leaves (readScalar first later) value rest) :
    Delimited (fun later => Leaves (readScalar first later) value) later rest := by
  by_cases hdigit : isDigit first = true
  · simp only [readScalar_of_isDigit hdigit] at h ⊢
    obtain ⟨number, hread, rfl⟩ := Leaves.map_iff.mp h
    refine ((delimited_readMagnitude hread).tail hread.length_lt).mono fun later rest hread => ?_
    exact Leaves.map hread Json.number
  unfold readScalar at h ⊢
  split at h
  next =>
    obtain ⟨rfl, rfl⟩ := leaves_readWordAs_iff.mp h
    exact delimited_word fun other => leaves_readWordAs_iff.mpr ⟨rfl, rfl⟩
  next =>
    obtain ⟨rfl, rfl⟩ := leaves_readWordAs_iff.mp h
    exact delimited_word fun other => leaves_readWordAs_iff.mpr ⟨rfl, rfl⟩
  next =>
    obtain ⟨rfl, rfl⟩ := leaves_readWordAs_iff.mp h
    exact delimited_word fun other => leaves_readWordAs_iff.mpr ⟨rfl, rfl⟩
  next =>
    obtain ⟨text, hread, rfl⟩ := Leaves.map_iff.mp (Leaves.carry_iff.mp h)
    refine (isSelfDelimited_readStringFrom [] later text rest hread).delimited.mono ?_
    exact fun later rest hread => (Leaves.map hread string).carry
  next =>
    obtain ⟨number, hread, rfl⟩ := Leaves.map_iff.mp (Leaves.carry_iff.mp h)
    exact (delimited_readMagnitude hread).mono fun later rest hread =>
      (Leaves.map hread Json.number).carry
  next =>
    rw [if_neg hdigit] at h
    exact (Leaves.not_error h).elim

theorem delimited_skipScalar {first : Char} {later rest : List Char}
    (h : Passed (skipScalar first later) rest) :
    Delimited (fun later => Passed (skipScalar first later)) later rest := by
  unfold skipScalar at h ⊢
  split at h
  next =>
    have hskip := (passed_map_iff (Rest.after '"') fun _ => rfl).mp h
    exact (selfDelimited_skipString hskip).delimited.mono fun later rest =>
      (passed_map_iff (Rest.after '"') fun _ => rfl).mpr
  next =>
    have hskip := (passed_map_iff (Rest.after '-') fun _ => rfl).mp h
    exact (delimited_skipMagnitude hskip).mono fun later rest =>
      (passed_map_iff (Rest.after '-') fun _ => rfl).mpr
  next hquote hminus =>
    by_cases hdigit : isDigit first = true
    · simp only [hdigit, if_true] at h ⊢
      exact (delimited_skipMagnitude h).tail h.holds
    · simp only [hdigit] at h ⊢
      obtain ⟨value, hread⟩ := passed_map_snd_iff.mp h
      refine (delimited_readScalar hread).mono fun later rest hread => ?_
      exact passed_map_snd_iff.mpr ⟨value, hread⟩

/-! ## Containers -/

theorem delimited_starts {isFirst : Bool} {text opening : List Char}
    (h : Starts isFirst text opening) : Delimited (Starts isFirst) text opening := by
  cases h with
  | first => exact delimited_end fun _ _ => .first
  | later hcomma => exact (selfDelimited_skipBlanks hcomma).delimited.mono fun _ _ => .later

theorem isSelfDelimited_readKey? (isFirst : Bool) : Reader.IsSelfDelimited (readKey? isFirst) := by
  intro text key rest h
  cases key with
  | none =>
      exact (selfDelimited_skipBlanks (leaves_readKey?_none_iff.mp h)).mono fun _ _ =>
        leaves_readKey?_none_iff.mpr
  | some key =>
      obtain ⟨opening, spelled, hstart, hquote, hread⟩ := leaves_readKey?_some_iff.mp h
      have hstring := isSelfDelimited_readStringFrom [] spelled key rest hread
      refine ((delimited_starts hstart).comp
        ((selfDelimited_skipBlanks hquote).delimited.comp hstring)).mono ?_
      rintro text rest ⟨opening, hstart, spelled, hquote, hread⟩
      exact leaves_readKey?_some_iff.mpr ⟨opening, spelled, hstart, hquote, hread⟩

namespace Reader

variable {α β : Type} {looksAhead : Bool} {reader : Reader α}

theorem IsSelfDelimited.map (h : reader.IsSelfDelimited) (convert : α → β) :
    (reader.map convert).IsSelfDelimited := by
  intro text converted rest hread
  obtain ⟨value, hvalue, rfl⟩ := Leaves.map_iff.mp hread
  exact (h text value rest hvalue).mono fun _ _ hvalue => Leaves.map hvalue convert

theorem EndsAlways.map (h : reader.EndsAlways looksAhead) (convert : α → β) :
    (reader.map convert).EndsAlways looksAhead := by
  intro text converted rest hread
  obtain ⟨value, hvalue, rfl⟩ := Leaves.map_iff.mp hread
  obtain ⟨first, hdelimited⟩ := h text value rest hvalue
  exact ⟨first, hdelimited.mono fun _ _ h => ⟨h.1, Leaves.map h.2 convert⟩⟩

theorem isDelimited_refuse (fault : Fault) : (refuse fault : Reader α).IsDelimited :=
  fun _ _ _ h => (Leaves.not_error h).elim

/-- A part that is found after blanks and one other character. -/
theorem exists_endsAt_of_first {takes : List Char → List Char → Prop} {value : α}
    {text later rest : List Char} {first : Char} (hfirst : skipBlanks text = first :: later)
    (h : EndsAt looksAhead takes later rest)
    (hreads : ∀ text later rest, skipBlanks text = first :: later → takes later rest →
      Leaves (reader text) value rest) :
    ∃ first, EndsAt looksAhead
      (fun text rest => Begins first text ∧ Leaves (reader text) value rest) text rest := by
  refine ⟨first, ((selfDelimited_skipBlanks hfirst).delimited.comp h).mono ?_⟩
  rintro text rest ⟨later, hfirst, htakes⟩
  exact ⟨⟨later, hfirst⟩, hreads text later rest hfirst htakes⟩

theorem EndsAlways.afterColon (h : reader.EndsAlways looksAhead) (key : String) :
    Reader.EndsAlways looksAhead (afterColon key reader) := by
  intro text value rest hread
  obtain ⟨later, hcolon, hlater⟩ := leaves_afterColon_iff.mp hread
  obtain ⟨first, hdelimited⟩ := h later value rest hlater
  refine exists_endsAt_of_first hcolon hdelimited fun text later rest hcolon hlater => ?_
  exact leaves_afterColon_iff.mpr ⟨later, hcolon, hlater.2⟩

end Reader

section

variable {σ : Type}

theorem isSelfDelimited_readItems {item : σ → Nat → Reader σ}
    (hitem : ∀ state index, (item state index).IsDelimited) (state : σ) (index : Nat) :
    (readItems item state index).IsSelfDelimited := by
  intro text last rest h
  fun_induction readItems item state index text with
  | case1 => exact (Leaves.not_error h).elim
  | case2 state index text closing hnext =>
      obtain ⟨_, hread, rfl⟩ := h
      cases hread
      exact (selfDelimited_skipBlanks (skipBlanks_of_nextItem_closed hnext)).mono fun _ _ =>
        leaves_readItems_closed index
  | case3 => exact (Leaves.not_error h).elim
  | case4 state index text start hnext next later hread ih =>
      obtain ⟨hstart, first, inner, hfirst, hopen⟩ := starts_of_nextItem_item hnext
      obtain ⟨first', hdelimited⟩ := hitem state index start.1 next later.1 ⟨later, hread, rfl⟩
      obtain ⟨inner', hfirst'⟩ := hdelimited.holds.1
      obtain rfl := (List.cons.inj (hfirst.symm.trans hfirst')).1
      refine ((delimited_starts hstart).comp
        (hdelimited.comp (ih (Leaves.carry_iff.mp h)))).mono ?_
      rintro text rest ⟨opening, hstart, after, ⟨⟨inner, hfirst⟩, hitem⟩, hitems⟩
      obtain ⟨start, hnext, rfl⟩ := exists_nextItem hstart ⟨first, inner, hfirst, hopen⟩
      exact leaves_readItems_item hnext hitem hitems

theorem isSelfDelimited_readMembers {member : σ → String → Reader σ}
    (hmember : ∀ state key, (member state key).IsDelimited) (state : σ) (isFirst : Bool) :
    (readMembers member state isFirst).IsSelfDelimited := by
  intro text last rest h
  fun_induction readMembers member state isFirst text with
  | case1 => exact (Leaves.not_error h).elim
  | case2 state isFirst text closing hkey =>
      obtain ⟨_, hread, rfl⟩ := h
      cases hread
      have hclosed := leaves_readKey?_none_iff.mp ⟨closing, hkey, rfl⟩
      exact (selfDelimited_skipBlanks hclosed).mono fun _ _ => leaves_readMembers_closed
  | case3 => exact (Leaves.not_error h).elim
  | case4 state isFirst text key start hkey next after hread ih =>
      have hkey' := isSelfDelimited_readKey? isFirst text (some key) start.1 ⟨start, hkey, rfl⟩
      obtain ⟨first, hdelimited⟩ := hmember state key start.1 next after.1 ⟨after, hread, rfl⟩
      refine (hkey'.delimited.comp (hdelimited.comp (ih (Leaves.carry_iff.mp h)))).mono ?_
      rintro text rest ⟨inner, hkey, after, ⟨-, hmember⟩, hmembers⟩
      exact leaves_readMembers_member hkey hmember hmembers

end

/-! ## Values -/

theorem isDelimited_readValue (nesting : Nat) : (readValue nesting).IsDelimited := by
  induction nesting using Nat.strongRecOn with
  | ind nesting ih =>
      intro text value rest h
      rcases readValue_cases h with
        ⟨first, later, hfirst, hopen, hread⟩ | ⟨room, later, items, rfl, hopen, rfl, hread⟩ |
          ⟨room, later, members, rfl, hopen, rfl, hread⟩
      · exact Reader.exists_endsAt_of_first hfirst (delimited_readScalar hread)
          fun _ _ _ hfirst hread => leaves_readValue_scalar hfirst hopen hread
      · have hroom := ih room (Nat.lt_succ_self room)
        have hitems := isSelfDelimited_readItems (fun items _ => hroom.map (· :: items)) [] 0
        exact Reader.exists_endsAt_of_first hopen (hitems _ _ _ hread).delimited
          fun _ _ _ => leaves_readValue_array
      · have hroom := ih room (Nat.lt_succ_self room)
        have hmembers := isSelfDelimited_readMembers (fun members key =>
          (hroom.afterColon key).map fun value => (key, value) :: members) [] true
        exact Reader.exists_endsAt_of_first hopen (hmembers _ _ _ hread).delimited
          fun _ _ _ => leaves_readValue_object

/-- A value with the key before it, if there has to be one. -/
private theorem exists_delimited_lead {bracket : Bracket} {takes : List Char → List Char → Prop}
    {later lead rest : List Char} (hlead : Passed (skipLead bracket later) lead)
    (h : ∃ first, Delimited (fun text rest => Begins first text ∧ takes text rest) lead rest) :
    ∃ first, Delimited (fun later rest => Begins first later ∧
      ∃ lead, Passed (skipLead bracket later) lead ∧ takes lead rest) later rest := by
  obtain ⟨first, hvalue⟩ := h
  cases bracket with
  | list =>
      obtain ⟨_, ⟨⟩, rfl⟩ := hlead
      refine ⟨first, hvalue.mono ?_⟩
      exact fun text rest h => ⟨h.1, text, passed_skipLead_list text, h.2⟩
  | map =>
      obtain ⟨spelled, colon, hquote, hskip, hcolon⟩ := passed_skipLead_map_iff.mp hlead
      refine ⟨'"', ((selfDelimited_skipBlanks hquote).delimited.comp
        ((selfDelimited_skipString hskip).delimited.comp
          ((selfDelimited_skipBlanks hcolon).delimited.comp hvalue))).mono ?_⟩
      rintro later rest ⟨spelled, hquote, colon, hskip, lead, hcolon, -, htakes⟩
      exact ⟨⟨spelled, hquote⟩, lead,
        passed_skipLead_map_iff.mpr ⟨spelled, colon, hquote, hskip, hcolon⟩, htakes⟩

/-- Both loops of passing over a value, by the length of the text. -/
private theorem delimited_skip (bound : Nat) :
    (∀ around text rest, text.length < bound → Passed (skipValueWithin around text) rest →
      ∃ first, Delimited (fun text rest => Begins first text ∧
        Passed (skipValueWithin around text) rest) text rest) ∧
    ∀ around text rest, text.length < bound → Passed (skipAfterValue around text) rest →
      Delimited (fun text => Passed (skipAfterValue around text)) text rest := by
  induction bound with
  | zero => exact ⟨fun _ _ _ h => absurd h (by omega), fun _ _ _ h => absurd h (by omega)⟩
  | succ bound ih =>
      obtain ⟨ihwithin, ihafter⟩ := ih
      constructor
      · intro around text rest hbound h
        obtain ⟨first, later, hfirst, h⟩ := skipValueWithin_cases h
        have hlater := length_lt_of_skipBlanks_eq hfirst
        have hblanks := (selfDelimited_skipBlanks hfirst).delimited
        refine ⟨first, ?_⟩
        rcases h with
          ⟨hopen, after, hskip, h⟩ | ⟨bracket, hopen, ⟨after, hclosed, h⟩ |
            ⟨next, beyond, hnext, hgoes, lead, hlead, h⟩⟩
        · have hafter := after.2
          simp only [List.length_cons] at hafter
          refine (hblanks.comp ((delimited_skipScalar hskip).comp
            (ihafter around _ rest (by omega) h))).mono ?_
          rintro text rest ⟨later, hfirst, after, hskip, h⟩
          exact ⟨⟨later, hfirst⟩, h.of_leftOf_eq (leftOf_skipValueWithin_scalar hfirst hopen hskip)⟩
        · have hafter := length_lt_of_skipBlanks_eq hclosed
          refine (hblanks.comp ((selfDelimited_skipBlanks hclosed).delimited.comp
            (ihafter around _ rest (by omega) h))).mono ?_
          rintro text rest ⟨later, hfirst, after, hclosed, h⟩
          exact ⟨⟨later, hfirst⟩,
            h.of_leftOf_eq (leftOf_skipValueWithin_empty hfirst hopen hclosed)⟩
        · have hlength := lead.2
          obtain ⟨next', hdelimited⟩ := exists_delimited_lead hlead
            (ihwithin (bracket :: around) _ rest (by omega) h)
          obtain ⟨beyond', hnext'⟩ := hdelimited.holds.1
          obtain rfl := (List.cons.inj (hnext.symm.trans hnext')).1
          refine (hblanks.comp hdelimited).mono ?_
          rintro text rest ⟨later, hfirst, ⟨beyond, hnext⟩, lead, hlead, h⟩
          exact ⟨⟨later, hfirst⟩,
            h.of_leftOf_eq (leftOf_skipValueWithin_first hfirst hopen hnext hgoes hlead)⟩
      · intro around text rest hbound h
        rcases skipAfterValue_cases h with
          ⟨rfl, rfl⟩ | ⟨bracket, outer, rfl, ⟨after, hclosed, h⟩ |
            ⟨later, hcomma, lead, hlead, h⟩⟩
        · exact delimited_end fun other _ => ⟨_, by rw [skipAfterValue], rfl⟩
        · have hafter := length_lt_of_skipBlanks_eq hclosed
          refine ((selfDelimited_skipBlanks hclosed).delimited.comp
            (ihafter outer _ rest (by omega) h)).mono ?_
          rintro text rest ⟨after, hclosed, h⟩
          exact h.of_leftOf_eq (leftOf_skipAfterValue_closed hclosed)
        · have hlater := length_lt_of_skipBlanks_eq hcomma
          have hlength := lead.2
          obtain ⟨first, hdelimited⟩ := exists_delimited_lead hlead
            (ihwithin (bracket :: outer) _ rest (by omega) h)
          refine ((selfDelimited_skipBlanks hcomma).delimited.comp hdelimited).mono ?_
          rintro text rest ⟨later, hcomma, -, lead, hlead, h⟩
          exact h.of_leftOf_eq (leftOf_skipAfterValue_next hcomma hlead)

theorem isDelimited_skipValue : skipValue.IsDelimited := by
  intro text value rest h
  obtain ⟨first, hdelimited⟩ :=
    (delimited_skip _).1 [] text rest (Nat.lt_succ_self _) (leaves_skipValue_iff.mp h)
  exact ⟨first, hdelimited.mono fun _ _ h => ⟨h.1, leaves_skipValue_iff.mpr h.2⟩⟩

end TreeSyntax.Json
