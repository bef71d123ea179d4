import TreeSyntax.Proofs.Numerals
import TreeSyntax.Proofs.Wire

/-!
# Values that are passed over

Passing over a value leaves what reading it leaves, as far as it can be read.  The loop that passes
over values keeps the brackets that are still open; a whole value at the front of a text is passed
whatever brackets are open around it.
-/

namespace TreeSyntax.Json

/-! ## Strings -/

theorem passed_skipString_character {first : Char} {text rest : List Char}
    (hquote : first ≠ '"') (hbackslash : first ≠ '\\') (hcontrol : ¬ first.toNat < 0x20)
    (h : Passed (skipString text) rest) : Passed (skipString (first :: text)) rest := by
  obtain ⟨later, hskip, rfl⟩ := h
  rw [skipString, if_neg hcontrol, hskip]
  · exact ⟨_, rfl, rfl⟩
  all_goals simp_all

theorem passed_skipString_simple {letter character : Char} {text rest : List Char}
    (hletter : letter ≠ 'u') (hsimple : simpleEscape? letter = some character)
    (h : Passed (skipString text) rest) : Passed (skipString ('\\' :: letter :: text)) rest := by
  obtain ⟨later, hskip, rfl⟩ := h
  rw [skipString, hsimple]
  · simp only [hskip]
    exact ⟨_, rfl, rfl⟩
  · exact hletter

theorem passed_skipString_unicode {text after rest : List Char} {code : Nat}
    (hread : Leaves (readHex text) code after) (h : Passed (skipString after) rest) :
    Passed (skipString ('\\' :: 'u' :: text)) rest := by
  obtain ⟨later, hhex, rfl⟩ := hread
  obtain ⟨last, hskip, rfl⟩ := h
  rw [skipString, hhex]
  simp only [hskip]
  exact ⟨_, rfl, rfl⟩

theorem leaves_readLowSurrogate_iff {high : Nat} {text rest : List Char} {character : Char} :
    Leaves (readLowSurrogate high text) character rest ↔
      ∃ later low, text = '\\' :: 'u' :: later ∧ Leaves (readHex later) low rest ∧
        isLowSurrogate low = true ∧ character = surrogatePair high low := by
  constructor
  · intro h
    unfold readLowSurrogate at h
    split at h
    next later =>
      split at h
      next => exact (Leaves.not_error h).elim
      next low last hhex =>
        split at h
        next hlow =>
          obtain ⟨_, hread, rfl⟩ := h
          simp only [Except.ok.injEq, Prod.mk.injEq] at hread
          obtain ⟨hcharacter, rfl⟩ := hread
          exact ⟨later, low, rfl, ⟨last, hhex, rfl⟩, hlow, hcharacter.symm⟩
        next => exact (Leaves.not_error h).elim
    all_goals exact (Leaves.not_error h).elim
  · rintro ⟨later, low, rfl, ⟨last, hhex, rfl⟩, hlow, hcharacter⟩
    rw [hcharacter, readLowSurrogate, hhex]
    simp only [hlow, if_true]
    exact ⟨_, rfl, rfl⟩

/-- Four digits give a character at once, or the first half of a surrogate pair. -/
theorem leaves_readUnicodeEscape_iff {text rest : List Char} {character : Char} :
    Leaves (readUnicodeEscape text) character rest ↔
      ∃ code later, Leaves (readHex text) code later ∧ isLowSurrogate code = false ∧
        ((isHighSurrogate code = true ∧ Leaves (readLowSurrogate code later) character rest) ∨
          (isHighSurrogate code = false ∧ rest = later ∧ character = Char.ofNat code)) := by
  rw [readUnicodeEscape]
  constructor
  · intro h
    split at h
    next => exact (Leaves.not_error h).elim
    next code last hhex =>
      refine ⟨code, last.1, ⟨last, hhex, rfl⟩, ?_⟩
      split at h
      next => exact (Leaves.not_error h).elim
      next hlow =>
        refine ⟨Bool.not_eq_true _ ▸ hlow, ?_⟩
        split at h
        next hhigh => exact .inl ⟨hhigh, Leaves.carry_iff.mp h⟩
        next hhigh =>
          obtain ⟨_, hread, rfl⟩ := h
          cases hread
          exact .inr ⟨Bool.not_eq_true _ ▸ hhigh, rfl, rfl⟩
  · rintro ⟨code, _, ⟨last, hhex, rfl⟩, hlow, ⟨hhigh, h⟩ | ⟨hhigh, rfl, rfl⟩⟩
    · simp only [hhex, hlow, hhigh, if_true, Bool.false_eq_true, if_false]
      exact h.carry
    · simp only [hhex, hlow, hhigh, Bool.false_eq_true, if_false]
      exact ⟨last, rfl, rfl⟩

theorem leaves_readEscape_iff {text rest : List Char} {character : Char} :
    Leaves (readEscape text) character rest ↔
      (∃ later, text = 'u' :: later ∧ Leaves (readUnicodeEscape later) character rest) ∨
      ∃ letter, letter ≠ 'u' ∧ text = letter :: rest ∧ simpleEscape? letter = some character := by
  constructor
  · intro h
    unfold readEscape at h
    split at h
    next => exact (Leaves.not_error h).elim
    next later => exact .inl ⟨later, rfl, Leaves.carry_iff.mp h⟩
    next letter later hletter =>
      split at h
      next hsimple =>
        obtain ⟨_, hread, rfl⟩ := h
        cases hread
        exact .inr ⟨letter, hletter, rfl, hsimple⟩
      next => exact (Leaves.not_error h).elim
  · rintro (⟨later, rfl, h⟩ | ⟨letter, hletter, rfl, hsimple⟩)
    · rw [readEscape]
      exact h.carry
    · exact leaves_readEscape hletter hsimple rest

private theorem passed_skipString_escape {text after rest : List Char} {character : Char}
    (hread : Leaves (readEscape text) character after) (h : Passed (skipString after) rest) :
    Passed (skipString ('\\' :: text)) rest := by
  rcases leaves_readEscape_iff.mp hread with
    ⟨digits, rfl, hunicode⟩ | ⟨letter, hletter, rfl, hsimple⟩
  · obtain ⟨code, later, hhex, -, ⟨-, hlow⟩ | ⟨-, rfl, -⟩⟩ :=
      leaves_readUnicodeEscape_iff.mp hunicode
    · obtain ⟨_, _, rfl, hhex', -, -⟩ := leaves_readLowSurrogate_iff.mp hlow
      exact passed_skipString_unicode hhex (passed_skipString_unicode hhex' h)
    · exact passed_skipString_unicode hhex h
  · exact passed_skipString_simple hletter hsimple h

theorem passed_skipString {read text rest : List Char} {value : String}
    (h : Leaves (readStringFrom read text) value rest) : Passed (skipString text) rest := by
  fun_induction readStringFrom read text with
  | case1 => exact (Leaves.not_error h).elim
  | case2 read later =>
      obtain ⟨_, hread, rfl⟩ := h
      cases hread
      exact ⟨_, by rw [skipString], rfl⟩
  | case3 => exact (Leaves.not_error h).elim
  | case4 read text character later hescape ih =>
      exact passed_skipString_escape ⟨later, hescape, rfl⟩ (ih (Leaves.carry_iff.mp h))
  | case5 => exact (Leaves.not_error h).elim
  | case6 read first text hquote hbackslash hcontrol ih =>
      exact passed_skipString_character hquote hbackslash hcontrol (ih (Leaves.carry_iff.mp h))

/-! ## Scalars -/

theorem readScalar_of_isDigit {first : Char} (hdigit : isDigit first = true) (text : List Char) :
    readScalar first text = (readMagnitude false).map Json.number (first :: text) := by
  unfold readScalar
  split
  case h_6 => rw [if_pos hdigit]
  all_goals exact absurd hdigit (by decide)

theorem passed_skipScalar {first : Char} {text rest : List Char} {value : Json}
    (h : Leaves (readScalar first text) value rest) : Passed (skipScalar first text) rest := by
  unfold skipScalar
  split
  next =>
    rw [readScalar, Leaves.carry_iff, Leaves.map_iff] at h
    obtain ⟨_, hread, -⟩ := h
    exact (passed_map_iff (Rest.after '"') fun _ => rfl).mpr (passed_skipString hread)
  next =>
    rw [readScalar, Leaves.carry_iff, Leaves.map_iff] at h
    obtain ⟨_, hread, -⟩ := h
    exact (passed_map_iff (Rest.after '-') fun _ => rfl).mpr (passed_skipMagnitude hread)
  next _ hquote hminus =>
    by_cases hdigit : isDigit first = true
    · rw [if_pos hdigit]
      rw [readScalar_of_isDigit hdigit, Leaves.map_iff] at h
      obtain ⟨_, hread, -⟩ := h
      exact passed_skipMagnitude hread
    · rw [if_neg hdigit]
      exact passed_map_snd_iff.mpr ⟨value, h⟩

/-! ## Containers -/

def leftOf {shorter : List Char → Prop}
    (result : Except Fault { rest : List Char // shorter rest }) : Except Fault (List Char) :=
  result.map Subtype.val

theorem Passed.of_leftOf_eq {shorter shorter' : List Char → Prop}
    {result : Except Fault { rest : List Char // shorter rest }}
    {result' : Except Fault { rest : List Char // shorter' rest }} {rest : List Char}
    (heq : leftOf result = leftOf result') (h : Passed result' rest) : Passed result rest := by
  obtain ⟨later, rfl, rfl⟩ := h
  cases result with
  | error fault => cases heq
  | ok last => exact ⟨last, rfl, Except.ok.inj heq⟩

section

variable {around : List Bracket} {bracket : Bracket} {text later after lead : List Char}
  {first : Char}

theorem leftOf_skipValueWithin_scalar (hfirst : skipBlanks text = first :: later)
    (hopen : openBracket? first = none) (hskip : Passed (skipScalar first later) after) :
    leftOf (skipValueWithin around text) = leftOf (skipAfterValue around after) := by
  obtain ⟨last, hskip, rfl⟩ := hskip
  rw [skipValueWithin]
  split
  next hend => cases hfirst.symm.trans hend
  next other more hother =>
    obtain ⟨rfl, rfl⟩ := List.cons.inj (hfirst.symm.trans hother)
    split
    next =>
      simp only [hskip]
      cases skipAfterValue around last.1 <;> rfl
    next hbracket => cases hopen.symm.trans hbracket

theorem leftOf_skipValueWithin_empty (hfirst : skipBlanks text = first :: later)
    (hopen : openBracket? first = some bracket)
    (hclosed : skipBlanks later = bracket.closing :: after) :
    leftOf (skipValueWithin around text) = leftOf (skipAfterValue around after) := by
  rw [skipValueWithin]
  split
  next hend => cases hfirst.symm.trans hend
  next other more hother =>
    obtain ⟨rfl, rfl⟩ := List.cons.inj (hfirst.symm.trans hother)
    split
    next hscalar => cases hopen.symm.trans hscalar
    next found hfound =>
      obtain rfl := Option.some.inj (hopen.symm.trans hfound)
      split
      next hend => cases hclosed.symm.trans hend
      next next beyond hnext =>
        obtain ⟨rfl, rfl⟩ := List.cons.inj (hclosed.symm.trans hnext)
        rw [if_pos rfl]
        cases skipAfterValue around after <;> rfl

theorem leftOf_skipValueWithin_first {next : Char} {beyond : List Char}
    (hfirst : skipBlanks text = first :: later) (hopen : openBracket? first = some bracket)
    (hnext : skipBlanks later = next :: beyond) (hgoes : next ≠ bracket.closing)
    (hlead : Passed (skipLead bracket later) lead) :
    leftOf (skipValueWithin around text) =
      leftOf (skipValueWithin (bracket :: around) lead) := by
  obtain ⟨last, hlead, rfl⟩ := hlead
  rw [skipValueWithin]
  split
  next hend => cases hfirst.symm.trans hend
  next other more hother =>
    obtain ⟨rfl, rfl⟩ := List.cons.inj (hfirst.symm.trans hother)
    split
    next hscalar => cases hopen.symm.trans hscalar
    next found hfound =>
      obtain rfl := Option.some.inj (hopen.symm.trans hfound)
      split
      next hend => cases hnext.symm.trans hend
      next other' inside hinside =>
        obtain ⟨rfl, rfl⟩ := List.cons.inj (hnext.symm.trans hinside)
        rw [if_neg hgoes]
        simp only [hlead]
        cases skipValueWithin (bracket :: around) last.1 <;> rfl

theorem leftOf_skipAfterValue_closed (hclosed : skipBlanks text = bracket.closing :: after) :
    leftOf (skipAfterValue (bracket :: around) text) = leftOf (skipAfterValue around after) := by
  rw [skipAfterValue]
  split
  next hend => cases hclosed.symm.trans hend
  next other more hother =>
    obtain ⟨rfl, rfl⟩ := List.cons.inj (hclosed.symm.trans hother)
    rw [if_pos rfl]
    cases skipAfterValue around after <;> rfl

theorem leftOf_skipAfterValue_next (hcomma : skipBlanks text = ',' :: later)
    (hlead : Passed (skipLead bracket later) lead) :
    leftOf (skipAfterValue (bracket :: around) text) =
      leftOf (skipValueWithin (bracket :: around) lead) := by
  obtain ⟨last, hlead, rfl⟩ := hlead
  have hgoes : ',' ≠ bracket.closing := by cases bracket <;> decide
  rw [skipAfterValue]
  split
  next hend => cases hcomma.symm.trans hend
  next other more hother =>
    obtain ⟨rfl, rfl⟩ := List.cons.inj (hcomma.symm.trans hother)
    rw [if_neg hgoes, if_pos rfl]
    simp only [hlead]
    cases skipValueWithin (bracket :: around) last.1 <;> rfl

end

/-- A value begins as a scalar, an empty container or a container with a first part. -/
theorem skipValueWithin_cases {around : List Bracket} {text rest : List Char}
    (h : Passed (skipValueWithin around text) rest) :
    ∃ first later, skipBlanks text = first :: later ∧
      ((openBracket? first = none ∧ ∃ after : Rest (first :: later),
        Passed (skipScalar first later) after.1 ∧ Passed (skipAfterValue around after.1) rest) ∨
      ∃ bracket, openBracket? first = some bracket ∧
        ((∃ after, skipBlanks later = bracket.closing :: after ∧
          Passed (skipAfterValue around after) rest) ∨
        ∃ next beyond, skipBlanks later = next :: beyond ∧ next ≠ bracket.closing ∧
          ∃ lead : { lead : List Char // lead.length ≤ later.length },
            Passed (skipLead bracket later) lead.1 ∧
            Passed (skipValueWithin (bracket :: around) lead.1) rest)) := by
  obtain ⟨last, h, rfl⟩ := h
  rw [skipValueWithin] at h
  split at h
  next => cases h
  next first later hfirst =>
    refine ⟨first, later, hfirst, ?_⟩
    split at h
    next hopen =>
      split at h
      next => cases h
      next after hskip =>
        split at h
        next => cases h
        next left hleft =>
          cases h
          exact .inl ⟨hopen, after, ⟨after, hskip, rfl⟩, left, hleft, rfl⟩
    next bracket hopen =>
      refine .inr ⟨bracket, hopen, ?_⟩
      split at h
      next => cases h
      next next beyond hnext =>
        split at h
        next hclosed =>
          split at h
          next => cases h
          next left hleft =>
            cases h
            exact .inl ⟨beyond, hclosed ▸ hnext, left, hleft, rfl⟩
        next hgoes =>
          split at h
          next => cases h
          next lead hlead =>
            split at h
            next => cases h
            next left hleft =>
              cases h
              exact .inr ⟨next, beyond, hnext, hgoes, lead, ⟨lead, hlead, rfl⟩, left, hleft, rfl⟩

/-- After a value the innermost container ends or goes on. -/
theorem skipAfterValue_cases {around : List Bracket} {text rest : List Char}
    (h : Passed (skipAfterValue around text) rest) :
    (around = [] ∧ rest = text) ∨
    ∃ bracket outer, around = bracket :: outer ∧
      ((∃ after, skipBlanks text = bracket.closing :: after ∧
        Passed (skipAfterValue outer after) rest) ∨
      ∃ later, skipBlanks text = ',' :: later ∧
        ∃ lead : { lead : List Char // lead.length ≤ later.length },
          Passed (skipLead bracket later) lead.1 ∧
          Passed (skipValueWithin (bracket :: outer) lead.1) rest) := by
  obtain ⟨last, h, rfl⟩ := h
  cases around with
  | nil =>
      rw [skipAfterValue] at h
      cases h
      exact .inl ⟨rfl, rfl⟩
  | cons bracket outer =>
      refine .inr ⟨bracket, outer, rfl, ?_⟩
      rw [skipAfterValue] at h
      split at h
      next => cases h
      next first later hfirst =>
        split at h
        next hclosed =>
          split at h
          next => cases h
          next left hleft =>
            cases h
            exact .inl ⟨later, hclosed ▸ hfirst, left, hleft, rfl⟩
        next =>
          split at h
          next hcomma =>
            split at h
            next => cases h
            next lead hlead =>
              split at h
              next => cases h
              next left hleft =>
                cases h
                exact .inr ⟨later, hcomma ▸ hfirst, lead, ⟨lead, hlead, rfl⟩, left, hleft, rfl⟩
          next => cases h

/-- A whole value at the front of a text is passed, whatever brackets are open around it. -/
def Passes (text rest : List Char) : Prop :=
  ∀ around, leftOf (skipValueWithin around text) = leftOf (skipAfterValue around rest)

abbrev PassesAs {β : Type} (text : List Char) (_ : β) (rest : List Char) : Prop :=
  Passes text rest

theorem passed_skipKey_iff {text rest : List Char} :
    Passed (skipKey text) rest ↔ ∃ spelled colon, skipBlanks text = '"' :: spelled ∧
      Passed (skipString spelled) colon ∧ skipBlanks colon = ':' :: rest := by
  unfold skipKey
  split
  next hend => simp [hend, Passed]
  next spelled hquote =>
    simp only [hquote, List.cons.injEq, true_and]
    constructor
    · intro h
      split at h
      next => exact (Passed.not_error h).elim
      next later hskip =>
        split at h
        next => exact (Passed.not_error h).elim
        next last hcolon =>
          obtain ⟨_, hlast, rfl⟩ := h
          cases hlast
          exact ⟨spelled, later.1, rfl, ⟨later, hskip, rfl⟩, hcolon⟩
        next => exact (Passed.not_error h).elim
    · rintro ⟨_, _, rfl, ⟨later, hskip, rfl⟩, hcolon⟩
      simp only [hskip]
      split
      next hend => cases hcolon.symm.trans hend
      next last hlast =>
        obtain rfl := (List.cons.inj (hcolon.symm.trans hlast)).2
        exact ⟨_, rfl, rfl⟩
      next hother => exact absurd hcolon (hother rest)
  next hother =>
    refine iff_of_false Passed.not_error ?_
    rintro ⟨spelled, -, hquote, -⟩
    exact absurd hquote (hother spelled)

theorem passed_skipLead_map_iff {text rest : List Char} :
    Passed (skipLead .map text) rest ↔ ∃ spelled colon, skipBlanks text = '"' :: spelled ∧
      Passed (skipString spelled) colon ∧ skipBlanks colon = ':' :: rest := by
  rw [← passed_skipKey_iff]
  exact passed_map_iff Rest.relax fun _ => rfl

section

variable {β : Type} {text rest : List Char}

theorem passed_skipLead_list (text : List Char) : Passed (skipLead .list text) text :=
  ⟨_, rfl, rfl⟩

theorem passed_skipLead_map {opening spelled colon later : List Char} {key : String}
    (hquote : skipBlanks opening = '"' :: spelled) (hkey : Leaves (readString spelled) key colon)
    (hcolon : skipBlanks colon = ':' :: later) : Passed (skipLead .map opening) later :=
  passed_skipLead_map_iff.mpr ⟨spelled, colon, hquote, passed_skipString hkey, hcolon⟩

private theorem leftOf_skipAfterValue_items {items : List β}
    (h : ItemsIn PassesAs false text items rest)
    (around : List Bracket) :
    leftOf (skipAfterValue (.list :: around) text) = leftOf (skipAfterValue around rest) := by
  induction items generalizing text with
  | nil =>
      cases h with
      | closed hclosed => exact leftOf_skipAfterValue_closed hclosed
  | cons item items ih =>
      cases h with
      | item hstart _ hitem hitems =>
          cases hstart with
          | later hcomma =>
              rw [leftOf_skipAfterValue_next hcomma (passed_skipLead_list _), hitem, ih hitems]

private theorem leftOf_skipAfterValue_members {members : Entries β}
    (h : MembersIn PassesAs false text members rest)
    (around : List Bracket) :
    leftOf (skipAfterValue (.map :: around) text) = leftOf (skipAfterValue around rest) := by
  induction members generalizing text with
  | nil =>
      cases h with
      | closed hclosed => exact leftOf_skipAfterValue_closed hclosed
  | cons member members ih =>
      cases h with
      | member hstart hquote hkey hcolon hvalue hmembers =>
          cases hstart with
          | later hcomma =>
              rw [leftOf_skipAfterValue_next hcomma (passed_skipLead_map hquote hkey hcolon),
                hvalue, ih hmembers]

theorem passes_array {items : List β}
    (h : ArrayAt PassesAs text items rest) : Passes text rest := by
  obtain ⟨inner, hopen, hitems⟩ := h
  intro around
  cases hitems with
  | closed hclosed => exact leftOf_skipValueWithin_empty hopen rfl hclosed
  | item hstart hopens hitem hitems =>
      cases hstart
      obtain ⟨next, beyond, hnext, hgoes⟩ := hopens
      rw [leftOf_skipValueWithin_first hopen rfl hnext hgoes (passed_skipLead_list inner), hitem,
        leftOf_skipAfterValue_items hitems]

theorem passes_object {members : Entries β}
    (h : ObjectAt PassesAs text members rest) : Passes text rest := by
  obtain ⟨inner, hopen, hmembers⟩ := h
  intro around
  cases hmembers with
  | closed hclosed => exact leftOf_skipValueWithin_empty hopen rfl hclosed
  | member hstart hquote hkey hcolon hvalue hmembers =>
      cases hstart
      rw [leftOf_skipValueWithin_first hopen rfl hquote (by decide)
        (passed_skipLead_map hquote hkey hcolon), hvalue, leftOf_skipAfterValue_members hmembers]

theorem passes_scalar {later : List Char} {first : Char} {value : Json}
    (hfirst : skipBlanks text = first :: later) (hopen : openBracket? first = none)
    (hread : Leaves (readScalar first later) value rest) : Passes text rest :=
  fun _ => leftOf_skipValueWithin_scalar hfirst hopen (passed_skipScalar hread)

end

/-- Whatever is read is passed. -/
theorem passes_of_readValue {nesting : Nat} {text rest : List Char} {value : Json}
    (h : Leaves (readValue nesting text) value rest) : Passes text rest := by
  induction nesting generalizing text value rest with
  | zero =>
      cases valueAt_of_readValue h with
      | scalar hfirst hopen hread => exact passes_scalar hfirst hopen hread
  | succ nesting ih =>
      cases valueAt_of_readValue h with
      | scalar hfirst hopen hread => exact passes_scalar hfirst hopen hread
      | array hitems => exact passes_array (hitems.mono fun _ _ _ h => ih h)
      | object hmembers => exact passes_object (hmembers.mono fun _ _ _ h => ih h)

theorem leaves_skipValue_iff {text rest : List Char} :
    Leaves (skipValue text) () rest ↔ Passed (skipValueWithin [] text) rest := by
  rw [skipValue]
  cases skipValueWithin [] text with
  | error fault => exact iff_of_false Leaves.not_error Passed.not_error
  | ok later => simp [Leaves, Passed, Except.map]

theorem Passes.skipValue {text rest : List Char} (h : Passes text rest) :
    Leaves (skipValue text) () rest :=
  leaves_skipValue_iff.mpr (.of_leftOf_eq (h []) ⟨_, by rw [skipAfterValue], rfl⟩)

/-- Containers that were left behind may have stood inside others. -/
theorem leftOf_skip_append (bound : Nat) :
    (∀ inner text rest outer, text.length < bound → Passed (skipValueWithin inner text) rest →
      leftOf (skipValueWithin (inner ++ outer) text) = leftOf (skipAfterValue outer rest)) ∧
    ∀ inner text rest outer, text.length < bound → Passed (skipAfterValue inner text) rest →
      leftOf (skipAfterValue (inner ++ outer) text) = leftOf (skipAfterValue outer rest) := by
  induction bound with
  | zero => exact ⟨fun _ _ _ _ h => absurd h (by omega), fun _ _ _ _ h => absurd h (by omega)⟩
  | succ bound ih =>
      obtain ⟨ihwithin, ihafter⟩ := ih
      constructor
      · intro inner text rest outer hbound h
        obtain ⟨first, later, hfirst, h⟩ := skipValueWithin_cases h
        have hlater := length_lt_of_skipBlanks_eq hfirst
        rcases h with
          ⟨hopen, after, hskip, h⟩ | ⟨bracket, hopen, ⟨after, hclosed, h⟩ |
            ⟨next, beyond, hnext, hgoes, lead, hlead, h⟩⟩
        · have hafter := after.2
          simp only [List.length_cons] at hafter
          rw [leftOf_skipValueWithin_scalar hfirst hopen hskip]
          exact ihafter inner _ rest outer (by omega) h
        · have hafter := length_lt_of_skipBlanks_eq hclosed
          rw [leftOf_skipValueWithin_empty hfirst hopen hclosed]
          exact ihafter inner _ rest outer (by omega) h
        · have hlength := lead.2
          rw [leftOf_skipValueWithin_first hfirst hopen hnext hgoes hlead]
          exact ihwithin (bracket :: inner) _ rest outer (by omega) h
      · intro inner text rest outer hbound h
        rcases skipAfterValue_cases h with
          ⟨rfl, rfl⟩ | ⟨bracket, inner, rfl, ⟨after, hclosed, h⟩ |
            ⟨later, hcomma, lead, hlead, h⟩⟩
        · rfl
        · have hafter := length_lt_of_skipBlanks_eq hclosed
          rw [List.cons_append, leftOf_skipAfterValue_closed hclosed]
          exact ihafter inner _ rest outer (by omega) h
        · have hlater := length_lt_of_skipBlanks_eq hcomma
          have hlength := lead.2
          rw [List.cons_append, leftOf_skipAfterValue_next hcomma hlead]
          exact ihwithin (bracket :: inner) _ rest outer (by omega) h

theorem passes_of_skipValue {text rest : List Char} (h : Leaves (skipValue text) () rest) :
    Passes text rest :=
  fun around => (leftOf_skip_append _).1 [] text rest around (Nat.lt_succ_self _)
    (leaves_skipValue_iff.mp h)

end TreeSyntax.Json
