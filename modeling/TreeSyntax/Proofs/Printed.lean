import TreeSyntax.Json.Skip
import TreeSyntax.Proofs.Nesting
import TreeSyntax.Proofs.WellFormed

/-!
# Reading printed values

A value without numbers is read back from its indented text, whatever follows the text: strings
through their escapes, and containers through the blanks between their parts.
-/

namespace TreeSyntax.Json

/-! ## What a reader leaves over -/

/-- Reading ended with the value and left the rest of the text. -/
def Leaves {α : Type} {text : List Char} (result : Except Fault (α × Rest text)) (value : α)
    (rest : List Char) : Prop :=
  ∃ later : Rest text, result = .ok (value, later) ∧ later.1 = rest

namespace Leaves

variable {α β : Type} {value : α} {rest : List Char}

theorem carry {text later : List Char} {shorter : later.length ≤ text.length}
    {result : Except Fault (α × Rest later)} (h : Leaves result value rest) :
    Leaves (Reader.carry shorter result) value rest := by
  obtain ⟨last, rfl, hlast⟩ := h
  exact ⟨_, rfl, hlast⟩

theorem carryPast {text later : List Char} {first : Char}
    {found : skipBlanks text = first :: later} {result : Except Fault (α × Rest later)}
    (h : Leaves result value rest) : Leaves (Reader.carryPast found result) value rest :=
  h.carry

theorem map {reader : Reader α} {text : List Char} (h : Leaves (reader text) value rest)
    (convert : α → β) : Leaves ((reader.map convert) text) (convert value) rest := by
  obtain ⟨last, hread, hlast⟩ := h
  exact ⟨last, by rw [Reader.map, hread], hlast⟩

theorem within {reader : Reader α} {text : List Char} (h : Leaves (reader text) value rest)
    (step : Step) : Leaves ((reader.within step) text) value rest := by
  obtain ⟨last, hread, hlast⟩ := h
  exact ⟨last, by rw [Reader.within, hread]; rfl, hlast⟩

end Leaves

/-! ## Strings -/

theorem hexValue?_digitChar {digit : Nat} (h : digit < 16) :
    hexValue? (Nat.digitChar digit) = some digit := by
  have hall : ∀ digit : Fin 16, hexValue? (Nat.digitChar digit) = some digit.1 := by decide
  exact hall ⟨digit, h⟩

/-- A character is written after a backslash, by its number, or as it is. -/
theorem escapeCharacter_cases (character : Char) :
    (∃ letter, letter ≠ 'u' ∧ simpleEscape? letter = some character ∧
      escapeCharacter character = ['\\', letter]) ∨
    (character.toNat < 0x20 ∧ escapeCharacter character = escapeControl character) ∨
    (¬ character.toNat < 0x20 ∧ character ≠ '"' ∧ character ≠ '\\' ∧
      escapeCharacter character = [character]) := by
  unfold escapeCharacter
  split
  · exact .inl ⟨'"', by decide, rfl, rfl⟩
  · exact .inl ⟨'\\', by decide, rfl, rfl⟩
  · exact .inl ⟨'b', by decide, rfl, rfl⟩
  · exact .inl ⟨'f', by decide, rfl, rfl⟩
  · exact .inl ⟨'n', by decide, rfl, rfl⟩
  · exact .inl ⟨'r', by decide, rfl, rfl⟩
  · exact .inl ⟨'t', by decide, rfl, rfl⟩
  next hquote hbackslash _ _ _ _ _ =>
    by_cases hcontrol : character.toNat < 0x20
    · exact .inr (.inl ⟨hcontrol, if_pos hcontrol⟩)
    · exact .inr (.inr ⟨hcontrol, hquote, hbackslash, if_neg hcontrol⟩)

private theorem leaves_readHex {code : Nat} (h : code < 256) (rest : List Char) :
    Leaves (readHex ('0' :: '0' :: Nat.digitChar (code / 16) :: Nat.digitChar (code % 16) :: rest))
      code rest := by
  have hhigh := hexValue?_digitChar (show code / 16 < 16 by omega)
  have hlow := hexValue?_digitChar (show code % 16 < 16 by omega)
  have hzero : hexValue? '0' = some 0 := by decide
  have hnumber : hexNumber? ['0', '0', Nat.digitChar (code / 16), Nat.digitChar (code % 16)] =
      some code := by
    simp [hexNumber?, List.foldlM, hzero, hhigh, hlow]
    omega
  exact ⟨_, by rw [readHex, hnumber], rfl⟩

private theorem leaves_readUnicodeEscape {character : Char} (h : character.toNat < 0x20)
    (rest : List Char) :
    Leaves (readUnicodeEscape ('0' :: '0' :: Nat.digitChar (character.toNat / 16) ::
      Nat.digitChar (character.toNat % 16) :: rest)) character rest := by
  obtain ⟨later, hread, hlater⟩ :=
    leaves_readHex (show character.toNat < 256 by omega) rest
  have hlow : isLowSurrogate character.toNat = false := by
    simp [isLowSurrogate]
    omega
  have hhigh : isHighSurrogate character.toNat = false := by
    simp [isHighSurrogate]
    omega
  refine ⟨later, ?_, hlater⟩
  simp only [readUnicodeEscape, hread, hlow, hhigh, Char.ofNat_toNat]
  rfl

theorem leaves_readEscape {letter character : Char} (hletter : letter ≠ 'u')
    (h : simpleEscape? letter = some character) (rest : List Char) :
    Leaves (readEscape (letter :: rest)) character rest := by
  refine ⟨.tail letter rest, ?_, rfl⟩
  rw [readEscape, h]
  exact hletter

private theorem leaves_readEscape_control {character : Char} (h : character.toNat < 0x20)
    (rest : List Char) :
    Leaves (readEscape ('u' :: '0' :: '0' :: Nat.digitChar (character.toNat / 16) ::
      Nat.digitChar (character.toNat % 16) :: rest)) character rest := by
  rw [readEscape]
  exact (leaves_readUnicodeEscape h rest).carry

theorem leaves_readStringFrom_escape {read escaped tail rest : List Char} {text : String}
    {character : Char} (hescape : Leaves (readEscape escaped) character tail)
    (h : Leaves (readStringFrom (character :: read) tail) text rest) :
    Leaves (readStringFrom read ('\\' :: escaped)) text rest := by
  obtain ⟨later, hread, rfl⟩ := hescape
  rw [readStringFrom, hread]
  exact h.carry

private theorem leaves_readStringFrom_character {read rest : List Char} {text : String}
    (character : Char) {tail : List Char}
    (h : Leaves (readStringFrom (character :: read) tail) text rest) :
    Leaves (readStringFrom read (escapeCharacter character ++ tail)) text rest := by
  rcases escapeCharacter_cases character with
    ⟨letter, hletter, hsimple, hescape⟩ | ⟨hcontrol, hescape⟩ |
      ⟨hplain, hquote, hbackslash, hescape⟩
  · rw [hescape]
    exact leaves_readStringFrom_escape (leaves_readEscape hletter hsimple tail) h
  · rw [hescape]
    exact leaves_readStringFrom_escape (leaves_readEscape_control hcontrol tail) h
  · rw [hescape, List.singleton_append, readStringFrom, if_neg hplain]
    · exact h.carry
    · exact hquote
    · exact hbackslash

private theorem leaves_readStringFrom (read text rest : List Char) :
    Leaves (readStringFrom read (text.flatMap escapeCharacter ++ '"' :: rest))
      (String.ofList (read.reverse ++ text)) rest := by
  induction text generalizing read with
  | nil =>
      rw [List.append_nil, List.flatMap_nil, List.nil_append]
      exact ⟨.tail '"' rest, by rw [readStringFrom], rfl⟩
  | cons character text ih =>
      have htail := ih (character :: read)
      rw [List.reverse_cons, List.append_assoc, List.singleton_append] at htail
      rw [List.flatMap_cons, List.append_assoc]
      exact leaves_readStringFrom_character character htail

theorem leaves_readString (text : String) (rest : List Char) :
    Leaves (readString (text.toList.flatMap escapeCharacter ++ '"' :: rest)) text rest := by
  have hread := leaves_readStringFrom [] text.toList rest
  rwa [List.reverse_nil, List.nil_append, String.ofList_toList] at hread

/-! ## Blanks -/

def AllBlank (text : List Char) : Prop :=
  ∀ character ∈ text, isBlank character = true

theorem skipBlanks_append {blanks : List Char} (h : AllBlank blanks) (text : List Char) :
    skipBlanks (blanks ++ text) = skipBlanks text :=
  List.dropWhile_append_of_pos h

theorem skipBlanks_cons {first : Char} (h : isBlank first = false) (rest : List Char) :
    skipBlanks (first :: rest) = first :: rest :=
  List.dropWhile_cons_of_neg (Bool.not_eq_true _ ▸ h)

def lineBreak (depth : Nat) : List Char :=
  '\n' :: (margin depth).toList

theorem allBlank_nil : AllBlank [] := nofun

theorem allBlank_lineBreak (depth : Nat) : AllBlank (lineBreak depth) := by
  intro character hmem
  simp only [lineBreak, margin, String.toList_ofList, List.mem_cons, List.mem_replicate] at hmem
  rcases hmem with rfl | ⟨-, rfl⟩ <;> rfl

/-! ## Blocks -/

def insideBlock (depth : Nat) : List (List Char) → List Char
  | [] => []
  | part :: parts =>
      lineBreak (depth + 1) ++ part ++
        (parts.flatMap fun part => ',' :: lineBreak (depth + 1) ++ part) ++ lineBreak depth

private theorem intercalate_lines (line : List Char → List Char) (separator part : List Char)
    (parts : List (List Char)) :
    separator.intercalate ((part :: parts).map line) =
      line part ++ parts.flatMap fun part => separator ++ line part := by
  induction parts generalizing part with
  | nil => simp [List.intercalate]
  | cons next parts ih =>
      rw [List.map_cons, List.map_cons, List.intercalate_cons_cons, ← List.map_cons, ih,
        List.flatMap_cons, List.append_assoc, List.append_assoc]

theorem toList_block (depth : Nat) (opening closing : String) (parts : List String) :
    (block depth opening closing parts).toList =
      opening.toList ++ (insideBlock depth (parts.map String.toList) ++ closing.toList) := by
  cases parts with
  | nil => exact String.toList_append
  | cons part parts =>
      have hcomma : (",\n" : String).toList = [',', '\n'] := rfl
      have hfeed : ("\n" : String).toList = ['\n'] := rfl
      have hlines := intercalate_lines (fun line => (margin (depth + 1)).toList ++ line)
        [',', '\n'] part.toList (parts.map String.toList)
      rw [← List.map_cons, List.map_map] at hlines
      simp only [block, String.toList_append, String.toList_intercalate, List.map_map,
        Function.comp_def, hcomma, hfeed] at hlines ⊢
      rw [hlines]
      simp [insideBlock, lineBreak]

/-! ## Elements -/

/-- The text of an element starts with neither a blank nor a closing bracket. -/
def StartsElement (text : List Char) : Prop :=
  ∃ first rest, text = first :: rest ∧ isBlank first = false ∧ first ≠ ']'

theorem StartsElement.exists_skipBlanks {part : List Char} (h : StartsElement part) :
    ∃ first, first ≠ ']' ∧ ∀ blanks tail, AllBlank blanks →
      ∃ rest, skipBlanks (blanks ++ (part ++ tail)) = first :: rest := by
  obtain ⟨first, rest, rfl, hfirst, hopen⟩ := h
  refine ⟨first, hopen, fun blanks tail hblank => ⟨rest ++ tail, ?_⟩⟩
  rw [skipBlanks_append hblank]
  exact skipBlanks_cons hfirst _

theorem nextItem_closing {text rest : List Char} (index : Nat)
    (h : skipBlanks text = ']' :: rest) : nextItem index text = .ok (.closed (.past h)) := by
  unfold nextItem
  split
  next hend => cases h.symm.trans hend
  next later hfound =>
    obtain rfl := (List.cons.inj (h.symm.trans hfound)).2
    rfl
  next first later hopen hfound =>
    exact absurd (List.cons.inj (h.symm.trans hfound)).1.symm hopen

theorem nextItem_first {text rest : List Char} {first : Char}
    (h : skipBlanks text = first :: rest) (hopen : first ≠ ']') :
    nextItem 0 text = .ok (.item (wholeText text)) := by
  unfold nextItem
  split
  next hend => cases h.symm.trans hend
  next later hfound => exact absurd (List.cons.inj (h.symm.trans hfound)).1 hopen
  next other later hother hfound => rfl

theorem exists_nextItem_after {text rest later : List Char} {first : Char} (index : Nat)
    (h : skipBlanks text = ',' :: rest) (hrest : skipBlanks rest = first :: later)
    (hopen : first ≠ ']') :
    ∃ start, nextItem (index + 1) text = .ok (.item start) ∧ start.1 = rest := by
  unfold nextItem
  split
  next hend => cases h.symm.trans hend
  next later hfound => cases h.symm.trans hfound
  next other inner hother hfound =>
    obtain ⟨rfl, rfl⟩ := List.cons.inj (h.symm.trans hfound)
    simp only [Nat.add_one_ne_zero, if_false, if_true]
    split
    next hend => cases hrest.symm.trans hend
    next beyond hclosed => exact absurd (List.cons.inj (hrest.symm.trans hclosed)).1 hopen
    · exact ⟨_, rfl, rfl⟩

section

variable {σ : Type} {item : σ → Nat → Reader σ} {state next last : σ} {text rest : List Char}

theorem leaves_readItems_closed (index : Nat) (h : skipBlanks text = ']' :: rest) :
    Leaves (readItems item state index text) state rest :=
  ⟨_, by rw [readItems, nextItem_closing index h], rfl⟩

theorem leaves_readItems_item {index : Nat} {later : List Char}
    {start : { start : List Char // start.length ≤ text.length }}
    (hnext : nextItem index text = .ok (.item start))
    (hitem : Leaves (item state index start.1) next later)
    (hrest : Leaves (readItems item next (index + 1) later) last rest) :
    Leaves (readItems item state index text) last rest := by
  obtain ⟨after, hread, rfl⟩ := hitem
  rw [readItems, hnext]
  simp only [hread]
  exact hrest.carry

end

def ReadsBack {α : Type} (reader : Reader α) (part : List Char) (value : α) : Prop :=
  ∀ blanks rest, AllBlank blanks → Leaves (reader (blanks ++ (part ++ rest))) value rest

section

variable {reader : Reader Json} {part : Json → List Char}

private theorem leaves_readItems_after {items : List Json}
    (hreads : ∀ item ∈ items, ReadsBack reader (part item) item)
    (hstarts : ∀ item ∈ items, StartsElement (part item)) (depth index : Nat) (read : List Json)
    (rest : List Char) :
    Leaves (readItems (fun items _ => reader.map (· :: items)) read (index + 1)
      ((items.flatMap fun item => ',' :: lineBreak (depth + 1) ++ part item) ++
        (lineBreak depth ++ ']' :: rest))) (items.reverse ++ read) rest := by
  induction items generalizing index read with
  | nil =>
      apply leaves_readItems_closed
      rw [List.flatMap_nil, List.nil_append, skipBlanks_append (allBlank_lineBreak depth)]
      rfl
  | cons item items ih =>
      obtain ⟨hitem, hitems⟩ := List.forall_mem_cons.mp hreads
      obtain ⟨hstart, hstarts⟩ := List.forall_mem_cons.mp hstarts
      have hblank := allBlank_lineBreak (depth + 1)
      obtain ⟨first, hopen, hskip⟩ := hstart.exists_skipBlanks
      obtain ⟨inner, hskip⟩ := hskip _ (items.flatMap (fun item =>
        ',' :: lineBreak (depth + 1) ++ part item) ++ (lineBreak depth ++ ']' :: rest)) hblank
      obtain ⟨start, hnext, hstart⟩ :=
        exists_nextItem_after index (skipBlanks_cons rfl _) hskip hopen
      rw [List.reverse_cons, List.append_assoc, List.singleton_append, List.flatMap_cons,
        List.append_assoc, List.cons_append, List.cons_append, List.append_assoc]
      apply leaves_readItems_item hnext _ (ih hitems hstarts (index + 1) (item :: read))
      rw [hstart]
      exact (hitem _ _ hblank).map _

theorem leaves_readItems {items : List Json}
    (hreads : ∀ item ∈ items, ReadsBack reader (part item) item)
    (hstarts : ∀ item ∈ items, StartsElement (part item)) (depth : Nat) (rest : List Char) :
    Leaves (readItems (fun items _ => reader.map (· :: items)) [] 0
      (insideBlock depth (items.map part) ++ ']' :: rest)) items.reverse rest := by
  cases items with
  | nil => exact leaves_readItems_closed 0 rfl
  | cons item items =>
      obtain ⟨hitem, hitems⟩ := List.forall_mem_cons.mp hreads
      obtain ⟨hstart, hstarts⟩ := List.forall_mem_cons.mp hstarts
      have hblank := allBlank_lineBreak (depth + 1)
      obtain ⟨first, hopen, hskip⟩ := hstart.exists_skipBlanks
      obtain ⟨inner, hskip⟩ := hskip _ (items.flatMap (fun item =>
        ',' :: lineBreak (depth + 1) ++ part item) ++ (lineBreak depth ++ ']' :: rest)) hblank
      rw [List.map_cons, insideBlock, List.flatMap_map, List.append_assoc, List.append_assoc,
        List.append_assoc, List.reverse_cons]
      apply leaves_readItems_item (nextItem_first hskip hopen) ((hitem _ _ hblank).map _)
      exact leaves_readItems_after hitems hstarts depth 0 [item] rest

end

/-! ## Members -/

theorem leaves_readKey?_closing {text rest : List Char} (isFirst : Bool)
    (h : skipBlanks text = '\x7d' :: rest) : Leaves (readKey? isFirst text) none rest := by
  unfold readKey?
  split
  next hend => cases h.symm.trans hend
  next later hfound =>
    obtain rfl := (List.cons.inj (h.symm.trans hfound)).2
    exact ⟨_, rfl, rfl⟩
  next later hfound => cases h.symm.trans hfound
  next first later hopen _ hfound =>
    exact absurd (List.cons.inj (h.symm.trans hfound)).1.symm hopen

theorem leaves_readKey?_first {text later rest : List Char} {key : String}
    (h : skipBlanks text = '"' :: later) (hread : Leaves (readString later) key rest) :
    Leaves (readKey? true text) (some key) rest := by
  unfold readKey?
  split
  next hend => cases h.symm.trans hend
  next other hfound => cases h.symm.trans hfound
  next other hfound =>
    obtain rfl := (List.cons.inj (h.symm.trans hfound)).2
    rw [if_pos rfl]
    exact (hread.map some).carryPast
  next first other _ hopen hfound =>
    exact absurd (List.cons.inj (h.symm.trans hfound)).1.symm hopen

theorem leaves_readKey?_after {text next later rest : List Char} {key : String}
    (h : skipBlanks text = ',' :: next) (hnext : skipBlanks next = '"' :: later)
    (hread : Leaves (readString later) key rest) :
    Leaves (readKey? false text) (some key) rest := by
  unfold readKey?
  split
  next hend => cases h.symm.trans hend
  next other hfound => cases h.symm.trans hfound
  next other hfound => cases h.symm.trans hfound
  next first other _ _ hfound =>
    obtain ⟨rfl, rfl⟩ := List.cons.inj (h.symm.trans hfound)
    simp only [Bool.false_eq_true, if_false, if_true]
    split
    next hend => cases hnext.symm.trans hend
    next other hclosed => cases hnext.symm.trans hclosed
    next other hquote =>
      obtain rfl := (List.cons.inj (hnext.symm.trans hquote)).2
      exact (hread.map some).carry
    next hother => exact absurd hnext (hother later)

section

variable {σ : Type} {member : σ → String → Reader σ} {state next last : σ}
  {text rest : List Char} {isFirst : Bool}

theorem leaves_readMembers_closed (h : skipBlanks text = '\x7d' :: rest) :
    Leaves (readMembers member state isFirst text) state rest := by
  obtain ⟨later, hkey, rfl⟩ := leaves_readKey?_closing isFirst h
  exact ⟨later, by rw [readMembers, hkey], rfl⟩

theorem leaves_readMembers_member {key : String} {inner later : List Char}
    (hkey : Leaves (readKey? isFirst text) (some key) inner)
    (hmember : Leaves (member state key inner) next later)
    (hrest : Leaves (readMembers member next false later) last rest) :
    Leaves (readMembers member state isFirst text) last rest := by
  obtain ⟨start, hkey, rfl⟩ := hkey
  obtain ⟨after, hread, rfl⟩ := hmember
  rw [readMembers, hkey]
  simp only [hread]
  exact hrest.carry

end

private theorem leaves_afterColon {reader : Reader Json} {part rest : List Char} {value : Json}
    (h : ReadsBack reader part value) (key : String) :
    Leaves (afterColon key reader (':' :: ' ' :: (part ++ rest))) value rest := by
  have hread := h [' '] rest (by simp [AllBlank, isBlank])
  unfold afterColon
  split
  next hend => cases hend
  next later hfound =>
    obtain rfl := (List.cons.inj hfound).2
    exact (hread.within (.key key)).carryPast
  next hother => exact (hother _ rfl).elim

def memberText (key : String) (part : List Char) : List Char :=
  '"' :: (key.toList.flatMap escapeCharacter ++ '"' :: ':' :: ' ' :: part)

section

variable {reader : Reader Json} (part : Json → List Char)

theorem leaves_member {value : Json} {part : List Char} (h : ReadsBack reader part value)
    (members : Members) (key : String) (rest : List Char) :
    Leaves (((afterColon key reader).map fun value => (key, value) :: members)
      (':' :: ' ' :: (part ++ rest))) ((key, value) :: members) rest :=
  (leaves_afterColon h key).map _

private theorem leaves_readMembers_after {members : Members}
    (hreads : ∀ member ∈ members, ReadsBack reader (part member.2) member.2) (depth : Nat)
    (read : Members) (rest : List Char) :
    Leaves (readMembers (fun members key =>
        (afterColon key reader).map fun value => (key, value) :: members) read false
      ((members.flatMap fun member =>
          ',' :: lineBreak (depth + 1) ++ memberText member.1 (part member.2)) ++
        (lineBreak depth ++ '\x7d' :: rest))) (members.reverse ++ read) rest := by
  induction members generalizing read with
  | nil =>
      apply leaves_readMembers_closed
      rw [List.flatMap_nil, List.nil_append, skipBlanks_append (allBlank_lineBreak depth)]
      rfl
  | cons member members ih =>
      obtain ⟨hmember, hmembers⟩ := List.forall_mem_cons.mp hreads
      rw [List.reverse_cons, List.append_assoc, List.singleton_append, List.flatMap_cons,
        List.append_assoc, List.cons_append, List.cons_append, List.append_assoc, memberText,
        List.cons_append, List.append_assoc]
      apply leaves_readMembers_member _ (leaves_member hmember read member.1 _) (ih hmembers _)
      refine leaves_readKey?_after (skipBlanks_cons rfl _) ?_ (leaves_readString member.1 _)
      rw [skipBlanks_append (allBlank_lineBreak (depth + 1))]
      rfl

theorem leaves_readMembers {members : Members}
    (hreads : ∀ member ∈ members, ReadsBack reader (part member.2) member.2) (depth : Nat)
    (rest : List Char) :
    Leaves (readMembers (fun members key =>
        (afterColon key reader).map fun value => (key, value) :: members) [] true
      (insideBlock depth (members.map fun member => memberText member.1 (part member.2)) ++
        '\x7d' :: rest)) members.reverse rest := by
  cases members with
  | nil => exact leaves_readMembers_closed rfl
  | cons member members =>
      obtain ⟨hmember, hmembers⟩ := List.forall_mem_cons.mp hreads
      rw [List.map_cons, insideBlock, List.flatMap_map, List.append_assoc, List.append_assoc,
        List.append_assoc, List.reverse_cons, memberText, List.cons_append, List.append_assoc]
      apply leaves_readMembers_member _ (leaves_member hmember [] member.1 _)
        (leaves_readMembers_after part hmembers depth _ rest)
      refine leaves_readKey?_first ?_ (leaves_readString member.1 _)
      rw [skipBlanks_append (allBlank_lineBreak (depth + 1))]
      rfl

end

/-! ## Values -/

mutual

def NumberFree : Json → Prop
  | .number _ => False
  | .array items => NumberFreeItems items
  | .object members => NumberFreeMembers members
  | _ => True

def NumberFreeItems : List Json → Prop
  | [] => True
  | item :: items => item.NumberFree ∧ NumberFreeItems items

def NumberFreeMembers : List (String × Json) → Prop
  | [] => True
  | (_, value) :: members => value.NumberFree ∧ NumberFreeMembers members

end

@[simp] theorem numberFreeItems_iff {items : List Json} :
    NumberFreeItems items ↔ ∀ item ∈ items, item.NumberFree := by
  induction items with
  | nil => simp [NumberFreeItems]
  | cons item items ih => simp [NumberFreeItems, ih]

@[simp] theorem numberFreeMembers_iff {members : Members} :
    NumberFreeMembers members ↔ ∀ member ∈ members, member.2.NumberFree := by
  induction members with
  | nil => simp [NumberFreeMembers]
  | cons member members ih => simp [NumberFreeMembers, ih]

theorem indentedItems_eq_map (depth : Nat) (items : List Json) :
    indentedItems depth items = items.map (indentedAt depth) := by
  induction items with
  | nil => rfl
  | cons item items ih => rw [indentedItems, ih, List.map_cons]

theorem toList_stringText (text : String) :
    (stringText text).toList = '"' :: text.toList.flatMap escapeCharacter ++ ['"'] :=
  String.toList_ofList

private theorem toList_indentedMembers (depth : Nat) (members : Members) :
    (indentedMembers depth members).map String.toList =
      members.map fun member => memberText member.1 (indentedAt depth member.2).toList := by
  induction members with
  | nil => rfl
  | cons member members ih =>
      have hcolon : (": " : String).toList = [':', ' '] := rfl
      rw [indentedMembers, List.map_cons, List.map_cons, ih]
      simp [memberText, toList_stringText, hcolon]

theorem toList_indentedAt_array (depth : Nat) (items : List Json) :
    (indentedAt depth (.array items)).toList =
      '[' :: (insideBlock depth (items.map fun item => (indentedAt (depth + 1) item).toList) ++
        [']']) := by
  rw [indentedAt, toList_block, indentedItems_eq_map, List.map_map]
  rfl

theorem toList_indentedAt_object (depth : Nat) (members : Members) :
    (indentedAt depth (.object members)).toList =
      '\x7b' :: (insideBlock depth (members.map fun member =>
        memberText member.1 (indentedAt (depth + 1) member.2).toList) ++ ['\x7d']) := by
  rw [indentedAt, toList_block, toList_indentedMembers]
  rfl

theorem toList_indentedAt_null (depth : Nat) :
    (indentedAt depth .null).toList = ['n', 'u', 'l', 'l'] := by
  rw [indentedAt]
  rfl

theorem toList_indentedAt_true (depth : Nat) :
    (indentedAt depth (.bool true)).toList = ['t', 'r', 'u', 'e'] := by
  rw [indentedAt]
  rfl

theorem toList_indentedAt_false (depth : Nat) :
    (indentedAt depth (.bool false)).toList = ['f', 'a', 'l', 's', 'e'] := by
  rw [indentedAt]
  rfl

theorem toList_indentedAt_string (depth : Nat) (text : String) :
    (indentedAt depth (.string text)).toList =
      '"' :: (text.toList.flatMap escapeCharacter ++ ['"']) := by
  rw [indentedAt, toList_stringText]
  rfl

private theorem startsElement_indentedAt {value : Json} (h : value.NumberFree) (depth : Nat) :
    StartsElement (indentedAt depth value).toList := by
  cases value with
  | null => exact ⟨'n', _, toList_indentedAt_null depth, rfl, by decide⟩
  | bool value =>
      cases value with
      | true => exact ⟨'t', _, toList_indentedAt_true depth, rfl, by decide⟩
      | false => exact ⟨'f', _, toList_indentedAt_false depth, rfl, by decide⟩
  | number value => exact h.elim
  | string text => exact ⟨'"', _, toList_indentedAt_string depth text, rfl, by decide⟩
  | array items => exact ⟨'[', _, toList_indentedAt_array depth items, rfl, by decide⟩
  | object members => exact ⟨'\x7b', _, toList_indentedAt_object depth members, rfl, by decide⟩

section

variable {nesting : Nat} {text later rest : List Char}

theorem leaves_readValue_scalar {first : Char} {value : Json}
    (h : skipBlanks text = first :: later) (hopen : openBracket? first = none)
    (hread : Leaves (readScalar first later) value rest) :
    Leaves (readValue nesting text) value rest := by
  unfold readValue
  split
  next hend => cases h.symm.trans hend
  next other hfound =>
    obtain rfl := (List.cons.inj (h.symm.trans hfound)).1
    cases hopen
  next other hfound =>
    obtain rfl := (List.cons.inj (h.symm.trans hfound)).1
    cases hopen
  next other inner _ _ hfound =>
    obtain ⟨rfl, rfl⟩ := List.cons.inj (h.symm.trans hfound)
    exact hread.carry

theorem leaves_readValue_array {items : List Json} (h : skipBlanks text = '[' :: later)
    (hread : Leaves (readItems (fun items _ => (readValue nesting).map (· :: items)) [] 0 later)
      items.reverse rest) :
    Leaves (readValue (nesting + 1) text) (.array items) rest := by
  have hitems := hread.map fun items => Json.array items.reverse
  rw [List.reverse_reverse] at hitems
  unfold readValue
  split
  next hend => cases h.symm.trans hend
  next other hfound =>
    obtain rfl := (List.cons.inj (h.symm.trans hfound)).2
    exact hitems.carryPast
  next other hfound => cases h.symm.trans hfound
  next other inner hother _ hfound =>
    exact absurd (List.cons.inj (h.symm.trans hfound)).1.symm hother

theorem leaves_readValue_object {members : Members} (h : skipBlanks text = '\x7b' :: later)
    (hread : Leaves (readMembers (fun members key =>
        (afterColon key (readValue nesting)).map fun value => (key, value) :: members) [] true
      later) members.reverse rest) :
    Leaves (readValue (nesting + 1) text) (.object members) rest := by
  have hmembers := hread.map fun members => Json.object members.reverse
  rw [List.reverse_reverse] at hmembers
  unfold readValue
  split
  next hend => cases h.symm.trans hend
  next other hfound => cases h.symm.trans hfound
  next other hfound =>
    obtain rfl := (List.cons.inj (h.symm.trans hfound)).2
    exact hmembers.carryPast
  next other inner _ hother hfound =>
    exact absurd (List.cons.inj (h.symm.trans hfound)).1.symm hother

end

private theorem leaves_readScalar_string (text : String) (rest : List Char) :
    Leaves (readScalar '"' (text.toList.flatMap escapeCharacter ++ '"' :: rest)) (.string text)
      rest := by
  rw [readScalar]
  exact ((leaves_readString text rest).map Json.string).carry

private theorem readsBack_scalar {value : Json} (hfree : value.NumberFree)
    (hscalar : value.isStructured = false) (nesting depth : Nat) :
    ReadsBack (readValue nesting) (indentedAt depth value).toList value := by
  intro blanks rest hblank
  cases value with
  | null =>
      rw [toList_indentedAt_null]
      exact leaves_readValue_scalar (skipBlanks_append hblank _) rfl ⟨_, rfl, rfl⟩
  | bool value =>
      cases value with
      | true =>
          rw [toList_indentedAt_true]
          exact leaves_readValue_scalar (skipBlanks_append hblank _) rfl ⟨_, rfl, rfl⟩
      | false =>
          rw [toList_indentedAt_false]
          exact leaves_readValue_scalar (skipBlanks_append hblank _) rfl ⟨_, rfl, rfl⟩
  | number value => exact hfree.elim
  | string text =>
      rw [toList_indentedAt_string, List.cons_append, List.append_assoc]
      exact leaves_readValue_scalar (skipBlanks_append hblank _) rfl
        (leaves_readScalar_string text rest)
  | array items => cases hscalar
  | object members => cases hscalar

section

variable {nesting depth : Nat}

private theorem readsBack_array {items : List Json} (hfree : ∀ item ∈ items, item.NumberFree)
    (hreads : ∀ item ∈ items,
      ReadsBack (readValue nesting) (indentedAt (depth + 1) item).toList item) :
    ReadsBack (readValue (nesting + 1)) (indentedAt depth (.array items)).toList
      (.array items) := by
  intro blanks rest hblank
  have hstarts : ∀ item ∈ items, StartsElement (indentedAt (depth + 1) item).toList :=
    fun item hitem => startsElement_indentedAt (hfree item hitem) (depth + 1)
  rw [toList_indentedAt_array, List.cons_append, List.append_assoc]
  exact leaves_readValue_array (skipBlanks_append hblank _)
    (leaves_readItems hreads hstarts depth rest)

private theorem readsBack_object {members : Members}
    (hreads : ∀ member ∈ members,
      ReadsBack (readValue nesting) (indentedAt (depth + 1) member.2).toList member.2) :
    ReadsBack (readValue (nesting + 1)) (indentedAt depth (.object members)).toList
      (.object members) := by
  intro blanks rest hblank
  rw [toList_indentedAt_object, List.cons_append, List.append_assoc]
  exact leaves_readValue_object (skipBlanks_append hblank _)
    (leaves_readMembers (fun value => (indentedAt (depth + 1) value).toList) hreads depth rest)

end

private theorem readsBack_indentedAt {nesting depth : Nat} {value : Json} (hfree : value.NumberFree)
    (hnesting : value.nesting ≤ nesting) :
    ReadsBack (readValue nesting) (indentedAt depth value).toList value := by
  induction nesting generalizing value depth with
  | zero =>
      cases value with
      | array items => exact absurd hnesting (Nat.not_succ_le_zero _)
      | object members => exact absurd hnesting (Nat.not_succ_le_zero _)
      | _ => exact readsBack_scalar hfree rfl 0 depth
  | succ nesting ih =>
      cases value with
      | array items =>
          have hitems := numberFreeItems_iff.mp hfree
          have hdepth := nestingOfItems_le_iff.mp (Nat.le_of_succ_le_succ hnesting)
          exact readsBack_array hitems fun item hitem => ih (hitems item hitem) (hdepth item hitem)
      | object members =>
          have hmembers := numberFreeMembers_iff.mp hfree
          have hdepth := nestingOfMembers_le_iff.mp (Nat.le_of_succ_le_succ hnesting)
          exact readsBack_object fun member hmember =>
            ih (hmembers member hmember) (hdepth member hmember)
      | _ => exact readsBack_scalar hfree rfl (nesting + 1) depth

/-! ## Whole texts -/

private theorem readAll_of_leaves {α : Type} {reader : Reader α} {text rest : List Char} {value : α}
    (h : Leaves (reader text) value rest) (hrest : AllBlank rest) :
    readAll reader text = .ok value := by
  obtain ⟨later, hread, rfl⟩ := h
  have hend : skipBlanks later.1 = [] := by
    rw [← List.append_nil later.1, skipBlanks_append hrest]
    rfl
  rw [readAll, hread]
  simp only [readEnd, hend, Except.map]

/-- A value that was printed is read back, with blanks after it or none. -/
theorem parse_indented {value : Json} {blanks : String} (hfree : value.NumberFree)
    (hwell : value.WellFormed) (hnesting : value.nesting ≤ nestingLimit)
    (hblank : AllBlank blanks.toList) : parse (value.indented ++ blanks) = .ok value := by
  have hback : ReadsBack (readValue nestingLimit) value.indented.toList value :=
    readsBack_indentedAt hfree hnesting
  have hread := hback [] blanks.toList allBlank_nil
  rw [List.nil_append, ← String.toList_append] at hread
  rw [parse, parseWritten, readAll_of_leaves hread hblank]
  exact congrArg Except.ok (merged_of_wellFormed hwell)

end TreeSyntax.Json
