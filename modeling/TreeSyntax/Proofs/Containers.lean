import TreeSyntax.Proofs.Printed

/-!
# Containers in texts

How the elements of an array and the members of an object stand in a text, whatever takes the
single element or value off it.  Two readers of the same container are compared by comparing what
they do at one element or one member.
-/

namespace TreeSyntax.Json

/-! ## What a reading comes to -/

namespace Leaves

variable {α β : Type} {value : α} {rest : List Char}

theorem unique {text : List Char} {result : Except Fault (α × Rest text)} {other : α}
    {rest' : List Char} (h : Leaves result value rest) (h' : Leaves result other rest') :
    value = other ∧ rest = rest' := by
  obtain ⟨later, hread, rfl⟩ := h
  obtain ⟨later', hread', rfl⟩ := h'
  cases hread.symm.trans hread'
  exact ⟨rfl, rfl⟩

theorem length_lt {text : List Char} {result : Except Fault (α × Rest text)}
    (h : Leaves result value rest) : rest.length < text.length := by
  obtain ⟨later, -, rfl⟩ := h
  exact later.2

@[simp] theorem not_error {text : List Char} {fault : Fault} :
    ¬ Leaves (.error fault : Except Fault (α × Rest text)) value rest := by
  simp [Leaves]

theorem exists_error {text : List Char} {result : Except Fault (α × Rest text)}
    (h : ∀ value rest, ¬ Leaves result value rest) : ∃ fault, result = .error fault := by
  cases result with
  | error fault => exact ⟨fault, rfl⟩
  | ok read => exact (h read.1 read.2.1 ⟨read.2, rfl, rfl⟩).elim

@[simp] theorem carry_iff {text later : List Char} {shorter : later.length ≤ text.length}
    {result : Except Fault (α × Rest later)} :
    Leaves (Reader.carry shorter result) value rest ↔ Leaves result value rest := by
  refine ⟨fun h => ?_, Leaves.carry⟩
  cases result with
  | error fault => exact (not_error h).elim
  | ok read =>
      obtain ⟨last, hread, rfl⟩ := h
      cases hread
      exact ⟨read.2, rfl, rfl⟩

@[simp] theorem carryPast_iff {text later : List Char} {first : Char}
    {found : skipBlanks text = first :: later} {result : Except Fault (α × Rest later)} :
    Leaves (Reader.carryPast found result) value rest ↔ Leaves result value rest :=
  carry_iff

theorem map_iff {reader : Reader α} {convert : α → β} {text : List Char} {converted : β} :
    Leaves ((reader.map convert) text) converted rest ↔
      ∃ value, Leaves (reader text) value rest ∧ converted = convert value := by
  constructor
  · rintro ⟨later, hread, rfl⟩
    rw [Reader.map] at hread
    cases hinner : reader text with
    | error fault => simp [hinner] at hread
    | ok read =>
        simp only [hinner, Except.ok.injEq, Prod.mk.injEq] at hread
        obtain ⟨rfl, rfl⟩ := hread
        exact ⟨read.1, ⟨read.2, rfl, rfl⟩, rfl⟩
  · rintro ⟨value, hread, rfl⟩
    exact hread.map convert

@[simp] theorem within_iff {reader : Reader α} {step : Step} {text : List Char} :
    Leaves ((reader.within step) text) value rest ↔ Leaves (reader text) value rest := by
  simp only [Leaves, Reader.within]
  cases reader text <;> simp [Except.mapError]

end Leaves

def Passed {shorter : List Char → Prop} (result : Except Fault { rest : List Char // shorter rest })
    (rest : List Char) : Prop :=
  ∃ later, result = .ok later ∧ later.1 = rest

@[simp] theorem Passed.not_error {shorter : List Char → Prop} {fault : Fault} {rest : List Char} :
    ¬ Passed (.error fault : Except Fault { rest : List Char // shorter rest }) rest := by
  simp [Passed]

theorem Passed.holds {shorter : List Char → Prop}
    {result : Except Fault { rest : List Char // shorter rest }} {rest : List Char}
    (h : Passed result rest) : shorter rest := by
  obtain ⟨later, -, rfl⟩ := h
  exact later.2

theorem passed_map_iff {shorter shorter' : List Char → Prop}
    {result : Except Fault { rest : List Char // shorter rest }} {rest : List Char}
    (convert : { rest : List Char // shorter rest } → { rest : List Char // shorter' rest })
    (hconvert : ∀ later, (convert later).1 = later.1) :
    Passed (result.map convert) rest ↔ Passed result rest := by
  cases result with
  | error fault => exact iff_of_false Passed.not_error Passed.not_error
  | ok later => simp [Passed, Except.map, hconvert]

theorem passed_map_snd_iff {text rest : List Char} {result : Except Fault (Json × Rest text)} :
    Passed (result.map Prod.snd) rest ↔ ∃ value, Leaves result value rest := by
  cases result with
  | error fault => exact iff_of_false Passed.not_error fun h => h.elim fun _ => Leaves.not_error
  | ok read =>
      constructor
      · rintro ⟨_, ⟨⟩, rfl⟩
        exact ⟨read.1, read.2, rfl, rfl⟩
      · rintro ⟨_, _, ⟨⟩, rfl⟩
        exact ⟨_, rfl, rfl⟩

theorem leaves_afterColon_iff {α : Type} {reader : Reader α} {key : String}
    {text rest : List Char} {value : α} :
    Leaves (afterColon key reader text) value rest ↔
      ∃ later, skipBlanks text = ':' :: later ∧ Leaves (reader later) value rest := by
  unfold afterColon
  split
  next hend => simp [hend, Leaves]
  next later hcolon => simp [hcolon]
  next hother =>
    constructor
    · intro h
      exact (Leaves.not_error h).elim
    · rintro ⟨later, hcolon, -⟩
      exact absurd hcolon (hother later)

/-! ## Where a part starts -/

inductive Starts : Bool → List Char → List Char → Prop
  | first {text : List Char} : Starts true text text
  | later {text rest : List Char} (hcomma : skipBlanks text = ',' :: rest) :
      Starts false text rest

private theorem skipBlanks_of_readKey? {isFirst : Bool} {text rest : List Char}
    (h : Leaves (readKey? isFirst text) none rest) : skipBlanks text = '\x7d' :: rest := by
  unfold readKey? at h
  split at h
  next => exact (Leaves.not_error h).elim
  next later hfound =>
    obtain ⟨last, hread, rfl⟩ := h
    cases hread
    exact hfound
  next later hfound =>
    cases isFirst with
    | false => exact (Leaves.not_error h).elim
    | true =>
        rw [if_pos rfl, Leaves.carryPast_iff, Leaves.map_iff] at h
        obtain ⟨key, -, hkey⟩ := h
        cases hkey
  next first later _ _ hfound =>
    split at h
    next => exact (Leaves.not_error h).elim
    split at h
    next =>
      split at h
      next => exact (Leaves.not_error h).elim
      next => exact (Leaves.not_error h).elim
      next =>
        rw [Leaves.carry_iff, Leaves.map_iff] at h
        obtain ⟨key, -, hkey⟩ := h
        cases hkey
      next => exact (Leaves.not_error h).elim
    next => exact (Leaves.not_error h).elim

theorem leaves_readKey?_none_iff {isFirst : Bool} {text rest : List Char} :
    Leaves (readKey? isFirst text) none rest ↔ skipBlanks text = '\x7d' :: rest :=
  ⟨skipBlanks_of_readKey?, leaves_readKey?_closing isFirst⟩

theorem leaves_readKey?_some_iff {isFirst : Bool} {text rest : List Char} {key : String} :
    Leaves (readKey? isFirst text) (some key) rest ↔
      ∃ opening spelled, Starts isFirst text opening ∧ skipBlanks opening = '"' :: spelled ∧
        Leaves (readString spelled) key rest := by
  constructor
  · intro h
    unfold readKey? at h
    split at h
    next => exact (Leaves.not_error h).elim
    next later hfound =>
      obtain ⟨last, hread, rfl⟩ := h
      cases hread
    next later hfound =>
      cases isFirst with
      | false => exact (Leaves.not_error h).elim
      | true =>
          rw [if_pos rfl, Leaves.carryPast_iff, Leaves.map_iff] at h
          obtain ⟨read, hread, hkey⟩ := h
          obtain rfl := Option.some.inj hkey
          exact ⟨text, later, .first, hfound, hread⟩
    next first later _ _ hfound =>
      cases isFirst with
      | true => exact (Leaves.not_error h).elim
      | false =>
          rw [if_neg Bool.false_ne_true] at h
          split at h
          next hcomma =>
            subst hcomma
            split at h
            next => exact (Leaves.not_error h).elim
            next => exact (Leaves.not_error h).elim
            next spelled hquote =>
              rw [Leaves.carry_iff, Leaves.map_iff] at h
              obtain ⟨read, hread, hkey⟩ := h
              obtain rfl := Option.some.inj hkey
              exact ⟨later, spelled, .later hfound, hquote, hread⟩
            next => exact (Leaves.not_error h).elim
          next => exact (Leaves.not_error h).elim
  · rintro ⟨opening, spelled, hstart, hquote, hread⟩
    cases hstart with
    | first => exact leaves_readKey?_first hquote hread
    | later hcomma => exact leaves_readKey?_after hcomma hquote hread

theorem skipBlanks_of_nextItem_closed {index : Nat} {text : List Char} {rest : Rest text}
    (h : nextItem index text = .ok (.closed rest)) : skipBlanks text = ']' :: rest.1 := by
  unfold nextItem at h
  split at h
  next => cases h
  next later hfound =>
    cases h
    exact hfound
  next first later _ hfound =>
    split at h
    · cases h
    split at h
    · split at h <;> cases h
    · cases h

def OpensItem (text : List Char) : Prop :=
  ∃ first rest, skipBlanks text = first :: rest ∧ first ≠ ']'

theorem starts_of_nextItem_item {index : Nat} {text : List Char}
    {start : { start : List Char // start.length ≤ text.length }}
    (h : nextItem index text = .ok (.item start)) :
    Starts (index == 0) text start.1 ∧ OpensItem start.1 := by
  unfold nextItem at h
  split at h
  next => cases h
  next => cases h
  next first later hopen hfound =>
    split at h
    next hindex =>
      subst hindex
      cases h
      exact ⟨.first, first, later, hfound, hopen⟩
    next hindex =>
      rw [beq_false_of_ne hindex]
      split at h
      next hcomma =>
        subst hcomma
        split at h
        next => cases h
        next => cases h
        next hend hclosed =>
          cases h
          refine ⟨.later hfound, ?_⟩
          cases hskip : skipBlanks later with
          | nil => exact absurd hskip hend
          | cons next beyond =>
              refine ⟨next, beyond, hskip, ?_⟩
              rintro rfl
              exact hclosed _ hskip
      next => cases h

theorem exists_nextItem {index : Nat} {text opening : List Char}
    (hstart : Starts (index == 0) text opening) (hopen : OpensItem opening) :
    ∃ start, nextItem index text = .ok (.item start) ∧ start.1 = opening := by
  obtain ⟨first, later, hfirst, hfirst'⟩ := hopen
  cases index with
  | zero =>
      cases hstart
      exact ⟨_, nextItem_first hfirst hfirst', rfl⟩
  | succ index =>
      cases hstart with
      | later hcomma => exact exists_nextItem_after index hcomma hfirst hfirst'

/-! ## Elements and members -/

section

variable {β γ : Type} (part : List Char → β → List Char → Prop)

/-- The elements of an array and its closing bracket.  `part` tells what stands at the front of a
text and what it leaves. -/
inductive ItemsIn : Bool → List Char → List β → List Char → Prop
  | closed {isFirst : Bool} {text rest : List Char} (hclosed : skipBlanks text = ']' :: rest) :
      ItemsIn isFirst text [] rest
  | item {isFirst : Bool} {text opening after rest : List Char} {item : β} {items : List β}
      (hstart : Starts isFirst text opening) (hopen : OpensItem opening)
      (hitem : part opening item after) (hitems : ItemsIn false after items rest) :
      ItemsIn isFirst text (item :: items) rest

inductive MembersIn : Bool → List Char → Entries β → List Char → Prop
  | closed {isFirst : Bool} {text rest : List Char}
      (hclosed : skipBlanks text = '\x7d' :: rest) : MembersIn isFirst text [] rest
  | member {isFirst : Bool} {text opening spelled colon later after rest : List Char}
      {key : String} {value : β} {members : Entries β}
      (hstart : Starts isFirst text opening) (hquote : skipBlanks opening = '"' :: spelled)
      (hkey : Leaves (readString spelled) key colon) (hcolon : skipBlanks colon = ':' :: later)
      (hvalue : part later value after) (hmembers : MembersIn false after members rest) :
      MembersIn isFirst text ((key, value) :: members) rest

def ArrayAt (text : List Char) (items : List β) (rest : List Char) : Prop :=
  ∃ inner, skipBlanks text = '[' :: inner ∧ ItemsIn part true inner items rest

def ObjectAt (text : List Char) (members : Entries β) (rest : List Char) : Prop :=
  ∃ inner, skipBlanks text = '\x7b' :: inner ∧ MembersIn part true inner members rest

variable {part} {part' : List Char → γ → List Char → Prop} {isFirst : Bool}
  {text rest : List Char} {convert : β → γ}

theorem ItemsIn.map (h : ∀ text value rest, part text value rest → part' text (convert value) rest)
    {items : List β} (hitems : ItemsIn part isFirst text items rest) :
    ItemsIn part' isFirst text (items.map convert) rest := by
  induction hitems with
  | closed hclosed => exact .closed hclosed
  | item hstart hopen hitem _ ih => exact .item hstart hopen (h _ _ _ hitem) ih

theorem MembersIn.map
    (h : ∀ text value rest, part text value rest → part' text (convert value) rest)
    {members : Entries β} (hmembers : MembersIn part isFirst text members rest) :
    MembersIn part' isFirst text (members.map fun member => (member.1, convert member.2)) rest := by
  induction hmembers with
  | closed hclosed => exact .closed hclosed
  | member hstart hquote hkey hcolon hvalue _ ih =>
      exact .member hstart hquote hkey hcolon (h _ _ _ hvalue) ih

theorem ArrayAt.map (h : ∀ text value rest, part text value rest → part' text (convert value) rest)
    {items : List β} (hitems : ArrayAt part text items rest) :
    ArrayAt part' text (items.map convert) rest := by
  obtain ⟨inner, hopen, hitems⟩ := hitems
  exact ⟨inner, hopen, hitems.map h⟩

theorem ObjectAt.map
    (h : ∀ text value rest, part text value rest → part' text (convert value) rest)
    {members : Entries β} (hmembers : ObjectAt part text members rest) :
    ObjectAt part' text (members.map fun member => (member.1, convert member.2)) rest := by
  obtain ⟨inner, hopen, hmembers⟩ := hmembers
  exact ⟨inner, hopen, hmembers.map h⟩

variable {other : List Char → β → List Char → Prop}

theorem ArrayAt.mono (h : ∀ text value rest, part text value rest → other text value rest)
    {items : List β} (hitems : ArrayAt part text items rest) : ArrayAt other text items rest := by
  have hother : ArrayAt other text (items.map id) rest := hitems.map h
  rwa [List.map_id] at hother

theorem ObjectAt.mono (h : ∀ text value rest, part text value rest → other text value rest)
    {members : Entries β} (hmembers : ObjectAt part text members rest) :
    ObjectAt other text members rest := by
  have hother : ObjectAt other text (members.map id) rest := hmembers.map h
  rwa [List.map_id] at hother

end

/-! ## From readers to what stands there -/

section

variable {σ β : Type} (part : List Char → β → List Char → Prop) {state last : σ}
  {text rest : List Char}

theorem exists_itemsIn {item : σ → Nat → Reader σ} (step : σ → β → σ)
    (hitem : ∀ state index opening next after, Leaves (item state index opening) next after →
      ∃ value, part opening value after ∧ next = step state value)
    {index : Nat} (h : Leaves (readItems item state index text) last rest) :
    ∃ items, ItemsIn part (index == 0) text items rest ∧ last = items.foldl step state := by
  fun_induction readItems item state index text with
  | case1 => exact (Leaves.not_error h).elim
  | case2 state index text closing hnext =>
      obtain ⟨later, hread, rfl⟩ := h
      cases hread
      exact ⟨[], .closed (skipBlanks_of_nextItem_closed hnext), rfl⟩
  | case3 => exact (Leaves.not_error h).elim
  | case4 state index text start hnext next later hread ih =>
      obtain ⟨items, hitems, rfl⟩ := ih (Leaves.carry_iff.mp h)
      obtain ⟨hstart, hopen⟩ := starts_of_nextItem_item hnext
      obtain ⟨value, hvalue, rfl⟩ := hitem _ _ _ _ _ ⟨later, hread, rfl⟩
      exact ⟨value :: items, .item hstart hopen hvalue hitems, rfl⟩

theorem exists_membersIn {member : σ → String → Reader σ} (step : σ → String × β → σ)
    (hmember : ∀ state key colon next after, Leaves (member state key colon) next after →
      ∃ later value, skipBlanks colon = ':' :: later ∧ part later value after ∧
        next = step state (key, value))
    {isFirst : Bool} (h : Leaves (readMembers member state isFirst text) last rest) :
    ∃ members, MembersIn part isFirst text members rest ∧ last = members.foldl step state := by
  fun_induction readMembers member state isFirst text with
  | case1 => exact (Leaves.not_error h).elim
  | case2 state isFirst text closing hkey =>
      obtain ⟨later, hread, rfl⟩ := h
      cases hread
      exact ⟨[], .closed (leaves_readKey?_none_iff.mp ⟨closing, hkey, rfl⟩), rfl⟩
  | case3 => exact (Leaves.not_error h).elim
  | case4 state isFirst text key start hkey next after hread ih =>
      obtain ⟨members, hmembers, rfl⟩ := ih (Leaves.carry_iff.mp h)
      obtain ⟨opening, spelled, hstart, hquote, hspelled⟩ :=
        leaves_readKey?_some_iff.mp ⟨start, hkey, rfl⟩
      obtain ⟨later, value, hcolon, hvalue, rfl⟩ := hmember _ _ _ _ _ ⟨after, hread, rfl⟩
      exact ⟨(key, value) :: members, .member hstart hquote hspelled hcolon hvalue hmembers, rfl⟩

end

/-! ## From what stands there to readers -/

/-- A reading succeeds with what a computation on values gives, and leaves the rest; or both fail,
and the fault is one that the error may be blamed for. -/
def Agrees {α ε : Type} (blames : Fault → ε → Prop) {text : List Char}
    (read : Except Fault (α × Rest text)) (rest : List Char) : Except ε α → Prop
  | .ok value => Leaves read value rest
  | .error error => ∃ fault, read = .error fault ∧ blames fault error

section

variable {σ β ε : Type} {part : List Char → β → List Char → Prop} {blames : Fault → ε → Prop}
  {text rest : List Char}

theorem Agrees.map {α γ : Type} {reader : Reader α} {convert : α → γ} {result : Except ε α}
    (h : Agrees blames (reader text) rest result) :
    Agrees blames ((reader.map convert) text) rest (result.map convert) := by
  cases result with
  | ok value => exact Leaves.map h convert
  | error error =>
      obtain ⟨fault, hread, hblames⟩ := h
      exact ⟨fault, by rw [Reader.map, hread], hblames⟩

theorem Agrees.carry {α : Type} {later : List Char} {shorter : later.length ≤ text.length}
    {read : Except Fault (α × Rest later)} {result : Except ε α}
    (h : Agrees blames read rest result) :
    Agrees blames (Reader.carry shorter read) rest result := by
  cases result with
  | ok value => exact Leaves.carry h
  | error error =>
      obtain ⟨fault, rfl, hblames⟩ := h
      exact ⟨fault, rfl, hblames⟩

theorem Agrees.afterColon {α : Type} {reader : Reader α} {key : String} {later : List Char}
    {result : Except ε α} (hcolon : skipBlanks text = ':' :: later)
    (h : Agrees (fun fault => blames (fault.within (.key key))) (reader later) rest result) :
    Agrees blames (afterColon key reader text) rest result := by
  cases result with
  | ok value => exact leaves_afterColon_iff.mpr ⟨later, hcolon, h⟩
  | error error =>
      obtain ⟨fault, hread, hblames⟩ := h
      refine ⟨fault.within (.key key), ?_, hblames⟩
      unfold Json.afterColon
      split
      next hend => cases hcolon.symm.trans hend
      next other hother =>
        obtain rfl := (List.cons.inj (hcolon.symm.trans hother)).2
        rw [Reader.within, hread]
        rfl
      next hother => exact absurd hcolon (hother later)

private theorem agrees_readItems_item {item : σ → Nat → Reader σ} {state : σ} {index : Nat}
    {after : List Char} {start : { start : List Char // start.length ≤ text.length }}
    {first : Except ε σ} {more : σ → Except ε σ}
    (hnext : nextItem index text = .ok (.item start))
    (hitem : Agrees (fun fault => blames (fault.within (.index index))) (item state index start.1)
      after first)
    (hmore : ∀ next, Agrees blames (readItems item next (index + 1) after) rest (more next)) :
    Agrees blames (readItems item state index text) rest (first >>= more) := by
  cases first with
  | error error =>
      obtain ⟨fault, hread, hblames⟩ := hitem
      refine ⟨fault.within (.index index), ?_, hblames⟩
      rw [readItems, hnext]
      simp only [hread]
  | ok next =>
      have hmore := hmore next
      change Agrees blames _ rest (more next)
      cases hlast : more next with
      | ok last =>
          rw [hlast] at hmore
          exact leaves_readItems_item hnext hitem hmore
      | error error =>
          rw [hlast] at hmore
          obtain ⟨later, hlater, rfl⟩ := hitem
          obtain ⟨fault, hread, hblames⟩ := hmore
          refine ⟨fault, ?_, hblames⟩
          rw [readItems, hnext]
          simp only [hlater, hread, Reader.carry]

theorem agrees_readItems {item : σ → Nat → Reader σ} {step : σ → β → Except ε σ}
    (hitem : ∀ state index opening value after, part opening value after →
      Agrees (fun fault => blames (fault.within (.index index))) (item state index opening) after
        (step state value))
    {isFirst : Bool} {items : List β} (h : ItemsIn part isFirst text items rest) (state : σ)
    (index : Nat) (hindex : isFirst = (index == 0)) :
    Agrees blames (readItems item state index text) rest (items.foldlM step state) := by
  induction h generalizing state index with
  | closed hclosed => exact leaves_readItems_closed index hclosed
  | item hstart hopen hvalue _ ih =>
      subst hindex
      obtain ⟨start, hnext, rfl⟩ := exists_nextItem hstart hopen
      rw [List.foldlM_cons]
      exact agrees_readItems_item hnext (hitem state index _ _ _ hvalue)
        fun next => ih next (index + 1) rfl

private theorem agrees_readMembers_member {member : σ → String → Reader σ} {state : σ}
    {isFirst : Bool} {key : String} {inner after : List Char} {first : Except ε σ}
    {more : σ → Except ε σ}
    (hkey : Leaves (readKey? isFirst text) (some key) inner)
    (hmember : Agrees blames (member state key inner) after first)
    (hmore : ∀ next, Agrees blames (readMembers member next false after) rest (more next)) :
    Agrees blames (readMembers member state isFirst text) rest (first >>= more) := by
  cases first with
  | error error =>
      obtain ⟨start, hkey, rfl⟩ := hkey
      obtain ⟨fault, hread, hblames⟩ := hmember
      refine ⟨fault, ?_, hblames⟩
      rw [readMembers, hkey]
      simp only [hread]
  | ok next =>
      have hmore := hmore next
      change Agrees blames _ rest (more next)
      cases hlast : more next with
      | ok last =>
          rw [hlast] at hmore
          exact leaves_readMembers_member hkey hmember hmore
      | error error =>
          rw [hlast] at hmore
          obtain ⟨start, hkey, rfl⟩ := hkey
          obtain ⟨later, hlater, rfl⟩ := hmember
          obtain ⟨fault, hread, hblames⟩ := hmore
          refine ⟨fault, ?_, hblames⟩
          rw [readMembers, hkey]
          simp only [hlater, hread, Reader.carry]

theorem agrees_readMembers {member : σ → String → Reader σ} {step : σ → String × β → Except ε σ}
    {isFirst : Bool} {members : Entries β} (h : MembersIn part isFirst text members rest)
    (hmember : ∀ state key value, (key, value) ∈ members → ∀ colon later after,
      skipBlanks colon = ':' :: later → part later value after →
      Agrees blames (member state key colon) after (step state (key, value)))
    (state : σ) :
    Agrees blames (readMembers member state isFirst text) rest (members.foldlM step state) := by
  induction h generalizing state with
  | closed hclosed => exact leaves_readMembers_closed hclosed
  | member hstart hquote hspelled hcolon hvalue _ ih =>
      have hkey := leaves_readKey?_some_iff.mpr ⟨_, _, hstart, hquote, hspelled⟩
      rw [List.foldlM_cons]
      exact agrees_readMembers_member hkey
        (hmember state _ _ List.mem_cons_self _ _ _ hcolon hvalue)
        (ih fun state key value hmem => hmember state key value (List.mem_cons_of_mem _ hmem))

end

/-! ## Values -/

abbrev Reader.Takes {α : Type} (reader : Reader α) (text : List Char) (value : α)
    (rest : List Char) : Prop :=
  Leaves (reader text) value rest

inductive ValueAt : Nat → List Char → Json → List Char → Prop
  | scalar {nesting : Nat} {text later rest : List Char} {first : Char} {value : Json}
      (hfirst : skipBlanks text = first :: later) (hopen : openBracket? first = none)
      (hread : Leaves (readScalar first later) value rest) : ValueAt nesting text value rest
  | array {nesting : Nat} {text rest : List Char} {items : List Json}
      (hitems : ArrayAt (readValue nesting).Takes text items rest) :
      ValueAt (nesting + 1) text (.array items) rest
  | object {nesting : Nat} {text rest : List Char} {members : Members}
      (hmembers : ObjectAt (readValue nesting).Takes text members rest) :
      ValueAt (nesting + 1) text (.object members) rest

theorem foldl_cons_eq {β : Type} (more read : List β) :
    more.foldl (fun read part => part :: read) read = more.reverse ++ read := by
  induction more generalizing read with
  | nil => rfl
  | cons part more ih => simp [ih]

section

variable {β : Type} {reader : Reader β} {text rest : List Char}

theorem itemsIn_of_readItems {read : List β}
    (h : Leaves (((readItems (fun items _ => reader.map (· :: items)) [] 0).map
      List.reverse) text) read rest) :
    ItemsIn reader.Takes true text read rest := by
  obtain ⟨last, hread, rfl⟩ := Leaves.map_iff.mp h
  obtain ⟨items, hitems, rfl⟩ := exists_itemsIn reader.Takes
    (fun items item => item :: items) (fun _ _ _ _ _ h => Leaves.map_iff.mp h) hread
  rw [foldl_cons_eq, List.append_nil, List.reverse_reverse]
  exact hitems

private theorem membersIn_of_readMembers {read : Entries β}
    (h : Leaves (((readMembers (fun members key =>
        (afterColon key reader).map fun value => (key, value) :: members) [] true).map
      List.reverse) text) read rest) :
    MembersIn reader.Takes true text read rest := by
  obtain ⟨last, hread, rfl⟩ := Leaves.map_iff.mp h
  obtain ⟨members, hmembers, rfl⟩ := exists_membersIn reader.Takes
    (fun members member => member :: members) (fun _ _ _ _ _ h => by
      obtain ⟨value, hvalue, rfl⟩ := Leaves.map_iff.mp h
      obtain ⟨later, hcolon, hlater⟩ := leaves_afterColon_iff.mp hvalue
      exact ⟨later, value, hcolon, hlater, rfl⟩) hread
  rw [foldl_cons_eq, List.append_nil, List.reverse_reverse]
  exact hmembers

end

/-- A value is read as a scalar, an array or an object. -/
theorem readValue_cases {nesting : Nat} {text rest : List Char} {value : Json}
    (h : Leaves (readValue nesting text) value rest) :
    (∃ first later, skipBlanks text = first :: later ∧ openBracket? first = none ∧
      Leaves (readScalar first later) value rest) ∨
    (∃ room later items, nesting = room + 1 ∧ skipBlanks text = '[' :: later ∧
      value = .array items ∧
      Leaves (readItems (fun items _ => (readValue room).map (· :: items)) [] 0 later)
        items.reverse rest) ∨
    ∃ room later members, nesting = room + 1 ∧ skipBlanks text = '\x7b' :: later ∧
      value = .object members ∧
      Leaves (readMembers (fun members key =>
        (afterColon key (readValue room)).map fun value => (key, value) :: members) [] true later)
        members.reverse rest := by
  unfold readValue at h
  split at h
  next => exact (Leaves.not_error h).elim
  next later hfound =>
    cases nesting with
    | zero => exact (Leaves.not_error h).elim
    | succ nesting =>
        obtain ⟨items, hitems, rfl⟩ := Leaves.map_iff.mp (Leaves.carryPast_iff.mp h)
        exact .inr (.inl ⟨nesting, later, _, rfl, hfound, rfl, by rwa [List.reverse_reverse]⟩)
  next later hfound =>
    cases nesting with
    | zero => exact (Leaves.not_error h).elim
    | succ nesting =>
        obtain ⟨members, hmembers, rfl⟩ := Leaves.map_iff.mp (Leaves.carryPast_iff.mp h)
        exact .inr (.inr ⟨nesting, later, _, rfl, hfound, rfl, by rwa [List.reverse_reverse]⟩)
  next first later hlist hmap hfound =>
    refine .inl ⟨first, later, hfound, ?_, Leaves.carry_iff.mp h⟩
    unfold openBracket?
    split
    · exact (hlist rfl).elim
    · exact (hmap rfl).elim
    · rfl

theorem valueAt_of_readValue {nesting : Nat} {text rest : List Char} {value : Json}
    (h : Leaves (readValue nesting text) value rest) : ValueAt nesting text value rest := by
  rcases readValue_cases h with
    ⟨first, later, hfirst, hopen, hread⟩ | ⟨room, later, items, rfl, hopen, rfl, hread⟩ |
      ⟨room, later, members, rfl, hopen, rfl, hread⟩
  · exact .scalar hfirst hopen hread
  · have hitems := itemsIn_of_readItems (hread.map List.reverse)
    rw [List.reverse_reverse] at hitems
    exact .array ⟨later, hopen, hitems⟩
  · have hmembers := membersIn_of_readMembers (hread.map List.reverse)
    rw [List.reverse_reverse] at hmembers
    exact .object ⟨later, hopen, hmembers⟩

/-! ## Whole texts -/

theorem readAll_eq_ok_iff {α : Type} {reader : Reader α} {text : List Char} {value : α} :
    readAll reader text = .ok value ↔
      ∃ rest, Leaves (reader text) value rest ∧ skipBlanks rest = [] := by
  rw [readAll]
  split
  next fault hfault => simp [hfault, Leaves]
  next read later hread =>
    rw [readEnd]
    constructor
    · intro h
      split at h
      next hend =>
        cases h
        exact ⟨later.1, ⟨later, hread, rfl⟩, hend⟩
      next => cases h
    · rintro ⟨_, ⟨last, hlast, rfl⟩, hend⟩
      cases hread.symm.trans hlast
      rw [hend]
      rfl

end TreeSyntax.Json
