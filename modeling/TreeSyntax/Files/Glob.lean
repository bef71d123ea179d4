import TreeSyntax.Text.Pieces

/-!
# Glob patterns

A pattern is a list of tokens, matched against a name from left to right.  Two stars stand for
any number of folders and must fill a path component of their own.
-/

namespace TreeSyntax

/-! ## Tokens -/

inductive CharacterRange where
  | single (character : Char)
  | span (first last : Char)
  deriving DecidableEq, Repr

inductive GlobToken where
  | literal (character : Char)
  | anyCharacter
  | anySequence
  | anyFolders
  | within (ranges : List CharacterRange)
  | except (ranges : List CharacterRange)
  deriving DecidableEq, Repr

/-! ## Errors -/

inductive GlobDefect where
  | starCount
  | starsNotAlone
  | openRange
  deriving DecidableEq, Repr

def GlobDefect.message : GlobDefect → String
  | .starCount => "wildcards are either regular `*` or recursive `**`"
  | .starsNotAlone => "recursive wildcards must form a single path component"
  | .openRange => "invalid range pattern"

structure GlobError where
  position : Nat
  defect : GlobDefect
  deriving DecidableEq, Repr

def GlobError.message (error : GlobError) : String :=
  s!"Pattern syntax error near position {error.position}: " ++ error.defect.message

namespace Glob

/-! ## Parsing -/

def ranges : List Char → List CharacterRange
  | first :: '-' :: last :: rest => .span first last :: ranges rest
  | character :: rest => .single character :: ranges rest
  | [] => []

def splitAtBracket? : List Char → Option (List Char × List Char)
  | [] => none
  | ']' :: rest => some ([], rest)
  | character :: rest => (splitAtBracket? rest).map fun split => (character :: split.1, split.2)

theorem length_splitAtBracket? {characters : List Char} {split : List Char × List Char}
    (found : splitAtBracket? characters = some split) : split.2.length < characters.length := by
  induction characters generalizing split with
  | nil => simp [splitAtBracket?] at found
  | cons character rest ih =>
      by_cases closing : character = ']'
      · subst closing
        simp only [splitAtBracket?, Option.some.injEq] at found
        subst found
        simp
      · rw [splitAtBracket?] at found
        · obtain ⟨inner, innerFound, rfl⟩ := Option.map_eq_some_iff.1 found
          have := ih innerFound
          simp only [List.length_cons]
          omega
        · exact closing

/-- A bracketed token, its opening bracket taken already.  The first character inside belongs to
it even when it is a closing bracket. -/
def bracketed? (characters : List Char) :
    Option (GlobToken × { rest : List Char // rest.length < characters.length }) :=
  match characters with
  | '!' :: first :: rest =>
      match found : splitAtBracket? rest with
      | none => none
      | some split => some (.except (ranges (first :: split.1)), ⟨split.2, by
          have := length_splitAtBracket? found; simp only [List.length_cons]; omega⟩)
  | '!' :: _ => none
  | first :: rest =>
      match found : splitAtBracket? rest with
      | none => none
      | some split => some (.within (ranges (first :: split.1)), ⟨split.2, by
          have := length_splitAtBracket? found; simp only [List.length_cons]; omega⟩)
  | [] => none

/-- Parses from `position` on; `atStart` tells that a path component starts there. -/
def parseFrom (position : Nat) (atStart : Bool) :
    (characters : List Char) → Except GlobError (List GlobToken)
  | [] => .ok []
  | '?' :: rest => (parseFrom (position + 1) false rest).map (.anyCharacter :: ·)
  | '[' :: rest =>
      match bracketed? rest with
      | none => .error ⟨position, .openRange⟩
      | some (token, later) =>
          (parseFrom (position + 1 + (rest.length - later.1.length)) false later.1).map (token :: ·)
  | '*' :: '*' :: '*' :: _ => .error ⟨position + 2, .starCount⟩
  | '*' :: '*' :: rest =>
      if !atStart then .error ⟨position - 1, .starsNotAlone⟩
      else
        match rest with
        | [] => .ok [.anyFolders]
        | '/' :: rest => (parseFrom (position + 3) true rest).map (.anyFolders :: ·)
        | _ => .error ⟨position + 2, .starsNotAlone⟩
  | '*' :: rest => (parseFrom (position + 1) false rest).map (.anySequence :: ·)
  | character :: rest =>
      (parseFrom (position + 1) (character == '/') rest).map (.literal character :: ·)
  termination_by characters => characters.length
  decreasing_by
    all_goals simp only [List.length_cons]
    all_goals omega

def parse (pattern : String) : Except GlobError (List GlobToken) :=
  parseFrom 0 true pattern.toList

/-! ## Matching -/

def CharacterRange.holds (character : Char) : CharacterRange → Bool
  | .single single => character == single
  | .span first last => first ≤ character && character ≤ last

def tokenAccepts (character : Char) : GlobToken → Bool
  | .literal literal => character == literal
  | .anyCharacter => true
  | .anySequence => true
  | .anyFolders => true
  | .within ranges => ranges.any (CharacterRange.holds character)
  | .except ranges => !ranges.any (CharacterRange.holds character)

def isSequence : GlobToken → Bool
  | .anySequence => true
  | .anyFolders => true
  | _ => false

/-- Whether a flag or one behind it is set, for every flag. -/
def orLater (flags : List Bool) : List Bool :=
  flags.foldr (fun flag later => (flag || later.headD false) :: later) []

/-- Whether a token followed by other tokens matches, for every end of a name, when this is known
of the other tokens. -/
def endsMatching (token : GlobToken) (name : List Char) (later : List Bool) : List Bool :=
  if isSequence token then orLater later
  else
    let accepted := name.map fun character => tokenAccepts character token
    List.zipWith (· && ·) accepted later.tail ++ [false]

/-- Whether the tokens match the whole name, the name without its first character, and so on down
to the empty end of it. -/
def matchingEnds (name : List Char) : List GlobToken → List Bool
  | [] => name.map (fun _ => false) ++ [true]
  | token :: tokens => endsMatching token name (matchingEnds name tokens)

def matchesName (tokens : List GlobToken) (name : List Char) : Bool :=
  (matchingEnds name tokens).headD false

def literal? : List GlobToken → Option (List Char)
  | [] => some []
  | .literal character :: tokens => (literal? tokens).map (character :: ·)
  | _ => none

end Glob

end TreeSyntax
