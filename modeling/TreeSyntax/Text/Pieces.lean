/-!
# Pieces between separators

A text splits at every separator into pieces, of which there is always a first one, and pieces
join again with a separator between any two.
-/

namespace TreeSyntax.Text

def piecesOf (separator : Char) : List Char → List (List Char)
  | [] => [[]]
  | character :: rest =>
      if character = separator then [] :: piecesOf separator rest
      else
        match piecesOf separator rest with
        | [] => [[character]]
        | piece :: pieces => (character :: piece) :: pieces

theorem piecesOf_ne_nil (separator : Char) (text : List Char) : piecesOf separator text ≠ [] := by
  fun_cases piecesOf separator text <;> simp_all

theorem piecesOf_of_notMem {separator : Char} {text : List Char} (h : separator ∉ text) :
    piecesOf separator text = [text] := by
  induction text with
  | nil => rfl
  | cons character text ih =>
      obtain ⟨hcharacter, htext⟩ := not_or.1 (mt List.mem_cons.2 h)
      rw [piecesOf, if_neg (Ne.symm hcharacter), ih htext]

theorem piecesOf_append (separator : Char) (first second : List Char) :
    piecesOf separator (first ++ separator :: second) =
      piecesOf separator first ++ piecesOf separator second := by
  induction first with
  | nil => simp [piecesOf]
  | cons character first ih =>
      rw [List.cons_append, piecesOf, piecesOf, ih]
      by_cases hcharacter : character = separator
      · rw [if_pos hcharacter, if_pos hcharacter, List.cons_append]
      · rw [if_neg hcharacter, if_neg hcharacter]
        cases hfirst : piecesOf separator first with
        | nil => exact absurd hfirst (piecesOf_ne_nil separator first)
        | cons piece pieces => rfl

def pieces (separator : Char) (text : String) : List String :=
  (piecesOf separator text.toList).map String.ofList

def joined (separator : String) : List String → String
  | [] => ""
  | [piece] => piece
  | piece :: pieces => piece ++ separator ++ joined separator pieces

theorem joined_cons_cons (separator first second : String) (pieces : List String) :
    joined separator (first :: second :: pieces) =
      first ++ separator ++ joined separator (second :: pieces) := rfl

theorem joined_eq_intercalate (separator : String) (pieces : List String) :
    joined separator pieces = String.intercalate separator pieces := by
  induction pieces with
  | nil => rw [String.intercalate_nil]; rfl
  | cons piece pieces ih =>
      cases pieces with
      | nil => rw [String.intercalate_singleton]; rfl
      | cons next pieces =>
          rw [String.intercalate_cons_of_ne_nil (List.cons_ne_nil next pieces), ← ih,
            joined_cons_cons]

theorem joined_append (separator : String) {first second : List String} (hfirst : first ≠ [])
    (hsecond : second ≠ []) :
    joined separator (first ++ second) =
      joined separator first ++ separator ++ joined separator second := by
  simp only [joined_eq_intercalate]
  exact String.intercalate_append_of_ne_nil hfirst hsecond

end TreeSyntax.Text
