import Mathlib.Data.List.Lex
import Mathlib.Data.Prod.Lex
import Mathlib.Data.String.Basic
import TreeSyntax.Files.PathText

/-!
# The order of paths

Paths compare by the lists of their components, and components by their kind and then by their
name.  Both are linear orders, so that any list of paths can be sorted.  Two paths that are written
in different ways can be equal in it.
-/

namespace TreeSyntax.PathText

private theorem cons_le_cons_iff_or {α : Type} [LinearOrder α] {left right : α}
    {lefts rights : List α} :
    left :: lefts ≤ right :: rights ↔ left < right ∨ left = right ∧ lefts ≤ rights := by
  rw [← not_lt, ← not_lt, List.cons_lt_cons_iff]
  rcases lt_trichotomy left right with h | rfl | h
  · simp [h, h.not_gt, h.ne']
  · simp
  · simp [h, h.not_gt, h.ne']

def Component.key : Component → ℕ ×ₗ String
  | .name text => toLex (3, text)
  | other => toLex (other.rank, "")

theorem Component.before_iff {left right : Component} :
    left.before right = true ↔ left.key < right.key := by
  cases left <;> cases right <;> simp [before, key, rank, Prod.Lex.toLex_lt_toLex]

theorem componentsAtMost_iff {lefts rights : List Component} :
    componentsAtMost lefts rights = true ↔
      lefts.map Component.key ≤ rights.map Component.key := by
  fun_induction componentsAtMost lefts rights with
  | case1 rights =>
      rw [List.map_nil, ← not_lt]
      exact iff_of_true rfl (List.not_lt_nil _)
  | case2 left lefts =>
      rw [List.map_nil, List.map_cons, ← not_lt]
      exact iff_of_false Bool.false_ne_true (not_not_intro (List.nil_lt_cons _ _))
  | case3 left lefts right rights hbefore =>
      rw [List.map_cons, List.map_cons, cons_le_cons_iff_or]
      exact iff_of_true rfl (.inl (Component.before_iff.1 hbefore))
  | case4 left lefts right rights hbefore hafter =>
      rw [List.map_cons, List.map_cons, cons_le_cons_iff_or]
      have hless := Component.before_iff.1 hafter
      exact iff_of_false Bool.false_ne_true
        (not_or.2 ⟨hless.asymm, fun heq => hless.ne heq.1.symm⟩)
  | case5 left lefts right rights hbefore hafter ih =>
      -- Neither comes before the other, so that the keys are equal and the rest decides.
      rw [Component.before_iff, not_lt] at hbefore hafter
      rw [ih, List.map_cons, List.map_cons, cons_le_cons_iff_or]
      simp [le_antisymm hafter hbefore]

def orderKey (path : String) : List (ℕ ×ₗ String) :=
  (ofText path).components.map Component.key

theorem atMost_iff {first second : String} :
    atMost first second = true ↔ orderKey first ≤ orderKey second :=
  componentsAtMost_iff

theorem atMost_total (first second : String) :
    (atMost first second || atMost second first) = true := by
  rw [Bool.or_eq_true, atMost_iff, atMost_iff]
  exact le_total _ _

theorem atMost_trans (first second third : String) (hfirst : atMost first second = true)
    (hsecond : atMost second third = true) : atMost first third = true := by
  rw [atMost_iff] at *
  exact hfirst.trans hsecond

example : atMost "a//b" "a/./b" = true ∧ atMost "a/./b" "a//b" = true := by decide +kernel

theorem pairwise_atMost_mergeSort (paths : List String) :
    (paths.mergeSort atMost).Pairwise fun first second => atMost first second = true :=
  List.pairwise_mergeSort atMost_trans atMost_total paths

end TreeSyntax.PathText
