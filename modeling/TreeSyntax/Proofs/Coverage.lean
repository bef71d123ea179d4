import TreeSyntax.Proofs.Trace

/-!
# Every reached position is visited

A check that finds no failure leaves no part out.  It calls every position that grammar steps lead
to, at the depth that the steps count.
-/

namespace TreeSyntax

@[simp] theorem Checked.within_eq_ok_iff {κ : Type} {verdict : Verdict κ} {segment : String} :
    verdict.within segment = .ok () ↔ verdict = .ok () := by
  cases verdict with
  | ok value => exact Iff.rfl
  | error failure =>
      constructor
      · intro h
        cases h
      · intro h
        cases h

namespace Traced

/-! ## Runs inside a run -/

structure Contains (whole : Traced Unit) (segments : List String) (part : Traced Unit) : Prop where
  verdict : part.verdict = .ok ()
  visits : ∀ visit ∈ part.visits, visit.below segments ∈ whole.visits

variable {whole middle part first second : Traced Unit} {segments segments' : List String}

theorem Contains.trans (hwhole : whole.Contains segments middle)
    (hmiddle : middle.Contains segments' part) : whole.Contains (segments ++ segments') part := by
  constructor
  · exact hmiddle.verdict
  · intro visit hvisit
    have hinner := hwhole.visits _ (hmiddle.visits visit hvisit)
    simp only [Visit.below, ← List.append_assoc] at hinner
    exact hinner

theorem contains_self (h : part.verdict = .ok ()) : part.Contains [] part := by
  constructor
  · exact h
  · intro visit hvisit
    exact hvisit

theorem contains_within {segment : String} (h : (part.within segment).verdict = .ok ()) :
    (part.within segment).Contains [segment] part := by
  constructor
  · exact Checked.within_eq_ok_iff.mp h
  · intro visit hvisit
    exact List.mem_map_of_mem hvisit

private theorem contains_withinIndex {key : String} {index : Nat}
    (h : (part.withinIndex key index).verdict = .ok ()) :
    (part.withinIndex key index).Contains [key, indexText index] part := by
  have hitem := contains_within h
  exact hitem.trans (contains_within hitem.verdict)

/-- Two runs one after the other fail nowhere when both fail nowhere. -/
theorem andThen_of_ok (h : (first >>= fun _ => second).verdict = .ok ()) :
    (first >>= fun _ => second).Contains [] first ∧
      (first >>= fun _ => second).Contains [] second := by
  obtain ⟨visits, events, verdict⟩ := first
  cases verdict with
  | error failure => cases h
  | ok value =>
      refine ⟨⟨rfl, ?_⟩, ⟨h, ?_⟩⟩
      · intro visit hvisit
        exact List.mem_append_left second.visits hvisit
      · intro visit hvisit
        exact List.mem_append_right visits hvisit

private theorem contains_traceItems {key : String} {traceItem : Json → Traced Unit}
    {items : List Json} {index place : Nat} {item : Json}
    (h : (traceItems key traceItem index items).verdict = .ok ())
    (hitem : items[place]? = some item) :
    (traceItems key traceItem index items).Contains [key, indexText (index + place)]
      (traceItem item) := by
  induction items generalizing index place with
  | nil => cases hitem
  | cons other items ih =>
      obtain ⟨hfirst, hrest⟩ := andThen_of_ok h
      cases place with
      | zero =>
          obtain rfl := Option.some.inj hitem
          exact hfirst.trans (contains_withinIndex hfirst.verdict)
      | succ place =>
          have hitems := hrest.trans (ih hrest.verdict hitem)
          rw [Nat.add_right_comm, Nat.add_assoc] at hitems
          exact hitems

section

variable {tracePart : NodeType → Json → Traced Unit} {members : Members} {field : FieldRule}

private theorem contains_traceFields {fields : List FieldRule}
    (hkeys : ∀ field ∈ fields, field.key ∈ Entries.names members) (hfield : field ∈ fields)
    (h : (traceFields tracePart members fields).verdict = .ok ()) :
    (traceFields tracePart members fields).Contains []
      (traceField tracePart field (valueAt members field.key)) := by
  induction fields with
  | nil => cases hfield
  | cons first fields ih =>
      obtain ⟨hkey, hkeys⟩ := List.forall_mem_cons.mp hkeys
      rw [traceFields_cons hkey] at h ⊢
      obtain ⟨hfirst, hrest⟩ := andThen_of_ok h
      rcases List.mem_cons.mp hfield with rfl | hlater
      · exact hfirst
      · exact hrest.trans (ih hkeys hlater hrest.verdict)

private theorem contains_traceRecord {fields : List FieldRule}
    (hkeys : HasExactKeys members (fields.map FieldRule.key)) (hfield : field ∈ fields)
    (h : (traceRecord tracePart fields (.object members)).verdict = .ok ()) :
    (traceRecord tracePart fields (.object members)).Contains []
      (traceField tracePart field (valueAt members field.key)) := by
  rw [traceRecord_of_ok (expectKeys_of_exactKeys hkeys)] at h ⊢
  have hpresent : ∀ field ∈ fields, field.key ∈ Entries.names members := by
    intro field hfield
    exact (hkeys field.key).mpr (List.mem_map_of_mem hfield)
  exact contains_traceFields hpresent hfield h

end

end Traced

/-! ## Steps are taken -/

section

variable {tracePart : NodeType → Bool → Json → Traced Unit}

/-- A run that fails nowhere takes every step. -/
theorem Step.contains {first second : Position} {segments : List String}
    (h : Step first segments second)
    (hok : (traceRule tracePart first.type first.resolved first.node).verdict = .ok ()) :
    (traceRule tracePart first.type first.resolved first.node).Contains segments
      (tracePart second.type second.resolved second.node) := by
  rw [traceRule] at hok ⊢
  cases h with
  | direct hvariable hnode =>
      rw [NodeType.dispatch_variable hvariable] at hok ⊢
      rw [traceReference_of_ok (Reference.ofNode_of_not_isReference hnode)] at hok ⊢
      exact Traced.contains_self hok
  | bound hvariable hkeys hflag hindex =>
      rw [NodeType.dispatch_variable hvariable] at hok ⊢
      simp only [traceReference_of_ok (Reference.ofNode_of_exactKeys hkeys), valueAt_eq hflag,
        valueAt_eq hindex, Json.text?, if_true] at hok ⊢
      exact Traced.contains_within hok
  | inlined hvariable hkeys hflag hother hcontent =>
      rw [NodeType.dispatch_variable hvariable] at hok ⊢
      simp only [traceReference_of_ok (Reference.ofNode_of_exactKeys hkeys), valueAt_eq hflag,
        valueAt_eq hcontent, Json.text?_eq_some_iff, hother, if_false] at hok ⊢
      exact Traced.contains_within hok
  | payload hrule hclosed hkeys hallowed htag hcontent =>
      rw [NodeType.dispatch_union hrule hclosed] at hok ⊢
      simp only [traceUnion_of_ok (Tagged.ofNode_of_exactKeys hkeys), tracePayload, valueAt_eq htag,
        valueAt_eq hcontent, Json.text?, allowedTag?_eq_some_iff.mpr ⟨hallowed, rfl⟩] at hok ⊢
      exact Traced.contains_within hok
  | field hrule hclosed hkeys hfield hsingle hvalue =>
      rw [NodeType.dispatch_record hrule hclosed] at hok ⊢
      have hrecord := Traced.contains_traceRecord hkeys hfield hok
      simp only [traceField, hsingle, valueAt_eq hvalue] at hrecord
      exact hrecord.trans (Traced.contains_within hrecord.verdict)
  | element hrule hclosed hkeys hfield hlist hvalue hitem =>
      rw [NodeType.dispatch_record hrule hclosed] at hok ⊢
      have hrecord := Traced.contains_traceRecord hkeys hfield hok
      simp only [traceField, hlist, valueAt_eq hvalue, if_true] at hrecord
      have hitems := hrecord.trans (Traced.contains_traceItems hrecord.verdict hitem)
      rw [Nat.zero_add] at hitems
      exact hitems

end

theorem Reaches.contains {first last : Position} {path : List String} {steps : Nat}
    (h : Reaches first path steps last) {allowance depth : Nat}
    (hok : (trace allowance depth first.type first.resolved first.node).verdict = .ok ()) :
    ∃ left, allowance = left + 1 + steps ∧
      (trace allowance depth first.type first.resolved first.node).Contains path
        (trace (left + 1) (depth + steps) last.type last.resolved last.node) := by
  induction h generalizing allowance depth with
  | refl position =>
      cases allowance with
      | zero => cases hok
      | succ left => exact ⟨left, rfl, Traced.contains_self hok⟩
  | @step first second last segments path steps hstep hrest ih =>
      cases allowance with
      | zero => cases hok
      | succ allowance =>
          have hnext := hstep.contains hok
          obtain ⟨left, rfl, hlast⟩ := ih hnext.verdict
          have hwhole := hnext.trans hlast
          refine ⟨left, rfl, ?_⟩
          rw [Nat.add_right_comm depth, Nat.add_assoc depth] at hwhole
          constructor
          · exact hwhole.verdict
          · intro visit hvisit
            exact List.mem_cons_of_mem _ (hwhole.visits visit hvisit)

/-- A run that fails nowhere calls every position that is reached. -/
theorem Reaches.mem_trace {first last : Position} {path : List String} {steps : Nat}
    (h : Reaches first path steps last) {allowance depth : Nat}
    (hok : (trace allowance depth first.type first.resolved first.node).verdict = .ok ()) :
    ⟨path, last, depth + steps⟩ ∈
      (trace allowance depth first.type first.resolved first.node).visits := by
  obtain ⟨left, -, hcontains⟩ := h.contains hok
  have hvisit := hcontains.visits ⟨[], last, depth + steps⟩ List.mem_cons_self
  rw [Visit.below, List.append_nil] at hvisit
  exact hvisit

end TreeSyntax
