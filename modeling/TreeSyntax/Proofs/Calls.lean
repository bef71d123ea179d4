import TreeSyntax.Proofs.Order

/-!
# Calls are made by calls

Also a run that fails is made of the runs of some of its parts, whole and one after the other.  So
every call but the first is made by another one, a single step above it; and the failure of a run is
told by one of its calls, about the node of that call or about one of the lists in it.
-/

namespace TreeSyntax

/-! ## Runs made of runs -/

/-- What a call tells itself, not one of the calls that it makes. -/
inductive OwnFailure : Position → Failure Violation → Prop
  | node {position : Position} {reason : Violation} (hreason : reason.code ≠ .invalidList) :
      OwnFailure position (.here reason)
  | list {type : NodeType} {resolved : Bool} {members : Members} {fields : List FieldRule}
      {field : FieldRule} (hrule : type.rule = .record fields)
      (hclosed : type.allowsReference resolved = false)
      (hkeys : HasExactKeys members (fields.map FieldRule.key)) (hfield : field ∈ fields)
      (hlist : field.isList = true) :
      OwnFailure ⟨type, resolved, .object members⟩ ⟨.notAList field.key, [field.key]⟩

section

variable (tracePart : NodeType → Bool → Json → Traced Unit) (position : Position)

def runAt (position : Position) : Traced Unit :=
  tracePart position.type position.resolved position.node

structure Traced.Makes (traced : Traced Unit) (segments : List String) (next : Position) :
    Prop where
  step : Step position segments next
  visits : ∀ visit ∈ (runAt tracePart next).visits, visit.below segments ∈ traced.visits

structure Traced.MadeOf (traced : Traced Unit) : Prop where
  visits : ∀ visit ∈ traced.visits, ∃ segments next,
    traced.Makes tracePart position segments next ∧
    ∃ inner ∈ (runAt tracePart next).visits, visit = inner.below segments
  failure : ∀ failure, traced.verdict = .error failure → OwnFailure position failure ∨
    ∃ segments next, traced.Makes tracePart position segments next ∧
      ∃ inner, (runAt tracePart next).verdict = .error inner ∧ failure = inner.below segments

end

namespace Traced

section

variable {tracePart : NodeType → Bool → Json → Traced Unit} {position next : Position}
  {segments : List String}

theorem madeOf_return : (return () : Traced Unit).MadeOf tracePart position := ⟨nofun, nofun⟩

theorem madeOf_own {traced : Traced Unit} {failure : Failure Violation}
    (hvisits : traced.visits = []) (hverdict : traced.verdict = .error failure)
    (h : OwnFailure position failure) : traced.MadeOf tracePart position := by
  constructor
  · rw [hvisits]
    nofun
  · intro other hother
    obtain rfl := Except.error.inj (hverdict.symm.trans hother)
    exact .inl h

theorem madeOf_part {traced : Traced Unit} (hstep : Step position segments next)
    (hvisits : traced.visits = (runAt tracePart next).visits.map (Visit.below segments))
    (hverdict : ∀ failure, traced.verdict = .error failure →
      ∃ inner, (runAt tracePart next).verdict = .error inner ∧ failure = inner.below segments) :
    traced.MadeOf tracePart position := by
  have hmakes : traced.Makes tracePart position segments next := by
    refine ⟨hstep, ?_⟩
    intro visit hvisit
    rw [hvisits]
    exact List.mem_map_of_mem hvisit
  constructor
  · intro visit hvisit
    rw [hvisits] at hvisit
    obtain ⟨inner, hinner, rfl⟩ := List.mem_map.mp hvisit
    exact ⟨segments, next, hmakes, inner, hinner, rfl⟩
  · intro failure hfailure
    exact .inr ⟨segments, next, hmakes, hverdict failure hfailure⟩

theorem madeOf_direct (hstep : Step position [] next) :
    (runAt tracePart next).MadeOf tracePart position := by
  refine madeOf_part hstep (List.map_id _).symm ?_
  intro failure hfailure
  exact ⟨failure, hfailure, rfl⟩

theorem madeOf_within {segment : String} (hstep : Step position [segment] next) :
    ((runAt tracePart next).within segment).MadeOf tracePart position := by
  refine madeOf_part hstep rfl ?_
  intro failure hfailure
  obtain ⟨inner, hinner, rfl⟩ := Checked.exists_of_within_eq_error hfailure
  exact ⟨inner, hinner, rfl⟩

private theorem madeOf_withinIndex {key : String} {index : Nat}
    (hstep : Step position [key, indexText index] next) :
    ((runAt tracePart next).withinIndex key index).MadeOf tracePart position := by
  refine madeOf_part hstep ?_ ?_
  · rw [withinIndex, within, within, List.map_map]
    rfl
  · intro failure hfailure
    obtain ⟨middle, hmiddle, rfl⟩ := Checked.exists_of_within_eq_error hfailure
    obtain ⟨inner, hinner, rfl⟩ := Checked.exists_of_within_eq_error hmiddle
    exact ⟨inner, hinner, rfl⟩

theorem Makes.mono {traced whole : Traced Unit} (h : traced.Makes tracePart position segments next)
    (hvisits : ∀ visit ∈ traced.visits, visit ∈ whole.visits) :
    whole.Makes tracePart position segments next :=
  ⟨h.step, fun visit hvisit => hvisits _ (h.visits visit hvisit)⟩

theorem MadeOf.andThen {first second : Traced Unit} (hfirst : first.MadeOf tracePart position)
    (hsecond : second.MadeOf tracePart position) :
    (first >>= fun _ => second).MadeOf tracePart position := by
  obtain ⟨visits, events, verdict⟩ := first
  cases verdict with
  | error failure => exact hfirst
  | ok value =>
      have hleft : ∀ visit ∈ visits, visit ∈ visits ++ second.visits :=
        fun visit hvisit => List.mem_append_left second.visits hvisit
      have hright : ∀ visit ∈ second.visits, visit ∈ visits ++ second.visits :=
        fun visit hvisit => List.mem_append_right visits hvisit
      constructor
      · intro visit hvisit
        rcases List.mem_append.mp hvisit with hearly | hlate
        · obtain ⟨segments, next, hmakes, hinner⟩ := hfirst.visits visit hearly
          exact ⟨segments, next, hmakes.mono hleft, hinner⟩
        · obtain ⟨segments, next, hmakes, hinner⟩ := hsecond.visits visit hlate
          exact ⟨segments, next, hmakes.mono hright, hinner⟩
      · intro failure hfailure
        rcases hsecond.failure failure hfailure with hown | ⟨segments, next, hmakes, hinner⟩
        · exact .inl hown
        · exact .inr ⟨segments, next, hmakes.mono hright, hinner⟩

end

end Traced

/-! ## The run of a call -/

theorem OwnFailure.of_keyFault? {position : Position} {keys : List String} {node : Json}
    {reason : Violation} (h : keyFault? keys node = some reason.code) :
    OwnFailure position (.here reason) := by
  apply OwnFailure.node
  rcases keyFault?_eq_some h with hcode | hcode <;> simp [hcode]

private theorem madeOf_traceItems {tracePart : NodeType → Bool → Json → Traced Unit}
    {position : Position} {type : NodeType} {key : String} {items : List Json} {index : Nat}
    (hsteps : ∀ place item, items[place]? = some item →
      Step position [key, indexText (index + place)] ⟨type, false, item⟩) :
    (traceItems key (tracePart type false) index items).MadeOf tracePart position := by
  induction items generalizing index with
  | nil => exact Traced.madeOf_return
  | cons item items ih =>
      apply Traced.MadeOf.andThen
      · exact Traced.madeOf_withinIndex (hsteps 0 item rfl)
      · apply ih
        intro place other hplace
        rw [Nat.add_assoc, Nat.add_comm 1 place]
        exact hsteps (place + 1) other hplace

private theorem madeOf_traceFields {tracePart : NodeType → Bool → Json → Traced Unit}
    {position : Position} {members : Members} {fields : List FieldRule}
    (hkeys : ∀ field ∈ fields, field.key ∈ Entries.names members)
    (hfields : ∀ field ∈ fields,
      (traceField (fun part => tracePart part false) field
        (valueAt members field.key)).MadeOf tracePart position) :
    (traceFields (fun part => tracePart part false) members fields).MadeOf tracePart
      position := by
  induction fields with
  | nil => exact Traced.madeOf_return
  | cons field fields ih =>
      obtain ⟨hkey, hkeys⟩ := List.forall_mem_cons.mp hkeys
      obtain ⟨hfield, hfields⟩ := List.forall_mem_cons.mp hfields
      rw [traceFields_cons hkey]
      exact hfield.andThen (ih hkeys hfields)

section

variable {tracePart : NodeType → Bool → Json → Traced Unit} {type : NodeType} {resolved : Bool}

private theorem madeOf_traceReference (hvariable : type.isVariable = true) (node : Json) :
    (traceReference tracePart type node).MadeOf tracePart ⟨type, false, node⟩ := by
  cases hreference : Reference.ofNode node with
  | error failure =>
      obtain ⟨reason, rfl, hfault⟩ := Reference.exists_of_ofNode_eq_error hreference
      rw [traceReference_of_error 0 hreference]
      exact Traced.madeOf_own rfl rfl (.of_keyFault? hfault)
  | ok reference =>
      rw [traceReference_of_ok hreference]
      have hstep := Step.of_reference hvariable hreference
      cases reference with
      | direct inner => exact Traced.madeOf_direct hstep
      | bound index => exact Traced.madeOf_within hstep
      | inlined content => exact Traced.madeOf_within hstep

private theorem madeOf_traceUnion {tags : List NodeType} (hrule : type.rule = .union tags)
    (hclosed : type.allowsReference resolved = false) (node : Json) :
    (traceUnion (fun part => tracePart part false) tags node).MadeOf tracePart
      ⟨type, resolved, node⟩ := by
  rcases Tagged.ofNode_cases node with ⟨members, rfl, hkeys, hok⟩ | ⟨reason, hfault, hfail⟩
  · simp only [traceUnion_of_ok hok, tracePayload]
    cases hallowed : allowedTag? tags (valueAt members tagKey).text? with
    | none => exact Traced.madeOf_own rfl rfl (.node (by simp [Violation.code]))
    | some tag => exact Traced.madeOf_within (.of_allowedTag? hrule hclosed hkeys hallowed)
  · rw [traceUnion_of_error 0 hfail]
    exact Traced.madeOf_own rfl rfl (.of_keyFault? hfault)

private theorem madeOf_traceField {fields : List FieldRule} {field : FieldRule} {members : Members}
    (hrule : type.rule = .record fields) (hclosed : type.allowsReference resolved = false)
    (hkeys : HasExactKeys members (fields.map FieldRule.key)) (hfield : field ∈ fields) :
    (traceField (fun part => tracePart part false) field (valueAt members field.key)).MadeOf
      tracePart ⟨type, resolved, .object members⟩ := by
  simp only [traceField]
  cases hlist : field.isList with
  | false => exact Traced.madeOf_within (.of_field hrule hclosed hkeys hfield hlist)
  | true =>
      rw [if_pos rfl]
      cases hvalue : valueAt members field.key with
      | array items =>
          apply madeOf_traceItems
          intro place item hitem
          rw [Nat.zero_add]
          exact .of_element hrule hclosed hkeys hfield hlist hvalue hitem
      | _ => exact Traced.madeOf_own rfl rfl (.list hrule hclosed hkeys hfield hlist)

private theorem madeOf_traceRecord {fields : List FieldRule} (hrule : type.rule = .record fields)
    (hclosed : type.allowsReference resolved = false) (node : Json) :
    (traceRecord (fun part => tracePart part false) fields node).MadeOf tracePart
      ⟨type, resolved, node⟩ := by
  rcases expectKeys_cases (fields.map FieldRule.key) node with
    ⟨members, rfl, hkeys, hok⟩ | ⟨reason, hfault, hfail⟩
  · rw [traceRecord_of_ok hok]
    apply madeOf_traceFields
    · intro field hfield
      exact (hkeys field.key).mpr (List.mem_map_of_mem hfield)
    · intro field hfield
      exact madeOf_traceField hrule hclosed hkeys hfield
  · rw [traceRecord_of_error 0 hfail]
    exact Traced.madeOf_own rfl rfl (.of_keyFault? hfault)

end

theorem madeOf_traceRule (tracePart : NodeType → Bool → Json → Traced Unit) (position : Position) :
    (traceRule tracePart position.type position.resolved position.node).MadeOf tracePart
      position := by
  obtain ⟨type, resolved, node⟩ := position
  rw [traceRule]
  rcases NodeType.rule_cases type resolved with
    ⟨pattern, hrule⟩ | hopen | ⟨tags, hrule, hclosed⟩ | ⟨fields, hrule, hclosed⟩
  · rw [NodeType.dispatch_primitive hrule, tracePrimitive_eq 0, checkPrimitive, Pattern.read]
    split
    · exact Traced.madeOf_return
    · exact Traced.madeOf_own rfl rfl (.node (by simp [Violation.code]))
  · rw [NodeType.dispatch_reference hopen]
    obtain ⟨hvariable, rfl⟩ := NodeType.allowsReference_iff.mp hopen
    exact madeOf_traceReference hvariable node
  · rw [NodeType.dispatch_union hrule hclosed]
    exact madeOf_traceUnion hrule hclosed node
  · rw [NodeType.dispatch_record hrule hclosed]
    exact madeOf_traceRecord hrule hclosed node

/-! ## Calls and their callers -/

@[simp] theorem Visit.below_below (visit : Visit) (segments segments' : List String) :
    (visit.below segments').below segments = visit.below (segments ++ segments') := by
  simp [Visit.below]

def Visit.Calls (caller call : Visit) (segments : List String) : Prop :=
  Step caller.position segments call.position ∧ call.path = caller.path ++ segments ∧
    call.depth = caller.depth + 1

theorem Visit.Calls.below {caller call : Visit} {segments : List String}
    (h : caller.Calls call segments) (above : List String) :
    (caller.below above).Calls (call.below above) segments := by
  obtain ⟨hstep, hpath, hdepth⟩ := h
  refine ⟨hstep, ?_, hdepth⟩
  simp [hpath]

theorem exists_caller_of_mem_trace {allowance depth : Nat} {position : Position} {visit : Visit}
    (h : visit ∈ (trace allowance depth position.type position.resolved position.node).visits) :
    visit = ⟨[], position, depth⟩ ∨
      ∃ caller ∈ (trace allowance depth position.type position.resolved position.node).visits,
        ∃ segments, caller.Calls visit segments := by
  induction allowance generalizing depth position visit with
  | zero => exact .inl (List.mem_singleton.mp h)
  | succ allowance ih =>
      rw [visits_trace_succ] at h
      rcases List.mem_cons.mp h with rfl | hparts
      · exact .inl rfl
      · obtain ⟨segments, next, hmakes, inner, hinner, rfl⟩ :=
          (madeOf_traceRule (trace allowance (depth + 1)) position).visits visit hparts
        rcases ih hinner with rfl | ⟨caller, hcaller, segments', hcalls⟩
        · refine .inr ⟨⟨[], position, depth⟩, List.mem_cons_self, segments, hmakes.step, ?_, rfl⟩
          simp
        · exact .inr ⟨_, List.mem_cons_of_mem _ (hmakes.visits caller hcaller), segments',
            hcalls.below segments⟩

/-- The failure of a run is told by one of its calls, which has a step left for it if it does not
tell just that. -/
theorem exists_call_of_failure {allowance depth : Nat} {position : Position}
    {failure : Failure Violation}
    (h : (trace allowance depth position.type position.resolved position.node).verdict =
      .error failure) :
    ∃ call ∈ (trace allowance depth position.type position.resolved position.node).visits,
      ∃ own, OwnFailure call.position own ∧ failure = own.below call.path ∧
        (own.reason.code ≠ .tooDeep → call.depth < depth + allowance) := by
  induction allowance generalizing depth position failure with
  | zero =>
      obtain rfl := Except.error.inj h
      exact ⟨⟨[], position, depth⟩, List.mem_cons_self, .here (.tooDeep position.type),
        .node (by simp [Violation.code]), rfl, fun hcode => absurd rfl hcode⟩
  | succ allowance ih =>
      rcases (madeOf_traceRule (trace allowance (depth + 1)) position).failure failure h with
        hown | ⟨segments, next, hmakes, inner, hinner, rfl⟩
      · exact ⟨⟨[], position, depth⟩, List.mem_cons_self, failure, hown, rfl,
          fun _ => Nat.lt_add_of_pos_right (Nat.succ_pos allowance)⟩
      · obtain ⟨call, hcall, own, hown, rfl, hdepth⟩ := ih hinner
        refine ⟨call.below segments, List.mem_cons_of_mem _ (hmakes.visits call hcall), own,
          hown, ?_, ?_⟩
        · simp [Failure.below]
        · intro hcode
          have hlt : call.depth < depth + 1 + allowance := hdepth hcode
          simp only [Visit.below]
          omega

end TreeSyntax
