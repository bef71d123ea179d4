import TreeSyntax.Proofs.Fault
import TreeSyntax.Proofs.Trace

/-!
# The order of visits

A check comes to a node before the parts of the node, to the fields of a record in the order of
their declaration, and to the elements of a list by index.  Paths are ordered in the same way.  The
failures of a tree are collected in this order, and the calls of a check are made in it.
-/

namespace TreeSyntax

/-! ## Paths in order -/

/-- Somewhere the first path turns off into an earlier part than the second one does. -/
inductive Precedes : Position → List String → List String → Prop
  | fields {type : NodeType} {resolved : Bool} {node : Json} {fields : List FieldRule}
      {earlier later : Nat} {first second : FieldRule} (hrule : type.rule = .record fields)
      (hclosed : type.allowsReference resolved = false) (hfirst : fields[earlier]? = some first)
      (hsecond : fields[later]? = some second) (hlt : earlier < later)
      (path path' : List String) :
      Precedes ⟨type, resolved, node⟩ (first.key :: path) (second.key :: path')
  | elements {type : NodeType} {resolved : Bool} {node : Json} {fields : List FieldRule}
      {field : FieldRule} {earlier later : Nat} (hrule : type.rule = .record fields)
      (hclosed : type.allowsReference resolved = false) (hfield : field ∈ fields)
      (hlist : field.isList = true) (hlt : earlier < later) (path path' : List String) :
      Precedes ⟨type, resolved, node⟩ (field.key :: indexText earlier :: path)
        (field.key :: indexText later :: path')
  | inside {first second : Position} {segments path path' : List String}
      (hstep : Step first segments second) (hparts : Precedes second path path') :
      Precedes first (segments ++ path) (segments ++ path')

/-- The first path leads to the end of the second one or above it, or turns off into an earlier
part. -/
def AtOrBefore (root : Position) (path path' : List String) : Prop :=
  path <+: path' ∨ Precedes root path path'

def VisitedBefore (root : Position) (path path' : List String) : Prop :=
  AtOrBefore root path path' ∧ path ≠ path'

theorem NodeType.index_eq_of_key_eq {type : NodeType} {fields fields' : List FieldRule}
    (hrule : type.rule = .record fields) (hrule' : type.rule = .record fields')
    {index index' : Nat} {first second : FieldRule} (hfirst : fields[index]? = some first)
    (hsecond : fields'[index']? = some second) (hkey : first.key = second.key) :
    index = index' := by
  obtain rfl := Rule.record.inj (hrule.symm.trans hrule')
  have hindex : index < (fields.map FieldRule.key).length := by
    rw [List.length_map]
    exact (List.getElem?_eq_some_iff.mp hfirst).1
  apply (List.getElem?_inj hindex (nodup_keys hrule)).mp
  simp only [List.getElem?_map, hfirst, hsecond, Option.map_some, hkey]

namespace Precedes

variable {root : Position} {path path' : List String}

theorem extend (h : Precedes root path path') (rest rest' : List String) :
    Precedes root (path ++ rest) (path' ++ rest') := by
  induction h with
  | fields hrule hclosed hfirst hsecond hlt path path' =>
      exact .fields hrule hclosed hfirst hsecond hlt (path ++ rest) (path' ++ rest')
  | elements hrule hclosed hfield hlist hlt path path' =>
      exact .elements hrule hclosed hfield hlist hlt (path ++ rest) (path' ++ rest')
  | inside hstep hparts ih =>
      rw [List.append_assoc, List.append_assoc]
      exact .inside hstep ih

theorem of_longer {longer longer' : List String} (h : Precedes root path path')
    (hlonger : path <+: longer) (hlonger' : path' <+: longer') : Precedes root longer longer' := by
  obtain ⟨rest, rfl⟩ := hlonger
  obtain ⟨rest', rfl⟩ := hlonger'
  exact h.extend rest rest'

end Precedes

/-! ## The order is strict -/

private theorem Step.exists_first_segment {position next : Position} {segments : List String}
    (hclosed : position.type.allowsReference position.resolved = false)
    (h : Step position segments next) : ∃ segment rest, segments = segment :: rest := by
  cases h with
  | direct hvariable => simp [NodeType.allowsReference, hvariable] at hclosed
  | _ => exact ⟨_, _, rfl⟩

theorem Step.first_key_eq {position next : Position} {segments path path' rest rest' : List String}
    {key key' : String} (hclosed : position.type.allowsReference position.resolved = false)
    (h : Step position segments next) (hpath : segments ++ path = key :: rest)
    (hpath' : segments ++ path' = key' :: rest') : key = key' := by
  obtain ⟨segment, others, rfl⟩ := h.exists_first_segment hclosed
  exact (List.cons.inj hpath).1.symm.trans (List.cons.inj hpath').1

theorem Step.index_eq {type : NodeType} {resolved : Bool} {node : Json} {fields : List FieldRule}
    {field : FieldRule} {next : Position} {segments path path' rest rest' : List String}
    {index index' : Nat} (hrule : type.rule = .record fields)
    (hclosed : type.allowsReference resolved = false) (hfield : field ∈ fields)
    (hlist : field.isList = true) (h : Step ⟨type, resolved, node⟩ segments next)
    (hpath : segments ++ path = field.key :: indexText index :: rest)
    (hpath' : segments ++ path' = field.key :: indexText index' :: rest') : index = index' := by
  cases h with
  | direct hvariable | bound hvariable | inlined hvariable =>
      simp [NodeType.allowsReference, hvariable] at hclosed
  | payload hrule' =>
      rw [hrule] at hrule'
      cases hrule'
  | field hrule' _ _ hfield' hsingle =>
      have hkey := (List.cons.inj hpath).1
      obtain rfl := NodeType.field_eq_of_key_eq hrule' hrule hfield' hfield hkey
      simp [hlist] at hsingle
  | element =>
      have hfirst := (List.cons.inj (List.cons.inj hpath).2).1
      have hsecond := (List.cons.inj (List.cons.inj hpath').2).1
      exact indexText_injective (hfirst.symm.trans hsecond)

private theorem Precedes.of_inside {first second : Position} {segments path path' : List String}
    (hstep : Step first segments second)
    (h : Precedes first (segments ++ path) (segments ++ path')) : Precedes second path path' := by
  generalize hlong : segments ++ path = long at h
  generalize hlong' : segments ++ path' = long' at h
  cases h with
  | fields hrule hclosed hfirst hsecond hlt =>
      have hkey := hstep.first_key_eq hclosed hlong hlong'
      have hindex := NodeType.index_eq_of_key_eq hrule hrule hfirst hsecond hkey
      omega
  | elements hrule hclosed hfield hlist hlt =>
      have hindex := hstep.index_eq hrule hclosed hfield hlist hlong hlong'
      omega
  | inside hstep' hparts =>
      obtain ⟨rfl, rfl⟩ := hstep.determined hstep' hlong
      obtain rfl := List.append_cancel_left hlong
      obtain rfl := List.append_cancel_left hlong'
      exact hparts

theorem Precedes.asymm {root : Position} {path path' : List String}
    (h : Precedes root path path') : ¬ Precedes root path' path := by
  induction h with
  | @fields type resolved node fields earlier later first second hrule hclosed hfirst hsecond hlt
      path path' =>
      intro hback
      generalize hlong : second.key :: path' = long at hback
      generalize hlong' : first.key :: path = long' at hback
      cases hback with
      | fields hrule' _ hfirst' hsecond' hlt' =>
          have hindex := NodeType.index_eq_of_key_eq hrule hrule' hsecond hfirst'
            (List.cons.inj hlong).1
          have hindex' := NodeType.index_eq_of_key_eq hrule hrule' hfirst hsecond'
            (List.cons.inj hlong').1
          omega
      | elements =>
          have hkey := (List.cons.inj hlong').1.trans (List.cons.inj hlong).1.symm
          have hindex := NodeType.index_eq_of_key_eq hrule hrule hfirst hsecond hkey
          omega
      | inside hstep =>
          have hkey := hstep.first_key_eq hclosed hlong'.symm hlong.symm
          have hindex := NodeType.index_eq_of_key_eq hrule hrule hfirst hsecond hkey
          omega
  | @elements type resolved node fields field earlier later hrule hclosed hfield hlist hlt path
      path' =>
      intro hback
      generalize hlong : field.key :: indexText later :: path' = long at hback
      generalize hlong' : field.key :: indexText earlier :: path = long' at hback
      cases hback with
      | fields hrule' _ hfirst hsecond hlt' =>
          have hkey := (List.cons.inj hlong).1.symm.trans (List.cons.inj hlong').1
          have hindex := NodeType.index_eq_of_key_eq hrule' hrule' hfirst hsecond hkey
          omega
      | elements _ _ _ _ hlt' =>
          have hearlier := indexText_injective (List.cons.inj (List.cons.inj hlong).2).1
          have hlater := indexText_injective (List.cons.inj (List.cons.inj hlong').2).1
          omega
      | inside hstep =>
          have hindex := hstep.index_eq hrule hclosed hfield hlist hlong'.symm hlong.symm
          omega
  | inside hstep hparts ih =>
      intro hback
      exact ih (.of_inside hstep hback)

namespace Precedes

variable {root : Position} {path path' : List String}

theorem ne (h : Precedes root path path') : path ≠ path' := by
  rintro rfl
  exact h.asymm h

theorem not_extends (h : Precedes root path path') : ¬ path <+: path' := by
  rintro ⟨rest, rfl⟩
  have hself : Precedes root (path ++ rest) (path ++ rest) := by
    simpa using h.extend rest []
  exact hself.ne rfl

theorem not_extends_right (h : Precedes root path path') : ¬ path' <+: path := by
  rintro ⟨rest, rfl⟩
  have hself : Precedes root (path' ++ rest) (path' ++ rest) := by
    simpa using h.extend [] rest
  exact hself.ne rfl

end Precedes

namespace AtOrBefore

variable {root : Position} {path path' : List String}

theorem inside {next : Position} {segments : List String} (hstep : Step root segments next)
    (h : AtOrBefore next path path') : AtOrBefore root (segments ++ path) (segments ++ path') := by
  rcases h with hbegins | hparts
  · exact .inl ((List.prefix_append_right_inj segments).mpr hbegins)
  · exact .inr (.inside hstep hparts)

theorem antisymm (h : AtOrBefore root path path') (hback : AtOrBefore root path' path) :
    path = path' := by
  rcases h with hbegins | hprecedes
  · rcases hback with hback | hback
    · exact hbegins.eq_of_length_le hback.length_le
    · exact absurd hbegins hback.not_extends_right
  · rcases hback with hback | hback
    · exact absurd hback hprecedes.not_extends_right
    · exact absurd hback hprecedes.asymm

theorem not_visitedBefore (h : AtOrBefore root path path') : ¬ VisitedBefore root path' path := by
  rintro ⟨hback, hne⟩
  exact hne (h.antisymm hback).symm

end AtOrBefore

/-! ## Failures are collected in order -/

theorem NodeType.pairwise_precedes {type : NodeType} {resolved : Bool} {fields : List FieldRule}
    (hrule : type.rule = .record fields) (hclosed : type.allowsReference resolved = false)
    (node : Json) :
    fields.Pairwise fun first second => ∀ path path',
      Precedes ⟨type, resolved, node⟩ (first.key :: path) (second.key :: path') := by
  rw [List.pairwise_iff_getElem]
  intro earlier later hearlier hlater hlt path path'
  exact .fields hrule hclosed (List.getElem?_eq_getElem hearlier)
    (List.getElem?_eq_getElem hlater) hlt path path'

def Failures.InOrder (root : Position) (failures : Failures) : Prop :=
  failures.Pairwise fun first second => Precedes root first.path second.path

namespace Failures.InOrder

variable {root next : Position} {failures : Failures}

theorem direct (hstep : Step root [] next) (h : failures.InOrder next) :
    failures.InOrder root :=
  List.Pairwise.imp (fun hparts => Precedes.inside hstep hparts) h

theorem within {segment : String} (hstep : Step root [segment] next)
    (h : failures.InOrder next) : (failures.within segment).InOrder root := by
  rw [InOrder, Failures.within, List.pairwise_map]
  exact List.Pairwise.imp (fun hparts => .inside hstep hparts) h

theorem withinIndex {key : String} {index : Nat} (hstep : Step root [key, indexText index] next)
    (h : failures.InOrder next) : (failures.withinIndex key index).InOrder root := by
  rw [InOrder, Failures.withinIndex, Failures.within, Failures.within, List.map_map,
    List.pairwise_map]
  exact List.Pairwise.imp (fun hparts => .inside hstep hparts) h

theorem keyed {keys : List String} {collectParts : Members → Failures} {node : Json}
    (h : ∀ members, node = .object members → HasExactKeys members keys →
      (collectParts members).InOrder root) :
    (collectKeyed keys collectParts node).InOrder root := by
  rcases collectKeyed_cases keys collectParts node with
    ⟨code, -, hcollect⟩ | ⟨members, rfl, hkeys, hcollect⟩
  · rw [hcollect]
    exact List.pairwise_singleton _ _
  · rw [hcollect]
    exact h members rfl hkeys

end Failures.InOrder

theorem exists_path_of_mem_withinIndex {failures : Failures} {key : String} {index : Nat}
    {failure : Failure ErrorCode} (h : failure ∈ failures.withinIndex key index) :
    ∃ path, failure.path = key :: indexText index :: path := by
  simp only [Failures.withinIndex, Failures.within, List.mem_map] at h
  obtain ⟨_, ⟨inner, -, rfl⟩, rfl⟩ := h
  exact ⟨inner.path, rfl⟩

theorem exists_path_of_mem_collectField {collectPart : NodeType → Json → Failures}
    {members : Members} {field : FieldRule} {failure : Failure ErrorCode}
    (h : failure ∈ collectField collectPart members field) :
    ∃ path, failure.path = field.key :: path := by
  simp only [collectField] at h
  split at h
  · split at h
    · obtain ⟨index, item, inner, -, -, rfl⟩ := mem_collectItems h
      exact ⟨indexText index :: inner.path, rfl⟩
    · obtain rfl := List.mem_singleton.mp h
      exact ⟨[], rfl⟩
  · simp only [Failures.within, List.mem_map] at h
    obtain ⟨inner, -, rfl⟩ := h
    exact ⟨inner.path, rfl⟩

section

variable {collectPart : NodeType → Bool → Json → Failures} {type : NodeType} {resolved : Bool}

private theorem inOrder_collectReference
    (ih : ∀ type resolved node, (collectPart type resolved node).InOrder ⟨type, resolved, node⟩)
    (hvariable : type.isVariable = true) (node : Json) :
    (collectReference collectPart type node).InOrder ⟨type, false, node⟩ := by
  simp only [collectReference]
  cases href : isReference node with
  | false => exact .direct (.direct hvariable href) (ih type true node)
  | true =>
      rw [if_pos rfl]
      apply Failures.InOrder.keyed
      rintro members rfl hkeys
      have hstep := Step.of_referenceKeys hvariable hkeys
      by_cases htrue : (valueAt members referenceFlagKey).text? = some "true"
      · simp only [htrue, if_true] at hstep ⊢
        exact .within hstep (ih .integerLiteral false _)
      · simp only [htrue, if_false] at hstep ⊢
        exact .within hstep (ih type true _)

private theorem inOrder_collectUnion
    (ih : ∀ type node, (collectPart type false node).InOrder ⟨type, false, node⟩)
    {tags : List NodeType} (hrule : type.rule = .union tags)
    (hclosed : type.allowsReference resolved = false) (node : Json) :
    (collectUnion (fun part => collectPart part false) tags node).InOrder
      ⟨type, resolved, node⟩ := by
  apply Failures.InOrder.keyed
  rintro members rfl hkeys
  cases hallowed : allowedTag? tags (valueAt members tagKey).text? with
  | none => exact List.pairwise_singleton _ _
  | some tag => exact .within (.of_allowedTag? hrule hclosed hkeys hallowed) (ih tag _)

private theorem inOrder_collectField
    (ih : ∀ type node, (collectPart type false node).InOrder ⟨type, false, node⟩)
    {fields : List FieldRule} {field : FieldRule} {members : Members}
    (hrule : type.rule = .record fields) (hclosed : type.allowsReference resolved = false)
    (hkeys : HasExactKeys members (fields.map FieldRule.key)) (hfield : field ∈ fields) :
    (collectField (fun part => collectPart part false) members field).InOrder
      ⟨type, resolved, .object members⟩ := by
  simp only [collectField]
  cases hlist : field.isList with
  | false => exact .within (.of_field hrule hclosed hkeys hfield hlist) (ih field.type _)
  | true =>
      rw [if_pos rfl]
      cases hitems : (valueAt members field.key).items? with
      | none => exact List.pairwise_singleton _ _
      | some items =>
          have hvalue := Json.items?_eq_some_iff.mp hitems
          simp only [Failures.InOrder, collectItems, List.pairwise_flatMap]
          constructor
          · rintro ⟨item, index⟩ hitem
            have hplace := List.mk_mem_zipIdx_iff_getElem?.mp hitem
            exact Failures.InOrder.withinIndex
              (.of_element hrule hclosed hkeys hfield hlist hvalue hplace) (ih field.type item)
          · have hindices : (items.zipIdx.map Prod.snd).Pairwise (· < ·) := by
              rw [List.zipIdx_map_snd]
              exact List.pairwise_lt_range'
            apply List.Pairwise.imp _ (List.pairwise_map.mp hindices)
            intro earlier later hlt first hfirst second hsecond
            obtain ⟨path, hpath⟩ := exists_path_of_mem_withinIndex hfirst
            obtain ⟨path', hpath'⟩ := exists_path_of_mem_withinIndex hsecond
            rw [hpath, hpath']
            exact .elements hrule hclosed hfield hlist hlt path path'

private theorem inOrder_collectRecord
    (ih : ∀ type node, (collectPart type false node).InOrder ⟨type, false, node⟩)
    {fields : List FieldRule} (hrule : type.rule = .record fields)
    (hclosed : type.allowsReference resolved = false) (node : Json) :
    (collectRecord (fun part => collectPart part false) fields node).InOrder
      ⟨type, resolved, node⟩ := by
  apply Failures.InOrder.keyed
  rintro members rfl hkeys
  rw [Failures.InOrder, List.pairwise_flatMap]
  constructor
  · intro field hfield
    exact inOrder_collectField ih hrule hclosed hkeys hfield
  · apply List.Pairwise.imp _ (NodeType.pairwise_precedes hrule hclosed (.object members))
    intro first second hprecedes failure hfailure failure' hfailure'
    obtain ⟨path, hpath⟩ := exists_path_of_mem_collectField hfailure
    obtain ⟨path', hpath'⟩ := exists_path_of_mem_collectField hfailure'
    rw [hpath, hpath']
    exact hprecedes path path'

end

theorem inOrder_collect (allowance : Nat) (type : NodeType) (resolved : Bool) (node : Json) :
    (collect allowance type resolved node).InOrder ⟨type, resolved, node⟩ := by
  induction allowance generalizing type resolved node with
  | zero => exact List.pairwise_singleton _ _
  | succ allowance ih =>
      rw [collect_succ]
      rcases NodeType.rule_cases type resolved with
        ⟨pattern, hrule⟩ | hopen | ⟨tags, hrule, hclosed⟩ | ⟨fields, hrule, hclosed⟩
      · rw [NodeType.dispatch_primitive hrule]
        split
        · exact List.Pairwise.nil
        · exact List.pairwise_singleton _ _
      · rw [NodeType.dispatch_reference hopen]
        obtain ⟨hvariable, rfl⟩ := NodeType.allowsReference_iff.mp hopen
        exact inOrder_collectReference ih hvariable node
      · rw [NodeType.dispatch_union hrule hclosed]
        exact inOrder_collectUnion (fun type => ih type false) hrule hclosed node
      · rw [NodeType.dispatch_record hrule hclosed]
        exact inOrder_collectRecord (fun type => ih type false) hrule hclosed node

/-! ## Calls are made in order -/

structure Traced.InOrder (root : Position) (traced : Traced Unit) : Prop where
  visits : traced.visits.Pairwise fun first second => AtOrBefore root first.path second.path
  failure : ∀ failure, traced.verdict = .error failure →
    ∀ visit ∈ traced.visits, AtOrBefore root visit.path failure.path

def Visit.Before (root : Position) (first second : Visit) : Prop :=
  Precedes root first.path second.path ∨ first.path <+: second.path ∧ first.depth ≤ second.depth

theorem Visit.Before.inside {root next : Position} {segments : List String} {first second : Visit}
    (hstep : Step root segments next) (h : first.Before next second) :
    (first.below segments).Before root (second.below segments) := by
  rcases h with hprecedes | ⟨hbegins, hdepth⟩
  · exact .inl (.inside hstep hprecedes)
  · exact .inr ⟨(List.prefix_append_right_inj segments).mpr hbegins, hdepth⟩

/-- Calls in order, of which those at one path are made from the outside in. -/
structure Traced.InTurn (root : Position) (traced : Traced Unit) : Prop where
  visits : traced.visits.Pairwise (Visit.Before root)
  failure : ∀ failure, traced.verdict = .error failure →
    ∀ visit ∈ traced.visits, AtOrBefore root visit.path failure.path

theorem Traced.InTurn.inOrder {root : Position} {traced : Traced Unit} (h : traced.InTurn root) :
    traced.InOrder root := by
  constructor
  · apply List.Pairwise.imp _ h.visits
    intro first second hbefore
    rcases hbefore with hprecedes | ⟨hbegins, -⟩
    · exact .inr hprecedes
    · exact .inl hbegins
  · exact h.failure

theorem Checked.exists_of_within_eq_error {κ α : Type} {checked : Checked κ α} {segment : String}
    {failure : Failure κ} (h : checked.within segment = .error failure) :
    ∃ inner, checked = .error inner ∧ failure = inner.within segment := by
  cases checked with
  | ok value => cases h
  | error inner =>
      obtain rfl := Except.error.inj h
      exact ⟨inner, rfl, rfl⟩

namespace Traced.InTurn

variable {root next : Position} {traced : Traced Unit}

theorem of_visits_eq_nil (h : traced.visits = []) : traced.InTurn root := by
  constructor
  · rw [h]
    exact List.Pairwise.nil
  · intro failure hfailure visit hvisit
    rw [h] at hvisit
    cases hvisit

theorem direct (hstep : Step root [] next) (h : traced.InTurn next) : traced.InTurn root where
  visits := List.Pairwise.imp (fun horder => horder.inside hstep) h.visits
  failure failure hfailure visit hvisit := (h.failure failure hfailure visit hvisit).inside hstep

theorem within {segment : String} (hstep : Step root [segment] next) (h : traced.InTurn next) :
    (traced.within segment).InTurn root := by
  constructor
  · rw [Traced.within, List.pairwise_map]
    exact List.Pairwise.imp (fun horder => horder.inside hstep) h.visits
  · intro failure hfailure visit hvisit
    obtain ⟨inner, hinner, rfl⟩ := Checked.exists_of_within_eq_error hfailure
    obtain ⟨call, hcall, rfl⟩ := Traced.mem_visits_within hvisit
    exact (h.failure inner hinner call hcall).inside hstep

theorem withinIndex {key : String} {index : Nat} (hstep : Step root [key, indexText index] next)
    (h : traced.InTurn next) : (traced.withinIndex key index).InTurn root := by
  constructor
  · rw [Traced.withinIndex, Traced.within, Traced.within, List.map_map, List.pairwise_map]
    apply List.Pairwise.imp _ h.visits
    intro first second horder
    have hinside := horder.inside hstep
    exact hinside
  · intro failure hfailure visit hvisit
    obtain ⟨_, hmiddle, rfl⟩ := Checked.exists_of_within_eq_error hfailure
    obtain ⟨inner, hinner, rfl⟩ := Checked.exists_of_within_eq_error hmiddle
    obtain ⟨_, hcalls, rfl⟩ := Traced.mem_visits_within hvisit
    obtain ⟨call, hcall, rfl⟩ := Traced.mem_visits_within hcalls
    have hinside := (h.failure inner hinner call hcall).inside hstep
    exact hinside

theorem andThen {first second : Traced Unit} (hfirst : first.InTurn root)
    (hsecond : second.InTurn root)
    (hvisits : ∀ visit ∈ first.visits, ∀ later ∈ second.visits,
      Precedes root visit.path later.path)
    (hfailure : ∀ visit ∈ first.visits, ∀ failure, second.verdict = .error failure →
      Precedes root visit.path failure.path) :
    (first >>= fun _ => second).InTurn root := by
  obtain ⟨visits, events, verdict⟩ := first
  cases verdict with
  | error failure => exact hfirst
  | ok value =>
      constructor
      · apply List.pairwise_append.mpr
        refine ⟨hfirst.visits, hsecond.visits, ?_⟩
        intro visit hvisit later hlater
        exact .inl (hvisits visit hvisit later hlater)
      · intro failure hsecondFails visit hvisit
        rcases List.mem_append.mp hvisit with hearly | hlate
        · exact .inr (hfailure visit hearly failure hsecondFails)
        · exact hsecond.failure failure hsecondFails visit hlate

end Traced.InTurn

theorem Traced.verdict_andThen_eq_error {first second : Traced Unit} {failure : Failure Violation}
    (h : (first >>= fun _ => second).verdict = .error failure) :
    first.verdict = .error failure ∨ second.verdict = .error failure := by
  obtain ⟨visits, events, verdict⟩ := first
  cases verdict with
  | error found => exact .inl h
  | ok value => exact .inr h

private theorem exists_path_of_withinIndex_eq_error {κ α : Type} {checked : Checked κ α}
    {key : String} {index : Nat} {failure : Failure κ}
    (h : checked.withinIndex key index = .error failure) :
    ∃ path, failure.path = key :: indexText index :: path := by
  obtain ⟨_, hmiddle, rfl⟩ := Checked.exists_of_within_eq_error h
  obtain ⟨inner, -, rfl⟩ := Checked.exists_of_within_eq_error hmiddle
  exact ⟨inner.path, rfl⟩

private theorem exists_path_of_mem_visits_withinIndex {traced : Traced Unit} {key : String}
    {index : Nat} {visit : Visit} (h : visit ∈ (traced.withinIndex key index).visits) :
    ∃ path, visit.path = key :: indexText index :: path := by
  obtain ⟨_, hmiddle, rfl⟩ := Traced.mem_visits_within h
  obtain ⟨inner, -, rfl⟩ := Traced.mem_visits_within hmiddle
  exact ⟨inner.path, rfl⟩

theorem exists_path_of_traceItems_eq_error {traceItem : Json → Traced Unit} {key : String}
    {index : Nat} {items : List Json} {failure : Failure Violation}
    (h : (traceItems key traceItem index items).verdict = .error failure) :
    ∃ place path, failure.path = key :: indexText (index + place) :: path := by
  induction items generalizing index with
  | nil => cases h
  | cons item items ih =>
      rcases Traced.verdict_andThen_eq_error h with hitem | hitems
      · obtain ⟨path, hpath⟩ := exists_path_of_withinIndex_eq_error hitem
        exact ⟨0, path, hpath⟩
      · obtain ⟨place, path, hpath⟩ := ih hitems
        rw [Nat.add_assoc, Nat.add_comm 1 place] at hpath
        exact ⟨place + 1, path, hpath⟩

section

variable {tracePart : NodeType → Json → Traced Unit} {field : FieldRule} {value : Json}

private theorem exists_path_of_mem_visits_traceField {visit : Visit}
    (h : visit ∈ (traceField tracePart field value).visits) :
    ∃ path, visit.path = field.key :: path := by
  rcases mem_visits_traceField h with
    ⟨-, inner, -, rfl⟩ | ⟨-, items, -, index, item, inner, -, -, rfl⟩
  · exact ⟨inner.path, rfl⟩
  · exact ⟨indexText index :: inner.path, rfl⟩

private theorem exists_path_of_traceField_eq_error {failure : Failure Violation}
    (h : (traceField tracePart field value).verdict = .error failure) :
    ∃ path, failure.path = field.key :: path := by
  simp only [traceField] at h
  split at h
  · split at h
    · obtain ⟨place, path, hpath⟩ := exists_path_of_traceItems_eq_error h
      exact ⟨_, hpath⟩
    · obtain rfl := Except.error.inj h
      exact ⟨[], rfl⟩
  · obtain ⟨inner, -, rfl⟩ := Checked.exists_of_within_eq_error h
    exact ⟨inner.path, rfl⟩

private theorem exists_path_of_traceFields_eq_error {members : Members} {fields : List FieldRule}
    {failure : Failure Violation} (hkeys : ∀ field ∈ fields, field.key ∈ Entries.names members)
    (h : (traceFields tracePart members fields).verdict = .error failure) :
    ∃ field ∈ fields, ∃ path, failure.path = field.key :: path := by
  induction fields with
  | nil => cases h
  | cons field fields ih =>
      obtain ⟨hkey, hkeys⟩ := List.forall_mem_cons.mp hkeys
      rw [traceFields_cons hkey] at h
      rcases Traced.verdict_andThen_eq_error h with hfield | hfields
      · exact ⟨field, List.mem_cons_self, exists_path_of_traceField_eq_error hfield⟩
      · obtain ⟨other, hother, hpath⟩ := ih hkeys hfields
        exact ⟨other, List.mem_cons_of_mem field hother, hpath⟩

end

private theorem inTurn_traceItems {root : Position} {traceItem : Json → Traced Unit} {key : String}
    (hplaces : ∀ earlier later path path', earlier < later →
      Precedes root (key :: indexText earlier :: path) (key :: indexText later :: path'))
    {items : List Json} {index : Nat}
    (hitems : ∀ place item, items[place]? = some item →
      ((traceItem item).withinIndex key (index + place)).InTurn root) :
    (traceItems key traceItem index items).InTurn root := by
  induction items generalizing index with
  | nil => exact .of_visits_eq_nil rfl
  | cons item items ih =>
      apply Traced.InTurn.andThen (hitems 0 item rfl)
      · apply ih
        intro place other hplace
        rw [Nat.add_assoc, Nat.add_comm 1 place]
        exact hitems (place + 1) other hplace
      · intro visit hvisit later hlater
        obtain ⟨path, hpath⟩ := exists_path_of_mem_visits_withinIndex hvisit
        obtain ⟨place, other, inner, -, -, rfl⟩ := mem_visits_traceItems hlater
        rw [hpath]
        exact hplaces index (index + 1 + place) path inner.path (by omega)
      · intro visit hvisit failure hfailure
        obtain ⟨path, hpath⟩ := exists_path_of_mem_visits_withinIndex hvisit
        obtain ⟨place, path', hpath'⟩ := exists_path_of_traceItems_eq_error hfailure
        rw [hpath, hpath']
        exact hplaces index (index + 1 + place) path path' (by omega)

private theorem inTurn_traceFields {root : Position} {tracePart : NodeType → Json → Traced Unit}
    {members : Members} {fields : List FieldRule}
    (hkeys : ∀ field ∈ fields, field.key ∈ Entries.names members)
    (hplaces : fields.Pairwise fun first second => ∀ path path',
      Precedes root (first.key :: path) (second.key :: path'))
    (hfields : ∀ field ∈ fields,
      (traceField tracePart field (valueAt members field.key)).InTurn root) :
    (traceFields tracePart members fields).InTurn root := by
  induction fields with
  | nil => exact .of_visits_eq_nil rfl
  | cons field fields ih =>
      obtain ⟨hkey, hkeys⟩ := List.forall_mem_cons.mp hkeys
      obtain ⟨hplace, hplaces⟩ := List.pairwise_cons.mp hplaces
      obtain ⟨hfield, hfields⟩ := List.forall_mem_cons.mp hfields
      rw [traceFields_cons hkey]
      apply Traced.InTurn.andThen hfield (ih hkeys hplaces hfields)
      · intro visit hvisit later hlater
        obtain ⟨path, hpath⟩ := exists_path_of_mem_visits_traceField hvisit
        obtain ⟨other, hother, hlater⟩ := mem_visits_traceFields hkeys hlater
        obtain ⟨path', hpath'⟩ := exists_path_of_mem_visits_traceField hlater
        rw [hpath, hpath']
        exact hplace other hother path path'
      · intro visit hvisit failure hfailure
        obtain ⟨path, hpath⟩ := exists_path_of_mem_visits_traceField hvisit
        obtain ⟨other, hother, path', hpath'⟩ :=
          exists_path_of_traceFields_eq_error hkeys hfailure
        rw [hpath, hpath']
        exact hplace other hother path path'

section

variable {tracePart : NodeType → Bool → Json → Traced Unit} {type : NodeType} {resolved : Bool}

private theorem inTurn_traceReference
    (ih : ∀ type resolved node, (tracePart type resolved node).InTurn ⟨type, resolved, node⟩)
    (hvariable : type.isVariable = true) (node : Json) :
    (traceReference tracePart type node).InTurn ⟨type, false, node⟩ := by
  cases hreference : Reference.ofNode node with
  | error failure =>
      rw [traceReference_of_error 0 hreference]
      exact .of_visits_eq_nil rfl
  | ok reference =>
      rw [traceReference_of_ok hreference]
      have hstep := Step.of_reference hvariable hreference
      cases reference with
      | direct inner => exact .direct hstep (ih type true inner)
      | bound index => exact .within hstep (ih .integerLiteral false index)
      | inlined content => exact .within hstep (ih type true content)

private theorem inTurn_traceUnion
    (ih : ∀ type node, (tracePart type false node).InTurn ⟨type, false, node⟩)
    {tags : List NodeType} (hrule : type.rule = .union tags)
    (hclosed : type.allowsReference resolved = false) (node : Json) :
    (traceUnion (fun part => tracePart part false) tags node).InTurn ⟨type, resolved, node⟩ := by
  rcases Tagged.ofNode_cases node with ⟨members, rfl, hkeys, hok⟩ | ⟨reason, hfault, hfail⟩
  · simp only [traceUnion_of_ok hok, tracePayload]
    cases hallowed : allowedTag? tags (valueAt members tagKey).text? with
    | none => exact .of_visits_eq_nil rfl
    | some tag => exact .within (.of_allowedTag? hrule hclosed hkeys hallowed) (ih tag _)
  · rw [traceUnion_of_error 0 hfail]
    exact .of_visits_eq_nil rfl

private theorem inTurn_traceField
    (ih : ∀ type node, (tracePart type false node).InTurn ⟨type, false, node⟩)
    {fields : List FieldRule} {field : FieldRule} {members : Members}
    (hrule : type.rule = .record fields) (hclosed : type.allowsReference resolved = false)
    (hkeys : HasExactKeys members (fields.map FieldRule.key)) (hfield : field ∈ fields) :
    (traceField (fun part => tracePart part false) field (valueAt members field.key)).InTurn
      ⟨type, resolved, .object members⟩ := by
  simp only [traceField]
  cases hlist : field.isList with
  | false => exact .within (.of_field hrule hclosed hkeys hfield hlist) (ih field.type _)
  | true =>
      rw [if_pos rfl]
      cases hvalue : valueAt members field.key with
      | array items =>
          apply inTurn_traceItems
          · intro earlier later path path' hlt
            exact .elements hrule hclosed hfield hlist hlt path path'
          · intro place item hitem
            rw [Nat.zero_add]
            exact .withinIndex (.of_element hrule hclosed hkeys hfield hlist hvalue hitem)
              (ih field.type item)
      | _ => exact .of_visits_eq_nil rfl

private theorem inTurn_traceRecord
    (ih : ∀ type node, (tracePart type false node).InTurn ⟨type, false, node⟩)
    {fields : List FieldRule} (hrule : type.rule = .record fields)
    (hclosed : type.allowsReference resolved = false) (node : Json) :
    (traceRecord (fun part => tracePart part false) fields node).InTurn
      ⟨type, resolved, node⟩ := by
  rcases expectKeys_cases (fields.map FieldRule.key) node with
    ⟨members, rfl, hkeys, hok⟩ | ⟨reason, hfault, hfail⟩
  · rw [traceRecord_of_ok hok]
    apply inTurn_traceFields
    · intro field hfield
      exact (hkeys field.key).mpr (List.mem_map_of_mem hfield)
    · exact NodeType.pairwise_precedes hrule hclosed (.object members)
    · intro field hfield
      exact inTurn_traceField ih hrule hclosed hkeys hfield
  · rw [traceRecord_of_error 0 hfail]
    exact .of_visits_eq_nil rfl

end

private theorem inTurn_traceRule {tracePart : NodeType → Bool → Json → Traced Unit}
    (ih : ∀ type resolved node, (tracePart type resolved node).InTurn ⟨type, resolved, node⟩)
    (type : NodeType) (resolved : Bool) (node : Json) :
    (traceRule tracePart type resolved node).InTurn ⟨type, resolved, node⟩ := by
  rw [traceRule]
  rcases NodeType.rule_cases type resolved with
    ⟨pattern, hrule⟩ | hopen | ⟨tags, hrule, hclosed⟩ | ⟨fields, hrule, hclosed⟩
  · rw [NodeType.dispatch_primitive hrule, tracePrimitive_eq 0]
    exact .of_visits_eq_nil rfl
  · rw [NodeType.dispatch_reference hopen]
    obtain ⟨hvariable, rfl⟩ := NodeType.allowsReference_iff.mp hopen
    exact inTurn_traceReference ih hvariable node
  · rw [NodeType.dispatch_union hrule hclosed]
    exact inTurn_traceUnion (fun type => ih type false) hrule hclosed node
  · rw [NodeType.dispatch_record hrule hclosed]
    exact inTurn_traceRecord (fun type => ih type false) hrule hclosed node

theorem inTurn_trace (allowance depth : Nat) (type : NodeType) (resolved : Bool) (node : Json) :
    (trace allowance depth type resolved node).InTurn ⟨type, resolved, node⟩ := by
  induction allowance generalizing depth type resolved node with
  | zero =>
      constructor
      · exact List.pairwise_singleton _ _
      · intro failure _ visit hvisit
        obtain rfl := List.mem_singleton.mp hvisit
        exact .inl List.nil_prefix
  | succ allowance ih =>
      have hparts := inTurn_traceRule (ih (depth + 1)) type resolved node
      constructor
      · rw [visits_trace_succ, List.pairwise_cons]
        refine ⟨?_, hparts.visits⟩
        intro visit hvisit
        have hcall : visit ∈ (trace (allowance + 1) depth type resolved node).visits :=
          List.mem_cons_of_mem _ hvisit
        obtain ⟨steps, -, hdepth⟩ := @reaches_of_mem_trace _ _ ⟨type, resolved, node⟩ _ hcall
        right
        constructor
        · exact List.nil_prefix
        · rw [hdepth]
          exact Nat.le_add_right depth steps
      · intro failure hfailure visit hvisit
        rw [visits_trace_succ] at hvisit
        rcases List.mem_cons.mp hvisit with rfl | hinner
        · exact .inl List.nil_prefix
        · exact hparts.failure failure hfailure visit hinner

theorem inOrder_trace (allowance depth : Nat) (type : NodeType) (resolved : Bool) (node : Json) :
    (trace allowance depth type resolved node).InOrder ⟨type, resolved, node⟩ :=
  (inTurn_trace allowance depth type resolved node).inOrder

end TreeSyntax
