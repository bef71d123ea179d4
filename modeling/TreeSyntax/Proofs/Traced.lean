import TreeSyntax.Proofs.Exhaustive
import TreeSyntax.Proofs.Position

/-!
# Runs that are traced

Besides its verdict a traced run tells two things about the way there: the calls that it makes, and
the events that it logs.  Each place where a node can fail logs its own event and then fails, while
the look-up of a member fails without a word.  Here is what such runs do, and that the look-ups log
the events which belong to their violations.
-/

namespace TreeSyntax

/-! ## Traced runs -/

structure Visit where
  path : List String
  position : Position
  depth : Nat

def Visit.below (segments : List String) (visit : Visit) : Visit :=
  { visit with path := segments ++ visit.path }

namespace Visit

variable (segments : List String) (visit : Visit)

@[simp] theorem path_below : (visit.below segments).path = segments ++ visit.path := rfl

@[simp] theorem position_below : (visit.below segments).position = visit.position := rfl

@[simp] theorem depth_below : (visit.below segments).depth = visit.depth := rfl

end Visit

structure Traced (α : Type) where
  visits : List Visit
  events : List Event
  verdict : Checked Violation α

namespace Traced

variable {α β : Type}

/-- What comes after a failure is not run: it makes no calls and logs nothing. -/
def andThen (first : Traced α) (next : α → Traced β) : Traced β :=
  match first.verdict with
  | .error failure => ⟨first.visits, first.events, .error failure⟩
  | .ok value =>
      ⟨first.visits ++ (next value).visits, first.events ++ (next value).events,
        (next value).verdict⟩

instance : Monad Traced where
  pure value := ⟨[], [], .ok value⟩
  bind := andThen

def call (position : Position) (depth : Nat) : Traced Unit :=
  ⟨[⟨[], position, depth⟩], [], .ok ()⟩

def tell (message : String) (details : Entries Detail) : Traced Unit :=
  ⟨[], [⟨.trace, message, details⟩], .ok ()⟩

def fail (violation : Violation) : Traced α := ⟨[], [], Checked.fail violation⟩

def within (segment : String) (traced : Traced α) : Traced α :=
  { traced with
    visits := traced.visits.map (Visit.below [segment])
    verdict := traced.verdict.within segment }

def withinIndex (key : String) (index : Nat) (traced : Traced α) : Traced α :=
  (traced.within (indexText index)).within key

def outcome (traced : Traced Unit) : Outcome :=
  .ofVerdict (traced.verdict.mapReason Violation.code)

/-- The run that makes no call and logs the event of the violation, if there is one. -/
def ofChecked (limit : Nat) (checked : Checked Violation α) : Traced α :=
  ⟨[], checked.events limit, checked⟩

end Traced

/-! ## Look-ups -/

def traceText (pattern : Pattern) (expected : String) (node : Json) : Traced String :=
  if pattern.accepts node.plainText then return node.plainText
  else do
    .tell "primitive mismatch" [("expected", .text expected), ("token", .text node.compact)]
    .fail (.primitiveMismatch expected node)

def traceKeys (expected : List String) : Json → Traced Members
  | .object members =>
      match expected.find? fun key => !Entries.has members key with
      | some missing => do
          .tell "missing key" [("key", .text missing)]
          .fail (.missingKey missing)
      | none =>
          match (Entries.names members).find? fun key => !expected.contains key with
          | some extra => do
              .tell "extra key" [("key", .text extra)]
              .fail (.extraKey extra)
          | none => return members
  | node => do
      .tell "expected an object" [("token", .text node.compact)]
      .fail (.notAnObject node)

def traceMember (members : Members) (key : String) : Traced Json :=
  match Entries.find? members key with
  | some value => return value
  | none => .fail (.missingKey key)

def traceReferenceOf (node : Json) : Traced Reference :=
  if isReference node then do
    let members ← traceKeys [referenceFlagKey, referenceKey] node
    let flag ← traceMember members referenceFlagKey
    let content ← traceMember members referenceKey
    if flag.text? = some "true" then return .bound content else return .inlined content
  else return .direct node

def traceTaggedOf (node : Json) : Traced Tagged := do
  let members ← traceKeys [tagKey, payloadKey] node
  let tag ← traceMember members tagKey
  let payload ← traceMember members payloadKey
  return ⟨tag.text?, payload⟩

/-! ## Checks as traced runs -/

namespace Traced

variable {α β : Type} {limit : Nat}

@[simp] theorem ok_bind (value : α) (next : α → Traced β) :
    (return value : Traced α) >>= next = next value := rfl

@[simp] theorem ofChecked_ok (value : α) : ofChecked limit (.ok value) = return value := rfl

@[simp] theorem ofChecked_error_bind (failure : Failure Violation) (next : α → Traced β) :
    ofChecked limit (.error failure) >>= next = ofChecked limit (.error failure) := rfl

theorem ofChecked_bind (checked : Checked Violation α) (next : α → Checked Violation β) :
    ofChecked limit (checked >>= next) =
      ofChecked limit checked >>= fun value => ofChecked limit (next value) := by
  cases checked <;> rfl

end Traced

section

variable (limit : Nat)

open Traced

theorem traceText_eq (pattern : Pattern) (expected : String) (node : Json) :
    traceText pattern expected node = ofChecked limit (pattern.read expected node) := by
  rw [traceText, Pattern.read]
  split <;> rfl

theorem traceKeys_eq (expected : List String) (node : Json) :
    traceKeys expected node = ofChecked limit (expectKeys expected node) := by
  cases node with
  | object members =>
      rw [traceKeys, expectKeys]
      cases expected.find? fun key => !Entries.has members key with
      | some missing => rfl
      | none =>
          cases (Entries.names members).find? fun key => !expected.contains key with
          | some extra => rfl
          | none => rfl
  | _ => rfl

/-- A member that is there is found without a word either way. -/
theorem traceMember_eq {members : Members} {key : String} (h : key ∈ Entries.names members) :
    traceMember members key = return valueAt members key := by
  rw [traceMember, find?_eq_valueAt h]

theorem traceReferenceOf_eq (node : Json) :
    traceReferenceOf node = ofChecked limit (Reference.ofNode node) := by
  cases href : isReference node with
  | false =>
      rw [Reference.ofNode_of_not_isReference href]
      simp only [traceReferenceOf, href]
      rfl
  | true =>
      simp only [traceReferenceOf, Reference.ofNode, href, if_true, ofChecked_bind,
        traceKeys_eq limit]
      rcases expectKeys_cases [referenceFlagKey, referenceKey] node with
        ⟨members, rfl, hkeys, hok⟩ | ⟨reason, -, hfail⟩
      · have hflag := (hkeys referenceFlagKey).mpr (by decide)
        have hcontent := (hkeys referenceKey).mpr (by decide)
        simp only [hok, ofChecked_ok, ok_bind, traceMember_eq hflag, traceMember_eq hcontent,
          member_eq_ok hflag, member_eq_ok hcontent]
        split <;> rfl
      · rw [hfail]
        rfl

theorem traceTaggedOf_eq (node : Json) :
    traceTaggedOf node = ofChecked limit (Tagged.ofNode node) := by
  simp only [traceTaggedOf, Tagged.ofNode, ofChecked_bind, traceKeys_eq limit]
  rcases expectKeys_cases [tagKey, payloadKey] node with
    ⟨members, rfl, hkeys, hok⟩ | ⟨reason, -, hfail⟩
  · have htag := (hkeys tagKey).mpr (by decide)
    have hpayload := (hkeys payloadKey).mpr (by decide)
    simp only [hok, ofChecked_ok, ok_bind, traceMember_eq htag, traceMember_eq hpayload,
      member_eq_ok htag, member_eq_ok hpayload]
    rfl
  · rw [hfail]
    rfl

end

end TreeSyntax
