import Mathlib.Data.List.Basic
import TreeSyntax.CommandLine.Check

/-!
# Files read after they are written

A written file reads back as its content.  A write takes no name and no folder away, so the walk
to the folder of the file still goes as it went before, and then finds the new node.  Nothing is
known of what lies outside the working folder, and so nothing written there can be read.
-/

namespace TreeSyntax.FileTree

variable {tree changed : FileTree}

/-! ## Nodes put into a tree -/

theorem lookup_putNode (place : Place) (node : FileNode) (nodes : List (Place × FileNode))
    (other : Place) :
    (putNode place node nodes).lookup other =
      if other = place then some node else nodes.lookup other := by
  induction nodes with
  | nil =>
      rw [putNode, List.lookup_cons]
      by_cases hsame : other = place
      · rw [if_pos hsame, beq_iff_eq.2 hsame]
      · rw [if_neg hsame, beq_eq_false_iff_ne.2 hsame]
  | cons entry nodes ih =>
      obtain ⟨known, old⟩ := entry
      rw [putNode]
      by_cases hknown : known = place
      · subst hknown
        rw [if_pos rfl, List.lookup_cons, List.lookup_cons]
        by_cases hsame : other = known
        · rw [if_pos hsame, beq_iff_eq.2 hsame]
        · rw [if_neg hsame, beq_eq_false_iff_ne.2 hsame]
      · rw [if_neg hknown, List.lookup_cons, List.lookup_cons, ih]
        by_cases hother : other = known
        · subst hother
          rw [beq_self_eq_true]
          exact (if_neg hknown).symm
        · rw [beq_eq_false_iff_ne.2 hother]

theorem node?_put {place : Place} (hplace : place ≠ []) (node : FileNode) (other : Place) :
    (tree.put place node).node? other = if other = place then some node else tree.node? other := by
  cases other with
  | nil => simp [node?, hplace.symm]
  | cons name rest => simp [node?, put, lookup_putNode]

/-! ## Looking names up -/

theorem lookUp_inside (name : String) (place : Place) :
    tree.lookUp name (.inside place) =
      if greatestNameSize < name.utf8ByteSize then .error .nameTooLong
      else if (tree.node? (place ++ [name])).isSome then .ok (.inside (place ++ [name]))
      else .error .notFound := by
  rw [lookUp, child?]
  by_cases hname : (tree.node? (place ++ [name])).isSome <;> simp [hname]

theorem lookUp_outside_ne_ok (name : String) (next : Spot) :
    tree.lookUp name .outside ≠ .ok next := by
  rw [lookUp]
  split <;> nofun

theorem lookUp_eq_ok {name : String} {spot next : Spot} (h : tree.lookUp name spot = .ok next) :
    name.utf8ByteSize ≤ greatestNameSize ∧
      ∃ place, spot = .inside place ∧ next = .inside (place ++ [name]) := by
  cases spot with
  | outside => exact absurd h (lookUp_outside_ne_ok name next)
  | inside place =>
      rw [lookUp_inside] at h
      split at h
      · cases h
      · next hshort =>
          split at h
          · cases h
            exact ⟨Nat.le_of_not_lt hshort, place, rfl, rfl⟩
          · cases h

theorem lookUp_eq_notFound {name : String} {spot : Spot}
    (h : tree.lookUp name spot = .error .notFound) :
    name.utf8ByteSize ≤ greatestNameSize ∧
      ∀ place, spot = .inside place → tree.node? (place ++ [name]) = none := by
  by_cases hlong : greatestNameSize < name.utf8ByteSize
  · simp [lookUp, hlong] at h
  · refine ⟨Nat.le_of_not_lt hlong, ?_⟩
    rintro place rfl
    rw [lookUp_inside, if_neg hlong] at h
    split at h
    · cases h
    · next hnode => simpa using hnode

/-! ## Growing trees -/

/-- Every name of a tree is in another, and every folder is still a folder. -/
structure GrowsTo (tree changed : FileTree) : Prop where
  names : ∀ place, (tree.node? place).isSome → (changed.node? place).isSome
  folders : ∀ place, tree.node? place = some .folder → changed.node? place = some .folder

theorem growsTo_put {place : Place} (node : FileNode) (hplace : place ≠ [])
    (hnew : tree.node? place ≠ some .folder) : GrowsTo tree (tree.put place node) where
  names other hother := by
    rw [node?_put hplace]
    split
    · rfl
    · exact hother
  folders other hother := by
    have hother' : other ≠ place := fun hsame => hnew (hsame ▸ hother)
    rw [node?_put hplace, if_neg hother', hother]

theorem GrowsTo.isFolderAt (h : GrowsTo tree changed) {spot : Spot}
    (hfolder : tree.isFolderAt spot = true) : changed.isFolderAt spot = true := by
  cases spot with
  | outside => rfl
  | inside place =>
      exact decide_eq_true (h.folders place (of_decide_eq_true hfolder))

theorem GrowsTo.lookUp (h : GrowsTo tree changed) {name : String} {spot next : Spot}
    (hnext : tree.lookUp name spot = .ok next) : changed.lookUp name spot = .ok next := by
  cases spot with
  | outside => exact absurd hnext (lookUp_outside_ne_ok name next)
  | inside place =>
      rw [lookUp_inside] at hnext ⊢
      split at hnext
      · cases hnext
      · next hshort =>
          split at hnext
          · next hname =>
              rw [if_neg hshort, if_pos (h.names _ hname)]
              exact hnext
          · cases hnext

theorem GrowsTo.walkFrom (h : GrowsTo tree changed) {segments : List String} {spot next : Spot}
    (hwalk : tree.walkFrom spot segments = .ok next) :
    changed.walkFrom spot segments = .ok next := by
  induction segments generalizing spot with
  | nil => exact hwalk
  | cons segment segments ih =>
      by_cases hfolder : tree.isFolderAt spot = true
      · rw [FileTree.walkFrom, if_pos hfolder] at hwalk
        rw [FileTree.walkFrom, if_pos (h.isFolderAt hfolder)]
        by_cases hfiller : PathText.isFiller segment = true
        · rw [if_pos hfiller] at hwalk ⊢
          exact ih hwalk
        · rw [if_neg hfiller] at hwalk ⊢
          by_cases hup : segment = ".."
          · rw [if_pos hup] at hwalk ⊢
            exact ih hwalk
          · rw [if_neg hup] at hwalk ⊢
            cases hfound : tree.lookUp segment spot with
            | error error => simp [hfound] at hwalk
            | ok found =>
                rw [hfound] at hwalk
                rw [h.lookUp hfound]
                exact ih hwalk
      · simp [FileTree.walkFrom, hfolder] at hwalk

/-! ## Walks in two parts -/

theorem walkFrom_append (spot : Spot) (first second : List String) :
    tree.walkFrom spot (first ++ second) =
      (tree.walkFrom spot first).bind fun next => tree.walkFrom next second := by
  induction first generalizing spot with
  | nil => rfl
  | cons segment first ih =>
      simp only [List.cons_append, walkFrom, ih]
      split
      · split
        · rfl
        · split
          · rfl
          · split <;> rfl
      · rfl

theorem walkFrom_name {spot next : Spot} {name : String} (hfolder : tree.isFolderAt spot = true)
    (hfiller : PathText.isFiller name = false) (hup : name ≠ "..")
    (hnext : tree.lookUp name spot = .ok next) : tree.walkFrom spot [name] = .ok next := by
  simp [walkFrom, hfolder, hfiller, hup, hnext]

/-! ## Writing -/

def LeadsOutside (tree : FileTree) (path : String) : Prop :=
  tree.parentSpot (PathText.ofText path).start (PathText.ofText path).segments = .ok .outside

structure WritesAt (tree : FileTree) (path : String) (before : List String) (last : String)
    (spot : Spot) : Prop where
  noError : pathError? path = none
  segments : (PathText.ofText path).segments = before ++ [last]
  walked : tree.walkFrom (startSpot (PathText.ofText path).start) before = .ok spot
  isFolder : tree.isFolderAt spot = true
  notFiller : PathText.isFiller last = false
  notUp : last ≠ ".."
  short : last.utf8ByteSize ≤ greatestNameSize
  noFolder : ∀ place, spot = .inside place → tree.node? (place ++ [last]) ≠ some .folder

theorem exists_getLast?_withoutTrailing {drop : String → Bool} {segments : List String}
    {last : String} (h : (PathText.withoutTrailing drop segments).getLast? = some last) :
    ∃ before dropped, drop last = false ∧
      PathText.withoutTrailing drop segments = before ++ [last] ∧
      segments = before ++ [last] ++ dropped := by
  obtain ⟨before, hkept⟩ := List.getLast?_eq_some_iff.1 h
  refine ⟨before, (segments.reverse.takeWhile drop).reverse, ?_, hkept, ?_⟩
  · have hhead : (segments.reverse.dropWhile drop).head? = some last := by
      rw [← List.getLast?_reverse]
      exact h
    have hnot := List.head?_dropWhile_not drop segments.reverse
    rw [hhead] at hnot
    simpa using hnot
  · rw [← hkept, PathText.withoutTrailing, ← List.reverse_append, List.takeWhile_append_dropWhile,
      List.reverse_reverse]

theorem parentSpot_eq_ok_iff {start : PathStart} {segments : List String} {spot : Spot} :
    tree.parentSpot start segments = .ok spot ↔
      tree.walkFrom (startSpot start) segments.dropLast = .ok spot ∧
        tree.isFolderAt spot = true := by
  rw [parentSpot]
  cases tree.walkFrom (startSpot start) segments.dropLast with
  | error error => simp
  | ok found =>
      by_cases hfolder : tree.isFolderAt found = true
      · simp only [hfolder, if_true, Except.ok.injEq]
        constructor
        · rintro rfl
          exact ⟨rfl, hfolder⟩
        · exact And.left
      · simp only [hfolder, Except.ok.injEq]
        constructor
        · simp
        · rintro ⟨rfl, h⟩
          exact absurd h hfolder

theorem named_of_write {name : String} {spot : Spot} {node : FileNode}
    (h : (match tree.lookUp name spot with
      | .ok next =>
          if tree.isFolderAt next then .error .isAFolder else .ok (tree.putIn spot name node)
      | .error .notFound => .ok (tree.putIn spot name node)
      | .error error => .error error) = Except.ok changed) :
    name.utf8ByteSize ≤ greatestNameSize ∧
      (∀ place, spot = .inside place → tree.node? (place ++ [name]) ≠ some .folder) ∧
      changed = tree.putIn spot name node := by
  split at h
  · next next hfound =>
      obtain ⟨hshort, place, rfl, rfl⟩ := lookUp_eq_ok hfound
      split at h
      · cases h
      · next hnoFolder =>
          cases h
          refine ⟨hshort, ?_, rfl⟩
          rintro _ ⟨⟩ hnode
          exact hnoFolder (decide_eq_true hnode)
  · next hmissing =>
      obtain ⟨hshort, hnone⟩ := lookUp_eq_notFound hmissing
      cases h
      refine ⟨hshort, fun place hplace => ?_, rfl⟩
      rw [hnone place hplace]
      nofun
  · cases h

theorem exists_of_write {path content : String} (h : tree.write path content = .ok changed) :
    ∃ before last spot, WritesAt tree path before last spot ∧
      changed = tree.putIn spot last (.file content.toUTF8) := by
  rw [write] at h
  cases hpath : pathError? path with
  | some error => simp [hpath] at h
  | none =>
      cases hlast :
          (PathText.withoutTrailing (· == "") (PathText.ofText path).segments).getLast? with
      | none => simp [hpath, hlast] at h
      | some last =>
          obtain ⟨before, dropped, hname, hkept, hall⟩ := exists_getLast?_withoutTrailing hlast
          simp only [hpath, hlast] at h
          rw [hkept] at h
          split at h
          · cases h
          · next spot hspot =>
              obtain ⟨hwalk, hfolder⟩ := parentSpot_eq_ok_iff.1 hspot
              rw [List.dropLast_concat] at hwalk
              split at h
              · cases h
              · next hwhole =>
                  simp only [Bool.or_eq_true, not_or, decide_eq_true_eq, Nat.not_lt] at hwhole
                  obtain ⟨hdots, hlength⟩ := hwhole
                  -- A path that ends in a slash names no file, so nothing was dropped.
                  have hdropped : dropped = [] := by
                    rw [hall, List.length_append] at hlength
                    exact List.eq_nil_of_length_eq_zero (by omega)
                  rw [hdropped, List.append_nil] at hall
                  simp only [isDots, Bool.or_eq_true, beq_iff_eq, not_or] at hdots
                  have hfiller : PathText.isFiller last = false := by
                    simpa [PathText.isFiller, hdots.1] using hname
                  obtain ⟨hshort, hnoFolder, rfl⟩ := named_of_write h
                  exact ⟨before, last, spot, ⟨hpath, hall, hwalk, hfolder, hfiller, hdots.2, hshort,
                    hnoFolder⟩, rfl⟩

theorem fromUTF8?_toUTF8 (text : String) : String.fromUTF8? text.toUTF8 = some text := by
  rw [String.fromUTF8?, String.toUTF8_eq_toByteArray, dif_pos text.isValidUTF8]
  rfl

theorem read_of_write {path content : String} (h : tree.write path content = .ok changed) :
    changed.read path = .ok content ∨ changed.LeadsOutside path := by
  obtain ⟨before, last, spot, hat, rfl⟩ := exists_of_write h
  cases spot with
  | outside =>
      refine .inr (parentSpot_eq_ok_iff.2 ⟨?_, rfl⟩)
      rw [hat.segments, List.dropLast_concat]
      exact hat.walked
  | inside place =>
      left
      have hplace : place ++ [last] ≠ [] := by simp
      have hgrows := growsTo_put (.file content.toUTF8) hplace (hat.noFolder place rfl)
      have hfile : (tree.put (place ++ [last]) (.file content.toUTF8)).node? (place ++ [last]) =
          some (.file content.toUTF8) := by
        rw [node?_put hplace, if_pos rfl]
      have hfound : (tree.put (place ++ [last]) (.file content.toUTF8)).lookUp last
          (.inside place) = .ok (.inside (place ++ [last])) := by
        rw [lookUp_inside, if_neg (Nat.not_lt.2 hat.short), hfile]
        rfl
      have hwalk : (tree.putIn (.inside place) last (.file content.toUTF8)).walk path =
          .ok (.inside (place ++ [last])) := by
        simp only [walk, hat.noError, putIn]
        rw [hat.segments, walkFrom_append, hgrows.walkFrom hat.walked]
        exact walkFrom_name (hgrows.isFolderAt hat.isFolder) hat.notFiller hat.notUp hfound
      simp only [read, hwalk]
      rw [nodeAt?, putIn, hfile]
      simp only [fromUTF8?_toUTF8]

end TreeSyntax.FileTree

namespace TreeSyntax.CommandLine

/-- What a run wrote reads back from the files that it leaves. -/
theorem read_writeOut {files : FileTree} {path content : String}
    (h : (writeOut files path content).2 = .ok ()) :
    (writeOut files path content).1.read path = .ok content ∨
      (writeOut files path content).1.LeadsOutside path := by
  rw [writeOut] at h ⊢
  cases hsurrounded : makeSurroundings files path with
  | error error => simp [hsurrounded] at h
  | ok surrounded =>
      cases hwritten : surrounded.write path content with
      | error error => simp [hsurrounded, hwritten] at h
      | ok written => simpa only [hwritten] using FileTree.read_of_write hwritten

end TreeSyntax.CommandLine
