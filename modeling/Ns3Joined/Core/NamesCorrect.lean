import Mathlib
import Ns3Joined.Core.Names
import Ns3Joined.Library.ExceptFold
import Ns3Joined.Library.TracedRun

/-!
# The names of objects are a tree

* `IsTree`: the invariant; each node but the root is older than its children, stands in the map of
  its parent under its name, and in the map of objects under its object.
* `expected`: what an operation is to do, by the node that its place is under. It does not depend on
  how the place is given.
* `Right`: after an operation there is a tree, every named object is found by its path, and the
  operation has done what is expected.
* `Fits`: the condition; the place is under a node. If it is not, a path is taken for one that is
  under the root, since `Find` returns for it what stands for the root.
* `throughout_treeRight_iff`: over runs.
* `not_throughout_unresolved`: a name under a path that does not exist.
-/

namespace Ns3Joined.Core.Names

open List NamesPriv
open Option (bind_some some)
open KeyedTable (erase find_insert insert)

variable {Object : Type} {s : NamesPriv Object} {node : ℕ} {name : Name} {object : Object}

/-! ### Strings -/

/-- What is behind a separator. -/
theorem drop_length_succ (x y : Str) (c : Char) : (x ++ c :: y).drop (x.length + 1) = y := by
  rw [← drop_drop, drop_left]
  rfl

theorem find_of_notMem {c : Char} {x : Str} (h : c ∉ x) : find c x = none := by
  rw [find, findIdx?_eq_none_iff]
  intro y hy
  exact decide_eq_false fun heq => h (heq ▸ hy)

/-- `find` stops at the first separator. -/
theorem find_append {c : Char} {x : Str} (h : c ∉ x) (y : Str) :
    find c (x ++ c :: y) = some x.length := by
  induction x with
  | nil =>
    rw [find, nil_append, findIdx?_cons, decide_eq_true rfl]
    rfl
  | cons z x ih =>
    obtain ⟨hz, hx⟩ := not_or.mp (fun hor => h (mem_cons.mpr hor))
    have := ih hx
    unfold find at this ⊢
    rw [cons_append, findIdx?_cons, decide_eq_false (Ne.symm hz), this]
    rfl

theorem rfind_of_notMem {c : Char} {x : Str} (h : c ∉ x) : rfind c x = none := by
  induction x with
  | nil => rfl
  | cons z x ih =>
    obtain ⟨hz, hx⟩ := not_or.mp (fun hor => h (mem_cons.mpr hor))
    rw [rfind, ih hx]
    exact if_neg (Ne.symm hz)

/-- `rfind` stops at the last separator. -/
theorem rfind_append {c : Char} {y : Str} (h : c ∉ y) (x : Str) :
    rfind c (x ++ c :: y) = some x.length := by
  induction x with
  | nil =>
    rw [nil_append, rfind, rfind_of_notMem h]
    exact if_pos rfl
  | cons z x ih => rw [cons_append, rfind, ih, length_cons]

/-- The absolute name of a child. -/
theorem absoluteString_append (parent : List Name) (name : Name) :
    absoluteString (parent ++ [name]) = absoluteString parent ++ '/' :: name.1 := by
  simp [absoluteString, slashed]

/-- The absolute name of a child is split at the last separator. -/
theorem splitName_absolute (parent : List Name) (name : Name) :
    splitName (absoluteString (parent ++ [name])) = .ok (absoluteString parent, name.1) := by
  have hpre : namespaceName.isPrefixOf (absoluteString (parent ++ [name])) = true :=
    isPrefixOf_iff_prefix.mpr (prefix_append _ _)
  have hpos : (absoluteString parent).length ≠ 0 := by simp [absoluteString, namespaceName]
  rw [splitName, if_pos hpre, absoluteString_append]
  rw [pure_bind]
  dsimp only
  rw [rfind_append name.2]
  dsimp only
  rw [if_neg hpos, take_left, drop_length_succ]

namespace RelativePath

variable (path : RelativePath)

theorem head_string : path.string.head? ≠ some '/' := by
  unfold string
  cases hfirst : path.first.1 with
  | nil =>
    rw [path.not_rooted hfirst]
    exact nofun
  | cons c cs =>
    intro heq
    obtain rfl : c = '/' := some.inj heq
    exact path.first.2 (hfirst ▸ mem_cons_self)

/-- It is not taken for an absolute path. -/
theorem not_isPrefixOf (x : Str) : ('/' :: x).isPrefixOf path.string = false := by
  have hhead := path.head_string
  cases hstring : path.string with
  | nil => rfl
  | cons c cs =>
    rw [hstring] at hhead
    have hne : '/' ≠ c := fun heq => hhead (congrArg some heq.symm)
    simp [isPrefixOf, hne]

theorem string_ne : path.string ≠ namespaceName := by
  intro heq
  apply path.head_string
  rw [heq]
  rfl

/-- A relative path is taken from the root of all names. -/
theorem absoluteString_segments :
    absoluteString path.segments = namespaceName ++ ['/'] ++ path.string := by
  simp [absoluteString, slashed, segments, string]

theorem segments_ne_nil : path.segments ≠ [] := cons_ne_nil _ _

/-- A relative path is split at its last segment. -/
theorem splitName_string :
    splitName path.string = .ok (absoluteString path.segments.dropLast,
      (path.segments.getLast path.segments_ne_nil).1) := by
  have hsplit := splitName_absolute path.segments.dropLast
    (path.segments.getLast path.segments_ne_nil)
  rw [dropLast_append_getLast, absoluteString_segments] at hsplit
  rw [← hsplit, splitName, splitName]
  have hpre : namespaceName.isPrefixOf path.string = false := path.not_isPrefixOf _
  have hslash : ['/'].isPrefixOf path.string = false := path.not_isPrefixOf _
  have habsolute : namespaceName.isPrefixOf (namespaceName ++ ['/'] ++ path.string) = true := by
    rw [append_assoc]
    exact isPrefixOf_iff_prefix.mpr (prefix_append _ _)
  rw [hpre, hslash, habsolute]
  rfl

end RelativePath

/-! ### Walking down the tree -/

/-- The node at the end of a path. -/
def walk (s : NamesPriv Object) : ℕ → List Name → Option ℕ
  | node, [] => some node
  | node, name :: names => (s.child node name.1).bind fun i => walk s i names

/-- The last step of a walk. -/
theorem walk_append (node : ℕ) (names : List Name) (name : Name) :
    walk s node (names ++ [name]) = (walk s node names).bind fun i => s.child i name.1 := by
  induction names generalizing node with
  | nil => simp [walk]
  | cons n names ih =>
    rw [cons_append, walk, walk]
    cases s.child node n.1 with
    | none => rfl
    | some i => exact ih i

/-- The object of the node at the end of a path. -/
def objectAt (s : NamesPriv Object) (node : ℕ) (names : List Name) : Option Object :=
  (walk s node names).bind fun i => (s.heap i).m_object

/-- Each turn of the loop goes one name down. -/
theorem findLoop_eq (node : ℕ) (first : Name) (rest : List Name) {fuel : ℕ}
    (hfuel : (first.1 ++ slashed rest).length < fuel) :
    s.findLoop fuel node (first.1 ++ slashed rest) = .ok (objectAt s node (first :: rest)) := by
  induction rest generalizing node first fuel with
  | nil =>
    obtain ⟨fuel, rfl⟩ := Nat.exists_eq_add_one_of_ne_zero (Nat.ne_zero_of_lt hfuel)
    rw [slashed, flatMap_nil, append_nil, findLoop, find_of_notMem first.2, objectAt, walk]
    cases hchild : s.child node first.1 with
    | none => rfl
    | some i => rfl
  | cons name rest ih =>
    obtain ⟨fuel, rfl⟩ := Nat.exists_eq_add_one_of_ne_zero (Nat.ne_zero_of_lt hfuel)
    have hslashed : slashed (name :: rest) = '/' :: (name.1 ++ slashed rest) := by simp [slashed]
    rw [hslashed] at hfuel ⊢
    rw [findLoop, find_append first.2, objectAt, walk]
    dsimp only
    rw [take_left]
    cases hchild : s.child node first.1 with
    | none => rfl
    | some i =>
      dsimp only
      rw [drop_length_succ]
      refine ih i name ?_
      simp only [length_append, length_cons] at hfuel ⊢
      omega

/-- `Find` with an absolute path walks from the root. -/
theorem Find_absolute (first : Name) (rest : List Name) :
    s.Find (absoluteString (first :: rest)) = .ok (objectAt s 0 (first :: rest)) := by
  have hstring : absoluteString (first :: rest) =
      (namespaceName ++ ['/']) ++ (first.1 ++ slashed rest) := by simp [absoluteString, slashed]
  have hpre : (namespaceName ++ ['/']).isPrefixOf (absoluteString (first :: rest)) = true := by
    rw [hstring]
    exact isPrefixOf_iff_prefix.mpr (prefix_append _ _)
  rw [Find, if_pos hpre, hstring, drop_left]
  exact findLoop_eq 0 first rest (Nat.lt_succ_self _)

/-- So does `Find` with a relative one. -/
theorem Find_relative (path : RelativePath) :
    s.Find path.string = .ok (objectAt s 0 path.segments) := by
  have hpre : (namespaceName ++ ['/']).isPrefixOf path.string = false := path.not_isPrefixOf _
  rw [Find, hpre]
  exact findLoop_eq 0 path.first path.rest (Nat.lt_succ_self _)

/-! ### The tree -/

variable [DecidableEq Object]

structure IsTree (s : NamesPriv Object) : Prop where
  root : (s.heap 0).m_parent = none ∧ (s.heap 0).m_object = none ∧
    '/' :: (s.heap 0).m_name = namespaceName
  next : 0 < s.next
  parent : ∀ q, 0 < q → q < s.next → ∃ p, (s.heap q).m_parent = some p ∧ p < q ∧
    s.child p (s.heap q).m_name = some q
  child : ∀ p, p < s.next → ∀ name q, s.child p name = some q →
    0 < q ∧ q < s.next ∧ (s.heap q).m_parent = some p ∧ (s.heap q).m_name = name
  object : ∀ q, 0 < q → q < s.next → ∃ object, (s.heap q).m_object = some object ∧
    s.IsNamed object = some q
  named : ∀ object q, s.IsNamed object = some q →
    0 < q ∧ q < s.next ∧ (s.heap q).m_object = some object
  slash : ∀ q, 0 < q → q < s.next → '/' ∉ (s.heap q).m_name
  distinct : ∀ p, p < s.next → KeyedTable.Distinct Prod.fst (s.heap p).m_nameMap

/-- The node that a place is under. -/
def Place.parent (s : NamesPriv Object) : Place Object → Option ℕ
  | .absolute parent _ => walk s 0 parent
  | .relative path => walk s 0 path.segments.dropLast
  | .absoluteUnder parent _ => walk s 0 parent
  | .relativeUnder parent _ => walk s 0 parent.segments
  | .context none _ => some 0
  | .context (some object) _ => s.IsNamed object

/-- The name at a place. -/
def Place.segment : Place Object → Name
  | .absolute _ name => name
  | .relative path => path.segments.getLast path.segments_ne_nil
  | .absoluteUnder _ name => name
  | .relativeUnder _ name => name
  | .context _ name => name

/-- The place is given by a path. -/
def Place.isPath : Place Object → Bool
  | .context _ _ => false
  | _ => true

/-- What adding a name under a node is to do. -/
def added (s : NamesPriv Object) (node : ℕ) (name : Str) (object : Object) :
    NamesPriv Object × Bool :=
  if (s.IsNamed object).isSome ∨ s.IsDuplicateName node name then (s, false)
  else (s.addNode node name object, true)

/-- What renaming under a node is to do. -/
def renamed (s : NamesPriv Object) (node : ℕ) (oldname newname : Str) : NamesPriv Object × Bool :=
  if s.IsDuplicateName node newname then (s, false)
  else
    match s.child node oldname with
    | none => (s, false)
    | some changeNode => (s.renameNode node oldname newname changeNode, true)

/-- What an operation is to do; without a node, it fails. -/
def expected (s : NamesPriv Object) : Operation Object → NamesPriv Object × Bool
  | .Add place object =>
    match place.parent s with
    | some node => added s node place.segment.1 object
    | none => (s, false)
  | .Rename place newname =>
    match place.parent s with
    | some node => renamed s node place.segment.1 newname.1
    | none => (s, false)
  | .Clear => (new, true)

structure Right (s : NamesPriv Object) (h : List (Happened Object)) : Prop where
  tree : IsTree s
  one_name : ∀ q q', 0 < q → q < s.next → 0 < q' → q' < s.next →
    (s.heap q).m_object = (s.heap q').m_object → q = q'
  siblings : ∀ q q', 0 < q → q < s.next → 0 < q' → q' < s.next →
    (s.heap q).m_parent = (s.heap q').m_parent → (s.heap q).m_name = (s.heap q').m_name → q = q'
  found : ∀ object, (s.IsNamed object).isSome → ∃ path, s.FindPath object = .ok path ∧
    s.Find path = .ok (some object)
  result : ∀ x, h.getLast? = some x → (s, x.result) = expected x.found x.operation

/-- The condition on an operation: its place is under a node, or the operation fails under the root
as well. -/
def Fits (s : NamesPriv Object) : Operation Object → Prop
  | .Add place object => (place.parent s).isSome ∨ (s.IsNamed object).isSome ∨
    (place.isPath ∧ s.IsDuplicateName 0 place.segment.1)
  | .Rename place newname => (place.parent s).isSome ∨ (place.isPath ∧
    (s.IsDuplicateName 0 newname.1 ∨ (s.child 0 place.segment.1).isNone))
  | .Clear => True

/-! ### What is found -/

namespace IsTree

/-- A walk ends at a node of the tree. -/
theorem walk_lt (htree : IsTree s) {names : List Name} {q : ℕ} (hnode : node < s.next)
    (hwalk : walk s node names = some q) : q < s.next := by
  induction names generalizing node with
  | nil =>
    obtain rfl := some.inj hwalk
    exact hnode
  | cons name names ih =>
    obtain ⟨i, hi, hwalk⟩ := Option.bind_eq_some_iff.mp hwalk
    exact ih (htree.child node hnode _ i hi).2.1 hwalk

/-- From the object one is back at the node; the root has none. -/
theorem contextNode_walk (htree : IsTree s) {names : List Name} {q : ℕ}
    (hwalk : walk s 0 names = some q) : s.contextNode (objectAt s 0 names) = .ok q := by
  rw [objectAt, hwalk, bind_some]
  obtain rfl | hpos := Nat.eq_zero_or_pos q
  · rw [htree.root.2.1]
    rfl
  · obtain ⟨object, hobject, hnamed⟩ := htree.object q hpos (htree.walk_lt htree.next hwalk)
    rw [hobject]
    show (match s.IsNamed object with
      | some node => Except.ok node
      | none => Except.error Fault.abort) = _
    rw [hnamed]

/-- The path of a node, as it is made from below. -/
theorem pathLoop_eq (htree : IsTree s) (q : ℕ) (hq : q < s.next) :
    ∃ names : List Name, walk s 0 names = some q ∧ ∀ fuel path, q < fuel →
      s.pathLoop fuel q path = .ok (absoluteString names ++ path) := by
  induction q using Nat.strongRecOn with
  | _ q ih =>
    obtain rfl | hpos := Nat.eq_zero_or_pos q
    · refine ⟨[], rfl, fun fuel path hfuel => ?_⟩
      obtain ⟨fuel, rfl⟩ := Nat.exists_eq_add_one_of_ne_zero (Nat.ne_zero_of_lt hfuel)
      rw [pathLoop, htree.root.1, htree.root.2.2]
      simp [absoluteString, slashed]
    · obtain ⟨p, hparent, hlt, hchild⟩ := htree.parent q hpos hq
      obtain ⟨names, hwalk, hloop⟩ := ih p hlt (Nat.lt_trans hlt hq)
      let name : Name := ⟨(s.heap q).m_name, htree.slash q hpos hq⟩
      refine ⟨names ++ [name], ?_, fun fuel path hfuel => ?_⟩
      · rw [walk_append, hwalk]
        exact hchild
      · obtain ⟨fuel, rfl⟩ := Nat.exists_eq_add_one_of_ne_zero (Nat.ne_zero_of_lt hfuel)
        rw [pathLoop, hparent]
        dsimp only
        rw [hloop fuel _ (by omega), absoluteString_append, append_assoc]

/-- **What is named is found** by the path that `FindPath` gives for it. -/
theorem found (htree : IsTree s) (hnamed : (s.IsNamed object).isSome) :
    ∃ path, s.FindPath object = .ok path ∧ s.Find path = .ok (some object) := by
  obtain ⟨q, hq⟩ := Option.isSome_iff_exists.mp hnamed
  obtain ⟨hpos, hlt, hobject⟩ := htree.named object q hq
  obtain ⟨names, hwalk, hloop⟩ := htree.pathLoop_eq q hlt
  refine ⟨absoluteString names, ?_, ?_⟩
  · rw [FindPath, hq]
    dsimp only
    rw [hloop s.next [] hlt, append_nil]
  · cases names with
    | nil =>
      -- The root is no object's node.
      obtain rfl := some.inj hwalk
      exact absurd hpos (Nat.lt_irrefl 0)
    | cons first rest =>
      rw [Find_absolute, objectAt, hwalk, bind_some, hobject]

/-- An object has one name. -/
theorem one_name (htree : IsTree s) {q q' : ℕ} (hq : 0 < q) (hlt : q < s.next) (hq' : 0 < q')
    (hlt' : q' < s.next) (hsame : (s.heap q).m_object = (s.heap q').m_object) : q = q' := by
  obtain ⟨object, hobject, hnamed⟩ := htree.object q hq hlt
  obtain ⟨object', hobject', hnamed'⟩ := htree.object q' hq' hlt'
  rw [hobject, hobject'] at hsame
  obtain rfl := some.inj hsame
  exact some.inj (hnamed.symm.trans hnamed')

/-- The names of the children of a node differ. -/
theorem siblings (htree : IsTree s) {q q' : ℕ} (hq : 0 < q) (hlt : q < s.next) (hq' : 0 < q')
    (hlt' : q' < s.next) (hparent : (s.heap q).m_parent = (s.heap q').m_parent)
    (hname : (s.heap q).m_name = (s.heap q').m_name) : q = q' := by
  obtain ⟨p, hp, _, hchild⟩ := htree.parent q hq hlt
  obtain ⟨p', hp', _, hchild'⟩ := htree.parent q' hq' hlt'
  rw [hp, hp'] at hparent
  obtain rfl := some.inj hparent
  rw [hname] at hchild
  exact some.inj (hchild.symm.trans hchild')

end IsTree

/-! ### What the operations do -/

/-- The context that a place is taken for. -/
def Place.contextOf (s : NamesPriv Object) : Place Object → Option Object
  | .absolute parent _ => objectAt s 0 parent
  | .relative path => objectAt s 0 path.segments.dropLast
  | .absoluteUnder parent _ => objectAt s 0 parent
  | .relativeUnder parent _ => objectAt s 0 parent.segments
  | .context object _ => object

/-- `Add` with a path adds to the object that is there. -/
theorem AddPath_absolute (htree : IsTree s) (parent : List Name) (name : Str) (object : Object) :
    s.AddPath (absoluteString parent) name object =
      s.AddContext (objectAt s 0 parent) name object := by
  cases parent with
  | nil =>
    have hroot : objectAt s 0 [] = none := htree.root.2.1
    rw [hroot]
    exact if_pos (append_nil _)
  | cons first rest =>
    have hne : absoluteString (first :: rest) ≠ namespaceName := by
      simp [absoluteString, slashed]
    rw [AddPath, if_neg hne, Find_absolute]
    rfl

/-- `Rename` with a path renames a child of the object that is there. -/
theorem RenamePath_absolute (htree : IsTree s) (parent : List Name) (oldname newname : Str) :
    s.RenamePath (absoluteString parent) oldname newname =
      s.RenameContext (objectAt s 0 parent) oldname newname := by
  cases parent with
  | nil =>
    have hroot : objectAt s 0 [] = none := htree.root.2.1
    rw [hroot]
    exact if_pos (append_nil _)
  | cons first rest =>
    have hne : absoluteString (first :: rest) ≠ namespaceName := by
      simp [absoluteString, slashed]
    rw [RenamePath, if_neg hne, Find_absolute]
    rfl

/-- All ways to give a place come down to its context. -/
theorem perform_Add (htree : IsTree s) (place : Place Object) (object : Object) :
    perform s (.Add place object) = s.AddContext (place.contextOf s) place.segment.1 object := by
  cases place with
  | absolute parent name =>
    rw [perform, NamesPriv.Add, splitName_absolute, ExceptFold.ok_bind]
    exact AddPath_absolute htree parent name.1 object
  | relative path =>
    rw [perform, NamesPriv.Add, path.splitName_string, ExceptFold.ok_bind]
    exact AddPath_absolute htree _ _ object
  | absoluteUnder parent name => exact AddPath_absolute htree parent name.1 object
  | relativeUnder parent name =>
    rw [perform, AddPath, if_neg parent.string_ne, Find_relative]
    rfl
  | context context name => rfl

/-- All ways to rename come to `RenameContext`. -/
theorem perform_Rename (htree : IsTree s) (place : Place Object) (newname : Name) :
    perform s (.Rename place newname) =
      s.RenameContext (place.contextOf s) place.segment.1 newname.1 := by
  cases place with
  | absolute parent name =>
    rw [perform, NamesPriv.Rename, splitName_absolute, ExceptFold.ok_bind]
    exact RenamePath_absolute htree parent name.1 newname.1
  | relative path =>
    rw [perform, NamesPriv.Rename, path.splitName_string, ExceptFold.ok_bind]
    exact RenamePath_absolute htree _ _ newname.1
  | absoluteUnder parent name => exact RenamePath_absolute htree parent name.1 newname.1
  | relativeUnder parent name =>
    rw [perform, RenamePath, if_neg parent.string_ne, Find_relative]
    rfl
  | context context name => rfl

/-- A path that leads nowhere is taken for the root. -/
theorem contextNode_eq (htree : IsTree s) (place : Place Object) :
    s.contextNode (place.contextOf s) =
      match place.parent s with
      | some node => .ok node
      | none => if place.isPath then .ok 0 else .error .abort := by
  have hpath (names : List Name) : s.contextNode (objectAt s 0 names) =
      match walk s 0 names with
      | some node => .ok node
      | none => .ok 0 := by
    cases hwalk : walk s 0 names with
    | some node => exact htree.contextNode_walk hwalk
    | none =>
      rw [objectAt, hwalk]
      rfl
  cases place with
  | absolute parent name => exact hpath parent
  | relative path => exact hpath path.segments.dropLast
  | absoluteUnder parent name => exact hpath parent
  | relativeUnder parent name => exact hpath parent.segments
  | context context name =>
    cases context with
    | none => rfl
    | some object => rfl

/-- `AddContext` adds what has no name yet. -/
theorem AddContext_eq (context : Option Object) (name : Str) (object : Object) :
    s.AddContext context name object =
      if (s.IsNamed object).isSome then .ok (s, false)
      else (s.contextNode context).map fun node => added s node name object := by
  unfold AddContext added
  split_ifs with hnamed
  · rfl
  · cases s.contextNode context with
    | error fault => rfl
    | ok node =>
      rw [ExceptFold.ok_bind]
      simp only [Except.map]
      by_cases hdup : s.IsDuplicateName node name = true
      · rw [if_pos hdup, if_pos (.inr hdup)]
      · rw [if_neg hdup, if_neg (not_or.mpr ⟨hnamed, hdup⟩)]

/-- `RenameContext` renames a child of the node of the context. -/
theorem RenameContext_eq (context : Option Object) (oldname newname : Str) :
    s.RenameContext context oldname newname =
      (s.contextNode context).map fun node => renamed s node oldname newname := by
  unfold RenameContext renamed
  cases s.contextNode context with
  | error fault => rfl
  | ok node =>
    rw [ExceptFold.ok_bind]
    simp only [Except.map]
    split_ifs
    · rfl
    · cases s.child node oldname with
      | none => rfl
      | some changeNode => rfl

/-! ### Adding -/

section AddNode

variable {name : Str} {p q : ℕ}

/-- The nodes after `addNode`. -/
theorem heap_addNode (hne : s.next ≠ node) :
    (s.addNode node name object).heap q =
      if q = node then { s.heap node with
        m_nameMap := insert Prod.fst (name, s.next) (s.heap node).m_nameMap }
      else if q = s.next then ⟨some node, name, some object, []⟩ else s.heap q := by
  simp only [addNode, setChild, write, Function.update_apply, hne.symm, if_false]

/-- The children after `addNode`. -/
theorem child_addNode (hne : s.next ≠ node) (n : Str) :
    (s.addNode node name object).child p n =
      if p = node then if name = n then some s.next else s.child node n
      else if p = s.next then none else s.child p n := by
  unfold child
  rw [heap_addNode hne]
  split_ifs with hp hn hp'
  · rw [find_insert, if_pos hn]
    rfl
  · rw [find_insert, if_neg hn]
  · rfl
  · rfl

/-- What is named after `addNode`. -/
theorem IsNamed_addNode (o : Object) :
    (s.addNode node name object).IsNamed o =
      if object = o then some s.next else s.IsNamed o := by
  show (KeyedTable.find Prod.fst o
    (insert Prod.fst (object, s.next) s.m_objectMap)).map Prod.snd = _
  rw [find_insert]
  split_ifs
  · rfl
  · rfl

/-- A new node under a free name, for an object without a name, leaves a tree. -/
theorem IsTree.addNode (htree : IsTree s) (hnode : node < s.next) (hslash : '/' ∉ name)
    (hnew : s.IsNamed object = none) (hfree : s.child node name = none) :
    IsTree (s.addNode node name object) := by
  have hne : s.next ≠ node := (Nat.ne_of_lt hnode).symm
  have hnext : (s.addNode node name object).next = s.next + 1 := rfl
  -- What is allocated keeps all but its children.
  have hheap (q : ℕ) (hq : q < s.next) :
      ((s.addNode node name object).heap q).m_parent = (s.heap q).m_parent ∧
        ((s.addNode node name object).heap q).m_name = (s.heap q).m_name ∧
        ((s.addNode node name object).heap q).m_object = (s.heap q).m_object := by
    rw [heap_addNode hne]
    split_ifs with h h'
    · subst h
      exact ⟨rfl, rfl, rfl⟩
    · exact absurd h' (Nat.ne_of_lt hq)
    · exact ⟨rfl, rfl, rfl⟩
  have hfresh : (s.addNode node name object).heap s.next = ⟨some node, name, some object, []⟩ := by
    rw [heap_addNode hne, if_neg hne, if_pos rfl]
  refine ⟨?_, ?_, fun q hq hlt => ?_, fun p hp n q hchild => ?_, fun q hq hlt => ?_,
    fun o q hnamed => ?_, fun q hq hlt => ?_, fun p hp => ?_⟩
  · -- the root
    obtain ⟨hparent, hname, hobject⟩ := hheap 0 htree.next
    rw [hparent, hname, hobject]
    exact htree.root
  · rw [hnext]
    exact Nat.succ_pos _
  · -- each node but the root is a child of its parent
    obtain rfl | hlt : q = s.next ∨ q < s.next := by omega
    · rw [hfresh]
      refine ⟨node, rfl, hnode, ?_⟩
      rw [child_addNode hne, if_pos rfl, if_pos rfl]
    · obtain ⟨hparent, hname, _⟩ := hheap q hlt
      obtain ⟨p, hp, hpq, hchild⟩ := htree.parent q hq hlt
      rw [hparent, hname]
      refine ⟨p, hp, hpq, ?_⟩
      rw [child_addNode hne]
      split_ifs with h h' h''
      · -- The name was free.
        subst h
        rw [← h', hfree] at hchild
        cases hchild
      · rw [← h]
        exact hchild
      · omega
      · exact hchild
  · -- and each child has its parent and its name
    rw [child_addNode hne] at hchild
    rw [hnext]
    split_ifs at hchild with h h' h''
    · obtain rfl := some.inj hchild
      rw [hfresh]
      exact ⟨Nat.zero_lt_of_lt hnode, Nat.lt_succ_self _, congrArg some h.symm, h'⟩
    · obtain ⟨hpos, hlt, hparent, hname⟩ := htree.child node hnode n q hchild
      obtain ⟨hparent', hname', _⟩ := hheap q hlt
      rw [hparent', hname', h]
      exact ⟨hpos, Nat.lt_succ_of_lt hlt, hparent, hname⟩
    · have hp : p < s.next := by omega
      obtain ⟨hpos, hlt, hparent, hname⟩ := htree.child p hp n q hchild
      obtain ⟨hparent', hname', _⟩ := hheap q hlt
      rw [hparent', hname']
      exact ⟨hpos, Nat.lt_succ_of_lt hlt, hparent, hname⟩
  · -- each node but the root has an object, which is named by it
    obtain rfl | hlt : q = s.next ∨ q < s.next := by omega
    · rw [hfresh]
      exact ⟨object, rfl, by rw [IsNamed_addNode, if_pos rfl]⟩
    · obtain ⟨_, _, hobject⟩ := hheap q hlt
      obtain ⟨o, ho, hnamed⟩ := htree.object q hq hlt
      rw [hobject]
      refine ⟨o, ho, ?_⟩
      have hother : object ≠ o := by
        rintro rfl
        rw [hnew] at hnamed
        cases hnamed
      rw [IsNamed_addNode, if_neg hother, hnamed]
  · -- and each named object is that of its node
    rw [IsNamed_addNode] at hnamed
    rw [hnext]
    split_ifs at hnamed with h
    · obtain rfl := some.inj hnamed
      rw [hfresh]
      exact ⟨htree.next, Nat.lt_succ_self _, congrArg some h⟩
    · obtain ⟨hpos, hlt, hobject⟩ := htree.named o q hnamed
      rw [(hheap q hlt).2.2]
      exact ⟨hpos, Nat.lt_succ_of_lt hlt, hobject⟩
  · -- no name has a slash
    obtain rfl | hlt : q = s.next ∨ q < s.next := by omega
    · rw [hfresh]
      exact hslash
    · rw [(hheap q hlt).2.1]
      exact htree.slash q hq hlt
  · -- no name is twice among the children of a node
    rw [heap_addNode hne]
    split_ifs with h h'
    · exact (htree.distinct node hnode).insert _
    · exact .nil
    · exact htree.distinct p (by omega)

end AddNode

/-! ### Renaming -/

section RenameNode

variable {oldname newname : Str} {changeNode p q : ℕ}

omit [DecidableEq Object] in
/-- The nodes after `renameNode`. -/
theorem heap_renameNode (hne : changeNode ≠ node) :
    (s.renameNode node oldname newname changeNode).heap q =
      if q = node then { s.heap node with
        m_nameMap := insert Prod.fst (newname, changeNode)
          (erase Prod.fst oldname (s.heap node).m_nameMap) }
      else if q = changeNode then { s.heap changeNode with m_name := newname } else s.heap q := by
  simp only [renameNode, setChild, write, Function.update_apply, hne, hne.symm, if_false, if_true]
  split_ifs <;> rfl

/-- The children after `renameNode`. -/
theorem child_renameNode (htree : IsTree s) (hnode : node < s.next) (hne : changeNode ≠ node)
    (n : Str) :
    (s.renameNode node oldname newname changeNode).child p n =
      if p = node then
        if newname = n then some changeNode else if n = oldname then none else s.child node n
      else s.child p n := by
  unfold child
  rw [heap_renameNode hne]
  split_ifs with hp hn hold hp'
  · rw [find_insert, if_pos hn]
    rfl
  · rw [find_insert, if_neg hn, (htree.distinct node hnode).find_erase, if_pos hold]
    rfl
  · rw [find_insert, if_neg hn, (htree.distinct node hnode).find_erase, if_neg hold]
  · rw [hp']
  · rfl

/-- A child that is given a free name leaves a tree. -/
theorem IsTree.renameNode (htree : IsTree s) (hnode : node < s.next) (hslash : '/' ∉ newname)
    (hfree : s.child node newname = none) (hchange : s.child node oldname = some changeNode) :
    IsTree (s.renameNode node oldname newname changeNode) := by
  obtain ⟨hpos, hlt, hparent, hname⟩ := htree.child node hnode oldname changeNode hchange
  have hne : changeNode ≠ node := by
    obtain ⟨p, hp, hless, _⟩ := htree.parent changeNode hpos hlt
    rw [hparent] at hp
    obtain rfl := some.inj hp
    exact (Nat.ne_of_lt hless).symm
  have hnamed (o : Object) : (s.renameNode node oldname newname changeNode).IsNamed o =
      s.IsNamed o := rfl
  have hnext : (s.renameNode node oldname newname changeNode).next = s.next := rfl
  -- Only the node that is renamed has another name.
  have hheap (q : ℕ) :
      ((s.renameNode node oldname newname changeNode).heap q).m_parent = (s.heap q).m_parent ∧
        ((s.renameNode node oldname newname changeNode).heap q).m_name =
          (if q = changeNode then newname else (s.heap q).m_name) ∧
        ((s.renameNode node oldname newname changeNode).heap q).m_object =
          (s.heap q).m_object := by
    rw [heap_renameNode hne]
    split_ifs with h h' h''
    · exact absurd (h'.symm.trans h) hne
    · subst h
      exact ⟨rfl, rfl, rfl⟩
    · subst h''
      exact ⟨rfl, rfl, rfl⟩
    · exact ⟨rfl, rfl, rfl⟩
  refine ⟨?_, htree.next, fun q hq hqlt => ?_, fun p hp n q hchild => ?_, fun q hq hqlt => ?_,
    fun o q hq => ?_, fun q hq hqlt => ?_, fun p hp => ?_⟩
  · -- the root is no child
    obtain ⟨hparent', hname', hobject'⟩ := hheap 0
    rw [hparent', hname', hobject', if_neg (Nat.ne_of_lt hpos)]
    exact htree.root
  · -- each node is found under the name it has now
    obtain ⟨hparent', hname', _⟩ := hheap q
    obtain ⟨p, hp, hpq, hchild⟩ := htree.parent q hq hqlt
    rw [hparent', hname']
    refine ⟨p, hp, hpq, ?_⟩
    rw [child_renameNode htree hnode hne]
    by_cases hq' : q = changeNode
    · subst hq'
      obtain rfl : node = p := some.inj (hparent.symm.trans hp)
      rw [if_pos rfl, if_pos rfl, if_pos rfl]
    · rw [if_neg hq']
      split_ifs with h h' h''
      · -- The new name was free.
        subst h
        rw [← h', hfree] at hchild
        cases hchild
      · -- The old name was that of the other node.
        subst h
        rw [h'', hchange] at hchild
        exact absurd (some.inj hchild).symm hq'
      · rw [← h]
        exact hchild
      · exact hchild
  · -- and what is found has that name
    rw [child_renameNode htree hnode hne] at hchild
    rw [hnext]
    obtain ⟨hparent', hname', _⟩ := hheap q
    rw [hparent', hname']
    split_ifs at hchild with h h' h''
    · obtain rfl := some.inj hchild
      rw [if_pos rfl]
      exact ⟨hpos, hlt, hparent.trans (congrArg some h.symm), h'⟩
    · obtain ⟨hpos', hlt', hp', hn'⟩ := htree.child node hnode n q hchild
      have hq' : q ≠ changeNode := by
        rintro rfl
        exact h'' (hn'.symm.trans hname)
      rw [if_neg hq', h]
      exact ⟨hpos', hlt', hp', hn'⟩
    · obtain ⟨hpos', hlt', hp', hn'⟩ := htree.child p hp n q hchild
      have hq' : q ≠ changeNode := by
        rintro rfl
        exact h (some.inj (hp'.symm.trans hparent))
      rw [if_neg hq']
      exact ⟨hpos', hlt', hp', hn'⟩
  · rw [(hheap q).2.2]
    exact htree.object q hq hqlt
  · rw [(hheap q).2.2]
    exact htree.named o q hq
  · rw [(hheap q).2.1]
    split_ifs
    · exact hslash
    · exact htree.slash q hq hqlt
  · rw [heap_renameNode hne]
    split_ifs
    · exact (htree.distinct node hnode).erase.insert _
    · exact htree.distinct changeNode hlt
    · exact htree.distinct p hp

end RenameNode

/-! ### Runs -/

omit [DecidableEq Object] in
/-- There is only the root at first. -/
theorem isTree_new [DecidableEq Object] : IsTree (new : NamesPriv Object) where
  root := ⟨rfl, rfl, rfl⟩
  next := Nat.one_pos
  parent := fun _ hq hlt => absurd hlt (Nat.not_lt.mpr hq)
  child := fun _ _ _ _ hchild => nomatch hchild
  object := fun _ hq hlt => absurd hlt (Nat.not_lt.mpr hq)
  named := fun _ _ hnamed => nomatch hnamed
  slash := fun _ hq hlt => absurd hlt (Nat.not_lt.mpr hq)
  distinct := fun _ _ => .nil

/-- `AddContext` keeps the tree. -/
theorem IsTree.added (htree : IsTree s) (hnode : node < s.next) (name : Name) (object : Object) :
    IsTree (added s node name.1 object).1 := by
  unfold Names.added
  split_ifs with h
  · exact htree
  · obtain ⟨hnew, hfree⟩ := not_or.mp h
    exact htree.addNode hnode name.2 (Option.not_isSome_iff_eq_none.mp hnew)
      (Option.not_isSome_iff_eq_none.mp hfree)

/-- `RenameContext` keeps the tree. -/
theorem IsTree.renamed (htree : IsTree s) (hnode : node < s.next) (oldname newname : Name) :
    IsTree (renamed s node oldname.1 newname.1).1 := by
  unfold Names.renamed
  split_ifs with h
  · exact htree
  · cases hchange : s.child node oldname.1 with
    | none => exact htree
    | some changeNode =>
      exact htree.renameNode hnode newname.2 (Option.not_isSome_iff_eq_none.mp h) hchange

theorem IsTree.parent_lt (htree : IsTree s) {place : Place Object}
    (hparent : place.parent s = some node) : node < s.next := by
  cases place with
  | absolute parent name => exact htree.walk_lt htree.next hparent
  | relative path => exact htree.walk_lt htree.next hparent
  | absoluteUnder parent name => exact htree.walk_lt htree.next hparent
  | relativeUnder parent name => exact htree.walk_lt htree.next hparent
  | context object name =>
    cases object with
    | none =>
      obtain rfl := some.inj hparent
      exact htree.next
    | some object => exact (htree.named object node hparent).2.1

/-- An operation that fits does what is expected. -/
theorem perform_of_fits (htree : IsTree s) {operation : Operation Object}
    (hfits : Fits s operation) : perform s operation = .ok (expected s operation) := by
  cases operation with
  | Clear => rfl
  | Add place object =>
    rw [perform_Add htree, AddContext_eq, contextNode_eq htree, expected]
    by_cases hnamed : (s.IsNamed object).isSome = true
    · rw [if_pos hnamed]
      cases place.parent s with
      | none => rfl
      | some node =>
        dsimp only
        rw [added, if_pos (.inl hnamed)]
    · rw [if_neg hnamed]
      cases hparent : place.parent s with
      | some node => rfl
      | none =>
        -- The name is taken under the root.
        rw [Fits, hparent] at hfits
        obtain hsome | hsome | ⟨hpath, hdup⟩ := hfits
        · cases hsome
        · exact absurd hsome hnamed
        · dsimp only
          rw [if_pos hpath, Except.map, added, if_pos (.inr hdup)]
  | Rename place newname =>
    rw [perform_Rename htree, RenameContext_eq, contextNode_eq htree, expected]
    cases hparent : place.parent s with
    | some node => rfl
    | none =>
      rw [Fits, hparent] at hfits
      obtain hsome | ⟨hpath, hfails⟩ := hfits
      · cases hsome
      · dsimp only
        rw [if_pos hpath, Except.map, renamed]
        obtain hdup | hnone := hfails
        · rw [if_pos hdup]
        · rw [Option.isNone_iff_eq_none.mp hnone]
          split_ifs
          · rfl
          · rfl

/-- One that does what is expected fits. -/
theorem fits_of_perform (htree : IsTree s) {operation : Operation Object}
    (hok : perform s operation = .ok (expected s operation)) : Fits s operation := by
  cases operation with
  | Clear => trivial
  | Add place object =>
    rw [perform_Add htree, AddContext_eq, contextNode_eq htree, expected] at hok
    unfold Fits
    cases hparent : place.parent s with
    | some node => exact .inl (by rw [hparent]; rfl)
    | none =>
      right
      rw [hparent] at hok
      by_cases hnamed : (s.IsNamed object).isSome = true
      · exact .inl hnamed
      · right
        rw [if_neg hnamed] at hok
        dsimp only at hok
        by_cases hpath : place.isPath = true
        · refine ⟨hpath, ?_⟩
          by_contra hdup
          rw [if_pos hpath, Except.map, added, if_neg (not_or.mpr ⟨hnamed, hdup⟩)] at hok
          cases (Prod.mk.inj (Except.ok.inj hok)).2
        · rw [if_neg hpath] at hok
          cases hok
  | Rename place newname =>
    rw [perform_Rename htree, RenameContext_eq, contextNode_eq htree, expected] at hok
    unfold Fits
    cases hparent : place.parent s with
    | some node => exact .inl (by rw [hparent]; rfl)
    | none =>
      right
      rw [hparent] at hok
      dsimp only at hok
      by_cases hpath : place.isPath = true
      · refine ⟨hpath, ?_⟩
        rw [if_pos hpath, Except.map, renamed] at hok
        by_cases hdup : s.IsDuplicateName 0 newname.1 = true
        · exact .inl hdup
        · right
          rw [if_neg hdup] at hok
          cases hchange : s.child 0 place.segment.1 with
          | none => rfl
          | some changeNode =>
            rw [hchange] at hok
            cases (Prod.mk.inj (Except.ok.inj hok)).2
      · rw [if_neg hpath] at hok
        cases hok

/-- What is expected of an operation keeps the tree. -/
theorem IsTree.expected (htree : IsTree s) (operation : Operation Object) :
    IsTree (expected s operation).1 := by
  cases operation with
  | Clear => exact isTree_new
  | Add place object =>
    cases hparent : place.parent s with
    | none =>
      simp only [Names.expected, hparent]
      exact htree
    | some node =>
      simp only [Names.expected, hparent]
      exact htree.added (htree.parent_lt hparent) place.segment object
  | Rename place newname =>
    cases hparent : place.parent s with
    | none =>
      simp only [Names.expected, hparent]
      exact htree
    | some node =>
      simp only [Names.expected, hparent]
      exact htree.renamed (htree.parent_lt hparent) place.segment newname

theorem IsTree.right (htree : IsTree s) {h : List (Happened Object)}
    (hresult : ∀ x, h.getLast? = some x → (s, x.result) = Names.expected x.found x.operation) :
    Right s h where
  tree := htree
  one_name := fun _ _ hq hlt hq' hlt' hsame => htree.one_name hq hlt hq' hlt' hsame
  siblings := fun _ _ hq hlt hq' hlt' hparent hname => htree.siblings hq hlt hq' hlt' hparent hname
  found := fun _ hnamed => htree.found hnamed
  result := hresult

/-- **The name service**: in a run, the names are a tree, objects are found by their paths, and each
operation does what is expected however its place is given, if and only if every operation is under
an object that is named, or under the root, or fails under the root as well. -/
theorem throughout_treeRight_iff (operations : List (Operation Object)) :
    TracedRun.Throughout step Right new [] operations ↔
      TracedRun.Meets step (fun s _ operation => Fits s operation) new [] operations := by
  have hnew : Right (new : NamesPriv Object) [] := by
    refine isTree_new.right fun x hx => ?_
    cases hx
  refine TracedRun.throughout_iff_meets (J := Right) ?_ ?_ (fun _ _ hJ => hJ) hnew operations
  · intro s h operation hJ hfits
    have hperform := perform_of_fits hJ.tree hfits
    refine ⟨(expected s operation).1, [⟨operation, s, (expected s operation).2⟩], ?_, ?_⟩
    · rw [step, hperform, ExceptFold.ok_bind]
    · refine (hJ.tree.expected operation).right fun x hx => ?_
      rw [getLast?_append, getLast?_singleton] at hx
      obtain rfl := some.inj hx
      rfl
  · intro s h operation s' happened hJ hok hI
    obtain ⟨performed, hperform, hstep⟩ := ExceptFold.bind_eq_ok_iff.mp hok
    obtain ⟨rfl, rfl⟩ := Prod.mk.inj (Except.ok.inj hstep)
    refine fits_of_perform hJ.tree ?_
    have hresult := hI.result ⟨operation, s, performed.2⟩
      (by rw [getLast?_append, getLast?_singleton]; rfl)
    rw [hperform]
    exact congrArg _ hresult

/-- A name without `'/'`. -/
def client : Name := ⟨['c', 'l', 'i', 'e', 'n', 't'], by decide⟩

def eth0 : Name := ⟨['e', 't', 'h', '0'], by decide⟩

/-- There is no client yet, and `eth0` comes under the root. -/
theorem not_throughout_unresolved :
    ¬ TracedRun.Throughout step Right (new : NamesPriv ℕ) []
      [.Add (.absolute [client] eth0) 7] := by
  rintro ⟨s, h, hok, hright, _⟩
  have hvalues : (step (new : NamesPriv ℕ) (.Add (.absolute [client] eth0) 7)).toOption.map
      (fun r => r.2.map fun x => (x.result, (expected x.found x.operation).2)) =
      some [(true, false)] := by decide +kernel
  rw [hok] at hvalues
  obtain ⟨x, rfl, hx⟩ := map_eq_singleton_iff.mp (some.inj hvalues)
  have hresult := congrArg Prod.snd (hright.result x rfl)
  obtain ⟨htrue, hfalse⟩ := Prod.mk.inj hx
  exact Bool.noConfusion (htrue.symm.trans (hresult.trans hfalse))

end Ns3Joined.Core.Names
