import Mathlib.Logic.Function.Basic
import Ns3Joined.Fault
import Ns3Joined.Library.KeyedTable

/-!
# The object name service

`NamesPriv` of `names.cc`: a tree of named objects, with a map from objects to their places in it.
Its operations take the place as a path, as a path and a name, or as an object and a name.

Strings are lists of characters, pointers to a `NameNode` are numbers, and the root is at 0. `Clear`
frees all nodes, so that their addresses are given out again.
-/

namespace Ns3Joined.Core.Names

abbrev Str := List Char

/-! ### Strings -/

/-- `find`, of one character. -/
def find (c : Char) (s : Str) : Option ℕ := s.findIdx? fun x => x = c

/-- `rfind`, of one character. -/
def rfind (c : Char) : Str → Option ℕ
  | [] => none
  | x :: s =>
    match rfind c s with
    | some i => some (i + 1)
    | none => if x = c then some 0 else none

/-- The `namespaceName` of `Add` and of `Rename`. -/
def namespaceName : Str := ['/', 'N', 'a', 'm', 'e', 's']

/-! ### The tree -/

variable {Object : Type}

/-- A `NameNode`. The maps have one pair for a key. -/
structure NameNode (Object : Type) where
  m_parent : Option ℕ
  m_name : Str
  m_object : Option Object
  m_nameMap : List (Str × ℕ)

structure NamesPriv (Object : Type) where
  heap : ℕ → NameNode Object
  /-- The nodes below have been allocated. -/
  next : ℕ
  m_objectMap : List (Object × ℕ)

namespace NamesPriv

/-- `m_root`, as the constructor and `Clear` leave it. -/
def m_root : NameNode Object := ⟨none, ['N', 'a', 'm', 'e', 's'], none, []⟩

def new : NamesPriv Object := ⟨fun _ => m_root, 1, []⟩

def Clear (_ : NamesPriv Object) : NamesPriv Object := new

/-- What is found in the map of a node. -/
def child (s : NamesPriv Object) (node : ℕ) (name : Str) : Option ℕ :=
  (KeyedTable.find Prod.fst name (s.heap node).m_nameMap).map Prod.snd

def IsDuplicateName (s : NamesPriv Object) (node : ℕ) (name : Str) : Bool :=
  (s.child node name).isSome

/-- What is written to a node. -/
def write (s : NamesPriv Object) (node : ℕ) (x : NameNode Object) : NamesPriv Object :=
  { s with heap := Function.update s.heap node x }

/-- `m_nameMap[name] = child`. -/
def setChild (s : NamesPriv Object) (node : ℕ) (name : Str) (child : ℕ) : NamesPriv Object :=
  s.write node { s.heap node with
    m_nameMap := KeyedTable.insert Prod.fst (name, child) (s.heap node).m_nameMap }

/-! ### Finding -/

/-- The loop of `Find`. -/
def findLoop (s : NamesPriv Object) : ℕ → ℕ → Str → Except Fault (Option Object)
  | 0, _, _ => .error .diverges
  | fuel + 1, node, remaining =>
    match find '/' remaining with
    | none =>
      match s.child node remaining with
      | none => .ok none
      | some i => .ok (s.heap i).m_object
    | some offset =>
      match s.child node (remaining.take offset) with
      | none => .ok none
      | some i => findLoop s fuel i (remaining.drop (offset + 1))

/-- `Find (std::string)`. -/
def Find (s : NamesPriv Object) (path : Str) : Except Fault (Option Object) :=
  let remaining :=
    if (namespaceName ++ ['/']).isPrefixOf path then path.drop (namespaceName ++ ['/']).length
    else path
  s.findLoop (remaining.length + 1) 0 remaining

/-- The loop of `FindPath`, from the object up to the root. -/
def pathLoop (s : NamesPriv Object) : ℕ → ℕ → Str → Except Fault Str
  | 0, _, _ => .error .diverges
  | fuel + 1, p, path =>
    let path := '/' :: (s.heap p).m_name ++ path
    match (s.heap p).m_parent with
    | none => .ok path
    | some parent => pathLoop s fuel parent path

variable [DecidableEq Object]

def IsNamed (s : NamesPriv Object) (object : Object) : Option ℕ :=
  (KeyedTable.find Prod.fst object s.m_objectMap).map Prod.snd

/-- `FindPath`. Each turn goes to another node. -/
def FindPath (s : NamesPriv Object) (object : Object) : Except Fault Str :=
  match s.IsNamed object with
  | none => .ok []
  | some p => s.pathLoop s.next p []

/-! ### Adding and renaming -/

/-- A name without the namespace is put into it, and then split before its last segment. -/
def splitName (name : Str) : Except Fault (Str × Str) := do
  let name ←
    if namespaceName.isPrefixOf name then pure name
    else if ['/'].isPrefixOf name then .error .abort
    else pure (namespaceName ++ ['/'] ++ name)
  match rfind '/' name with
  | none => .error .abort
  | some i => if i = 0 then .error .abort else .ok (name.take i, name.drop (i + 1))

/-- The node of a context. -/
def contextNode (s : NamesPriv Object) (context : Option Object) : Except Fault ℕ :=
  match context with
  | none => .ok 0
  | some object =>
    match s.IsNamed object with
    | some node => .ok node
    | none => .error .abort

/-- A new node under `node`. -/
def addNode (s : NamesPriv Object) (node : ℕ) (name : Str) (object : Object) : NamesPriv Object :=
  let s' := (s.write s.next ⟨some node, name, some object, []⟩).setChild node name s.next
  { s' with
    next := s.next + 1
    m_objectMap := KeyedTable.insert Prod.fst (object, s.next) s.m_objectMap }

/-- `Add (Ptr<Object>, std::string, Ptr<Object>)`. -/
def AddContext (s : NamesPriv Object) (context : Option Object) (name : Str) (object : Object) :
    Except Fault (NamesPriv Object × Bool) :=
  if (s.IsNamed object).isSome then .ok (s, false)
  else do
    let node ← s.contextNode context
    if s.IsDuplicateName node name then .ok (s, false)
    else .ok (s.addNode node name object, true)

/-- `Add (std::string, std::string, Ptr<Object>)`. -/
def AddPath (s : NamesPriv Object) (path name : Str) (object : Object) :
    Except Fault (NamesPriv Object × Bool) :=
  if path = namespaceName then s.AddContext none name object
  else do
    let context ← s.Find path
    s.AddContext context name object

/-- `Add (std::string, Ptr<Object>)`. -/
def Add (s : NamesPriv Object) (name : Str) (object : Object) :
    Except Fault (NamesPriv Object × Bool) := do
  let split ← splitName name
  s.AddPath split.1 split.2 object

/-- The node goes from the old to the new name. -/
def renameNode (s : NamesPriv Object) (node : ℕ) (oldname newname : Str) (changeNode : ℕ) :
    NamesPriv Object :=
  let erased := s.write node { s.heap node with
    m_nameMap := KeyedTable.erase Prod.fst oldname (s.heap node).m_nameMap }
  let changed := erased.write changeNode { erased.heap changeNode with m_name := newname }
  changed.setChild node newname changeNode

/-- `Rename (Ptr<Object>, std::string, std::string)`. -/
def RenameContext (s : NamesPriv Object) (context : Option Object) (oldname newname : Str) :
    Except Fault (NamesPriv Object × Bool) := do
  let node ← s.contextNode context
  if s.IsDuplicateName node newname then .ok (s, false)
  else
    match s.child node oldname with
    | none => .ok (s, false)
    | some changeNode => .ok (s.renameNode node oldname newname changeNode, true)

/-- `Rename (std::string, std::string, std::string)`. -/
def RenamePath (s : NamesPriv Object) (path oldname newname : Str) :
    Except Fault (NamesPriv Object × Bool) :=
  if path = namespaceName then s.RenameContext none oldname newname
  else do
    let context ← s.Find path
    s.RenameContext context oldname newname

/-- `Rename (std::string, std::string)`. -/
def Rename (s : NamesPriv Object) (oldpath newname : Str) :
    Except Fault (NamesPriv Object × Bool) := do
  let split ← splitName oldpath
  s.RenamePath split.1 split.2 newname

end NamesPriv

/-! ### Operations -/

/-- A name has no `'/'`. -/
abbrev Name := { name : Str // '/' ∉ name }

/-- A path below the root that is given without the namespace; it does not begin with `'/'`. -/
structure RelativePath where
  first : Name
  rest : List Name
  not_rooted : first.1 = [] → rest = []
deriving DecidableEq

/-- Each name follows a `'/'`. -/
def slashed (segments : List Name) : Str := segments.flatMap fun name => '/' :: name.1

def absoluteString (segments : List Name) : Str := namespaceName ++ slashed segments

def RelativePath.segments (path : RelativePath) : List Name := path.first :: path.rest

def RelativePath.string (path : RelativePath) : Str := path.first.1 ++ slashed path.rest

/-- The ways to say where a name is. -/
inductive Place (Object : Type)
  /-- `"/Names/client/eth0"`. -/
  | absolute (parent : List Name) (name : Name)
  /-- `"client/eth0"`. -/
  | relative (path : RelativePath)
  /-- `"/Names/client"`, `"eth0"`. -/
  | absoluteUnder (parent : List Name) (name : Name)
  /-- `"client"`, `"eth0"`. -/
  | relativeUnder (parent : RelativePath) (name : Name)
  /-- The object that is named `"client"`, `"eth0"`. -/
  | context (context : Option Object) (name : Name)
deriving DecidableEq

inductive Operation (Object : Type)
  | Add (place : Place Object) (object : Object)
  | Rename (place : Place Object) (newname : Name)
  | Clear
deriving DecidableEq

/-- An operation, what it found, and what it returned. -/
structure Happened (Object : Type) where
  operation : Operation Object
  found : NamesPriv Object
  result : Bool

variable [DecidableEq Object]

def perform (s : NamesPriv Object) : Operation Object → Except Fault (NamesPriv Object × Bool)
  | .Add (.absolute parent name) object => s.Add (absoluteString (parent ++ [name])) object
  | .Add (.relative path) object => s.Add path.string object
  | .Add (.absoluteUnder parent name) object => s.AddPath (absoluteString parent) name.1 object
  | .Add (.relativeUnder parent name) object => s.AddPath parent.string name.1 object
  | .Add (.context context name) object => s.AddContext context name.1 object
  | .Rename (.absolute parent name) newname =>
    s.Rename (absoluteString (parent ++ [name])) newname.1
  | .Rename (.relative path) newname => s.Rename path.string newname.1
  | .Rename (.absoluteUnder parent name) newname =>
    s.RenamePath (absoluteString parent) name.1 newname.1
  | .Rename (.relativeUnder parent name) newname => s.RenamePath parent.string name.1 newname.1
  | .Rename (.context context name) newname => s.RenameContext context name.1 newname.1
  | .Clear => .ok (s.Clear, true)

/-- A step with its history. -/
def step (s : NamesPriv Object) (operation : Operation Object) :
    Except Fault (NamesPriv Object × List (Happened Object)) := do
  let performed ← perform s operation
  .ok (performed.1, [⟨operation, s, performed.2⟩])

end Ns3Joined.Core.Names
