import Mathlib.Data.List.Basic

/-!
# Names

`Name` and `name::Component` of ndn-cxx (`name.cpp`, `name-component.cpp`) as the tables
use them: a component is a TLV-TYPE and a value, a name is the list of its components,
and both are ordered canonically, by type, then length, then bytes.

`Component` carries no validity condition. Its constructors check one (`ensureValid`),
but a `Name` that is decoded from the wire takes its components as they come, so a name
of an incoming packet may hold a component no constructor would build. The one place
where that shows is `getSuccessor`, which builds a new component and throws when the
type is out of range or a digest has the wrong length; it is `none` there.

The components are taken to have shortest headers, as the constructors write them. One that was
decoded keeps the header it came with, which `Component::compare` and the hash of the name tree read
as well; `m_wire` is modelled where a result depends on it.
-/

namespace Ns3Joined.Ndn

/-- A sequence of octets. -/
abbrev Bytes := List UInt8

namespace tlv

def NameComponentMin : ℕ := 1

def NameComponentMax : ℕ := 65535

def ImplicitSha256DigestComponent : ℕ := 1

def ParametersSha256DigestComponent : ℕ := 2

def GenericNameComponent : ℕ := 8

def SegmentNameComponent : ℕ := 33

def SequenceNumNameComponent : ℕ := 37

end tlv

/-- `util::Sha256::DIGEST_SIZE`. -/
def DIGEST_SIZE : ℕ := 32

/-! ### Components -/

structure Component where
  type : ℕ
  value : Bytes
deriving DecidableEq, Repr

namespace Component

/-- The canonical order: by type, then length, then value. -/
def compare : Component → Component → Ordering :=
  compareLex (compareOn Component.type)
    (compareLex (compareOn fun comp => comp.value.length) (compareOn Component.value))

instance : Ord Component := ⟨compare⟩

instance : Std.TransOrd Component :=
  inferInstanceAs (Std.TransCmp (compareLex (compareOn Component.type)
    (compareLex (compareOn fun comp => comp.value.length) (compareOn Component.value))))

instance : Std.LawfulEqOrd Component where
  eq_of_compare := by
    rintro ⟨t, v⟩ ⟨t', v'⟩ h
    change compareLex _ _ _ _ = _ at h
    simp only [compareLex, compareOn, Ordering.then_eq_eq, Std.LawfulEqCmp.compare_eq_iff_eq] at h
    rw [h.1, h.2.2]

def isImplicitSha256Digest (comp : Component) : Bool :=
  comp.type == tlv.ImplicitSha256DigestComponent && comp.value.length == DIGEST_SIZE

/-- The value plus one, as a number written in its own octets, and whether it overflowed. -/
def increment : Bytes → Bool × Bytes
  | [] => (true, [])
  | octet :: value =>
    match increment value with
    | (false, value') => (false, octet :: value')
    | (true, value') => (octet + 1 == 0, (octet + 1) :: value')

/-- `ComponentType::getSuccessorImpl`: an octet more when the value overflows. -/
def getSuccessorImpl (comp : Component) : Bool × Component :=
  match increment comp.value with
  | (false, value) => (false, ⟨comp.type, value⟩)
  | (true, value) => (true, ⟨comp.type, value ++ [0]⟩)

/-- `Component::ensureValid`. -/
def ensureValid (comp : Component) : Option Component :=
  if tlv.NameComponentMin ≤ comp.type ∧ comp.type ≤ tlv.NameComponentMax ∧
      (comp.type ≤ tlv.ParametersSha256DigestComponent → comp.value.length = DIGEST_SIZE) then
    some comp
  else none

/-- `ComponentType::getMinValue`: a digest has its full length. -/
def getMinValue (type : ℕ) : Bytes :=
  if type = tlv.ImplicitSha256DigestComponent ∨ type = tlv.ParametersSha256DigestComponent then
    List.replicate DIGEST_SIZE 0
  else []

/-- `getSuccessor`. A digest cannot grow: past its last value comes the next type. -/
def getSuccessor (comp : Component) : Option Component :=
  let isDigest := comp.type = tlv.ImplicitSha256DigestComponent ∨
    comp.type = tlv.ParametersSha256DigestComponent
  match getSuccessorImpl comp with
  | (isExtended, successor) =>
    if isDigest ∧ isExtended then ensureValid ⟨comp.type + 1, getMinValue (comp.type + 1)⟩
    else ensureValid successor

end Component

/-! ### Names -/

/-- A name, ordered canonically: component by component, a proper prefix first. -/
abbrev Name := List Component

namespace Name

/-- `getSuccessor`: the first name after all names with the prefix `name`. -/
def getSuccessor (name : Name) : Option Name :=
  match name.getLast? with
  | none => some [⟨tlv.ImplicitSha256DigestComponent, List.replicate DIGEST_SIZE 0⟩]
  | some last => last.getSuccessor.map fun successor => name.dropLast ++ [successor]

/-- Whether the last component is an implicit digest. -/
def endsInDigest (name : Name) : Bool :=
  match name.getLast? with
  | none => false
  | some last => last.isImplicitSha256Digest

end Name
end Ns3Joined.Ndn
