import Mathlib.Data.List.TakeWhile
import Ns3Joined.Library.ExceptFold
import Ns3Joined.Library.PercentCode
import Ns3Joined.NdnCxx.Block

/-!
# Names as URIs

`toUri` and the constructor `Name(uri)` of `name.cpp`, with the rules for each type of
component (`impl/name-component-types.hpp`). A text is a list of characters, one for each
octet of the `std::string`. The format is the default one, with `NDN_NAME_ALT_URI` unset.

A component that goes through its URI comes back as `Component.throughUri`, and a name as
the list of these (`Name.ofUri_toUri`). Which components come back unchanged is
`Component.throughUri_eq_iff`: a number of a typed component has to be written in the
fewest octets.
-/

namespace Ns3Joined.Ndn

open PercentCode List Bool
open PrefixCode (ofBigEndian ofBigEndian_lt)

abbrev Text := List Char

/-! ### Numbers in texts -/

/-- `std::isspace`. -/
def isspace (c : Char) : Bool := c == ' ' || (9 ≤ c.toNat && c.toNat ≤ 13)

/-- The sign at the front of a text: whether it is a minus, and what follows. -/
def scanSign : Text → Bool × Text
  | '-' :: text => (true, text)
  | '+' :: text => (false, text)
  | text => (false, text)

/-- The digits at the front of a text, after blanks and a sign, as `std::strtoul` and
`std::stoull` read them: whether the sign is a minus, and the number. -/
def scanNumber (text : Text) : Option (Bool × ℕ) :=
  let signed := scanSign (text.dropWhile isspace)
  let digits := signed.2.takeWhile Char.isDigit
  if digits = [] then none else some (signed.1, Nat.ofDigitChars 10 digits 0)

/-- A number of 64 bits, or its negative. -/
def negateIf (negative : Bool) (number : ℕ) : ℕ :=
  if negative then (2 ^ 64 - number) % 2 ^ 64 else number

/-- `std::strtoul`: zero without digits, the largest number when there are too many. -/
def strtoul (text : Text) : ℕ :=
  match scanNumber text with
  | none => 0
  | some (negative, number) =>
    if number < 2 ^ 64 then negateIf negative number else 2 ^ 64 - 1

def to_string (number : ℕ) : Text := Nat.toDigits 10 number

/-! ### Components -/

/-- `ComponentType`: the rules for a component of one type. -/
inductive ComponentType
  | plain
  | generic
  | sha256 (typeName : String) (uriPrefix : Text)
  | decimal (typeName : String) (uriPrefix : Text)

namespace ComponentType

/-- `ComponentTypeTable::get`. -/
def get : ℕ → ComponentType
  | 1 => sha256 "ImplicitSha256DigestComponent"
      ['s', 'h', 'a', '2', '5', '6', 'd', 'i', 'g', 'e', 's', 't']
  | 2 => sha256 "ParametersSha256DigestComponent"
      ['p', 'a', 'r', 'a', 'm', 's', '-', 's', 'h', 'a', '2', '5', '6']
  | 8 => generic
  | 33 => decimal "SegmentNameComponent" ['s', 'e', 'g']
  | 34 => decimal "ByteOffsetNameComponent" ['o', 'f', 'f']
  | 35 => decimal "VersionNameComponent" ['v']
  | 36 => decimal "TimestampNameComponent" ['t']
  | 37 => decimal "SequenceNumNameComponent" ['s', 'e', 'q']
  | _ => plain

def getAltUriPrefix : ComponentType → Option Text
  | plain | generic => none
  | sha256 _ uriPrefix | decimal _ uriPrefix => some uriPrefix

/-- `ComponentTypeTable::findByUriPrefix`, with the type the rules are for. -/
def findByUriPrefix (uriPrefix : Text) : Option ℕ :=
  [1, 2, 33, 34, 35, 36, 37].find? fun type => (get type).getAltUriPrefix = some uriPrefix

end ComponentType

variable {text uriPrefix : Text} {c : Char} {type number : ℕ} {typeName : String}
  {comp comp' : Component}

namespace Component

/-- `Component(type, value)`: `ensureValid`, with what it throws. -/
def construct (type : ℕ) (value : Bytes) : Result Component :=
  if type < tlv.NameComponentMin ∨ tlv.NameComponentMax < type then
    .error ("TLV-TYPE " ++ toString type ++ " is not a valid NameComponent")
  else
    match ComponentType.get type with
    | .sha256 typeName _ =>
      if value.length ≠ DIGEST_SIZE then
        .error (typeName ++ " TLV-LENGTH must be " ++ toString DIGEST_SIZE)
      else .ok ⟨type, value⟩
    | _ => .ok ⟨type, value⟩

/-- Characters that `escape` copies. -/
def isUnreserved (c : Char) : Bool :=
  ('a' ≤ c && c ≤ 'z') || ('A' ≤ c && c ≤ 'Z') || ('0' ≤ c && c ≤ '9') ||
    c == '-' || c == '.' || c == '_' || c == '~'

def escape (value : Bytes) : Text := percentEncode isUnreserved value

def unescape (text : Text) : Bytes := percentDecode text

/-- Whether the octet is a period. -/
def isPeriod (octet : UInt8) : Bool := octet == 46

/-- `ComponentType::writeUriEscapedValue`. -/
def writeUriEscapedValue (value : Bytes) : Text :=
  (if value.all isPeriod then ['.', '.', '.'] else []) ++ escape value

def isNumber (comp : Component) : Bool :=
  comp.value.length == 1 || comp.value.length == 2 || comp.value.length == 4 ||
    comp.value.length == 8

/-- `ComponentType::writeUri`, for a type without rules of its own. -/
def writePlainUri (comp : Component) : Text :=
  to_string comp.type ++ '=' :: writeUriEscapedValue comp.value

def toUri (comp : Component) : Text :=
  match ComponentType.get comp.type with
  | .plain => writePlainUri comp
  | .generic => writeUriEscapedValue comp.value
  | .sha256 _ uriPrefix => uriPrefix ++ '=' :: hexEncode comp.value
  | .decimal _ uriPrefix =>
    if comp.isNumber then
      uriPrefix ++ '=' :: to_string (ofBigEndian comp.value)
    else writePlainUri comp

def parseUriEscapedValue (type : ℕ) (input : Text) : Result Component :=
  let value := unescape input
  if value.all isPeriod then
    if value.length < 3 then .error "Illegal URI (name component cannot be . or ..)"
    else construct type (value.take (value.length - 3))
  else construct type value

/-- `Component::fromNumber`. -/
def fromNumber (number type : ℕ) : Result Component :=
  construct type (tlv.prependNonNegativeInteger number)

def parseAltUriValue (type : ℕ) (input : Text) : Result Component :=
  match ComponentType.get type with
  | .sha256 typeName _ =>
    match hexDecode input with
    | none => .error ("Cannot convert to " ++ typeName ++ " (invalid hex encoding)")
    | some value => construct type value
  | .decimal typeName _ =>
    match scanNumber input with
    | none => .error ("Cannot convert to " ++ typeName ++ " (invalid format)")
    | some (negative, number) =>
      if 2 ^ 64 ≤ number then
        .error ("Cannot convert to " ++ typeName ++ " (out of range)")
      else if to_string (negateIf negative number) ≠ input then
        .error ("Cannot convert to " ++ typeName ++ " (invalid format)")
      else fromNumber number type
  -- no other type is found by a URI prefix
  | _ => .error "unreachable"

/-- `Component::fromEscapedString`. -/
def fromEscapedString (input : Text) : Result Component :=
  match input.dropWhile (· != '=') with
  | [] => parseUriEscapedValue tlv.GenericNameComponent input
  | _ :: value =>
    let typePrefix := input.takeWhile (· != '=')
    let type := strtoul typePrefix
    if tlv.NameComponentMin ≤ type ∧ type ≤ tlv.NameComponentMax ∧
        to_string type = typePrefix then
      parseUriEscapedValue type value
    else
      match ComponentType.findByUriPrefix typePrefix with
      | none =>
        .error ("Unknown TLV-TYPE '" ++ String.ofList typePrefix ++ "' in NameComponent URI")
      | some type => parseAltUriValue type value

/-- What becomes of a component that is written as a URI and read again. -/
def throughUri (comp : Component) : Result Component := fromEscapedString comp.toUri

/-! ### Characters of a URI -/

/-- A character that stands for nothing but itself in a URI. -/
def IsLiteral (c : Char) : Prop := c ≠ '/' ∧ c ≠ ':' ∧ c ≠ '='

instance : DecidablePred IsLiteral := fun _ => inferInstanceAs (Decidable (_ ∧ _ ∧ _))

/-- The computed test of a text of literal characters. -/
theorem isLiteral_of_all (h : (text.all fun c => decide (IsLiteral c)) = true) :
    ∀ c ∈ text, IsLiteral c :=
  fun c hc => of_decide_eq_true (all_eq_true.mp h c hc)

/-- An unreserved character is literal. -/
theorem isLiteral_of_isUnreserved (h : isUnreserved c = true) : IsLiteral c := by
  refine ⟨?_, ?_, ?_⟩
  all_goals
    rintro rfl
    revert h
    decide

/-- A digit is literal. -/
theorem isLiteral_of_isDigit (h : c.isDigit = true) : IsLiteral c := by
  refine ⟨?_, ?_, ?_⟩
  all_goals
    rintro rfl
    revert h
    decide

/-- An escaped text has literal characters only. -/
theorem isLiteral_escape (value : Bytes) : ∀ c ∈ escape value, IsLiteral c := by
  apply forall_mem_percentEncode (fun c => isLiteral_of_isUnreserved)
  · decide
  · decide

/-- A value written out has literal characters only. -/
theorem isLiteral_writeUriEscapedValue (value : Bytes) :
    ∀ c ∈ writeUriEscapedValue value, IsLiteral c := by
  have hperiods : ∀ c ∈ ['.', '.', '.'], IsLiteral c := isLiteral_of_all (by decide)
  intro c hc
  rcases mem_append.mp hc with hc | hc
  · split_ifs at hc with h
    · exact hperiods c hc
    · cases hc
  · exact isLiteral_escape value c hc

/-- A number written out has digits only. -/
theorem isDigit_to_string (number : ℕ) : ∀ c ∈ to_string number, c.isDigit = true :=
  fun _ hc => Nat.isDigit_of_mem_toDigits (by decide) (by decide) hc

/-- A number written out has literal characters only. -/
theorem isLiteral_to_string (number : ℕ) : ∀ c ∈ to_string number, IsLiteral c :=
  fun c hc => isLiteral_of_isDigit (isDigit_to_string number c hc)

/-- A digest written out has literal characters only. -/
theorem isLiteral_hexEncode (value : Bytes) : ∀ c ∈ hexEncode value, IsLiteral c := by
  apply forall_mem_hexEncode
  decide

/-! ### Numbers read back -/

/-- Scanning digits gives their number, without overflow being seen. -/
theorem scanNumber_digits (hne : text ≠ []) (hdigits : ∀ c ∈ text, c.isDigit = true) :
    scanNumber text = some (false, Nat.ofDigitChars 10 text 0) := by
  match text with
  | [] => exact absurd rfl hne
  | c :: text =>
    have hc : c.isDigit = true := hdigits c mem_cons_self
    have hspace : ¬ isspace c = true := by
      simp only [Char.isDigit, ge_iff_le, and_eq_true, decide_eq_true_eq,
        UInt32.le_iff_toNat_le] at hc
      simp only [isspace, or_eq_true, and_eq_true, decide_eq_true_eq, beq_iff_eq]
      rintro (rfl | h)
      · revert hc
        decide
      · have hlow : 48 ≤ c.toNat := hc.1
        omega
    have hminus : c ≠ '-' := by
      rintro rfl
      revert hc
      decide
    have hplus : c ≠ '+' := by
      rintro rfl
      revert hc
      decide
    have htake : (c :: text).takeWhile Char.isDigit = c :: text :=
      takeWhile_eq_self_iff.mpr hdigits
    have hsign : scanSign (c :: text) = (false, c :: text) := by
      unfold scanSign
      split
      next h => exact absurd (List.cons.inj h).1 hminus
      next h => exact absurd (List.cons.inj h).1 hplus
      next => rfl
    unfold scanNumber
    rw [dropWhile_cons_of_neg hspace, hsign]
    dsimp only
    rw [htake, if_neg hne]

/-- A number written out is scanned back. -/
theorem scanNumber_to_string (number : ℕ) :
    scanNumber (to_string number) = some (false, number) := by
  have h := scanNumber_digits Nat.toDigits_ne_nil (isDigit_to_string number)
  unfold to_string at h ⊢
  rwa [Nat.ofDigitChars_ten_toDigits] at h

/-! ### Components through their URI -/

/-- A URI prefix of the rules for `type`: found as such, and not a number. -/
structure IsAltPrefix (type : ℕ) (uriPrefix : Text) : Prop where
  find : ComponentType.findByUriPrefix uriPrefix = some type
  literal : ∀ c ∈ uriPrefix, IsLiteral c
  notNumber : scanNumber uriPrefix = none

/-- The prefix of a type leads back to the type. -/
theorem isAltPrefix_of_getAltUriPrefix
    (h : (ComponentType.get type).getAltUriPrefix = some uriPrefix) :
    IsAltPrefix type uriPrefix := by
  unfold ComponentType.get at h
  split at h
  all_goals
    cases h
  all_goals
    exact ⟨by decide, isLiteral_of_all (by decide), by decide⟩

/-- The types written as digests. -/
theorem type_of_get_sha256 (h : ComponentType.get type = .sha256 typeName uriPrefix) :
    type = 1 ∨ type = 2 := by
  unfold ComponentType.get at h
  split at h
  all_goals first | cases h; done | simp

/-- The types written as decimal numbers. -/
theorem type_of_get_decimal (h : ComponentType.get type = .decimal typeName uriPrefix) :
    33 ≤ type ∧ type ≤ 37 := by
  unfold ComponentType.get at h
  split at h
  all_goals first | cases h; done | simp

/-- `construct` throws where `ensureValid` does. -/
theorem construct_eq_ok_iff {value : Bytes} :
    construct type value = .ok comp ↔ ensureValid ⟨type, value⟩ = some comp := by
  unfold construct ensureValid
  by_cases hrange : type < tlv.NameComponentMin ∨ tlv.NameComponentMax < type
  · have hout : ¬ (tlv.NameComponentMin ≤ type ∧ type ≤ tlv.NameComponentMax ∧
        (type ≤ tlv.ParametersSha256DigestComponent → value.length = DIGEST_SIZE)) := by
      rintro ⟨hmin, hmax, -⟩
      omega
    rw [if_pos hrange]
    dsimp only
    rw [if_neg hout]
    exact iff_of_false (fun h => by cases h) (fun h => by cases h)
  · rw [if_neg hrange]
    have hmin : tlv.NameComponentMin ≤ type := by omega
    have hmax : type ≤ tlv.NameComponentMax := by omega
    split
    next typeName uriPrefix hget =>
      -- the rules for digests check the length
      have htype : type ≤ tlv.ParametersSha256DigestComponent := by
        rcases type_of_get_sha256 hget with rfl | rfl <;> decide
      by_cases hlen : value.length = DIGEST_SIZE
      · rw [if_neg (not_not_intro hlen), if_pos ⟨hmin, hmax, fun _ => hlen⟩]
        exact ⟨fun h => by cases h; rfl, fun h => by cases h; rfl⟩
      · rw [if_pos hlen, if_neg (fun h => hlen (h.2.2 htype))]
        exact iff_of_false (fun h => by cases h) (fun h => by cases h)
    next hget =>
      have htype : ¬ type ≤ tlv.ParametersSha256DigestComponent := by
        intro hle
        have hcases : type = 1 ∨ type = 2 := by
          unfold tlv.ParametersSha256DigestComponent at hle
          unfold tlv.NameComponentMin at hmin
          omega
        rcases hcases with rfl | rfl
        · exact hget _ _ rfl
        · exact hget _ _ rfl
      rw [if_pos ⟨hmin, hmax, fun h => absurd h htype⟩]
      exact ⟨fun h => by cases h; rfl, fun h => by cases h; rfl⟩

/-- A text with an equals sign behind literal characters is read as a typed component. -/
theorem fromEscapedString_equals {typePrefix : Text} (halt : ∀ c ∈ typePrefix, IsLiteral c)
    (value : Text) :
    fromEscapedString (typePrefix ++ '=' :: value) =
      if tlv.NameComponentMin ≤ strtoul typePrefix ∧ strtoul typePrefix ≤ tlv.NameComponentMax ∧
          to_string (strtoul typePrefix) = typePrefix then
        parseUriEscapedValue (strtoul typePrefix) value
      else
        match ComponentType.findByUriPrefix typePrefix with
        | none =>
          .error ("Unknown TLV-TYPE '" ++ String.ofList typePrefix ++ "' in NameComponent URI")
        | some type => parseAltUriValue type value := by
  have hkeep : ∀ c ∈ typePrefix, (c != '=') = true :=
    fun c hc => bne_iff_ne.mpr (halt c hc).2.2
  have hdrop : (typePrefix ++ '=' :: value).dropWhile (· != '=') = '=' :: value :=
    dropWhile_append_of_pos hkeep
  have htake : (typePrefix ++ '=' :: value).takeWhile (· != '=') = typePrefix := by
    rw [takeWhile_append_of_pos hkeep, takeWhile_cons_of_neg (by decide),
      append_nil]
  unfold fromEscapedString
  rw [hdrop, htake]

/-- The rules for `type` read what stands behind their prefix. -/
theorem fromEscapedString_alt (h : IsAltPrefix type uriPrefix) (value : Text) :
    fromEscapedString (uriPrefix ++ '=' :: value) = parseAltUriValue type value := by
  have hzero : strtoul uriPrefix = 0 := by
    unfold strtoul
    rw [h.notNumber]
  rw [fromEscapedString_equals h.literal, hzero, if_neg (fun h => absurd h.1 (by decide)), h.find]

/-- A number written out is read back where it fits. -/
theorem strtoul_to_string (h : number < 2 ^ 64) : strtoul (to_string number) = number := by
  unfold strtoul
  rw [scanNumber_to_string]
  dsimp only
  rw [if_pos h, negateIf, if_neg Bool.false_ne_true]

/-- A type that is in range is read from its number. -/
theorem fromEscapedString_type (hmin : tlv.NameComponentMin ≤ type)
    (hmax : type ≤ tlv.NameComponentMax) (value : Text) :
    fromEscapedString (to_string type ++ '=' :: value) = parseUriEscapedValue type value := by
  have hlt : type < 2 ^ 64 := by
    unfold tlv.NameComponentMax at hmax
    omega
  rw [fromEscapedString_equals (isLiteral_to_string type), strtoul_to_string hlt,
    if_pos ⟨hmin, hmax, rfl⟩]

/-- A number is no prefix of a type. -/
theorem findByUriPrefix_to_string (number : ℕ) :
    ComponentType.findByUriPrefix (to_string number) = none := by
  match hfind : ComponentType.findByUriPrefix (to_string number) with
  | none => rfl
  | some type =>
    have hget := List.find?_some hfind
    have halt := isAltPrefix_of_getAltUriPrefix (of_decide_eq_true hget)
    have hscan := scanNumber_to_string number
    rw [halt.notNumber] at hscan
    cases hscan

/-- A type that is not in range is not read. -/
theorem fromEscapedString_type_ne_ok
    (h : ¬ (tlv.NameComponentMin ≤ type ∧ type ≤ tlv.NameComponentMax)) (value : Text)
    (comp : Component) : fromEscapedString (to_string type ++ '=' :: value) ≠ .ok comp := by
  have hout : ¬ (tlv.NameComponentMin ≤ strtoul (to_string type) ∧
      strtoul (to_string type) ≤ tlv.NameComponentMax ∧
      to_string (strtoul (to_string type)) = to_string type) := by
    rintro ⟨hmin, hmax, -⟩
    by_cases hlt : type < 2 ^ 64
    · rw [strtoul_to_string hlt] at hmin hmax
      exact h ⟨hmin, hmax⟩
    · -- the number is too large and the largest one stands for it
      unfold strtoul at hmax
      rw [scanNumber_to_string] at hmax
      dsimp only at hmax
      rw [if_neg hlt] at hmax
      exact absurd hmax (by decide)
  rw [fromEscapedString_equals (isLiteral_to_string type), if_neg hout,
    findByUriPrefix_to_string]
  intro hok
  cases hok

/-- Unescaping takes escaping back. -/
theorem unescape_escape (value : Bytes) : unescape (escape value) = value := by
  apply percentDecode_percentEncode
  decide

/-- A value written out is read back as a component of its type. -/
theorem parseUriEscapedValue_writeUriEscapedValue (type : ℕ) (value : Bytes) :
    parseUriEscapedValue type (writeUriEscapedValue value) = construct type value := by
  by_cases hperiods : value.all isPeriod = true
  · have hvalue : value = List.replicate value.length 46 := by
      apply eq_replicate_iff.mpr
      exact ⟨rfl, fun octet h => eq_of_beq (all_eq_true.mp hperiods octet h)⟩
    have hmore : [46, 46, 46] ++ value = List.replicate (value.length + 3) 46 := by
      rw [Nat.add_comm, replicate_add, ← hvalue]
      rfl
    have hunescape : unescape (writeUriEscapedValue value) = List.replicate (value.length + 3) 46 :=
      calc
        unescape (writeUriEscapedValue value)
          = unescape (escape ([46, 46, 46] ++ value)) := by
            rw [writeUriEscapedValue, if_pos hperiods]
            rfl
        _ = List.replicate (value.length + 3) 46 := by rw [unescape_escape, hmore]
    have hall : (List.replicate (value.length + 3) (46 : UInt8)).all isPeriod = true := by
      rw [all_replicate]
      rfl
    unfold parseUriEscapedValue
    rw [hunescape]
    dsimp only
    rw [if_pos hall, length_replicate, if_neg (by omega), Nat.add_sub_cancel,
      take_replicate, Nat.min_eq_left (Nat.le_add_right _ _), ← hvalue]
  · have hunescape : unescape (writeUriEscapedValue value) = value := by
      rw [writeUriEscapedValue, if_neg hperiods, nil_append, unescape_escape]
    unfold parseUriEscapedValue
    rw [hunescape]
    exact if_neg hperiods

/-- The plain form reads back the type and the value. -/
theorem fromEscapedString_writePlainUri :
    fromEscapedString comp.writePlainUri = .ok comp' ↔
      construct comp.type comp.value = .ok comp' := by
  by_cases hrange : tlv.NameComponentMin ≤ comp.type ∧ comp.type ≤ tlv.NameComponentMax
  · rw [writePlainUri, fromEscapedString_type hrange.1 hrange.2,
      parseUriEscapedValue_writeUriEscapedValue]
  · have hconstruct : construct comp.type comp.value ≠ .ok comp' := by
      unfold construct
      rw [if_pos (by omega)]
      intro h
      cases h
    exact iff_of_false (fromEscapedString_type_ne_ok hrange _ comp') hconstruct

/-- A generic component reads back its value. -/
theorem fromEscapedString_writeUriEscapedValue (value : Bytes) :
    fromEscapedString (writeUriEscapedValue value) =
      construct tlv.GenericNameComponent value := by
  have hdrop : (writeUriEscapedValue value).dropWhile (· != '=') = [] := by
    apply dropWhile_eq_nil_iff.mpr
    exact fun c hc => bne_iff_ne.mpr (isLiteral_writeUriEscapedValue value c hc).2.2
  unfold fromEscapedString
  rw [hdrop]
  exact parseUriEscapedValue_writeUriEscapedValue _ value

/-- A digest written out is read back. -/
theorem parseAltUriValue_hexEncode (h : ComponentType.get type = .sha256 typeName uriPrefix)
    (value : Bytes) : parseAltUriValue type (hexEncode value) = construct type value := by
  unfold parseAltUriValue
  rw [h]
  dsimp only
  rw [hexDecode_hexEncode]

/-- A decimal number written out is read back. -/
theorem parseAltUriValue_to_string (h : ComponentType.get type = .decimal typeName uriPrefix)
    (hlt : number < 2 ^ 64) :
    parseAltUriValue type (to_string number) = fromNumber number type := by
  unfold parseAltUriValue
  rw [h]
  dsimp only
  rw [scanNumber_to_string]
  dsimp only
  rw [if_neg (by omega), negateIf, if_neg Bool.false_ne_true, if_neg (not_not_intro rfl)]

/-- The number of a component fits 64 bits. -/
theorem ofBigEndian_lt_of_isNumber (h : comp.isNumber = true) :
    ofBigEndian comp.value < 2 ^ 64 := by
  have hlen : comp.value.length ≤ 8 := by
    simp only [isNumber, or_eq_true, beq_iff_eq] at h
    omega
  calc
    ofBigEndian comp.value < 256 ^ comp.value.length := ofBigEndian_lt comp.value
    _ ≤ 256 ^ 8 := Nat.pow_le_pow_right (by decide) hlen
    _ = 2 ^ 64 := by decide

/-- The types from segment to sequence number are written as decimal numbers. -/
theorem get_decimal (hmin : tlv.SegmentNameComponent ≤ type)
    (hmax : type ≤ tlv.SequenceNumNameComponent) :
    ∃ typeName uriPrefix, ComponentType.get type = .decimal typeName uriPrefix := by
  have hcases : type = 33 ∨ type = 34 ∨ type = 35 ∨ type = 36 ∨ type = 37 := by
    unfold tlv.SegmentNameComponent at hmin
    unfold tlv.SequenceNumNameComponent at hmax
    omega
  rcases hcases with rfl | rfl | rfl | rfl | rfl
  all_goals exact ⟨_, _, rfl⟩

/-- A check that passes returns the component. -/
theorem ensureValid_eq_some (h : comp.ensureValid = some comp') : comp' = comp := by
  unfold ensureValid at h
  split_ifs at h
  cases h
  rfl

/-- A component that its URI gives back: the constructors take it, and when it is a number
of a typed component it has no octet too many. -/
def IsFaithful (comp : Component) : Prop :=
  comp.ensureValid = some comp ∧
    (tlv.SegmentNameComponent ≤ comp.type → comp.type ≤ tlv.SequenceNumNameComponent →
      comp.isNumber = true →
        comp.value = tlv.prependNonNegativeInteger (ofBigEndian comp.value))

instance : DecidablePred IsFaithful := fun _ => inferInstanceAs (Decidable (_ ∧ _))

/-- Where no number is written, a component is faithful if and only if it is valid. -/
theorem isFaithful_iff_ensureValid
    (h : ∀ typeName uriPrefix, ComponentType.get comp.type = .decimal typeName uriPrefix →
      comp.isNumber = false) :
    comp.IsFaithful ↔ comp.ensureValid = some comp := by
  refine ⟨fun hfaithful => hfaithful.1, fun hvalid => ⟨hvalid, fun hmin hmax hnumber => ?_⟩⟩
  obtain ⟨typeName, uriPrefix, hget⟩ := get_decimal hmin hmax
  rw [h typeName uriPrefix hget] at hnumber
  cases hnumber

/-- A component survives its URI if and only if it is faithful. -/
theorem throughUri_eq_iff (comp : Component) :
    comp.throughUri = .ok comp ↔ comp.IsFaithful := by
  have hother : ∀ {rules : ComponentType}, ComponentType.get comp.type = rules →
      (∀ typeName uriPrefix, rules ≠ .decimal typeName uriPrefix) →
      (comp.IsFaithful ↔ comp.ensureValid = some comp) := by
    intro rules hget hrules
    apply isFaithful_iff_ensureValid
    intro typeName uriPrefix hget'
    exact absurd (hget.symm.trans hget') (hrules typeName uriPrefix)
  unfold throughUri toUri
  split
  next hget =>
    rw [hother hget (fun _ _ h => by cases h), ← construct_eq_ok_iff]
    exact fromEscapedString_writePlainUri
  next hget =>
    have htype : comp.type = tlv.GenericNameComponent := by
      unfold ComponentType.get at hget
      split at hget
      all_goals first | cases hget; done | assumption
    rw [hother hget (fun _ _ h => by cases h), ← construct_eq_ok_iff, htype,
      fromEscapedString_writeUriEscapedValue]
  next typeName uriPrefix hget =>
    have halt : IsAltPrefix comp.type uriPrefix :=
      isAltPrefix_of_getAltUriPrefix (by rw [hget]; rfl)
    rw [hother hget (fun _ _ h => by cases h), ← construct_eq_ok_iff,
      fromEscapedString_alt halt, parseAltUriValue_hexEncode hget]
  next typeName uriPrefix hget =>
    by_cases hnumber : comp.isNumber = true
    · -- a number comes back in the fewest octets
      have halt : IsAltPrefix comp.type uriPrefix :=
        isAltPrefix_of_getAltUriPrefix (by rw [hget]; rfl)
      obtain ⟨hmin, hmax⟩ := type_of_get_decimal hget
      rw [if_pos hnumber, fromEscapedString_alt halt,
        parseAltUriValue_to_string hget (ofBigEndian_lt_of_isNumber hnumber), fromNumber,
        construct_eq_ok_iff]
      constructor
      · intro h
        have hcomp := ensureValid_eq_some h
        have hvalue : comp.value = tlv.prependNonNegativeInteger (ofBigEndian comp.value) :=
          congrArg Component.value hcomp
        rw [← hcomp] at h
        exact ⟨h, fun _ _ _ => hvalue⟩
      · rintro ⟨hvalid, hshortest⟩
        rw [← hshortest hmin hmax hnumber]
        exact hvalid
    · have hfaithful : comp.IsFaithful ↔ comp.ensureValid = some comp :=
        isFaithful_iff_ensureValid fun _ _ _ => eq_false_iff.mpr hnumber
      rw [if_neg hnumber, hfaithful, ← construct_eq_ok_iff]
      exact fromEscapedString_writePlainUri

/-- Neither a slash nor a colon. -/
def InSegment (c : Char) : Prop := c ≠ '/' ∧ c ≠ ':'

theorem IsLiteral.inSegment (h : IsLiteral c) : InSegment c := ⟨h.1, h.2.1⟩

/-- A URI prefix and a text of literals with `=` between them. -/
theorem inSegment_equals (halt : ∀ c ∈ uriPrefix, IsLiteral c) (htext : ∀ c ∈ text, IsLiteral c) :
    ∀ c ∈ uriPrefix ++ '=' :: text, InSegment c := by
  intro c hc
  rcases mem_append.mp hc with hc | hc
  · exact (halt c hc).inSegment
  · rcases mem_cons.mp hc with rfl | hc
    · exact ⟨by decide, by decide⟩
    · exact (htext c hc).inSegment

/-- The text of a component stays within its segment. -/
theorem inSegment_toUri (comp : Component) : ∀ c ∈ comp.toUri, InSegment c := by
  have hplain : ∀ c ∈ comp.writePlainUri, InSegment c :=
    inSegment_equals (isLiteral_to_string _) (isLiteral_writeUriEscapedValue _)
  unfold toUri
  split
  next => exact hplain
  next => exact fun c hc => (isLiteral_writeUriEscapedValue comp.value c hc).inSegment
  next typeName uriPrefix hget =>
    have halt : IsAltPrefix comp.type uriPrefix :=
      isAltPrefix_of_getAltUriPrefix (by rw [hget]; rfl)
    exact inSegment_equals halt.literal (isLiteral_hexEncode _)
  next typeName uriPrefix hget =>
    have halt : IsAltPrefix comp.type uriPrefix :=
      isAltPrefix_of_getAltUriPrefix (by rw [hget]; rfl)
    split
    next => exact inSegment_equals halt.literal (isLiteral_to_string _)
    next => exact hplain

/-- A value is never written as nothing. -/
theorem writeUriEscapedValue_ne_nil (value : Bytes) : writeUriEscapedValue value ≠ [] := by
  intro h
  obtain ⟨hperiods, hescape⟩ := append_eq_nil_iff.mp h
  split_ifs at hperiods with hall
  have hnil : value = unescape [] := by rw [← hescape, unescape_escape]
  rw [hnil] at hall
  exact hall rfl

/-- A component is never written as nothing. -/
theorem toUri_ne_nil (comp : Component) : comp.toUri ≠ [] := by
  unfold toUri writePlainUri
  split
  next => simp
  next => exact writeUriEscapedValue_ne_nil _
  next => simp
  next => split <;> simp

end Component

/-! ### Names -/

namespace Name

/-- `Name::toUri`. -/
def toUri (name : Name) : Text :=
  if name = [] then ['/'] else name.flatMap fun comp => '/' :: comp.toUri

/-- What `Name(uri)` leaves out before a colon that comes before every slash. -/
def stripScheme (uri : Text) : Text :=
  match uri.dropWhile fun c => c != ':' && c != '/' with
  | ':' :: rest => rest
  | _ => uri

/-- What it leaves out after that: a slash, or two and the authority. -/
def stripAuthority : Text → Text
  | '/' :: '/' :: uri =>
    match uri.dropWhile (· != '/') with
    | [] => []
    | _ :: rest => rest
  | '/' :: uri => uri
  | uri => uri

/-- `Name(uri)`. -/
def ofUri (uri : Text) : Result Name :=
  (segments '/' (stripAuthority (stripScheme uri))).mapM Component.fromEscapedString

/-! ### Names through their URI -/

/-- The components, each behind a slash. -/
def slashed (name : Name) : Text := name.flatMap fun comp => '/' :: comp.toUri

theorem toUri_of_ne_nil {name : Name} (h : name ≠ []) : toUri name = slashed name := if_neg h

/-- The text of a component has no slash. -/
theorem not_slash_mem_toUri (comp : Component) : '/' ∉ comp.toUri :=
  fun h => (comp.inSegment_toUri _ h).1 rfl

/-- A part, a name behind it and perhaps a slash at the end. -/
theorem segments_slashed {part tail : Text} (hpart : '/' ∉ part) (hne : part ≠ [])
    (htail : tail = [] ∨ tail = ['/']) (name : Name) :
    segments '/' (part ++ (slashed name ++ tail)) = part :: name.map Component.toUri := by
  induction name generalizing part with
  | nil =>
    show segments '/' (part ++ tail) = [part]
    rcases htail with rfl | rfl
    · rw [append_nil]
      exact segments_eq_singleton hpart hne
    · exact segments_append_cons hpart []
  | cons comp name ih =>
    calc
      segments '/' (part ++ (slashed (comp :: name) ++ tail))
        = segments '/' (part ++ '/' :: (comp.toUri ++ (slashed name ++ tail))) := by
          simp only [slashed, flatMap_cons, cons_append, append_assoc]
      _ = part :: segments '/' (comp.toUri ++ (slashed name ++ tail)) :=
          segments_append_cons hpart _
      _ = part :: (comp :: name).map Component.toUri := by
          rw [ih (not_slash_mem_toUri comp) comp.toUri_ne_nil, map_cons]

/-- The components of a name are written without a colon. -/
theorem not_colon_mem_slashed (name : Name) : ':' ∉ slashed name := by
  intro h
  obtain ⟨comp, -, h⟩ := mem_flatMap.mp h
  rcases mem_cons.mp h with h | h
  · exact absurd h (by decide)
  · exact (comp.inSegment_toUri _ h).2 rfl

/-- A name is written without a colon. -/
theorem not_colon_mem_toUri (name : Name) : ':' ∉ toUri name := by
  unfold toUri
  split
  next => decide
  next => exact not_colon_mem_slashed name

/-- A text without a colon has no scheme to strip. -/
theorem stripScheme_eq_self {uri : Text} (h : ':' ∉ uri) : stripScheme uri = uri := by
  unfold stripScheme
  split
  next rest hdrop =>
    have hmem : ':' ∈ uri.dropWhile fun c => c != ':' && c != '/' := by
      rw [hdrop]
      exact mem_cons_self ..
    exact absurd (dropWhile_subset _ hmem) h
  next => rfl

/-- The text of a component starts with a character that is no slash. -/
theorem exists_toUri_eq_cons (comp : Component) :
    ∃ c text, comp.toUri = c :: text ∧ c ≠ '/' := by
  match h : comp.toUri with
  | [] => exact absurd h comp.toUri_ne_nil
  | c :: text =>
    have hc : c ∈ comp.toUri := by
      rw [h]
      exact mem_cons_self ..
    exact ⟨c, text, rfl, (comp.inSegment_toUri c hc).1⟩

/-- A component in front is not taken for an authority. -/
theorem stripAuthority_toUri (comp : Component) (rest : Text) :
    stripAuthority (comp.toUri ++ rest) = comp.toUri ++ rest := by
  obtain ⟨c, text, hcomp, hc⟩ := exists_toUri_eq_cons comp
  rw [hcomp, cons_append]
  unfold stripAuthority
  split
  next h => exact absurd (List.cons.inj h).1 hc
  next h => exact absurd (List.cons.inj h).1 hc
  next => rfl

/-- Behind one slash a component is not taken for an authority. -/
theorem stripAuthority_slash (comp : Component) (rest : Text) :
    stripAuthority ('/' :: (comp.toUri ++ rest)) = comp.toUri ++ rest := by
  obtain ⟨c, text, hcomp, hc⟩ := exists_toUri_eq_cons comp
  rw [hcomp, cons_append]
  unfold stripAuthority
  split
  next h => exact absurd (List.cons.inj (List.cons.inj h).2).1 hc
  next h => rw [(List.cons.inj h).2]
  next h => exact absurd rfl (h _)

/-- The parts `Name(uri)` sees in the URI of a protocol, its first slash left out, with the
URI of a name behind it. -/
theorem segments_append (protocol name : Name) :
    segments '/' (stripAuthority ((toUri protocol).drop 1 ++ toUri name)) =
      (protocol ++ name).map Component.toUri := by
  match protocol, name with
  | [], [] => rfl
  | [], comp :: name =>
    have htext : (toUri []).drop 1 ++ toUri (comp :: name) =
        '/' :: (comp.toUri ++ (slashed name ++ [])) := by
      rw [toUri_of_ne_nil (cons_ne_nil comp name), append_nil]
      rfl
    rw [htext, stripAuthority_slash,
      segments_slashed (not_slash_mem_toUri comp) comp.toUri_ne_nil (.inl rfl)]
    rfl
  | comp :: protocol, name =>
    have hdrop : (toUri (comp :: protocol)).drop 1 = comp.toUri ++ slashed protocol := by
      rw [toUri_of_ne_nil (cons_ne_nil comp protocol)]
      rfl
    rw [hdrop, append_assoc, stripAuthority_toUri]
    match name with
    | [] =>
      have htail := segments_slashed (not_slash_mem_toUri comp) comp.toUri_ne_nil
        (.inr rfl) protocol
      rw [append_nil]
      exact htail
    | comp' :: name =>
      have hslashed : slashed protocol ++ toUri (comp' :: name) =
          slashed (protocol ++ comp' :: name) ++ [] := by
        rw [toUri_of_ne_nil (cons_ne_nil comp' name), append_nil, slashed, slashed,
          slashed, flatMap_append]
      rw [hslashed,
        segments_slashed (not_slash_mem_toUri comp) comp.toUri_ne_nil (.inl rfl)]
      rfl

/-- The protocol and the name written one behind the other are read component by component. -/
theorem ofUri_append (protocol name : Name) :
    ofUri ((toUri protocol).drop 1 ++ toUri name) =
      (protocol ++ name).mapM Component.throughUri := by
  have hcolon : ':' ∉ (toUri protocol).drop 1 ++ toUri name := by
    intro h
    rcases mem_append.mp h with h | h
    · exact not_colon_mem_toUri protocol (mem_of_mem_drop h)
    · exact not_colon_mem_toUri name h
  calc
    ofUri ((toUri protocol).drop 1 ++ toUri name)
      = ((protocol ++ name).map Component.toUri).mapM Component.fromEscapedString := by
        rw [ofUri, stripScheme_eq_self hcolon, segments_append]
    _ = (protocol ++ name).mapM Component.throughUri := mapM_map

/-- A name is read back if and only if there is no protocol and all its components are faithful. -/
theorem ofUri_append_eq_iff (protocol name : Name) :
    ofUri ((toUri protocol).drop 1 ++ toUri name) = .ok name ↔
      protocol = [] ∧ ∀ comp ∈ name, comp.IsFaithful := by
  rw [ofUri_append, ExceptFold.mapM_eq_ok_iff]
  have hfaithful : List.Forall₂ (fun comp comp' => comp.throughUri = .ok comp') name name ↔
      ∀ comp ∈ name, comp.IsFaithful := by
    simp only [forall₂_same, Component.throughUri_eq_iff]
  constructor
  · intro h
    have hlen := h.length_eq
    rw [length_append] at hlen
    have hprotocol : protocol = [] := eq_nil_of_length_eq_zero (by omega)
    subst hprotocol
    exact ⟨rfl, hfaithful.mp h⟩
  · rintro ⟨rfl, h⟩
    exact hfaithful.mpr h

end Name

end Ns3Joined.Ndn
