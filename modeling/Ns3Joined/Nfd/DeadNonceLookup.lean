import Ns3Joined.Nfd.DeadNonceList

/-!
# Looking up dead Nonces

The Dead Nonce List over whole runs. A `History` is the list together with what each of its
entries was recorded for, a `DeadNonce`, or nothing for a mark. The pipelines may hand the
list any PIT entries in any order, and the timers may fire in between.

`insertDeadNonceList` hashes the name of the PIT entry, in the octets it came in.
`onIncomingInterest` hashes the name it reads back from the protocol followed by the URI of the
name. The two are the same name exactly when the protocol is empty and the URI of the name is
faithful (`lookedUpName_eq_iff`), and then what the list holds is recognised if the names came
with shortest headers (`deadNonces_recognised`). An Interest of the kademlia protocol never is the
one recorded: `not_recognised_kademlia`.
-/

namespace Ns3Joined.Nfd

open List
open DeadNonceList (has makeEntry ofLifetime)

open Ndn (Name Component Interest Bytes Result)

/-- The Interest an entry of the list was recorded for. -/
structure DeadNonce where
  name : WireName
  protocol : Name
  nonce : UInt32
deriving DecidableEq

/-! ### What is recorded -/

/-- `needDnl` of `insertDeadNonceList`. -/
def needDnl (lifetime : ℕ) (pitEntry : pit.Entry Interest) : Bool :=
  if pitEntry.isSatisfied then
    pitEntry.interest.mustBeFresh && pitEntry.dataFreshnessPeriod * 1000000 < lifetime
  else true

/-- The out-records whose Nonces go into the list. -/
def recordedOutRecords (lifetime : ℕ) (pitEntry : pit.Entry Interest)
    (upstream : Option Face) : List pit.OutRecord :=
  if needDnl lifetime pitEntry then
    match upstream with
    | none => pitEntry.outRecords
    | some upstream => (pitEntry.getOutRecord upstream).toList
  else []

/-- An out-record keeps the protocol of the Interest that was sent. -/
def pit.OutRecord.deadNonce (name : WireName) (outRecord : pit.OutRecord) : DeadNonce :=
  ⟨name, outRecord.protocol, outRecord.lastNonce⟩

/-! ### Histories -/

/-- The list, and beside each entry of its queue what it was recorded for. -/
structure History where
  dnl : DeadNonceList
  origins : List (Option DeadNonce)

variable {dnl : DeadNonceList} {origins : List (Option DeadNonce)} {h : History} {d : DeadNonce}
  {calls : List Call} {lifetime : ℕ}

namespace History

/-- What is left of the origins when the list has evicted entries from the front. -/
def follow (origins : List (Option DeadNonce)) (dnl : DeadNonceList) : History :=
  ⟨dnl, origins.drop (origins.length - dnl.queue.length)⟩

def add (h : History) (d : DeadNonce) : History :=
  follow (h.origins ++ [some d]) (h.dnl.add d.name d.nonce)

/-- What happens to the list in a run of the forwarder. The name of the Interest of a PIT entry may
have the wire that it was decoded from. -/
inductive Call
  | insertDeadNonceList (pitEntry : pit.Entry Interest) (m_wire : Option Bytes)
      (upstream : Option Face)
  | mark
  | adjustCapacity

def step (h : History) : Call → History
  | .insertDeadNonceList pitEntry m_wire upstream =>
    ((recordedOutRecords h.dnl.lifetime pitEntry upstream).map
      (pit.OutRecord.deadNonce ⟨pitEntry.interest.name, m_wire⟩)).foldl add h
  | .mark => follow (h.origins ++ [none]) h.dnl.mark
  | .adjustCapacity => follow h.origins h.dnl.adjustCapacity

def start (dnl : DeadNonceList) : History := ⟨dnl, dnl.queue.map fun _ => none⟩

/-- A run from a new list. -/
def run (lifetime : ℕ) (calls : List Call) : Result History := do
  let dnl ← ofLifetime lifetime
  return calls.foldl step (start dnl)

/-! ### The origins are those of the entries -/

/-- The entry for an origin. -/
def entryOf : Option DeadNonce → UInt64
  | none => DeadNonceList.MARK
  | some d => makeEntry d.name d.nonce

/-- The queue and the origins go together. -/
def Aligned (h : History) : Prop := h.dnl.queue = h.origins.map entryOf

/-- The list is what is left of the recorded entries. -/
theorem aligned_follow {k : ℕ} (h : dnl.queue = (origins.map entryOf).drop k) :
    (follow origins dnl).Aligned := by
  have hlen : dnl.queue.length = origins.length - k := by
    rw [h, length_drop, length_map]
  show dnl.queue = (origins.drop (origins.length - dnl.queue.length)).map entryOf
  rw [hlen, map_drop]
  by_cases hk : k ≤ origins.length
  · rw [h, Nat.sub_sub_self hk]
  · -- everything is gone
    have hempty : origins.length - (origins.length - k) = origins.length := by omega
    have hdrop : ∀ j, origins.length ≤ j → (origins.map entryOf).drop j = [] := by
      intro j hj
      apply drop_eq_nil_of_le
      rwa [length_map]
    rw [hempty, h, hdrop k (by omega), hdrop _ (Nat.le_refl _)]

/-- Recording one more keeps the entries and the records aligned. -/
theorem aligned_add (hh : h.Aligned) (d : DeadNonce) : (h.add d).Aligned := by
  apply aligned_follow
  show List.drop _ (h.dnl.queue ++ [makeEntry d.name d.nonce]) = _
  rw [hh, map_append]
  rfl

/-- Every call keeps the entries and the records aligned. -/
theorem aligned_step (hh : h.Aligned) (call : Call) : (h.step call).Aligned := by
  cases call with
  | insertDeadNonceList pitEntry m_wire upstream =>
    show (List.foldl add h _).Aligned
    generalize (recordedOutRecords h.dnl.lifetime pitEntry upstream).map
      (pit.OutRecord.deadNonce ⟨pitEntry.interest.name, m_wire⟩) = dead
    induction dead generalizing h with
    | nil => exact hh
    | cons d dead ih => exact ih (aligned_add hh d)
  | mark =>
    apply aligned_follow (k := 0)
    show h.dnl.queue ++ [DeadNonceList.MARK] = _
    rw [hh, map_append]
    rfl
  | adjustCapacity =>
    apply aligned_follow
    show List.drop _ h.dnl.queue = _
    rw [hh]

/-! ### What the origins have in common -/

/-- A property of all origins. -/
def Origins (P : DeadNonce → Prop) (h : History) : Prop := ∀ d, some d ∈ h.origins → P d

variable {P : DeadNonce → Prop}

/-- What is left of the records has the property of the records. -/
theorem origins_follow (h : ∀ d, some d ∈ origins → P d) (dnl : DeadNonceList) :
    (follow origins dnl).Origins P :=
  fun d hd => h d (mem_of_mem_drop hd)

/-- Recording one more with the property keeps the property. -/
theorem origins_add (hh : h.Origins P) (hd : P d) : (h.add d).Origins P := by
  apply origins_follow
  intro d' hd'
  rcases mem_append.mp hd' with hd' | hd'
  · exact hh d' hd'
  · cases mem_singleton.mp hd'
    exact hd

/-- What a call records has the property. -/
def Call.Records (P : DeadNonce → Prop) (lifetime : ℕ) : Call → Prop
  | .insertDeadNonceList pitEntry m_wire upstream =>
    ∀ outRecord ∈ recordedOutRecords lifetime pitEntry upstream,
      P (outRecord.deadNonce ⟨pitEntry.interest.name, m_wire⟩)
  | .mark | .adjustCapacity => True

/-- Every call that records with the property keeps it. -/
theorem origins_step (hh : h.Origins P) {call : Call} (hcall : call.Records P h.dnl.lifetime) :
    (h.step call).Origins P := by
  cases call with
  | insertDeadNonceList pitEntry m_wire upstream =>
    have hdead : ∀ d ∈ (recordedOutRecords h.dnl.lifetime pitEntry upstream).map
        (pit.OutRecord.deadNonce ⟨pitEntry.interest.name, m_wire⟩), P d := by
      intro d hd
      obtain ⟨outRecord, hrecord, rfl⟩ := mem_map.mp hd
      exact hcall outRecord hrecord
    clear hcall
    show (List.foldl add h _).Origins P
    revert hdead
    generalize (recordedOutRecords h.dnl.lifetime pitEntry upstream).map
      (pit.OutRecord.deadNonce ⟨pitEntry.interest.name, m_wire⟩) = dead
    intro hdead
    induction dead generalizing h with
    | nil => exact hh
    | cons d dead ih =>
      obtain ⟨hd, hdead⟩ := forall_mem_cons.mp hdead
      exact ih (origins_add hh hd) hdead
  | mark =>
    apply origins_follow
    intro d hd
    rcases mem_append.mp hd with hd | hd
    · exact hh d hd
    · cases mem_singleton.mp hd
  | adjustCapacity => exact origins_follow hh _

/-- No call changes the lifetime. -/
theorem lifetime_step (h : History) (call : Call) :
    (h.step call).dnl.lifetime = h.dnl.lifetime := by
  cases call with
  | insertDeadNonceList pitEntry m_wire upstream =>
    show (List.foldl add h _).dnl.lifetime = _
    generalize (recordedOutRecords h.dnl.lifetime pitEntry upstream).map
      (pit.OutRecord.deadNonce ⟨pitEntry.interest.name, m_wire⟩) = dead
    induction dead generalizing h with
    | nil => rfl
    | cons d dead ih => exact ih (h.add d)
  | mark => rfl
  | adjustCapacity => rfl

/-- A run keeps the alignment and the property of the records. -/
theorem foldl_step_spec (hh : h.Aligned ∧ h.Origins P)
    (hcalls : ∀ call ∈ calls, call.Records P h.dnl.lifetime) :
    (calls.foldl step h).Aligned ∧ (calls.foldl step h).Origins P := by
  induction calls generalizing h with
  | nil => exact hh
  | cons call calls ih =>
    obtain ⟨hcall, hcalls⟩ := forall_mem_cons.mp hcalls
    apply ih ⟨aligned_step hh.1 call, origins_step hh.2 hcall⟩
    rwa [lifetime_step]

/-- A new list holds marks only. -/
theorem start_spec (h : ofLifetime lifetime = .ok dnl) :
    ((start dnl).Aligned ∧ (start dnl).Origins P) ∧ dnl.lifetime = lifetime := by
  unfold ofLifetime at h
  split_ifs at h
  cases h
  refine ⟨⟨rfl, fun d hd => ?_⟩, rfl⟩
  obtain ⟨entry, -, hd⟩ := mem_map.mp hd
  cases hd

/-- What a run keeps: the queue and the origins go together, and the origins have what all
calls record. -/
theorem run_spec (hrun : run lifetime calls = .ok h)
    (hcalls : ∀ call ∈ calls, call.Records P lifetime) : h.Aligned ∧ h.Origins P := by
  obtain ⟨dnl, hdnl, hfold⟩ := ExceptFold.bind_eq_ok_iff.mp hrun
  cases hfold
  obtain ⟨hstart, rfl⟩ := start_spec hdnl
  exact foldl_step_spec hstart hcalls

end History

/-! ### The two keys -/

/-- The name that `onIncomingInterest` looks up. -/
def lookedUpName (interest : Interest) : Result Name :=
  Name.ofUri (getProtocolString interest ++ Name.toUri interest.name)

/-- It is the name that is recorded. -/
def Matches (name protocol : Name) : Prop :=
  protocol = [] ∧ ∀ comp ∈ name, comp.IsFaithful

/-- The name looked up is the name recorded if and only if the URI gives it back. -/
theorem lookedUpName_eq_iff (interest : Interest) :
    lookedUpName interest = .ok interest.name ↔ Matches interest.name interest.protocol :=
  Name.ofUri_append_eq_iff interest.protocol interest.name

/-- The Interest that comes back goes to the Interest loop pipeline. -/
def Recognised (dnl : DeadNonceList) (d : DeadNonce) : Prop :=
  ∀ interest : Interest, interest.name = d.name.name → interest.protocol = d.protocol →
    interest.nonce = some d.nonce → ∀ ingress random,
      onIncomingInterest dnl ingress interest random = .ok .loop

/-- The name has shortest headers: its wire is the one that encoding it anew gives. -/
def WireName.Shortest (name : WireName) : Prop := name.wireEncode = name.name.wireEncode

/-- The two sides agree on the Interest and on the octets of its name, and the control of the
`/localhost` scope lets it through. -/
def DeadNonce.Recognisable (d : DeadNonce) : Prop :=
  Matches d.name.name d.protocol ∧ d.name.Shortest ∧ ¬ scope_prefix.LOCALHOST <+: d.name.name

/-- A recognisable record in the list is recognised. -/
theorem recognised_of_mem (hd : d.Recognisable)
    (hmem : makeEntry d.name d.nonce ∈ dnl.queue) : Recognised dnl d := by
  rintro interest hname hprotocol hnonce ingress random
  have hlookup : Name.ofUri (getProtocolString interest ++ Name.toUri interest.name) =
      .ok d.name.name := by
    rw [← hname]
    apply (lookedUpName_eq_iff interest).mpr
    rw [hname, hprotocol]
    exact hd.1
  have hgetNonce : (interest.getNonce random).1 = d.nonce := by
    unfold Interest.getNonce
    rw [hnonce]
  have hscope : ¬ (ingress.scope = .FACE_SCOPE_NON_LOCAL ∧
      scope_prefix.LOCALHOST <+: interest.name) := by
    rw [hname]
    exact fun h => hd.2.2 h.2
  -- the name that is looked up has the octets that were recorded
  have hkey : makeEntry ⟨d.name.name, none⟩ d.nonce =
      makeEntry d.name d.nonce := by
    have hwire : WireName.wireEncode ⟨d.name.name, none⟩ = d.name.name.wireEncode := rfl
    unfold makeEntry
    rw [hd.2.1, hwire]
  have hhas : dnl.has ⟨d.name.name, none⟩ d.nonce = true := by
    unfold has
    rw [hkey]
    exact contains_iff_mem.mpr hmem
  unfold onIncomingInterest
  rw [if_neg hscope, hlookup]
  show (if dnl.has ⟨d.name.name, none⟩ (interest.getNonce random).1 = true then _ else _) = _
  rw [hgetNonce, if_pos hhas]
  rfl

/-- The two sides look at the same name exactly for Interests without a protocol and with a
faithful name. In a run that records only such Interests, with shortest headers and outside
`/localhost`, all that is in the list is recognised. -/
theorem deadNonces_recognised {lifetime : ℕ} {calls : List History.Call} {h : History}
    (hrun : History.run lifetime calls = .ok h)
    (hcalls : ∀ call ∈ calls, call.Records DeadNonce.Recognisable lifetime) :
    (∀ interest : Interest,
      lookedUpName interest = .ok interest.name ↔ Matches interest.name interest.protocol) ∧
    ∀ d, some d ∈ h.origins → Recognised h.dnl d := by
  refine ⟨lookedUpName_eq_iff, fun d hd => ?_⟩
  obtain ⟨haligned, horigins⟩ := History.run_spec hrun hcalls
  apply recognised_of_mem (horigins d hd)
  rw [haligned]
  exact mem_map_of_mem hd

section Examples

/-- `/a` -/
def exampleName : Name := [⟨Ndn.tlv.GenericNameComponent, [97]⟩]

def exampleFace : Face := ⟨1, .FACE_SCOPE_NON_LOCAL, .LINK_TYPE_POINT_TO_POINT⟩

/-- A PIT entry for `/a` that went out once, with Nonce 1. -/
def examplePitEntry (protocol : Name) : pit.Entry Interest where
  interest := { name := exampleName, protocol := protocol, nonce := some 1 }
  inRecords := []
  outRecords := [{ face := exampleFace, lastNonce := 1, lastRenewed := 0, expiry := 4000000000
                   protocol := protocol, incomingNack := none }]
  isSatisfied := false
  dataFreshnessPeriod := 0

/-- The history in which that entry is finalized. -/
def exampleCalls (protocol : Name) : List History.Call :=
  [.insertDeadNonceList (examplePitEntry protocol) (some exampleName.wireEncode) none]

def exampleHistory (protocol : Name) : History :=
  match History.run 6000000000 (exampleCalls protocol) with
  | .ok h => h
  | .error _ => ⟨⟨0, [], 0, []⟩, []⟩

end Examples

/-- Without a protocol the Interest is recognised when it comes back. -/
theorem recognised_plain :
    Recognised (exampleHistory []).dnl ⟨⟨exampleName, some exampleName.wireEncode⟩, [], 1⟩ := by
  have hrun : History.run 6000000000 (exampleCalls []) = .ok (exampleHistory []) := rfl
  apply (deadNonces_recognised hrun ?_).2
  · decide +kernel
  · intro call hcall
    cases mem_singleton.mp hcall
    intro outRecord hrecord
    cases mem_singleton.mp hrecord
    exact ⟨⟨rfl, by decide⟩, rfl, by decide⟩

/-- With the kademlia protocol it is not: `/kademlia/a` is looked up. -/
theorem not_recognised_kademlia :
    ¬ ∀ (lifetime : ℕ) (calls : List History.Call) (h : History),
      History.run lifetime calls = .ok h →
      ∀ d, some d ∈ h.origins → Recognised h.dnl d := by
  intro hall
  let protocol : Name := [⟨Ndn.tlv.GenericNameComponent, Interest.kademlia⟩]
  have h := hall 6000000000 (exampleCalls protocol) (exampleHistory protocol) rfl
    ⟨⟨exampleName, some exampleName.wireEncode⟩, protocol, 1⟩ (by decide +kernel)
      (examplePitEntry protocol).interest rfl rfl rfl
    exampleFace 0
  revert h
  decide +kernel

end Ns3Joined.Nfd
