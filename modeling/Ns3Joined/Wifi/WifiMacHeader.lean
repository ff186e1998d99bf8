import Mathlib.Data.Fintype.Pi

/-!
# MAC headers

The fields of `WifiMacHeader` (`wifi-mac-header.h`) that the receiving and the transmitting
side of block acknowledgements and of defragmentation read, and the arithmetic on sequence
numbers of `qos-utils.cc` and `wifi-utils.cc`.
-/

namespace Ns3Joined.Wifi

/-- `SEQNO_SPACE_SIZE`: sequence numbers have 12 bits. -/
def SEQNO_SPACE_SIZE : ℕ := 4096

def SEQNO_SPACE_HALF_SIZE : ℕ := SEQNO_SPACE_SIZE / 2

/-- `Mac48Address`: six octets. -/
structure Mac48Address where
  m_address : Fin 6 → UInt8
deriving DecidableEq

/-- `Mac48Address::IsGroup`. -/
def Mac48Address.IsGroup (a : Mac48Address) : Bool := a.m_address 0 &&& 0x01 == 0x01

/-- A `WifiMacHeader`. -/
structure WifiMacHeader where
  m_ctrlType : ℕ
  m_ctrlSubtype : ℕ
  m_ctrlMoreFrag : Bool
  m_ctrlRetry : Bool
  m_addr1 : Mac48Address
  m_addr2 : Mac48Address
  m_seqFrag : ℕ
  m_seqSeq : ℕ
  m_qosTid : ℕ
deriving DecidableEq

namespace WifiMacHeader

def TYPE_MGT : ℕ := 0

def TYPE_DATA : ℕ := 2

def IsData (hdr : WifiMacHeader) : Bool := hdr.m_ctrlType == TYPE_DATA

def IsMgt (hdr : WifiMacHeader) : Bool := hdr.m_ctrlType == TYPE_MGT

def IsQosData (hdr : WifiMacHeader) : Bool :=
  hdr.m_ctrlType == TYPE_DATA && hdr.m_ctrlSubtype &&& 0x08 != 0

/-- The sequence number above the four bits of the fragment number. -/
def GetSequenceControl (hdr : WifiMacHeader) : ℕ := (hdr.m_seqSeq <<< 4) ||| hdr.m_seqFrag

def GetSequenceNumber (hdr : WifiMacHeader) : ℕ := hdr.m_seqSeq

def GetFragmentNumber (hdr : WifiMacHeader) : ℕ := hdr.m_seqFrag

def IsRetry (hdr : WifiMacHeader) : Bool := hdr.m_ctrlRetry

def IsMoreFragments (hdr : WifiMacHeader) : Bool := hdr.m_ctrlMoreFrag

/-- The fields have the bits that a received header has for them. -/
def WellFormed (hdr : WifiMacHeader) : Prop := hdr.m_seqSeq < SEQNO_SPACE_SIZE ∧ hdr.m_seqFrag < 16

instance (hdr : WifiMacHeader) : Decidable hdr.WellFormed := inferInstanceAs (Decidable (_ ∧ _))

end WifiMacHeader

/-- `QosUtilsIsOldPacket`: the number is at least half the space ahead, so it is behind. The
assertions on its arguments are the callers' (`WifiMacHeader.WellFormed`). -/
def QosUtilsIsOldPacket (startingSeq seqNumber : ℕ) : Bool :=
  (seqNumber + 4096 - startingSeq) % 4096 ≥ 2048

def IsInWindow (seq winstart winsize : ℕ) : Bool := (seq + 4096 - winstart) % 4096 < winsize

end Ns3Joined.Wifi
