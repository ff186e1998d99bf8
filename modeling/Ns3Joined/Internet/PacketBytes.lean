import Mathlib.Data.List.TakeWhile

/-!
# The bytes of packets

What the buffers of TCP do with a `Packet` (`network/model/packet.cc`) is to take parts of it and to
put it behind another one. A packet is here the list of its bytes, and what is known of a byte
depends on what is asked:

* `UInt8`: the value that is meant. Packets are then put together by appending.
* `Octet`: where the byte is kept, in memory or in the zero area of the packet's `Buffer`, so that
  `Octet.AddAtEnd` can do what `Buffer::AddAtEnd` does.

`value_AddAtEnd`: the bytes that are meant are there, unless bytes behind a zero area are put behind
nothing but zeros.
-/

namespace Ns3Joined.Internet

open List

/-- The bytes of packets, with `Packet::AddAtEnd`. -/
class PacketBytes (α : Type) where
  AddAtEnd : List α → List α → List α

/-- The values that are meant. -/
instance : PacketBytes UInt8 := ⟨(· ++ ·)⟩

variable {α : Type}

/-- `GetSize` of a packet. -/
def GetSize (p : List α) : UInt32 := UInt32.ofNat p.length

/-- A byte of a packet: it is in memory, or in the zero area, or nothing was written where it is to
be, so that the memory has what was there before. -/
inductive Octet
  | written (value : UInt8)
  | zero
  | stale
deriving DecidableEq

namespace Octet

/-- The value that is read. What the memory had before is taken to be 0. -/
def value : Octet → UInt8
  | written value => value
  | zero | stale => 0

/-- A byte that was copied to memory. -/
def copied : Octet → Octet
  | zero => written 0
  | octet => octet

/-- `Packet::AddAtEnd` for a packet that has its memory for itself and ends in its zero area only if
it has no other bytes, as the one that is put together from nothing.

If the other one begins with a zero area, that is added to the own one, and what it has behind that
goes to the memory as if the zero areas were there too: all of both zero areas too far. Otherwise
all bytes are copied. -/
def AddAtEnd (p o : List Octet) : List Octet :=
  if (∀ x ∈ p, x = zero) ∧ o.head? = some zero then
    let zeros := p ++ o.takeWhile (· = zero)
    let endData := o.dropWhile (· = zero)
    zeros ++ (replicate zeros.length stale ++ endData).take endData.length
  else (p ++ o).map copied

instance : PacketBytes Octet := ⟨AddAtEnd⟩

/-- The packet does not begin with a zero area that has bytes behind it. -/
def Even (p : List Octet) : Prop := p.head? = some zero → ∀ x ∈ p, x = zero

instance (p : List Octet) : Decidable (Even p) := inferInstanceAs (Decidable (_ → _))

/-- A piece of an even segment is even. -/
theorem Even.take {p : List Octet} (h : Even p) (n : ℕ) : Even (p.take n) := by
  intro hhead x hx
  refine h ?_ x (mem_of_mem_take hx)
  cases n with
  | zero => cases hhead
  | succ n => rwa [head?_take, if_neg n.succ_ne_zero] at hhead

/-- Copying an octet keeps its value. -/
theorem value_copied (octet : Octet) : octet.copied.value = octet.value := by
  cases octet <;> rfl

/-- What is put behind other bytes is read there. -/
theorem value_AddAtEnd (p : List Octet) {o : List Octet} (h : Even o) :
    (AddAtEnd p o).map value = p.map value ++ o.map value := by
  unfold AddAtEnd
  split_ifs with hzero
  · have hall := h hzero.2
    have htake : o.takeWhile (· = zero) = o :=
      takeWhile_eq_self_iff.mpr fun x hx => decide_eq_true (hall x hx)
    have hdrop : o.dropWhile (· = zero) = [] :=
      dropWhile_eq_nil_iff.mpr fun x hx => decide_eq_true (hall x hx)
    dsimp only
    rw [htake, hdrop, length_nil, take_zero, append_nil, map_append]
  · rw [map_map, ← map_append]
    exact map_congr_left fun x _ => value_copied x

end Octet

/-- A packet as it comes from elsewhere: the bytes before its zero area, how long that is, and the
bytes behind it. -/
structure Segment where
  start : List UInt8
  zeroSize : ℕ
  rest : List UInt8
deriving DecidableEq

namespace Segment

/-- The bytes that are meant. -/
def bytes (p : Segment) : List UInt8 := p.start ++ replicate p.zeroSize 0 ++ p.rest

/-- Where they are kept. -/
def octets (p : Segment) : List Octet :=
  p.start.map .written ++ replicate p.zeroSize .zero ++ p.rest.map .written

/-- The values of the octets of a segment are its bytes. -/
theorem value_octets (p : Segment) : p.octets.map Octet.value = p.bytes := by
  have hwritten (l : List UInt8) : (l.map Octet.written).map Octet.value = l := by
    rw [map_map]
    exact map_id l
  rw [octets, map_append, map_append, hwritten, hwritten, map_replicate]
  rfl

end Segment

end Ns3Joined.Internet
