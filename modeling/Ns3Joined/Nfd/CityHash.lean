import Ns3Joined.NdnCxx.Name

/-!
# CityHash64

`CityHash64WithSeed` (`common/city-hash.cpp`), on a machine that stores the least
significant octet first. Nothing is proved about the function: what the Dead Nonce List
does holds for any hash, and the real one is here to compute with.
-/

namespace Ns3Joined.Nfd.CityHash

open Ndn (Bytes)

/-- The number in the octets, the first the least significant. -/
def load (octets : Bytes) : UInt64 :=
  octets.foldr (fun octet number => number <<< 8 ||| octet.toUInt64) 0

def Fetch64 (s : Bytes) (offset : ℕ) : UInt64 := load ((s.drop offset).take 8)

def Fetch32 (s : Bytes) (offset : ℕ) : UInt64 := load ((s.drop offset).take 4)

def k0 : UInt64 := 0xc3a5c85c97cb3127

def k1 : UInt64 := 0xb492b66fbe98f273

def k2 : UInt64 := 0x9ae16a3b2f90404f

def Rotate (val shift : UInt64) : UInt64 :=
  if shift = 0 then val else val >>> shift ||| val <<< (64 - shift)

def ShiftMix (val : UInt64) : UInt64 := val ^^^ val >>> 47

/-- `HashLen16` with a multiplier. -/
def HashLen16Mul (u v mul : UInt64) : UInt64 :=
  let a := ShiftMix ((u ^^^ v) * mul)
  let b := ShiftMix ((v ^^^ a) * mul)
  b * mul

/-- `HashLen16` without one: `Hash128to64`. -/
def HashLen16 (u v : UInt64) : UInt64 := HashLen16Mul u v 0x9ddfea08eb382d69

def HashLen0to16 (s : Bytes) : UInt64 :=
  let len := UInt64.ofNat s.length
  let mul := k2 + len * 2
  if 8 ≤ s.length then
    let a := Fetch64 s 0 + k2
    let b := Fetch64 s (s.length - 8)
    let c := Rotate b 37 * mul + a
    let d := (Rotate a 25 + b) * mul
    HashLen16Mul c d mul
  else if 4 ≤ s.length then
    let a := Fetch32 s 0
    HashLen16Mul (len + a <<< 3) (Fetch32 s (s.length - 4)) mul
  else if 0 < s.length then
    let a := (s.getD 0 0).toUInt64
    let b := (s.getD (s.length / 2) 0).toUInt64
    let c := (s.getD (s.length - 1) 0).toUInt64
    let y := a + b <<< 8
    let z := len + c <<< 2
    ShiftMix (y * k2 ^^^ z * k0) * k2
  else k2

def HashLen17to32 (s : Bytes) : UInt64 :=
  let mul := k2 + UInt64.ofNat s.length * 2
  let a := Fetch64 s 0 * k1
  let b := Fetch64 s 8
  let c := Fetch64 s (s.length - 8) * mul
  let d := Fetch64 s (s.length - 16) * k2
  HashLen16Mul (Rotate (a + b) 43 + Rotate c 30 + d) (a + Rotate (b + k2) 18 + c) mul

/-- `bswap_64`. -/
def bswap (number : UInt64) : UInt64 :=
  (List.range 8).foldl (fun swapped i =>
    swapped <<< 8 ||| (number >>> (8 * UInt64.ofNat i) &&& 0xff)) 0

def HashLen33to64 (s : Bytes) : UInt64 :=
  let mul := k2 + UInt64.ofNat s.length * 2
  let a := Fetch64 s 0 * k2
  let b := Fetch64 s 8
  let c := Fetch64 s (s.length - 24)
  let d := Fetch64 s (s.length - 32)
  let e := Fetch64 s 16 * k2
  let f := Fetch64 s 24 * 9
  let g := Fetch64 s (s.length - 8)
  let h := Fetch64 s (s.length - 16) * mul
  let u := Rotate (a + g) 43 + (Rotate b 30 + c) * 9
  let v := ((a + g) ^^^ d) + f + 1
  let w := bswap ((u + v) * mul) + h
  let x := Rotate (e + f) 42 + c
  let y := (bswap ((v + w) * mul) + g) * mul
  let z := e + f + c
  let a := bswap ((x + z) * mul + y) + b
  let b := ShiftMix ((z + a) * mul + d + h) * mul
  b + x

/-- `WeakHashLen32WithSeeds`, of the 32 octets from `offset` on. -/
def WeakHashLen32WithSeeds (s : Bytes) (offset : ℕ) (a b : UInt64) : UInt64 × UInt64 :=
  let w := Fetch64 s offset
  let x := Fetch64 s (offset + 8)
  let y := Fetch64 s (offset + 16)
  let z := Fetch64 s (offset + 24)
  let a := a + w
  let b := Rotate (b + a + z) 21
  let c := a
  let a := a + x + y
  let b := b + Rotate a 44
  (a + z, b + c)

/-- The 56 octets of state of the loop over blocks of 64. -/
structure Loop where
  v : UInt64 × UInt64
  w : UInt64 × UInt64
  x : UInt64
  y : UInt64
  z : UInt64

/-- One round, over the block at `offset`. -/
def Loop.round (s : Bytes) (st : Loop) (offset : ℕ) : Loop :=
  let x := Rotate (st.x + st.y + st.v.1 + Fetch64 s (offset + 8)) 37 * k1
  let y := Rotate (st.y + st.v.2 + Fetch64 s (offset + 48)) 42 * k1
  let x := x ^^^ st.w.2
  let y := y + st.v.1 + Fetch64 s (offset + 40)
  let z := Rotate (st.z + st.w.1) 33 * k1
  let v := WeakHashLen32WithSeeds s offset (st.v.2 * k1) (x + st.w.1)
  let w := WeakHashLen32WithSeeds s (offset + 32) (z + st.w.2) (y + Fetch64 s (offset + 16))
  -- the round ends with a swap
  { v := v, w := w, x := z, y := y, z := x }

def CityHash64 (s : Bytes) : UInt64 :=
  let n := s.length
  let len := UInt64.ofNat n
  if n ≤ 16 then HashLen0to16 s
  else if n ≤ 32 then HashLen17to32 s
  else if n ≤ 64 then HashLen33to64 s
  else
    let x := Fetch64 s (n - 40)
    let y := Fetch64 s (n - 16) + Fetch64 s (n - 56)
    let z := HashLen16 (Fetch64 s (n - 48) + len) (Fetch64 s (n - 24))
    let v := WeakHashLen32WithSeeds s (n - 64) len z
    let w := WeakHashLen32WithSeeds s (n - 32) (y + k1) x
    let start : Loop := { v := v, w := w, x := x * k1 + Fetch64 s 0, y := y, z := z }
    -- as many blocks of 64 as come before the last octet
    let st := (List.range ((n - 1) / 64)).foldl (fun st i => st.round s (64 * i)) start
    HashLen16 (HashLen16 st.v.1 st.w.1 + ShiftMix st.y * k1 + st.z)
      (HashLen16 st.v.2 st.w.2 + st.x)

def CityHash64WithSeed (s : Bytes) (seed : UInt64) : UInt64 :=
  HashLen16 (CityHash64 s - k2) seed

end Ns3Joined.Nfd.CityHash
