import Mathlib.Order.Nat
import Ns3Joined.Network.PacketBb

/-!
# Heads and tails of addresses

What `GetHeadTail` finds. The head is what all addresses have in common. The loop for the tail goes
one octet further than the tail so far, so that two addresses that have more in common make it
longer again; it is a tail of all addresses just if it is one of the last two (`shared_iff`).

* `Compared`: the lengths after some addresses.
* `compared_next`: after one more.
* `getHeadTail_spec`: after all.
* `headTailRight_iff`: when they are right.
-/

namespace Ns3Joined.Network.PacketBb.PbbAddressBlock

open List

variable {length headlen taillen i : ℕ} {buflast address : Address}

variable {addresses : List Address} {n : ℕ} {x y : Address}

/-- Fewer addresses agree where more do. -/
theorem AgreeAt.mono {addresses' : List Address} (h : AgreeAt addresses i)
    (hsub : ∀ x ∈ addresses', x ∈ addresses) : AgreeAt addresses' i :=
  fun x hx y hy => h x (hsub x hx) y (hsub y hy)

/-- One more address agrees where it agrees with one of them. -/
theorem AgreeAt.concat (h : AgreeAt addresses i) (hmem : buflast ∈ addresses)
    (heq : buflast[i]? = address[i]?) : AgreeAt (addresses ++ [address]) i := by
  have hall : ∀ x ∈ addresses ++ [address], x[i]? = buflast[i]? := by
    intro x hx
    obtain hx | hx := mem_append.mp hx
    · exact h x hx buflast hmem
    · rw [mem_singleton.mp hx, heq]
  exact fun x hx y hy => (hall x hx).trans (hall y hy).symm

/-! ### The two loops -/

/-- The loop for the head stops where the addresses differ. -/
theorem headLoop_spec (buflast address : Address) (headlen : ℕ) :
    headLoop buflast address headlen ≤ headlen ∧
    (∀ i < headLoop buflast address headlen, buflast[i]? = address[i]?) ∧
    (headLoop buflast address headlen < headlen →
      buflast[headLoop buflast address headlen]? ≠ address[headLoop buflast address headlen]?) := by
  unfold headLoop
  cases hfind : (List.range headlen).find? fun i => buflast[i]? != address[i]? with
  | none =>
    refine ⟨Nat.le_refl _, fun i hi => ?_, fun hlt => absurd hlt (Nat.lt_irrefl _)⟩
    have := List.find?_eq_none.mp hfind i (mem_range.mpr hi)
    simpa using this
  | some n =>
    rw [List.find?_range_eq_some] at hfind
    obtain ⟨hdiffer, hmem, hbefore⟩ := hfind
    refine ⟨Nat.le_of_lt (mem_range.mp hmem), fun i hi => ?_, fun _ => ?_⟩
    · simpa using hbefore i hi
    · simpa using hdiffer

/-- The loop for the tail stops at the head, or where the addresses differ, or one octet after the
tail so far. -/
theorem tailLoop_spec (buflast address : Address) (length headlen taillen : ℕ) {start : ℕ}
    (hstart : start < length)
    (hhead : headlen ≤ start) (htail : length - 1 - start ≤ taillen + 1) :
    headlen ≤ tailLoop buflast address length headlen taillen start ∧
    tailLoop buflast address length headlen taillen start ≤ start ∧
    length - 1 - tailLoop buflast address length headlen taillen start ≤ taillen + 1 ∧
    (∀ i ≤ start, tailLoop buflast address length headlen taillen start < i →
      buflast[i]? = address[i]?) ∧
    (tailLoop buflast address length headlen taillen start = headlen ∨
      taillen < length - 1 - tailLoop buflast address length headlen taillen start ∨
      buflast[tailLoop buflast address length headlen taillen start]? ≠
        address[tailLoop buflast address length headlen taillen start]?) := by
  induction start with
  | zero => exact ⟨hhead, Nat.le_refl _, htail, fun i hi hlt => by omega, Or.inl (by
      rw [tailLoop]; omega)⟩
  | succ start ih =>
    rw [tailLoop]
    split_ifs with hgo hdiffer
    · exact ⟨hhead, Nat.le_refl _, htail, fun i hi hlt => by omega,
        Or.inr (Or.inr (by simpa using hdiffer))⟩
    · obtain ⟨hle, hge, hbound, hagree, hstop⟩ := ih (by omega) (by omega) (by omega)
      refine ⟨hle, Nat.le_succ_of_le hge, hbound, fun i hi hlt => ?_, hstop⟩
      obtain rfl | hi := Nat.eq_or_lt_of_le hi
      · simpa using hdiffer
      · exact hagree i (by omega) hlt
    · refine ⟨hhead, Nat.le_refl _, htail, fun i hi hlt => by omega, ?_⟩
      by_cases hlt : headlen < start + 1
      · exact Or.inr (Or.inl (by omega))
      · exact Or.inl (by omega)

/-! ### The addresses so far -/

/-- The lengths after comparing the addresses so far: the head is theirs, and the tail is at least
as long as theirs, but does not reach the head. -/
structure Compared (length : ℕ) (addresses : List Address) (headlen taillen : ℕ) : Prop where
  le : headlen ≤ length
  head : ∀ i < headlen, AgreeAt addresses i
  differ : headlen < length → ¬ AgreeAt addresses headlen
  same : headlen = length → taillen = length
  apart : headlen < length → headlen + taillen < length
  tail : ∀ i < length, headlen < i → (∀ j < length, i ≤ j → AgreeAt addresses j) →
    length - i ≤ taillen

/-- The lengths after one more address, `address`, that was compared with `buflast`: what is known
of the tail from the two of them, and from the lengths before. -/
structure ComparedLast (length : ℕ) (addresses : List Address) (buflast address : Address)
    (headlen taillen : ℕ) : Prop where
  mem : buflast ∈ addresses
  compared : Compared length (addresses ++ [address]) headlen taillen
  agree : headlen < length → ∀ i < length, length - taillen ≤ i → buflast[i]? = address[i]?
  stop : headlen < length → length - taillen - 1 = headlen ∨
    (∃ i < length, length - taillen ≤ i ∧ ¬ AgreeAt addresses i) ∨
    buflast[length - taillen - 1]? ≠ address[length - taillen - 1]?

/-- The head ends before the address does if and only if some position disagrees. -/
theorem Compared.head_lt_iff (h : Compared length addresses headlen taillen) :
    headlen < length ↔ ∃ i < length, ¬ AgreeAt addresses i :=
  ⟨fun hlt => ⟨headlen, hlt, h.differ hlt⟩, fun ⟨i, hi, hdiffer⟩ =>
    Nat.lt_of_le_of_ne h.le fun heq => hdiffer (h.head i (by omega))⟩

/-- The tail stops at a position that disagrees. -/
theorem Compared.stop_tail (h : Compared length addresses headlen taillen) (hn : n < length)
    (hlt : taillen < n) : ∃ i < length, length - n ≤ i ∧ ¬ AgreeAt addresses i := by
  by_contra hall
  have hagree : ∀ j < length, length - n ≤ j → AgreeAt addresses j := fun j hj hle =>
    not_not.mp fun hdiffer => hall ⟨j, hj, hle, hdiffer⟩
  by_cases hhead : headlen < length
  · -- The head is before what they agree in, so that this would be in the tail.
    have hbefore : headlen < length - n := Nat.lt_of_not_le fun hle =>
      h.differ hhead (hagree headlen hhead hle)
    have := h.tail (length - n) (by omega) hbefore hagree
    omega
  · have := h.same (Nat.le_antisymm h.le (Nat.le_of_not_lt hhead))
    omega

/-- One round of the loop of `GetHeadTail`. -/
theorem compared_next (address : Address) (h : Compared length addresses headlen taillen)
    (hmem : buflast ∈ addresses)
    (hpos : 0 < length) {headlen' : ℕ} (hnext : headLoop buflast address headlen = headlen') :
    (headlen' < length → ComparedLast length addresses buflast address headlen'
      (length - 1 - tailLoop buflast address length headlen' taillen (length - 1))) ∧
    (headlen' = length → ComparedLast length addresses buflast address headlen' taillen) := by
  obtain ⟨hle, hhead, hdiffer⟩ := headLoop_spec buflast address headlen
  rw [hnext] at hle hhead hdiffer
  have hagree : ∀ i < headlen', AgreeAt (addresses ++ [address]) i := fun i hi =>
    (h.head i (lt_of_lt_of_le hi hle)).concat hmem (hhead i hi)
  have hdiffer' : headlen' < length → ¬ AgreeAt (addresses ++ [address]) headlen' := by
    intro hlt hall
    obtain heq | hlt' := Nat.eq_or_lt_of_le hle
    · refine h.differ (heq ▸ hlt) ?_
      rw [← heq]
      exact hall.mono fun x hx => mem_append_left _ hx
    · exact hdiffer hlt' (hall buflast (mem_append_left _ hmem) address
        (mem_append_right _ (mem_singleton_self _)))
  refine ⟨fun hlt => ?_, fun heq => ?_⟩
  · obtain ⟨hlehead, hlestart, hbound, htail, hstop⟩ := tailLoop_spec buflast address length
      headlen' taillen (by omega : length - 1 < length) (by omega) (by omega)
    generalize tailLoop buflast address length headlen' taillen (length - 1) = stop at *
    have hplace : length - (length - 1 - stop) - 1 = stop := by omega
    have hlen : stop < length ∧ headlen' + (length - 1 - stop) < length := by omega
    have hagree' : ∀ i < length, length - (length - 1 - stop) ≤ i → buflast[i]? = address[i]? :=
      fun i hi hle => htail i (by omega) (by omega)
    have hstop' : stop = headlen' ∨
        (∃ i < length, length - (length - 1 - stop) ≤ i ∧ ¬ AgreeAt addresses i) ∨
        buflast[stop]? ≠ address[stop]? :=
      hstop.imp_right (Or.imp_left fun hlt => h.stop_tail (by omega) hlt)
    refine ⟨hmem, ⟨Nat.le_of_lt hlt, hagree, hdiffer', fun heq => absurd hlt (heq ▸ lt_irrefl _),
      fun _ => hlen.2, fun i hi hbefore hall => ?_⟩, fun _ => hagree', fun _ => by
        rw [hplace]; exact hstop'⟩
    -- If they agree from a place before the one where the loop stopped, it had no reason to.
    by_contra hshort
    obtain heq | ⟨j, hj, hle, hdiffer⟩ | hdiffer := hstop'
    · omega
    · exact hdiffer ((hall j hj (by omega)).mono fun x hx => mem_append_left _ hx)
    · exact hdiffer (hall stop (by omega) (by omega) buflast (mem_append_left _ hmem) address
        (mem_append_right _ (mem_singleton_self _)))
  · have heq' : headlen = length := Nat.le_antisymm h.le (heq ▸ hle)
    exact ⟨hmem, ⟨by omega, hagree, fun hlt => by omega, fun _ => h.same heq', fun hlt => by omega,
      fun i hi hlt => by omega⟩, fun hlt => by omega, fun hlt => by omega⟩

/-- The tail is one of all addresses just if it is one of the last two. -/
theorem ComparedLast.shared_iff
    (h : ComparedLast length addresses buflast address headlen taillen) :
    (headlen < length ∧ ∀ i < length, length - taillen ≤ i → AgreeAt (addresses ++ [address]) i) ↔
      (∃ i < length, ¬ AgreeAt (addresses ++ [address]) i) ∧
      ∀ i < length, (∃ j < i, ¬ AgreeAt (addresses ++ [address]) j) →
        (∀ j < length, i ≤ j → buflast[j]? = address[j]?) → AgreeAt (addresses ++ [address]) i := by
  rw [← h.compared.head_lt_iff]
  refine and_congr_right fun hlt => ⟨fun hall i hi hbefore hpair => ?_, fun hall i hi hle => ?_⟩
  · obtain ⟨j, hj, hdiffer⟩ := hbefore
    have hhead : headlen < i := by
      refine Nat.lt_of_le_of_lt (Nat.le_of_not_lt fun hlt => ?_) hj
      exact hdiffer (h.compared.head j hlt)
    by_cases htail : length - taillen ≤ i
    · exact hall i hi htail
    · -- The loop would have gone on.
      have hapart := h.compared.apart hlt
      obtain heq | ⟨k, hk, hle, hdiffer⟩ | hdiffer := h.stop hlt
      · omega
      · exact absurd ((hall k hk hle).mono fun x hx => mem_append_left _ hx) hdiffer
      · exact absurd (hpair _ (by omega) (by omega)) hdiffer
  · have hapart := h.compared.apart hlt
    exact hall i hi ⟨headlen, by omega, h.compared.differ hlt⟩
      fun j hj hij => h.agree hlt j hj (le_trans hle hij)

/-- The loop ends with the lengths for all addresses, and the address before the last one. -/
theorem headTailLoop_spec (hpos : 0 < length) {rest : List Address} (bufcur : Address)
    (h : Compared length addresses headlen taillen) (hmem : buflast ∈ addresses)
    (hne : rest ≠ []) :
    ∃ headlen' taillen' addresses' y x,
      headTailLoop length buflast bufcur headlen taillen rest = (headlen', taillen', y) ∧
      ComparedLast length addresses' y x headlen' taillen' ∧ addresses ++ rest = addresses' ++ [x] ∧
      ∃ before, buflast :: rest = before ++ [y, x] := by
  induction rest generalizing addresses headlen taillen buflast bufcur with
  | nil => exact absurd rfl hne
  | cons address rest ih =>
    obtain ⟨hless, hall⟩ := compared_next address h hmem hpos rfl
    -- The round of the loop, with the lengths after it.
    obtain ⟨headlen', taillen', hround, hlast⟩ : ∃ headlen' taillen',
        headTailLoop length buflast bufcur headlen taillen (address :: rest) =
          headTailLoop length address buflast headlen' taillen' rest ∧
        ComparedLast length addresses buflast address headlen' taillen' := by
      rw [headTailLoop]
      have hle : headLoop buflast address headlen ≤ length :=
        le_trans (headLoop_spec buflast address headlen).1 h.le
      obtain heq | hlt := Nat.eq_or_lt_of_le hle
      · refine ⟨_, _, ?_, hall heq⟩
        rw [if_neg (by omega), if_neg (by omega)]
      · exact ⟨_, _, if_pos (by omega), hless hlt⟩
    rw [hround]
    cases rest with
    | nil => exact ⟨_, _, addresses, buflast, address, rfl, hlast, rfl, [], rfl⟩
    | cons next rest =>
      obtain ⟨headlen'', taillen'', addresses', y, x, hloop, hlast', heq, before, hbefore⟩ :=
        ih buflast hlast.compared (mem_append_right _ (mem_singleton_self _))
          (cons_ne_nil next rest)
      refine ⟨_, _, addresses', y, x, hloop, hlast', ?_, buflast :: before, ?_⟩
      · rw [← heq, append_assoc]
        rfl
      · rw [hbefore]
        rfl

/-- What `GetHeadTail` finds for several addresses: a head of all of them, and a tail of the last
two, which are together all there is just if the addresses are the same. -/
theorem getHeadTail_spec (hpos : 0 < length) (hlen : ∀ address ∈ addresses, address.length = length)
    (htwo : 2 ≤ addresses.length) :
    ∃ headlen taillen, ∃ y ∈ addresses,
      GetHeadTail length addresses = (y.take headlen, y.drop (length - taillen)) ∧
      headlen ≤ length ∧ taillen ≤ length ∧ (∀ i < headlen, AgreeAt addresses i) ∧
      (headlen = length → taillen = length) ∧ (headlen < length → headlen + taillen < length) ∧
      (headlen < length → ¬ AgreeAt addresses headlen) ∧
      (∀ i < length, headlen < i → (∀ j < length, i ≤ j → AgreeAt addresses j) →
        length - i ≤ taillen) ∧
      ((headlen < length ∧ ∀ i < length, length - taillen ≤ i → AgreeAt addresses i) ↔
        TailShared length addresses) := by
  match addresses, htwo with
  | first :: second :: rest, _ =>
    have hstart : Compared length [first] length length :=
      ⟨Nat.le_refl _, fun i _ x hx y hy => by
        rw [mem_singleton.mp hx, mem_singleton.mp hy], fun h => absurd h (lt_irrefl _),
        fun _ => rfl, fun h => absurd h (lt_irrefl _), fun i hi hlt => by omega⟩
    obtain ⟨headlen, taillen, addresses', y, x, hloop, hlast, heq, before, hbefore⟩ :=
      headTailLoop_spec hpos [] hstart (mem_singleton_self first)
        (cons_ne_nil first (second :: rest))
    -- The loop has seen the first address twice.
    have hsame : ∀ i, AgreeAt (addresses' ++ [x]) i ↔ AgreeAt (first :: second :: rest) i := by
      intro i
      rw [← heq]
      refine ⟨fun h => h.mono fun z hz => mem_append_right _ hz,
        fun h => h.mono fun z hz => ?_⟩
      obtain hz | hz := mem_append.mp hz
      · exact mem_singleton.mp hz ▸ mem_cons_self ..
      · exact hz
    obtain ⟨before', hbefore'⟩ : ∃ before', first :: second :: rest = before' ++ [y, x] := by
      match before, hbefore with
      | [], hbefore => cases hbefore
      | _ :: before', hbefore => exact ⟨before', (List.cons.inj hbefore).2⟩
    have hpair : ∀ i,
        AgreeAt ((first :: second :: rest).drop ((first :: second :: rest).length - 2)) i ↔
          y[i]? = x[i]? := by
      intro i
      have hdrop : (first :: second :: rest).drop ((first :: second :: rest).length - 2) =
          [y, x] := by
        rw [hbefore', length_append]
        exact drop_left
      rw [hdrop]
      refine ⟨fun h => h y (by simp) x (by simp), fun h z hz w hw => ?_⟩
      simp only [mem_cons, not_mem_nil, or_false] at hz hw
      obtain rfl | rfl := hz <;> obtain rfl | rfl := hw <;> simp [h]
    have hy : y ∈ first :: second :: rest := by
      rw [hbefore']
      simp
    have htaillen : taillen ≤ length := by
      obtain hlt | heq := Nat.lt_or_eq_of_le hlast.compared.le
      · have := hlast.compared.apart hlt
        omega
      · exact Nat.le_of_eq (hlast.compared.same heq)
    refine ⟨headlen, taillen, y, hy, ?_, hlast.compared.le, htaillen,
      fun i hi => (hsame i).mp (hlast.compared.head i hi), hlast.compared.same,
      hlast.compared.apart, fun hlt hall => hlast.compared.differ hlt ((hsame _).mpr hall),
      fun i hi hlt hall => hlast.compared.tail i hi hlt fun j hj hle =>
        (hsame j).mpr (hall j hj hle),
      ?_⟩
    · unfold GetHeadTail
      dsimp only
      rw [hloop]
      refine congrArg (y.take headlen, ·) (take_of_length_le ?_)
      rw [length_drop, hlen y hy]
      omega
    · unfold TailShared
      simp only [hpair, ← hsame]
      exact hlast.shared_iff

/-! ### The octets that all addresses share -/

/-- The first position that passes a test. -/
theorem find?_range_getD {p : ℕ → Bool} {k : ℕ} (hk : k < n) (hbefore : ∀ i < k, p i = false)
    (hstop : p k = true) : ((List.range n).find? p).getD n = k := by
  have hfind : (List.range n).find? p = some k :=
    List.find?_range_eq_some.mpr ⟨hstop, mem_range.mpr hk, fun i hi => by
      rw [hbefore i hi]
      rfl⟩
  rw [hfind, Option.getD_some]

/-- Addresses that agree at the first positions have the same front. -/
theorem take_eq_of_agree (h : ∀ i < n, AgreeAt addresses i) (hx : x ∈ addresses)
    (hy : y ∈ addresses) : x.take n = y.take n := by
  refine ext_getElem? fun i => ?_
  rw [List.getElem?_take, List.getElem?_take]
  split_ifs with hi
  · exact h i hi x hx y hy
  · rfl

/-- Addresses that agree at the last positions have the same back. -/
theorem drop_eq_of_agree (hlen : ∀ address ∈ addresses, address.length = length)
    (h : ∀ i < length, n ≤ i → AgreeAt addresses i) (hx : x ∈ addresses) (hy : y ∈ addresses) :
    x.drop n = y.drop n := by
  refine ext_getElem? fun i => ?_
  rw [List.getElem?_drop, List.getElem?_drop]
  by_cases hi : n + i < length
  · exact h (n + i) hi (Nat.le_add_right n i) x hx y hy
  · rw [List.getElem?_eq_none (by rw [hlen x hx]; omega),
      List.getElem?_eq_none (by rw [hlen y hy]; omega)]

/-- If the tail is found rightly, the head and the tail are all that the addresses share. -/
theorem TailShared.getHeadTail_eq (h : TailShared length addresses) (hpos : 0 < length)
    (hlen : ∀ address ∈ addresses, address.length = length) (htwo : 2 ≤ addresses.length)
    (hx : x ∈ addresses) :
    GetHeadTail length addresses = (x.take (headOctets length addresses),
      x.drop (length - tailOctets length addresses)) ∧
    headOctets length addresses + tailOctets length addresses < length := by
  obtain ⟨headlen, taillen, y, hy, hfound, hlehead, hletail, hhead, -, hapart, hdiffer, hlong,
    hshared⟩ := getHeadTail_spec hpos hlen htwo
  obtain ⟨hlt, htail⟩ := hshared.mpr h
  have hsum := hapart hlt
  have hheadOctets : headOctets length addresses = headlen :=
    find?_range_getD hlt (fun i hi => by simpa using hhead i hi) (by simpa using hdiffer hlt)
  have htailOctets : tailOctets length addresses = taillen := by
    refine find?_range_getD (by omega) (fun i hi => ?_) ?_
    · simpa using htail (length - 1 - i) (by omega) (by omega)
    · -- The octet before the tail is not shared, or it would be in the tail.
      have hbefore : ¬ AgreeAt addresses (length - 1 - taillen) := by
        intro hagree
        obtain heq | hlt' := Nat.eq_or_lt_of_le (by omega : headlen ≤ length - 1 - taillen)
        · exact hdiffer hlt (heq ▸ hagree)
        · have hlonger := hlong (length - 1 - taillen) (by omega) hlt' fun j hj hle => by
            obtain rfl | hle' := Nat.eq_or_lt_of_le hle
            · exact hagree
            · exact htail j hj (by omega)
          omega
      simpa using hbefore
  rw [hheadOctets, htailOctets]
  refine ⟨hfound.trans ?_, hsum⟩
  rw [take_eq_of_agree hhead hy hx, drop_eq_of_agree hlen htail hy hx]

/-! ### What `GetHeadTail` is for -/

/-- The head and the tail do not overlap, and every address begins and ends with them. -/
structure HeadTailRight (length : ℕ) (addresses : List Address) : Prop where
  sum : (GetHeadTail length addresses).1.length + (GetHeadTail length addresses).2.length ≤ length
  head : ∀ x ∈ addresses, (GetHeadTail length addresses).1 <+: x
  tail : ∀ x ∈ addresses, (GetHeadTail length addresses).2 <:+ x

/-- Addresses that end with the same octets agree in each of them. -/
theorem agreeAt_of_suffix {tail : List UInt8}
    (hlen : ∀ address ∈ addresses, address.length = length) (hsuffix : ∀ x ∈ addresses, tail <:+ x)
    (hle : length - tail.length ≤ i) : AgreeAt addresses i := by
  have hall : ∀ x ∈ addresses, x[i]? = tail[i - (length - tail.length)]? := by
    intro x hx
    obtain ⟨front, rfl⟩ := hsuffix x hx
    have hfront := hlen _ hx
    rw [length_append] at hfront
    rw [List.getElem?_append_right (by omega)]
    exact congrArg (tail[·]?) (by omega)
  exact fun x hx y hy => (hall x hx).trans (hall y hy).symm

/-- **Heads and tails** are right exactly if the tail is one of all addresses. -/
theorem headTailRight_iff {addresses : List Address}
    (hlen : ∀ address ∈ addresses, address.length = length) (htwo : 2 ≤ addresses.length) :
    HeadTailRight length addresses ↔ length = 0 ∨ TailShared length addresses := by
  obtain rfl | hpos := Nat.eq_zero_or_pos length
  · -- there are no octets
    have hnil : GetHeadTail 0 addresses = ([], []) := by
      cases addresses with
      | nil => rfl
      | cons first rest => rfl
    refine ⟨fun _ => .inl rfl, fun _ => ⟨?_, fun x _ => ?_, fun x _ => ?_⟩⟩
    · rw [hnil]
      exact Nat.le_refl 0
    · rw [hnil]
      exact nil_prefix
    · rw [hnil]
      exact nil_suffix
  obtain ⟨headlen, taillen, y, hy, hfound, hlehead, hletail, hhead, hsame, hapart, -, -,
    hshared⟩ := getHeadTail_spec hpos hlen htwo
  have hylen := hlen y hy
  have hheadlen : (y.take headlen).length = headlen := by
    rw [length_take]
    omega
  have htaillen : (y.drop (length - taillen)).length = taillen := by
    rw [length_drop]
    omega
  rw [or_iff_right (Nat.pos_iff_ne_zero.mp hpos), ← hshared]
  constructor
  · intro hright
    have hsum := hright.sum
    have htail := hright.tail
    rw [hfound] at hsum htail
    rw [hheadlen, htaillen] at hsum
    refine ⟨Nat.lt_of_le_of_ne hlehead fun heq => ?_, fun i _ hle => ?_⟩
    · have := hsame heq
      omega
    · refine agreeAt_of_suffix hlen htail ?_
      rw [htaillen]
      exact hle
  · rintro ⟨hlt, htail⟩
    refine ⟨?_, fun x hx => ?_, fun x hx => ?_⟩
    · rw [hfound, hheadlen, htaillen]
      exact (hapart hlt).le
    · rw [hfound, take_eq_of_agree hhead hy hx]
      exact take_prefix _ _
    · rw [hfound, drop_eq_of_agree hlen htail hy hx]
      exact drop_suffix _ _

/-- Three hosts that have the last octet in common. -/
theorem headTailRight_shared :
    HeadTailRight 4 [[10, 0, 1, 9], [10, 0, 2, 9], [10, 0, 3, 9]] :=
  (headTailRight_iff (by decide) (by decide)).mpr (by decide)

/-- The tail of the last two addresses is not one of the first. -/
theorem not_headTailRight_grows :
    ¬ HeadTailRight 4 [[10, 0, 0, 1], [10, 0, 1, 2], [10, 0, 2, 2]] := fun hright =>
  absurd (hright.tail [10, 0, 0, 1] mem_cons_self) (by decide)

end Ns3Joined.Network.PacketBb.PbbAddressBlock
