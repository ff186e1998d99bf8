import Ns3Joined.Sixlowpan.Cutting

/-!
# Fragments in any order

What a fragment covers of the datagram is a slice of it, and the fragments of a datagram follow
one another (`Slices.Chain`). The receiver holds those that have come, sorted; they are the whole
datagram when they reach its end, and then all of them are there.

* `Stored`: what the receiver has of a datagram; `Stored.add`: what one more fragment does to it.
* `Consistent`: each datagram has a timer, and each timer a datagram; all that the device does
  keeps it.
* `Holds.storeFragment`: one step of the receiver; `Holds.receiveAll`: a run of it.
-/

namespace Ns3Joined.Sixlowpan

open ExceptFold Slices List

/-! ### The list of fragments -/

variable {l l' : List (Packet × ℕ)} {x : Packet × ℕ} {offset : ℕ} {p : Packet} {f : Fragments}
  {answers : List (Option Packet)} {dst src : Address} {order : List (ℤ × Packet)}

namespace Fragments

/-- The fragments are sorted by their offsets, no two the same. -/
def Sorted (l : List (Packet × ℕ)) : Prop := l.Pairwise fun x y => x.2 < y.2

/-- Ordered lists with the same elements are equal. -/
theorem Sorted.eq_of_mem_iff (h : Sorted l) (h' : Sorted l') (hmem : ∀ x, x ∈ l ↔ x ∈ l') :
    l = l' := by
  have hanti : Std.Antisymm fun x y : Packet × ℕ => x.2 < y.2 :=
    ⟨fun _ _ hlt hlt' => absurd hlt (lt_asymm hlt')⟩
  have hirrefl : Std.Irrefl fun x y : Packet × ℕ => x.2 < y.2 := ⟨fun _ => lt_irrefl _⟩
  exact List.Pairwise.eq_of_mem_iff h h' hmem

/-- A fragment of a datagram is put in its place, or is there already. -/
theorem insertFragment_spec {parts : List (Packet × ℕ)}
    (hunique : ∀ x ∈ parts, ∀ y ∈ parts, x.2 = y.2 → x = y) (hx : x ∈ parts)
    (hl : ∀ y ∈ l, y ∈ parts) (hsorted : Sorted l) :
    ∃ l', insertFragment x.1 x.2 l = .ok l' ∧ Sorted l' ∧ ∀ y, y ∈ l' ↔ y = x ∨ y ∈ l := by
  induction l with
  | nil => exact ⟨[x], rfl, pairwise_singleton .., fun y => by simp⟩
  | cons z l ih =>
    obtain ⟨hz, hrest⟩ := pairwise_cons.mp hsorted
    rw [insertFragment]
    by_cases hlt : z.2 > x.2
    · refine ⟨x :: z :: l, if_pos hlt, pairwise_cons.mpr ⟨fun y hy => ?_, hsorted⟩,
        fun y => mem_cons⟩
      obtain rfl | hy := mem_cons.mp hy
      · exact hlt
      · exact lt_trans hlt (hz y hy)
    · rw [if_neg hlt]
      by_cases heq : z.2 = x.2
      · have hsame : z = x := hunique z (hl z mem_cons_self) x hx heq
        subst hsame
        refine ⟨z :: l, by rw [if_pos heq, if_pos rfl], hsorted, fun y => ?_⟩
        rw [mem_cons]
        tauto
      · obtain ⟨l', hok, hsorted', hmem⟩ := ih (fun y hy => hl y (mem_cons_of_mem z hy)) hrest
        refine ⟨z :: l', ?_, pairwise_cons.mpr ⟨fun y hy => ?_, hsorted'⟩, fun y => ?_⟩
        · rw [if_neg heq, hok, ok_bind]
        · obtain rfl | hy := (hmem y).mp hy
          · omega
          · exact hz y hy
        · rw [mem_cons, hmem, mem_cons]
          tauto

/-- The loop of `IsEntire`, where no offset is cut off. -/
theorem lastEnd_eq_reach (h : ∀ x ∈ l, x.2 + x.1.length < 65536) (n : ℕ) :
    lastEnd n l = reach n l := by
  induction l generalizing n with
  | nil => rfl
  | cons x l ih =>
    have hx := h x mem_cons_self
    rw [lastEnd, reach, ih fun y hy => h y (mem_cons_of_mem x hy),
      Nat.mod_eq_of_lt (by omega)]

/-- Appending a chain of fragments makes up its data. -/
theorem appendFragments_eq {n stop : ℕ} (h : Chain n l stop) (hstop : stop < 65536) (p : Packet) :
    appendFragments p n l = .ok (p ++ (l.map Prod.fst).flatten) := by
  induction l generalizing n p with
  | nil => rw [appendFragments, map_nil, flatten_nil, append_nil]
  | cons x l ih =>
    obtain ⟨rfl, hrest⟩ := h
    have hle := hrest.le.1
    rw [appendFragments, if_neg (lt_irrefl _), Nat.mod_eq_of_lt (by omega), ih hrest,
      map_cons, flatten_cons, append_assoc]

/-- Inserting a fragment adds that one at most. -/
theorem mem_of_insertFragment (h : insertFragment p offset l = .ok l') :
    ∀ y ∈ l', y = (p, offset) ∨ y ∈ l := by
  induction l generalizing l' with
  | nil =>
    cases h
    exact fun y hy => .inl (mem_singleton.mp hy)
  | cons z l ih =>
    rw [insertFragment] at h
    split_ifs at h
    · cases h
      exact fun y hy => mem_cons.mp hy
    · cases h
      exact fun y hy => .inr hy
    · obtain ⟨rest, hrest, h⟩ := bind_eq_ok_iff.mp h
      cases h
      intro y hy
      obtain rfl | hy := mem_cons.mp hy
      · exact .inr mem_cons_self
      · exact (ih hrest y hy).imp_right (mem_cons_of_mem z)

end Fragments

/-! ### A datagram -/

/-- A datagram in fragments: the header and the body of the first one and what it covers, and the
others. -/
structure Datagram where
  src : Address
  dst : Address
  header : Frag1
  body : Packet
  first : Packet
  rest : List (Packet × ℕ)

namespace Datagram

def key (g : Datagram) : FragmentKey :=
  ⟨g.src, g.dst, g.header.m_datagramSize, g.header.m_datagramTag⟩

/-- The first fragment as it is sent. -/
def frame (g : Datagram) : Packet := g.header.Serialize ++ g.body

/-- What the fragments cover. -/
def pieces (g : Datagram) : List (Packet × ℕ) := (g.first, 0) :: g.rest

/-- The compressed packet. -/
def packet (g : Datagram) : Packet := g.body ++ (g.rest.map Prod.fst).flatten

/-- The fragments, none of them empty, follow one another from the start of the datagram to its
end, and start at multiples of 8. -/
structure Whole (g : Datagram) : Prop where
  chain : Chain 0 g.pieces g.header.m_datagramSize
  pos : ∀ x ∈ g.pieces, 0 < x.1.length
  aligned : ∀ x ∈ g.pieces, x.2 % 8 = 0
  size_lt : g.header.m_datagramSize < 2048
  tag_lt : g.header.m_datagramTag < 65536

variable {g : Datagram}

/-- A piece of a whole datagram is identified by its offset. -/
theorem Whole.unique (h : g.Whole) : ∀ x ∈ g.pieces, ∀ y ∈ g.pieces, x.2 = y.2 → x = y := by
  intro x hx y hy heq
  have hpos := h.pos y hy
  exact (h.chain.apart h.pos).eq_of_covers hx hy (Nat.le_of_eq heq.symm) (by omega)

/-- The pieces of a whole datagram are in order. -/
theorem Whole.sorted (h : g.Whole) : Fragments.Sorted g.pieces := by
  refine (h.chain.apart h.pos).sorted.imp_of_mem fun {x y} hx _ hle => ?_
  have := h.pos x hx
  omega

/-- The pieces of a whole datagram fit their offsets. -/
theorem Whole.end_lt (h : g.Whole) : ∀ x ∈ g.pieces, x.2 + x.1.length < 65536 := by
  intro x hx
  have := (h.chain.le.2 x hx).2
  have := h.size_lt
  omega

/-- Only the first fragment starts where the datagram does. -/
theorem Whole.first_iff (h : g.Whole) (hx : x ∈ g.pieces) : x.2 = 0 ↔ x = (g.first, 0) :=
  ⟨fun hzero => h.unique x hx _ mem_cons_self hzero, fun heq => by rw [heq]⟩

/-- What the receiver has once these pieces have come. -/
structure Stored (g : Datagram) (delivered : List (Packet × ℕ)) (f : Fragments) : Prop where
  size : f.m_packetSize = g.header.m_datagramSize
  sorted : Fragments.Sorted f.m_fragments
  mem : ∀ x, x ∈ f.m_fragments ↔ x ∈ delivered
  first : (g.first, 0) ∈ delivered → f.m_firstFragment = some g.frame

variable {delivered : List (Packet × ℕ)}

theorem stored_new (g : Datagram) : g.Stored [] (Fragments.new g.header.m_datagramSize) where
  size := rfl
  sorted := List.Pairwise.nil
  mem := fun _ => Iff.rfl
  first := nofun

/-- The first fragment is kept as it came. -/
def setFirst (g : Datagram) (x : Packet × ℕ) (f : Fragments) : Fragments :=
  match (if x.2 = 0 then some g.frame else none) with
  | some packet => { f with m_firstFragment := some packet }
  | none => f

/-- Storing one more piece of a datagram. -/
theorem Stored.add (h : g.Whole) (hf : g.Stored delivered f) (hx : x ∈ g.pieces)
    (hdelivered : ∀ y ∈ delivered, y ∈ g.pieces) :
    ∃ f', f.AddFragment x.1 x.2 = .ok f' ∧ g.Stored (x :: delivered) (g.setFirst x f') := by
  obtain ⟨l, hok, hsorted, hmem⟩ := Fragments.insertFragment_spec h.unique hx
    (fun y hy => hdelivered y ((hf.mem y).mp hy)) hf.sorted
  refine ⟨{ f with m_fragments := l }, by rw [Fragments.AddFragment, hok, ok_bind], ?_⟩
  have hmem' : ∀ y, y ∈ l ↔ y ∈ x :: delivered := fun y => by
    rw [hmem, hf.mem, mem_cons]
  by_cases hzero : x.2 = 0
  · rw [setFirst, if_pos hzero]
    exact ⟨hf.size, hsorted, hmem', fun _ => rfl⟩
  · rw [setFirst, if_neg hzero]
    refine ⟨hf.size, hsorted, hmem', fun hfirst => ?_⟩
    obtain rfl | hfirst := mem_cons.mp hfirst
    · exact absurd rfl hzero
    · exact hf.first hfirst

/-- A stored datagram is entire if and only if all its pieces were delivered. -/
theorem Stored.isEntire_iff (h : g.Whole) (hf : g.Stored delivered f)
    (hdelivered : ∀ y ∈ delivered, y ∈ g.pieces) :
    f.IsEntire = true ↔ ∀ y ∈ g.pieces, y ∈ delivered := by
  have hsub : ∀ y ∈ f.m_fragments, y ∈ g.pieces := fun y hy => hdelivered y ((hf.mem y).mp hy)
  rw [Fragments.IsEntire, Bool.and_eq_true, beq_iff_eq,
    Fragments.lastEnd_eq_reach fun y hy => h.end_lt y (hsub y hy), hf.size]
  constructor
  · rintro ⟨-, hreach⟩ y hy
    exact (hf.mem y).mp (subset_of_reach (h.chain.apart h.pos) h.chain hsub hreach y hy)
  · intro hall
    have heq : f.m_fragments = g.pieces :=
      hf.sorted.eq_of_mem_iff h.sorted fun y => ⟨hsub y, fun hy => (hf.mem y).mpr (hall y hy)⟩
    rw [heq]
    exact ⟨rfl, h.chain.reach_eq⟩

/-- **What is rebuilt**, once the header of the first fragment is off, is the packet. -/
theorem Stored.getPacket (h : g.Whole) (hf : g.Stored delivered f)
    (hdelivered : ∀ y ∈ delivered, y ∈ g.pieces) (hall : ∀ y ∈ g.pieces, y ∈ delivered) :
    f.GetPacket = .ok (g.header.Serialize ++ g.packet) := by
  have heq : f.m_fragments = g.pieces := hf.sorted.eq_of_mem_iff h.sorted fun y =>
    ⟨fun hy => hdelivered y ((hf.mem y).mp hy), fun hy => (hf.mem y).mpr (hall y hy)⟩
  have hfirst := hf.first (hall _ mem_cons_self)
  have hsize := h.size_lt
  obtain ⟨-, hrest⟩ := h.chain
  rw [Nat.zero_add] at hrest
  have hlt : g.first.length < 65536 := Nat.lt_of_le_of_lt hrest.le.1 (by omega)
  rw [Fragments.GetPacket, hfirst, heq]
  show Fragments.appendFragments g.frame (g.first.length % 65536) g.rest = _
  rw [Nat.mod_eq_of_lt hlt, Fragments.appendFragments_eq hrest (by omega), frame, packet,
    append_assoc]

end Datagram

/-! ### The device -/

namespace SixLowPanNetDevice

/-- Each datagram of which there are fragments has a timer, and each timer such a datagram. -/
structure Consistent (d : SixLowPanNetDevice) : Prop where
  fragments : KeyedTable.Distinct Prod.fst d.m_fragments
  timers : KeyedTable.Distinct Prod.fst d.m_fragmentsTimers
  same : ∀ key, (∃ e ∈ d.m_fragments, e.1 = key) ↔ ∃ e ∈ d.m_fragmentsTimers, e.1 = key

/-- Nothing is kept for the datagram. -/
structure Free (d : SixLowPanNetDevice) (key : FragmentKey) : Prop where
  fragments : ∀ e ∈ d.m_fragments, e.1 ≠ key
  timers : ∀ e ∈ d.m_fragmentsTimers, e.1 ≠ key

/-- Without the datagram. -/
def without (d : SixLowPanNetDevice) (key : FragmentKey) : SixLowPanNetDevice :=
  { d with
    m_fragments := KeyedTable.erase Prod.fst key d.m_fragments
    m_fragmentsTimers := KeyedTable.erase Prod.fst key d.m_fragmentsTimers }

variable {d : SixLowPanNetDevice} {key : FragmentKey}

/-- Forgetting a key keeps the device consistent and the key free. -/
theorem Consistent.without (h : Consistent d) (key : FragmentKey) :
    Consistent (d.without key) ∧ (d.without key).Free key := by
  have hmem := h.fragments.erase_mem (k := key)
  have hmem' := h.timers.erase_mem (k := key)
  refine ⟨⟨h.fragments.erase, h.timers.erase, fun key' => ?_⟩,
    fun e he => ((hmem e).mp he).2, fun e he => ((hmem' e).mp he).2⟩
  constructor
  · rintro ⟨e, he, rfl⟩
    obtain ⟨he, hne⟩ := (hmem e).mp he
    obtain ⟨e', he', hkey⟩ := (h.same e.1).mp ⟨e, he, rfl⟩
    exact ⟨e', (hmem' e').mpr ⟨he', hkey ▸ hne⟩, hkey⟩
  · rintro ⟨e, he, rfl⟩
    obtain ⟨he, hne⟩ := (hmem' e).mp he
    obtain ⟨e', he', hkey⟩ := (h.same e.1).mpr ⟨e, he, rfl⟩
    exact ⟨e', (hmem e').mpr ⟨he', hkey ▸ hne⟩, hkey⟩

/-- The oldest timer is one of the device's. -/
theorem oldest_mem (found : FragmentKey × ℤ) (timers : List (FragmentKey × ℤ)) :
    oldest found timers ∈ found :: timers := by
  induction timers generalizing found with
  | nil => exact mem_cons_self ..
  | cons timer timers ih =>
    rw [oldest]
    split
    · exact mem_cons_of_mem found (ih timer)
    · obtain heq | hmem := mem_cons.mp (ih found)
      · rw [heq]
        exact mem_cons_self ..
      · exact mem_cons_of_mem found (mem_cons_of_mem timer hmem)

/-- Dropping the oldest succeeds where something is stored. -/
theorem Consistent.dropOldest (h : Consistent d) (hne : d.m_fragments ≠ []) :
    ∃ key dropped, d.dropOldest = .ok (d.without key, dropped) := by
  obtain ⟨e, he⟩ := exists_mem_of_ne_nil _ hne
  obtain ⟨e', he', -⟩ := (h.same e.1).mp ⟨e, he, rfl⟩
  rw [SixLowPanNetDevice.dropOldest]
  cases htimers : d.m_fragmentsTimers with
  | nil =>
    rw [htimers] at he'
    cases he'
  | cons timer timers =>
    have holdest := oldest_mem timer timers
    rw [← htimers] at holdest
    obtain ⟨e, he, hkey⟩ := (h.same _).mpr ⟨_, holdest, rfl⟩
    have hfind := h.fragments.find_eq_some.mpr ⟨he, hkey⟩
    refine ⟨(oldest timer timers).1, e.2.m_fragments.map Prod.fst, ?_⟩
    dsimp only
    rw [hfind, SixLowPanNetDevice.without, htimers]

/-- With these fragments for the datagram. -/
def withFragments (d : SixLowPanNetDevice) (key : FragmentKey) (f : Fragments) :
    SixLowPanNetDevice :=
  { d with m_fragments := KeyedTable.insert Prod.fst (key, f) d.m_fragments }

/-- With an entry for the datagram, and a timer for it. -/
def withEntry (d : SixLowPanNetDevice) (key : FragmentKey) (f : Fragments) (expires : ℤ) :
    SixLowPanNetDevice :=
  { d.withFragments key f with
    m_fragmentsTimers := KeyedTable.insert Prod.fst (key, expires) d.m_fragmentsTimers }

/-- Changing the fragments of a key keeps the device consistent. -/
theorem Consistent.withFragments (h : Consistent d) {f' : Fragments}
    (hf : (key, f) ∈ d.m_fragments) :
    Consistent (d.withFragments key f') := by
  have hmem := h.fragments.insert_mem (key, f')
  refine ⟨h.fragments.insert _, h.timers, fun key' => ?_⟩
  refine Iff.trans ?_ (h.same key')
  constructor
  · rintro ⟨e, he, rfl⟩
    obtain rfl | ⟨he, -⟩ := (hmem e).mp he
    · exact ⟨_, hf, rfl⟩
    · exact ⟨e, he, rfl⟩
  · rintro ⟨e, he, rfl⟩
    by_cases hkey : e.1 = key
    · exact ⟨(key, f'), (hmem _).mpr (.inl rfl), hkey.symm⟩
    · exact ⟨e, (hmem e).mpr (.inr ⟨he, hkey⟩), rfl⟩

/-- Adding an entry keeps the device consistent. -/
theorem Consistent.withEntry (h : Consistent d) (key : FragmentKey) (f : Fragments)
    (expires : ℤ) : Consistent (d.withEntry key f expires) := by
  have hmem := h.fragments.insert_mem (key, f)
  have hmem' := h.timers.insert_mem (key, expires)
  refine ⟨h.fragments.insert _, h.timers.insert _, fun key' => ?_⟩
  constructor
  · rintro ⟨e, he, rfl⟩
    obtain rfl | ⟨he, hne⟩ := (hmem e).mp he
    · exact ⟨(key, expires), (hmem' _).mpr (.inl rfl), rfl⟩
    · obtain ⟨e', he', hkey⟩ := (h.same e.1).mp ⟨e, he, rfl⟩
      exact ⟨e', (hmem' e').mpr (.inr ⟨he', hkey ▸ hne⟩), hkey⟩
  · rintro ⟨e, he, rfl⟩
    obtain rfl | ⟨he, hne⟩ := (hmem' e).mp he
    · exact ⟨(key, f), (hmem _).mpr (.inl rfl), rfl⟩
    · obtain ⟨e', he', hkey⟩ := (h.same e.1).mpr ⟨e, he, rfl⟩
      exact ⟨e', (hmem e').mpr (.inr ⟨he', hkey ▸ hne⟩), hkey⟩

/-- The fragments of a key after a change. -/
theorem Consistent.mem_withFragments (h : Consistent d) (f : Fragments) :
    (key, f) ∈ (d.withFragments key f).m_fragments :=
  (h.fragments.insert_mem (key, f) _).mpr (.inl rfl)

/-- The fragments that the device has of the datagram: those of its entry, or none. -/
def fragments (d : SixLowPanNetDevice) (key : FragmentKey) : Fragments :=
  match KeyedTable.find Prod.fst key d.m_fragments with
  | some entry => entry.2
  | none => Fragments.new key.size

/-- The fragments of a key are found. -/
theorem Consistent.fragments_eq (h : Consistent d) (hf : (key, f) ∈ d.m_fragments) :
    d.fragments key = f := by
  rw [SixLowPanNetDevice.fragments, h.fragments.find_eq_some.mpr ⟨hf, rfl⟩]

/-- The fragments of a free key are new ones. -/
theorem Free.fragments_eq (h : d.Free key) : d.fragments key = Fragments.new key.size := by
  rw [SixLowPanNetDevice.fragments, KeyedTable.find_eq_none.mpr h.fragments]

/-- After `lookup` there is an entry for the datagram, with the fragments that there were. -/
theorem Consistent.lookup (h : Consistent d) (now : ℤ) (key : FragmentKey) :
    ∃ d' dropped, d.lookup now key key.size = .ok (d', dropped, d.fragments key) ∧
      Consistent d' ∧ (key, d.fragments key) ∈ d'.m_fragments ∧
      d'.decompressFirst = d.decompressFirst := by
  rw [SixLowPanNetDevice.lookup, SixLowPanNetDevice.fragments]
  cases hfind : KeyedTable.find Prod.fst key d.m_fragments with
  | some entry =>
    obtain ⟨he, rfl⟩ := KeyedTable.mem_of_find hfind
    exact ⟨d, [], rfl, h, he, rfl⟩
  | none =>
    have hnew : ∀ d₁ : SixLowPanNetDevice, Consistent d₁ →
        Consistent (d₁.withEntry key (Fragments.new key.size)
          (now + d₁.m_fragmentExpirationTimeout)) ∧
        (key, Fragments.new key.size) ∈ (d₁.withEntry key (Fragments.new key.size)
          (now + d₁.m_fragmentExpirationTimeout)).m_fragments :=
      fun d₁ h₁ => ⟨h₁.withEntry .., h₁.mem_withFragments _⟩
    dsimp only
    by_cases hfull : d.m_fragmentReassemblyListSize ≠ 0 ∧
        d.m_fragmentReassemblyListSize ≤ d.m_fragments.length
    · have hne : d.m_fragments ≠ [] := by
        rintro hnil
        rw [hnil] at hfull
        exact hfull.1 (Nat.le_zero.mp hfull.2)
      obtain ⟨oldest, dropped, hok⟩ := h.dropOldest hne
      obtain ⟨hconsistent, hmem⟩ := hnew (d.without oldest) (h.without oldest).1
      exact ⟨_, dropped, by rw [if_pos hfull, hok, ok_bind]; rfl, hconsistent, hmem, rfl⟩
    · obtain ⟨hconsistent, hmem⟩ := hnew d h
      exact ⟨_, [], by rw [if_neg hfull, ok_bind]; rfl, hconsistent, hmem, rfl⟩

/-- What `storeFragment` does, once the fragment is in the list of the others. -/
theorem Consistent.storeFragment (h : Consistent d) (now : ℤ) (first : Option Packet)
    (hadd : (d.fragments key).AddFragment p offset = .ok f) :
    ∃ (d' : SixLowPanNetDevice) (dropped : List Packet),
      Consistent d' ∧ (∃ f, (key, f) ∈ d'.m_fragments) ∧
      d'.decompressFirst = d.decompressFirst ∧
      d.storeFragment now key p offset first = (do
        let fragments :=
          match first with
          | some packet => { f with m_firstFragment := some packet }
          | none => f
        if fragments.IsEntire then
          let packet ← fragments.GetPacket
          let (_, packet) ← Frag1.RemoveHeader packet
          .ok (d'.without key, dropped, some packet)
        else .ok (d'.withFragments key fragments, dropped, none)) := by
  obtain ⟨d', dropped, hok, hconsistent, hentry, hsame⟩ := h.lookup now key
  refine ⟨d', dropped, hconsistent, ⟨_, hentry⟩, hsame, ?_⟩
  rw [SixLowPanNetDevice.storeFragment, hok, ok_bind]
  dsimp only
  rw [hadd, ok_bind]
  rfl

/-- Receiving two lists of fragments. -/
theorem receiveAll_append {order' : List (ℤ × Packet)} {d' d'' : SixLowPanNetDevice}
    {answers' : List (Option Packet)} (h : d.receiveAll src dst order = .ok (d', answers))
    (h' : d'.receiveAll src dst order' = .ok (d'', answers')) :
    d.receiveAll src dst (order ++ order') = .ok (d'', answers ++ answers') := by
  induction order generalizing d answers with
  | nil =>
    cases h
    exact h'
  | cons q order ih =>
    rw [SixLowPanNetDevice.receiveAll, bind_eq_ok_iff] at h
    obtain ⟨⟨d₁, dropped, answer⟩, hq, h⟩ := h
    obtain ⟨⟨d₂, answers₂⟩, hrest, h⟩ := bind_eq_ok_iff.mp h
    cases h
    rw [cons_append, SixLowPanNetDevice.receiveAll, hq, ok_bind]
    dsimp only
    rw [ih hrest, ok_bind, cons_append]

end SixLowPanNetDevice

/-! ### The run -/

namespace Datagram

open SixLowPanNetDevice

variable {g : Datagram} {d : SixLowPanNetDevice} {delivered : List (Packet × ℕ)}

/-- The receiver has these pieces of the datagram, and can read the first fragment. -/
structure Holds (g : Datagram) (d : SixLowPanNetDevice) (delivered : List (Packet × ℕ)) :
    Prop where
  consistent : Consistent d
  stored : g.Stored delivered (d.fragments g.key)
  sub : ∀ x ∈ delivered, x ∈ g.pieces
  decompress : d.decompressFirst g.body g.src g.dst = .ok g.first

/-- A piece as it is sent. -/
def bytes (g : Datagram) (x : Packet × ℕ) : Packet :=
  if x.2 = 0 then g.frame
  else (FragN.mk g.header.m_datagramSize g.header.m_datagramTag (x.2 / 8)).Serialize ++ x.1

/-- Different pieces of a datagram have different bytes. -/
theorem Whole.bytes_inj (h : g.Whole) {y : Packet × ℕ} (hx : x ∈ g.pieces) (hy : y ∈ g.pieces)
    (heq : g.bytes x = g.bytes y) : x = y := by
  have hlt : ∀ z ∈ g.pieces, z.2 / 8 < 256 := fun z hz => by
    have := (h.chain.le.2 z hz).2
    have := h.size_lt
    omega
  refine h.unique x hx y hy ?_
  rw [bytes, bytes] at heq
  by_cases hzero : x.2 = 0
  · by_cases hzero' : y.2 = 0
    · rw [hzero, hzero']
    · rw [if_pos hzero, if_neg hzero'] at heq
      exact absurd heq (frag1_ne_fragN h.size_lt h.size_lt _ _)
  · by_cases hzero' : y.2 = 0
    · rw [if_neg hzero, if_pos hzero'] at heq
      exact absurd heq.symm (frag1_ne_fragN h.size_lt h.size_lt _ _)
    · rw [if_neg hzero, if_neg hzero'] at heq
      have hread := FragN.removeHeader (h := ⟨_, _, x.2 / 8⟩) h.size_lt h.tag_lt (hlt x hx) x.1
      rw [heq, FragN.removeHeader h.size_lt h.tag_lt (hlt y hy)] at hread
      have hsame : y.2 / 8 = x.2 / 8 :=
        congrArg (fun a => a.1.m_datagramOffset) (Except.ok.inj hread)
      have := h.aligned x hx
      have := h.aligned y hy
      omega

/-- Before its first fragment nothing of a datagram is held. -/
theorem holds_of_free (h : Consistent d) (hfree : d.Free g.key)
    (hdecompress : d.decompressFirst g.body g.src g.dst = .ok g.first) : g.Holds d [] where
  consistent := h
  stored := hfree.fragments_eq ▸ stored_new g
  sub := nofun
  decompress := hdecompress

/-- What comes with a piece: the first fragment itself if the piece is the first one. -/
def firstOf (g : Datagram) (x : Packet × ℕ) : Option Packet :=
  if x.2 = 0 then some g.frame else none

section

variable (h : g.Whole) (hd : g.Holds d delivered) (hx : x ∈ g.pieces)

include h hd hx

/-- **A fragment that is not the last one to come** is held with the others. -/
theorem Holds.storeFragment (hmissing : ¬ ∀ y ∈ g.pieces, y ∈ x :: delivered) (now : ℤ) :
    ∃ d' dropped, d.storeFragment now g.key x.1 x.2 (g.firstOf x) = .ok (d', dropped, none) ∧
      g.Holds d' (x :: delivered) := by
  obtain ⟨f, hadd, hstored⟩ := hd.stored.add h hx hd.sub
  obtain ⟨d', dropped, hconsistent, ⟨f', hentry⟩, hsame, heq⟩ :=
    hd.consistent.storeFragment now (g.firstOf x) hadd
  have hsub : ∀ y ∈ x :: delivered, y ∈ g.pieces := by
    intro y hy
    obtain rfl | hy := mem_cons.mp hy
    · exact hx
    · exact hd.sub y hy
  have hentire : ¬ (g.setFirst x f).IsEntire = true := fun hentire =>
    hmissing ((hstored.isEntire_iff h hsub).mp hentire)
  refine ⟨d'.withFragments g.key (g.setFirst x f), dropped, heq.trans (if_neg hentire), ?_⟩
  refine ⟨hconsistent.withFragments hentry, ?_, hsub, ?_⟩
  · rw [(hconsistent.withFragments hentry).fragments_eq (hconsistent.mem_withFragments _)]
    exact hstored
  · rw [← hd.decompress, ← hsame]
    rfl

/-- **The last fragment** completes the packet, and nothing is kept for it. -/
theorem Holds.storeFragment_last (hall : ∀ y ∈ g.pieces, y ∈ x :: delivered) (now : ℤ) :
    ∃ d' dropped, d.storeFragment now g.key x.1 x.2 (g.firstOf x) =
      .ok (d', dropped, some g.packet) ∧ Consistent d' ∧ d'.Free g.key := by
  obtain ⟨f, hadd, hstored⟩ := hd.stored.add h hx hd.sub
  obtain ⟨d', dropped, hconsistent, -, hsame, heq⟩ :=
    hd.consistent.storeFragment now (g.firstOf x) hadd
  have hsub : ∀ y ∈ x :: delivered, y ∈ g.pieces := by
    intro y hy
    obtain rfl | hy := mem_cons.mp hy
    · exact hx
    · exact hd.sub y hy
  have hentire : (g.setFirst x f).IsEntire = true := (hstored.isEntire_iff h hsub).mpr hall
  refine ⟨d'.without g.key, dropped, heq.trans ((if_pos hentire).trans ?_),
    hconsistent.without g.key⟩
  have hget : (g.setFirst x f).GetPacket = .ok (g.header.Serialize ++ g.packet) :=
    hstored.getPacket h hsub hall
  show ((g.setFirst x f).GetPacket >>= _) = _
  rw [hget, ok_bind, Frag1.removeHeader h.size_lt h.tag_lt, ok_bind]

/-- Receiving a piece of a datagram stores it. -/
theorem Holds.receive (now : ℤ) :
    d.receive now (g.bytes x) g.src g.dst =
      d.storeFragment now g.key x.1 x.2 (g.firstOf x) := by
  rw [bytes, firstOf]
  by_cases hzero : x.2 = 0
  · obtain rfl := (h.first_iff hx).mp hzero
    exact receive_frag1 h.size_lt h.tag_lt hd.decompress
  · have hle := (h.chain.le.2 x hx).2
    have hsize := h.size_lt
    have haligned := h.aligned x hx
    have hoffset : 8 * (x.2 / 8) = x.2 := by omega
    rw [if_neg hzero, if_neg hzero]
    refine (receive_fragN h.size_lt h.tag_lt (by show x.2 / 8 < 256; omega) x.1).trans ?_
    show d.storeFragment now g.key x.1 (8 * (x.2 / 8)) none = _
    rw [hoffset]

end

/-- **A run of the receiver**: as long as a piece is missing, nothing is complete. -/
theorem Holds.receiveAll (h : g.Whole) (hd : g.Holds d delivered)
    {order : List (ℤ × (Packet × ℕ))} (horder : ∀ y ∈ order, y.2 ∈ g.pieces) (hx : x ∈ g.pieces)
    (hmissing : x ∉ delivered) (hmissing' : ∀ y ∈ order, y.2 ≠ x) :
    ∃ d', d.receiveAll g.src g.dst (order.map fun y => (y.1, g.bytes y.2)) =
        .ok (d', order.map fun _ => none) ∧
      ∃ delivered', g.Holds d' delivered' ∧
        ∀ y, y ∈ delivered' ↔ y ∈ delivered ∨ ∃ z ∈ order, z.2 = y := by
  induction order generalizing d delivered with
  | nil => exact ⟨d, rfl, delivered, hd, fun y => by simp⟩
  | cons z order ih =>
    have hnext : x ∉ z.2 :: delivered := fun hmem => by
      obtain heq | hmem := mem_cons.mp hmem
      · exact hmissing' z mem_cons_self heq.symm
      · exact hmissing hmem
    obtain ⟨d₁, dropped, hstore, hd₁⟩ := hd.storeFragment h (horder z mem_cons_self)
      (fun hall => hnext (hall x hx)) z.1
    obtain ⟨d', hok, delivered', hd', hmem⟩ := ih hd₁
      (fun y hy => horder y (mem_cons_of_mem z hy)) hnext
      (fun y hy => hmissing' y (mem_cons_of_mem z hy))
    refine ⟨d', ?_, delivered', hd', fun y => ?_⟩
    · rw [map_cons, SixLowPanNetDevice.receiveAll,
        hd.receive h (horder z mem_cons_self), hstore, ok_bind]
      dsimp only
      rw [hok, ok_bind]
      rfl
    · rw [hmem, mem_cons]
      constructor
      · rintro ((rfl | hy) | ⟨w, hw, rfl⟩)
        · exact .inr ⟨z, mem_cons_self .., rfl⟩
        · exact .inl hy
        · exact .inr ⟨w, mem_cons_of_mem z hw, rfl⟩
      · rintro (hy | ⟨w, hw, rfl⟩)
        · exact .inl (.inr hy)
        · obtain rfl | hw := mem_cons.mp hw
          · exact .inl (.inl rfl)
          · exact .inr ⟨w, hw, rfl⟩

/-- **Fragments in any order**, some of them more than once: the packet is complete with the last
one that is missing, and then nothing is kept for it. -/
theorem Whole.receiveAll (h : g.Whole) (hd : g.Holds d [])
    (order : List (ℤ × (Packet × ℕ))) (horder : ∀ y ∈ order, y.2 ∈ g.pieces) (hx : x ∈ g.pieces)
    (hlast : ∀ y ∈ order, y.2 ≠ x) (hall : ∀ y ∈ g.pieces, y ≠ x → ∃ z ∈ order, z.2 = y)
    (now : ℤ) :
    ∃ d', d.receiveAll g.src g.dst (order.map fun y => (y.1, g.bytes y.2)) =
        .ok (d', order.map fun _ => none) ∧
      ∃ d'' dropped, d'.receive now (g.bytes x) g.src g.dst =
        .ok (d'', dropped, some g.packet) ∧ d''.Free g.key := by
  obtain ⟨d', hok, delivered, hd', hmem⟩ := hd.receiveAll h horder hx not_mem_nil hlast
  have hall' : ∀ y ∈ g.pieces, y ∈ x :: delivered := fun y hy => by
    by_cases heq : y = x
    · rw [heq]
      exact mem_cons_self ..
    · exact mem_cons_of_mem x ((hmem y).mpr (.inr (hall y hy heq)))
  obtain ⟨d'', dropped, hstore, -, hfree⟩ := hd'.storeFragment_last h hx hall' now
  exact ⟨d', hok, d'', dropped, (hd'.receive h hx now).trans hstore, hfree⟩

end Datagram

/-! ### Fragments that do not reach the end -/

namespace SixLowPanNetDevice

variable {d d' : SixLowPanNetDevice} {key : FragmentKey}

/-- None of the fragments that there are of the datagram reaches its end. -/
structure Short (d : SixLowPanNetDevice) (key : FragmentKey) : Prop where
  consistent : Consistent d
  size : (d.fragments key).m_packetSize = key.size
  short : ∀ x ∈ (d.fragments key).m_fragments, x.2 + x.1.length < key.size

/-- A device with the key free is short of it. -/
theorem Free.short (h : d.Free key) (hd : Consistent d) : d.Short key where
  consistent := hd
  size := by rw [h.fragments_eq, Fragments.new]
  short := by
    rw [h.fragments_eq]
    exact nofun

/-- With one more such fragment it is the same, and nothing is complete. -/
theorem Short.storeFragment (h : d.Short key) (hsize : key.size < 65536) {now : ℤ}
    (hp : offset + p.length < key.size) {first : Option Packet} {dropped : List Packet}
    {answer : Option Packet}
    (hok : d.storeFragment now key p offset first = .ok (d', dropped, answer)) :
    answer = none ∧ d'.Short key ∧ d'.decompressFirst = d.decompressFirst := by
  cases hadd : (d.fragments key).AddFragment p offset with
  | error e =>
    obtain ⟨d₁, dropped₁, hlookup, -⟩ := h.consistent.lookup now key
    rw [SixLowPanNetDevice.storeFragment, hlookup, ok_bind] at hok
    dsimp only at hok
    rw [hadd] at hok
    cases hok
  | ok f =>
    obtain ⟨d₁, dropped₁, hconsistent, ⟨f', hentry⟩, hsame, heq⟩ :=
      h.consistent.storeFragment now first hadd
    rw [Fragments.AddFragment, bind_eq_ok_iff] at hadd
    obtain ⟨l, hl, hf⟩ := hadd
    cases hf
    have hshort : ∀ x ∈ l, x.2 + x.1.length < key.size := by
      intro x hx
      obtain rfl | hx := Fragments.mem_of_insertFragment hl x hx
      · exact hp
      · exact h.short x hx
    -- No fragment reaches the end, so that the datagram never becomes entire.
    have hnot : ∀ f : Fragments, f.m_fragments = l → f.m_packetSize = key.size →
        ¬ f.IsEntire = true := by
      intro f hf hf' hentire
      rw [Fragments.IsEntire, Bool.and_eq_true, beq_iff_eq, hf, hf',
        Fragments.lastEnd_eq_reach fun x hx => (hshort x hx).trans hsize] at hentire
      obtain ⟨x, hx, hle, hlt⟩ := reach_covers hentire.2
        (Nat.zero_le (key.size - 1)) (by omega)
      have := hshort x hx
      omega
    obtain ⟨f, hf, hf', hrest⟩ : ∃ f : Fragments, f.m_fragments = l ∧ f.m_packetSize = key.size ∧
        d.storeFragment now key p offset first = if f.IsEntire then (do
          let packet ← f.GetPacket
          let (_, packet) ← Frag1.RemoveHeader packet
          .ok (d₁.without key, dropped₁, some packet))
        else .ok (d₁.withFragments key f, dropped₁, none) := by
      cases first with
      | none => exact ⟨{ d.fragments key with m_fragments := l }, rfl, h.size, heq⟩
      | some packet =>
        exact ⟨{ d.fragments key with m_fragments := l, m_firstFragment := some packet }, rfl,
          h.size, heq⟩
    rw [hrest, if_neg (hnot f hf hf')] at hok
    cases hok
    have hconsistent' : Consistent (d₁.withFragments key f) := hconsistent.withFragments hentry
    have hfragments : (d₁.withFragments key f).fragments key = f :=
      hconsistent'.fragments_eq (hconsistent.mem_withFragments f)
    refine ⟨rfl, ⟨hconsistent', ?_, ?_⟩, hsame⟩
    · rw [hfragments, hf']
    · rw [hfragments, hf]
      exact hshort

/-- A run with only such fragments. -/
theorem Short.receiveAll (h : d.Short key) (hsize : key.size < 65536)
    (horder : ∀ q ∈ order, ∃ p offset, offset + p.length < key.size ∧
      ∀ (d : SixLowPanNetDevice) (now : ℤ), d.receive now q.2 src dst =
        d.storeFragment now key p offset none)
    (hok : d.receiveAll src dst order = .ok (d', answers)) :
    d'.Short key ∧ d'.decompressFirst = d.decompressFirst := by
  induction order generalizing d answers with
  | nil =>
    cases hok
    exact ⟨h, rfl⟩
  | cons q order ih =>
    obtain ⟨p, offset, hp, hreceive⟩ := horder q mem_cons_self
    rw [SixLowPanNetDevice.receiveAll, hreceive, bind_eq_ok_iff] at hok
    obtain ⟨⟨d₁, dropped, answer⟩, hstore, hok⟩ := hok
    obtain ⟨⟨d₂, answers₂⟩, hrest, hok⟩ := bind_eq_ok_iff.mp hok
    cases hok
    obtain ⟨-, h₁, hsame⟩ := h.storeFragment hsize hp hstore
    obtain ⟨h₂, hsame₂⟩ := ih h₁ (fun q hq => horder q (mem_cons_of_mem _ hq)) hrest
    exact ⟨h₂, hsame₂.trans hsame⟩

end SixLowPanNetDevice
end Ns3Joined.Sixlowpan
