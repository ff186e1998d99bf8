import Mathlib.Data.List.TakeWhile
import Ns3Joined.Internet.Ipv4Fragmentation

/-!
# When reassembly completes a packet

What fragmentation makes of a datagram, however often it is done, are slices of its payload
(`PartOf`). The fragments of a key are kept sorted, and `m_moreFragment` is the flag of the one
that starts last (`Holds`); so a packet is found to be complete just if it is, and the fragment
that starts last is the end of it (`isEntire_iff`).

* `Obtained.partOf`: fragments are slices.
* `holds_addFragment`: what is kept of the fragments.
* `isEntire_iff`, `getPacket_eq`: when they are a packet, and which.
* `completes_iff`: for all runs.
* `end_is_missed`: fragments of two fragmentations that cover the payload, and are no packet.
-/

namespace Ns3Joined.Internet

open Slices List Function Option

/-! ### Fragmentation -/

/-- A fragment of the payload: its offset is where it comes from, and it has the flag just if it
does not reach the end. -/
structure PartOf (whole : Packet) (k : Key) (f : Fragment) : Prop where
  slice : IsSlice whole f.2.m_fragmentOffset f.1
  aligned : f.2.m_fragmentOffset % 8 = 0
  more : f.2.m_moreFragments = decide (f.2.m_fragmentOffset + f.1.length < whole.length)
  key : f.2.key = k

variable {whole p : Packet} {h : Ipv4Header} {k : Key}

variable {f : Fragment} {n : ℕ} {l : List (Packet × ℕ)}

/-- A part of the datagram is its end if and only if it is the fragment without the flag. -/
theorem PartOf.end_iff (hf : PartOf whole k f) :
    f.2.IsLastFragment = true ↔ f.2.m_fragmentOffset + f.1.length = whole.length := by
  have hle := hf.slice.le
  unfold Ipv4Header.IsLastFragment
  rw [hf.more, Bool.not_eq_true', decide_eq_false_iff_not]
  omega

/-- `SetFragmentOffset` accepts the aligned offsets below 65536. -/
theorem setFragmentOffset_eq (hlt : n < 65536) (haligned : n % 8 = 0) :
    h.SetFragmentOffset n = .ok { h with m_fragmentOffset := n } := by
  unfold Ipv4Header.SetFragmentOffset
  rw [Nat.mod_eq_of_lt hlt]
  exact if_neg (not_not_intro haligned)

/-- A part of a part. -/
theorem PartOf.sub (hp : PartOf whole k (p, h)) {m : ℕ} (hle : n + m ≤ p.length) (hn : n % 8 = 0)
    {h' : Ipv4Header} (hoffset : h'.m_fragmentOffset = n + h.m_fragmentOffset)
    (hmore : h'.m_moreFragments = (decide (n + m < p.length) || h.m_moreFragments))
    (hkey : h'.key = h.key) : PartOf whole k ((p.drop n).take m, h') := by
  have hlength : ((p.drop n).take m).length = m := by
    rw [length_take, length_drop]
    omega
  have haligned := hp.aligned
  dsimp only at haligned
  refine ⟨?_, ?_, ?_, hkey.trans hp.key⟩
  · dsimp only
    rw [hoffset, Nat.add_comm]
    exact hp.slice.sub hle
  · dsimp only
    omega
  · have hpart := hp.slice.le
    have hmore' := hp.more
    dsimp only at hpart hmore' ⊢
    rw [hmore, hmore', hoffset, hlength, ← Bool.decide_or]
    refine decide_eq_decide.mpr ?_
    omega

/-- The loop ends, and makes parts of the packet. -/
theorem fragmentLoop_spec (hp : PartOf whole k (p, h)) (hwhole : whole.length ≤ 65515)
    {fragmentSize : ℕ} (hpos : 0 < fragmentSize) (hsize : fragmentSize % 8 = 0) {rounds : ℕ}
    (hn : n % 8 = 0) (hle : n ≤ p.length) (hrounds : p.length - n < rounds) :
    ∃ l, fragmentLoop p h fragmentSize rounds n = .ok l ∧ ∀ f ∈ l, PartOf whole k f := by
  have hpart := hp.slice.le
  have haligned := hp.aligned
  dsimp only at hpart haligned
  induction rounds generalizing n with
  | zero => omega
  | succ rounds ih =>
    have hoffset : ∀ h' : Ipv4Header, h'.SetFragmentOffset (n + h.m_fragmentOffset) =
        .ok { h' with m_fragmentOffset := n + h.m_fragmentOffset } :=
      fun h' => setFragmentOffset_eq (by omega) (by omega)
    rw [fragmentLoop]
    by_cases hmore : p.length > n + fragmentSize
    · rw [if_pos hmore]
      dsimp only
      rw [hoffset, Nat.mod_eq_of_lt (by omega : n + fragmentSize < 65536)]
      obtain ⟨l, hok, hl⟩ := ih (n := n + fragmentSize) (by omega) (by omega) (by omega)
      refine ⟨_, by simp only [bind, Except.bind, hok]; rfl, fun f hf => ?_⟩
      obtain rfl | hf := mem_cons.mp hf
      · refine hp.sub (Nat.le_of_lt hmore) hn rfl ?_ rfl
        rw [decide_eq_true hmore]
        rfl
      · exact hl f hf
    · rw [if_neg hmore]
      dsimp only
      rw [hoffset]
      refine ⟨_, by simp only [bind, Except.bind]; rfl, fun f hf => ?_⟩
      obtain rfl := mem_singleton.mp hf
      refine hp.sub (by omega) hn rfl ?_ ?_
      · rw [decide_eq_false (by omega), Bool.false_or]
        cases hflag : h.m_moreFragments <;> simp [Ipv4Header.IsLastFragment, hflag] <;> rfl
      · cases hflag : h.m_moreFragments <;> simp [Ipv4Header.IsLastFragment, hflag] <;> rfl

/-- With an MTU from 68 on fragmentation returns. -/
theorem doFragmentation_spec (hp : PartOf whole k (p, h)) (hwhole : whole.length ≤ 65515)
    {mtu : ℕ} (hmtu : 68 ≤ mtu) :
    ∃ l, DoFragmentation p h mtu = .ok l ∧ ∀ f ∈ l, PartOf whole k f := by
  unfold DoFragmentation Ipv4Header.GetSerializedSize
  exact fragmentLoop_spec hp hwhole (by omega) (by omega) (by omega) (by omega) (by omega)

/-- What fragmentation produces, of a datagram or of a fragment of it, is a part of the datagram. -/
theorem Obtained.partOf (hh : IsDatagram h) (hwhole : whole.length ≤ 65515)
    (hf : Obtained (whole, h) f) : PartOf whole h.key f := by
  induction hf with
  | datagram =>
    refine ⟨?_, ?_, ?_, rfl⟩
    · dsimp only
      rw [hh.2]
      exact isSlice_self whole
    · dsimp only
      rw [hh.2]
    · dsimp only
      rw [hh.1, hh.2, Nat.zero_add, decide_eq_false (Nat.lt_irrefl _)]
  | fragment hf hmtu hok hmem ih =>
    obtain ⟨l, hok', hl⟩ := doFragmentation_spec ih hwhole hmtu
    rw [hok] at hok'
    cases hok'
    exact hl _ hmem

/-! ### The fragments of a key -/

/-- What is kept of a fragment. -/
def piece (f : Fragment) : Packet × ℕ := (f.1, f.2.m_fragmentOffset)

variable {received : List Fragment} {fr : Fragments} {g : Fragment}

/-- Among fragments received there is one that starts last. -/
theorem exists_startsLast (hne : received ≠ []) : ∃ f, startsLast received = some f := by
  cases received with
  | nil => exact absurd rfl hne
  | cons f received =>
    rw [startsLast]
    cases startsLast received with
    | none => exact ⟨f, rfl⟩
    | some g => exact ⟨if g.2.m_fragmentOffset ≤ f.2.m_fragmentOffset then f else g,
        (apply_ite some ..).symm⟩

/-- The fragment that starts last is one of those received, and none starts behind it. -/
theorem startsLast_spec (hg : startsLast received = some g) :
    g ∈ received ∧ ∀ f ∈ received, f.2.m_fragmentOffset ≤ g.2.m_fragmentOffset := by
  induction received generalizing g with
  | nil => cases hg
  | cons f received ih =>
    rw [startsLast] at hg
    cases hlast : startsLast received with
    | none =>
      have hnil : received = [] := by
        by_contra hne
        obtain ⟨f, hf⟩ := exists_startsLast hne
        rw [hlast] at hf
        cases hf
      rw [hlast] at hg
      cases hg
      subst hnil
      refine ⟨mem_cons_self .., fun x hx => ?_⟩
      obtain rfl := mem_singleton.mp hx
      exact Nat.le_refl _
    | some l =>
      rw [hlast] at hg
      obtain ⟨hmem, hmax⟩ := ih hlast
      dsimp only at hg
      split_ifs at hg with hle
      · -- the new one starts last
        cases hg
        refine ⟨mem_cons_self .., fun x hx => ?_⟩
        obtain rfl | hx := mem_cons.mp hx
        · exact Nat.le_refl _
        · exact Nat.le_trans (hmax x hx) hle
      · cases hg
        refine ⟨mem_cons_of_mem _ hmem, fun x hx => ?_⟩
        obtain rfl | hx := mem_cons.mp hx
        · exact Nat.le_of_not_le hle
        · exact hmax x hx

/-- What is kept of the fragments received under a key. -/
structure Holds (fr : Fragments) (received : List Fragment) : Prop where
  perm : fr.m_fragments.Perm (received.map piece)
  sorted : fr.m_fragments.Pairwise fun x y => x.2 ≤ y.2
  flag : ∀ f ∈ startsLast received, fr.m_moreFragment = f.2.m_moreFragments

theorem holds_new : Holds .new [] := ⟨List.Perm.refl _, List.Pairwise.nil, nofun⟩

/-- Putting a piece before the first one with a larger offset keeps the order. -/
theorem sorted_insert (hl : l.Pairwise fun x y => x.2 ≤ y.2) (x : Packet × ℕ) :
    ((l.takeWhile fun y => !decide (y.2 > x.2)) ++
      x :: l.dropWhile fun y => !decide (y.2 > x.2)).Pairwise fun x y => x.2 ≤ y.2 := by
  induction l with
  | nil => exact pairwise_singleton _ _
  | cons y l ih =>
    obtain ⟨hy, hl'⟩ := pairwise_cons.mp hl
    by_cases hlt : y.2 > x.2
    · -- the place is here
      rw [takeWhile_cons_of_neg (by simpa using hlt),
        dropWhile_cons_of_neg (by simpa using hlt), nil_append]
      refine pairwise_cons.mpr ⟨fun z hz => ?_, hl⟩
      obtain rfl | hz := mem_cons.mp hz
      · exact Nat.le_of_lt hlt
      · exact Nat.le_trans (Nat.le_of_lt hlt) (hy z hz)
    · rw [takeWhile_cons_of_pos (by simpa using hlt),
        dropWhile_cons_of_pos (by simpa using hlt), cons_append]
      refine pairwise_cons.mpr ⟨fun z hz => ?_, ih hl'⟩
      rw [(perm_middle).mem_iff, takeWhile_append_dropWhile] at hz
      obtain rfl | hz := mem_cons.mp hz
      · exact Nat.le_of_not_lt hlt
      · exact hy z hz

/-- `AddFragment` holds one more fragment, in order of the offsets. -/
theorem holds_addFragment (h : Holds fr received) (f : Fragment) :
    Holds (fr.AddFragment f.1 f.2.m_fragmentOffset (!f.2.IsLastFragment)) (f :: received) where
  perm := by
    refine perm_middle.trans ?_
    rw [takeWhile_append_dropWhile]
    exact h.perm.cons (piece f)
  sorted := sorted_insert h.sorted (piece f)
  flag := by
    intro l hl
    have hempty : (fr.m_fragments.dropWhile fun x =>
        !decide (x.2 > f.2.m_fragmentOffset)).isEmpty = true ↔
        ∀ g ∈ received, g.2.m_fragmentOffset ≤ f.2.m_fragmentOffset := by
      rw [List.isEmpty_iff, List.dropWhile_eq_nil_iff]
      constructor
      · intro hall g hg
        have hmem := h.perm.mem_iff.mpr (mem_map_of_mem (f := piece) hg)
        simpa [piece] using hall _ hmem
      · intro hall x hx
        obtain ⟨g, hg, rfl⟩ := mem_map.mp (h.perm.mem_iff.mp hx)
        simpa [piece] using hall g hg
    change (if _ then !f.2.IsLastFragment else fr.m_moreFragment) = _
    have hflag : (!f.2.IsLastFragment) = f.2.m_moreFragments := Bool.not_not _
    rw [mem_def, startsLast] at hl
    cases hlast : startsLast received with
    | none =>
      have hnil : received = [] := by
        by_contra hne
        obtain ⟨g, hg⟩ := exists_startsLast hne
        rw [hlast] at hg
        cases hg
      rw [hlast] at hl
      cases hl
      rw [if_pos (hempty.mpr (hnil ▸ nofun)), hflag]
    | some g =>
      rw [hlast] at hl
      obtain ⟨hmem, hmax⟩ := startsLast_spec hlast
      dsimp only at hl
      split_ifs at hl with hle
      · cases hl
        rw [if_pos (hempty.mpr fun x hx => Nat.le_trans (hmax x hx) hle), hflag]
      · cases hl
        rw [if_neg fun hall => hle (hempty.mp hall l hmem)]
        exact h.flag l hlast

/-! ### When they are a packet -/

/-- The overlap check succeeds if and only if the fragments reach each other without a gap. -/
theorem checkOverlaps_eq (hl : ∀ x ∈ l, x.2 + x.1.length < 65536) (n : ℕ) :
    Fragments.checkOverlaps n l = (reach n l).isSome := by
  induction l generalizing n with
  | nil => rfl
  | cons x l ih =>
    have hx := hl x mem_cons_self
    rw [Fragments.checkOverlaps, reach]
    by_cases hgap : n < x.2
    · rw [if_pos hgap, if_pos hgap]
      rfl
    · rw [if_neg hgap, if_neg hgap, Nat.mod_eq_of_lt (by omega)]
      exact ih (fun y hy => hl y (mem_cons_of_mem x hy)) _

/-- Every stored fragment is a slice of the datagram. -/
theorem Holds.isSlice (h : Holds fr received) (hparts : ∀ f ∈ received, PartOf whole k f) :
    ∀ x ∈ fr.m_fragments, IsSlice whole x.2 x.1 := by
  intro x hx
  obtain ⟨f, hf, rfl⟩ := mem_map.mp (h.perm.mem_iff.mp hx)
  exact (hparts f hf).slice

/-- **A packet is found to be complete** just if the fragments cover the payload, and the one that
starts last is the end of it. -/
theorem isEntire_iff (h : Holds fr received) (hne : received ≠ [])
    (hparts : ∀ f ∈ received, PartOf whole k f) (hwhole : whole.length ≤ 65515) :
    fr.IsEntire = true ↔
      Covered whole received ∧ ∃ f ∈ startsLast received, f.2.IsLastFragment = true := by
  obtain ⟨l, hl⟩ := exists_startsLast hne
  obtain ⟨hmem, hmax⟩ := startsLast_spec hl
  have hflag := h.flag l hl
  have hslice := h.isSlice hparts
  have hlength : fr.m_fragments.length > 0 := by
    have := h.perm.length_eq
    rw [length_map] at this
    have := length_pos_of_ne_nil hne
    omega
  have hpiece : ∀ f ∈ received, piece f ∈ fr.m_fragments :=
    fun f hf => h.perm.mem_iff.mpr (mem_map_of_mem hf)
  have hlast : (∃ f ∈ startsLast received, f.2.IsLastFragment = true) ↔
      l.2.IsLastFragment = true := by
    rw [hl]
    simp
  have hentire : fr.IsEntire = true ↔
      l.2.IsLastFragment = true ∧ (reach 0 fr.m_fragments).isSome = true := by
    unfold Fragments.IsEntire
    rw [hflag, ← checkOverlaps_eq (fun x hx => by have := (hslice x hx).le; omega)]
    simp [hlength, Ipv4Header.IsLastFragment]
  rw [hentire, hlast, and_comm]
  refine and_congr_left fun hend => ?_
  have hend' := (hparts l hmem).end_iff.mp hend
  constructor
  · -- no gap up to the end of the one that starts last
    intro hsome
    obtain ⟨stop, hstop⟩ := isSome_iff_exists.mp hsome
    have hle := end_le_reach hstop (piece l) (hpiece l hmem)
    refine ⟨fun n hn => ?_, l, hmem, hend'⟩
    obtain ⟨x, hx, hcovers⟩ := reach_covers hstop (Nat.zero_le n) (by
      have : l.2.m_fragmentOffset + l.1.length ≤ stop := hle
      omega)
    obtain ⟨f, hf, rfl⟩ := mem_map.mp (h.perm.mem_iff.mp hx)
    exact ⟨f, hf, hcovers⟩
  · rintro ⟨hcovers, -⟩
    refine reach_isSome h.sorted fun x hx m _ hm => ?_
    have hle := (hslice x hx).le
    obtain ⟨f, hf, hfm⟩ := hcovers m (by omega)
    exact ⟨piece f, hpiece f hf, hfm⟩

/-- Appending a slice that leaves no gap lengthens the prefix put together so far. -/
theorem appendFragment_eq {x : Packet × ℕ} (hx : IsSlice whole x.2 x.1)
    (hwhole : whole.length ≤ 65515) (hn : n ≤ whole.length) (hgap : ¬ n < x.2) :
    Fragments.appendFragment (whole.take n) x = whole.take (max n (x.1.length + x.2)) := by
  have htake := hx.take_append_drop (Nat.le_of_not_lt hgap)
  have hlength : (whole.take n).length % 65536 = n := by
    rw [length_take, min_eq_left hn, Nat.mod_eq_of_lt (by omega)]
  rw [Nat.add_comm x.1.length, ← htake]
  unfold Fragments.appendFragment
  rw [hlength]
  dsimp only
  by_cases hoverlap : n > x.2
  · rw [if_pos hoverlap]
    by_cases hrest : x.1.length > n - x.2
    · have hall : (x.1.drop (n - x.2)).take (x.1.length - (n - x.2)) = x.1.drop (n - x.2) :=
        take_of_length_le (Nat.le_of_eq (length_drop ..))
      rw [if_pos hrest, hall]
    · rw [if_neg hrest, drop_of_length_le (by omega), append_nil]
  · rw [if_neg hoverlap, show n - x.2 = 0 by omega, drop_zero]

/-- The loop of `GetPacket` puts the payload together, as far as the fragments reach. -/
theorem foldl_appendFragment {stop : ℕ} (hl : ∀ x ∈ l, IsSlice whole x.2 x.1)
    (hwhole : whole.length ≤ 65515) (hn : n ≤ whole.length) (hreach : reach n l = some stop) :
    l.foldl Fragments.appendFragment (whole.take n) = whole.take stop := by
  induction l generalizing n with
  | nil =>
    cases hreach
    rfl
  | cons x l ih =>
    have hx := hl x mem_cons_self
    have hle := hx.le
    rw [reach] at hreach
    split_ifs at hreach with hgap
    rw [foldl_cons, appendFragment_eq hx hwhole hn hgap]
    exact ih (fun y hy => hl y (mem_cons_of_mem x hy)) (max_le hn (by omega)) hreach

/-- The packet is the payload. -/
theorem getPacket_eq (h : Holds fr received) (hne : received ≠ [])
    (hparts : ∀ f ∈ received, PartOf whole k f) (hwhole : whole.length ≤ 65515)
    (hentire : fr.IsEntire = true) : fr.GetPacket = .ok whole := by
  obtain ⟨⟨-, l, hmem, hend⟩, -⟩ := (isEntire_iff h hne hparts hwhole).mp hentire
  have hslice := h.isSlice hparts
  have hpiece : piece l ∈ fr.m_fragments := h.perm.mem_iff.mpr (mem_map_of_mem hmem)
  unfold Fragments.IsEntire at hentire
  split_ifs at hentire
  rw [checkOverlaps_eq fun x hx => by have := (hslice x hx).le; omega] at hentire
  obtain ⟨stop, hstop⟩ := isSome_iff_exists.mp hentire
  have hle := end_le_reach hstop (piece l) hpiece
  have hstop_le : whole.length ≤ stop := hend ▸ hle
  unfold Fragments.GetPacket
  match hfr : fr.m_fragments with
  | [] =>
    rw [hfr] at hpiece
    cases hpiece
  | x :: rest =>
    rw [hfr] at hstop hslice
    have hfold := foldl_appendFragment hslice hwhole (Nat.zero_le _) hstop
    have hfirst : Fragments.appendFragment (whole.take 0) x = x.1 := by
      rw [reach] at hstop
      split_ifs at hstop with hgap
      rw [take_zero]
      unfold Fragments.appendFragment
      dsimp only
      rw [length_nil, if_neg (by omega), nil_append]
    rw [foldl_cons, hfirst, take_of_length_le hstop_le] at hfold
    exact congrArg Except.ok hfold

/-! ### Runs -/

section Reassembly

variable {payload : Key → Packet} {m : MapFragments} {t : Key → List Fragment}

/-- The fragments of all keys. -/
structure Reassembles (payload : Key → Packet) (m : MapFragments) (t : Key → List Fragment) :
    Prop where
  absent : ∀ key, m key = none → t key = []
  present : ∀ key fr, m key = some fr → t key ≠ [] ∧ Holds fr (t key)
  parts : ∀ key, ∀ f ∈ t key, PartOf (payload key) key f

/-- The fragments stored under a key, none where the map has no entry. -/
theorem Reassembles.holds (h : Reassembles payload m t) (key : Key) :
    Holds ((m key).getD .new) (t key) := by
  cases hm : m key with
  | none =>
    rw [h.absent key hm]
    exact holds_new
  | some fr => exact (h.present key fr hm).2

/-- Erasing a key forgets its fragments on both levels. -/
theorem Reassembles.forget (h : Reassembles payload m t) (key : Key) :
    Reassembles payload (update m key none) (update t key []) := by
  refine ⟨fun key' hm => ?_, fun key' fr hm => ?_, fun key' f hf => ?_⟩
  all_goals by_cases hkey : key' = key
  · subst hkey
    rw [update_self]
  · rw [update_of_ne hkey] at hm ⊢
    exact h.absent key' hm
  · subst hkey
    rw [update_self] at hm
    cases hm
  · rw [update_of_ne hkey] at hm ⊢
    exact h.present key' fr hm
  · subst hkey
    rw [update_self] at hf
    cases hf
  · rw [update_of_ne hkey] at hf
    exact h.parts key' f hf

/-- Storing the fragments of a key keeps them on both levels. -/
theorem Reassembles.keep (h : Reassembles payload m t) {key : Key} (hfr : Holds fr received)
    (hne : received ≠ []) (hparts : ∀ f ∈ received, PartOf (payload key) key f) :
    Reassembles payload (update m key (some fr)) (update t key received) := by
  refine ⟨fun key' hm => ?_, fun key' fr' hm => ?_, fun key' f hf => ?_⟩
  all_goals by_cases hkey : key' = key
  · subst hkey
    rw [update_self] at hm
    cases hm
  · rw [update_of_ne hkey] at hm ⊢
    exact h.absent key' hm
  · subst hkey
    rw [update_self] at hm ⊢
    cases hm
    exact ⟨hne, hfr⟩
  · rw [update_of_ne hkey] at hm ⊢
    exact h.present key' fr' hm
  · subst hkey
    rw [update_self] at hf
    exact hparts f hf
  · rw [update_of_ne hkey] at hf
    exact h.parts key' f hf

/-- A fragment is handled as it is to be just if it fits. -/
theorem processFragment_iff (hpayload : ∀ key, (payload key).length ≤ 65515)
    (h : Reassembles payload m t) {packet : Packet} {ipHeader : Ipv4Header}
    (hallowed : IsFragment payload (packet, ipHeader)) :
    Refinement.StepRefines step (reassembly payload) (Reassembles payload) m t
      (.processFragment packet ipHeader) ↔
    Fits payload t (.processFragment packet ipHeader) := by
  obtain ⟨d, hd, hkey, hobtained⟩ := hallowed
  have hpart := hobtained.partOf hd (hpayload _)
  rw [hkey] at hpart
  have hfr := holds_addFragment (h.holds ipHeader.key) (packet, ipHeader)
  have hparts : ∀ f ∈ (packet, ipHeader) :: t ipHeader.key,
      PartOf (payload ipHeader.key) ipHeader.key f := by
    intro f hf
    obtain rfl | hf := mem_cons.mp hf
    · exact hpart
    · exact h.parts _ f hf
  have hne : (packet, ipHeader) :: t ipHeader.key ≠ [] := cons_ne_nil _ _
  have hentire := isEntire_iff hfr hne hparts (hpayload _)
  have hpacket := getPacket_eq hfr hne hparts (hpayload _)
  have hstep : step m (.processFragment packet ipHeader) =
      ProcessFragment m packet ipHeader := rfl
  unfold ProcessFragment at hstep
  dsimp only at hstep hfr hentire hpacket
  have hnext : (reassembly payload).next t (.processFragment packet ipHeader) =
      update t ipHeader.key
        (if Covered (payload ipHeader.key) ((packet, ipHeader) :: t ipHeader.key) then []
        else (packet, ipHeader) :: t ipHeader.key) := rfl
  have hanswer : (reassembly payload).answer t (.processFragment packet ipHeader) =
      if Covered (payload ipHeader.key) ((packet, ipHeader) :: t ipHeader.key) then
        some (payload ipHeader.key) else none := rfl
  unfold Refinement.StepRefines
  rw [hstep, hnext, hanswer]
  by_cases hcovered : Covered (payload ipHeader.key) ((packet, ipHeader) :: t ipHeader.key)
  · rw [if_pos hcovered, if_pos hcovered]
    by_cases hlast : ∃ f ∈ startsLast ((packet, ipHeader) :: t ipHeader.key),
        f.2.IsLastFragment = true
    · -- the packet is found to be complete
      refine iff_of_true ?_ fun _ => hlast
      have hyes := hentire.mpr ⟨hcovered, hlast⟩
      rw [if_pos hyes, hpacket hyes]
      exact ⟨_, rfl, h.forget _⟩
    · -- it is complete, but not found to be
      refine iff_of_false ?_ fun hfits => hlast (hfits hcovered)
      rw [if_neg fun hyes => hlast (hentire.mp hyes).2]
      rintro ⟨m', hok, -⟩
      cases hok
  · rw [if_neg hcovered, if_neg hcovered]
    refine iff_of_true ?_ fun hyes => absurd hyes hcovered
    rw [if_neg fun hyes => hcovered (hentire.mp hyes).1]
    exact ⟨_, rfl, h.keep hfr hne hparts⟩

theorem step_refines_iff (hpayload : ∀ key, (payload key).length ≤ 65515) (m : MapFragments)
    (t : Key → List Fragment) (call : Call) (h : Reassembles payload m t)
    (hallowed : (reassembly payload).Allowed t call) :
    Refinement.StepRefines step (reassembly payload) (Reassembles payload) m t call ↔
      Fits payload t call := by
  cases call with
  | processFragment packet ipHeader => exact processFragment_iff hpayload h hallowed
  | handleFragmentsTimeout key =>
    refine iff_of_true ?_ trivial
    cases hm : m key with
    | none => exact absurd (h.absent key hm) hallowed
    | some fr =>
      refine ⟨update m key none, ?_, h.forget key⟩
      simp only [step, HandleFragmentsTimeout, hm, bind, Except.bind]
      rfl

/-- **Reassembly completes a packet exactly when it is complete**, and to the payload, in all runs
in which, whenever the fragments of a key come to cover the payload, the one that starts last is
the end of it; and in no others. -/
theorem completes_iff (payload : Key → Packet) (hpayload : ∀ key, (payload key).length ≤ 65515)
    (calls : List Call) :
    Refinement.Refines step (reassembly payload) (Reassembles payload) (fun _ => none)
      (fun _ => []) calls ↔
    Refinement.Before step (reassembly payload) (fun _ t call => Fits payload t call)
      (fun _ => none) (fun _ => []) calls :=
  Refinement.refines_iff_before (step_refines_iff hpayload)
    { absent := fun _ _ => rfl
      present := fun _ _ hm => by cases hm
      parts := fun _ _ hf => by cases hf } calls

/-- What fragmentation yields of something obtained is obtained. -/
theorem Obtained.of_mem {d : Fragment} {mtu : ℕ} (hmtu : 68 ≤ mtu)
    (hmem : ∃ l ∈ (DoFragmentation d.1 d.2 mtu).toOption, f ∈ l) : Obtained d f := by
  obtain ⟨l, hl, hf⟩ := hmem
  refine .fragment .datagram hmtu ?_ hf
  cases hok : DoFragmentation d.1 d.2 mtu with
  | error e =>
    rw [hok] at hl
    cases hl
  | ok l' =>
    rw [hok] at hl
    cases hl
    rfl

/-- A payload of 200 bytes. -/
def samplePayload : Packet := (List.range 200).map UInt8.ofNat

theorem length_samplePayload : samplePayload.length ≤ 65515 := by
  rw [samplePayload, length_map, length_range]
  decide

/-- The header of one of its fragments. -/
def sampleHeader (offset size : ℕ) (more : Bool) : Ipv4Header :=
  ⟨0x0a000001, 0x0a000002, 7, 17, more, offset, size⟩

/-- One of its fragments is received. -/
def sampleCall (offset size : ℕ) (more : Bool) : Call :=
  .processFragment ((samplePayload.drop offset).take size) (sampleHeader offset size more)

theorem sample_isFragment (mtu offset size : ℕ) (more : Bool) (hmtu : 68 ≤ mtu)
    (hmem : ∃ l ∈ (DoFragmentation samplePayload (sampleHeader 0 0 false) mtu).toOption,
      ((samplePayload.drop offset).take size, sampleHeader offset size more) ∈ l) :
    IsFragment (fun _ => samplePayload)
      ((samplePayload.drop offset).take size, sampleHeader offset size more) :=
  ⟨sampleHeader 0 0 false, ⟨rfl, rfl⟩, rfl, .of_mem hmtu hmem⟩

/-- Fragments of two fragmentations, one of them twice, then those of a second copy. -/
theorem completes_iff_overlap :
    Refinement.Refines step (reassembly fun _ => samplePayload)
      (Reassembles fun _ => samplePayload) (fun _ => none) (fun _ => [])
      [sampleCall 144 48 true, sampleCall 0 128 true, sampleCall 144 48 true,
        sampleCall 128 72 false, sampleCall 192 8 false, sampleCall 0 48 true] ↔
    Refinement.Before step (reassembly fun _ => samplePayload)
      (fun _ t call => Fits (fun _ => samplePayload) t call) (fun _ => none) (fun _ => [])
      [sampleCall 144 48 true, sampleCall 0 128 true, sampleCall 144 48 true,
        sampleCall 128 72 false, sampleCall 192 8 false, sampleCall 0 48 true] :=
  completes_iff (fun _ => samplePayload) (fun _ => length_samplePayload) _

/-- The end of one fragmentation, a later fragment of another, and the rest of the first: they
cover the payload, and no packet is found to be complete. -/
theorem end_is_missed :
    (reassembly fun _ => samplePayload).AllAllowed (fun _ => [])
      [sampleCall 128 72 false, sampleCall 144 48 true, sampleCall 0 128 true] ∧
    Refinement.answers step (fun _ => none)
      [sampleCall 128 72 false, sampleCall 144 48 true, sampleCall 0 128 true] =
      .ok [none, none, none] ∧
    (reassembly fun _ => samplePayload).answers (fun _ => [])
      [sampleCall 128 72 false, sampleCall 144 48 true, sampleCall 0 128 true] =
      [none, none, some samplePayload] := by
  refine ⟨⟨?_, ?_, ?_, trivial⟩, by decide +kernel, by decide +kernel⟩
  · exact sample_isFragment 148 128 72 false (by decide) (by decide +kernel)
  · exact sample_isFragment 68 144 48 true (by decide) (by decide +kernel)
  · exact sample_isFragment 148 0 128 true (by decide) (by decide +kernel)

end Reassembly

end Ns3Joined.Internet
