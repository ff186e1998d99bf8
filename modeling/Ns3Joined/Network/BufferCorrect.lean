import Ns3Joined.Library.Refinement
import Ns3Joined.Network.BufferOperations

/-!
# Buffers are lists of bytes

Any run of calls on any number of buffers, against lists of bytes that share nothing. The code
computes offsets with 32 bits: `RemoveAtStart` wraps around where `RemoveAtEnd` takes the
smaller of two sizes, and `CreateFragment` gives an empty buffer for a fragment that ends behind
the end. `Fits` are the calls where the offsets fit.
-/

namespace Ns3Joined.Network.Buffer

open List

/-! ### Lists of bytes -/

/-- The list with the number `i`. -/
def bytesOf (t : List (List UInt8)) (i : ℕ) : List UInt8 := (t[i]?).getD []

/-- The calls that a program can make: on buffers that there are, with a number of bytes that
is a `uint32_t`. -/
def Allowed (t : List (List UInt8)) : Call → Prop
  | .construct _ => True
  | .copy o => o < t.length
  | .assign i o => i < t.length ∧ o < t.length
  | .destroy i => i < t.length
  | .addAtStart i bytes => i < t.length ∧ bytes.length < 2 ^ 32
  | .addAtEnd i bytes => i < t.length ∧ bytes.length < 2 ^ 32
  | .removeAtStart i _ => i < t.length
  | .removeAtEnd i _ => i < t.length
  | .createFragment i _ _ => i < t.length
  | .copyData i _ => i < t.length

def next (t : List (List UInt8)) : Call → List (List UInt8)
  | .construct dataSize => t ++ [List.replicate dataSize.toNat 0]
  | .copy o => t ++ [bytesOf t o]
  | .assign i o => t.set i (bytesOf t o)
  | .destroy i => t.eraseIdx i
  | .addAtStart i bytes => t.set i (bytes ++ bytesOf t i)
  | .addAtEnd i bytes => t.set i (bytesOf t i ++ bytes)
  | .removeAtStart i start => t.set i ((bytesOf t i).drop start.toNat)
  | .removeAtEnd i remove => t.set i ((bytesOf t i).take ((bytesOf t i).length - remove.toNat))
  | .createFragment i start length =>
    t ++ [((bytesOf t i).drop start.toNat).take length.toNat]
  | .copyData _ _ => t

def answer (t : List (List UInt8)) : Call → Option (List UInt8)
  | .copyData i size => some ((bytesOf t i).take size.toNat)
  | _ => none

/-- Buffers as lists of bytes that share nothing. -/
def byteLists : Refinement.Spec (List (List UInt8)) Call (Option (List UInt8)) where
  Allowed := Allowed
  next := next
  answer := answer

instance : ∀ t call, Decidable (byteLists.Allowed t call)
  | _, .construct _ => inferInstanceAs (Decidable True)
  | t, .copy o => inferInstanceAs (Decidable (o < t.length))
  | t, .assign i o => inferInstanceAs (Decidable (i < t.length ∧ o < t.length))
  | t, .destroy i => inferInstanceAs (Decidable (i < t.length))
  | t, .addAtStart i bytes => inferInstanceAs (Decidable (i < t.length ∧ bytes.length < 2 ^ 32))
  | t, .addAtEnd i bytes => inferInstanceAs (Decidable (i < t.length ∧ bytes.length < 2 ^ 32))
  | t, .removeAtStart i _ => inferInstanceAs (Decidable (i < t.length))
  | t, .removeAtEnd i _ => inferInstanceAs (Decidable (i < t.length))
  | t, .createFragment i _ _ => inferInstanceAs (Decidable (i < t.length))
  | t, .copyData i _ => inferInstanceAs (Decidable (i < t.length))

/-- The buffers hold the bytes of the lists. -/
def Represents (s : Buffers) (t : List (List UInt8)) : Prop :=
  ∃ l : List Entry, s.buffers = l.map Prod.fst ∧ t = l.map Prod.snd ∧ Holds s.heap [] l

/-! ### Offsets that fit -/

/-- One more reference to the block of the buffer can be counted. -/
def CountFits (m : Heap) (b : Handle) : Prop :=
  ∀ d ∈ m.data b.m_data, d.m_count.toNat + 1 < 2 ^ 32

/-- `AddAtStart` has room for its offset, unless it stays in the block. -/
def StartFits (m : Heap) (b : Handle) (start : UInt32) : Prop :=
  ∀ d ∈ m.data b.m_data, ¬ StartsInPlace d b start → MoveFits b start

/-- `AddAtEnd` has room for its offset: in the block where the buffer is, or in another one. -/
def EndFits (m : Heap) (b : Handle) (grow : UInt32) : Prop :=
  ∀ d ∈ m.data b.m_data, (GrowsInPlace d b grow → b.m_end.toNat + grow.toNat < 2 ^ 32) ∧
    (¬ GrowsInPlace d b grow → MoveFits b grow)

/-- The offsets that a call computes, and the count of a block, are less than `2 ^ 32`. -/
def Fits (s : Buffers) (_ : List (List UInt8)) : Call → Prop
  | .construct dataSize =>
    (min (firstSize s.heap) s.heap.g_recommendedStart).toNat + dataSize.toNat < 2 ^ 32
  | .copy o => ∀ b ∈ s.buffers[o]?, CountFits s.heap b
  | .assign i o => ∀ b ∈ s.buffers[i]?, ∀ b' ∈ s.buffers[o]?, b.m_data ≠ b'.m_data →
    CountFits s.heap b'
  | .addAtStart i bytes => ∀ b ∈ s.buffers[i]?, StartFits s.heap b (size bytes)
  | .addAtEnd i bytes => ∀ b ∈ s.buffers[i]?, EndFits s.heap b (size bytes)
  | .removeAtStart i start => ∀ b ∈ s.buffers[i]?, b.m_start.toNat + start.toNat < 2 ^ 32
  | .createFragment i start length => ∀ b ∈ s.buffers[i]?, CountFits s.heap b ∧
    b.m_start.toNat + start.toNat < 2 ^ 32 ∧
    (start.toNat + length.toNat ≤ (GetSize b).toNat ∨ (GetSize b).toNat ≤ start.toNat ∨
      start.toNat + length.toNat = (GetSize b).toNat + 2 ^ 32)
  | .destroy _ => True
  | .removeAtEnd _ _ => True
  | .copyData _ _ => True

instance (m : Heap) (b : Handle) : Decidable (CountFits m b) :=
  inferInstanceAs (Decidable (∀ d ∈ m.data b.m_data, d.m_count.toNat + 1 < 2 ^ 32))

instance (m : Heap) (b : Handle) (start : UInt32) : Decidable (StartFits m b start) :=
  inferInstanceAs (Decidable (∀ d ∈ m.data b.m_data, _ → _))

instance (m : Heap) (b : Handle) (grow : UInt32) : Decidable (EndFits m b grow) :=
  inferInstanceAs (Decidable (∀ d ∈ m.data b.m_data, _ ∧ _))

instance : ∀ s t call, Decidable (Fits s t call)
  | s, _, .construct dataSize => inferInstanceAs (Decidable
    ((min (firstSize s.heap) s.heap.g_recommendedStart).toNat + dataSize.toNat < 2 ^ 32))
  | s, _, .copy o => inferInstanceAs (Decidable (∀ b ∈ s.buffers[o]?, CountFits s.heap b))
  | s, _, .assign i o => inferInstanceAs (Decidable
    (∀ b ∈ s.buffers[i]?, ∀ b' ∈ s.buffers[o]?, b.m_data ≠ b'.m_data → CountFits s.heap b'))
  | _, _, .destroy _ => inferInstanceAs (Decidable True)
  | s, _, .addAtStart i bytes =>
    inferInstanceAs (Decidable (∀ b ∈ s.buffers[i]?, StartFits s.heap b (size bytes)))
  | s, _, .addAtEnd i bytes =>
    inferInstanceAs (Decidable (∀ b ∈ s.buffers[i]?, EndFits s.heap b (size bytes)))
  | s, _, .removeAtStart i _ => inferInstanceAs (Decidable (∀ b ∈ s.buffers[i]?, _ < _))
  | _, _, .removeAtEnd _ _ => inferInstanceAs (Decidable True)
  | s, _, .createFragment i _ _ =>
    inferInstanceAs (Decidable (∀ b ∈ s.buffers[i]?, CountFits s.heap b ∧ _ ∧ _))
  | _, _, .copyData _ _ => inferInstanceAs (Decidable True)

/-! ### One call -/

/-- The buffer with the number `i` among the others. -/
structure Focus (s : Buffers) (t : List (List UInt8)) (i : ℕ) (b : Handle) (rest : List Entry) :
    Prop where
  get : s.buffers[i]? = some b
  holds : Holds s.heap [] ((b, bytesOf t i) :: rest)
  others : ∀ o < t.length, o ≠ i → ∃ b', s.buffers[o]? = some b' ∧ (b', bytesOf t o) ∈ rest
  set : ∀ m b' x, Holds m [] ((b', x) :: rest) → Represents ⟨m, s.buffers.set i b'⟩ (t.set i x)
  erase : ∀ m, Holds m [] rest → Represents ⟨m, s.buffers.eraseIdx i⟩ (t.eraseIdx i)
  add : ∀ m b' x, Holds m [] ((b', x) :: (b, bytesOf t i) :: rest) →
    Represents ⟨m, s.buffers ++ [b']⟩ (t ++ [x])

variable {s : Buffers} {t : List (List UInt8)} {i : ℕ}

/-- A buffer of the state, taken to the front. -/
theorem Represents.focus (h : Represents s t) (hi : i < t.length) :
    ∃ b rest, Focus s t i b rest := by
  obtain ⟨l, hbuffers, rfl, hholds⟩ := h
  rw [length_map] at hi
  have hbytes : bytesOf (l.map Prod.snd) i = l[i].2 := by
    unfold bytesOf
    rw [List.getElem?_map, List.getElem?_eq_getElem hi]
    rfl
  have hperm : (l[i] :: l.eraseIdx i).Perm l := getElem_cons_eraseIdx_perm hi
  refine ⟨l[i].1, l.eraseIdx i, ?_, ?_, ?_, ?_, ?_, ?_⟩
  · rw [hbuffers, List.getElem?_map, List.getElem?_eq_getElem hi]
    rfl
  · rw [hbytes]
    exact hholds.perm hperm.symm
  · intro o ho hne
    rw [length_map] at ho
    refine ⟨l[o].1, ?_, ?_⟩
    · rw [hbuffers, List.getElem?_map, List.getElem?_eq_getElem ho]
      rfl
    · apply mem_eraseIdx_iff_getElem.mpr
      refine ⟨o, ho, hne, ?_⟩
      unfold bytesOf
      rw [List.getElem?_map, List.getElem?_eq_getElem ho]
      rfl
  · intro m b' x hset
    refine ⟨l.set i (b', x), ?_, ?_, ?_⟩
    · rw [hbuffers, map_set]
    · rw [map_set]
    · exact hset.perm (set_perm_cons_eraseIdx hi _).symm
  · intro m herase
    refine ⟨l.eraseIdx i, ?_, ?_, herase⟩
    · rw [hbuffers, eraseIdx_map]
    · rw [eraseIdx_map]
  · intro m b' x hadd
    refine ⟨l ++ [(b', x)], ?_, ?_, ?_⟩
    · rw [hbuffers, map_append]
      rfl
    · rw [map_append]
      rfl
    · rw [hbytes] at hadd
      exact hadd.perm ((hperm.cons _).trans (perm_append_singleton _ _).symm)

variable {b : Handle} {bytes : List UInt8}

/-- The bytes of a held buffer are as many as its size says. -/
theorem Holds.length_eq {m : Heap} {held : List ℕ} {l : List Entry}
    (h : Holds m held ((b, bytes) :: l)) : bytes.length = (GetSize b).toNat := by
  obtain ⟨d, -, hwithin, hbytes⟩ := h.entry _ mem_cons_self
  dsimp only at hwithin hbytes
  rw [← hbytes, length_content _ hwithin.toShape, toNat_getSize hwithin.toShape]

/-- A buffer of the state is found. -/
theorem get_eq (hb : s.buffers[i]? = some b) : get s i = .ok b := by
  unfold get
  rw [hb]

theorem toNat_size (h : bytes.length < 2 ^ 32) :
    (size bytes).toNat = bytes.length := Nat.mod_eq_of_lt h

/-- A call whose offsets fit does to the bytes what it does to the lists. -/
theorem step_refines (call : Call) (h : Represents s t) (hallowed : byteLists.Allowed t call)
    (hfits : Fits s t call) : Refinement.StepRefines step byteLists Represents s t call := by
  cases call with
  | construct dataSize =>
    obtain ⟨l, hbuffers, rfl, hholds⟩ := h
    obtain ⟨m', b, hok, hholds'⟩ := hholds.initialize hfits
    refine ⟨⟨m', s.buffers ++ [b]⟩, ?_, l ++ [(b, List.replicate dataSize.toNat 0)], ?_, ?_, ?_⟩
    · simp only [step, hok, bind, Except.bind]
      rfl
    · rw [hbuffers, map_append]
      rfl
    · rw [map_append]
      rfl
    · exact hholds'.perm (perm_append_singleton _ _).symm
  | copy o =>
    obtain ⟨b, rest, hb⟩ := h.focus hallowed
    obtain ⟨d, hd, -⟩ := hb.holds.entry _ mem_cons_self
    obtain ⟨m', b', hok, -, hholds'⟩ := hb.holds.copy hd (hfits b hb.get d hd)
    refine ⟨⟨m', s.buffers ++ [b']⟩, ?_, hb.add m' b' _ hholds'⟩
    simp only [step, get_eq hb.get, hok, bind, Except.bind]
    rfl
  | assign i o =>
    obtain ⟨b, rest, hb⟩ := h.focus hallowed.1
    by_cases hio : o = i
    · -- the buffer itself
      subst hio
      refine ⟨⟨{ s.heap with
        g_recommendedStart := max s.heap.g_recommendedStart b.m_maxZeroAreaStart },
        s.buffers.set o b⟩, ?_, hb.set _ _ _ (hb.holds.of_data rfl (List.Sublist.refl _) le_rfl)⟩
      simp only [step, get_eq hb.get, assign, bind, Except.bind, if_pos, pure, Except.pure]
      rfl
    · obtain ⟨b', hb', hmem⟩ := hb.others o hallowed.2 hio
      have hperm := perm_cons_erase hmem
      have hholds := hb.holds.perm (hperm.cons (b, bytesOf t i))
      obtain ⟨m', hok, hholds'⟩ := hholds.assign fun hne d hd => hfits b hb.get b' hb' hne d hd
      refine ⟨⟨m', s.buffers.set i b'⟩, ?_,
        hb.set m' b' _ (hholds'.perm (hperm.symm.cons (b', bytesOf t o)))⟩
      simp only [step, get_eq hb.get, get_eq hb', hok, bind, Except.bind]
      rfl
  | destroy i =>
    obtain ⟨b, rest, hb⟩ := h.focus hallowed
    obtain ⟨m', hok, hholds'⟩ := hb.holds.destroy
    refine ⟨⟨m', s.buffers.eraseIdx i⟩, ?_, hb.erase m' hholds'⟩
    simp only [step, get_eq hb.get, hok, bind, Except.bind]
    rfl
  | addAtStart i bytes =>
    obtain ⟨b, rest, hb⟩ := h.focus hallowed.1
    obtain ⟨d, hd, -⟩ := hb.holds.entry _ mem_cons_self
    have hsize := toNat_size hallowed.2
    -- a gap is opened, and the bytes written into it
    obtain ⟨m', b', gap, hok, hgap, hholds, hroom, hown⟩ :=
      hb.holds.addAtStart hd (size bytes) (hfits b hb.get d hd)
    rw [hsize] at hgap hroom
    obtain ⟨m'', hok', hholds'⟩ :=
      hholds.fillStart hgap hroom fun y hy ha => hsize ▸ hown y hy ha
    refine ⟨⟨m'', s.buffers.set i b'⟩, ?_, hb.set m'' b' _ hholds'⟩
    simp only [step, get_eq hb.get, hok, hok', bind, Except.bind]
    rfl
  | addAtEnd i bytes =>
    obtain ⟨b, rest, hb⟩ := h.focus hallowed.1
    obtain ⟨d, hd, -⟩ := hb.holds.entry _ mem_cons_self
    have hsize := toNat_size hallowed.2
    obtain ⟨hplace, hmove⟩ := hfits b hb.get d hd
    obtain ⟨m', b', gap, hok, hgap, hholds, hroom, hown⟩ :=
      hb.holds.addAtEnd hd (size bytes) hplace hmove
    rw [hsize] at hgap hroom
    have hprev : ¬ b'.m_end < size bytes := by
      rw [UInt32.lt_iff_toNat_lt]
      omega
    have hoff := toNat_sub (a := b'.m_end) (b := size bytes) (by omega)
    obtain ⟨m'', hok', hholds'⟩ := hholds.fillEnd (b'.m_end - size bytes) hgap (by omega)
      (by omega) fun y hy ha => hsize ▸ hown y hy ha
    refine ⟨⟨m'', s.buffers.set i b'⟩, ?_, hb.set m'' b' _ hholds'⟩
    simp only [step, get_eq hb.get, hok, hok', if_neg hprev, bind, Except.bind]
    rfl
  | removeAtStart i start =>
    obtain ⟨b, rest, hb⟩ := h.focus hallowed
    obtain ⟨d, hd, hwithin, -⟩ := hb.holds.entry _ mem_cons_self
    obtain ⟨hshrinks, hcontent⟩ := removeAtStart_shrinks hwithin.toShape (hfits b hb.get)
    refine ⟨⟨s.heap, s.buffers.set i (RemoveAtStart b start)⟩, ?_,
      hb.set _ _ _ (hb.holds.shrink hshrinks hcontent)⟩
    simp only [step, get_eq hb.get, bind, Except.bind]
    rfl
  | removeAtEnd i remove =>
    obtain ⟨b, rest, hb⟩ := h.focus hallowed
    obtain ⟨d, hd, hwithin, -⟩ := hb.holds.entry _ mem_cons_self
    obtain ⟨hshrinks, hcontent⟩ := removeAtEnd_shrinks remove hwithin.toShape
    have hholds' := hb.holds.shrink (f := fun x => x.take (x.length - remove.toNat)) hshrinks
      hcontent
    refine ⟨⟨s.heap, s.buffers.set i (RemoveAtEnd b remove)⟩, ?_, hb.set _ _ _ hholds'⟩
    simp only [step, get_eq hb.get, bind, Except.bind]
    rfl
  | createFragment i start length =>
    obtain ⟨b, rest, hb⟩ := h.focus hallowed
    obtain ⟨d, hd, -⟩ := hb.holds.entry _ mem_cons_self
    obtain ⟨hcount, hstart, hlength⟩ := hfits b hb.get
    rw [← hb.holds.length_eq] at hlength
    obtain ⟨m', b', hok, hholds'⟩ := hb.holds.createFragment hd (hcount d hd) hstart hlength
    refine ⟨⟨m', s.buffers ++ [b']⟩, ?_, hb.add m' b' _ hholds'⟩
    simp only [step, get_eq hb.get, hok, bind, Except.bind]
    rfl
  | copyData i size =>
    obtain ⟨b, rest, hb⟩ := h.focus hallowed
    refine ⟨s, ?_, h⟩
    simp only [step, get_eq hb.get, CopyData_eq hb.holds, bind, Except.bind]
    rfl

/-! ### Runs -/

/-- No buffer at the start. -/
theorem represents_initial (junk : ℕ → ℕ → UInt8) : Represents (initial junk) [] :=
  ⟨[], rfl, rfl,
    { entry := nofun
      counted := nofun
      tails := nofun
      free := nofun
      nodup := nodup_nil
      fresh := nofun }⟩

/-- **Buffers are lists of bytes** that share nothing, as long as the offsets fit: every call
returns, reads the bytes of the list, and leaves all other buffers as they are. -/
theorem buffers_refine (junk : ℕ → ℕ → UInt8) (calls : List Call)
    (hfits : Refinement.Before step byteLists Fits (initial junk) [] calls) :
    Refinement.Refines step byteLists Represents (initial junk) [] calls :=
  Refinement.refines_of_before (fun _ _ call h hallowed hcall => step_refines call h hallowed hcall)
    (represents_initial junk) hfits

/-- A buffer with zeros, a copy and a fragment of it that both grow, and an assignment. -/
theorem buffers_refine_copies :
    Refinement.Refines step byteLists Represents (initial fun _ _ => 7) [] [.construct 4,
      .addAtEnd 0 [1, 2], .addAtStart 0 [3, 4, 5], .copy 0, .addAtEnd 0 [6], .addAtEnd 1 [8, 9],
      .createFragment 0 2 6, .removeAtStart 0 5, .addAtStart 2 [10], .removeAtEnd 1 4,
      .assign 0 1, .destroy 1, .copyData 0 20, .copyData 1 20] :=
  buffers_refine _ _ (by decide +kernel)

/-- `RemoveAtStart` of more bytes than there are gives back bytes that were removed. -/
theorem removeAtStart_wraps :
    byteLists.AllAllowed [] [.construct 0, .addAtStart 0 [1, 2], .removeAtStart 0 1,
      .removeAtStart 0 4294967295, .copyData 0 2] ∧
    Refinement.answers step (initial fun _ _ => 0) [.construct 0, .addAtStart 0 [1, 2],
      .removeAtStart 0 1, .removeAtStart 0 4294967295, .copyData 0 2] ≠
    .ok (byteLists.answers [] [.construct 0, .addAtStart 0 [1, 2], .removeAtStart 0 1,
      .removeAtStart 0 4294967295, .copyData 0 2]) := by
  decide +kernel

end Ns3Joined.Network.Buffer
