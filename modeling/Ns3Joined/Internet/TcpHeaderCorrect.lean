import Ns3Joined.Internet.TcpHeader

/-!
# Which octets of a TCP header are read

* `Survives`: `Deserialize` returns, has read options from the option space only, and the options
  that it leaves are not more than forty octets.
* `OptionsFit`, `HeaderFits`: the headers for which that is so.
* `returns_deserializeOption`: what reading an option comes to, by its kind and its size.
* `returns_readOptions_iff`: the loop; a round takes one option.
* `survives_iff`.
-/

namespace Ns3Joined.Internet.TcpHeader

open TrackedRead Tracked Network.BufferIterator

variable {b : Buffer}

/-- `Deserialize` returns; no octet behind the option space that the header announces was read, and
the options have forty octets at most. The checksum is about the whole segment and is left out
here. -/
def Survives (c : Checksum) (b : Buffer) : Prop :=
  ∃ fuel, (Deserialize fuel c b).Returns (fun header reach =>
    reach ≤ 20 + 4 * (header.1.m_length.toNat - 5) ∧
      optionsSize header.1.options.m_options ≤ 40) 0

/-! ### Options that fit -/

/-- What becomes of an option. -/
inductive Outcome
  | kept (n : ℕ)
  | dropped
  | aborts
  | stays
deriving DecidableEq

/-- What becomes of an option of a kind with a size. -/
def outcome (kind size : UInt8) : Outcome :=
  if kind = MSS then if size = 4 then .kept 4 else .aborts
  else if kind = TS then if size = 10 then .kept 10 else .dropped
  else if kind = WINSCALE then if size = 3 then .kept 3 else .dropped
  else if kind = SACKPERMITTED then if size = 2 then .kept 2 else .dropped
  else if kind = SACK then .kept (2 + 8 * ((size.toNat - 2) / 8))
  else if size = 0 then .stays
  else if size.toNat < 2 ∨ size.toNat > 40 then .dropped
  else .kept size.toNat

/-- The kind is that of an option with a size. -/
def IsSized (kind : UInt8) : Prop := kind ≠ END ∧ kind ≠ NOP

instance (kind : UInt8) : Decidable (IsSized kind) := inferInstanceAs (Decidable (_ ∧ _))

/-- The options in the `left` octets from `i`, up to the one that ends the list or is dropped, have
the octets that are read for them inside of the option space and inside of the segment. -/
inductive OptionsFit (b : Buffer) : ℕ → ℕ → Prop
  | done (i : ℕ) : OptionsFit b i 0
  | padding {i left : ℕ} (hkind : b.octet i = END) (hholds : b.Holds i (left + 1)) :
      OptionsFit b i (left + 1)
  | nop {i left : ℕ} (hkind : b.octet i = NOP) (hholds : b.Holds i 1)
      (hrest : OptionsFit b (i + 1) left) : OptionsFit b i (1 + left)
  | dropped {i left : ℕ} (hkind : IsSized (b.octet i)) (hholds : b.Holds i 2)
      (hdropped : outcome (b.octet i) (b.octet (i + 1)) = .dropped) : OptionsFit b i (2 + left)
  | kept {i left n : ℕ} (hkind : IsSized (b.octet i)) (hholds : b.Holds i n)
      (hkept : outcome (b.octet i) (b.octet (i + 1)) = .kept n)
      (hrest : OptionsFit b (i + n) left) : OptionsFit b i (n + left)

/-- The data offset, in words. -/
def dataOffset (b : Buffer) : ℕ := b.word 2 12 / 4096

/-- The twenty octets that each header has are there, and the options fit. -/
def HeaderFits (b : Buffer) : Prop :=
  b.Holds 0 20 ∧ (5 ≤ dataOffset b → OptionsFit b 20 (4 * (dataOffset b - 5)))

/-! ### One option -/

/-- The option that is read at a place. -/
def optionAt (b : Buffer) (i : ℕ) : TcpOption :=
  if b.octet i = MSS then .optionMSS (UInt16.ofNat (b.word 2 (i + 2)))
  else if b.octet i = TS then
    .optionTS (UInt32.ofNat (b.word 4 (i + 2))) (UInt32.ofNat (b.word 4 (i + 6)))
  else if b.octet i = WINSCALE then .optionWinScale (b.octet (i + 2))
  else if b.octet i = SACKPERMITTED then .optionSackPermitted
  else if b.octet i = SACK then
    .optionSack (b.pairs (((b.octet (i + 1)).toNat - 2) / 8) (i + 2))
  else .optionUnknown (b.octet i) (b.octet (i + 1))
    ((List.range' (i + 2) ((b.octet (i + 1)).toNat - 2)).map b.octet)

theorem length_pairs (b : Buffer) (n i : ℕ) : (b.pairs n i).length = n := by
  induction n generalizing i with
  | zero => rfl
  | succ n ih => simp [Buffer.pairs, ih]

/-- The kind read back from an option is the octet it starts with. -/
theorem GetKind_optionAt {i : ℕ} : (optionAt b i).GetKind = b.octet i := by
  unfold optionAt
  split_ifs with h h h h h
  · exact h.symm
  · exact h.symm
  · exact h.symm
  · exact h.symm
  · exact h.symm
  · rfl

/-- An option that is kept says the size it was read with. -/
theorem GetSerializedSize_optionAt {i n : ℕ}
    (h : outcome (b.octet i) (b.octet (i + 1)) = .kept n) :
    (optionAt b i).GetSerializedSize = n := by
  unfold outcome at h
  unfold optionAt
  split_ifs at h ⊢ <;> cases h <;> first | rfl | skip
  rw [TcpOption.GetSerializedSize, length_pairs, Nat.mul_comm]

/-- A kept option has at least its kind and its size. -/
theorem two_le_of_kept {kind size : UInt8} {n : ℕ} (h : outcome kind size = .kept n) : 2 ≤ n := by
  unfold outcome at h
  split_ifs at h <;> cases h <;> omega

/-- The option that is read where none is kept. -/
def droppedOption (kind size : UInt8) : TcpOption :=
  if kind = TS then .optionTS 0 0
  else if kind = WINSCALE then .optionWinScale 0
  else if kind = SACKPERMITTED then .optionSackPermitted
  else .optionUnknown kind size []

section

variable {i r : ℕ} {Q : TcpOption × ℕ → ℕ → Prop}

/-- What is to hold of the outcome of an option. -/
def OutcomeHolds (b : Buffer) (i : ℕ) (Q : TcpOption × ℕ → ℕ → Prop) (r : ℕ) : Outcome → Prop
  | .kept n => b.Holds i n ∧ Q (optionAt b i, n) (max r (i + n))
  | .aborts => False
  | .dropped => Q (droppedOption (b.octet i) (b.octet (i + 1)), 0) (max r (i + 2))
  | .stays => Q (droppedOption (b.octet i) (b.octet (i + 1)), 0) (max r (i + 2))

/-- Two octets are readable if and only if each is. -/
theorem holds_two : b.Holds i 2 ↔ b.Holds i 1 ∧ b.Holds (i + 1) 1 := by
  unfold Buffer.Holds
  omega

/-- An option that is to have a certain size. -/
theorem returns_deserializeSized {option : TcpOption} {size : UInt8} {n : ℕ}
    {content : ℕ → Reading TcpOption} (hkind : b.octet i = option.GetKind)
    (houtcome : outcome (b.octet i) (b.octet (i + 1)) =
      if b.octet (i + 1) = size then .kept (2 + n) else .dropped)
    (hdropped : droppedOption (b.octet i) (b.octet (i + 1)) = option)
    (hn : (optionAt b i).GetSerializedSize = 2 + n)
    (hcontent : ∀ Q r, i + 2 ≤ b.size → i + 2 ≤ r → ((content (i + 2)).Returns Q r ↔
      b.Holds (i + 2) n ∧ Q (optionAt b i) (max r (i + 2 + n)))) :
    (deserializeSized option size content b i).Returns Q r ↔
      b.Holds i 2 ∧ OutcomeHolds b i Q r (outcome (b.octet i) (b.octet (i + 1))) := by
  unfold deserializeSized
  have hreach : max (max r (i + 1)) (i + 1 + 1) = max r (i + 2) := by omega
  rw [returns_bind, returns_ReadU8, if_neg (not_not.mpr hkind), returns_bind, returns_ReadU8,
    holds_two, and_assoc, hreach, houtcome]
  refine and_congr_right fun _ => and_congr_right fun h2 => ?_
  by_cases hsize : b.octet (i + 1) = size
  · rw [if_neg (not_not.mpr hsize), if_pos hsize, returns_bind, hcontent _ _ h2 (le_max_right _ _),
      returns_pure, hn, OutcomeHolds, Buffer.holds_add]
    have hreach : max (max r (i + 2)) (i + 2 + n) = max r (i + (2 + n)) := by omega
    rw [hreach]
  · rw [if_pos hsize, if_neg hsize, returns_pure, OutcomeHolds, hdropped]

/-- When reading a time-stamp option returns, and what is known then. -/
theorem returns_ts (h : b.octet i = TS) :
    (TcpOptionTS.Deserialize b i).Returns Q r ↔
      b.Holds i 2 ∧ OutcomeHolds b i Q r (outcome (b.octet i) (b.octet (i + 1))) := by
  have hoption : optionAt b i = .optionTS (UInt32.ofNat (b.word 4 (i + 2)))
      (UInt32.ofNat (b.word 4 (i + 6))) := by rw [optionAt, h]; rfl
  refine returns_deserializeSized (n := 8) h (by rw [h]; rfl) (by rw [h]; rfl)
    (by rw [hoption]; rfl)
    fun Q r _ hr => ?_
  have hreach : max (max r (i + 2 + 4)) (i + 2 + 4 + 4) = max r (i + 2 + 8) := by omega
  have height : b.Holds (i + 2) 8 ↔ b.Holds (i + 2) 4 ∧ b.Holds (i + 2 + 4) 4 := by
    unfold Buffer.Holds
    omega
  rw [returns_bind, returns_ReadNtohU32, returns_bind, returns_ReadNtohU32,
    returns_pure, hoption, hreach, height, and_assoc]

/-- When reading a window-scale option returns, and what is known then. -/
theorem returns_winScale (h : b.octet i = WINSCALE) :
    (TcpOptionWinScale.Deserialize b i).Returns Q r ↔
      b.Holds i 2 ∧ OutcomeHolds b i Q r (outcome (b.octet i) (b.octet (i + 1))) := by
  have hoption : optionAt b i = .optionWinScale (b.octet (i + 2)) := by rw [optionAt, h]; rfl
  refine returns_deserializeSized (n := 1) h (by rw [h]; rfl) (by rw [h]; rfl)
    (by rw [hoption]; rfl)
    fun Q r _ _ => ?_
  rw [returns_bind, returns_ReadU8, returns_pure, hoption]

/-- When reading a selective-acknowledgement permission returns, and what is known then. -/
theorem returns_sackPermitted (h : b.octet i = SACKPERMITTED) :
    (TcpOptionSackPermitted.Deserialize b i).Returns Q r ↔
      b.Holds i 2 ∧ OutcomeHolds b i Q r (outcome (b.octet i) (b.octet (i + 1))) := by
  have hoption : optionAt b i = .optionSackPermitted := by rw [optionAt, h]; rfl
  refine returns_deserializeSized (n := 0) h (by rw [h]; rfl) (by rw [h]; rfl)
    (by rw [hoption]; rfl)
    fun Q r h2 hr => ?_
  have h0 : b.Holds (i + 2) 0 := h2
  have hreach : max r (i + 2 + 0) = r := by omega
  rw [returns_pure, hoption, hreach]
  exact ⟨fun hQ => ⟨h0, hQ⟩, fun hQ => hQ.2⟩

/-- When reading a segment-size option returns, and what is known then. -/
theorem returns_mss (h : b.octet i = MSS) :
    (TcpOptionMSS.Deserialize b i).Returns Q r ↔
      b.Holds i 2 ∧ OutcomeHolds b i Q r (outcome (b.octet i) (b.octet (i + 1))) := by
  have houtcome : outcome (b.octet i) (b.octet (i + 1)) =
      if b.octet (i + 1) = 4 then .kept 4 else .aborts := by rw [outcome, if_pos h]
  have hoption : optionAt b i = .optionMSS (UInt16.ofNat (b.word 2 (i + 2))) := by
    rw [optionAt, if_pos h]
  have hreach : max (max r (i + 1)) (i + 1 + 1) = max r (i + 2) := by omega
  unfold TcpOptionMSS.Deserialize
  rw [returns_bind, returns_ReadU8, if_neg (not_not.mpr h), returns_bind, returns_ReadU8,
    holds_two, and_assoc, hreach, houtcome]
  refine and_congr_right fun _ => and_congr_right fun _ => ?_
  rw [returns_bind, Returns, wp_guard]
  by_cases hsize : b.octet (i + 1) = 4
  · rw [if_pos hsize]
    simp only [hsize, true_implies, not_true_eq_false, false_implies, and_true]
    have hfour : b.Holds i 4 ↔ b.Holds (i + 2) 2 := Buffer.holds_add (n := 2) (k := 2)
    have hreach : max (max r (i + 2)) (i + 1 + 1 + 2) = max r (i + 4) := by omega
    rw [returns_bind, returns_ReadNtohU16, OutcomeHolds, hfour, hoption, hreach,
      returns_pure]
    exact Iff.rfl
  · rw [if_neg hsize]
    simp [hsize, OutcomeHolds]

/-- When reading a selective acknowledgement returns, and what is known then. -/
theorem returns_sack (h : b.octet i = SACK) :
    (TcpOptionSack.Deserialize b i).Returns Q r ↔
      b.Holds i 2 ∧ OutcomeHolds b i Q r (outcome (b.octet i) (b.octet (i + 1))) := by
  have houtcome : outcome (b.octet i) (b.octet (i + 1)) =
      .kept (2 + 8 * (((b.octet (i + 1)).toNat - 2) / 8)) := by rw [h]; rfl
  have hoption : optionAt b i =
      .optionSack (b.pairs (((b.octet (i + 1)).toNat - 2) / 8) (i + 2)) := by rw [optionAt, h]; rfl
  have hreach : max (max r (i + 1)) (i + 1 + 1) = max r (i + 2) := by omega
  have hsize := GetSerializedSize_optionAt houtcome
  unfold TcpOptionSack.Deserialize
  rw [returns_bind, returns_ReadU8, if_neg (not_not.mpr h), returns_bind, returns_ReadU8,
    holds_two, and_assoc, hreach, houtcome]
  refine and_congr_right fun _ => and_congr_right fun h2 => ?_
  rw [hoption] at hsize
  rw [OutcomeHolds, Buffer.holds_add, hoption]
  generalize ((b.octet (i + 1)).toNat - 2) / 8 = count at hsize ⊢
  have hreach : max (max r (i + 2)) (i + 2 + 8 * count) = max r (i + (2 + 8 * count)) := by omega
  have hi : i + 2 ≤ b.size := h2
  rw [returns_bind, returns_readPairs hi (le_max_right _ _), returns_pure, hreach, hsize]

/-- When reading an option of unknown kind returns, and what is known then. -/
theorem returns_unknown (hkind : b.octet i ≠ MSS ∧ b.octet i ≠ TS ∧ b.octet i ≠ WINSCALE ∧
    b.octet i ≠ SACKPERMITTED ∧ b.octet i ≠ SACK) :
    (TcpOptionUnknown.Deserialize b i).Returns Q r ↔
      b.Holds i 2 ∧ OutcomeHolds b i Q r (outcome (b.octet i) (b.octet (i + 1))) := by
  obtain ⟨hmss, hts, hwin, hperm, hsack⟩ := hkind
  have hoption : optionAt b i = .optionUnknown (b.octet i) (b.octet (i + 1))
      ((List.range' (i + 2) ((b.octet (i + 1)).toNat - 2)).map b.octet) := by
    rw [optionAt, if_neg hmss, if_neg hts, if_neg hwin, if_neg hperm, if_neg hsack]
  have hdropped : droppedOption (b.octet i) (b.octet (i + 1)) =
      .optionUnknown (b.octet i) (b.octet (i + 1)) [] := by
    rw [droppedOption, if_neg hts, if_neg hwin, if_neg hperm]
  have hreach : max (max r (i + 1)) (i + 1 + 1) = max r (i + 2) := by omega
  unfold TcpOptionUnknown.Deserialize outcome
  rw [if_neg hmss, if_neg hts, if_neg hwin, if_neg hperm, if_neg hsack, returns_bind,
    returns_ReadU8, returns_bind, returns_ReadU8, holds_two, and_assoc, hreach]
  refine and_congr_right fun _ => and_congr_right fun h2 => ?_
  by_cases hout : (b.octet (i + 1)).toNat < 2 ∨ (b.octet (i + 1)).toNat > 40
  · rw [if_pos hout, returns_pure, if_pos hout]
    split_ifs
    · rw [OutcomeHolds, hdropped]
    · rw [OutcomeHolds, hdropped]
  · have hzero : b.octet (i + 1) ≠ 0 := by
      intro h0
      rw [h0] at hout
      exact hout (.inl (by decide))
    have hi : i + 2 ≤ b.size := h2
    have hholds : b.Holds i (b.octet (i + 1)).toNat ↔
        b.Holds (i + 2) ((b.octet (i + 1)).toNat - 2) := by
      unfold Buffer.Holds
      omega
    have hreach : max (max r (i + 2)) (i + 2 + ((b.octet (i + 1)).toNat - 2)) =
        max r (i + (b.octet (i + 1)).toNat) := by omega
    rw [if_neg hout, if_neg hzero, if_neg hout, returns_bind, returns_Read hi (le_max_right _ _),
      returns_pure, OutcomeHolds, hoption, hholds, hreach]

/-- What reading an option comes to. -/
theorem returns_deserializeOption (hsized : IsSized (b.octet i)) :
    (deserializeOption (b.octet i) b i).Returns Q r ↔
      b.Holds i 2 ∧ OutcomeHolds b i Q r (outcome (b.octet i) (b.octet (i + 1))) := by
  obtain ⟨hend, hnop⟩ := hsized
  unfold deserializeOption
  rw [if_neg hend]
  by_cases hmss : b.octet i = MSS
  · rw [if_pos hmss, returns_mss hmss]
  rw [if_neg hmss, if_neg hnop]
  by_cases hts : b.octet i = TS
  · rw [if_pos hts, returns_ts hts]
  by_cases hwin : b.octet i = WINSCALE
  · rw [if_neg hts, if_pos hwin, returns_winScale hwin]
  by_cases hperm : b.octet i = SACKPERMITTED
  · rw [if_neg hts, if_neg hwin, if_pos hperm, returns_sackPermitted hperm]
  by_cases hsack : b.octet i = SACK
  · rw [if_neg hts, if_neg hwin, if_neg hperm, if_pos hsack, returns_sack hsack]
  rw [if_neg hts, if_neg hwin, if_neg hperm, if_neg hsack]
  exact returns_unknown ⟨hmss, hts, hwin, hperm, hsack⟩

/-- An option that is its kind only. -/
theorem returns_deserializeKind {option : TcpOption} (h : b.octet i = option.GetKind) :
    (deserializeKind option b i).Returns Q r ↔
      b.Holds i 1 ∧ Q (option, option.GetSerializedSize) (max r (i + 1)) := by
  have hkind : ¬ (b.octet i ≠ option.GetKind) := not_not.mpr h
  rw [deserializeKind, returns_bind, returns_ReadU8, if_neg hkind, returns_pure]

/-- Reading the end of the options takes one octet. -/
theorem returns_end (h : b.octet i = END) :
    (deserializeOption (b.octet i) b i).Returns Q r ↔
      b.Holds i 1 ∧ Q (.optionEnd, 1) (max r (i + 1)) := by
  rw [deserializeOption, if_pos h]
  exact returns_deserializeKind h

/-- Reading a padding option takes one octet. -/
theorem returns_nop (h : b.octet i = NOP) :
    (deserializeOption (b.octet i) b i).Returns Q r ↔
      b.Holds i 1 ∧ Q (.optionNOP, 1) (max r (i + 1)) := by
  have hend : ¬ NOP = END := by decide
  have hmss : ¬ NOP = MSS := by decide
  rw [deserializeOption, h, if_neg hend, if_neg hmss, if_pos rfl]
  exact returns_deserializeKind h

/-- A dropped option still moves the reader on. -/
theorem GetSerializedSize_droppedOption {kind size : UInt8}
    (h : outcome kind size = .dropped) : (droppedOption kind size).GetSerializedSize ≠ 0 := by
  unfold outcome at h
  unfold droppedOption
  by_cases hts : kind = TS
  · rw [if_pos hts]
    exact Nat.succ_ne_zero 9
  by_cases hwin : kind = WINSCALE
  · rw [if_neg hts, if_pos hwin]
    exact Nat.succ_ne_zero 2
  by_cases hperm : kind = SACKPERMITTED
  · rw [if_neg hts, if_neg hwin, if_pos hperm]
    exact Nat.succ_ne_zero 1
  rw [if_neg hts, if_neg hwin, if_neg hperm] at h ⊢
  rintro hzero
  have hsize : size = 0 := UInt8.toNat_inj.mp hzero
  split_ifs at h

end

/-! ### The loop -/

/-- What is to hold where the loop ends. -/
def Kept (bound : ℕ) (o : Options) (reach : ℕ) : Prop :=
  reach ≤ bound ∧ optionsSize o.m_options ≤ 40

/-- The size of the options read, with one more. -/
theorem optionsSize_push {o : Options} {option : TcpOption} {n : ℕ} :
    optionsSize (o.push option n).m_options =
      optionsSize o.m_options + option.GetSerializedSize := by
  simp [optionsSize, Options.push]

/-- Discarding the padding reads what is left and keeps the options. -/
theorem returns_discardPadding {left i r : ℕ} {o : Options} {bound : ℕ} (hi : i ≤ b.size) :
    (discardPadding b left i o).Returns (Kept bound) r ↔ b.Holds i left ∧ Kept bound o r := by
  induction left generalizing i o with
  | zero =>
    rw [discardPadding, returns_pure]
    exact ⟨fun h => ⟨hi, h⟩, fun h => h.2⟩
  | succ left ih =>
    rw [discardPadding, returns_bind, returns_Next]
    have hholds : b.Holds i (left + 1) ↔ b.Holds i 1 ∧ b.Holds (i + 1) left := by
      unfold Buffer.Holds
      omega
    rw [hholds, and_assoc]
    refine and_congr_right fun h1 => ?_
    rw [ih h1]
    exact Iff.rfl

/-- A dropped option keeps its kind. -/
theorem GetKind_droppedOption {kind size : UInt8} : (droppedOption kind size).GetKind = kind := by
  unfold droppedOption
  split_ifs with h h h
  · exact h.symm
  · exact h.symm
  · exact h.symm
  · rfl

/-- An option whose reader stays in place says size zero. -/
theorem GetSerializedSize_of_stays {kind size : UInt8} (h : outcome kind size = .stays) :
    (droppedOption kind size).GetSerializedSize = 0 := by
  unfold outcome at h
  by_cases hmss : kind = MSS
  · rw [if_pos hmss] at h
    split_ifs at h
  by_cases hts : kind = TS
  · rw [if_neg hmss, if_pos hts] at h
    split_ifs at h
  by_cases hwin : kind = WINSCALE
  · rw [if_neg hmss, if_neg hts, if_pos hwin] at h
    split_ifs at h
  by_cases hperm : kind = SACKPERMITTED
  · rw [if_neg hmss, if_neg hts, if_neg hwin, if_pos hperm] at h
    split_ifs at h
  rw [droppedOption, if_neg hts, if_neg hwin, if_neg hperm]
  rw [if_neg hmss, if_neg hts, if_neg hwin, if_neg hperm] at h
  split_ifs at h with hsack hzero
  rw [hzero]
  rfl

section

variable {next : ℕ → ℕ → Options → Reading Options} {i left r n : ℕ} {o : Options}
variable {op : TcpOption} {bound : ℕ}

/-- The loop ends where an option has not the size that was read. -/
theorem returns_takeOption_of_ne (h : n ≠ op.GetSerializedSize) :
    (takeOption b next i left o op n).Returns (Kept bound) r ↔ Kept bound o r := by
  rw [takeOption, if_pos h, returns_pure]

/-- The loop ends where an option is more than what is left. -/
theorem returns_takeOption_of_lt (h : n = op.GetSerializedSize) (hlt : left < n) :
    (takeOption b next i left o op n).Returns (Kept bound) r ↔ Kept bound o r := by
  rw [takeOption, if_neg (not_not.mpr h), if_pos hlt, returns_pure]

/-- Taking an option other than the end goes on behind it. -/
theorem returns_takeOption (h : n = op.GetSerializedSize) (hle : n ≤ left)
    (hkind : op.GetKind ≠ END) :
    (takeOption b next i left o op n).Returns (Kept bound) r ↔
      b.Holds i n ∧ (next (i + n) (left - n) (o.push op n)).Returns (Kept bound) r := by
  rw [takeOption, if_neg (not_not.mpr h), if_neg (not_lt.mpr hle), returns_bind, returns_Next,
    if_neg hkind]

/-- Taking the end of the options discards what is left. -/
theorem returns_takeOption_end (hleft : 1 ≤ left) :
    (takeOption b next i left o .optionEnd 1).Returns (Kept bound) r ↔
      b.Holds i left ∧ Kept bound (o.push .optionEnd 1) r := by
  have hend : TcpOption.optionEnd.GetKind = END := rfl
  have hsize : 1 = TcpOption.optionEnd.GetSerializedSize := rfl
  rw [takeOption, if_neg (not_not.mpr hsize), if_neg (not_lt.mpr hleft), returns_bind, returns_Next,
    if_pos hend]
  have hholds : b.Holds i left ↔ b.Holds i 1 ∧ b.Holds (i + 1) (left - 1) := by
    unfold Buffer.Holds
    omega
  rw [hholds, and_assoc]
  exact and_congr_right fun h1 => returns_discardPadding h1

/-- An option that fits leaves the total within forty octets. -/
theorem Kept.push (hsize : optionsSize o.m_options + (n + left) ≤ 40)
    (h : n = op.GetSerializedSize) : optionsSize (o.push op n).m_options + left ≤ 40 := by
  rw [optionsSize_push, ← h, Nat.add_assoc]
  exact hsize

end

/-- A loop that returns has come to options that fit. -/
theorem optionsFit_of_returns {fuel i left r : ℕ} {o : Options}
    (hsize : optionsSize o.m_options + left ≤ 40) (hr : i ≤ r)
    (h : (readOptions b fuel i left o).Returns (Kept (i + left)) r) : OptionsFit b i left := by
  induction fuel generalizing i left o r with
  | zero => exact (returns_throw.mp h).elim
  | succ fuel ih =>
    rw [readOptions] at h
    by_cases hleft : left = 0
    · rw [hleft]
      exact .done i
    have hone : 1 ≤ left := Nat.one_le_iff_ne_zero.mpr hleft
    rw [if_neg hleft, returns_bind, returns_PeekU8, returns_bind] at h
    obtain ⟨h1, h⟩ := h
    by_cases hend : b.octet i = END
    · -- The rest of the option space is padding.
      rw [returns_end hend] at h
      have hholds := ((returns_takeOption_end hone).mp h.2).1
      obtain ⟨m, rfl⟩ := Nat.exists_eq_succ_of_ne_zero hleft
      exact .padding hend hholds
    -- What is read fits as far as it goes; if the loop goes on, the rest fits.
    by_cases hnop : b.octet i = NOP
    · obtain ⟨m, rfl⟩ := Nat.exists_eq_add_of_le hone
      have hkind : TcpOption.optionNOP.GetKind ≠ END := by decide
      have hn : 1 = TcpOption.optionNOP.GetSerializedSize := rfl
      rw [returns_nop hnop] at h
      have hrest := ((returns_takeOption hn hone hkind).mp h.2).2
      rw [Nat.add_sub_cancel_left, ← Nat.add_assoc] at hrest
      exact .nop hnop h1 (ih (Kept.push hsize hn) (le_max_right _ _) hrest)
    have hsized : IsSized (b.octet i) := ⟨hend, hnop⟩
    rw [returns_deserializeOption hsized] at h
    obtain ⟨h2, h⟩ := h
    cases houtcome : outcome (b.octet i) (b.octet (i + 1)) with
    | aborts =>
      rw [houtcome] at h
      exact h.elim
    | stays =>
      -- The loop comes to the same place again.
      rw [houtcome] at h
      have hn := (GetSerializedSize_of_stays houtcome).symm
      have hkind : (droppedOption (b.octet i) (b.octet (i + 1))).GetKind ≠ END := by
        rw [GetKind_droppedOption]
        exact hend
      have hrest := ((returns_takeOption hn (Nat.zero_le _) hkind).mp h).2
      refine ih (Kept.push ?_ hn) ?_ hrest
      · rw [Nat.zero_add]
        exact hsize
      · omega
    | dropped =>
      rw [houtcome] at h
      have hreach :=
        ((returns_takeOption_of_ne (GetSerializedSize_droppedOption houtcome).symm).mp h).1
      obtain ⟨m, rfl⟩ := Nat.exists_eq_add_of_le (show 2 ≤ left by omega)
      exact .dropped hsized h2 houtcome
    | kept n =>
      have hn := (GetSerializedSize_optionAt houtcome).symm
      rw [houtcome, OutcomeHolds] at h
      obtain ⟨hholds, h⟩ := h
      have hle : n ≤ left := by
        by_contra hlt
        have hreach := ((returns_takeOption_of_lt hn (not_le.mp hlt)).mp h).1
        omega
      have hkind : (optionAt b i).GetKind ≠ END := by
        rw [GetKind_optionAt]
        exact hend
      have hrest := ((returns_takeOption hn hle hkind).mp h).2
      obtain ⟨m, rfl⟩ := Nat.exists_eq_add_of_le hle
      rw [Nat.add_sub_cancel_left, ← Nat.add_assoc] at hrest
      exact .kept hsized hholds houtcome (ih (Kept.push hsize hn) (le_max_right _ _) hrest)

/-- Options that fit are read, and the loop returns. -/
theorem OptionsFit.returns {i left : ℕ} (h : OptionsFit b i left) {r : ℕ} {o : Options}
    (hsize : optionsSize o.m_options + left ≤ 40) (hi : i ≤ b.size) (hr : r ≤ i) :
    ∃ fuel, (readOptions b fuel i left o).Returns (Kept (i + left)) r := by
  -- Along the way the options were laid out, one option at a time.
  induction h generalizing r o with
  | done i =>
    refine ⟨1, ?_⟩
    rw [readOptions, if_pos rfl, returns_pure]
    exact ⟨hr, hsize⟩
  | @padding i left hkind hholds =>
    refine ⟨1, ?_⟩
    rw [readOptions, if_neg (Nat.succ_ne_zero left), returns_bind, returns_PeekU8, returns_bind,
      returns_end hkind]
    have h1 : b.Holds i 1 := hholds.mono (by omega)
    refine ⟨h1, h1, (returns_takeOption_end (Nat.le_add_left 1 left)).mpr ⟨hholds, ?_, ?_⟩⟩
    · omega
    · have hone : TcpOption.optionEnd.GetSerializedSize = 1 := rfl
      rw [optionsSize_push, hone]
      omega
  | @nop i left hkind hholds hrest ih =>
    have hn : 1 = TcpOption.optionNOP.GetSerializedSize := rfl
    obtain ⟨fuel, hfuel⟩ := ih (Kept.push hsize hn) hholds (r := i + 1) le_rfl
    refine ⟨fuel + 1, ?_⟩
    have hreach : max (max r (i + 1)) (i + 1) = i + 1 := by omega
    have hne : TcpOption.optionNOP.GetKind ≠ END := by decide
    rw [readOptions, if_neg (by omega), returns_bind, returns_PeekU8, returns_bind,
      returns_nop hkind, hreach]
    refine ⟨hholds, hholds, (returns_takeOption hn (Nat.le_add_right 1 left) hne).mpr ⟨hholds, ?_⟩⟩
    rw [Nat.add_sub_cancel_left, ← Nat.add_assoc]
    exact hfuel
  | @dropped i left hkind hholds hdropped =>
    refine ⟨1, ?_⟩
    rw [readOptions, if_neg (by omega), returns_bind, returns_PeekU8, returns_bind,
      returns_deserializeOption hkind, hdropped]
    refine ⟨hholds.mono (by omega), hholds,
      (returns_takeOption_of_ne (GetSerializedSize_droppedOption hdropped).symm).mpr ⟨?_, ?_⟩⟩
    · omega
    · omega
  | @kept i left n hkind hholds hkept hrest ih =>
    have hn := (GetSerializedSize_optionAt hkept).symm
    have htwo := two_le_of_kept hkept
    obtain ⟨fuel, hfuel⟩ := ih (Kept.push hsize hn) hholds (r := i + n) le_rfl
    refine ⟨fuel + 1, ?_⟩
    have hreach : max (max r (i + 1)) (i + n) = i + n := by omega
    have hne : (optionAt b i).GetKind ≠ END := by
      rw [GetKind_optionAt]
      exact hkind.1
    rw [readOptions, if_neg (by omega), returns_bind, returns_PeekU8, returns_bind,
      returns_deserializeOption hkind, hkept, OutcomeHolds, hreach]
    refine ⟨hholds.mono (by omega), hholds.mono htwo, hholds,
      (returns_takeOption hn (Nat.le_add_right n left) hne).mpr ⟨hholds, ?_⟩⟩
    rw [Nat.add_sub_cancel_left, ← Nat.add_assoc]
    exact hfuel

/-! ### Headers -/

/-- The length of the header that was read, in words. -/
def m_length (b : Buffer) : UInt8 := (UInt16.ofNat (b.word 2 12) >>> 12).toUInt8

/-- A word of two octets is below `2 ^ 16`. -/
theorem word_two_lt (b : Buffer) (i : ℕ) : b.word 2 i < 2 ^ 16 := by
  have h0 := (b.octet i).toNat_lt
  have h1 := (b.octet (i + 1)).toNat_lt
  simp only [Buffer.word, Nat.zero_mul, Nat.zero_add, Nat.add_zero]
  omega

/-- The length field is the data offset of the wire. -/
theorem toNat_m_length (b : Buffer) : (m_length b).toNat = dataOffset b := by
  have hlt := word_two_lt b 12
  unfold m_length dataOffset
  rw [UInt16.toNat_toUInt8, UInt16.toNat_shiftRight, UInt16.toNat_ofNat', Nat.mod_eq_of_lt hlt]
  have h12 : UInt16.toNat 12 % 16 = 12 := rfl
  rw [h12, Nat.shiftRight_eq_div_pow]
  omega

/-- The data offset has four bits. -/
theorem dataOffset_lt (b : Buffer) : dataOffset b < 16 := by
  have hlt := word_two_lt b 12
  unfold dataOffset
  omega

/-- The size of the option space. -/
def optionLen (b : Buffer) : UInt32 := ((m_length b).toUInt32 - 5) * 4

/-- The length of the options, in octets. -/
theorem toNat_optionLen (h : 5 ≤ dataOffset b) :
    (optionLen b).toNat = 4 * (dataOffset b - 5) := by
  have hlt := dataOffset_lt b
  have hlength : (m_length b).toUInt32.toNat = dataOffset b := by
    rw [UInt8.toNat_toUInt32, toNat_m_length]
  have hle : 5 ≤ (m_length b).toUInt32 := by
    rw [UInt32.le_iff_toNat_le, hlength]
    exact h
  have hfive : UInt32.toNat 5 = 5 := rfl
  have hfour : UInt32.toNat 4 = 4 := rfl
  unfold optionLen
  rw [UInt32.toNat_mul, UInt32.toNat_sub_of_le _ _ hle, hlength, hfive, hfour]
  omega

/-- A header that is too short has an option space that is too long. -/
theorem optionLen_of_lt (h : dataOffset b < 5) : m_maxOptionsLen < optionLen b := by
  have hlength : (m_length b).toUInt32.toNat = dataOffset b := by
    rw [UInt8.toNat_toUInt32, toNat_m_length]
  have hfive : UInt32.toNat 5 = 5 := rfl
  have hfour : UInt32.toNat 4 = 4 := rfl
  have hforty : m_maxOptionsLen.toNat = 40 := rfl
  unfold optionLen
  rw [UInt32.lt_iff_toNat_lt, UInt32.toNat_mul, UInt32.toNat_sub, hlength, hfive, hfour, hforty]
  omega

/-- Four bits of data offset never give more than forty octets of options. -/
theorem optionLen_of_le (h : 5 ≤ dataOffset b) : ¬ m_maxOptionsLen < optionLen b := by
  have hlt := dataOffset_lt b
  have hforty : m_maxOptionsLen.toNat = 40 := rfl
  rw [UInt32.lt_iff_toNat_lt, toNat_optionLen h, hforty]
  omega

/-- The octets that each header has, and the loop behind them. -/
theorem returns_Deserialize {fuel : ℕ} {c : Checksum} :
    (Deserialize fuel c b).Returns (fun header reach =>
      reach ≤ 20 + 4 * (header.1.m_length.toNat - 5) ∧
        optionsSize header.1.options.m_options ≤ 40) 0 ↔
    b.Holds 0 20 ∧ (5 ≤ dataOffset b →
      (readOptions b fuel 20 (4 * (dataOffset b - 5)) ⟨[], 0⟩).Returns
        (Kept (20 + 4 * (dataOffset b - 5))) 20) := by
  have hends : b.Holds 0 20 ↔ b.Holds 0 2 ∧ b.Holds 2 2 ∧ b.Holds 4 4 ∧ b.Holds 8 4 ∧
      b.Holds 12 2 ∧ b.Holds 14 2 ∧ b.Holds 16 2 ∧ b.Holds 18 2 := by
    unfold Buffer.Holds
    omega
  unfold Deserialize
  rw [hends, and_assoc, and_assoc, and_assoc, and_assoc, and_assoc, and_assoc, and_assoc]
  rw [returns_bind, returns_ReadNtohU16]
  refine and_congr_right fun _ => ?_
  dsimp only [Nat.reduceAdd]
  rw [returns_bind, returns_ReadNtohU16]
  refine and_congr_right fun _ => ?_
  dsimp only [Nat.reduceAdd]
  rw [returns_bind, returns_ReadNtohU32]
  refine and_congr_right fun _ => ?_
  dsimp only [Nat.reduceAdd]
  rw [returns_bind, returns_ReadNtohU32]
  refine and_congr_right fun _ => ?_
  dsimp only [Nat.reduceAdd]
  rw [returns_bind, returns_ReadNtohU16]
  refine and_congr_right fun _ => ?_
  dsimp only [Nat.reduceAdd]
  rw [returns_bind, returns_ReadNtohU16]
  refine and_congr_right fun _ => ?_
  dsimp only [Nat.reduceAdd]
  rw [returns_bind, returns_Next]
  refine and_congr_right fun _ => ?_
  have hreach : max (max (max (max (max (max 0 2) 4) 8) 12) 14) 16 = 16 := rfl
  dsimp only [Nat.reduceAdd]
  rw [hreach, returns_bind, returns_ReadNtohU16]
  refine and_congr_right fun _ => ?_
  have hreach : max 16 20 = 20 := rfl
  dsimp only [Nat.reduceAdd]
  rw [hreach]
  have hm_length : (UInt16.ofNat (b.word 2 12) >>> 12).toUInt8 = m_length b := rfl
  have hoptionLen : ((m_length b).toUInt32 - 5) * 4 = optionLen b := rfl
  rw [hm_length, hoptionLen]
  by_cases h5 : 5 ≤ dataOffset b
  · rw [if_neg (optionLen_of_le h5), toNat_optionLen h5, returns_bind]
    simp only [h5, true_implies, returns_pure, toNat_m_length]
    exact Iff.rfl
  · -- The options are discarded.
    have hnil : optionsSize [] = 0 := rfl
    rw [if_pos (optionLen_of_lt (not_le.mp h5)), returns_pure]
    simp only [h5, false_implies, iff_true, hnil]
    omega

/-- A header that survives fits its buffer. -/
theorem Survives.headerFits {c : Checksum} (h : Survives c b) : HeaderFits b := by
  have hlt := dataOffset_lt b
  obtain ⟨fuel, h⟩ := h
  obtain ⟨hholds, hrest⟩ := returns_Deserialize.mp h
  refine ⟨hholds, fun h5 => optionsFit_of_returns ?_ le_rfl (hrest h5)⟩
  have hnil : optionsSize (⟨[], 0⟩ : Options).m_options = 0 := rfl
  omega

/-- A header that fits its buffer survives. -/
theorem HeaderFits.survives (c : Checksum) (h : HeaderFits b) : Survives c b := by
  have hlt := dataOffset_lt b
  obtain ⟨hholds, hfit⟩ := h
  unfold Survives
  simp only [returns_Deserialize]
  by_cases h5 : 5 ≤ dataOffset b
  · have hnil : optionsSize (⟨[], 0⟩ : Options).m_options = 0 := rfl
    obtain ⟨fuel, hfuel⟩ := (hfit h5).returns (r := 20) (o := ⟨[], 0⟩) (by omega) hholds le_rfl
    exact ⟨fuel, hholds, fun _ => hfuel⟩
  · exact ⟨0, hholds, fun h => absurd h h5⟩

/-- Reading survives if and only if the header fits its buffer, whatever the checksum is. -/
theorem survives_iff (c : Checksum) (b : Buffer) : Survives c b ↔ HeaderFits b :=
  ⟨Survives.headerFits, HeaderFits.survives c⟩

/-- Where an option of a kind that is not known has the size zero, options do not fit. -/
theorem OptionsFit.outcome_ne_stays {i left : ℕ} (h : OptionsFit b i left) (hleft : left ≠ 0)
    (hkind : IsSized (b.octet i)) : outcome (b.octet i) (b.octet (i + 1)) ≠ .stays := by
  cases h with
  | done => exact absurd rfl hleft
  | padding hend _ => exact absurd hend hkind.1
  | nop hnop _ _ => exact absurd hnop hkind.2
  | dropped _ _ hdropped =>
    rw [hdropped]
    exact nofun
  | kept _ _ hkept _ =>
    rw [hkept]
    exact nofun

/-- A header of twenty-four octets; the kind of its only option is not known, and the size of the
option is zero. -/
def stuckHeader : Buffer where
  front := [0, 80, 0, 80, 0, 0, 0, 1, 0, 0, 0, 0, 96, 16, 255, 255, 0, 0, 0, 0, 253, 0, 0, 0]
  zeros := 0
  back := []

/-- The option of size zero keeps the reader in place for ever. -/
theorem not_survives_stuckHeader : ¬ Survives ⟨false, true, fun _ => 0⟩ stuckHeader := by
  intro h
  have hfit := h.headerFits.2 (by decide)
  exact hfit.outcome_ne_stays (by decide) (by decide) (by decide)

end Ns3Joined.Internet.TcpHeader
