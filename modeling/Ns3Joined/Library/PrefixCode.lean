import Mathlib.Algebra.Group.Nat.Defs
import Mathlib.Data.List.Induction
import Ns3Joined.Library.Tiles

/-!
# Prefix codes

Readers that take a value from the front of a sequence of octets and leave the rest.

* `toBigEndian` and `ofBigEndian` write and read a number in a given number of octets
  (`ofBigEndian_toBigEndian`, `ofBigEndian_lt`).
* `Reads read code a` says that `read` takes `code` for `a` whatever follows it. It is
  what a length-prefixed format gives, and it composes (`Reads.bind`).
* `ReadsJust read code a P` says that `read` takes `code` for `a` if `P`, and for something else,
  or for nothing, if not (`ReadsJust.bind`).
* `readWhile` reads until it has taken a number of octets (`readsJust_readWhile`).
* `readAll` reads until nothing is left. Over a reader whose codes are the non-empty
  words `code a`, it accepts exactly the concatenations of codes (`readAll_eq_ok_iff`).
-/

namespace PrefixCode

open List

/-! ### Big-endian numbers -/

/-- The `size` low octets of `n`, the most significant first. -/
def toBigEndian : ℕ → ℕ → List UInt8
  | 0, _ => []
  | size + 1, n => toBigEndian size (n / 256) ++ [UInt8.ofNat n]

/-- The number that the octets write. -/
def ofBigEndian (octets : List UInt8) : ℕ :=
  octets.foldl (fun n octet => n * 256 + octet.toNat) 0

@[simp] theorem length_toBigEndian (size n : ℕ) : (toBigEndian size n).length = size := by
  induction size generalizing n with
  | zero => rfl
  | succ size ih => rw [toBigEndian, length_append, ih, length_singleton]

/-- A big-endian number with one more octet. -/
theorem ofBigEndian_concat (octets : List UInt8) (octet : UInt8) :
    ofBigEndian (octets ++ [octet]) = ofBigEndian octets * 256 + octet.toNat := by
  unfold ofBigEndian
  rw [foldl_append]
  rfl

/-- A number that fits its octets reads back. -/
theorem ofBigEndian_toBigEndian {size n : ℕ} (h : n < 256 ^ size) :
    ofBigEndian (toBigEndian size n) = n := by
  induction size generalizing n with
  | zero =>
    have hn : n = 0 := by omega
    rw [hn]
    rfl
  | succ size ih =>
    have hdiv : n / 256 < 256 ^ size := by
      rw [Nat.pow_succ] at h
      omega
    rw [toBigEndian, ofBigEndian_concat, ih hdiv, UInt8.toNat_ofNat']
    omega

/-- Only the low octets are written. -/
theorem toBigEndian_mod (size n : ℕ) : toBigEndian size (n % 256 ^ size) = toBigEndian size n := by
  induction size generalizing n with
  | zero => rfl
  | succ size ih =>
    have hdiv : n % 256 ^ (size + 1) / 256 = n / 256 % 256 ^ size := by
      rw [Nat.pow_succ, Nat.mul_comm, Nat.mod_mul_right_div_self]
    have hlow : UInt8.ofNat (n % 256 ^ (size + 1)) = UInt8.ofNat n := by
      rw [← UInt8.toNat_inj, UInt8.toNat_ofNat', UInt8.toNat_ofNat', Nat.pow_succ, Nat.mul_comm,
        Nat.mod_mul_right_mod]
    rw [toBigEndian, toBigEndian, hdiv, hlow, ih]

/-- A number reads back up to what its octets hold. -/
theorem ofBigEndian_toBigEndian_mod (size n : ℕ) :
    ofBigEndian (toBigEndian size n) = n % 256 ^ size := by
  rw [← toBigEndian_mod, ofBigEndian_toBigEndian (Nat.mod_lt _ (Nat.pow_pos (by omega)))]

/-- The octets of a number bound it. -/
theorem ofBigEndian_lt (octets : List UInt8) : ofBigEndian octets < 256 ^ octets.length := by
  induction octets using List.reverseRecOn with
  | nil => exact Nat.one_pos
  | append_singleton octets octet ih =>
    have hoctet : octet.toNat < 256 := octet.toNat_lt
    rw [ofBigEndian_concat, length_append, length_singleton, Nat.pow_succ]
    omega

/-! ### Readers -/

variable {ε α β : Type*}

/-- Taking a value from the front of the input. -/
abbrev Reader (ε α : Type*) := List UInt8 → Except ε (α × List UInt8)

/-- `code` is read as `a`, whatever follows it. -/
def Reads (read : Reader ε α) (code : List UInt8) (a : α) : Prop :=
  ∀ rest, read (code ++ rest) = .ok (a, rest)

/-- One reader after another, the second chosen by what the first one read. -/
def bind (read : Reader ε α) (next : α → Reader ε β) : Reader ε β := fun input =>
  match read input with
  | .error e => .error e
  | .ok (a, rest) => next a rest

variable {a : α} {read : Reader ε α} {next : α → Reader ε β} {rest input : List UInt8} {as : List α}
  {fuel : ℕ}

/-- Two codes one behind the other read back. -/
theorem Reads.bind {code code' : List UInt8} {b : β} (h : Reads read code a)
    (h' : Reads (next a) code' b) : Reads (PrefixCode.bind read next) (code ++ code') b := by
  intro rest
  unfold PrefixCode.bind
  rw [append_assoc, h (code' ++ rest)]
  exact h' rest

/-- What a reader took is a code for what it read. -/
def Splits (read : Reader ε α) : Prop :=
  ∀ input a rest, read input = .ok (a, rest) →
    ∃ code, input = code ++ rest ∧ code ≠ [] ∧ Reads read code a

/-- Two readers one after the other take what they read from the front. -/
theorem Splits.bind (h : Splits read) (h' : ∀ a, Splits (next a)) :
    Splits (PrefixCode.bind read next) := by
  intro input b rest hread
  unfold PrefixCode.bind at hread
  match hfirst : read input with
  | .error e => rw [hfirst] at hread; cases hread
  | .ok (a, rest') =>
    rw [hfirst] at hread
    obtain ⟨code, rfl, hne, hcode⟩ := h input a rest' hfirst
    obtain ⟨code', rfl, -, hcode'⟩ := h' a rest' b rest hread
    refine ⟨code ++ code', (append_assoc _ _ _).symm, ?_, hcode.bind hcode'⟩
    exact append_ne_nil_of_left_ne_nil hne code'

/-- When two readers one after the other succeed. -/
theorem bind_eq_ok {b : β} :
    PrefixCode.bind read next input = .ok (b, rest) ↔
      ∃ a input', read input = .ok (a, input') ∧ next a input' = .ok (b, rest) := by
  unfold PrefixCode.bind
  match read input with
  | .error e => exact ⟨nofun, fun ⟨_, _, h, _⟩ => nomatch h⟩
  | .ok (a, input') =>
    refine ⟨fun h => ⟨a, input', rfl, h⟩, fun ⟨a', input'', heq, h⟩ => ?_⟩
    cases heq
    exact h

/-! ### Small readers -/

/-- Taking nothing. -/
def done (a : α) : Reader ε α := fun input => .ok (a, input)

/-- Taking a value that may be left out. -/
def optional (present : Bool) (read : Reader ε α) : Reader ε (Option α) :=
  if present then PrefixCode.bind read fun a => done (some a) else done none

/-- A value, and how many octets it takes. -/
def measured (read : Reader ε α) : Reader ε (α × ℕ) := fun input =>
  match read input with
  | .error e => .error e
  | .ok (a, rest) => .ok ((a, input.length - rest.length), rest)

theorem reads_done (a : α) : Reads (done a : Reader ε α) [] a := fun _ => rfl

/-- A code read back and mapped. -/
theorem Reads.map {code : List UInt8} (h : Reads read code a) (f : α → β) :
    Reads (PrefixCode.bind read fun a => done (f a)) code (f a) := by
  intro rest
  rw [PrefixCode.bind, h]
  rfl

/-- Behind a code that reads back the next reader goes on. -/
theorem Reads.bind_eq {code : List UInt8} (h : Reads read code a) (next : α → Reader ε β)
    (input : List UInt8) : PrefixCode.bind read next (code ++ input) = next a input := by
  rw [PrefixCode.bind, h]

/-- A measured reader also says the length of its code. -/
theorem Reads.measured {code : List UInt8} (h : Reads read code a) :
    Reads (measured read) code (a, code.length) := by
  intro rest
  unfold PrefixCode.measured
  rw [h rest]
  dsimp only
  rw [length_append, Nat.add_sub_cancel]

/-- What a measured reader returns the reader returns. -/
theorem of_measured {x : α × ℕ} (h : measured read input = .ok (x, rest)) :
    read input = .ok (x.1, rest) := by
  unfold measured at h
  match hread : read input with
  | .error e =>
    rw [hread] at h
    cases h
  | .ok (a, rest') =>
    rw [hread] at h
    simp only [Except.ok.injEq, Prod.mk.injEq] at h
    rw [← h.1, h.2]

/-- An optional part that is there reads back. -/
theorem Reads.optional_some {code : List UInt8} (h : Reads read code a) :
    Reads (optional true read) code (some a) := h.map some

/-- An optional part that is absent has no code. -/
theorem reads_optional_none (read : Reader ε α) : Reads (optional false read) [] none :=
  reads_done none

/-! ### Readers that may take something else -/

/-- `code` is read as `a`, whatever follows it, if `P`; it is never read as `a` if not. -/
structure ReadsJust (read : Reader ε α) (code : List UInt8) (a : α) (P : Prop) : Prop where
  reads : P → Reads read code a
  of_read : ∀ rest rest', read (code ++ rest) = .ok (a, rest') → P

variable {code code' : List UInt8} {b : β} {P Q : Prop}

/-- What reads back reads as itself only, whatever the condition. -/
theorem Reads.readsJust (h : Reads read code a) : ReadsJust read code a True :=
  ⟨fun _ => h, fun _ _ _ => trivial⟩

/-- What reads back reads as another value only if it is that value. -/
theorem Reads.readsJust_eq {a' : α} (h : Reads read code a') : ReadsJust read code a (a' = a) := by
  refine ⟨fun heq => heq ▸ h, fun rest rest' hread => ?_⟩
  rw [h] at hread
  simp only [Except.ok.injEq, Prod.mk.injEq] at hread
  exact hread.1

/-- Reading back under an equivalent condition. -/
theorem ReadsJust.congr (h : ReadsJust read code a P) (hPQ : P ↔ Q) : ReadsJust read code a Q :=
  ⟨fun hQ => h.reads (hPQ.mpr hQ), fun rest rest' hread => hPQ.mp (h.of_read rest rest' hread)⟩

/-- A part that reads back in front of one that does so under a condition. -/
theorem Reads.bind_readsJust (h : Reads read code a) (h' : ReadsJust (next a) code' b Q) :
    ReadsJust (PrefixCode.bind read next) (code ++ code') b Q := by
  refine ⟨fun hQ => h.bind (h'.reads hQ), fun rest rest' hread => ?_⟩
  obtain ⟨a', input, hfirst, hnext⟩ := bind_eq_ok.mp hread
  rw [append_assoc, h] at hfirst
  cases hfirst
  exact h'.of_read rest rest' hnext

/-- If what the second reader gives tells of what the first one read what decides whether that was
right, both read what they should just if together they do. -/
theorem ReadsJust.bind_of {T : α → Prop} (hreads : P → Reads read code a)
    (hright : ∀ rest a' input, read (code ++ rest) = .ok (a', input) → T a' → P)
    (h' : ReadsJust (next a) code' b Q)
    (htells : ∀ a' input rest, next a' input = .ok (b, rest) → T a') :
    ReadsJust (PrefixCode.bind read next) (code ++ code') b (P ∧ Q) := by
  refine ⟨fun ⟨hP, hQ⟩ => (hreads hP).bind (h'.reads hQ), fun rest rest' hread => ?_⟩
  obtain ⟨a', input, hfirst, hnext⟩ := bind_eq_ok.mp hread
  rw [append_assoc] at hfirst
  have hP := hright (code' ++ rest) a' input hfirst (htells a' input rest' hnext)
  rw [hreads hP] at hfirst
  cases hfirst
  exact ⟨hP, h'.of_read rest rest' hnext⟩

/-- Two parts that each read back under a condition, where the second says which first it
followed. -/
theorem ReadsJust.bind (h : ReadsJust read code a P) (h' : ReadsJust (next a) code' b Q)
    (htells : ∀ a' input rest, next a' input = .ok (b, rest) → a' = a) :
    ReadsJust (PrefixCode.bind read next) (code ++ code') b (P ∧ Q) :=
  bind_of (T := (· = a)) h.reads
    (fun rest _ input hread heq => h.of_read rest input (heq ▸ hread)) h' htells

/-- Reading back under a condition, mapped. -/
theorem ReadsJust.map (h : ReadsJust read code a P) {f : α → β}
    (htells : ∀ a', f a' = f a → a' = a) :
    ReadsJust (PrefixCode.bind read fun a => done (f a)) code (f a) P := by
  refine ⟨fun hP => (h.reads hP).map f, fun rest rest' hread => ?_⟩
  obtain ⟨a', input, hfirst, hnext⟩ := bind_eq_ok.mp hread
  simp only [done, Except.ok.injEq, Prod.mk.injEq] at hnext
  obtain rfl := htells a' hnext.1
  exact h.of_read rest input hfirst

/-! ### Reading a number of octets -/

/-- Reads values until `n` octets are taken, or more by the last value; `exhausted` if there are
not enough rounds. -/
def readWhile (read : Reader ε α) (exhausted : ε) : ℕ → ℕ → Reader ε (List α)
  | _, 0, input => .ok ([], input)
  | 0, _ + 1, _ => .error exhausted
  | rounds + 1, n + 1, input =>
    match read input with
    | .error e => .error e
    | .ok (a, rest) =>
      match readWhile read exhausted rounds (n + 1 - (input.length - rest.length)) rest with
      | .error e => .error e
      | .ok (as, rest) => .ok (a :: as, rest)

/-- `n` octets are up with the last of the values. -/
def Reaches (size : α → ℕ) : ℕ → List α → Prop
  | n, [] => n = 0
  | n, a :: as => 0 < n ∧ Reaches size (n - size a) as

instance Reaches.decidable (size : α → ℕ) :
    (n : ℕ) → (as : List α) → Decidable (Reaches size n as)
  | n, [] => inferInstanceAs (Decidable (n = 0))
  | n, a :: as =>
    have := Reaches.decidable size (n - size a) as
    inferInstanceAs (Decidable (0 < n ∧ Reaches size (n - size a) as))

/-- Where a sequence of sizes ends depends on the sizes only. -/
theorem reaches_congr {size size' : α → ℕ} (h : ∀ a ∈ as, size a = size' a) (n : ℕ) :
    Reaches size n as ↔ Reaches size' n as := by
  induction as generalizing n with
  | nil => exact Iff.rfl
  | cons a as ih =>
    obtain ⟨ha, has⟩ := forall_mem_cons.mp h
    unfold Reaches
    rw [ha, ih has]

/-- Values that each take an octet at least are read just if each of them is, and the number of
octets is up with the last of them. -/
theorem readsJust_readWhile (exhausted : ε) {code : α → List UInt8} {P : α → Prop}
    (hcode : ∀ a ∈ as, ReadsJust read (code a) a (P a)) (hne : ∀ a, code a ≠ []) (rounds n : ℕ)
    (hrounds : n ≤ rounds) :
    ReadsJust (readWhile read exhausted rounds n) (as.flatMap code) as
      ((∀ a ∈ as, P a) ∧ Reaches (fun a => (code a).length) n as) := by
  induction as generalizing rounds n with
  | nil =>
    refine ⟨fun ⟨_, hn⟩ rest => ?_, fun rest rest' hread => ⟨nofun, ?_⟩⟩
    · obtain rfl : n = 0 := hn
      cases rounds <;> rfl
    · -- with octets left to take, there is another value
      match rounds, n, hread with
      | _, 0, _ => rfl
      | 0, _ + 1, hread => cases hread
      | rounds + 1, n + 1, hread =>
        unfold readWhile at hread
        split at hread
        · cases hread
        · split at hread
          · cases hread
          · cases hread
  | cons a as ih =>
    obtain ⟨hfirst, hrest⟩ := forall_mem_cons.mp hcode
    have hpos := length_pos_iff.mpr (hne a)
    match rounds, n, hrounds with
    | _, 0, _ =>
      refine ⟨fun ⟨_, hn⟩ => absurd hn.1 (Nat.lt_irrefl 0), fun rest rest' hread => ?_⟩
      unfold readWhile at hread
      cases hread
    | rounds + 1, n + 1, hrounds =>
      have ih' := ih hrest rounds (n + 1 - (code a).length) (by omega)
      rw [flatMap_cons]
      refine ⟨fun ⟨hP, hn⟩ rest => ?_, fun rest rest' hread => ?_⟩
      · obtain ⟨hPa, hPas⟩ := forall_mem_cons.mp hP
        rw [append_assoc, readWhile, hfirst.reads hPa]
        dsimp only
        rw [length_append, Nat.add_sub_cancel, ih'.reads ⟨hPas, hn.2⟩]
      · rw [append_assoc, readWhile] at hread
        match hread' : read (code a ++ (as.flatMap code ++ rest)) with
        | .error e =>
          rw [hread'] at hread
          cases hread
        | .ok (a', input) =>
          rw [hread'] at hread
          dsimp only at hread
          split at hread
          · cases hread
          · next as' rest'' hloop =>
            cases hread
            have hPa := hfirst.of_read _ _ hread'
            rw [hfirst.reads hPa] at hread'
            cases hread'
            rw [length_append, Nat.add_sub_cancel] at hloop
            obtain ⟨hPas, hn⟩ := ih'.of_read _ _ hloop
            exact ⟨forall_mem_cons.mpr ⟨hPa, hPas⟩, Nat.succ_pos n, hn⟩

/-! ### Reading to the end -/

/-- Reads values until the input is used up. Every value takes an octet at least, so that
the length of the input is fuel enough. -/
def readAll (read : Reader ε α) : ℕ → List UInt8 → Except ε (List α)
  | _, [] => .ok []
  | 0, _ :: _ => .ok []
  | fuel + 1, octet :: octets =>
    match read (octet :: octets) with
    | .error e => .error e
    | .ok (a, rest) =>
      match readAll read fuel rest with
      | .error e => .error e
      | .ok as => .ok (a :: as)

variable {code : α → List UInt8}

/-- A concatenation of codes is read as the values they stand for. -/
theorem readAll_flatMap (hcode : ∀ a, Reads read (code a) a) (hne : ∀ a, code a ≠ []) (as : List α)
    (hfuel : (as.flatMap code).length ≤ fuel) : readAll read fuel (as.flatMap code) = .ok as := by
  induction as generalizing fuel with
  | nil => cases fuel <;> rfl
  | cons a as ih =>
    rw [flatMap_cons] at hfuel ⊢
    obtain ⟨octet, octets, heq⟩ := exists_cons_of_ne_nil (hne a)
    rw [heq, cons_append] at hfuel ⊢
    cases fuel with
    | zero => cases hfuel
    | succ fuel =>
      have hlen : (as.flatMap code).length ≤ fuel := by
        rw [length_cons, length_append] at hfuel
        omega
      rw [readAll, ← cons_append, ← heq, hcode a]
      dsimp only
      rw [ih hlen]

/-- Nothing of the input is lost. -/
theorem flatMap_of_readAll
    (hread : ∀ input a rest, read input = .ok (a, rest) → input = code a ++ rest)
    (hne : ∀ a, code a ≠ []) (hfuel : input.length ≤ fuel) (h : readAll read fuel input = .ok as) :
    as.flatMap code = input := by
  induction fuel generalizing as input with
  | zero =>
    rw [eq_nil_of_length_eq_zero (Nat.le_zero.mp hfuel)] at h ⊢
    cases h
    rfl
  | succ fuel ih =>
    match input with
    | [] => cases h; rfl
    | octet :: octets =>
      rw [readAll] at h
      match hfirst : read (octet :: octets) with
      | .error e => rw [hfirst] at h; cases h
      | .ok (a, rest) =>
        rw [hfirst] at h
        dsimp only at h
        have hinput := hread _ _ _ hfirst
        -- the code of `a` takes an octet, so the rest has fuel enough
        have hlen : rest.length ≤ fuel := by
          have hpos := length_pos_iff.mpr (hne a)
          rw [hinput, length_append] at hfuel
          omega
        match hrest : readAll read fuel rest with
        | .error e => rw [hrest] at h; cases h
        | .ok as' =>
          rw [hrest] at h
          cases h
          rw [flatMap_cons, ih hlen hrest, hinput]

/-- The inputs that are read to the end are the concatenations of codes. -/
theorem readAll_eq_ok_iff (hcode : ∀ a, Reads read (code a) a)
    (hread : ∀ input a rest, read input = .ok (a, rest) → input = code a ++ rest)
    (hne : ∀ a, code a ≠ []) :
    readAll read input.length input = .ok as ↔ as.flatMap code = input := by
  refine ⟨flatMap_of_readAll hread hne (Nat.le_refl _), ?_⟩
  rintro rfl
  exact readAll_flatMap hcode hne as (Nat.le_refl _)

end PrefixCode
