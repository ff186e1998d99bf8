import Mathlib.Data.List.Basic

/-!
# What a writer has written

A writer stores pieces one behind the other. Each has some room of its own, which it need not fill,
and before it is stored the writer looks whether the end of its room is still allowed.

* `Within log limit`: nothing was stored at `limit` or behind it.
* `writeAll fits off pieces`: what is stored from `off` on, and where the writer is afterwards if
  it was not stopped.
* `writeAll_append`: two runs one after the other are one run.
* `writeAll_eq`: where all ends are allowed, all pieces are stored, `place off pieces`.
* `within_place_iff`: if the pieces fill their room, they are within a limit exactly when the end of
  the last one is.
-/

namespace WriteLog

open List

variable {α : Type*}

/-- Values that are stored from an offset on. -/
structure Write (α : Type*) where
  offset : ℕ
  values : List α
deriving DecidableEq, Repr

/-- The offset behind the last value. -/
def Write.stop (w : Write α) : ℕ := w.offset + w.values.length

/-- Nothing was stored at the limit or behind it. -/
def Within (log : List (Write α)) (limit : ℕ) : Prop := ∀ w ∈ log, w.stop ≤ limit

/-- Values, and the room that they get. -/
structure Piece (α : Type*) where
  room : ℕ
  values : List α
deriving DecidableEq, Repr

/-- A piece that fills its room. -/
def Piece.exact (values : List α) : Piece α := ⟨values.length, values⟩

/-- The room of all pieces together. -/
def width : List (Piece α) → ℕ
  | [] => 0
  | piece :: pieces => piece.room + width pieces

/-- The pieces one behind the other. -/
def place (off : ℕ) : List (Piece α) → List (Write α)
  | [] => []
  | piece :: pieces => ⟨off, piece.values⟩ :: place (off + piece.room) pieces

/-- Piece after piece, as long as the end of its room is allowed. -/
def writeAll (fits : ℕ → Bool) (off : ℕ) : List (Piece α) → List (Write α) × Option ℕ
  | [] => ([], some off)
  | piece :: pieces =>
    if fits (off + piece.room) then
      let (log, stop) := writeAll fits (off + piece.room) pieces
      (⟨off, piece.values⟩ :: log, stop)
    else ([], none)

variable {log log' : List (Write α)} {limit limit' off : ℕ} {piece : Piece α}
  {pieces pieces' : List (Piece α)} {fits : ℕ → Bool}

/-! ### Limits -/

@[simp]
theorem within_nil : Within ([] : List (Write α)) limit := nofun

/-- A first write and the others within a limit. -/
@[simp]
theorem within_cons {w : Write α} : Within (w :: log) limit ↔ w.stop ≤ limit ∧ Within log limit :=
  forall_mem_cons

/-- Two logs within a limit. -/
@[simp]
theorem within_append : Within (log ++ log') limit ↔ Within log limit ∧ Within log' limit :=
  forall_mem_append

/-- Writes within a limit are within a greater one. -/
theorem Within.mono (h : Within log limit) (hle : limit ≤ limit') : Within log limit' :=
  fun w hw => Nat.le_trans (h w hw) hle

/-! ### Room -/

@[simp]
theorem width_nil : width ([] : List (Piece α)) = 0 := rfl

@[simp]
theorem width_cons : width (piece :: pieces) = piece.room + width pieces := rfl

/-- The width of two lists of pieces. -/
@[simp]
theorem width_append : width (pieces ++ pieces') = width pieces + width pieces' := by
  induction pieces with
  | nil => exact (Nat.zero_add _).symm
  | cons piece pieces ih => rw [cons_append, width_cons, ih, width_cons, Nat.add_assoc]

/-- Pieces that fit their rooms are written within their width. -/
theorem within_place (hfill : ∀ piece ∈ pieces, piece.values.length ≤ piece.room) :
    Within (place off pieces) (off + width pieces) := by
  induction pieces generalizing off with
  | nil => exact within_nil
  | cons piece pieces ih =>
    obtain ⟨hpiece, hpieces⟩ := forall_mem_cons.mp hfill
    refine within_cons.mpr ⟨?_, ?_⟩
    · rw [Write.stop, width_cons]
      dsimp only
      omega
    · exact (ih hpieces).mono (by rw [width_cons]; omega)

/-- Pieces that fill their rooms stay within a limit if and only if their width does. -/
theorem within_place_iff (hfill : ∀ piece ∈ pieces, piece.values.length = piece.room)
    (hne : pieces ≠ []) : Within (place off pieces) limit ↔ off + width pieces ≤ limit := by
  constructor
  · intro hwithin
    induction pieces generalizing off with
    | nil => exact absurd rfl hne
    | cons piece pieces ih =>
      obtain ⟨hpiece, hpieces⟩ := forall_mem_cons.mp hfill
      obtain ⟨hstop, hrest⟩ := within_cons.mp hwithin
      rw [width_cons, ← Nat.add_assoc]
      by_cases hnil : pieces = []
      · subst hnil
        rwa [Write.stop, hpiece] at hstop
      · exact ih hpieces hnil hrest
  · exact (within_place fun piece hpiece => Nat.le_of_eq (hfill piece hpiece)).mono

/-! ### Runs -/

/-- Writing two lists of pieces stops where the first stops. -/
theorem writeAll_append : writeAll fits off (pieces ++ pieces') =
    match writeAll fits off pieces with
    | (log, none) => (log, none)
    | (log, some stop) =>
      (log ++ (writeAll fits stop pieces').1, (writeAll fits stop pieces').2) := by
  induction pieces generalizing off with
  | nil => rfl
  | cons piece pieces ih =>
    rw [cons_append, writeAll, writeAll]
    split_ifs with hfits
    · rw [ih]
      rcases writeAll fits (off + piece.room) pieces with ⟨log, _ | stop⟩
      · rfl
      · rfl
    · rfl

/-- **Where all ends are allowed, all pieces are stored.** -/
theorem writeAll_eq (hfits : ∀ stop ≤ off + width pieces, fits stop = true) :
    writeAll fits off pieces = (place off pieces, some (off + width pieces)) := by
  induction pieces generalizing off with
  | nil => rfl
  | cons piece pieces ih =>
    rw [width_cons, ← Nat.add_assoc] at hfits ⊢
    rw [writeAll, if_pos (hfits _ (Nat.le_add_right _ _)), ih hfits]
    rfl

/-- A piece that does not fit stops the writing. -/
theorem writeAll_of_not_fits (hfits : fits (off + piece.room) = false) :
    writeAll fits off (piece :: pieces) = ([], none) := by
  rw [writeAll, hfits]
  rfl

end WriteLog
