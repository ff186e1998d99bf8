import Mathlib.Data.List.Basic
import Mathlib.Tactic.Common

/-!
# Frames padded to a multiple of four

Frames are put one behind the other, each at an offset that is a multiple of four: what pads a
frame comes with the next one, so that nothing pads the last.

* `append`: the next frame behind those there are, which is how a writer puts them.
* `layout`: the same from the front (`foldl_append`), which is how a reader finds them.
* `length_layout_lt`: leaving out frames makes it shorter.
-/

namespace PaddedFrames

open List

/-- What is missing to a multiple of four. -/
def padding (size : ℕ) : ℕ := (4 - size % 4) % 4

@[simp] theorem padding_zero : padding 0 = 0 := rfl

/-- The padding fills up to a multiple of four. -/
theorem add_padding_mod (size : ℕ) : (size + padding size) % 4 = 0 := by
  unfold padding
  omega

/-- The padding does not see whole words. -/
theorem padding_add {a : ℕ} (h : a % 4 = 0) (b : ℕ) : padding (a + b) = padding b := by
  unfold padding
  omega

variable {β : Type*} {z : β} {packet frame : List β} {frames : List (List β)}

/-- The packet with the next frame. -/
def append (z : β) (packet frame : List β) : List β :=
  packet ++ replicate (padding packet.length) z ++ frame

/-- All frames, each but the last one padded. -/
def layout (z : β) : List (List β) → List β
  | [] => []
  | [frame] => frame
  | frame :: next :: frames =>
    frame ++ replicate (padding frame.length) z ++ layout z (next :: frames)

@[simp] theorem append_nil_left : append z [] frame = frame := by
  simp [append]

/-- The first frame is padded and the others follow. -/
theorem layout_cons (hne : frames ≠ []) : layout z (frame :: frames) =
    frame ++ replicate (padding frame.length) z ++ layout z frames := by
  match frames, hne with
  | next :: frames, _ => rfl

/-- **A writer and a reader** mean the same: a frame starts at a multiple of four, so that its
own length says how it is padded. -/
theorem foldl_append (z : β) (frames : List (List β)) :
    frames.foldl (append z) [] = layout z frames := by
  suffices h : ∀ frames packet frame, packet.length % 4 = 0 →
      frames.foldl (append z) (packet ++ frame) = packet ++ layout z (frame :: frames) by
    match frames with
    | [] => rfl
    | frame :: frames =>
      rw [foldl_cons, append_nil_left]
      exact h frames [] frame rfl
  intro frames
  induction frames with
  | nil => exact fun _ _ _ => rfl
  | cons next frames ih =>
    intro packet frame haligned
    let padded := frame ++ replicate (padding frame.length) z
    have hpadded : (packet ++ padded).length % 4 = 0 := by
      have hmod := add_padding_mod frame.length
      simp only [padded, length_append, length_replicate]
      omega
    have happend : append z (packet ++ frame) next = packet ++ padded ++ next := by
      unfold append
      rw [length_append, padding_add haligned, append_assoc packet]
    calc (next :: frames).foldl (append z) (packet ++ frame)
        = frames.foldl (append z) (packet ++ padded ++ next) := by rw [foldl_cons, happend]
      _ = packet ++ padded ++ layout z (next :: frames) := ih _ next hpadded
      _ = packet ++ layout z (frame :: next :: frames) := append_assoc _ _ _

/-- The size of a packet grows with each frame as the code counts it. -/
theorem length_foldl_append (packet : List β) (frames : List (List β)) :
    (frames.foldl (append z) packet).length =
      (frames.map length).foldl (fun size next => size + padding size + next) packet.length := by
  induction frames generalizing packet with
  | nil => rfl
  | cons frame frames ih =>
    rw [foldl_cons, ih, map_cons, foldl_cons]
    congr 1
    simp only [append, length_append, length_replicate]

/-- A layout is at least as long as its first frame and the rest. -/
theorem length_layout_cons_le : frame.length + (layout z frames).length ≤
    (layout z (frame :: frames)).length := by
  match frames with
  | [] => exact Nat.le_refl _
  | next :: frames =>
    rw [layout_cons (cons_ne_nil _ _), length_append, length_append]
    omega

/-- Fewer frames need no more room. -/
theorem length_layout_le {frames' : List (List β)} (hsub : frames' <+ frames) :
    (layout z frames').length ≤ (layout z frames).length := by
  induction hsub with
  | slnil => exact Nat.le_refl _
  | cons frame _ ih =>
    exact Nat.le_trans (Nat.le_trans ih (Nat.le_add_left _ _)) length_layout_cons_le
  | @cons_cons frames' frames frame hsub ih =>
    by_cases hnil : frames' = []
    · subst hnil
      exact Nat.le_trans (Nat.le_add_right _ _) length_layout_cons_le
    · have hnil' : frames ≠ [] := fun heq => hnil (sublist_nil.mp (heq ▸ hsub))
      rw [layout_cons hnil, layout_cons hnil', length_append, @length_append _ _ (layout z frames)]
      exact Nat.add_le_add_left ih _

/-- **Leaving out frames** makes the packet shorter. -/
theorem length_layout_lt {frames' : List (List β)} (hsub : frames' <+ frames)
    (hlt : frames'.length < frames.length) (hne : ∀ frame ∈ frames, frame ≠ []) :
    (layout z frames').length < (layout z frames).length := by
  induction hsub with
  | slnil => exact absurd hlt (Nat.lt_irrefl _)
  | @cons frames' frames frame hsub _ =>
    have hpos := length_pos_of_ne_nil (hne frame mem_cons_self)
    calc (layout z frames').length ≤ (layout z frames).length := length_layout_le hsub
      _ < frame.length + (layout z frames).length := Nat.lt_add_of_pos_left hpos
      _ ≤ (layout z (frame :: frames)).length := length_layout_cons_le
  | @cons_cons frames' frames frame hsub ih =>
    have hlt' := Nat.lt_of_succ_lt_succ hlt
    have hnil' : frames ≠ [] := ne_nil_of_length_pos (Nat.zero_lt_of_lt hlt')
    by_cases hnil : frames' = []
    · subst hnil
      match frames, hnil' with
      | next :: frames, _ =>
        have hpos := length_pos_of_ne_nil (hne next (mem_cons_of_mem _ mem_cons_self))
        calc frame.length < frame.length + next.length := Nat.lt_add_of_pos_right hpos
          _ ≤ frame.length + (layout z (next :: frames)).length := Nat.add_le_add_left
            (Nat.le_trans (Nat.le_add_right _ _) length_layout_cons_le) _
          _ ≤ (layout z (frame :: next :: frames)).length := length_layout_cons_le
    · have hrest := ih hlt' fun frame hframe => hne frame (mem_cons_of_mem _ hframe)
      rw [layout_cons hnil, layout_cons hnil', length_append, @length_append _ _ (layout z frames)]
      exact Nat.add_lt_add_left hrest _

end PaddedFrames
