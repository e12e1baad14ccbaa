import Mathlib.Data.List.Basic

/-!
# Frames in a stream that is read in chunks

A `Cutter` cuts the first frame off the bytes at hand, when all of it is there. `drain` hands every frame at hand to a fold and
keeps the rest; `read` does so for every chunk as it comes, and stops when it has what it wants. Where nothing that comes after a
stop would change the result, it is the fold over the frames of the whole stream, wherever the chunks end (`read_eq`).
-/

namespace Framing

variable {β γ σ : Type}

/-- A first frame and what comes after it. The frame takes up bytes, and more bytes after it make no other frame of them. -/
structure Cutter (β γ : Type) where
  cut : List β → Option (γ × List β)
  shrinks : ∀ {s x rest}, cut s = some (x, rest) → rest.length < s.length
  later : ∀ {s x rest}, cut s = some (x, rest) → ∀ t, cut (s ++ t) = some (x, rest ++ t)

namespace Cutter

variable (c : Cutter β γ) (step : σ → γ → σ)

/-- A fold over the frames at hand, and the bytes left over. -/
def drain (acc : σ) (s : List β) : σ × List β :=
  match _h : c.cut s with
  | none => (acc, s)
  | some (x, rest) => drain (step acc x) rest
termination_by s.length
decreasing_by exact c.shrinks _h

/-- The chunks one after the other, each after the bytes left over, until the fold has what it wants. -/
def read (stop : σ → Bool) (acc : σ) (buf : List β) : List (List β) → σ
  | [] => acc
  | chunk :: chunks =>
    if stop acc then acc
    else
      let (acc, buf) := c.drain step acc (buf ++ chunk)
      read stop acc buf chunks

/-- The frames at hand, and the bytes left over. -/
def frames (s : List β) : List γ × List β :=
  match _h : c.cut s with
  | none => ([], s)
  | some (x, rest) => (x :: (frames rest).1, (frames rest).2)
termination_by s.length
decreasing_by all_goals exact c.shrinks _h

variable {c step}

/-- Without a frame nothing is drained. -/
theorem drain_none {s : List β} (h : c.cut s = none) (acc : σ) : c.drain step acc s = (acc, s) := by
  rw [drain]
  split
  · rfl
  · rename_i hcut
    rw [h] at hcut
    cases hcut

/-- A frame is drained first. -/
theorem drain_some {s rest : List β} {x : γ} (h : c.cut s = some (x, rest)) (acc : σ) :
    c.drain step acc s = c.drain step (step acc x) rest := by
  rw [drain]
  split
  · rename_i hcut
    rw [h] at hcut
    cases hcut
  · rename_i hcut
    rw [h] at hcut
    cases hcut
    rfl

/-- Without a frame all is left. -/
theorem frames_none {s : List β} (h : c.cut s = none) : c.frames s = ([], s) := by
  rw [frames]
  split
  · rfl
  · rename_i hcut
    rw [h] at hcut
    cases hcut

/-- A frame comes before those of the rest. -/
theorem frames_some {s rest : List β} {x : γ} (h : c.cut s = some (x, rest)) :
    c.frames s = (x :: (c.frames rest).1, (c.frames rest).2) := by
  rw [frames]
  split
  · rename_i hcut
    rw [h] at hcut
    cases hcut
  · rename_i hcut
    rw [h] at hcut
    cases hcut
    rfl

variable (c step)

/-- What is handed to the fold are the frames at hand. -/
theorem drain_eq (acc : σ) (s : List β) : c.drain step acc s = ((c.frames s).1.foldl step acc, (c.frames s).2) := by
  induction acc, s using drain.induct c step with
  | case1 acc s h =>
    rw [drain_none h, frames_none h]
    rfl
  | case2 acc s x rest h ih =>
    rw [drain_some h, frames_some h, ih]
    rfl

/-- In the bytes left over there is no frame. -/
theorem cut_frames (s : List β) : c.cut (c.frames s).2 = none := by
  induction s using frames.induct c with
  | case1 s h => rw [frames_none h, h]
  | case2 s x rest h ih => rw [frames_some h, ih]

/-- Bytes that come later make frames of the bytes left over. -/
theorem frames_append (s t : List β) : (c.frames (s ++ t)).1 = (c.frames s).1 ++ (c.frames ((c.frames s).2 ++ t)).1 := by
  induction s using frames.induct c with
  | case1 s h => rw [frames_none h, List.nil_append]
  | case2 s x rest h ih => rw [frames_some (c.later h t), frames_some h, ih, List.cons_append]

/-- Reading in chunks is a fold over the frames of the whole stream, when nothing after a stop changes the result. -/
theorem read_eq (stop : σ → Bool) (chunks : List (List β)) {acc : σ} {buf : List β} (hbuf : c.cut buf = none)
    (hstop : ∀ xs ys, (c.frames (buf ++ chunks.flatten)).1 = xs ++ ys → stop (xs.foldl step acc) = true →
      (xs ++ ys).foldl step acc = xs.foldl step acc) :
    c.read step stop acc buf chunks = (c.frames (buf ++ chunks.flatten)).1.foldl step acc := by
  induction chunks generalizing acc buf with
  | nil =>
    rw [List.flatten_nil, List.append_nil, frames_none hbuf]
    rfl
  | cons chunk chunks ih =>
    have hsplit := c.frames_append (buf ++ chunk) chunks.flatten
    rw [List.flatten_cons, ← List.append_assoc] at hstop ⊢
    rw [read]
    split
    · rename_i hnow
      exact (hstop [] _ rfl hnow).symm
    · simp only [drain_eq]
      rw [ih (c.cut_frames _) fun xs ys hxs hnow => ?_, ← List.foldl_append, ← hsplit]
      rw [← List.foldl_append, ← List.foldl_append, ← List.append_assoc]
      rw [← List.foldl_append] at hnow
      exact hstop _ ys (by rw [hsplit, hxs, List.append_assoc]) hnow

variable {c}

/-- Frames written one after the other are cut off again. -/
theorem frames_flatMap {encode : γ → List β} {xs : List γ} (h : ∀ x ∈ xs, ∀ t, c.cut (encode x ++ t) = some (x, t))
    (hnil : c.cut [] = none) : c.frames (xs.flatMap encode) = (xs, []) := by
  induction xs with
  | nil => exact frames_none hnil
  | cons x xs ih =>
    rw [List.flatMap_cons, frames_some (h x List.mem_cons_self _), ih fun y hy => h y (List.mem_cons_of_mem x hy)]

end Cutter

end Framing
