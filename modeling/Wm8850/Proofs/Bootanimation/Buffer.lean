import Wm8850.Bootanimation.Buffer
import Mathlib.Data.Nat.ModEq
import Mathlib.Data.List.Infix

/-! # Every frame is read once, in the order written

Frame number `k` lies in slot `k % frame_count`. The frames that are written and not read are
counted by `sem_readable` and by the threads, and the slots without one by `sem_writable` and the
threads (`Inv`). So a slot that the writer has is none of theirs. -/

namespace Wm8850.Bootanimation

open Nat Option List

variable {Frame : Type} {size count : Nat} {s t : State Frame}

/-- `1` while the thread has a slot. -/
def Place.holding : Place → Nat
  | .holds _ => 1
  | _ => 0

/-- `1` in front of the `up`. -/
def Place.moving : Place → Nat
  | .moved => 1
  | _ => 0

/-- `1` while a frame is in progress in the thread. -/
def Place.busy (p : Place) : Nat := p.holding + p.moving

def AnimationBuffer.slot (buf : AnimationBuffer) (k : Nat) : Nat :=
  buf.frameSize * (k % buf.frameCount)

lemma advance_slot (buf : AnimationBuffer) (k : Nat) :
    buf.advance (buf.slot k) = buf.slot (k + 1) := by
  have hnext : (k + 1) % buf.frameCount = (k % buf.frameCount + 1) % buf.frameCount :=
    (mod_add_mod k buf.frameCount 1).symm
  unfold AnimationBuffer.advance AnimationBuffer.slot
  rw [hnext, ← mul_succ]
  by_cases hwrap : k % buf.frameCount + 1 = buf.frameCount
  · rw [if_pos (by rw [succ_eq_add_one, hwrap]), hwrap, mod_self, mul_zero]
  · rw [if_neg fun h => hwrap (Nat.eq_of_mul_eq_mul_left buf.frameSize_pos h)]
    rcases Nat.eq_zero_or_pos buf.frameCount with hzero | hpos
    · rw [hzero, mod_zero, mod_zero]
    · have := mod_lt k hpos
      rw [mod_eq_of_lt (show k % buf.frameCount + 1 < buf.frameCount by omega)]

/-- Two of the last `frame_count` frames do not share a slot. -/
theorem slot_ne {buf : AnimationBuffer} {i j : Nat} (hij : i < j) (hji : j < i + buf.frameCount) :
    buf.slot i ≠ buf.slot j := by
  intro heq
  have hmod : i ≡ j [MOD buf.frameCount] := Nat.eq_of_mul_eq_mul_left buf.frameSize_pos heq
  have hdvd := (modEq_iff_dvd' hij.le).mp hmod
  have := le_of_dvd (by omega) hdvd
  omega

structure Inv (s : State Frame) : Prop where
  wPos : s.buf.wPos = s.buf.slot s.written.length
  rPos : s.buf.rPos = s.buf.slot s.read.length
  writer : ∀ addr, s.writer = .holds addr → addr = s.buf.wPos
  reader : ∀ addr, s.reader = .holds addr → addr = s.buf.rPos
  unread : s.written.length
    = s.read.length + s.buf.semReadable + s.writer.moving + s.reader.holding
  free : s.written.length + s.buf.semWritable + s.writer.holding + s.reader.moving
    = s.read.length + s.buf.frameCount
  frames : ∀ k x, s.written[k]? = some x →
    x.1 = s.buf.slot k ∧ (s.read.length ≤ k → s.mem x.1 = x.2)
  inOrder : s.read <+: s.written.map Prod.snd

section
variable (h : Inv s) {addr : Nat}
include h

/-- The slot of the writer holds no frame that is still to be read. -/
theorem Inv.apart (haddr : s.writer = .holds addr) {k : Nat}
    {x : Nat × Frame} (hk : s.read.length ≤ k) (hx : s.written[k]? = some x) : x.1 ≠ addr := by
  have hlt := (List.getElem?_eq_some_iff.mp hx).1
  have hfree := h.free
  simp only [haddr, Place.holding] at hfree
  rw [(h.frames k x hx).1, h.writer addr haddr, h.wPos]
  exact slot_ne hlt (by omega)

/-- The reader has the oldest frame that is not read yet. -/
theorem Inv.front (haddr : s.reader = .holds addr) :
    s.written[s.read.length]? = some (addr, s.mem addr) := by
  have hunread := h.unread
  simp only [haddr, Place.holding] at hunread
  have hget := List.getElem?_eq_getElem (show s.read.length < s.written.length by omega)
  obtain ⟨hslot, hkept⟩ := h.frames _ _ hget
  rw [← h.rPos, ← h.reader addr haddr] at hslot
  rw [hget, ← hslot, hkept le_rfl]

lemma Inv.fill (haddr : s.writer = .holds addr) (frame : Frame) :
    Inv { s with mem := Function.update s.mem addr frame } where
  __ := h
  frames k x hx := by
    obtain ⟨hslot, hkept⟩ := h.frames k x hx
    refine ⟨hslot, fun hk => ?_⟩
    show Function.update s.mem addr frame x.1 = x.2
    rw [Function.update_of_ne (h.apart haddr hk hx)]
    exact hkept hk

lemma Inv.writeFinish (haddr : s.writer = .holds addr) : Inv { s with
      buf := { s.buf with wPos := s.buf.advance s.buf.wPos }
      writer := .moved, written := s.written ++ [(addr, s.mem addr)] } := by
  have hunread := h.unread
  have hfree := h.free
  simp only [haddr, Place.holding, Place.moving] at hunread hfree
  refine ⟨?_, h.rPos, by simp, h.reader, ?_, ?_, ?_, ?_⟩
  · show s.buf.advance s.buf.wPos = s.buf.slot (s.written ++ [(addr, s.mem addr)]).length
    rw [h.wPos, advance_slot, length_append, length_singleton]
  · simp only [Place.holding, Place.moving, length_append, length_singleton]
    omega
  · simp only [Place.holding, Place.moving, length_append, length_singleton]
    omega
  · intro k x hx
    rcases lt_or_ge k s.written.length with hlt | hge
    · rw [List.getElem?_append_left hlt] at hx
      exact h.frames k x hx
    -- The new frame is the last one, and lies where the writer put it.
    rw [List.getElem?_append_right hge, List.getElem?_singleton] at hx
    obtain ⟨hk, hsome⟩ := ite_none_right_eq_some.mp hx
    cases hsome
    rw [show k = s.written.length by omega]
    exact ⟨(h.writer addr haddr).trans h.wPos, fun _ => rfl⟩
  · rw [map_append]
    exact h.inOrder.trans (prefix_append _ _)

lemma Inv.readFinish (haddr : s.reader = .holds addr) : Inv { s with
      buf := { s.buf with rPos := s.buf.advance s.buf.rPos }
      reader := .moved, read := s.read ++ [s.mem addr] } := by
  have hunread := h.unread
  have hfree := h.free
  simp only [haddr, Place.holding, Place.moving] at hunread hfree
  refine ⟨h.wPos, ?_, h.writer, by simp, ?_, ?_, ?_, ?_⟩
  · show s.buf.advance s.buf.rPos = s.buf.slot (s.read ++ [s.mem addr]).length
    rw [h.rPos, advance_slot, length_append, length_singleton]
  · simp only [Place.holding, Place.moving, length_append, length_singleton]
    omega
  · simp only [Place.holding, Place.moving, length_append, length_singleton]
    omega
  · intro k x hx
    obtain ⟨hslot, hkept⟩ := h.frames k x hx
    refine ⟨hslot, fun hk => hkept ?_⟩
    rw [length_append] at hk
    omega
  -- The frame read is the one written behind those read before.
  have hfront : (s.written.map Prod.snd)[s.read.length]? = some (s.mem addr) := by
    rw [List.getElem?_map, h.front haddr]
    rfl
  obtain ⟨rest, hrest⟩ := h.inOrder
  rw [← hrest, List.getElem?_append_right le_rfl, Nat.sub_self] at hfront
  cases rest with
  | nil => simp at hfront
  | cons frame rest =>
    cases hfront
    exact ⟨rest, by rw [← hrest, append_assoc]; rfl⟩

end

/-- The steps that only count. -/
theorem Inv.sem (h : Inv s) {writer reader : Place} {semWritable semReadable : Nat}
    (hwriter : ∀ addr, writer = .holds addr → addr = s.buf.wPos)
    (hreader : ∀ addr, reader = .holds addr → addr = s.buf.rPos)
    (hunread : s.written.length = s.read.length + semReadable + writer.moving + reader.holding)
    (hfree : s.written.length + semWritable + writer.holding + reader.moving
      = s.read.length + s.buf.frameCount) :
    Inv { s with
      buf := { s.buf with semWritable := semWritable, semReadable := semReadable }
      writer := writer, reader := reader } :=
  ⟨h.wPos, h.rPos, hwriter, hreader, hunread, hfree, h.frames, h.inOrder⟩

lemma Inv.step (h : Inv s) {action : Action Frame} (hstep : step s action = some t) : Inv t := by
  have hunread := h.unread
  have hfree := h.free
  cases action with
  | getWritable =>
    obtain ⟨⟨hidle, hpos⟩, hsome⟩ := ite_none_right_eq_some.mp hstep
    cases hsome
    simp only [hidle, Place.holding, Place.moving] at hunread hfree
    refine h.sem (by simp) h.reader ?_ ?_ <;> simp only [Place.holding, Place.moving] <;> omega
  | fill frame =>
    simp only [Bootanimation.step] at hstep
    split at hstep <;> cases hstep
    next haddr => exact h.fill haddr frame
  | writeFinish =>
    simp only [Bootanimation.step] at hstep
    split at hstep <;> cases hstep
    next haddr => exact h.writeFinish haddr
  | upReadable =>
    obtain ⟨hmoved, hsome⟩ := ite_none_right_eq_some.mp hstep
    cases hsome
    simp only [hmoved, Place.holding, Place.moving] at hunread hfree
    refine h.sem (by simp) h.reader ?_ ?_ <;> simp only [Place.holding, Place.moving] <;> omega
  | getReadable =>
    obtain ⟨hidle, hstep⟩ := ite_none_left_eq_some.mp hstep
    split at hstep
    · cases hstep
      exact h
    cases hstep
    simp only [not_not.mp hidle, Place.holding, Place.moving] at hunread hfree
    refine h.sem h.writer (by simp) ?_ ?_ <;> simp only [Place.holding, Place.moving] <;> omega
  | readFinish =>
    simp only [Bootanimation.step] at hstep
    split at hstep <;> cases hstep
    next haddr => exact h.readFinish haddr
  | upWritable =>
    obtain ⟨hmoved, hsome⟩ := ite_none_right_eq_some.mp hstep
    cases hsome
    simp only [hmoved, Place.holding, Place.moving] at hunread hfree
    refine h.sem h.writer (by simp) ?_ ?_ <;> simp only [Place.holding, Place.moving] <;> omega

lemma inv_of_reachable (h : Reachable size count s) : Inv s := by
  refine Lib.Reach.invariant Inv ?_ (fun _ _ _ h hstep => h.step hstep) h
  rintro s ⟨hsize, mem, rfl⟩
  constructor <;> simp [animationBufferInit, AnimationBuffer.slot, Place.holding, Place.moving]

/-- A reader that is outside the calls and finds a frame gets through its three steps, and appends
the next frame as it was written. -/
theorem reader_appends_next (h : Reachable size count s) (hidle : s.reader = .idle)
    (hpos : 0 < s.buf.semReadable) : ∃ held moved done addr frame,
      step s .getReadable = some held ∧ step held .readFinish = some moved ∧
      step moved .upWritable = some done ∧ done.reader = .idle ∧
      s.written[s.read.length]? = some (addr, frame) ∧ done.read = s.read ++ [frame] := by
  have hget : step s .getReadable = some { s with
      buf := { s.buf with semReadable := s.buf.semReadable - 1 }
      reader := .holds s.buf.rPos } := by
    simp only [step]
    rw [if_neg (not_not.mpr hidle), if_neg hpos.ne']
  have hfront := ((inv_of_reachable h).step hget).front rfl
  have hup : ∀ t : State Frame, t.reader = .moved → step t .upWritable = some { t with
      buf := { t.buf with semWritable := t.buf.semWritable + 1 }, reader := .idle } :=
    fun t ht => if_pos ht
  exact ⟨_, _, _, _, _, hget, rfl, hup _ rfl, rfl, hfront, rfl⟩

/-- In every run the frames are read in the order written, each once, and every other one is counted
by `sem_readable` or in progress. The reader has the next frame in its slot as it was written, the
slot of the writer holds no frame that is not read, and the counts and the frames in progress make
`frame_count`. -/
theorem frames_read_in_order (h : Reachable size count s) : s.read <+: s.written.map Prod.snd ∧
    s.written.length = s.read.length + s.buf.semReadable + s.writer.moving + s.reader.holding ∧
    (∀ addr, s.reader = .holds addr → s.written[s.read.length]? = some (addr, s.mem addr)) ∧
    (∀ addr, s.writer = .holds addr → ∀ x ∈ s.written.drop s.read.length, x.1 ≠ addr) ∧
    s.buf.semWritable + s.buf.semReadable + s.writer.busy + s.reader.busy = s.buf.frameCount := by
  have hinv := inv_of_reachable h
  refine ⟨hinv.inOrder, hinv.unread, fun _ => hinv.front, ?_, ?_⟩
  · intro addr haddr x hx
    obtain ⟨k, hk⟩ := mem_iff_getElem?.mp hx
    rw [List.getElem?_drop] at hk
    exact hinv.apart haddr (Nat.le_add_right _ _) hk
  · have hunread := hinv.unread
    have hfree := hinv.free
    simp only [Place.busy]
    omega

def writeFrame (frame : Nat) : List (Action Nat) :=
  [.getWritable, .fill frame, .writeFinish, .upReadable]

def readFrame : List (Action Nat) := [.getReadable, .readFinish, .upWritable]

/-- Three frames in two slots. The third one goes into the first slot again, and the reader has it
after the other two. -/
theorem two_slots_read : ∃ s : State Nat, Reachable 4 2 s ∧ s.read = [5, 6] ∧ s.reader = .holds 0 ∧
    s.written[s.read.length]? = some (0, 7) := by
  let start : State Nat := animationBufferInit 4 2 (by decide) fun _ => 0
  obtain ⟨s, hrun, hread, hreader, hmem⟩ :
    ∃ s, (writeFrame 5 ++ writeFrame 6 ++ readFrame ++ writeFrame 7 ++ readFrame ++
      [Action.getReadable]).foldlM step start = some s ∧ s.read = [5, 6] ∧ s.reader = .holds 0 ∧
      s.mem 0 = 7 := ⟨_, rfl, rfl, rfl, rfl⟩
  have hreach : Reachable 4 2 s := Lib.Reach.foldlM (fun _ _ _ h => h) _ (.start ⟨_, _, rfl⟩) hrun
  have hfront := (frames_read_in_order hreach).2.2.1 0 hreader
  rw [hmem] at hfront
  exact ⟨s, hreach, hread, hreader, hfront⟩

end Wm8850.Bootanimation
