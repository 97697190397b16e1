import Wm8850.I2c.Bus

/-! # One interrupt

An acknowledged byte does the next events of the queue and keeps the others (`byteEnd_advances`).
`QueueOk` asks that only the last request ends in a write: behind a write the handler counts
`xfer_msgnum` of the next request up before it starts it. -/

namespace Wm8850.I2c

open Lib List Option

structure Sound (f : Fifo) : Prop where
  msgs : f.msg ≠ []
  len : ∀ msg ∈ f.msg, 0 < msg.len

structure Running (f : Fifo) (msg : Msg) : Prop where
  current : f.msg[f.xferMsgnum]? = some msg
  pos : 1 ≤ f.xferLength
  le : f.xferLength ≤ msg.len

/-- Requests that wait. Only the last one may end in a write. -/
def Fresh : List Fifo → Prop
  | [] => True
  | f :: rest =>
    Sound f ∧ f.xferLength = 0 ∧ f.xferMsgnum = 0 ∧ (rest ≠ [] → EndsInRead f) ∧ Fresh rest

/-- The request at the head runs, those behind it wait. -/
def QueueOk : List Fifo → Prop
  | [] => True
  | f :: rest => Sound f ∧ (∃ msg, Running f msg) ∧ (rest ≠ [] → EndsInRead f) ∧ Fresh rest

/-! ### The events of a message -/

section
variable {id msgnum i : Nat} {msg : Msg}

lemma bytesFrom_cons (h : i < msg.len) :
    bytesFrom id msgnum msg i = byteEvent id msgnum msg i :: bytesFrom id msgnum msg (i + 1) := by
  unfold bytesFrom
  obtain ⟨n, hn⟩ : ∃ n, msg.len - i = n + 1 := ⟨msg.len - i - 1, by omega⟩
  rw [hn, range'_succ, map_cons, show msg.len - (i + 1) = n by omega]

lemma bytesFrom_end (h : msg.len ≤ i) : bytesFrom id msgnum msg i = [] := by
  unfold bytesFrom
  rw [Nat.sub_eq_zero_of_le h]
  rfl

lemma byteEvent_read (h : msg.rd = true) (byte : BitVec 8) :
    (Event.read id msgnum i byte).shape = byteEvent id msgnum msg i := by
  unfold byteEvent
  rw [if_pos h]
  rfl

lemma byteEvent_write (h : ¬ msg.rd = true) {byte : BitVec 8} (hbyte : msg.buf[i]? = some byte) :
    (Event.write id msgnum i byte).shape = byteEvent id msgnum msg i := by
  unfold byteEvent
  rw [if_neg h, getD_eq_getElem?_getD, hbyte]
  rfl

lemma shape_finishEvent (f : Fifo) : (finishEvent f).shape = finishEvent f := by
  unfold finishEvent
  split <;> rfl

end

/-! ### The start of a message -/

section
variable {f : Fifo} {msg : Msg}

section
variable (h : f.msg[f.xferMsgnum]? = some msg)
include h

lemma drop_current : f.msg.drop f.xferMsgnum = msg :: f.msg.drop (f.xferMsgnum + 1) := by
  obtain ⟨hlt, rfl⟩ := List.getElem?_eq_some_iff.mp h
  exact List.drop_eq_getElem_cons hlt

lemma leftOf_eq : leftOf f =
      bytesFrom f.id f.xferMsgnum msg (if msg.rd then f.xferLength - 1 else f.xferLength) ++
        msgsEvents f.id (f.xferMsgnum + 1) (f.msg.drop (f.xferMsgnum + 1)) ++ [finishEvent f] := by
  unfold leftOf
  rw [h]
  rfl

lemma irqsOf_eq : irqsOf f = msg.len - f.xferLength + 1 + msgsIrqs
    (f.msg.drop (f.xferMsgnum + 1)) := by
  unfold irqsOf
  rw [h]
  rfl

lemma transferMsg_spec (hx : f.xferLength = 0)
    (hlen : 0 < msg.len) : ∃ events, wmtI2cTransferMsg f = some events ∧ events ≠ [] ∧
      events.map Event.shape ++ leftOf { f with xferLength := f.xferLength + 1 } =
        msgsEvents f.id f.xferMsgnum (f.msg.drop f.xferMsgnum) ++ [finishEvent f] ∧
      irqsOf { f with xferLength := f.xferLength + 1 } = msgsIrqs (f.msg.drop f.xferMsgnum) := by
  have hirqs : irqsOf { f with xferLength := f.xferLength + 1 } =
    msgsIrqs (f.msg.drop f.xferMsgnum) := by
    rw [irqsOf_eq (show ({ f with xferLength := f.xferLength + 1 } : Fifo).msg[f.xferMsgnum]? =
      _ from h),
      drop_current h]
    unfold msgsIrqs
    rw [map_cons, sum_cons]
    dsimp only
    omega
  rw [drop_current h, hx] at hirqs
  rw [leftOf_eq (show ({ f with xferLength := f.xferLength + 1 } : Fifo).msg[f.xferMsgnum]? =
    _ from h),
    drop_current h, msgsEvents]
  unfold wmtI2cTransferMsg
  rw [h, bind_some, hx]
  by_cases hrd : msg.rd = true
  · rw [if_pos hrd, if_pos hrd]
    refine ⟨_, rfl, cons_ne_nil _ _, ?_, hirqs⟩
    rfl
  rw [if_neg hrd, if_neg hrd, if_neg (by omega)]
  obtain ⟨byte, hbyte⟩ : ∃ byte, msg.buf[0]? = some byte := ⟨_, getElem?_eq_getElem hlen⟩
  rw [hbyte]
  refine ⟨_, rfl, cons_ne_nil _ _, ?_, hirqs⟩
  rw [bytesFrom_cons hlen, ← byteEvent_write hrd hbyte]
  rfl

end

end

/-! ### The queue -/

/-- The handler does the first ones of the events that are left. -/
structure Advances (queue : List Fifo) (events : List Event) (queue' : List Fifo) : Prop where
  ok : QueueOk queue'
  done : events.map Event.shape ++ left queue' = left queue
  irqs : irqsLeft queue' + 1 = irqsLeft queue
  ne : events ≠ []

section
variable {f : Fifo} {rest : List Fifo} {msg : Msg} {stored : List Event}

/-- The number of bytes of the current message that were done before this interrupt. -/
def doneBytes (f : Fifo) (msg : Msg) : Nat := if msg.rd then f.xferLength - 1 else f.xferLength

lemma goesOn_advances (h : QueueOk (f :: rest)) (hrun : Running f msg)
    (hlt : f.xferLength < msg.len) (hne : stored ≠ [])
    (hstored : stored.map Event.shape = [byteEvent f.id f.xferMsgnum msg (doneBytes f msg)]) :
    Advances (f :: rest) stored ({ f with xferLength := f.xferLength + 1 } :: rest) := by
  obtain ⟨hsound, -, hread, hfresh⟩ := h
  have hpos := hrun.pos
  have hcurrent : ({ f with xferLength := f.xferLength + 1 } : Fifo).msg[f.xferMsgnum]? =
    some msg :=
    hrun.current
  have hdone : doneBytes { f with xferLength := f.xferLength + 1 } msg = doneBytes f msg + 1 := by
    unfold doneBytes
    dsimp only
    split <;> omega
  have hdone_lt : doneBytes f msg < msg.len := by
    unfold doneBytes
    split <;> omega
  refine ⟨⟨⟨hsound.msgs, hsound.len⟩, ⟨msg, hcurrent, ?_, ?_⟩, hread, hfresh⟩, ?_, ?_, hne⟩
  · exact Nat.le_add_left 1 _
  · exact hlt
  · show _ ++ (leftOf { f with xferLength := f.xferLength + 1 } ++ _) = leftOf f ++ _
    rw [leftOf_eq hcurrent, leftOf_eq hrun.current, ← doneBytes, ← doneBytes, hdone,
      bytesFrom_cons hdone_lt, hstored]
    rfl
  · show irqsOf { f with xferLength := f.xferLength + 1 } + _ + 1 = irqsOf f + _
    rw [irqsOf_eq hcurrent, irqsOf_eq hrun.current]
    dsimp only
    omega

def OutcomeAdvances (queue : List Fifo) (outcome : Option Outcome) : Prop :=
  ∃ o, outcome = some o ∧ Advances queue o.events (o.current.toList ++ o.rest)

section
variable (hrun : Running f msg)
  (hstored : stored.map Event.shape = bytesFrom f.id f.xferMsgnum msg (doneBytes f msg))
include hrun hstored

lemma left_of_last : leftOf f = stored.map Event.shape ++
      (msgsEvents f.id (f.xferMsgnum + 1) (f.msg.drop (f.xferMsgnum + 1)) ++ [finishEvent f]) := by
  rw [leftOf_eq hrun.current, ← doneBytes, hstored, append_assoc]

lemma nextMsg_advances (h : QueueOk (f :: rest)) (hlast : f.xferLength = msg.len)
    (hmore : f.xferMsgnum + 1 < f.msg.length) :
    OutcomeAdvances (f :: rest) (nextMsg f rest stored) := by
  obtain ⟨hsound, -, hread, hfresh⟩ := h
  obtain ⟨next, hnext⟩ : ∃ next, f.msg[f.xferMsgnum + 1]? = some next :=
    ⟨_, getElem?_eq_getElem hmore⟩
  have hlen := hsound.len next (mem_of_getElem? hnext)
  obtain ⟨started, hstart, hne, hdone, hirqs⟩ :=
    transferMsg_spec (f := { f with xferLength := 0, xferMsgnum := f.xferMsgnum + 1 }) hnext rfl
      hlen
  have hout : nextMsg f rest stored = some ⟨stored ++ started,
      some { f with xferLength := 1, xferMsgnum := f.xferMsgnum + 1 }, rest, true, false⟩ := by
    unfold nextMsg
    dsimp only
    rw [hstart]
    rfl
  have hok : QueueOk ({ f with xferLength := 1, xferMsgnum := f.xferMsgnum + 1 } :: rest) :=
    ⟨⟨hsound.msgs, hsound.len⟩, ⟨next, hnext, le_refl 1, hlen⟩, hread, hfresh⟩
  refine ⟨_, hout, hok, ?_, ?_, ?_⟩
  · show (stored ++ started).map Event.shape ++ (leftOf _ ++ (rest.map requestEvents).flatten) =
      leftOf f ++ (rest.map requestEvents).flatten
    rw [left_of_last hrun hstored, map_append, ← append_assoc, append_assoc (stored.map _), hdone]
    rfl
  · show irqsOf _ + (rest.map fun f => msgsIrqs f.msg).sum + 1 =
      irqsOf f + (rest.map fun f => msgsIrqs f.msg).sum
    rw [hirqs, irqsOf_eq hrun.current]
    dsimp only
    omega
  · exact append_ne_nil_of_right_ne_nil _ hne

lemma finish_advances (h : QueueOk (f :: rest)) (hlast : f.xferLength = msg.len)
    (hend : f.msg.length ≤ f.xferMsgnum + 1) {bump : Nat}
    (hbump : rest ≠ [] → bump = 0) : OutcomeAdvances (f :: rest) (finish f rest bump stored) := by
  obtain ⟨hsound, -, -, hfresh⟩ := h
  have hleft := left_of_last hrun hstored
  have hirqsf := irqsOf_eq hrun.current
  rw [drop_eq_nil_of_le hend] at hleft hirqsf
  rw [hlast, Nat.sub_self] at hirqsf
  have hnil : stored ++ [finishEvent f] ≠ [] := append_ne_nil_of_right_ne_nil _ (cons_ne_nil _ _)
  have hshape : (stored ++ [finishEvent f]).map Event.shape = leftOf f := by
    rw [hleft, map_append, map_cons, shape_finishEvent]
    rfl
  cases rest with
  | nil =>
    refine ⟨_, rfl, trivial, ?_, ?_, hnil⟩
    · show (stored ++ [finishEvent f]).map Event.shape ++ [] = leftOf f ++ []
      rw [hshape]
    · show 0 + 1 = irqsOf f + 0
      rw [hirqsf]
      rfl
  | cons next rest =>
    obtain ⟨hsound', hx, hm, hread', hfresh'⟩ := hfresh
    obtain rfl := hbump (cons_ne_nil _ _)
    obtain ⟨msg', hmsg'⟩ : ∃ msg', next.msg[0]? = some msg' :=
      ⟨_, getElem?_eq_getElem (length_pos_of_ne_nil hsound'.msgs)⟩
    have hlen := hsound'.len msg' (mem_of_getElem? hmsg')
    have hcurrent : ({ next with xferLength := 0, xferMsgnum := next.xferMsgnum + 0 } : Fifo).msg[
        next.xferMsgnum + 0]? = some msg' := by
      rw [hm]
      exact hmsg'
    obtain ⟨started, hstart, hne, hdone, hirqs⟩ := transferMsg_spec hcurrent rfl hlen
    have hout : finish f (next :: rest) 0 stored = some ⟨stored ++ [finishEvent f] ++ started, none,
        { next with xferLength := 1, xferMsgnum := next.xferMsgnum + 0 } :: rest, true,
        !f.nonBlock⟩ := by
      unfold finish
      dsimp only
      rw [hstart]
      rfl
    have hok : QueueOk ({ next with xferLength := 1, xferMsgnum := next.xferMsgnum + 0 } :: rest) :=
      ⟨⟨hsound'.msgs, hsound'.len⟩, ⟨msg', hcurrent, le_refl 1, hlen⟩, hread', hfresh'⟩
    refine ⟨_, hout, hok, ?_, ?_, ?_⟩
    · show (stored ++ [finishEvent f] ++ started).map Event.shape ++
          (leftOf _ ++ (rest.map requestEvents).flatten) =
        leftOf f ++ ((next :: rest).map requestEvents).flatten
      rw [map_append, hshape, append_assoc, ← append_assoc (started.map _), hdone]
      rw [hm]
      rfl
    · show irqsOf _ + (rest.map fun f => msgsIrqs f.msg).sum + 1 =
        irqsOf f + ((next :: rest).map fun f => msgsIrqs f.msg).sum
      rw [hirqs, hirqsf, hm, map_cons, sum_cons]
      show msgsIrqs next.msg + _ + 1 = 0 + 1 + msgsIrqs [] + (msgsIrqs next.msg + _)
      unfold msgsIrqs
      rw [map_nil, sum_nil]
      omega
    · exact append_ne_nil_of_left_ne_nil hnil _

end

lemma EndsInRead.rd_of_last (h : EndsInRead f) (hcurrent : f.msg[f.xferMsgnum]? = some msg)
    (hend : f.msg.length ≤ f.xferMsgnum + 1) : msg.rd = true := by
  obtain ⟨last, hlast, hrd⟩ := h
  obtain ⟨hlt, -⟩ := List.getElem?_eq_some_iff.mp hcurrent
  rw [List.getLast?_eq_getElem?, show f.msg.length - 1 = f.xferMsgnum by omega, hcurrent] at hlast
  cases hlast
  exact hrd

lemma byteEnd_advances (h : QueueOk (f :: rest)) (cdr : BitVec 8) :
    OutcomeAdvances (f :: rest) (byteEnd f rest cdr) := by
  have hwhole := h
  obtain ⟨-, ⟨msg, hrun⟩, hread, -⟩ := hwhole
  have hpos := hrun.pos
  have hle := hrun.le
  unfold byteEnd
  rw [hrun.current, bind_some]
  by_cases hrd : msg.rd = true
  · have hdone : doneBytes f msg = f.xferLength - 1 := if_pos hrd
    have hstored : [Event.read f.id f.xferMsgnum (f.xferLength - 1) cdr].map Event.shape =
        [byteEvent f.id f.xferMsgnum msg (doneBytes f msg)] := by
      rw [map_cons, byteEvent_read hrd, hdone]
      rfl
    rw [if_pos hrd, if_neg (by omega)]
    by_cases hlt : f.xferLength < msg.len
    · -- The two branches before the last byte differ only in the acknowledge.
      have hon := goesOn_advances h hrun hlt (cons_ne_nil _ _) hstored
      split
      · exact ⟨_, rfl, hon⟩
      · rw [if_neg (by omega)]
        exact ⟨_, rfl, hon⟩
    have hlast : f.xferLength = msg.len := by omega
    have hall : [byteEvent f.id f.xferMsgnum msg (doneBytes f msg)] =
        bytesFrom f.id f.xferMsgnum msg (doneBytes f msg) := by
      rw [bytesFrom_cons (by omega), bytesFrom_end (by omega)]
    rw [if_neg (by omega), if_pos hlast]
    split
    · next hmore => exact nextMsg_advances hrun (hstored.trans hall) h hlast hmore
    · next hend =>
      exact finish_advances hrun (hstored.trans hall) h hlast (by omega) fun _ => rfl
  have hdone : doneBytes f msg = f.xferLength := if_neg hrd
  rw [if_neg hrd]
  by_cases hlt : f.xferLength < msg.len
  · obtain ⟨byte, hbyte⟩ : ∃ byte, msg.buf[f.xferLength]? = some byte :=
      ⟨_, getElem?_eq_getElem hlt⟩
    have hstored : [Event.write f.id f.xferMsgnum f.xferLength byte].map Event.shape =
        [byteEvent f.id f.xferMsgnum msg (doneBytes f msg)] := by
      rw [map_cons, byteEvent_write hrd hbyte, hdone]
      rfl
    rw [if_neg (by omega), hbyte]
    exact ⟨_, rfl, goesOn_advances h hrun hlt (cons_ne_nil _ _) hstored⟩
  have hlast : f.xferLength = msg.len := by omega
  have hstored : ([] : List Event).map Event.shape = bytesFrom f.id f.xferMsgnum msg
      (doneBytes f msg) := by
    rw [bytesFrom_end (by omega)]
    rfl
  rw [if_pos hlast]
  split
  · next hmore => exact nextMsg_advances hrun hstored h hlast hmore
  · next hend =>
    refine finish_advances hrun hstored h hlast (by omega) fun hrest => ?_
    exact absurd ((hread hrest).rd_of_last hrun.current (by omega)) hrd

end

lemma handler_advances {b : Bus} (h : QueueOk b.queue) (hne : b.queue ≠ []) (cdr : BitVec 8) :
    ∃ t events, i2cWmtHandler b ⟨false, true, cdr⟩ = some t ∧ Advances b.queue events t.queue ∧
      t.log = b.log ++ events := by
  obtain ⟨f, rest, hqueue⟩ := exists_cons_of_ne_nil hne
  rw [hqueue] at h
  obtain ⟨o, ho, hadv⟩ := byteEnd_advances h cdr
  have hrun : i2cWmtHandler b ⟨false, true, cdr⟩ = some { b with
        queue := o.current.toList ++ o.rest
        isrNack := if o.started then false else b.isrNack
        isrTimeout := if o.started then false else b.isrTimeout
        isrIntPending := b.isrIntPending || o.wakeup
        log := b.log ++ o.events } := by
    unfold i2cWmtHandler
    rw [hqueue]
    dsimp only
    rw [head?_cons, tail_cons, bind_some, ho]
    rfl
  refine ⟨_, o.events, hrun, ?_, rfl⟩
  rw [hqueue]
  exact hadv

end Wm8850.I2c
