import Wm8850.Proofs.I2c.Transfers

/-! # All requests of a run

What was done and what is left for the requests is the `plan` of a state. An acknowledged byte moves
events from the second part to the first (`handler_advances`), and a new request adds its events at
the end (`send_plan`). Without an acknowledge the handler takes the request off the queue, wakes up,
and starts no other. -/

namespace Wm8850.I2c

open Lib List Option

variable {queue : List Fifo} {r f : Fifo} {s : State} {status : Status} {op : Op} {k : Nat}

def plan (b : Bus) : List Event := b.log.map Event.shape ++ left b.queue

/-! ### A new request -/

section
variable {b t : Bus} {id : Nat} {msg : List Msg} {nonBlock : Bool}

lemma fresh_append (h : Fresh queue) (hreads : ∀ f ∈ queue, EndsInRead f) (hr : Fresh [r]) :
    Fresh (queue ++ [r]) := by
  induction queue with
  | nil => exact hr
  | cons f rest ih =>
    obtain ⟨hsound, hx, hm, -, hrest⟩ := h
    exact ⟨hsound, hx, hm, fun _ => hreads f mem_cons_self,
      ih hrest fun g hg => hreads g (mem_cons_of_mem _ hg)⟩

lemma queueOk_append (hne : queue ≠ []) (h : QueueOk queue) (hreads : ∀ f ∈ queue, EndsInRead f)
    (hr : Fresh [r]) : QueueOk (queue ++ [r]) := by
  cases queue with
  | nil => exact absurd rfl hne
  | cons f rest =>
    obtain ⟨hsound, hrun, -, hrest⟩ := h
    exact ⟨hsound, hrun, fun _ => hreads f mem_cons_self,
      fresh_append hrest (fun g hg => hreads g (mem_cons_of_mem _ hg)) hr⟩

lemma left_append (hne : queue ≠ []) (r : Fifo) :
    left (queue ++ [r]) = left queue ++ requestEvents r := by
  cases queue with
  | nil => exact absurd rfl hne
  | cons f rest =>
    show leftOf f ++ ((rest ++ [r]).map requestEvents).flatten = _
    rw [map_append, flatten_append, ← append_assoc]
    show _ ++ (requestEvents r ++ []) = _
    rw [append_nil]
    rfl

lemma startBuf_eq {pmsg : Msg} {rest : List Msg} (hlen : 0 < pmsg.len) :
    wmtI2cTransferMsg ⟨id, pmsg :: rest, nonBlock, 0, 0⟩ = some (startBuf id pmsg) := by
  unfold wmtI2cTransferMsg startBuf
  rw [getElem?_cons_zero, bind_some]
  split
  · rw [if_neg (by omega)]
  rw [if_neg (by omega)]
  unfold Msg.len at hlen
  cases hbuf : pmsg.buf with
  | nil =>
    rw [hbuf] at hlen
    cases hlen
  | cons byte bytes => rfl

lemma send_plan (hok : QueueOk b.queue) (hlen : ∀ m ∈ msg, 0 < m.len)
    (hreads : ∀ f ∈ b.queue, EndsInRead f) (haddr : ∀ pmsg ∈ msg.head?, pmsg.addr ≠ apiI2cAddr)
    (hsend : i2cSendRequest b id msg nonBlock = some t) :
    QueueOk t.queue ∧ plan t = plan b ++ requestEvents ⟨id, msg, nonBlock, 0, 0⟩ ∧
      b.log.length ≤ t.log.length ∧ t.isrTimeout = false := by
  cases msg with
  | nil => cases hsend
  | cons pmsg rest =>
    have hsound : ∀ x m, Sound ⟨id, pmsg :: rest, nonBlock, x, m⟩ :=
      fun _ _ => ⟨cons_ne_nil _ _, hlen⟩
    have hpos := hlen pmsg mem_cons_self
    unfold i2cSendRequest at hsend
    rw [head?_cons, map_some, if_neg (haddr pmsg rfl)] at hsend
    by_cases hempty : b.queue = []
    · rw [if_pos hempty] at hsend
      cases hsend
      obtain ⟨events, hevents, -, hdone, -⟩ :=
        transferMsg_spec (f := ⟨id, pmsg :: rest, nonBlock, 0, 0⟩) rfl rfl hpos
      rw [startBuf_eq hpos] at hevents
      cases hevents
      refine ⟨⟨hsound 1 0, ⟨pmsg, rfl, le_refl 1, hpos⟩, fun h => absurd rfl h, trivial⟩, ?_, ?_,
        rfl⟩
      · unfold plan
        rw [hempty, map_append, append_assoc]
        show _ ++ (_ ++ (leftOf _ ++ [])) = _ ++ [] ++ _
        rw [append_nil, append_nil]
        exact congrArg _ hdone
      · rw [length_append]
        exact Nat.le_add_right _ _
    rw [if_neg hempty] at hsend
    cases hsend
    have hfresh : Fresh [⟨id, pmsg :: rest, nonBlock, 0, 0⟩] :=
      ⟨hsound 0 0, rfl, rfl, fun h => absurd rfl h, trivial⟩
    refine ⟨queueOk_append hempty hok hreads hfresh, ?_, le_refl _, rfl⟩
    unfold plan
    rw [left_append hempty, append_assoc]

end

/-! ### Slaves that acknowledge -/

lemma handler_plan {b : Bus} (h : QueueOk b.queue) (hne : b.queue ≠ []) (cdr : BitVec 8) :
    ∃ t, i2cWmtHandler b ⟨false, true, cdr⟩ = some t ∧ QueueOk t.queue ∧ plan t = plan b ∧
      b.log.length < t.log.length ∧ irqsLeft t.queue + 1 = irqsLeft b.queue := by
  obtain ⟨t, events, hrun, hadv, hlog⟩ := handler_advances h hne cdr
  refine ⟨t, hrun, hadv.ok, ?_, ?_, hadv.irqs⟩
  · unfold plan
    rw [hlog, map_append, append_assoc, hadv.done]
  · rw [hlog, length_append]
    have := length_pos_of_ne_nil hadv.ne
    omega

lemma byteEnds_spec {b : Bus} (values : List (BitVec 8)) (h : QueueOk b.queue)
    (hlen : values.length = irqsLeft b.queue) :
    ∃ t, byteEnds b values = some t ∧ t.queue = [] ∧ t.log.map Event.shape = plan b := by
  induction values generalizing b with
  | nil =>
    have hempty : b.queue = [] := by
      cases hqueue : b.queue with
      | nil => rfl
      | cons f rest =>
        rw [hqueue] at h hlen
        obtain ⟨-, ⟨msg, hrun⟩, -⟩ := h
        rw [irqsLeft, irqsOf_eq hrun.current, length_nil] at hlen
        omega
    refine ⟨b, rfl, hempty, ?_⟩
    unfold plan
    rw [hempty]
    exact (append_nil _).symm
  | cons value values ih =>
    have hne : b.queue ≠ [] := by
      intro hempty
      rw [hempty] at hlen
      cases hlen
    obtain ⟨u, hrun, hok, hplan, -, hirqs⟩ := handler_plan h hne value
    rw [length_cons] at hlen
    obtain ⟨t, hrest, hempty, hlog⟩ := ih hok (by omega)
    refine ⟨t, ?_, hempty, hlog.trans hplan⟩
    unfold byteEnds at hrest ⊢
    rw [foldlM_cons, hrun]
    exact hrest

structure Transfers (s : State) : Prop where
  ok : QueueOk s.bus.queue
  plan : plan s.bus = (s.sent.map requestEvents).flatten

lemma flatten_sent_append (s : State) (msg : List Msg) (nonBlock : Bool) :
    ((s.sent ++ [s.request msg nonBlock]).map requestEvents).flatten =
      (s.sent.map requestEvents).flatten ++ requestEvents (s.request msg nonBlock) := by
  rw [map_append, flatten_append]
  show _ ++ (_ ++ []) = _
  rw [append_nil]

lemma irq_plan {b : Bus} (hok : QueueOk s.bus.queue)
    (hack : status.nackAddr = false ∧ status.byteEnd = true)
    (hirq : i2cWmtHandler s.bus status = some b) :
    QueueOk b.queue ∧ I2c.plan b = I2c.plan s.bus ∧ s.bus.log.length < b.log.length := by
  obtain ⟨nack, byteEnd, cdr⟩ := status
  obtain ⟨rfl, rfl⟩ := hack
  have hne : s.bus.queue ≠ [] := by
    intro hempty
    unfold i2cWmtHandler at hirq
    rw [hempty] at hirq
    cases hirq
  obtain ⟨t, hrun, hok', hplan, hlog, -⟩ := handler_plan hok hne cdr
  obtain rfl := Option.some.inj (hrun.symm.trans hirq)
  exact ⟨hok', hplan, hlog⟩

lemma Transfers.step {t : State} (h : Transfers s) (hstep : AckStep op s t) : Transfers t := by
  obtain ⟨hstep, hfits⟩ := hstep
  cases hstep with
  | send haddr hsend =>
    obtain ⟨hok, hplan, -, -⟩ := send_plan h.ok hfits.nonempty hfits.behind haddr hsend
    refine ⟨hok, ?_⟩
    rw [flatten_sent_append, hplan, h.plan]
    rfl
  | irq hirq =>
    obtain ⟨hok, hplan, -⟩ := irq_plan h.ok hfits hirq
    exact ⟨hok, hplan.trans h.plan⟩
  | idle => exact h

/-- If every byte is acknowledged, the log is a first part of the events of all requests, and the
interrupts to come do the others. -/
theorem transfers_of_reach {s : State} (h : Reach Initial AckStep s) :
    s.bus.log.map Event.shape <+: (s.sent.map requestEvents).flatten ∧
      ∀ values : List (BitVec 8), values.length = irqsLeft s.bus.queue →
        ∃ b, byteEnds s.bus values = some b ∧ b.queue = [] ∧
          b.log.map Event.shape = (s.sent.map requestEvents).flatten := by
  have hinv : Transfers s := by
    refine h.invariant Transfers ?_ fun _ _ _ hi => hi.step
    rintro s rfl
    exact ⟨trivial, rfl⟩
  constructor
  · rw [← hinv.plan]
    exact prefix_append _ _
  · intro values hlen
    obtain ⟨b, hrun, hempty, hlog⟩ := byteEnds_spec values hinv.ok hlen
    exact ⟨b, hrun, hempty, hlog.trans hinv.plan⟩

def emptyState : State := ⟨⟨[], false, false, false, []⟩, []⟩

def twoBytes : List Msg := [⟨0x10, false, [0xA#8, 0xB#8]⟩]

def twoBytesSent : State :=
  ⟨⟨[⟨0, twoBytes, false, 1, 0⟩], false, false, false, [.start 0 0, .write 0 0 0 0xA#8]⟩,
    [⟨0, twoBytes, false, 0, 0⟩]⟩

lemma twoBytes_step : Step (.send twoBytes false) emptyState twoBytesSent :=
  Step.send (by decide) rfl

def oneRead : List Msg := [⟨0x10, true, [0#8]⟩]

def readSent : State :=
  ⟨⟨[⟨0, oneRead, true, 1, 0⟩], false, false, false, [.start 0 0]⟩, [⟨0, oneRead, true, 0, 0⟩]⟩

def bothSent : State :=
  ⟨⟨[⟨0, oneRead, true, 1, 0⟩, ⟨1, twoBytes, false, 0, 0⟩], false, false, false, [.start 0 0]⟩,
    [⟨0, oneRead, true, 0, 0⟩, ⟨1, twoBytes, false, 0, 0⟩]⟩

lemma oneRead_step : Step (.send oneRead true) emptyState readSent := Step.send (by decide) rfl

lemma oneRead_fits : SendFits emptyState oneRead := ⟨by decide, nofun⟩

lemma behindRead_step : Step (.send twoBytes false) readSent bothSent := Step.send (by decide) rfl

lemma behindRead_fits : SendFits readSent twoBytes := by
  refine ⟨by decide, fun f hf => ?_⟩
  obtain rfl := mem_singleton.mp hf
  exact ⟨_, rfl, rfl⟩

/-- A non-blocking read with a blocking write of two bytes behind it. -/
theorem bothSent_transferred : ∃ b, byteEnds bothSent.bus [7#8, 0#8, 0#8] = some b ∧ b.queue = [] ∧
      b.log.map Event.shape = [.start 0 0, .read 0 0 0 0#8, .callback 0, .start 1 0,
        .write 1 0 0 0xA#8, .write 1 0 1 0xB#8, .wakeup 1] := by
  have hstart : Reach Initial AckStep emptyState := Reach.start rfl
  have hread := hstart.next (.send oneRead true) ⟨oneRead_step, oneRead_fits⟩
  have hreach := hread.next (.send twoBytes false) ⟨behindRead_step, behindRead_fits⟩
  exact (transfers_of_reach hreach).2 [7#8, 0#8, 0#8] (by decide)

def twoWrites : State :=
  ⟨⟨[⟨0, [⟨0x10, false, [0xA#8]⟩], false, 1, 0⟩, ⟨1, [⟨0x10, false, [0xB#8]⟩], false, 0, 0⟩],
      false, false, false, [.start 0 0, .write 0 0 0 0xA#8]⟩,
    [⟨0, [⟨0x10, false, [0xA#8]⟩], false, 0, 0⟩, ⟨1, [⟨0x10, false, [0xB#8]⟩], false, 0, 0⟩]⟩

def emptyWrite : State :=
  ⟨⟨[⟨0, [⟨0x10, false, []⟩], false, 1, 0⟩], false, false, false, [.start 0 0]⟩,
    [⟨0, [⟨0x10, false, []⟩], false, 0, 0⟩]⟩

/-- After the first of two writes the handler starts message 1 of the second one, which has only
message 0. In the write of no byte it goes on with byte 1. -/
theorem write_index_out_of_range :
    Reach Initial Step twoWrites ∧ i2cWmtHandler twoWrites.bus ⟨false, true, 0#8⟩ = none ∧
      Reach Initial Step emptyWrite ∧ i2cWmtHandler emptyWrite.bus ⟨false, true, 0#8⟩ = none := by
  have hstart : Reach Initial Step emptyState := Reach.start rfl
  let oneWrite : State :=
    ⟨⟨[⟨0, [⟨0x10, false, [0xA#8]⟩], false, 1, 0⟩], false, false, false,
      [.start 0 0, .write 0 0 0 0xA#8]⟩, [⟨0, [⟨0x10, false, [0xA#8]⟩], false, 0, 0⟩]⟩
  have hfirst : Step (.send [⟨0x10, false, [0xA#8]⟩] false) emptyState oneWrite :=
    Step.send (by decide) rfl
  have hsecond : Step (.send [⟨0x10, false, [0xB#8]⟩] false) oneWrite twoWrites :=
    Step.send (by decide) rfl
  have hempty : Step (.send [⟨0x10, false, []⟩] false) emptyState emptyWrite :=
    Step.send (by decide) rfl
  exact ⟨(hstart.next _ hfirst).next _ hsecond, by decide, hstart.next _ hempty, by decide⟩

/-! ### Slaves that do not acknowledge -/

lemma finishEvent_of_mem_leftOf (h : finishEvent r ∈ leftOf f) : finishEvent r = finishEvent f := by
  have hbytes : ∀ m msg i, finishEvent r ∉ bytesFrom f.id m msg i := by
    intro m msg i hmem
    obtain ⟨j, -, hj⟩ := mem_map.mp hmem
    unfold byteEvent finishEvent at hj
    split at hj <;> split at hj <;> cases hj
  have hmsgs : ∀ msgs m, finishEvent r ∉ msgsEvents f.id m msgs := by
    intro msgs
    induction msgs with
    | nil => exact fun _ hmem => nomatch hmem
    | cons msg msgs ih =>
      intro m hmem
      rcases mem_append.mp hmem with hmem | hmem
      · rcases mem_cons.mp hmem with hstart | hmem
        · unfold finishEvent at hstart
          split at hstart <;> cases hstart
        · exact hbytes _ _ _ hmem
      · exact ih _ hmem
  cases hcurrent : f.msg[f.xferMsgnum]? with
  | none =>
    unfold leftOf at h
    rw [hcurrent] at h
    cases h
  | some msg =>
    rw [leftOf_eq hcurrent] at h
    rcases mem_append.mp h with hmem | hmem
    · rcases mem_append.mp hmem with hmem | hmem
      · exact absurd hmem (hbytes _ _ _)
      · exact absurd hmem (hmsgs _ _)
    · exact mem_singleton.mp hmem

lemma mem_log_of_shape {log : List Event} (h : finishEvent f ∈ log.map Event.shape) :
    finishEvent f ∈ log := by
  obtain ⟨event, hmem, hshape⟩ := mem_map.mp h
  have heq : event = finishEvent f := by
    cases event with
    | read id msgnum i byte =>
      unfold finishEvent at hshape
      split at hshape <;> cases hshape
    | start id msgnum => exact hshape
    | write id msgnum i byte => exact hshape
    | callback id => exact hshape
    | wakeup id => exact hshape
  exact heq ▸ hmem

structure Served (s : State) : Prop where
  ok : QueueOk s.bus.queue
  timeout : s.bus.isrTimeout = false
  planned : ∀ r ∈ s.sent, finishEvent r ∈ plan s.bus

lemma handler_nack {b t : Bus} (hnack : status.nackAddr = true ∧ status.byteEnd = false)
    (hqueue : b.queue = [f]) (hirq : i2cWmtHandler b status = some t) : t = { b with
      queue := [], isrNack := true, isrIntPending := true, log := b.log ++ [.wakeup f.id] } := by
  obtain ⟨nack, byteEnd, cdr⟩ := status
  obtain ⟨rfl, rfl⟩ := hnack
  unfold i2cWmtHandler nacked at hirq
  rw [hqueue] at hirq
  exact (Option.some.inj hirq).symm

lemma finishEvent_eq_wakeup (hblock : f.nonBlock = false) (h : finishEvent r ∈ left [f]) :
    finishEvent r = .wakeup f.id := by
  have hleft : finishEvent r ∈ leftOf f := by simpa [left] using h
  rw [finishEvent_of_mem_leftOf hleft]
  unfold finishEvent
  rw [hblock]
  rfl

lemma irq_timeout {b t : Bus} (h : b.isrTimeout = false)
    (hack : status.nackAddr = false ∧ status.byteEnd = true)
    (hirq : i2cWmtHandler b status = some t) : t.isrTimeout = false := by
  obtain ⟨nack, byteEnd, cdr⟩ := status
  obtain ⟨rfl, rfl⟩ := hack
  obtain ⟨f, -, hf⟩ := bind_eq_some_iff.mp hirq
  obtain ⟨o, -, rfl⟩ := map_eq_some_iff.mp hf
  dsimp only
  split
  · rfl
  · exact h

lemma Served.step {t : State} (h : Served s) (hstep : FitStep op s t) : Served t := by
  obtain ⟨hstep, hfits⟩ := hstep
  cases hstep with
  | send haddr hsend =>
    obtain ⟨hok, hplan, -, htimeout⟩ := send_plan h.ok hfits.nonempty hfits.behind haddr hsend
    refine ⟨hok, htimeout, ?_⟩
    intro r hr
    rw [hplan]
    rcases mem_append.mp hr with hr | hr
    · exact mem_append_left _ (h.planned r hr)
    · rw [mem_singleton.mp hr]
      exact mem_append_right _ (mem_append_right _ mem_cons_self)
  | irq hirq =>
    rcases hfits with hack | ⟨hnack, hbyte, f, hqueue, hblock⟩
    · obtain ⟨hok, hplan, -⟩ := irq_plan h.ok hack hirq
      refine ⟨hok, irq_timeout h.timeout hack hirq, ?_⟩
      intro r hr
      rw [hplan]
      exact h.planned r hr
    rw [handler_nack ⟨hnack, hbyte⟩ hqueue hirq]
    refine ⟨trivial, h.timeout, ?_⟩
    intro r hr
    have hplanned := h.planned r hr
    unfold plan at hplanned ⊢
    rw [hqueue] at hplanned
    rw [map_append, append_assoc]
    rcases mem_append.mp hplanned with hmem | hmem
    · exact mem_append_left _ hmem
    · rw [finishEvent_eq_wakeup hblock hmem]
      exact mem_append_right _ mem_cons_self
  | idle => exact h

/-! ### Progress -/

section
variable {σ : Nat → State} {ops : Nat → Op}

lemma served_of_run (h0 : Initial (σ 0)) (hstep : ∀ n, FitStep (ops n) (σ n) (σ (n + 1)))
    (n : Nat) :
    Served (σ n) := by
  induction n with
  | zero =>
    rw [h0]
    exact ⟨trivial, rfl, fun _ hr => nomatch hr⟩
  | succ n ih => exact ih.step (hstep n)

/-- The step is an interrupt. -/
def IsIrq (op : Op) : Prop := ∃ status, op = .irq status

def WaitsFor (r : Fifo) (s : State) (k : Nat) : Prop :=
  Served s ∧ ∃ pre post, plan s.bus = pre ++ finishEvent r :: post ∧
    s.bus.log.length ≤ pre.length ∧ pre.length < s.bus.log.length + k

lemma getElem?_plan {b : Bus} {pre post : List Event}
    (hplan : plan b = pre ++ finishEvent r :: post) :
    (plan b)[pre.length]? = some (finishEvent r) := by
  rw [hplan, getElem?_append_right (le_refl _), Nat.sub_self]
  rfl

lemma waitsFor_of_plan {pre post : List Event} (hserved : Served s)
    (hplan : plan s.bus = pre ++ finishEvent r :: post) (hk : pre.length < s.bus.log.length + k) :
    finishEvent r ∈ s.bus.log ∨ WaitsFor r s k := by
  by_cases hlen : s.bus.log.length ≤ pre.length
  · exact .inr ⟨hserved, pre, post, hplan, hlen, hk⟩
  left
  apply mem_log_of_shape
  have hget := getElem?_plan hplan
  unfold plan at hget
  rw [getElem?_append_left (by rw [length_map]; omega)] at hget
  exact mem_of_getElem? hget

lemma WaitsFor.mem_left (h : WaitsFor r s k) : finishEvent r ∈ left s.bus.queue := by
  obtain ⟨-, pre, post, hplan, hle, -⟩ := h
  have hget := getElem?_plan hplan
  unfold plan at hget
  rw [getElem?_append_right (by rw [length_map]; exact hle)] at hget
  exact mem_of_getElem? hget

lemma WaitsFor.queue_ne (h : WaitsFor r s k) : s.bus.queue ≠ [] := by
  intro hempty
  have hmem := h.mem_left
  rw [hempty] at hmem
  cases hmem

lemma WaitsFor.keep {t : State} (h : WaitsFor r s k) (hstep : FitStep op s t) (hno : ¬ IsIrq op) :
    finishEvent r ∈ t.bus.log ∨ WaitsFor r t k := by
  obtain ⟨hserved, pre, post, hplan, hle, hk⟩ := h
  have hserved' := hserved.step hstep
  obtain ⟨hstep, hfits⟩ := hstep
  cases hstep with
  | send haddr hsend =>
    obtain ⟨-, hplan', hlog, -⟩ := send_plan hserved.ok hfits.nonempty hfits.behind haddr hsend
    rw [hplan, append_assoc] at hplan'
    refine waitsFor_of_plan hserved' hplan' ?_
    dsimp only
    omega
  | irq hirq => exact absurd ⟨_, rfl⟩ hno
  | idle => exact .inr ⟨hserved, pre, post, hplan, hle, hk⟩

lemma WaitsFor.irq {t : State} (h : WaitsFor r s k) (hstep : FitStep op s t) (hirq : IsIrq op) :
    finishEvent r ∈ t.bus.log ∨ ∃ j < k, WaitsFor r t j := by
  have hmem := h.mem_left
  obtain ⟨hserved, pre, post, hplan, hle, hk⟩ := h
  have hserved' := hserved.step hstep
  obtain ⟨hstep, hfits⟩ := hstep
  cases hstep with
  | send haddr hsend =>
    obtain ⟨status, hstatus⟩ := hirq
    cases hstatus
  | idle =>
    obtain ⟨status, hstatus⟩ := hirq
    cases hstatus
  | irq hrun =>
    rcases hfits with hack | ⟨hnack, hbyte, f, hqueue, hblock⟩
    · obtain ⟨-, hplan', hlog⟩ := irq_plan hserved.ok hack hrun
      rw [hplan] at hplan'
      have hlower := waitsFor_of_plan (k := k - 1) hserved' hplan' (by dsimp only; omega)
      rcases hlower with hdone | hwaits
      · exact .inl hdone
      · exact .inr ⟨k - 1, by omega, hwaits⟩
    -- The event is left for the only request.
    rw [hqueue] at hmem
    left
    rw [handler_nack ⟨hnack, hbyte⟩ hqueue hrun, finishEvent_eq_wakeup hblock hmem]
    exact mem_append_right _ mem_cons_self

lemma finishEvent_of_fair (h0 : Initial (σ 0)) (hstep : ∀ n, FitStep (ops n) (σ n) (σ (n + 1)))
    (hfair : ∀ n, (σ n).bus.queue ≠ [] → ∃ m, n ≤ m ∧ IsIrq (ops m)) {n : Nat}
    (hr : r ∈ (σ n).sent) :
    ∃ m, finishEvent r ∈ (σ m).bus.log := by
  have hserved := served_of_run h0 hstep n
  obtain ⟨pre, post, hplan⟩ := append_of_mem (hserved.planned r hr)
  rcases waitsFor_of_plan (k := pre.length + 1) hserved hplan (by omega) with hdone | hwaits
  · exact ⟨n, hdone⟩
  obtain ⟨m, -, hdone⟩ := @eventually_of_rank (fun k n => WaitsFor r (σ n) k)
    (fun n => finishEvent r ∈ (σ n).bus.log) (fun n => IsIrq (ops n))
    (fun k n h hno => h.keep (hstep n) hno) (fun k n h hirq => h.irq (hstep n) hirq)
    (fun k n h => hfair n h.queue_ne) _ _ hwaits
  exact ⟨m, hdone⟩

end

/-! ### Senders that wait -/

def key (f : Fifo) : Nat × Bool := (f.id, f.nonBlock)

/-- A finished byte keeps the requests, or the head is finished and `wakeup` says if it blocks. -/
lemma byteEnd_key {rest : List Fifo} {cdr : BitVec 8} {o : Outcome}
    (h : byteEnd f rest cdr = some o) :
    (o.current.toList ++ o.rest).map key = (f :: rest).map key ∨
      (o.current.toList ++ o.rest).map key = rest.map key ∧ o.wakeup = !f.nonBlock := by
  have hnext : ∀ events, nextMsg f rest events = some o →
      (o.current.toList ++ o.rest).map key = (f :: rest).map key := by
    intro events h
    obtain ⟨started, -, rfl⟩ := map_eq_some_iff.mp h
    rfl
  have hfinish : ∀ bump events, finish f rest bump events = some o →
      (o.current.toList ++ o.rest).map key = rest.map key ∧ o.wakeup = !f.nonBlock := by
    intro bump events h
    cases rest with
    | nil =>
      obtain rfl := Option.some.inj h
      exact ⟨rfl, rfl⟩
    | cons next rest =>
      obtain ⟨started, -, rfl⟩ := map_eq_some_iff.mp h
      exact ⟨rfl, rfl⟩
  obtain ⟨pmsg, -, h⟩ := bind_eq_some_iff.mp h
  dsimp only at h
  split at h
  · split at h
    · cases h
    split at h
    · obtain rfl := Option.some.inj h
      exact .inl rfl
    split at h
    · split at h
      · exact .inl (hnext _ h)
      · exact .inr (hfinish _ _ h)
    · obtain rfl := Option.some.inj h
      exact .inl rfl
  split at h
  · split at h
    · exact .inl (hnext _ h)
    · exact .inr (hfinish _ _ h)
  · obtain ⟨byte, -, rfl⟩ := map_eq_some_iff.mp h
    exact .inl rfl

lemma mem_of_key {q q' : List Fifo} (h : q'.map key = q.map key) (hf : f ∈ q) :
    ∃ g ∈ q', g.id = f.id ∧ g.nonBlock = f.nonBlock := by
  obtain ⟨g, hg, hkey⟩ := mem_map.mp (h ▸ mem_map_of_mem hf : key f ∈ q'.map key)
  exact ⟨g, hg, congrArg Prod.fst hkey, congrArg Prod.snd hkey⟩

/-- What an acknowledged byte does to the requests: none is new, and if a blocking one is removed,
the flag is set. -/
structure Keeps (b t : Bus) : Prop where
  old : ∀ g ∈ t.queue, ∃ f ∈ b.queue, f.id = g.id ∧ f.nonBlock = g.nonBlock
  pending : b.isrIntPending = true → t.isrIntPending = true
  removed : ∀ f ∈ b.queue, f.nonBlock = false → (∀ g ∈ t.queue, g.id ≠ f.id) →
    t.isrIntPending = true

lemma irq_keeps {b t : Bus} (hack : status.nackAddr = false ∧ status.byteEnd = true)
    (hirq : i2cWmtHandler b status = some t) : Keeps b t := by
  obtain ⟨nack, byteEnd, cdr⟩ := status
  obtain ⟨rfl, rfl⟩ := hack
  obtain ⟨f, hhead, hf⟩ := bind_eq_some_iff.mp hirq
  obtain ⟨o, hbyte, rfl⟩ := map_eq_some_iff.mp hf
  have hqueue : b.queue = f :: b.queue.tail := (cons_head?_tail hhead).symm
  have hpending : b.isrIntPending = true → (b.isrIntPending || o.wakeup) = true := fun h => by
    rw [h, Bool.true_or]
  rcases byteEnd_key hbyte with hkey | ⟨hkey, hwake⟩
  · rw [← hqueue] at hkey
    refine ⟨fun g hg => mem_of_key hkey.symm hg, hpending, fun r hr _ hgone => ?_⟩
    obtain ⟨g, hg, hid, -⟩ := mem_of_key hkey hr
    exact absurd hid (hgone g hg)
  refine ⟨fun g hg => ?_, hpending, fun r hr hblock hgone => ?_⟩
  · obtain ⟨r, hr, hsame⟩ := mem_of_key hkey.symm hg
    exact ⟨r, mem_of_mem_tail hr, hsame⟩
  · rw [hqueue] at hr
    rcases mem_cons.mp hr with rfl | hr
    · show (_ || o.wakeup) = true
      rw [hwake, hblock]
      exact Bool.or_true _
    · obtain ⟨g, hg, hid, -⟩ := mem_of_key hkey hr
      exact absurd hid (hgone g hg)

/-- A sender that waits for a request that is no longer queued finds the flag set. -/
structure Watching (w : Watched) : Prop where
  queued : ∀ f ∈ w.state.bus.queue, f.id < w.state.sent.length
  sent : ∀ id ∈ w.waiting, id < w.state.sent.length
  blocking : ∀ f ∈ w.state.bus.queue, f.id ∈ w.waiting → f.nonBlock = false
  pending : ∀ id ∈ w.waiting, ¬w.IsQueued id → w.state.bus.isrIntPending = true

section
variable {w t : Watched} {wop : WatchedOp}

lemma send_queue {b b' : Bus} {id : Nat} {msg : List Msg} {nonBlock : Bool}
    (haddr : ∀ pmsg ∈ msg.head?, pmsg.addr ≠ apiI2cAddr)
    (h : i2cSendRequest b id msg nonBlock = some b') :
    ∃ r, b'.queue = b.queue ++ [r] ∧ r.id = id ∧ r.nonBlock = nonBlock := by
  obtain ⟨pmsg, hhead, rfl⟩ := map_eq_some_iff.mp h
  rw [if_neg (haddr pmsg hhead)]
  dsimp only
  split
  · rename_i hempty
    exact ⟨_, by rw [hempty]; rfl, rfl, rfl⟩
  · exact ⟨_, rfl, rfl, rfl⟩

lemma Watching.send {msg : List Msg} {nonBlock : Bool} {s : State} (h : Watching w)
    (hstep : Step (.send msg nonBlock) w.state s) (hall : ∀ id ∈ w.waiting, w.IsQueued id) :
    Watching ⟨s, w.waitingAfter (.send msg nonBlock)⟩ := by
  cases hstep with
  | send haddr hsend =>
  obtain ⟨r, hqueue, hid, hblock⟩ := send_queue haddr hsend
  have hlen : (w.state.sent ++ [w.state.request msg nonBlock]).length =
      w.state.sent.length + 1 := length_append
  -- Only a blocking request adds its sender.
  have hwaiting : ∀ id ∈ w.waitingAfter (.send msg nonBlock),
      id ∈ w.waiting ∨ id = w.state.sent.length ∧ nonBlock = false := by
    intro id hmem
    cases nonBlock with
    | true => exact .inl hmem
    | false => exact (mem_cons.mp hmem).symm.imp_right fun h => ⟨h, rfl⟩
  constructor <;> dsimp only
  · intro f hf
    rw [hqueue, mem_append, mem_singleton] at hf
    rcases hf with hf | rfl
    · have := h.queued f hf
      omega
    · omega
  · intro id hmem
    rcases hwaiting id hmem with hmem | ⟨rfl, -⟩
    · have := h.sent id hmem
      omega
    · omega
  · intro f hf hmem
    rw [hqueue, mem_append, mem_singleton] at hf
    rcases hwaiting _ hmem with hmem | ⟨heq, hnon⟩
    · rcases hf with hf | rfl
      · exact h.blocking f hf hmem
      · have := h.sent _ hmem
        omega
    · rcases hf with hf | rfl
      · have := h.queued f hf
        omega
      · exact hblock.trans hnon
  · intro id hmem hnot
    refine absurd ?_ hnot
    unfold Watched.IsQueued
    rw [hqueue]
    rcases hwaiting id hmem with hmem | ⟨rfl, -⟩
    · obtain ⟨f, hf, hfid⟩ := hall id hmem
      exact ⟨f, mem_append_left _ hf, hfid⟩
    · exact ⟨r, mem_append_right _ mem_cons_self, hid⟩

lemma Watching.ack {b : Bus} (h : Watching w) (hkeeps : Keeps w.state.bus b) :
    Watching ⟨{ w.state with bus := b }, w.waiting⟩ := by
  constructor <;> dsimp only
  · intro g hg
    obtain ⟨f, hf, hid, -⟩ := hkeeps.old g hg
    exact hid ▸ h.queued f hf
  · exact h.sent
  · intro g hg hmem
    obtain ⟨f, hf, hid, hblock⟩ := hkeeps.old g hg
    exact hblock ▸ h.blocking f hf (hid ▸ hmem)
  · intro id hmem hnot
    by_cases hold : w.IsQueued id
    · obtain ⟨f, hf, rfl⟩ := hold
      exact hkeeps.removed f hf (h.blocking f hf hmem) fun g hg hid => hnot ⟨g, hg, hid⟩
    · exact hkeeps.pending (h.pending id hmem hold)

lemma Watching.step (h : Watching w) (hstep : WatchedFit wop w t) : Watching t := by
  obtain ⟨hstep, hfits, hwatch⟩ := hstep
  cases hstep with
  | wake hid hpending =>
    exact ⟨h.queued, fun id hmem => h.sent id (mem_of_mem_filter hmem),
      fun f hf hmem => h.blocking f hf (mem_of_mem_filter hmem), fun _ _ _ => hpending⟩
  | @bus _ op s hbus =>
    obtain ⟨-, hfits⟩ := hfits
    cases op with
    | send msg nonBlock => exact h.send hbus hwatch
    | idle =>
      cases hbus
      exact h
    | irq status =>
      cases hbus with
      | irq hirq =>
      rcases hfits with hack | ⟨hnack, hbyte, f, hqueue, -⟩
      · exact h.ack (irq_keeps hack hirq)
      rw [handler_nack ⟨hnack, hbyte⟩ hqueue hirq]
      exact ⟨nofun, h.sent, nofun, fun _ _ _ => rfl⟩

lemma WatchedFit.sent_le (h : WatchedFit wop w t) : w.state.sent.length ≤ t.state.sent.length := by
  cases h.1 with
  | wake => exact le_refl _
  | bus hbus =>
    cases hbus with
    | send => rw [length_append]; exact Nat.le_add_right _ _
    | irq => exact le_refl _
    | idle => exact le_refl _

/-- Only a request that is sent adds a sender. -/
lemma WatchedFit.mem_waiting {id : Nat} (h : WatchedFit wop w t)
    (hsent : id < w.state.sent.length) (hid : id ∈ t.waiting) : id ∈ w.waiting := by
  cases h.1 with
  | wake => exact mem_of_mem_filter hid
  | bus hbus =>
    cases hbus with
    | @send _ msg nonBlock _ _ _ =>
      cases nonBlock with
      | true => exact hid
      | false =>
        rcases mem_cons.mp hid with rfl | hid
        · exact absurd hsent (lt_irrefl _)
        · exact hid
    | irq => exact hid
    | idle => exact hid

/-- While the sender of the last request has not read the flags, nothing changes on the bus. -/
lemma WatchedFit.bus_eq {id : Nat} (h : WatchedFit wop w t) (hempty : w.state.bus.queue = [])
    (hid : id ∈ w.waiting) : t.state.bus = w.state.bus := by
  obtain ⟨hstep, hfits, hwatch⟩ := h
  cases hstep with
  | wake => rfl
  | bus hbus =>
    cases hbus with
    | send =>
      obtain ⟨f, hf, -⟩ := hwatch id hid
      rw [hempty] at hf
      cases hf
    | irq hirq =>
      refine absurd hirq ?_
      obtain ⟨-, ⟨-, hbyte⟩ | ⟨-, -, f, hqueue, -⟩⟩ := hfits
      · unfold i2cWmtHandler
        rw [if_pos hbyte, hempty]
        exact nofun
      · rw [hempty] at hqueue
        cases hqueue
    | idle => rfl

variable {σ : Nat → Watched} {ops : Nat → WatchedOp}

lemma watching_of_run (h0 : Initial (σ 0).state) (hnone : (σ 0).waiting = [])
    (hstep : ∀ n, WatchedFit (ops n) (σ n) (σ (n + 1))) (n : Nat) : Watching (σ n) := by
  induction n with
  | zero =>
    constructor <;> rw [h0] <;> try rw [hnone]
    all_goals exact nofun
  | succ n ih => exact ih.step (hstep n)

/-- If interrupts keep coming while there are requests, every request is finished, and then its
sender can read the flags. The sender of one that is not acknowledged returns an error, whenever it
reads them. -/
theorem finished_of_run (h0 : Initial (σ 0).state) (hnone : (σ 0).waiting = [])
    (hstep : ∀ n, WatchedFit (ops n) (σ n) (σ (n + 1)))
    (hfair : ∀ n, (σ n).state.bus.queue ≠ [] → ∃ m, n ≤ m ∧ IsIrq (ops m).toOp) :
    (∀ n status, ops n = .bus (.irq status) → status.nackAddr = true →
      ∃ f, (σ n).state.bus.queue = [f] ∧ (σ (n + 1)).state.bus.queue = [] ∧
        (σ (n + 1)).state.bus.log = (σ n).state.bus.log ++ [.wakeup f.id] ∧
        f.id ∈ (σ (n + 1)).waiting ∧
        ∀ m, n + 1 ≤ m → f.id ∈ (σ m).waiting →
          waiterReturn (σ m).state.bus f.msg.length = some (- EIO)) ∧
      (∀ n, ∀ r ∈ (σ n).state.sent, ∃ m, finishEvent r ∈ (σ m).state.bus.log) ∧
      ∀ n, ∀ id ∈ (σ n).waiting, ¬(σ n).IsQueued id →
        ∀ msgNum, (waiterReturn (σ n).state.bus msgNum).isSome := by
  have hbus : ∀ n, FitStep (ops n).toOp (σ n).state (σ (n + 1)).state := fun n => (hstep n).2.1
  refine ⟨?_, fun n r hr => finishEvent_of_fair h0 hbus hfair hr, ?_⟩
  · intro n status hop hnack
    have hserved := served_of_run h0 hbus n
    have hwatching := watching_of_run h0 hnone hstep n
    have hone := hstep n
    rw [hop] at hone
    obtain ⟨f, hqueue, hwait, hafter⟩ :
      ∃ f, (σ n).state.bus.queue = [f] ∧ f.id ∈ (σ (n + 1)).waiting ∧
        (σ (n + 1)).state.bus = { (σ n).state.bus with
          queue := [], isrNack := true, isrIntPending := true,
          log := (σ n).state.bus.log ++ [.wakeup f.id] } := by
      obtain ⟨hrun, ⟨-, ⟨hack, -⟩ | ⟨-, hbyte, f, hqueue, -⟩⟩, hwatch⟩ := hone
      · rw [hnack] at hack
        cases hack
      have hid := hwatch hnack f (by rw [hqueue]; exact mem_cons_self)
      generalize σ (n + 1) = t at hrun ⊢
      cases hrun with
      | bus hrun =>
      cases hrun with
      | irq hirq => exact ⟨f, hqueue, hid, handler_nack ⟨hnack, hbyte⟩ hqueue hirq⟩
    refine ⟨f, hqueue, by rw [hafter], by rw [hafter], hwait, ?_⟩
    have hsent := hwatching.queued f (by rw [hqueue]; exact mem_cons_self)
    -- The bus stays as the interrupt left it until the sender has read the flags.
    have hkeep : ∀ m, n + 1 ≤ m → f.id < (σ m).state.sent.length ∧
        (f.id ∈ (σ m).waiting → (σ m).state.bus = (σ (n + 1)).state.bus) := by
      intro m hm
      induction m, hm using Nat.le_induction with
      | base => exact ⟨hsent.trans_le (hstep n).sent_le, fun _ => rfl⟩
      | succ m _ ih =>
        refine ⟨ih.1.trans_le (hstep m).sent_le, fun hid => ?_⟩
        have hold := (hstep m).mem_waiting ih.1 hid
        have hsame := ih.2 hold
        exact ((hstep m).bus_eq (by rw [hsame, hafter]) hold).trans hsame
    intro m hm hid
    rw [(hkeep m hm).2 hid, hafter]
    unfold waiterReturn
    rw [if_pos rfl]
    dsimp only
    rw [hserved.timeout]
    rfl
  · intro n id hid hnot msgNum
    have hpending := (watching_of_run h0 hnone hstep n).pending id hid hnot
    unfold waiterReturn
    rw [if_pos hpending]
    split
    · rfl
    · split <;> rfl

end

def readDone : State :=
  ⟨⟨[⟨1, twoBytes, false, 1, 0⟩], false, false, false,
      [.start 0 0, .read 0 0 0 7#8, .callback 0, .start 1 0, .write 1 0 0 0xA#8]⟩, bothSent.sent⟩

def writeNacked : State :=
  ⟨⟨[], true, false, true, readDone.bus.log ++ [.wakeup 1]⟩, bothSent.sent⟩

/-- A non-blocking read, and behind it a blocking write that is not acknowledged. -/
def nackRun : Nat → Watched
  | 0 => ⟨emptyState, []⟩
  | 1 => ⟨readSent, []⟩
  | 2 => ⟨bothSent, [1]⟩
  | 3 => ⟨readDone, [1]⟩
  | 4 => ⟨writeNacked, [1]⟩
  | _ => ⟨writeNacked, []⟩

def nackOps : Nat → WatchedOp
  | 0 => .bus (.send oneRead true)
  | 1 => .bus (.send twoBytes false)
  | 2 => .bus (.irq ⟨false, true, 7#8⟩)
  | 3 => .bus (.irq ⟨true, false, 0#8⟩)
  | 4 => .wake 1
  | _ => .bus .idle

lemma nackRun_fits (n : Nat) : WatchedFit (nackOps n) (nackRun n) (nackRun (n + 1)) := by
  match n with
  | 0 => exact ⟨.bus oneRead_step, ⟨oneRead_step, oneRead_fits⟩, nofun⟩
  | 1 => exact ⟨.bus behindRead_step, ⟨behindRead_step, behindRead_fits⟩, nofun⟩
  | 2 =>
    have hstep : Step (.irq ⟨false, true, 7#8⟩) bothSent readDone := Step.irq rfl
    exact ⟨.bus hstep, ⟨hstep, .inl ⟨rfl, rfl⟩⟩, nofun⟩
  | 3 =>
    have hstep : Step (.irq ⟨true, false, 0#8⟩) readDone writeNacked := Step.irq rfl
    refine ⟨.bus hstep, ⟨hstep, .inr ⟨rfl, rfl, _, rfl, rfl⟩⟩, fun _ f hf => ?_⟩
    obtain rfl := mem_singleton.mp hf
    exact mem_cons_self
  | 4 => exact ⟨.wake mem_cons_self rfl, ⟨Step.idle, trivial⟩, trivial⟩
  | n + 5 => exact ⟨.bus Step.idle, ⟨Step.idle, trivial⟩, trivial⟩

theorem nackRun_finished : (∃ m, Event.callback 0 ∈ (nackRun m).state.bus.log) ∧
    (∃ m, Event.wakeup 1 ∈ (nackRun m).state.bus.log) ∧
    waiterReturn (nackRun 4).state.bus 1 = some (- EIO) := by
  have hfair : ∀ n, (nackRun n).state.bus.queue ≠ [] → ∃ m, n ≤ m ∧ IsIrq (nackOps m).toOp := by
    intro n hne
    match n with
    | 0 | 1 | 2 | 3 => exact ⟨3, by decide, _, rfl⟩
    | 4 => exact absurd rfl hne
    | n + 5 => exact absurd rfl hne
  have hinitial : Initial (nackRun 0).state := rfl
  obtain ⟨hnacked, hdone, -⟩ := finished_of_run hinitial rfl nackRun_fits hfair
  obtain ⟨f, hf, -, -, -, hret⟩ := hnacked 3 _ rfl rfl
  cases hf
  exact ⟨hdone 2 _ mem_cons_self, hdone 2 _ (mem_cons_of_mem _ mem_cons_self),
    hret 4 (by decide) mem_cons_self⟩

def twoReads : State :=
  ⟨⟨[⟨0, [⟨0x10, true, [0#8]⟩], true, 1, 0⟩, ⟨1, [⟨0x11, true, [0#8]⟩], false, 0, 0⟩],
      false, false, false, [.start 0 0]⟩,
    [⟨0, [⟨0x10, true, [0#8]⟩], true, 0, 0⟩, ⟨1, [⟨0x11, true, [0#8]⟩], false, 0, 0⟩]⟩

/-- The first slave does not acknowledge. The second read is not started, and the next interrupt
would store before its buffer. If the only request is not acknowledged and another one is sent
before its sender has read the flags, the sender waits on. -/
theorem nack_starts_nothing : (Reach Initial Step twoReads ∧
      ∃ b, i2cWmtHandler twoReads.bus ⟨true, false, 0#8⟩ = some b ∧
        b.queue = [⟨1, [⟨0x11, true, [0#8]⟩], false, 0, 0⟩] ∧ b.log = [.start 0 0, .wakeup 0] ∧
        i2cWmtHandler b ⟨false, true, 0#8⟩ = none) ∧
    ∃ s t : State, Reach Initial Step s ∧
      i2cWmtHandler twoBytesSent.bus ⟨true, false, 0#8⟩ = some s.bus ∧
      waiterReturn s.bus 1 = some (- EIO) ∧ Step (.send oneRead false) s t ∧
      waiterReturn t.bus 1 = none := by
  have hstart : Reach Initial Step emptyState := Reach.start rfl
  have hsecond : Step (.send [⟨0x11, true, [0#8]⟩] false) readSent twoReads :=
    Step.send (by decide) rfl
  have hnack : Step (.irq ⟨true, false, 0#8⟩) twoBytesSent
      ⟨⟨[], true, false, true, [.start 0 0, .write 0 0 0 0xA#8, .wakeup 0]⟩, twoBytesSent.sent⟩ :=
    Step.irq rfl
  exact ⟨⟨(hstart.next _ oneRead_step).next _ hsecond, _, rfl, rfl, rfl, rfl⟩, _, _,
    (hstart.next _ twoBytes_step).next _ hnack, rfl, rfl, Step.send (by decide) rfl, rfl⟩

end Wm8850.I2c
