import Wm8850.Logger.Log

/-! # What a write does to the ring

`ChainAt`: whole entries stand in the ring from an offset to `w_off`. After `fix_up_readers` the
entries from an offset leave the new entry room (`ChainAt.fixUp`), so the copies are safe. -/

namespace Wm8850.Logger

open Lib List Nat

variable {n len : Nat} {xs : List (BitVec 8)} {log log1 log2 : Log} {count : Nat}
  {iov : List Segment}

structure Log.Sized (log : Log) : Prop where
  pow : ∃ k, log.size = 2 ^ k
  large : 2 * entryMaxLen ≤ log.size

lemma loggerOffset_eq_mod (hpow : ∃ k, log.size = 2 ^ k) (n : Nat) :
    loggerOffset log n = n % log.size := by
  obtain ⟨k, hk⟩ := hpow
  unfold loggerOffset
  rw [hk, and_two_pow_sub_one_eq_mod]

lemma loggerOffset_eq (h : log.Sized) (n : Nat) :
    loggerOffset log n = n % log.size := loggerOffset_eq_mod h.pow n

/-! ### Entries -/

structure IsEntry (e : Entry) : Prop where
  header : entrySize < e.length
  fits : e.length ≤ entryMaxLen
  len : ∃ a b, e[0]? = some a ∧ e[1]? = some b ∧ e.length = entrySize + (a.toNat + 256 * b.toNat)

lemma length_headerBytes (n : Nat) (st : Stamp) : (headerBytes n st).length = entrySize := rfl

lemma isEntry_append (st : Stamp) (hxs : xs.length = n) (hpos : 0 < n) (hn : n ≤ entryMaxPayload) :
    IsEntry (headerBytes n st ++ xs) := by
  have hlen : (headerBytes n st ++ xs).length = entrySize + n := by
    rw [length_append, length_headerBytes, hxs]
  refine ⟨by omega, ?_, BitVec.ofNat 8 n, BitVec.ofNat 8 (n / 256), rfl, rfl, ?_⟩
  · unfold entryMaxPayload entryMaxLen entrySize at *
    omega
  -- Both bytes of the length count, since a payload is shorter than `2 ^ 16`.
  have h16 : n < 65536 := by
    unfold entryMaxPayload entryMaxLen entrySize at hn
    omega
  rw [BitVec.toNat_ofNat, BitVec.toNat_ofNat]
  omega

/-- Whole entries stand in the ring from an offset to `w_off`, and they do not fill it. -/
structure ChainAt (log : Log) (off : Nat) (es : List Entry) : Prop where
  lt : off < log.size
  holds : RingHolds log.buffer log.size off es.flatten
  room : es.flatten.length < log.size
  ends : (off + es.flatten.length) % log.size = log.wOff
  entries : ∀ e ∈ es, IsEntry e

section
variable {log log' : Log} {off : Nat} {e : Entry} {es : List Entry}

lemma ChainAt.wOff_lt (h : ChainAt log off es) : log.wOff < log.size := by
  rw [← h.ends]
  exact mod_lt _ (by have := h.lt; omega)

lemma ChainAt.nil (h : log.wOff < log.size) : ChainAt log log.wOff [] where
  lt := h
  holds := RingHolds.nil
  room := by
    show 0 < _
    omega
  ends := mod_eq_of_lt h
  entries := by
    intro e he
    cases he

lemma getEntryLen_eq (h : RingHolds log.buffer log.size off e) (hoff : off < log.size)
    (he : IsEntry e) (hfits : e.length < log.size) : getEntryLen log off = e.length := by
  obtain ⟨a, b, ha, hb, hlen⟩ := he.len
  have hheader := he.header
  have h0 : log.buffer off = a := by
    have hcell := h 0 a ha
    rwa [add_zero, mod_eq_of_lt hoff] at hcell
  have h1 := h 1 b hb
  rw [ring_index hoff (by omega)] at h1
  unfold getEntryLen
  rw [hlen, h0]
  -- The second byte is at the start of the buffer if the first is the last byte of the ring.
  split
  · next hend =>
    rw [if_neg (by omega), show off + 1 - log.size = 0 by omega] at h1
    rw [h1]
  · next hend =>
    rw [if_pos (by omega)] at h1
    rw [h1]

lemma entryAt_eq (hs : log.Sized) (h : RingHolds log.buffer log.size off e)
    (hlen : getEntryLen log off = e.length) : entryAt log off = e := by
  apply ext_getElem?
  intro i
  unfold entryAt
  rw [getElem?_map, hlen]
  cases hx : e[i]? with
  | none =>
    rw [getElem?_eq_none (by simpa using hx)]
    rfl
  | some x =>
    obtain ⟨hi, -⟩ := List.getElem?_eq_some_iff.mp hx
    rw [List.getElem?_range hi, Option.map_some, loggerOffset_eq hs]
    exact congrArg some (h i x hx)

lemma ChainAt.cons (hs : log.Sized) (h : ChainAt log off (e :: es)) :
    off ≠ log.wOff ∧ getEntryLen log off = e.length ∧ entryAt log off = e ∧
      ChainAt log (loggerOffset log (off + e.length)) es := by
  obtain ⟨hlt, hholds, hroom, hends, hentries⟩ := h
  rw [flatten_cons, length_append] at hroom hends
  rw [flatten_cons, ringHolds_append] at hholds
  have he := hentries e mem_cons_self
  have hheader := he.header
  have hlen := getEntryLen_eq hholds.1 hlt he (by omega)
  refine ⟨?_, hlen, entryAt_eq hs hholds.1 hlen, ?_⟩
  · -- The entries are not empty and do not fill the ring, so they do not end where they start.
    rw [← hends, ring_index hlt (by omega)]
    split <;> omega
  rw [loggerOffset_eq hs]
  refine ⟨mod_lt _ (by omega), hholds.2, by omega, ?_, ?_⟩
  · rw [ring_shift, hends]
  · intro d hd
    exact hentries d (mem_cons_of_mem _ hd)

lemma ChainAt.reads (hs : log.Sized) (h : ChainAt log off es) : Reads log off es := by
  induction es generalizing off with
  | nil =>
    have hends := h.ends
    rwa [flatten_nil, length_nil, add_zero, mod_eq_of_lt h.lt] at hends
  | cons e es ih =>
    obtain ⟨hne, hlen, hat, hrest⟩ := h.cons hs
    refine ⟨hne, hat, ?_⟩
    rw [hlen]
    exact ih hrest

/-! ### `fix_up_readers` -/

/-- The loop leaves whole entries behind, and the ones that are left are shorter by what it
counts. -/
theorem getNextEntryLoop_chain (hs : log.Sized) (h : ChainAt log off es)
    (hcount : count < len) (hlen : len - count ≤ es.flatten.length) :
    ∃ j, j ≤ es.length ∧ ChainAt log (getNextEntryLoop log len off count) (es.drop j) ∧
      (es.drop j).flatten.length + (len - count) ≤ es.flatten.length := by
  induction es generalizing off count with
  | nil =>
    rw [flatten_nil, length_nil] at hlen
    omega
  | cons e es ih =>
    obtain ⟨-, hentry, -, hrest⟩ := h.cons hs
    rw [flatten_cons, length_append] at hlen ⊢
    rw [getNextEntryLoop, hentry]
    split
    · next hmore =>
      obtain ⟨j, hj, hchain, hleft⟩ := ih hrest hmore (by omega)
      refine ⟨j + 1, succ_le_succ hj, hchain, ?_⟩
      rw [drop_succ_cons]
      omega
    · next hdone =>
      refine ⟨1, by simp, hrest, ?_⟩
      rw [drop_one, tail_cons]
      omega

/-- An offset is crossed if and only if the entries behind it leave the new entry no room. -/
theorem clockInterval_eq (h : ChainAt log off es) (hlen : len < log.size) :
    clockInterval log.wOff ((log.wOff + len) % log.size) off =
      decide (log.size ≤ es.flatten.length + len) := by
  have hw := h.wOff_lt
  have hlt := h.lt
  have hroom := h.room
  have hends := h.ends
  rw [ring_index hlt hroom] at hends
  rw [ring_index hw hlen]
  unfold clockInterval
  split at hends <;> split <;> split <;> simp only [decide_eq_decide] <;> omega

lemma ChainAt.fixUp (hs : log.Sized) (h : ChainAt log off es) (hpos : 0 < len)
    (hlen : len ≤ entryMaxLen) : ∃ j, j ≤ es.length ∧ ChainAt log (fixUp log len off) (es.drop j) ∧
      (es.drop j).flatten.length + len < log.size ∧
        (es.flatten.length + len < log.size → j = 0) := by
  have hlarge := hs.large
  have hroom := h.room
  unfold Logger.fixUp
  rw [loggerOffset_eq hs, clockInterval_eq h (by omega)]
  by_cases hfull : log.size ≤ es.flatten.length + len
  · -- The entries behind a crossed offset are longer than the new one, so the loop ends among them.
    rw [if_pos (decide_eq_true hfull)]
    obtain ⟨j, hj, hchain, hleft⟩ := getNextEntryLoop_chain hs h hpos (by omega)
    exact ⟨j, hj, hchain, by omega, by omega⟩
  · rw [if_neg (by simpa using hfull)]
    exact ⟨0, by omega, h, by simpa using hfull, fun _ => rfl⟩

/-! ### Copies into the ring -/

/-- The two logs differ in the ring only, and there in `n` bytes behind `w_off` and in `w_off`. -/
structure Writes (log : Log) (n : Nat) (log' : Log) : Prop where
  size_eq : log'.size = log.size
  head : log'.head = log.head
  readers : log'.readers = log.readers
  touches : RingTouches log.buffer log.size log.wOff n log'.buffer

structure Appends (log : Log) (xs : List (BitVec 8)) (log' : Log) : Prop
    extends Writes log xs.length log' where
  holds : RingHolds log'.buffer log.size log.wOff xs
  wOff : log'.wOff = (log.wOff + xs.length) % log.size

lemma Log.Sized.of_writes (hs : log.Sized) (h : Writes log n log') : log'.Sized := by
  obtain ⟨hpow, hlarge⟩ := hs
  exact ⟨by rwa [h.size_eq], by rwa [h.size_eq]⟩

lemma Appends.trans {ys : List (BitVec 8)} (h1 : Appends log xs log1)
    (h2 : Appends log1 ys log2) (hsize : xs.length + ys.length ≤ log.size) :
    Appends log (xs ++ ys) log2 := by
  have hw2 : RingWrites log1.buffer log.size ((log.wOff + xs.length) % log.size) ys
      log2.buffer := by
    rw [← h1.wOff, ← h1.size_eq]
    exact ⟨h2.holds, h2.touches⟩
  have hw := RingWrites.append ⟨h1.holds, h1.touches⟩ hw2 hsize
  refine ⟨⟨?_, ?_, ?_, hw.touches⟩, hw.holds, ?_⟩
  · rw [h2.size_eq, h1.size_eq]
  · rw [h2.head, h1.head]
  · rw [h2.readers, h1.readers]
  · rw [h2.wOff, h1.size_eq, h1.wOff, ring_shift, length_append]

lemma Appends.writes (h1 : Appends log xs log1) (h2 : Writes log1 n log2) :
    Writes log (xs.length + n) log2 := by
  have htouch : RingTouches log1.buffer log.size ((log.wOff + xs.length) % log.size) n
      log2.buffer := by
    rw [← h1.wOff, ← h1.size_eq]
    exact h2.touches
  refine ⟨?_, ?_, ?_, (h1.touches.mono (Nat.le_add_right _ _)).trans htouch.shift⟩
  · rw [h2.size_eq, h1.size_eq]
  · rw [h2.head, h1.head]
  · rw [h2.readers, h1.readers]

lemma ChainAt.writes (h : ChainAt log off es) (hw : Writes log n log')
    (hroom : es.flatten.length + n < log.size) :
    RingHolds log'.buffer log'.size off es.flatten := by
  rw [hw.size_eq]
  exact hw.touches.holds h.holds h.ends (by omega)

lemma ChainAt.append (h : ChainAt log off es) (he : IsEntry e) (hw : Appends log e log')
    (hroom : es.flatten.length + e.length < log.size) : ChainAt log' off (es ++ [e]) := by
  have hflat : (es ++ [e]).flatten = es.flatten ++ e := by
    rw [flatten_append, flatten_singleton]
  refine ⟨?_, ?_, ?_, ?_, ?_⟩
  · rw [hw.size_eq]
    exact h.lt
  · rw [hflat, ringHolds_append]
    refine ⟨h.writes hw.toWrites hroom, ?_⟩
    rw [hw.size_eq, h.ends]
    exact hw.holds
  · rw [hflat, length_append, hw.size_eq]
    exact hroom
  · rw [hflat, length_append, hw.size_eq, hw.wOff, ← h.ends, ring_shift]
  intro d hd
  rcases mem_append.mp hd with hd | hd
  · exact h.entries d hd
  · rw [mem_singleton.mp hd]
    exact he

lemma ChainAt.undone (h : ChainAt log off es) (hw : Writes log n log')
    (hback : log'.wOff = log.wOff) (hroom : es.flatten.length + n < log.size) :
    ChainAt log' off es :=
  ⟨by rw [hw.size_eq]; exact h.lt, h.writes hw hroom, by rw [hw.size_eq]; exact h.room,
    by rw [hw.size_eq, hback]; exact h.ends, h.entries⟩

lemma store_twice (log : Log) (xs : List (BitVec 8)) :
    (if xs.length ≠ min xs.length (log.size - log.wOff) then
        store (store log.buffer log.wOff (xs.take (min xs.length (log.size - log.wOff)))) 0
          (xs.drop (min xs.length (log.size - log.wOff)))
      else store log.buffer log.wOff (xs.take (min xs.length (log.size - log.wOff)))) =
      store (store log.buffer log.wOff (xs.take (log.size - log.wOff))) 0
        (xs.drop (log.size - log.wOff)) := by
  by_cases hfits : xs.length ≤ log.size - log.wOff
  · rw [min_eq_left hfits, if_neg (by simp), take_of_length_le (le_refl _),
      take_of_length_le hfits, drop_eq_nil_of_le hfits, store_nil]
  · rw [min_eq_right (by omega), if_pos (by omega)]

section
variable (hs : log.Sized) (hw : log.wOff < log.size)
include hs hw

lemma appends_store (hlen : xs.length ≤ log.size) : Appends log xs { log with
        buffer := store (store log.buffer log.wOff (xs.take (log.size - log.wOff))) 0
          (xs.drop (log.size - log.wOff)), wOff := loggerOffset log (log.wOff + xs.length) } := by
  have hring := ringWrites_split log.buffer hw hlen
  exact ⟨⟨rfl, rfl, rfl, hring.touches⟩, hring.holds, loggerOffset_eq hs _⟩

lemma doWriteLog_appends (hlen : xs.length ≤ log.size) : Appends log xs (doWriteLog log xs) := by
  have happ := appends_store hs hw hlen
  rw [← store_twice log] at happ
  exact happ

lemma doWriteLogFromUser_cases (seg : Segment)
    (hcount : count ≤ seg.data.length) (hlen : count ≤ log.size) {r : Int × Log}
    (hrun : doWriteLogFromUser log seg count = r) :
    (r.1 = count ∧ Appends log (seg.data.take count) r.2) ∨
      (r.1 = - EFAULT ∧ Writes log count r.2) := by
  have hfirst : (seg.data.take count).length = count := length_take_of_le hcount
  unfold doWriteLogFromUser at hrun
  dsimp only at hrun
  split at hrun
  · -- The first copy fails, with some bytes at `w_off`.
    next junk _ =>
      subst hrun
      refine .inr ⟨rfl, rfl, rfl, rfl, ?_⟩
      generalize hxs : junk.take (min count (log.size - log.wOff)) = xs
      have hbound : xs.length ≤ count := by
        rw [← hxs, length_take]
        omega
      have htouch : RingTouches log.buffer log.size log.wOff (xs.length + 0)
          (store (store log.buffer log.wOff xs) 0 []) :=
        ringTouches_split log.buffer hw (.inr rfl) (Nat.zero_le _)
      exact htouch.mono hbound
  · -- The second copy fails, with some bytes at the start of the buffer.
    next junk _ hfault =>
      have hwrap : count ≠ min count (log.size - log.wOff) := by
        intro heq
        rw [if_neg (by simpa using heq)] at hfault
        cases hfault
      have hmin : min count (log.size - log.wOff) = log.size - log.wOff := by omega
      rw [hmin] at hrun
      subst hrun
      refine .inr ⟨rfl, rfl, rfl, rfl, ?_⟩
      have hfull : (seg.data.take (log.size - log.wOff)).length = log.size - log.wOff :=
        length_take_of_le (by omega)
      have hrest : (junk.take (count - (log.size - log.wOff))).length ≤
          count - (log.size - log.wOff) := length_take_le _ _
      exact (ringTouches_split log.buffer hw (.inl hfull) (by omega)).mono (by omega)
  · subst hrun
    have happ := appends_store hs hw (by rwa [hfirst])
    rw [← store_twice log, hfirst, take_take, Nat.min_eq_left (Nat.min_le_left _ _)] at happ
    exact .inl ⟨rfl, happ⟩

/-- The loop over the segments appends what is left of the payload, or it fails with `w_off` at
`orig` and touches only the place of the payload. -/
theorem writeSegments_cases (orig : Nat) {headerLen ret : Nat} (iov : List Segment)
    (hlen : headerLen ≤ log.size) (hret : ret ≤ headerLen)
    (hleft : headerLen - ret ≤ (payload iov).length) {r : Int × Log}
    (hr : writeSegments orig headerLen ret iov log = r) :
    (r.1 = headerLen ∧ Appends log ((payload iov).take (headerLen - ret)) r.2) ∨
      (r.1 = - EFAULT ∧ r.2.wOff = orig ∧ Writes log (headerLen - ret) r.2) := by
  subst hr
  induction iov generalizing log ret with
  | nil =>
    have hdone : headerLen = ret := by
      have : headerLen - ret ≤ 0 := hleft
      omega
    subst hdone
    refine .inl ⟨rfl, ?_⟩
    rw [show (payload []).take (headerLen - headerLen) = [] from take_nil]
    exact ⟨⟨rfl, rfl, rfl, RingTouches.refl⟩, RingHolds.nil, (mod_eq_of_lt hw).symm⟩
  | cons seg iov ih =>
    have hpayload : payload (seg :: iov) = seg.data ++ payload iov := rfl
    rw [hpayload, length_append] at hleft
    obtain ⟨count, hcount⟩ : ∃ count, count = min seg.data.length (headerLen - ret) := ⟨_, rfl⟩
    have htake : (seg.data.take count).length = count := length_take_of_le (by omega)
    have hcopy := doWriteLogFromUser_cases hs hw seg (show count ≤ seg.data.length by omega)
      (by omega) rfl
    rw [writeSegments, ← hcount]
    generalize doWriteLogFromUser log seg count = result at hcopy
    obtain ⟨nr, log1⟩ := result
    rcases hcopy with ⟨hnr, happ⟩ | ⟨hnr, hwrites⟩
    · have hw1 : log1.wOff < log1.size := by
        rw [happ.size_eq, happ.wOff]
        exact mod_lt _ (by omega)
      rw [if_neg (by omega), hpayload, take_append]
      -- The part of the payload in this segment is the whole segment or all that is left.
      have hpart : seg.data.take (headerLen - ret) = seg.data.take count := by
        rcases le_total seg.data.length (headerLen - ret) with h | h
        · rw [hcount, min_eq_left h, take_length, take_of_length_le h]
        · rw [hcount, min_eq_right h]
      have hrest : headerLen - ret - seg.data.length = headerLen - (ret + count) := by omega
      rw [hpart, hrest]
      have hlen1 : headerLen ≤ log1.size := by rwa [happ.size_eq]
      rcases ih (hs.of_writes happ.toWrites) hw1 hlen1 (show ret + count ≤ headerLen by omega)
        (by omega) with ⟨hrun, happ'⟩ | ⟨hrun, hback, hwrites⟩
      · refine .inl ⟨hrun, happ.trans happ' ?_⟩
        rw [htake, length_take]
        omega
      · refine .inr ⟨hrun, hback, ?_⟩
        have hboth := happ.writes hwrites
        rwa [htake, show count + (headerLen - (ret + count)) = headerLen - ret by omega] at hboth
    · rw [if_pos (by rw [hnr]; decide)]
      obtain ⟨hsize, hhead, hreaders, htouch⟩ := hwrites
      exact .inr ⟨hnr, rfl, hsize, hhead, hreaders, htouch.mono (by omega)⟩

end

lemma length_entryOf (st : Stamp) (iov : List Segment) :
    (entryOf st iov).length = entrySize + min (payload iov).length entryMaxPayload := by
  unfold entryOf
  rw [length_append, length_headerBytes, length_take_of_le (min_le_left _ _)]

lemma isEntry_entryOf (st : Stamp) (hpos : 0 < (payload iov).length) :
    IsEntry (entryOf st iov) := by
  have hmax : 0 < entryMaxPayload := by decide
  exact isEntry_append st (length_take_of_le (min_le_left _ _)) (by omega) (min_le_right _ _)

/-- A write of a payload that is not empty: the entry is appended behind the readers that were fixed
up, or the write fails with `w_off` at `orig`. -/
theorem loggerAioWrite_cases (orig : Nat) (st : Stamp) (hs : log.Sized)
    (hw : log.wOff < log.size) (hpos : 0 < (payload iov).length) {r : Int × Log}
    (hr : loggerAioWrite log orig (payload iov).length st iov = r) :
    (0 < r.1 ∧ Appends (fixUpReaders log (entryOf st iov).length) (entryOf st iov) r.2) ∨
      (r.1 = - EFAULT ∧ r.2.wOff = orig ∧
        Writes (fixUpReaders log (entryOf st iov).length) (entryOf st iov).length r.2) := by
  have hmax : 0 < entryMaxPayload ∧ entrySize + entryMaxPayload ≤ entryMaxLen := by decide
  have hlarge := hs.large
  obtain ⟨n, hn⟩ : ∃ n, n = min (payload iov).length entryMaxPayload := ⟨_, rfl⟩
  have hentry : entryOf st iov = headerBytes n st ++ (payload iov).take n := by
    rw [hn]
    rfl
  have hlen : (entryOf st iov).length = entrySize + n := by rw [length_entryOf, hn]
  have hrun : loggerAioWrite log orig (payload iov).length st iov = writeSegments orig n 0 iov
        (doWriteLog (fixUpReaders log (entryOf st iov).length) (headerBytes n st)) := by
    rw [hlen, hn]
    exact if_neg (by omega)
  rw [hrun, hlen] at hr
  rw [hlen, hentry]
  generalize hfixed : fixUpReaders log (entrySize + n) = fixed at hr ⊢
  have hsize : fixed.size = log.size := by rw [← hfixed]; rfl
  have hs1 : fixed.Sized := by rw [← hfixed]; exact ⟨hs.pow, hs.large⟩
  have hw1 : fixed.wOff < fixed.size := by rw [← hfixed]; exact hw
  have hheader : Appends fixed (headerBytes n st) (doWriteLog fixed (headerBytes n st)) :=
    doWriteLog_appends hs1 hw1 (by rw [length_headerBytes]; omega)
  generalize doWriteLog fixed (headerBytes n st) = log1 at hheader hr
  have hw2 : log1.wOff < log1.size := by
    rw [hheader.size_eq, hheader.wOff]
    exact mod_lt _ (by omega)
  rcases writeSegments_cases (hs1.of_writes hheader.toWrites) hw2 orig iov
    (show n ≤ log1.size by rw [hheader.size_eq]; omega) (Nat.zero_le n) (by omega) hr with
    ⟨hret, happ⟩ | ⟨hret, hback, hwrites⟩
  · refine .inl ⟨by omega, hheader.trans happ ?_⟩
    rw [length_headerBytes, length_take]
    omega
  · exact .inr ⟨hret, hback, hheader.writes hwrites⟩

end

end Wm8850.Logger
