import Mathlib.Data.List.Forall2
import Wm8850.Proofs.Logger.Read

/-! # Every offset stands at an entry

`Consistent`: from `head` and from every reader, whole entries stand in the ring, the last ones that
were written, and a reader was given earlier ones in order. With several writers a write can fail
and put `w_off` back behind the entry of another (`failed_write_takes_back`). -/

namespace Wm8850.Logger

open Lib Function List

variable {iov : List Segment} {orig : Nat} {st : Stamp}

/-- An offset stands before the entry with the number `k` of those that were written. -/
structure Stands (s : State) (off k : Nat) : Prop where
  le : k ≤ s.written.length
  chain : ChainAt s.log off (s.written.drop k)

/-- The user's buffer has the header of the entry, and all of the entry with `thread_msec` at the
end unless the ring ended in its payload. -/
def Sight.Shows (v : Sight) (e : Entry) : Prop :=
  (∀ p < threadOffset, v.mem p = e.getD p 0) ∧
    (e.length ≤ v.split ∨ v.split ≤ entrySize →
      ∀ p, p < e.length - threadtimeSize ∨ e.length ≤ v.count ∧ p < e.length →
        v.mem p = e.getD (sourceIndex e.length p) 0)

/-- What was given are some of these entries, in this order. -/
def Saw (sights : List Sight) (es : List Entry) : Prop :=
  ∃ seen, seen.Sublist es ∧ List.Forall₂ Sight.Shows sights seen

/-- What holds between two calls. -/
structure Consistent (s : State) : Prop where
  sized : s.log.Sized
  head : ∃ k, Stands s s.log.head k
  readers : ∀ r ∈ s.log.readers, ∃ k, Stands s r.rOff k ∧ Saw (s.seen r.id) (s.written.take k)

/-- An offset, and where it stands after a write of `n` bytes: it passed whole entries of those that
were there, the oldest ones behind it, and none if there was room for the write. -/
def Moved (s t : State) (n off off' : Nat) : Prop :=
  ∃ k j, k + j ≤ s.written.length ∧ Reads s.log off (s.written.drop k) ∧
    Reads t.log off' (t.written.drop (k + j)) ∧
    ((s.written.drop k).flatten.length + n < s.log.size → j = 0)

/-- `head` and every reader moved like that. -/
def AllMoved (s t : State) (n : Nat) : Prop :=
  Moved s t n s.log.head t.log.head ∧
    List.Forall₂ (fun r r' => r'.id = r.id ∧ Moved s t n r.rOff r'.rOff) s.log.readers t.log.readers

section
variable {s t : State} {off k n : Nat}

lemma Consistent.wOff_lt (h : Consistent s) : s.log.wOff < s.log.size := by
  obtain ⟨k, hk⟩ := h.head
  exact hk.chain.wOff_lt

lemma Stands.reads (hs : s.log.Sized) (h : Stands s off k) : Reads s.log off (s.written.drop k) :=
  h.chain.reads hs

/-! ### A write -/

def Undone (s : State) (orig : Nat) (st : Stamp) (iov : List Segment) : Prop :=
  WriteFails s orig st iov → orig = s.log.wOff

lemma wrote_of_empty (s : State) (orig : Nat) (st : Stamp) (h : (payload iov).length = 0) :
    s.wrote orig st iov = s := by
  unfold State.wrote loggerAioWrite
  rw [h]
  rfl

section
variable (h : Consistent s) (hpos : 0 < (payload iov).length)
include h hpos

lemma wrote_cases (orig : Nat) :
    (Appends (fixUpReaders s.log (entryOf st iov).length) (entryOf st iov)
      (s.wrote orig st iov).log ∧
        (s.wrote orig st iov).written = s.written ++ [entryOf st iov]) ∨
      (WriteFails s orig st iov ∧ (s.wrote orig st iov).log.wOff = orig ∧
        (s.wrote orig st iov).written = s.written ∧
        Writes (fixUpReaders s.log (entryOf st iov).length) (entryOf st iov).length
          (s.wrote orig st iov).log) := by
  rcases loggerAioWrite_cases orig st h.sized h.wOff_lt hpos rfl with ⟨hret, happ⟩
    | ⟨hret, hback, hwrites⟩
  · exact .inl ⟨happ, if_pos hret⟩
  · have hneg : (loggerAioWrite s.log orig (payload iov).length st iov).1 < 0 := by
      rw [hret]
      decide
    exact .inr ⟨hneg, hback, if_neg (by omega), hwrites⟩

lemma wrote_writes (orig : Nat) (st : Stamp) :
    Writes (fixUpReaders s.log (entryOf st iov).length)
      (entryOf st iov).length (s.wrote orig st iov).log := by
  rcases wrote_cases h hpos orig with ⟨happ, -⟩ | ⟨-, -, -, hwrites⟩
  · exact happ.toWrites
  · exact hwrites

lemma Stands.wrote (hundone : Undone s orig st iov) (hk : Stands s off k) :
    ∃ j, k + j ≤ s.written.length ∧
      Stands (s.wrote orig st iov) (fixUp s.log (entryOf st iov).length off) (k + j) ∧
      ((s.written.drop k).flatten.length + (entryOf st iov).length < s.log.size → j = 0) := by
  have he := isEntry_entryOf st hpos
  obtain ⟨j, hj, hchain, hroom, hzero⟩ :=
    hk.chain.fixUp h.sized (by have := he.header; omega) he.fits
  rw [drop_drop] at hchain hroom
  rw [length_drop] at hj
  have hle := hk.le
  -- The chain does not see `head` and the readers, so it is one of the log after `fix_up_readers`
  -- too.
  have hfixed : ChainAt (fixUpReaders s.log (entryOf st iov).length)
      (fixUp s.log (entryOf st iov).length off) (s.written.drop (k + j)) :=
    ⟨hchain.lt, hchain.holds, hchain.room, hchain.ends, hchain.entries⟩
  refine ⟨j, by omega, ?_, hzero⟩
  rcases wrote_cases h hpos orig with ⟨happ, hwritten⟩ | ⟨hfails, hback, hwritten, hwrites⟩
  · refine ⟨?_, ?_⟩
    · rw [hwritten, length_append]
      omega
    · rw [hwritten, drop_append_of_le_length (by omega)]
      exact hfixed.append he happ hroom
  · refine ⟨by rw [hwritten]; omega, ?_⟩
    rw [hwritten]
    exact hfixed.undone hwrites (hback.trans (hundone hfails)) hroom

end

lemma Saw.mono {sights : List Sight} {es es' : List Entry} (h : Saw sights es)
    (hsub : es.Sublist es') : Saw sights es' := by
  obtain ⟨seen, hseen, hshows⟩ := h
  exact ⟨seen, hseen.trans hsub, hshows⟩

lemma Saw.append {sights : List Sight} {es : List Entry} {v : Sight} {e : Entry} (h : Saw sights es)
    (hv : v.Shows e) : Saw (sights ++ [v]) (es ++ [e]) := by
  obtain ⟨seen, hseen, hshows⟩ := h
  exact ⟨seen ++ [e], hseen.append (List.Sublist.refl _), rel_append hshows (.cons hv .nil)⟩

lemma take_sublist_wrote (hk : k ≤ s.written.length) (j : Nat) :
    (s.written.take k).Sublist ((s.wrote orig st iov).written.take (k + j)) := by
  obtain ⟨more, hmore⟩ : ∃ more, (s.wrote orig st iov).written = s.written ++ more := by
    unfold State.wrote
    dsimp only
    split
    · exact ⟨_, rfl⟩
    · exact ⟨[], (append_nil _).symm⟩
  have hpre : s.written.take k = (s.written ++ more).take k := (take_append_of_le_length hk).symm
  rw [hmore, hpre]
  exact (take_prefix_take_left (Nat.le_add_right k j)).sublist

lemma Consistent.wrote (h : Consistent s) (hundone : Undone s orig st iov) :
    Consistent (s.wrote orig st iov) := by
  rcases Nat.eq_zero_or_pos (payload iov).length with hzero | hpos
  · rw [wrote_of_empty s orig st hzero]
    exact h
  have hwrites := wrote_writes h hpos orig st
  refine ⟨?_, ?_, ?_⟩
  · have hsized : (fixUpReaders s.log (entryOf st iov).length).Sized := ⟨h.sized.pow, h.sized.large⟩
    exact hsized.of_writes hwrites
  · obtain ⟨k, hk⟩ := h.head
    obtain ⟨j, -, hj, -⟩ := hk.wrote h hpos hundone
    rw [hwrites.head]
    exact ⟨k + j, hj⟩
  intro r' hr'
  rw [hwrites.readers] at hr'
  obtain ⟨r, hr, rfl⟩ := mem_map.mp hr'
  obtain ⟨k, hk, hseen⟩ := h.readers r hr
  obtain ⟨j, -, hj, -⟩ := hk.wrote h hpos hundone
  exact ⟨k + j, hj, hseen.mono (take_sublist_wrote hk.le j)⟩

lemma AllMoved.refl (h : Consistent s) : AllMoved s s n := by
  have hmoved : ∀ {off k}, Stands s off k → Moved s s n off off := fun hk =>
    ⟨_, 0, hk.le, hk.reads h.sized, hk.reads h.sized, fun _ => rfl⟩
  obtain ⟨k, hk⟩ := h.head
  refine ⟨hmoved hk, forall₂_same.mpr ?_⟩
  intro r hr
  obtain ⟨k, hk, -⟩ := h.readers r hr
  exact ⟨rfl, hmoved hk⟩

lemma loggerRead_error {log : Log} {rOff count : Nat} {answers : List (Option Nat)} {mem : Bytes}
    (herr : (loggerRead log rOff count answers mem).1 < 0) :
    (loggerRead log rOff count answers mem).2.1 = rOff := by
  generalize hrun : loggerRead log rOff count answers mem = r at herr
  unfold loggerRead doReadLogToUser at hrun
  dsimp only at hrun
  split at hrun
  · rw [← hrun]
  split at hrun
  · rw [← hrun]
  split at hrun
  · rw [← hrun]
  · rw [← hrun] at herr
    exact absurd herr (Int.not_lt.mpr (Int.natCast_nonneg _))

lemma entryAt_getD (log : Log) {rOff i : Nat} (hi : i < getEntryLen log rOff) :
    (entryAt log rOff).getD i 0 = log.buffer (loggerOffset log (rOff + i)) := by
  rw [List.getD_eq_getElem?_getD, entryAt, getElem?_map, getElem?_range hi]
  rfl

lemma sourceIndex_lt {len p : Nat} (hlen : entrySize ≤ len) (hp : p < len) :
    sourceIndex len p < len := by
  unfold sourceIndex threadOffset threadtimeSize
  unfold entrySize at hlen ⊢
  split_ifs <;> omega

/-- The user is given the entry at the offset of the read. -/
lemma loggerRead_shows {log : Log} {rOff count : Nat} {answers : List (Option Nat)} {mem : Bytes}
    (hs : log.Sized) (hoff : rOff < log.size) (hfits : getEntryLen log rOff ≤ log.size)
    (hok : 0 ≤ (loggerRead log rOff count answers mem).1) :
    Sight.Shows ⟨log.size - rOff, count, (loggerRead log rOff count answers mem).2.2⟩
      (entryAt log rOff) := by
  have hlen := entrySize_le_getEntryLen log rOff
  have hlength : (entryAt log rOff).length = getEntryLen log rOff := by simp [entryAt]
  obtain ⟨-, -, hrun⟩ := loggerRead_of_ok hok
  -- a place that is copied in order has the byte of the entry that belongs there
  have hplace : ∀ p, p < getEntryLen log rOff - threadtimeSize ∨
        getEntryLen log rOff ≤ count ∧ p < getEntryLen log rOff →
      InOnePiece log.size rOff (getEntryLen log rOff) ∨ p < threadOffset →
      (loggerRead log rOff count answers mem).2.2 p =
        (entryAt log rOff).getD (sourceIndex (getEntryLen log rOff) p) 0 := by
    intro p hp hpiece
    have hlt : p < getEntryLen log rOff := by omega
    rw [hrun, entryAt_getD log (sourceIndex_lt hlen hlt)]
    exact (readCopies_rearranged hs.pow hoff hfits hpiece _ mem).trans (if_pos (by simpa using hp))
  constructor
  · intro p hp
    dsimp only
    have hfirst : p < getEntryLen log rOff - threadtimeSize := by
      unfold threadtimeSize
      unfold threadOffset at hp
      unfold entrySize at hlen
      omega
    rw [hplace p (.inl hfirst) (.inr hp), sourceIndex, if_pos hp]
  · rw [hlength]
    intro hsplit p hp
    refine hplace p hp (.inl (hsplit.imp_left fun hle => ?_))
    dsimp only at hle
    omega

section
variable (h : Consistent s)
include h

/-- An offset that is not at `w_off` stands before an entry, and behind it is the next one. -/
lemma Stands.next (hk : Stands s off k) (hne : off ≠ s.log.wOff) :
    s.written.take (k + 1) = s.written.take k ++ [entryAt s.log off] ∧
      s.written[k]? = some (entryAt s.log off) ∧ getEntryLen s.log off ≤ s.log.size ∧
      Stands s (loggerOffset s.log (off + getEntryLen s.log off)) (k + 1) := by
  have hlt : k < s.written.length := by
    by_contra hge
    have hnil := hk.reads h.sized
    rw [drop_eq_nil_of_le (by omega)] at hnil
    exact hne hnil
  have hchain := hk.chain
  rw [drop_eq_getElem_cons hlt] at hchain
  obtain ⟨-, hlen, hat, hrest⟩ := hchain.cons h.sized
  have hroom := hchain.room
  rw [flatten_cons, length_append] at hroom
  rw [hlen, hat]
  exact ⟨take_succ_eq_append_getElem hlt, getElem?_eq_getElem hlt, by omega, hlt, hrest⟩

/-- A read that returns no error gives the user the next entry and leaves its offset behind it. -/
lemma Stands.read {count : Nat} {answers : List (Option Nat)} {mem : Bytes} (hk : Stands s off k)
    (hok : 0 ≤ (loggerRead s.log off count answers mem).1) :
    s.written.take (k + 1) = s.written.take k ++ [entryAt s.log off] ∧
      s.written[k]? = some (entryAt s.log off) ∧
      Stands s (loggerRead s.log off count answers mem).2.1 (k + 1) ∧
      Sight.Shows ⟨s.log.size - off, count, (loggerRead s.log off count answers mem).2.2⟩
        (entryAt s.log off) := by
  obtain ⟨hne, -, hrun⟩ := loggerRead_of_ok hok
  obtain ⟨htake, hget, hfits, hnext⟩ := hk.next h hne.symm
  refine ⟨htake, hget, ?_, loggerRead_shows h.sized hk.chain.lt hfits hok⟩
  rw [hrun]
  exact hnext

lemma Consistent.ofOffsets (hbuffer : t.log.buffer = s.log.buffer)
    (hsize : t.log.size = s.log.size) (hwOff : t.log.wOff = s.log.wOff)
    (hwritten : t.written = s.written) (hhead : ∃ k, Stands s t.log.head k)
    (hreaders : ∀ r ∈ t.log.readers, ∃ k, Stands s r.rOff k ∧
      Saw (t.seen r.id) (s.written.take k)) : Consistent t := by
  have hstands : ∀ {off k}, Stands s off k → Stands t off k := by
    intro off k hk
    refine ⟨by rw [hwritten]; exact hk.le, ?_⟩
    rw [hwritten]
    obtain ⟨hlt, hholds, hroom, hends, hentries⟩ := hk.chain
    exact ⟨by rwa [hsize], by rwa [hsize, hbuffer], by rwa [hsize], by rwa [hsize, hwOff], hentries⟩
  refine ⟨⟨by rw [hsize]; exact h.sized.pow, by rw [hsize]; exact h.sized.large⟩, ?_, ?_⟩
  · obtain ⟨k, hk⟩ := hhead
    exact ⟨k, hstands hk⟩
  · intro r hr
    obtain ⟨k, hk, hseen⟩ := hreaders r hr
    exact ⟨k, hstands hk, by rwa [hwritten]⟩

lemma Consistent.read {r : Reader} (hr : r ∈ s.log.readers) (count : Nat)
    (answers : List (Option Nat)) (mem : Bytes) : Consistent (s.read r count answers mem) := by
  obtain ⟨k, hk, hseen⟩ := h.readers r hr
  refine h.ofOffsets rfl rfl rfl rfl h.head ?_
  intro r' hr'
  obtain ⟨r0, hr0, rfl⟩ := mem_map.mp hr'
  unfold State.read
  dsimp only
  by_cases hid : r0.id = r.id
  · rw [if_pos hid]
    rw [hid]
    split
    next hok =>
      obtain ⟨htake, -, hnext, hshows⟩ := hk.read h hok
      rw [update_self]
      refine ⟨k + 1, hnext, ?_⟩
      rw [htake]
      exact hseen.append hshows
    next herr =>
      rw [loggerRead_error (by omega)]
      exact ⟨k, hk, hseen⟩
  rw [if_neg hid]
  obtain ⟨k0, hk0, hseen0⟩ := h.readers r0 hr0
  refine ⟨k0, hk0, ?_⟩
  split
  · rwa [update_of_ne hid]
  · exact hseen0

lemma Consistent.opened {id : Nat} (hfresh : ∀ r ∈ s.log.readers, r.id ≠ id) :
    Consistent (s.opened id) := by
  refine h.ofOffsets rfl rfl rfl rfl h.head ?_
  intro r hr
  rcases mem_append.mp hr with hr | hr
  · obtain ⟨k, hk, hseen⟩ := h.readers r hr
    refine ⟨k, hk, ?_⟩
    show Saw (update s.seen id [] r.id) _
    rwa [update_of_ne (hfresh r hr)]
  rw [mem_singleton.mp hr]
  obtain ⟨k, hk⟩ := h.head
  refine ⟨k, hk, ?_⟩
  show Saw (update s.seen id [] id) _
  rw [update_self]
  exact ⟨[], nil_sublist _, .nil⟩

lemma Consistent.release (id : Nat) : Consistent { s with log := loggerRelease s.log id } := by
  refine h.ofOffsets rfl rfl rfl rfl h.head ?_
  intro r hr
  exact h.readers r (mem_of_mem_filter hr)

lemma Consistent.flush : Consistent { s with log := loggerFlush s.log } := by
  have hend : Stands s s.log.wOff s.written.length := by
    refine ⟨le_refl _, ?_⟩
    rw [drop_length]
    exact ChainAt.nil h.wOff_lt
  refine h.ofOffsets rfl rfl rfl rfl ⟨_, hend⟩ ?_
  intro r' hr'
  obtain ⟨r, hr, rfl⟩ := mem_map.mp hr'
  obtain ⟨k, hk, hseen⟩ := h.readers r hr
  refine ⟨_, hend, hseen.mono ?_⟩
  rw [take_length]
  exact take_sublist _ _

lemma Consistent.readerStep {c : Call} (hstep : ReaderStep c s t) : Consistent t := by
  cases hstep with
  | read count answers mem hr => exact h.read hr count answers mem
  | openReader hfresh => exact h.opened hfresh
  | release id => exact h.release id
  | flush => exact h.flush

end

lemma Initial.consistent {size : Nat} (hpow : ∃ k, size = 2 ^ k) (hlarge : 2 * entryMaxLen ≤ size)
    (h : Initial size s) : Consistent s := by
  obtain ⟨hsize, hwOff, hhead, hreaders, hwritten⟩ := h
  have hpos : 0 < s.log.size := by
    have : 0 < entryMaxLen := by decide
    omega
  refine ⟨⟨by rwa [hsize], by rwa [hsize]⟩, ⟨0, Nat.zero_le _, ?_⟩, ?_⟩
  · have hnil : ChainAt s.log s.log.wOff [] := ChainAt.nil (by omega)
    rwa [hwritten, hhead, drop_nil, ← hwOff]
  · intro r hr
    rw [hreaders] at hr
    cases hr

end

/-! ### One call after the other -/

lemma consistent_of_reach {size : Nat} (hpow : ∃ k, size = 2 ^ k) (hlarge : 2 * entryMaxLen ≤ size)
    {s : State} (h : Reach (Initial size) Step s) : Consistent s := by
  refine Reach.invariant Consistent (fun s hs => hs.consistent hpow hlarge) ?_ h
  intro c s t hs hstep
  cases hstep with
  | aioWrite st iov => exact hs.wrote (fun _ => rfl)
  | reader hstep => exact hs.readerStep hstep

def emptyLog : State :=
  ⟨{ buffer := fun _ => 0, readers := [], wOff := 0, head := 0, size := 16384 }, [], fun _ => []⟩

lemma initial_emptyLog : Initial 16384 emptyLog := ⟨rfl, rfl, rfl, rfl, rfl⟩

def someStamp : Stamp := ⟨0, 3, 4, 0, 0, 9⟩

def letterA : List Segment := [⟨[65], none, none⟩]

lemma Consistent.calmStep {c : ThreadCall} {s t : Threads} (hs : Consistent s.state)
    (h : CalmStep c s t) : Consistent t.state := by
  obtain ⟨hstep, hcalm⟩ := h
  cases hstep with
  | sample writer => exact hs
  | critical st iov horig => exact hs.wrote fun hfails => (hcalm _ _ st iov rfl horig hfails).1
  | reader hstep => exact hs.readerStep hstep

/-- All entries that could be read can still be read from the same places, and `w_off` did not
move. -/
structure Keeps (s t : State) : Prop where
  wOff : t.log.wOff = s.log.wOff
  written : t.written = s.written
  head : t.log.head = s.log.head
  readers : t.log.readers = s.log.readers
  entries : ∀ off ∈ s.log.head :: s.log.readers.map Reader.rOff, ∃ k ≤ s.written.length,
    Reads s.log off (s.written.drop k) ∧ Reads t.log off (s.written.drop k)

lemma HasRoom.fixUp {log : Log} {len off : Nat} (h : HasRoom log len)
    (hoff : off ∈ log.head :: log.readers.map Reader.rOff) : fixUp log len off = off :=
  if_neg (by rw [h off hoff]; exact Bool.false_ne_true)

lemma HasRoom.fixUpReaders {log : Log} {len : Nat} (h : HasRoom log len) :
    fixUpReaders log len = log := by
  have hreaders : (log.readers.map fun r => { r with rOff := Logger.fixUp log len r.rOff })
      = log.readers := by
    refine (map_congr_left fun r hr => ?_).trans (map_id _)
    rw [h.fixUp (mem_cons_of_mem _ (mem_map_of_mem hr))]
    rfl
  unfold Logger.fixUpReaders
  rw [h.fixUp mem_cons_self, hreaders]

lemma WriteFails.pos {s : State} (h : WriteFails s orig st iov) : 0 < (payload iov).length := by
  refine Nat.pos_of_ne_zero fun hzero => ?_
  unfold WriteFails loggerAioWrite at h
  rw [hzero] at h
  exact Int.lt_irrefl 0 h

lemma Consistent.stands {s : State} {off : Nat} (hs : Consistent s)
    (hoff : off ∈ s.log.head :: s.log.readers.map Reader.rOff) : ∃ k, Stands s off k := by
  rcases mem_cons.mp hoff with rfl | hoff
  · exact hs.head
  · obtain ⟨r, hr, rfl⟩ := mem_map.mp hoff
    obtain ⟨k, hk, -⟩ := hs.readers r hr
    exact ⟨k, hk⟩

/-- A write that fails puts `w_off` back to where it was sampled. -/
lemma Consistent.wOff_of_fails {s : State} (hs : Consistent s) (hfails : WriteFails s orig st iov) :
    (s.wrote orig st iov).log.wOff = orig ∧ (s.wrote orig st iov).written = s.written := by
  have hwritten : (s.wrote orig st iov).written = s.written := by
    unfold WriteFails at hfails
    exact if_neg (by omega)
  refine ⟨?_, hwritten⟩
  rcases wrote_cases hs hfails.pos orig with ⟨-, happ⟩ | ⟨-, hback, -⟩
  · rw [hwritten] at happ
    simp at happ
  · exact hback

/-- An offset that `fix_up_readers` leaves where it is was not crossed. -/
lemma ChainAt.not_crossed {log : Log} {off len : Nat} {es : List Entry} (h : ChainAt log off es)
    (hs : log.Sized) (hpos : 0 < len) (hlen : len ≤ entryMaxLen)
    (hsame : Logger.fixUp log len off = off) :
    clockInterval log.wOff (loggerOffset log (log.wOff + len)) off = false := by
  obtain ⟨j, -, hchain, hroom, -⟩ := h.fixUp hs hpos hlen
  rw [hsame] at hchain
  -- The entries that are left lead from the same offset to `w_off`, so they are as long.
  have hends : off + es.flatten.length ≡ off + (es.drop j).flatten.length [MOD log.size] :=
    h.ends.trans hchain.ends.symm
  have hlength := (hends.add_left_cancel' off).eq_of_lt_of_lt h.room hchain.room
  have hlarge := hs.large
  rw [loggerOffset_eq hs, clockInterval_eq h (by omega), decide_eq_false_iff_not]
  omega

lemma Consistent.hasRoom {s : State} (hs : Consistent s) (hfails : WriteFails s orig st iov)
    (hk : Keeps s (s.wrote orig st iov)) : HasRoom s.log (entryOf st iov).length := by
  have he := isEntry_entryOf st hfails.pos
  have hwrites := wrote_writes hs hfails.pos orig st
  -- `fix_up_readers` has left all offsets where they were
  have hreaders := (hwrites.readers.symm.trans hk.readers).trans (map_id _).symm
  intro off hoff
  obtain ⟨k, hstands⟩ := hs.stands hoff
  refine hstands.chain.not_crossed hs.sized (by have := he.header; omega) he.fits ?_
  rcases mem_cons.mp hoff with rfl | hoff
  · exact hwrites.head.symm.trans hk.head
  · obtain ⟨r, hr, rfl⟩ := mem_map.mp hoff
    exact congrArg Reader.rOff (map_inj_left.mp hreaders r hr)

/-- A write that fails with `w_off` as it sampled it and with room for its entry leaves all
entries. -/
lemma Consistent.keeps {s : State} (hs : Consistent s) (hfails : WriteFails s s.log.wOff st iov)
    (hroom : HasRoom s.log (entryOf st iov).length) : Keeps s (s.wrote s.log.wOff st iov) := by
  have hpos := hfails.pos
  have he := isEntry_entryOf st hpos
  have hundone : Undone s s.log.wOff st iov := fun _ => rfl
  have hsized := (hs.wrote hundone).sized
  obtain ⟨hback, hwritten⟩ := hs.wOff_of_fails hfails
  have hwrites := wrote_writes hs hpos s.log.wOff st
  rw [hroom.fixUpReaders] at hwrites
  refine ⟨hback, hwritten, hwrites.head, hwrites.readers, fun off hoff => ?_⟩
  obtain ⟨k, hk⟩ := hs.stands hoff
  -- an offset that is not crossed leaves the entry room
  have hclear := hroom off hoff
  have hlarge := hs.sized.large
  have hfits := he.fits
  have hheader := he.header
  rw [loggerOffset_eq hs.sized, clockInterval_eq hk.chain (by omega), decide_eq_false_iff_not]
    at hclear
  obtain ⟨j, -, hj, hzero⟩ := hk.wrote hs hpos hundone
  rw [hzero (by omega), Nat.add_zero, hroom.fixUp hoff] at hj
  refine ⟨k, hk.le, hk.reads hs.sized, ?_⟩
  have hreads := hj.reads hsized
  rwa [hwritten] at hreads

/-- In every interleaving whose failing writes find `w_off` as they sampled it and room for their
entry, the next write that fails takes no entry of another writer back if and only if it does so
too. -/
theorem failed_write_keeps_iff {size : Nat} (hpow : ∃ k, size = 2 ^ k)
    (hlarge : 2 * entryMaxLen ≤ size) {s t : Threads} (h : Reach (InitialThreads size) CalmStep s)
    {writer orig : Nat} {st : Stamp} {iov : List Segment}
    (hstep : ThreadStep (.critical writer st iov) s t) (horig : s.orig writer = some orig)
    (hfails : WriteFails s.state orig st iov) :
    Keeps s.state t.state ↔
      orig = s.state.log.wOff ∧ HasRoom s.state.log (entryOf st iov).length := by
  have hs : Consistent s.state :=
    Reach.invariant (fun s => Consistent s.state) (fun s hs => hs.1.consistent hpow hlarge)
      (fun c s t hs hstep => hs.calmStep hstep) h
  cases hstep with
  | critical st iov horig' =>
    cases horig.symm.trans horig'
    constructor
    · intro hk
      exact ⟨(hs.wOff_of_fails hfails).1.symm.trans hk.wOff, hs.hasRoom hfails hk⟩
    · rintro ⟨rfl, hroom⟩
      exact hs.keeps hfails hroom

/-- A payload whose copy fails. -/
def faulty : List Segment := [⟨[65], some [], none⟩]

lemma initialThreads_emptyLog : InitialThreads 16384 ⟨emptyLog, fun _ => none⟩ :=
  ⟨initial_emptyLog, fun _ => rfl⟩

def bothSampled : Threads :=
  ⟨emptyLog.opened 7, update (update (fun _ => none) 0 (some 0)) 1 (some 0)⟩

def oneWrote : Threads :=
  ⟨bothSampled.state.wrote 0 someStamp letterA, update bothSampled.orig 1 none⟩

def otherFailed : Threads :=
  ⟨oneWrote.state.wrote 0 someStamp faulty, update oneWrote.orig 0 none⟩

lemma reach_oneWrote : Reach (InitialThreads 16384) ThreadStep oneWrote := by
  have hopened : ReaderStep (.openReader 7) emptyLog (emptyLog.opened 7) :=
    ReaderStep.openReader fun r hr => by cases hr
  have hfirst := Reach.next _ (Reach.start initialThreads_emptyLog) (ThreadStep.reader hopened)
  have hsecond := Reach.next _ (Reach.next _ hfirst (ThreadStep.sample 0)) (ThreadStep.sample 1)
  exact Reach.next _ hsecond (ThreadStep.critical someStamp letterA rfl)

/-- The writer `0` samples `w_off` when the entry of the writer `1` is complete. -/
def lateSampled : Threads :=
  ⟨oneWrote.state, update oneWrote.orig 0 (some 25)⟩

lemma reach_lateSampled : Reach (InitialThreads 16384) CalmStep lateSampled := by
  have hquiet : ∀ {c : ThreadCall} {s t : Threads}, ThreadStep c s t →
      (∀ writer st iov, c ≠ .critical writer st iov) → CalmStep c s t :=
    fun hstep hc => ⟨hstep, fun writer _ st iov heq => absurd heq (hc writer st iov)⟩
  have hopened : ReaderStep (.openReader 7) emptyLog (emptyLog.opened 7) :=
    ReaderStep.openReader fun r hr => by cases hr
  have hfirst := Reach.next _ (Reach.start initialThreads_emptyLog)
    (hquiet (ThreadStep.reader hopened) (by simp))
  have hsecond := Reach.next _ (Reach.next _ hfirst (hquiet (ThreadStep.sample 0) (by simp)))
    (hquiet (ThreadStep.sample 1) (by simp))
  have hwrote : CalmStep (.critical 1 someStamp letterA) bothSampled oneWrote := by
    refine ⟨ThreadStep.critical someStamp letterA rfl, fun writer orig st iov hc horig hfails => ?_⟩
    cases hc
    cases horig
    unfold WriteFails at hfails
    exact absurd hfails (by decide)
  exact Reach.next _ (Reach.next _ hsecond hwrote) (hquiet (ThreadStep.sample 0) (by simp))

/-- The write of the writer `0` fails, and the reader still has the entry of the writer `1`. -/
theorem lateSampled_keeps : Reads lateSampled.state.log 0 [entryOf someStamp letterA] ∧
    Keeps lateSampled.state (lateSampled.state.wrote 25 someStamp faulty) := by
  have hfails : WriteFails lateSampled.state 25 someStamp faulty := by
    unfold WriteFails
    decide
  have hstep : ThreadStep (.critical 0 someStamp faulty) lateSampled _ := .critical _ _ rfl
  refine ⟨⟨by decide, by decide, ?_⟩, (failed_write_keeps_iff ⟨14, rfl⟩ (by decide)
    reach_lateSampled hstep rfl hfails).mpr ⟨by decide, by decide⟩⟩
  show _ = _
  decide

/-- The write of the writer `0` fails, and `w_off` goes back over the entry of the writer `1`, which
cannot be read any more. -/
theorem failed_write_takes_back : Reach (InitialThreads 16384) ThreadStep oneWrote ∧
      ThreadStep (.critical 0 someStamp faulty) oneWrote otherFailed ∧
      WriteFails oneWrote.state 0 someStamp faulty ∧
      oneWrote.state.log.readers = [⟨7, 0⟩] ∧ otherFailed.state.log.readers = [⟨7, 0⟩] ∧
      oneWrote.state.log.wOff = 25 ∧ otherFailed.state.log.wOff = 0 ∧
      Reads oneWrote.state.log 0 [entryOf someStamp letterA] ∧
        Reads otherFailed.state.log 0 [] := by
  refine ⟨reach_oneWrote, ThreadStep.critical someStamp faulty rfl,
    ?_, by decide, by decide, by decide,
    by decide, ⟨by decide, by decide, ?_⟩, ?_⟩
  · unfold WriteFails
    decide
  · show _ = _
    decide
  · show _ = _
    decide

end Wm8850.Logger
