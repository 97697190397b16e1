import Wm8850.Proofs.Env.Syspara

/-! # System parameters as a map from names to values

`wmt_setsyspara` updates a map and `wmt_getsyspara` reads it, as long as the definition fits. A call
that is refused before the old definition is deleted changes nothing; one that fails later leaves
the edited environment. -/

namespace Wm8850.Env

open Lib List Option

variable {es es' : List Entry} {varname : CStr}

variable {b : Board} {s s' : State b} {buf : Buf (b.viewLen (b.norEnvMaxSize - 5))}
  {varval : Option CStr}

/-! ### States -/

lemma State.withBuf_buf (s : State b) : s.withBuf s.buf = s := by
  have henv : s.env.withView b s.buf.bytes s.buf.len = s.env := s.env.withView_view
  unfold State.withBuf
  rw [henv]

lemma State.Loaded.withBuf (h : s.Loaded es) (hholds : Holds buf.bytes es')
    (hroom : (packed es').length < b.envLen) : (s.withBuf buf).Loaded es' where
  envPtr := h.envPtr
  mtdInit := h.mtdInit
  holds := by
    have hview : (s.withBuf buf).env.view b = buf.bytes := s.env.view_withView buf.bytes buf.len
    rw [hview]
    exact hholds
  room := hroom

lemma SameData.loaded (h : SameData s s') (hs : s.Loaded es) : s'.Loaded es where
  envPtr := h.envPtr.trans hs.envPtr
  mtdInit := h.mtdInit.trans hs.mtdInit
  holds := by
    rw [h.view]
    exact hs.holds
  room := hs.room

lemma wmtSetsyspara_eq (hptr : s.envPtr = true) (hinit : s.mtdInit = true)
    (kmalloc : Option b.Ram) (answers : Answers b) (varname : CStr) (varval : Option CStr) :
    wmtSetsyspara s kmalloc answers varname varval =
      (setData s.buf b.envMaxSize varname varval).bind fun r =>
          if r.2 then envUpdate (s.withBuf r.1) answers else some (.ret (s.withBuf r.1) 1) := by
  unfold wmtSetsyspara
  rw [load_eq hptr hinit]
  simp only
  cases setData s.buf b.envMaxSize varname varval with
  | none => rfl
  | some r =>
    obtain ⟨buf, update⟩ := r
    cases update <;> rfl

lemma State.Loaded.deleted (h : s.Loaded es) {k : List UInt8}
    (hholds : Holds buf.bytes (without k es)) : (s.withBuf buf).Loaded (without k es) :=
  h.withBuf hholds (lt_of_le_of_lt (length_packed_without k es) h.room)

lemma State.Loaded.appended (h : s.Loaded es) (hholds : Holds buf.bytes es') (varname v : CStr)
    (hfit : (packed es').length + varname.bytes.length + v.bytes.length + 3 ≤ b.envLen) :
    ∃ buf', appendEntry buf b.envMaxSize varname.bytes v.bytes = some (buf', true) ∧
      (s.withBuf buf').Loaded (es' ++ [Entry.ofDef varname v]) := by
  have hlen := b.envLen_le_dataLen
  have hmax : b.envLen ≤ b.envMaxSize := Nat.sub_le _ _
  have htest : (packed es').length + (varname.bytes.length + 2 + v.bytes.length) ≤
      b.envMaxSize := by omega
  obtain ⟨buf', happ, -, hbytes⟩ := appendEntry_eq hholds htest
  obtain ⟨rest, hb⟩ := hbytes (by rw [b.viewLen_ram]; omega)
  have hpacked : packed (es' ++ [Entry.ofDef varname v])
      = packed es' ++ (varname.bytes ++ eqSign :: v.bytes) ++ [0] := by
    rw [packed_append, packed_cons, Entry.bytes_ofDef]
    simp
  refine ⟨buf', happ, h.withBuf ⟨rest, ?_, fun hnil => absurd hnil (by simp)⟩ ?_⟩
  · rw [hb, hpacked]
    simp
  · rw [hpacked]
    simp only [length_append, length_cons, length_nil]
    omega

/-! ### The three ends of a call -/

section
variable (h : s.Loaded es) (kmalloc : Option b.Ram) (answers : Answers b)
include h

lemma State.Loaded.set_missing
    (hdef : ¬Defined es (key varname.bytes)) (hval : noValue varval = true) :
    wmtSetsyspara s kmalloc answers varname varval = some (.ret s 1) := by
  rw [wmtSetsyspara_eq h.envPtr h.mtdInit, setData_undefined h.buf.stored hdef, hval]
  show some (Outcome.ret (s.withBuf s.buf) 1) = _
  rw [s.withBuf_buf]

lemma State.Loaded.set_delete
    (hdef : Defined es (key varname.bytes)) (hbaud : baudrateOk varname varval = some true)
    (hval : noValue varval = true) :
    ∃ buf, wmtSetsyspara s kmalloc answers varname varval = envUpdate (s.withBuf buf) answers ∧
      (s.withBuf buf).Loaded (without (key varname.bytes) es) := by
  obtain ⟨buf, hholds, -, heq⟩ := setData_defined h.buf hdef b.envMaxSize varval
  rw [hbaud, hval] at heq
  exact ⟨buf, by rw [wmtSetsyspara_eq h.envPtr h.mtdInit, heq]; rfl, h.deleted hholds⟩

lemma State.Loaded.set_value {v : CStr} (hbaud : Defined es (key varname.bytes) →
      baudrateOk varname (some v) = some true) (hne : v.bytes ≠ [])
    (hfit : (packed (without (key varname.bytes) es)).length + varname.bytes.length
      + v.bytes.length + 3 ≤ b.envLen) :
    ∃ buf, wmtSetsyspara s kmalloc answers varname (some v) = envUpdate (s.withBuf buf) answers ∧
      (s.withBuf buf).Loaded (without (key varname.bytes) es ++ [Entry.ofDef varname v]) := by
  have hval := noValue_some hne
  -- In both cases the definition is appended to an array that holds the others.
  have happ : ∃ buf, Holds buf.bytes (without (key varname.bytes) es) ∧
      setData s.buf b.envMaxSize varname (some v) = appendEntry buf b.envMaxSize varname.bytes
        v.bytes := by
    by_cases hdef : Defined es (key varname.bytes)
    · obtain ⟨buf, hholds, -, heq⟩ := setData_defined h.buf hdef b.envMaxSize (some v)
      rw [hbaud hdef, hval] at heq
      exact ⟨buf, hholds, heq⟩
    refine ⟨s.buf, ?_, ?_⟩
    · rw [without_of_not_mem fun e he hk => hdef ⟨e, he, hk⟩]
      exact h.buf
    · rw [setData_undefined h.buf.stored hdef, hval]
      rfl
  obtain ⟨buf, hholds, heq⟩ := happ
  obtain ⟨buf', happ, hloaded⟩ := h.appended hholds varname v hfit
  exact ⟨buf', by rw [wmtSetsyspara_eq h.envPtr h.mtdInit, heq, happ]; rfl, hloaded⟩

end

/-! ### The map -/

/-- All other names have the values they had. -/
def KeepsOthers (s s' : State b) (varname : CStr) : Prop :=
  ∀ q : CStr, eqSign ∉ q.bytes → q.bytes ≠ varname.bytes → ∀ kmalloc varlen,
    (wmtGetsyspara s' kmalloc q varlen).map Prod.snd
      = (wmtGetsyspara s kmalloc q varlen).map Prod.snd

lemma keepsOthers_of_lookup (h : s.Loaded es) (h' : s'.Loaded es')
    (hlookup : ∀ q, q ≠ varname.bytes → lookup es' q = lookup es q) : KeepsOthers s s' varname := by
  intro q hq hne kmalloc varlen
  rw [h.get, h'.get, key_eq_self hq, hlookup q.bytes hne]
  rfl

lemma nodup_without (hd : (es.map Entry.name).Nodup) (k : List UInt8) :
    ((without k es).map Entry.name).Nodup :=
  ((without_sublist k es).map Entry.name).nodup hd

lemma ofDef_of_name (hname : eqSign ∉ varname.bytes) (v : CStr) :
    (Entry.ofDef varname v).name = varname.bytes ∧ (Entry.ofDef varname v).value = v.bytes := by
  refine ⟨key_eq_self hname, ?_⟩
  simp [Entry.ofDef, hname]

/-- The names and values after `wmt_setsyspara`, for a name without `'='` other than `baudrate` and
an environment with distinct names. If the call returns `0`, the name has the new value and every
other name keeps its own. Without a value, the definition is deleted, and if there is none the call
fails. -/
theorem wmtSetsyspara_map {s : State b} {es : List Entry} (h : s.Loaded es)
    (hd : (es.map Entry.name).Nodup) (varname : CStr) (hname : eqSign ∉ varname.bytes)
    (hbaud : varname.bytes ≠ ascii "baudrate") (kmalloc : Option b.Ram) (answers : Answers b) :
    (∀ v : CStr, v.bytes ≠ [] →
      (packed (without varname.bytes es)).length + varname.bytes.length + v.bytes.length + 3
        ≤ b.envLen → (∃ buf, wmtSetsyspara s kmalloc answers varname (some v)
        = envUpdate (s.withBuf buf) answers) ∧
      ∀ s', wmtSetsyspara s kmalloc answers varname (some v) = some (.ret s' 0) →
        (∃ es', s'.Loaded es' ∧ (es'.map Entry.name).Nodup) ∧
        (∀ varlen : Int, v.bytes.length ≤ varlen → wmtGetsyspara s' kmalloc varname varlen
            = some (s', { varval := v.bytes ++ [0], varlen := varlen, rcode := 0 })) ∧
        KeepsOthers s s' varname) ∧ (∀ varval, noValue varval = true → Defined es varname.bytes →
      (∃ buf, wmtSetsyspara s kmalloc answers varname varval = envUpdate (s.withBuf buf) answers) ∧
      ∀ s' rcode, wmtSetsyspara s kmalloc answers varname varval = some (.ret s' rcode) →
        (∃ es', s'.Loaded es' ∧ (es'.map Entry.name).Nodup) ∧ (∀ varlen : Int, 0 ≤ varlen →
          wmtGetsyspara s' kmalloc varname varlen =
            some (s', { varval := [0], varlen := varlen, rcode := 1 })) ∧
        KeepsOthers s s' varname) ∧ (∀ varval, noValue varval = true → ¬Defined es varname.bytes →
      wmtSetsyspara s kmalloc answers varname varval = some (.ret s 1)) := by
  have hkey := key_eq_self hname
  have hok : ∀ varval, baudrateOk varname varval = some true := fun varval => if_neg hbaud
  -- Once its definition is deleted, the name is not defined any more.
  have hgone := lookup_without_self hd varname.bytes
  have hdist := nodup_without hd varname.bytes
  refine ⟨?_, ?_, ?_⟩
  · intro v hne hfit
    obtain ⟨hdefn, hdefv⟩ := ofDef_of_name hname v
    have hfit' : (packed (without (key varname.bytes) es)).length + varname.bytes.length
        + v.bytes.length + 3 ≤ b.envLen := by
      rw [hkey]
      exact hfit
    obtain ⟨buf, heq, hloaded⟩ := h.set_value kmalloc answers (fun _ => hok _) hne hfit'
    rw [hkey] at hloaded
    refine ⟨⟨buf, heq⟩, ?_⟩
    intro s' hs'
    rw [heq] at hs'
    have hloaded' := (envUpdate_sameData hs').loaded hloaded
    have hlookup : lookup (without varname.bytes es ++ [Entry.ofDef varname v]) varname.bytes
        = some v.bytes := by
      rw [← hdefv, ← hdefn]
      exact lookup_append_self (by rw [hdefn]; exact hgone)
    refine ⟨⟨_, hloaded', ?_⟩, ?_, ?_⟩
    · rw [map_append, map_singleton, hdefn, nodup_append]
      refine ⟨hdist, by simp, ?_⟩
      intro k hk q hq hkq
      obtain ⟨f, hf, hfk⟩ := mem_map.mp hk
      rw [mem_singleton] at hq
      exact hgone f hf (hfk.trans (hkq.trans hq))
    · intro varlen hlen
      rw [hloaded'.get, hkey, hlookup, reply, getD_some, if_neg (by omega)]
      rfl
    · refine keepsOthers_of_lookup h hloaded' fun q hq => ?_
      rw [lookup_append_ne (by rw [hdefn]; exact hq), lookup_without_ne hq]
  · intro varval hval hdef
    rw [← hkey] at hdef
    obtain ⟨buf, heq, hloaded⟩ := h.set_delete kmalloc answers hdef (hok _) hval
    rw [hkey] at hloaded
    refine ⟨⟨buf, heq⟩, ?_⟩
    intro s' rcode hs'
    rw [heq] at hs'
    have hloaded' := (envUpdate_sameData hs').loaded hloaded
    refine ⟨⟨_, hloaded', hdist⟩, ?_, ?_⟩
    · intro varlen hlen
      rw [hloaded'.get, hkey, lookup_of_not_mem hgone, reply, getD_none, length_nil,
        if_neg (by omega)]
      rfl
    · exact keepsOthers_of_lookup h hloaded' fun q hq => lookup_without_ne hq es
  · intro varval hval hdef
    rw [← hkey] at hdef
    exact h.set_missing kmalloc answers hdef hval

def otherName : CStr where
  bytes := [0x63]
  noNul := by decide

/-- `c=bb` and `a=c`. -/
def twoEntries : List Entry :=
  [.ofDef otherName ⟨[0x62, 0x62], by decide⟩, .ofDef smallName otherName]

/-- `a` gets the value `b`, and `c` keeps its own. -/
theorem twoEntries_set :
    ∃ s', wmtSetsyspara (spiState twoEntries (by decide)) none (allOk spiBoard) smallName
        (some smallValue) = some (.ret s' 0) ∧
      wmtGetsyspara s' none smallName 1 =
        some (s', { varval := [0x62, 0], varlen := 1, rcode := 0 }) ∧
      (wmtGetsyspara s' none otherName 2).map Prod.snd =
        some { varval := [0x62, 0x62, 0], varlen := 2, rcode := 0 } := by
  have hloaded := spiState_loaded twoEntries (by decide)
  obtain ⟨⟨buf, heq⟩, hset⟩ := (wmtSetsyspara_map hloaded (by decide) smallName (by decide)
    (by decide) none (allOk spiBoard)).1 smallValue (by decide) (by decide)
  obtain ⟨s', hs'⟩ := envUpdate_allOk (s := (spiState twoEntries (by decide)).withBuf buf)
    (by decide) rfl rfl
  rw [← heq] at hs'
  obtain ⟨-, hget, hothers⟩ := hset s' hs'
  refine ⟨s', hs', hget 1 (by decide), ?_⟩
  rw [hothers otherName (by decide) (by decide), hloaded.get]
  decide

/-- A data array that starts with one NUL and goes on with other bytes. It has no definition. -/
def gapRam : spiBoard.Ram where
  crc := 0
  flags := 1
  data := 0 :: 0x78 :: 0 :: 0 :: replicate 65527 0
  len := by
    rw [length_cons, length_cons, length_cons, length_cons,
      length_replicate]
    show _ = 65531
    rfl

def gapState : State spiBoard := { spiState [] (by decide) with env := gapRam }

/-- In an empty environment that is closed by a single NUL, `wmt_setsyspara` returns `0`, but the
new definition is not found. -/
theorem gapState_set : Stored (gapState.env.view spiBoard) [] ∧
    ∃ s', wmtSetsyspara gapState none (allOk spiBoard) smallName (some smallValue) =
      some (.ret s' 0) ∧
      wmtGetsyspara s' none smallName 1 =
        some (s', { varval := [0], varlen := 1, rcode := 1 }) := by
  have hview : gapState.env.view spiBoard = 0 :: 0x78 :: 0 :: 0 :: replicate 65527 0 := rfl
  have hstored : Stored (gapState.env.view spiBoard) [] := ⟨_, hview⟩
  have hno : ¬Defined [] (key smallName.bytes) := by simp [Defined]
  have hmark : endMark gapState.buf.bytes = some 2 := by
    show endMark (gapState.env.view spiBoard) = some 2
    rw [hview]
    simp [endMark]
  -- The new definition goes to index 3, and the NUL at index 0 stays.
  have happ : ∃ buf, setData gapState.buf spiBoard.envMaxSize smallName (some smallValue)
        = some (buf, true) ∧ buf.bytes[0]? = some 0 := by
    refine ⟨gapState.buf.define 3 smallName.bytes smallValue.bytes, ?_, ?_⟩
    · rw [setData_undefined hstored hno]
      have hfit : 3 + (smallName.bytes.length + 2 + smallValue.bytes.length) ≤
          spiBoard.envMaxSize := by decide
      exact appendEntry_define hmark rfl hfit
    · rfl
  obtain ⟨buf, hset, hzero⟩ := happ
  obtain ⟨s', hs'⟩ := envUpdate_allOk (s := gapState.withBuf buf) (by decide) rfl rfl
  have hsame := envUpdate_sameData hs'
  have hstored' : Stored (s'.env.view spiBoard) [] := by
    have hbytes : s'.env.view spiBoard = buf.bytes :=
      hsame.view.trans (gapState.env.view_withView buf.bytes buf.len)
    rw [hbytes]
    cases hb : buf.bytes with
    | nil =>
      rw [hb] at hzero
      exact absurd hzero (by simp)
    | cons c rest =>
      rw [hb] at hzero
      cases hzero
      exact ⟨rest, rfl⟩
  refine ⟨hstored, s', ?_, ?_⟩
  · rw [wmtSetsyspara_eq rfl rfl, hset]
    exact hs'
  · rw [wmtGetsyspara_eq (hsame.envPtr.trans rfl) (hsame.mtdInit.trans rfl) hstored']
    rfl

/-! ### A call that fails -/

/-- Why a call of `wmt_setsyspara` failed, and what it left in RAM. A call that is refused
before anything is deleted leaves the state as it was. -/
inductive AfterFailure (es : List Entry) (answers : Answers b) (varname : CStr)
    (varval : Option CStr) (rcode : Nat) (s s' : State b) : Prop where
  /-- an undefined name without a value -/
  | missing (hdef : ¬Defined es (key varname.bytes)) (hval : noValue varval = true)
      (same : s' = s)
  /-- an unsupported baud rate -/
  | baudrate (hdef : Defined es (key varname.bytes))
    (hbaud : baudrateOk varname varval = some false)
      (same : s' = s)
  /-- no room for an undefined name -/
  | newOverflow (hdef : ¬Defined es (key varname.bytes)) (v : CStr) (hv : varval = some v)
      (hfull : b.envMaxSize < (packed es).length + (varname.bytes.length + 2 + v.bytes.length))
      (same : s' = s)
  /-- no room for a defined name: its definition is deleted -/
  | oldOverflow (hdef : Defined es (key varname.bytes)) (v : CStr) (hv : varval = some v)
      (hfull : b.envMaxSize < (packed (without (key varname.bytes) es)).length
        + (varname.bytes.length + 2 + v.bytes.length))
      (left : s'.Loaded (without (key varname.bytes) es))
  /-- a failing `env_update` of what passed the tests: the edited environment stays -/
  | update (buf : Buf (b.viewLen (b.norEnvMaxSize - 5)))
      (hdata : setData s.buf b.envMaxSize varname varval = some (buf, true))
      (hbaud : Defined es (key varname.bytes) → baudrateOk varname varval = some true)
      (hroom : ∀ v, varval = some v → v.bytes ≠ [] →
        (packed (without (key varname.bytes) es)).length
          + (varname.bytes.length + 2 + v.bytes.length) ≤ b.envMaxSize)
      (hupd : envUpdate (s.withBuf buf) answers = some (.ret s' rcode))
      (deleted : noValue varval = true → s'.Loaded (without (key varname.bytes) es))
      (defined : ∀ v, varval = some v → v.bytes ≠ [] →
        (packed (without (key varname.bytes) es)).length + varname.bytes.length
          + v.bytes.length + 3 ≤ b.envLen →
        s'.Loaded (without (key varname.bytes) es ++ [Entry.ofDef varname v]))

/-- Every call that fails does so for one of these reasons. -/
theorem wmtSetsyspara_failed {s s' : State b} {es : List Entry} (h : s.Loaded es)
    {kmalloc : Option b.Ram} {answers : Answers b} {varname : CStr} {varval : Option CStr}
    {rcode : Nat} (hset : wmtSetsyspara s kmalloc answers varname varval = some (.ret s' rcode))
    (hrcode : rcode ≠ 0) : AfterFailure es answers varname varval rcode s s' := by
  rw [wmtSetsyspara_eq h.envPtr h.mtdInit] at hset
  rcases setData_cases h.buf b.envMaxSize varname varval with
    ⟨hdef, hval, heq⟩ | ⟨hdef, hbaud, heq⟩ | ⟨hdef, hbaud, heq⟩ |
    ⟨buf, hholds, -, hbaud, hsame, hcase⟩
  · rw [heq] at hset
    cases hset
    exact .missing hdef hval s.withBuf_buf
  · rw [heq] at hset
    cases hset
  · rw [heq] at hset
    cases hset
    exact .baudrate hdef hbaud s.withBuf_buf
  rcases hcase with ⟨hval, hdef, heq⟩ | ⟨v, rfl, hne, heq⟩
  · -- The definition is deleted, and `env_update` fails.
    rw [heq] at hset
    have hupd : envUpdate (s.withBuf buf) answers = some (.ret s' rcode) := hset
    have hnot : ∀ v, varval = some v → ¬v.bytes ≠ [] := by
      intro v hv hne
      rw [hv, noValue_some hne] at hval
      exact absurd hval (by simp)
    refine .update buf heq hbaud (fun v hv hne => absurd hne (hnot v hv)) hupd ?_ ?_
    · intro _
      exact (envUpdate_sameData hupd).loaded (h.deleted hholds)
    · exact fun v hv hne => absurd hne (hnot v hv)
  by_cases hfull : b.envMaxSize < (packed (without (key varname.bytes) es)).length
      + (varname.bytes.length + 2 + v.bytes.length)
  · rw [heq, appendEntry_overflow hholds hfull] at hset
    cases hset
    by_cases hdef : Defined es (key varname.bytes)
    · exact .oldOverflow hdef v rfl hfull (h.deleted hholds)
    have hwithout : without (key varname.bytes) es = es := without_of_not_mem fun e he hk =>
      hdef ⟨e, he, hk⟩
    rw [hwithout] at hfull
    rw [hsame hdef]
    exact .newOverflow hdef v rfl hfull s.withBuf_buf
  -- The new definition is appended, and `env_update` fails.
  obtain ⟨buf', happ, -, -⟩ := appendEntry_eq hholds (not_lt.mp hfull)
  have hdata := heq.trans happ
  have hupd : envUpdate (s.withBuf buf') answers = some (.ret s' rcode) := by
    rw [hdata] at hset
    exact hset
  refine .update buf' hdata hbaud ?_ hupd ?_ ?_
  · intro v' hv' _
    cases hv'
    exact not_lt.mp hfull
  · intro hval
    rw [noValue_some hne] at hval
    exact absurd hval (by simp)
  intro v' hv' _ hfit
  cases hv'
  obtain ⟨buf'', happ', hloaded⟩ := h.appended hholds varname v hfit
  rw [happ] at happ'
  cases happ'
  exact (envUpdate_sameData hupd).loaded hloaded

/-- A value of 65536 bytes for the defined name `a` is refused after the old definition is
deleted. -/
lemma longValue_refused :
    ∃ s', wmtSetsyspara (spiState [smallEntry] (by decide)) none (allOk spiBoard) smallName
        (some (longValue 65536)) = some (.ret s' 1) ∧
      s'.Loaded (without (key smallName.bytes) [smallEntry]) := by
  have hloaded := spiState_loaded [smallEntry] (by decide)
  have hdef : Defined [smallEntry] (key smallName.bytes) :=
    ⟨smallEntry, mem_singleton_self _, by decide⟩
  have hlen : (longValue 65536).bytes.length = 65536 := length_replicate
  obtain ⟨buf, hholds, -, heq⟩ :=
    setData_defined hloaded.buf hdef spiBoard.envMaxSize (some (longValue 65536))
  have hfull : spiBoard.envMaxSize < (packed (without (key smallName.bytes) [smallEntry])).length
      + (smallName.bytes.length + 2 + (longValue 65536).bytes.length) := by
    rw [hlen]
    decide
  have hset : setData (spiState [smallEntry] (by decide)).buf spiBoard.envMaxSize smallName
      (some (longValue 65536)) = some (buf, false) := by
    rw [heq]
    simp only [map_some, getD_some]
    exact appendEntry_overflow hholds hfull
  refine ⟨(spiState [smallEntry] (by decide)).withBuf buf, ?_, hloaded.deleted hholds⟩
  rw [wmtSetsyspara_eq rfl rfl, hset]
  rfl

/-- The long value of an environment that is not empty: the call fails by `oldOverflow`. -/
theorem longValue_failed :
    ∃ s', wmtSetsyspara (spiState [smallEntry] (by decide)) none (allOk spiBoard) smallName
        (some (longValue 65536)) = some (.ret s' 1) ∧
      AfterFailure [smallEntry] (allOk spiBoard) smallName (some (longValue 65536)) 1
        (spiState [smallEntry] (by decide)) s' := by
  obtain ⟨s', hset, -⟩ := longValue_refused
  exact ⟨s', hset, wmtSetsyspara_failed (spiState_loaded [smallEntry] (by decide)) hset (by decide)⟩

/-- The value that `a` had before is lost. -/
theorem longValue_deletes :
    ∃ s', wmtSetsyspara (spiState [smallEntry] (by decide)) none (allOk spiBoard) smallName
        (some (longValue 65536)) = some (.ret s' 1) ∧
      wmtGetsyspara (spiState [smallEntry] (by decide)) none smallName 1
        = some (spiState [smallEntry] (by decide),
            { varval := [0x62, 0], varlen := 1, rcode := 0 }) ∧ wmtGetsyspara s' none smallName 1
        = some (s', { varval := [0], varlen := 1, rcode := 1 }) := by
  obtain ⟨s', hset, hloaded'⟩ := longValue_refused
  refine ⟨s', hset, ?_, ?_⟩
  · rw [(spiState_loaded [smallEntry] (by decide)).get]
    rfl
  · rw [hloaded'.get]
    rfl

end Wm8850.Env
