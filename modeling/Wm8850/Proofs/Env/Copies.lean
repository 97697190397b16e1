import Wm8850.Proofs.Env.Syspara

/-! # An update of the two copies survives a power loss

The two copies are two slots, graded by checksum and flags, and `read_env_after_mtd_init` takes the
one that `choose` takes. Wherever the power is lost, the copies are in a stage of an update
(`envUpdate_stage`). `State.Coherent`: `env_valid`, `env_invalid` and the buffer are what a boot
would set. -/

namespace Wm8850.Env

open Lib Function

variable {b : Board} {e : b.Copy} {s t : State b} {i : Bool}

/-! ### The copies as two slots -/

def Board.dev (b : Board) (i : Bool) : Mtd := if i then b.dev2 else b.dev1

def copies (flash : Flash b) (i : Bool) : Option b.Copy := flash (b.dev i).index 0

/-- The grade of a copy. A flag other than `0` and `1` is not understood. -/
def grade (e : b.Copy) : Grade :=
  if e.CrcOk b then
    if e.flags = 1 then .active else if e.flags = 0 then .obsolete else .bad
  else .bad

lemma mtdTable_toNat (i : Bool) : b.mtdTable i.toNat = some (b.dev i) := by
  cases i <;> rfl

lemma dev_apart (i : Bool) : (b.dev (!i)).index ≠ (b.dev i).index := by
  cases i with
  | false => exact b.apart.symm
  | true => exact b.apart

lemma copy_toNat (s : State b) (i : Bool) : s.copy i.toNat = copies s.flash i := by
  rw [State.copy, mtdTable_toNat]
  rfl

lemma grade_torn (h : ¬e.CrcOk b) : grade e = .bad := if_neg h

lemma crcOk_of_grade (h : grade e ≠ .bad) : e.CrcOk b := not_not.mp fun hcrc => h (grade_torn hcrc)

lemma flags_of_grade (h : grade e ≠ .bad) : e.flags = 1 ∨ e.flags = 0 := by
  rw [grade] at h
  by_cases h1 : e.flags = 1
  · exact .inl h1
  · by_cases h0 : e.flags = 0
    · exact .inr h0
    · simp [h1, h0] at h

/-! ### `read_env_after_mtd_init` -/

lemma EnvT.readInto_readInto (e e' : b.Copy) (ram : b.Ram) :
    e.readInto (e'.readInto ram) = e.readInto ram := by
  have hdrop : (e'.readInto ram).data.drop (b.envMaxSize - 5)
      = ram.data.drop (b.envMaxSize - 5) := List.drop_left' e'.len
  ext1
  · rfl
  · rfl
  · show e.data ++ _ = e.data ++ _
    rw [hdrop]

def State.passed (s : State b) (e : b.Copy) (invalid : Nat) : State b :=
  { s with env := e.readInto s.env, envInvalid := invalid }

def State.taken (s : State b) (i : Bool) (e : b.Copy) : State b :=
  { s with env := e.readInto s.env, envValid := i.toNat, envInvalid := (!i).toNat }

lemma taken_passed (s : State b) (e' : b.Copy) (invalid : Nat) (i : Bool) (e : b.Copy) :
    (s.passed e' invalid).taken i e = s.taken i e := by
  unfold State.taken State.passed
  simp [EnvT.readInto_readInto]

section
variable (hvalid : s.envValid = envInvalidIndex) (h : copies s.flash i = some e)
include hvalid h

lemma readTurn_eq :
    readTurn s i.toNat (b.dev i) = if grade e = .active then (s.taken i e, some 0)
      else (s.passed e (if grade e = .obsolete then i.toNat else s.envInvalid), none) := by
  have hflags : (s.withRead e).env.flags = e.flags := rfl
  have hok : (s.withRead e).env.CrcOk b ↔ e.CrcOk b := e.crcOk_readInto s.env
  unfold readTurn
  rw [read_eq h]
  simp only
  by_cases hcrc : e.CrcOk b
  · rw [if_pos (hok.mpr hcrc), hflags]
    by_cases h1 : e.flags = 1
    · have hg : grade e = .active := by simp [grade, hcrc, h1]
      rw [if_pos h1, if_pos hg]
      cases i <;> rfl
    by_cases h0 : e.flags = 0
    · have hg : grade e = .obsolete := by simp [grade, hcrc, h0]
      simp only [if_neg h1, if_pos h0]
      rw [if_neg fun hne => hne.1 hvalid, hg]
      rfl
    · have hg : grade e = .bad := by simp [grade, h1, h0]
      simp only [if_neg h1, if_neg h0]
      rw [if_neg fun hne => hne.1 hvalid, hg]
      rfl
  · have hg := grade_torn hcrc
    rw [if_neg fun h => hcrc (hok.mp h), hg]
    rfl

lemma readObsolete_eq (hinvalid : s.envInvalid = i.toNat) : readObsolete s = (s.taken i e, 0) := by
  have hne : i.toNat ≠ envInvalidIndex := by cases i <;> decide
  have hread : s.read (b.dev i) 0 = some (s.withRead e) := read_eq h
  have hinvalid' : (s.withRead e).envInvalid = i.toNat := hinvalid
  unfold readObsolete
  rw [if_pos ⟨hvalid, hinvalid ▸ hne⟩, hinvalid, mtdTable_toNat, Option.bind_some, hread]
  simp only [hinvalid']
  cases i <;> rfl

end

def readSecond (s : State b) : State b × Nat :=
  match readTurn s 1 b.dev2 with
  | (s, some rcode) => (s, rcode)
  | (s, none) => readObsolete s

lemma readSecond_eq (hvalid : s.envValid = envInvalidIndex) (h : copies s.flash true = some e) :
    readSecond s =
      if grade e = .bad then readObsolete (s.passed e s.envInvalid) else (s.taken true e, 0) := by
  have hturn : readTurn s 1 b.dev2 = _ := readTurn_eq hvalid h
  unfold readSecond
  cases hg : grade e with
  | active =>
    rw [hturn, if_pos hg]
    rfl
  | obsolete =>
    rw [hturn, hg]
    -- The copy is read once more.
    show readObsolete (s.passed e 1) = (s.taken true e, 0)
    rw [readObsolete_eq (s := s.passed e 1) (i := true) hvalid h rfl, taken_passed]
  | bad =>
    rw [hturn, hg]
    rfl

lemma readEnvAfterMtdInit_cases (s : State b) :
    (∃ i e, choose grade (copies s.flash) = some i ∧ copies s.flash i = some e ∧
      readEnvAfterMtdInit s = (s.taken i e, 0)) ∨
    (choose grade (copies s.flash) = none ∧ (readEnvAfterMtdInit s).2 = 1) := by
  let start : State b := { s with envValid := envInvalidIndex, envInvalid := envInvalidIndex }
  have hrun : readEnvAfterMtdInit s =
      match readTurn start 0 b.dev1 with
      | (s, some rcode) => (s, rcode)
      | (s, none) => readSecond s := rfl
  cases h0 : copies s.flash false with
  | none =>
    have hturn : readTurn start 0 b.dev1 = (start, some 1) := by
      unfold readTurn State.read
      rw [show start.flash b.dev1.index 0 = none from h0]
      rfl
    refine .inr ⟨by simp [choose, h0], ?_⟩
    rw [hrun, hturn]
  | some e0 =>
    have hturn : readTurn start 0 b.dev1 = _ := readTurn_eq (s := start) rfl h0
    by_cases hactive : grade e0 = .active
    · refine .inl ⟨false, e0, by simp [choose, h0, hactive], h0, ?_⟩
      rw [hrun, hturn, if_pos hactive]
      rfl
    -- The second copy decides, and if it is bad, the first one may be obsolete.
    rw [if_neg hactive] at hturn
    generalize hnext : start.passed e0 (if grade e0 = .obsolete then false.toNat
      else start.envInvalid) = next at hturn
    have hvalid : next.envValid = envInvalidIndex := by rw [← hnext]; rfl
    have hflash : next.flash = s.flash := by rw [← hnext]; rfl
    have htaken : ∀ i e, next.taken i e = s.taken i e := by
      intro i e
      rw [← hnext, taken_passed]
      rfl
    rw [hrun, hturn]
    cases h1 : copies s.flash true with
    | none =>
      refine .inr ⟨?_, ?_⟩
      · cases hg : grade e0 <;> simp_all [choose]
      show (readSecond next).2 = 1
      unfold readSecond readTurn State.read
      rw [hflash, show s.flash b.dev2.index 0 = none from h1]
      rfl
    | some e1 =>
      have hsecond := readSecond_eq (e := e1) hvalid (by rw [hflash]; exact h1)
      by_cases hbad : grade e1 = .bad
      · rw [if_pos hbad] at hsecond
        cases hg : grade e0 with
        | active => exact absurd hg hactive
        | obsolete =>
          refine .inl ⟨false, e0, by simp [choose, h0, h1, hg, hbad], h0, ?_⟩
          have hinvalid : next.envInvalid = false.toNat := by
            rw [← hnext, hg]
            rfl
          show readSecond next = _
          rw [hsecond, readObsolete_eq (s := next.passed e1 next.envInvalid) (e := e0) hvalid
            (by rw [← h0, ← hflash]; rfl) hinvalid, taken_passed, htaken]
        | bad =>
          refine .inr ⟨by simp [choose, h0, h1, hg, hbad], ?_⟩
          have hinvalid : next.envInvalid = envInvalidIndex := by
            rw [← hnext, hg]
            rfl
          show (readSecond next).2 = 1
          rw [hsecond, readObsolete, if_neg fun hne => hne.2 hinvalid]
      refine .inl ⟨true, e1, ?_, h1, ?_⟩
      · cases hg0 : grade e0 <;> cases hg1 : grade e1 <;> simp_all [choose]
      · show readSecond next = _
        rw [hsecond, if_neg hbad, htaken]

lemma readEnvAfterMtdInit_of_choose
    (hi : choose grade (copies s.flash) = some i) (he : copies s.flash i = some e) :
    readEnvAfterMtdInit s = (s.taken i e, 0) := by
  rcases readEnvAfterMtdInit_cases s with ⟨i', e', hi', he', heq⟩ | ⟨hnone, -⟩
  · rw [hi] at hi'
    cases hi'
    rw [he] at he'
    cases he'
    exact heq
  · rw [hi] at hnone
    cases hnone

lemma exists_of_readEnvAfterMtdInit (h : readEnvAfterMtdInit s = (t, 0)) :
    ∃ i e, choose grade (copies s.flash) = some i ∧ copies s.flash i = some e ∧
      t = s.taken i e := by
  rcases readEnvAfterMtdInit_cases s with ⟨i, e, hi, he, heq⟩ | ⟨-, hone⟩
  · rw [heq] at h
    cases h
    exact ⟨i, e, hi, he, rfl⟩
  · rw [h] at hone
    cases hone

/-! ### What `env_update` leaves in the copies -/

lemma copies_setCell (s : State b) (i : Bool) (e : Option b.Copy) :
    copies (s.setCell (b.dev i).index 0 e).flash = update (copies s.flash) i e := by
  funext j
  by_cases hj : j = i
  · subst hj
    rw [update_self]
    exact s.setCell_same _ _ e
  · have hnot : j = !i := Bool.eq_not.mpr hj
    rw [update_of_ne hj]
    subst hnot
    exact s.setCell_other e (.inl (dev_apart i))

def State.activated (s : State b) : State b :=
  if s.env.flags = 0 then { s with env := s.env.activate } else s

lemma activated_image (h : s.env.flags = 1 ∨ s.env.flags = 0) :
    s.activated.env.image = s.env.image.activate := by
  unfold State.activated
  rcases h with h | h
  · have hne : s.env.flags ≠ 0 := by rw [h]; decide
    rw [if_neg hne]
    ext1
    · rfl
    · exact h
    · rfl
  · rw [if_pos h]
    rfl

@[simp] lemma activated_flash (s : State b) : s.activated.flash = s.flash := by
  unfold State.activated
  split <;> rfl

@[simp] lemma activated_envValid (s : State b) : s.activated.envValid = s.envValid := by
  unfold State.activated
  split <;> rfl

@[simp] lemma activated_envInvalid (s : State b) : s.activated.envInvalid = s.envInvalid := by
  unfold State.activated
  split <;> rfl

lemma grade_activeImage (hb : b.boot ≠ .nand) (s : State b) : grade s.activeImage = .active := by
  have hview : s.activeImage.view b = s.withCrc.env.image.view b := by
    simp [EnvT.view, hb, State.activeImage, EnvT.activate]
  have hcrc : s.withCrc.env.image.CrcOk b := (EnvT.crcOk_image _).mpr (crcOk_withCrc s)
  have hok : s.activeImage.CrcOk b := by
    show s.withCrc.env.image.crc = _
    rw [hview]
    exact hcrc
  rw [grade, if_pos hok]
  rfl

lemma grade_retire (hb : b.boot ≠ .nand) (e : b.Copy) (h : grade e ≠ .bad) :
    grade e.retire = .obsolete := by
  have hview : e.retire.view b = e.view b := by simp [EnvT.view, hb, EnvT.retire]
  have hok : e.retire.CrcOk b := by
    show e.crc = _
    rw [hview]
    exact crcOk_of_grade h
  rw [grade, if_pos hok]
  rfl

def State.rewritten (s : State b) (dev : Nat) (e : Option b.Copy) : State b :=
  (s.setCell dev 0 (some (EnvT.erased b))).activated.setCell dev 0 e

def State.retired (s : State b) (dev : Nat) : State b :=
  let t := s.setCell dev 0 ((s.flash dev 0).map EnvT.retire)
  { t with envValid := t.envInvalid, envInvalid := t.envValid }

section
variable {s : State b} {i : Bool} {answers : Answers b}

lemma copies_rewritten (s : State b) (i : Bool) (e : Option b.Copy) :
    copies (s.rewritten (b.dev i).index e).flash = update (copies s.flash) i e := by
  unfold State.rewritten
  rw [copies_setCell, activated_flash, copies_setCell, update_idem]

lemma copies_retired (s : State b) (i : Bool) : copies (s.retired (b.dev i).index).flash
      = update (copies s.flash) i ((copies s.flash i).map EnvT.retire) :=
  copies_setCell s i _

lemma rewritten_image (hflags : s.env.flags = 1 ∨ s.env.flags = 0) (dev : Nat)
    (e : Option b.Copy) : (s.rewritten dev e).env.image = s.env.image.activate :=
  activated_image (s := s.setCell dev 0 (some (EnvT.erased b))) hflags

variable (dev : Nat)

lemma rewritten_envValid (e : Option b.Copy) : (s.rewritten dev e).envValid = s.envValid :=
  activated_envValid (s.setCell dev 0 (some (EnvT.erased b)))

lemma rewritten_envInvalid (e : Option b.Copy) : (s.rewritten dev e).envInvalid = s.envInvalid :=
  activated_envInvalid (s.setCell dev 0 (some (EnvT.erased b)))

lemma retired_env : (s.retired dev).env = s.env := rfl

lemma retired_envValid : (s.retired dev).envValid = s.envInvalid := rfl

lemma retired_envInvalid : (s.retired dev).envInvalid = s.envValid := rfl

lemma updateCopies_cases (hflags : s.env.flags = 1 ∨ s.env.flags = 0) (valid invalid : Mtd)
    (answers : Answers b) : (∃ left, answers.erase.Stops left ∧
      (updateCopies s valid invalid answers).Stopped (s.setCell invalid.index 0 left)) ∨
    (∃ left, answers.write.Stops left ∧
      (updateCopies s valid invalid answers).Stopped (s.rewritten invalid.index left)) ∨
    (∃ left, answers.retire.Stops left ∧ (updateCopies s valid invalid answers).Stopped
        ((s.rewritten invalid.index (some s.env.image.activate)).setCell valid.index 0 left)) ∨
    updateCopies s valid invalid answers
      = .ret ((s.rewritten invalid.index (some s.env.image.activate)).retired valid.index) 0 := by
  have himage : (s.setCell invalid.index 0 (some (EnvT.erased b))).activated.env.image
      = s.env.image.activate := activated_image hflags
  rw [← himage]
  rcases flashOp_cases s invalid.index 0 answers.erase (some (EnvT.erased b)) _ with
    ⟨left, hstop, hout⟩ | ⟨-, hgo⟩
  · exact .inl ⟨left, hstop, hout⟩
  refine .inr ?_
  rw [show updateCopies s valid invalid answers = _ from hgo]
  rcases flashOp_cases _ invalid.index 0 answers.write _ _ with ⟨left, hstop, hout⟩ | ⟨-, hgo⟩
  · exact .inl ⟨left, hstop, hout⟩
  refine .inr ?_
  rcases flashOp_cases _ valid.index 0 answers.retire _ _ with ⟨left, hstop, hout⟩ | ⟨-, hgo'⟩
  · exact .inl ⟨left, hstop, by rw [hgo]; exact hout⟩
  · exact .inr (hgo.trans hgo')

lemma updateCopies_stage (hflags : s.env.flags = 1 ∨ s.env.flags = 0)
    (herase : ∀ left, answers.erase.Stops left → left = copies s.flash (!i) ∨ Torn left)
    (hwrite : ∀ left, answers.write.Stops left → left = some s.env.image.activate ∨ Torn left)
    (hretire : ∀ left, answers.retire.Stops left →
      left = copies s.flash i ∨ left = (copies s.flash i).map EnvT.retire) :
    Stage grade EnvT.retire (copies s.flash) i s.env.image.activate
      (copies (updateCopies s (b.dev i) (b.dev (!i)) answers).flash) := by
  have hne : i ≠ !i := by simp
  have hold : ∀ e, update (copies s.flash) (!i) e i = copies s.flash i := by
    intro e
    rw [update_of_ne hne]
  have hnew : ∀ e, update (copies s.flash) (!i) e (!i) = e := by
    intro e
    rw [update_self]
  have htorn : ∀ left, Torn left → Stage grade EnvT.retire (copies s.flash) i
      s.env.image.activate (update (copies s.flash) (!i) left) := by
    rintro left ⟨e, rfl, hcrc⟩
    exact .torn (hold _) (hnew _) (grade_torn hcrc)
  rcases updateCopies_cases hflags (b.dev i) (b.dev (!i)) answers with
    ⟨left, hstop, hout⟩ | ⟨left, hstop, hout⟩ | ⟨left, hstop, hout⟩ | hdone
  · rw [hout.flash, copies_setCell]
    rcases herase left hstop with rfl | hleft
    · rw [update_eq_self]
      exact .untouched
    · exact htorn left hleft
  · rw [hout.flash, copies_rewritten]
    rcases hwrite left hstop with rfl | hleft
    · exact .written (hold _) (hnew _)
    · exact htorn left hleft
  · -- The flag byte of the old copy is written or not.
    rw [hout.flash, copies_setCell, copies_rewritten]
    have hnew' : update (update (copies s.flash) (!i)
        (some s.env.image.activate)) i left (!i) = some s.env.image.activate := by
      rw [update_of_ne hne.symm, hnew]
    rcases hretire left hstop with rfl | rfl
    · exact .written (by rw [update_self]) hnew'
    · exact .retired (by rw [update_self]) hnew'
  rw [hdone]
  refine .retired ?_ ?_
  · show copies (State.retired _ _).flash i = _
    rw [copies_retired, update_self, copies_rewritten, hold]
  · show copies (State.retired _ _).flash (!i) = _
    rw [copies_retired, update_of_ne hne.symm, copies_rewritten, hnew]

end

/-! ### Runs -/

/-- The variables are those that `read_env_after_mtd_init` sets, and the buffer holds the copy
that it loads. -/
structure State.Coherent (s : State b) (i : Bool) : Prop where
  chosen : choose grade (copies s.flash) = some i
  stored : copies s.flash i = some s.env.image
  envValid : s.envValid = i.toNat
  envInvalid : s.envInvalid = (!i).toNat

lemma coherent_taken (hi : choose grade (copies s.flash) = some i)
    (he : copies s.flash i = some e) :
    (s.taken i e).Coherent i where
  chosen := hi
  stored := by
    rw [show (s.taken i e).env.image = e from e.image_readInto s.env]
    exact he
  envValid := rfl
  envInvalid := rfl

lemma coherent_of_read (h : readEnvAfterMtdInit s = (t, 0)) : ∃ i, t.Coherent i := by
  obtain ⟨i, e, hi, he, rfl⟩ := exists_of_readEnvAfterMtdInit h
  exact ⟨i, coherent_taken hi he⟩

lemma State.Coherent.flags (h : s.Coherent i) : s.env.flags = 1 ∨ s.env.flags = 0 := by
  obtain ⟨e, he, hgood⟩ := exists_of_choose grade h.chosen
  rw [h.stored] at he
  cases he
  exact flags_of_grade hgood

section
variable (hb : b.boot ≠ .nand)
include hb

lemma coherent_retired (hchosen : choose grade (copies s.flash) = some i)
    (hvalid : s.envValid = i.toNat)
    (hinvalid : s.envInvalid = (!i).toNat) (hflags : s.env.flags = 1 ∨ s.env.flags = 0)
    (hactive : grade s.env.image.activate = .active)
    (ht : t = (s.rewritten (b.dev (!i)).index (some s.env.image.activate)).retired
      (b.dev i).index) : t.Coherent (!i) ∧ t.env.image = s.env.image.activate := by
  have hne : i ≠ !i := by simp
  have himage : t.env.image = s.env.image.activate := by
    rw [ht, retired_env, rewritten_image hflags]
  have hold : copies t.flash i = (copies s.flash i).map EnvT.retire := by
    rw [ht, copies_retired, update_self, copies_rewritten, update_of_ne hne]
  have hnew : copies t.flash (!i) = some s.env.image.activate := by
    rw [ht, copies_retired, update_of_ne hne.symm, copies_rewritten, update_self]
  refine ⟨⟨choose_retired (grade_retire hb) hchosen hactive hold hnew, ?_, ?_, ?_⟩, himage⟩
  · rw [himage]
    exact hnew
  · rw [ht, retired_envValid, rewritten_envInvalid, hinvalid]
  · rw [ht, retired_envInvalid, rewritten_envValid, hvalid, Bool.not_not]

lemma withBuf_flags (s : State b)
    (buf : Buf (b.viewLen (b.norEnvMaxSize - 5))) : (s.withBuf buf).env.flags = s.env.flags := by
  unfold State.withBuf EnvT.withView
  simp [dif_neg hb]

/-- The copies end in a stage of the update, and if `env_update` returns `0`, the new state is
coherent. -/
theorem State.Coherent.update (h : s.Coherent i)
    {op : Update b} (hsound : op.answers.Sound (s.withBuf op.buf)) :
    ∃ o, envUpdate (s.withBuf op.buf) op.answers = some o ∧
      Stage grade EnvT.retire (copies s.flash) i (s.withBuf op.buf).activeImage (copies o.flash) ∧
      ∀ s', o = .ret s' 0 → s'.Coherent (!i) ∧ s'.env.image = (s.withBuf op.buf).activeImage := by
  let t := (s.withBuf op.buf).withCrc
  have hvalid : t.envValid = i.toNat := h.envValid
  have hinvalid : t.envInvalid = (!i).toNat := h.envInvalid
  have hflags : t.env.flags = 1 ∨ t.env.flags = 0 := by
    rw [show t.env.flags = s.env.flags from withBuf_flags hb s op.buf]
    exact h.flags
  have hupdate : envUpdate (s.withBuf op.buf) op.answers
      = some (updateCopies t (b.dev i) (b.dev (!i)) op.answers) := by
    rw [envUpdate_copies hb, show (s.withBuf op.buf).envValid = _ from h.envValid,
      show (s.withBuf op.buf).envInvalid = _ from h.envInvalid, mtdTable_toNat, mtdTable_toNat]
    rfl
  have hinvalidCopy : (s.withBuf op.buf).copy (s.withBuf op.buf).envInvalid =
      copies t.flash (!i) := by
    rw [show (s.withBuf op.buf).envInvalid = _ from h.envInvalid, copy_toNat]
    rfl
  have hvalidCopy : (s.withBuf op.buf).copy (s.withBuf op.buf).envValid = copies t.flash i := by
    rw [show (s.withBuf op.buf).envValid = _ from h.envValid, copy_toNat]
    rfl
  refine ⟨_, hupdate, ?_, ?_⟩
  · have herase := hsound.erase
    have hretire := hsound.retire
    rw [hinvalidCopy] at herase
    rw [hvalidCopy] at hretire
    exact updateCopies_stage hflags herase hsound.write hretire
  intro s' hs'
  rcases updateCopies_cases (s := t) hflags (b.dev i) (b.dev (!i)) op.answers with
    ⟨left, -, hout⟩ | ⟨left, -, hout⟩ | ⟨left, -, hout⟩ | hdone
  · exact absurd hs' hout.ne_ret
  · exact absurd hs' hout.ne_ret
  · exact absurd hs' hout.ne_ret
  · rw [hdone] at hs'
    cases hs'
    exact coherent_retired hb h.chosen hvalid hinvalid hflags (grade_activeImage hb _) rfl

lemma CopyReachable.coherent (h : CopyReachable s) : ∃ i, s.Coherent i := by
  refine Reach.invariant (fun s => ∃ i, s.Coherent i) ?_ ?_ h
  · rintro s ⟨u, hu⟩
    exact coherent_of_read hu
  rintro op s t ⟨i, hi⟩ ⟨hsound, o, ho, hnext⟩
  obtain ⟨o', ho', -, hret⟩ := hi.update hb hsound
  rw [ho] at ho'
  cases ho'
  rcases hnext with hnext | ⟨u, -, hu⟩
  · exact ⟨!i, (hret t hnext).1⟩
  · exact coherent_of_read hu

lemma readEnvAfterMtdInit_active (s : State b) :
    ∃ flash t, readEnvAfterMtdInit { s with flash := flash } = (t, 0) := by
  have hactive : grade s.activeImage = .active := grade_activeImage hb s
  have hchoose : choose grade (copies (b := b) fun _ _ => some s.activeImage) = some false := by
    simp [choose, copies, hactive]
  exact ⟨_, _, readEnvAfterMtdInit_of_choose (s := { s with flash := _ }) hchoose rfl⟩

end

/-- Wherever `env_update` stops or the power is lost, the next `read_env_after_mtd_init` loads the
complete environment from before or the new one, and the new one if `env_update` returned `0`. -/
theorem update_survives (hb : b.boot ≠ .nand) {s : State b} (hs : CopyReachable s) (op : Update b)
    (hsound : op.answers.Sound (s.withBuf op.buf)) :
    ∃ o, envUpdate (s.withBuf op.buf) op.answers = some o ∧
      (∀ u : State b, u.flash = o.flash → ∃ t, readEnvAfterMtdInit u = (t, 0) ∧ CopyReachable t ∧
        (t.env.image = s.env.image ∨ t.env.image = (s.withBuf op.buf).activeImage) ∧
        ∀ s', o = .ret s' 0 → t.env.image = (s.withBuf op.buf).activeImage) ∧
      ∀ s', o = .ret s' 0 → CopyReachable s' := by
  obtain ⟨i, hi⟩ := hs.coherent hb
  obtain ⟨o, ho, hstage, hret⟩ := hi.update hb hsound
  refine ⟨o, ho, ?_, fun s' hs' => .next op hs ⟨hsound, o, ho, .inl hs'⟩⟩
  intro u hu
  -- The copy that a boot takes is the old one or the new one.
  have htake : ∃ j e, choose grade (copies u.flash) = some j ∧ copies u.flash j = some e ∧
      (e = s.env.image ∨ e = (s.withBuf op.buf).activeImage) := by
    rw [hu]
    rcases hstage.choose_old_or_new (grade_retire hb) hi.chosen (grade_activeImage hb _) with
      ⟨hold, hsame⟩ | ⟨hnew, hcopy⟩
    · exact ⟨i, s.env.image, hold, hsame.trans hi.stored, .inl rfl⟩
    · exact ⟨!i, _, hnew, hcopy, .inr rfl⟩
  obtain ⟨j, e, hj, he, hcase⟩ := htake
  have hread := readEnvAfterMtdInit_of_choose hj he
  have himage : (u.taken j e).env.image = e := e.image_readInto u.env
  refine ⟨_, hread, .next op hs ⟨hsound, o, ho, .inr ⟨u, hu, hread⟩⟩, ?_, ?_⟩
  · rw [himage]
    exact hcase
  intro s' hs'
  obtain ⟨hcoh, hnew⟩ := hret s' hs'
  have hflash : u.flash = s'.flash := by rw [hu, hs']; rfl
  rw [hflash, hcoh.chosen] at hj
  cases hj
  rw [hflash, hcoh.stored] at he
  cases he
  rw [himage, hnew]

/-- On the SPI board the data can be written back, and the next boot loads them. -/
theorem spiBoard_update : ∃ s s' : State spiBoard, CopyReachable s ∧
      envUpdate (s.withBuf s.buf) (allOk spiBoard) = some (.ret s' 0) ∧
      ∃ t, readEnvAfterMtdInit s' = (t, 0) ∧ t.env.image = (s.withBuf s.buf).activeImage := by
  obtain ⟨_, s, hread⟩ := readEnvAfterMtdInit_active (by decide) (spiState [] (by decide))
  have hs : CopyReachable s := .start ⟨_, hread⟩
  obtain ⟨i, hi⟩ := hs.coherent (by decide)
  have hsound : (allOk spiBoard).Sound (s.withBuf s.buf) := by
    constructor <;> rintro left (h | h) <;> cases h
  have hvalid : spiBoard.mtdTable (s.withBuf s.buf).envValid = _ := hi.envValid ▸ mtdTable_toNat i
  have hinvalid : spiBoard.mtdTable (s.withBuf s.buf).envInvalid = _ :=
    hi.envInvalid ▸ mtdTable_toNat (!i)
  obtain ⟨s', hs'⟩ := envUpdate_allOk (by decide) hvalid hinvalid
  obtain ⟨o, ho, hboot, -⟩ := update_survives (by decide) hs ⟨s.buf, allOk spiBoard⟩ hsound
  have heq : o = .ret s' 0 := Option.some.inj (ho.symm.trans hs')
  obtain ⟨t, ht, -, -, hnew⟩ := hboot s' (by rw [heq]; rfl)
  exact ⟨s, s', hs, hs', t, ht, hnew s' heq⟩

end Wm8850.Env
