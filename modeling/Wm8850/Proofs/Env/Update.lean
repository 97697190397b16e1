import Wm8850.Env.Syspara

/-! # What `env_update` can do

Every flash operation of `env_update` succeeds, or fails and the function returns `1`, or is cut by
a power loss (`flashOp_cases`). The data array in RAM is not touched (`envUpdate_sameData`). -/

namespace Wm8850.Env

open List Option

variable {dev offs rcode : Nat}

variable {b : Board} {n : Nat} {s s' : State b} {answer : Answer b} {done : Option b.Copy}
    {rest : State b → Outcome b} {mtd valid invalid : Mtd} {o : Outcome b} {answers : Answers b}

/-! ### Views -/

lemma Board.viewLen_ram (b : Board) : b.viewLen (b.norEnvMaxSize - 5) = b.dataLen := by
  have := b.le_norEnvMaxSize
  unfold Board.viewLen Board.dataLen
  omega

lemma Board.viewLen_copy (b : Board) : b.viewLen (b.envMaxSize - 5) = b.envLen := by
  have := b.le_envMaxSize
  unfold Board.viewLen Board.envLen
  omega

lemma EnvT.view_withView (e : EnvT n) (d : List UInt8) (h : d.length = b.viewLen n) :
    (e.withView b d h).view b = d := by
  unfold EnvT.withView EnvT.view
  by_cases hb : b.boot = .nand
  · rw [dif_pos hb, if_pos hb]
    cases d with
    | nil => simp [Board.viewLen, Board.header, hb] at h
    | cons c d => rfl
  · rw [dif_neg hb, if_neg hb]

lemma EnvT.withView_view (e : EnvT n) : e.withView b (e.view b) (e.length_view b) = e := by
  unfold EnvT.withView
  by_cases hb : b.boot = .nand
  · simp [EnvT.view, hb]
  · simp [EnvT.view, hb]

lemma EnvT.crcOk_readInto (e : b.Copy) (ram : b.Ram) : (e.readInto ram).CrcOk b ↔ e.CrcOk b := by
  have hlen : (e.view b).length = b.envLen := by
    rw [e.length_view, b.viewLen_copy]
  have hview : (e.readInto ram).view b = e.view b ++ ram.data.drop (b.envMaxSize - 5) := by
    unfold EnvT.readInto EnvT.view
    split <;> rfl
  have hcrc : envCrc32 b ((e.readInto ram).view b) = envCrc32 b (e.view b) := by
    unfold envCrc32 crc32
    rw [hview, ← hlen, take_left, take_length]
  unfold EnvT.CrcOk
  rw [hcrc]
  rfl

lemma EnvT.image_readInto (e : b.Copy) (ram : b.Ram) : (e.readInto ram).image = e := by
  ext1
  · rfl
  · rfl
  · exact take_left' e.len

lemma EnvT.crcOk_image (ram : b.Ram) : ram.image.CrcOk b ↔ ram.CrcOk b := by
  have hsize := b.le_envMaxSize
  have hview : ram.image.view b = (ram.view b).take b.envLen := by
    unfold EnvT.image EnvT.view Board.envLen Board.header
    by_cases hb : b.boot = .nand
    · simp only [if_pos hb]
      rw [show b.envMaxSize - 4 = b.envMaxSize - 5 + 1 by omega, take_succ_cons]
    · simp [if_neg hb]
  unfold EnvT.CrcOk envCrc32 crc32
  rw [hview, take_take, min_self]
  rfl

lemma crcOk_withCrc (s : State b) : s.withCrc.env.CrcOk b := by
  rfl

/-! ### Flash operations -/

@[simp] lemma State.setCell_same (s : State b) (dev offs : Nat) (e : Option b.Copy) :
    (s.setCell dev offs e).flash dev offs = e := by
  simp [State.setCell]

lemma State.setCell_other (s : State b) {dev' offs' : Nat} (e : Option b.Copy)
    (h : dev' ≠ dev ∨ offs' ≠ offs) :
    (s.setCell dev offs e).flash dev' offs' = s.flash dev' offs' := by
  have hne : ¬(dev' = dev ∧ offs' = offs) := fun heq => h.elim (· heq.1) (· heq.2)
  simp [State.setCell, hne]

lemma State.setCell_setCell (s : State b) (dev offs : Nat) (e e' : Option b.Copy) :
    (s.setCell dev offs e).setCell dev offs e' = s.setCell dev offs e' := by
  unfold State.setCell
  congr 1
  funext d o
  by_cases hcell : d = dev ∧ o = offs
  · rw [if_pos hcell, if_pos hcell]
  · rw [if_neg hcell, if_neg hcell]
    exact if_neg hcell

lemma flashOp_ret (h : flashOp s dev offs answer done rest = .ret s' rcode) :
    (∃ left, answer = .err left ∧ s' = s.setCell dev offs left ∧ rcode = 1) ∨
      (answer = .ok ∧ rest (s.setCell dev offs done) = .ret s' rcode) := by
  cases answer with
  | ok => exact .inr ⟨rfl, h⟩
  | err left =>
    cases h
    exact .inl ⟨left, rfl, rfl, rfl⟩
  | cut left => cases h

def State.withRead (s : State b) (e : b.Copy) : State b := { s with env := e.readInto s.env }

lemma read_eq {e : b.Copy} (h : s.flash mtd.index offs = some e) :
    s.read mtd offs = some (s.withRead e) := by
  rw [State.read, h]
  rfl

lemma crcOk_withRead (s : State b) (e : b.Copy) : (s.withRead e).env.CrcOk b ↔ e.CrcOk b :=
  e.crcOk_readInto s.env

def Outcome.Stopped (o : Outcome b) (s : State b) : Prop := o = .ret s 1 ∨ o = .lost s.flash

lemma Outcome.Stopped.flash (h : o.Stopped s) : o.flash = s.flash := by
  rcases h with rfl | rfl <;> rfl

lemma Outcome.Stopped.ne_ret (h : o.Stopped s) : o ≠ .ret s' 0 := by
  rintro rfl
  rcases h with h | h <;> cases h

lemma flashOp_cases (s : State b) (dev offs : Nat) (a : Answer b) (done : Option b.Copy)
    (rest : State b → Outcome b) :
    (∃ left, a.Stops left ∧ (flashOp s dev offs a done rest).Stopped (s.setCell dev offs left)) ∨
      (a = .ok ∧ flashOp s dev offs a done rest = rest (s.setCell dev offs done)) := by
  cases a with
  | ok => exact .inr ⟨rfl, rfl⟩
  | err left => exact .inl ⟨left, .inl rfl, .inl rfl⟩
  | cut left => exact .inl ⟨left, .inr rfl, .inr rfl⟩

/-! ### What stays in RAM -/

structure SameData (s s' : State b) : Prop where
  envPtr : s'.envPtr = s.envPtr
  mtdInit : s'.mtdInit = s.mtdInit
  view : s'.env.view b = s.env.view b

lemma SameData.trans {t u : State b} (h : SameData s t) (h' : SameData t u) : SameData s u :=
  ⟨h'.envPtr.trans h.envPtr, h'.mtdInit.trans h.mtdInit, h'.view.trans h.view⟩

lemma flashOp_sameData (h : flashOp s dev offs answer done rest = .ret s' rcode)
    (hrest : ∀ t, rest t = .ret s' rcode → SameData t s') : SameData s s' := by
  rcases flashOp_ret h with ⟨left, -, rfl, -⟩ | ⟨-, h⟩
  · exact ⟨rfl, rfl, rfl⟩
  · exact SameData.trans (t := s.setCell dev offs done) ⟨rfl, rfl, rfl⟩ (hrest _ h)

lemma updateNand_sameData (h : updateNand s mtd answers = .ret s' rcode) : SameData s s' := by
  unfold updateNand at h
  split at h
  · cases h
    exact ⟨rfl, rfl, rfl⟩
  rename_i offs _
  refine flashOp_sameData h fun t ht => flashOp_sameData ht fun u hu => ?_
  have hblock : SameData u { u with nandBlock := offs / mtd.erasesize } := ⟨rfl, rfl, rfl⟩
  refine hblock.trans ?_
  split at hu
  · cases hu
    exact ⟨rfl, rfl, rfl⟩
  · refine flashOp_sameData hu fun v hv => ?_
    cases hv
    exact ⟨rfl, rfl, rfl⟩

lemma updateCopies_sameData (hb : b.boot ≠ .nand)
    (h : updateCopies s valid invalid answers = .ret s' rcode) : SameData s s' := by
  refine flashOp_sameData h fun t ht => ?_
  -- The flags are not part of the data array.
  have hflags : SameData t (if t.env.flags = 0 then { t with env := { t.env with flags := 1 } }
      else t) := by
    split
    · exact ⟨rfl, rfl, by simp [EnvT.view, hb]⟩
    · exact ⟨rfl, rfl, rfl⟩
  refine hflags.trans (flashOp_sameData ht fun u hu => flashOp_sameData hu fun v hv => ?_)
  cases hv
  exact ⟨rfl, rfl, rfl⟩

lemma envUpdate_copies (hb : b.boot ≠ .nand) (s : State b) (answers : Answers b) :
    envUpdate s answers
      = (b.mtdTable s.envValid).bind fun valid => (b.mtdTable s.envInvalid).map fun invalid =>
          updateCopies s.withCrc valid invalid answers := by
  unfold envUpdate
  cases hboot : b.boot with
  | nand => exact absurd hboot hb
  | spi => rfl
  | nor => rfl
  | emmc => rfl

lemma envUpdate_nand (hb : b.boot = .nand) (s : State b) (answers : Answers b) : envUpdate s answers
      = (b.mtdTable s.envValid).map fun mtd => updateNand s.withCrc mtd answers := by
  unfold envUpdate
  simp only [hb]
  rfl

lemma envUpdate_sameData (h : envUpdate s answers = some (.ret s' rcode)) : SameData s s' := by
  have hcrc : SameData s s.withCrc := ⟨rfl, rfl, rfl⟩
  refine hcrc.trans ?_
  by_cases hb : b.boot = .nand
  · rw [envUpdate_nand hb] at h
    obtain ⟨mtd, -, h⟩ := map_eq_some_iff.mp h
    exact updateNand_sameData h
  · rw [envUpdate_copies hb] at h
    obtain ⟨valid, -, h⟩ := bind_eq_some_iff.mp h
    obtain ⟨invalid, -, h⟩ := map_eq_some_iff.mp h
    exact updateCopies_sameData hb h

lemma envUpdate_allOk (hb : b.boot ≠ .nand) (hvalid : b.mtdTable s.envValid = some valid)
    (hinvalid : b.mtdTable s.envInvalid = some invalid) :
    ∃ s', envUpdate s (allOk b) = some (.ret s' 0) := by
  rw [envUpdate_copies hb, hvalid, hinvalid]
  exact ⟨_, rfl⟩

end Wm8850.Env
