import Wm8850.Binder.Buffer

/-! # `binder_update_page_range` and the rounding to pages

For contents from `s` to `e`, the pages from `PAGE_ALIGN(s)` to `e & PAGE_MASK` lie inside
(`between_of_inRange`). Another page that has a part of them has the last byte of the header in
front or the first byte of the next (`edge_of_not_inRange`). So the range is what the contents add
to the pages of any set with these two bytes (`contents_pages`). -/

namespace Wm8850.Binder

open Lib Function Nat

variable {x i q b : Nat} {nextStart : Option Nat} {limit base e : Nat} {U : Nat → Prop}
  (env : PageEnv)

def InRange (base start last i : Nat) : Prop :=
  start ≤ base + i * pageSize ∧ base + i * pageSize < last

/-! ### The loops -/

lemma enomem_ne : - ENOMEM ≠ 0 := by decide

section
variable {base start i0 : Nat}

section
variable (hstart : start = base + i0 * pageSize)
include hstart

lemma pageIndex_add (n : Nat) : pageIndex base (start + n * pageSize) = i0 + n := by
  unfold pageIndex pageSize at *
  omega

lemma freeRange_spec (n : Nat) (pages : Nat → Bool)
    (h : ∀ i, i0 ≤ i → i < i0 + n → pages i = true) :
    ∃ pages', freeRange base start n pages = .ok pages' ∧
      ∀ i, pages' i = true ↔ pages i = true ∧ ¬(i0 ≤ i ∧ i < i0 + n) := by
  induction n generalizing pages with
  | zero => exact ⟨pages, rfl, fun i => ⟨fun hi => ⟨hi, by omega⟩, And.left⟩⟩
  | succ n ih =>
    have hlast : pages (i0 + n) = true := h _ (by omega) (by omega)
    have hrest : ∀ i, i0 ≤ i → i < i0 + n → update pages (i0 + n) false i = true := by
      intro i hi hin
      rw [update_of_ne (by omega)]
      exact h i hi (by omega)
    obtain ⟨pages', hrun, hpages⟩ := ih _ hrest
    refine ⟨pages', ?_, ?_⟩
    · rw [freeRange, pageIndex_add hstart, if_pos hlast]
      exact hrun
    intro i
    rw [hpages i]
    by_cases hi : i = i0 + n
    · rw [hi]
      simp
    · rw [update_of_ne hi]
      have : (i0 ≤ i ∧ i < i0 + n) ↔ (i0 ≤ i ∧ i < i0 + (n + 1)) := by omega
      rw [this]

lemma allocRange_spec (todo done : Nat)
    (pages : Nat → Bool) (hdone : ∀ i, i0 ≤ i → i < i0 + done → pages i = true)
    (htodo : ∀ i, i0 + done ≤ i → i < i0 + done + todo → pages i = false) :
    ∃ r, allocRange env base start todo done pages = .ok r ∧
      (r.1 = 0 ∧ (∀ i, r.2 i = true ↔ pages i = true ∨ i0 ≤ i ∧ i < i0 + done + todo) ∨
        r.1 ≠ 0 ∧ ∀ i, r.2 i = true ↔ pages i = true ∧ ¬(i0 ≤ i ∧ i < i0 + done)) := by
  induction todo generalizing done pages with
  | zero =>
    refine ⟨(0, pages), rfl, .inl ⟨rfl, fun i => ⟨.inl, ?_⟩⟩⟩
    rintro (hi | ⟨hi, hin⟩)
    · exact hi
    · exact hdone i hi hin
  | succ todo ih =>
    have hfirst : pages (i0 + done) = false := htodo _ (le_refl _) (by omega)
    rw [allocRange, pageIndex_add hstart, hfirst]
    simp only [Bool.false_eq_true, if_false]
    split
    · have hdone' : ∀ i, i0 ≤ i → i < i0 + (done + 1) → update pages (i0 + done) true i = true := by
        intro i hi hin
        by_cases hne : i = i0 + done
        · rw [hne, update_self]
        · rw [update_of_ne hne]
          exact hdone i hi (by omega)
      have htodo' : ∀ i, i0 + (done + 1) ≤ i → i < i0 + (done + 1) + todo →
          update pages (i0 + done) true i = false := by
        intro i hi hin
        rw [update_of_ne (by omega)]
        exact htodo i (by omega) (by omega)
      obtain ⟨r, hrun, hr⟩ := ih (done + 1) _ hdone' htodo'
      refine ⟨r, hrun, ?_⟩
      rcases hr with ⟨hr, hpages⟩ | ⟨hr, hpages⟩
      · refine .inl ⟨hr, fun i => ?_⟩
        rw [hpages i]
        by_cases hne : i = i0 + done
        · rw [hne]
          simp
        · rw [update_of_ne hne, show i0 + (done + 1) + todo = i0 + done + (todo + 1) by
            omega]
      refine .inr ⟨hr, fun i => ?_⟩
      rw [hpages i]
      by_cases hne : i = i0 + done
      · rw [hne, hfirst]
        simp
      · rw [update_of_ne hne]
        have : (i0 ≤ i ∧ i < i0 + (done + 1)) ↔ (i0 ≤ i ∧ i < i0 + done) := by omega
        rw [this]
    · obtain ⟨pages', hrun, hpages⟩ := freeRange_spec hstart done pages hdone
      refine ⟨(- ENOMEM, pages'), ?_, .inr ⟨enomem_ne, hpages⟩⟩
      rw [hrun]
      rfl

end

end

/-! ### The calls -/

section
variable {p : Proc} (start last : Nat) (hbase : p.buffer % pageSize = 0)
  (hstart : start % pageSize = 0) (hle : p.buffer ≤ start) (hlast : last % pageSize = 0)
include hbase hstart hle hlast

omit hlast in
lemma exists_index : ∃ i0, start = p.buffer + i0 * pageSize := by
  refine ⟨(start - p.buffer) / pageSize, ?_⟩
  unfold pageSize at *
  omega

lemma binderUpdatePageRange_free (vma : Bool)
    (h : ∀ i, InRange p.buffer start last i → p.pages i = true) :
    ∃ r, binderUpdatePageRange env p false start last vma = .ok r ∧
      ∀ i, r.2 i = true ↔ p.pages i = true ∧ ¬InRange p.buffer start last i := by
  unfold binderUpdatePageRange
  split
  · next hempty =>
    refine ⟨_, rfl, fun i => ⟨fun hi => ⟨hi, ?_⟩, And.left⟩⟩
    unfold InRange
    omega
  next hlt =>
  obtain ⟨i0, hi0⟩ := exists_index start hbase hstart hle
  have hrange : ∀ i, i0 ≤ i ∧ i < i0 + (last - start) / pageSize ↔
      InRange p.buffer start last i := by
    unfold InRange pageSize at *
    omega
  obtain ⟨pages', hrun, hpages⟩ := freeRange_spec hi0 ((last - start) / pageSize)
    p.pages fun i hi hin => h i ((hrange i).mp ⟨hi, hin⟩)
  refine ⟨(- ENOMEM, pages'), ?_, ?_⟩
  · rw [hrun]
    rfl
  · intro i
    rw [hpages i, hrange i]

lemma binderUpdatePageRange_alloc (vma : Bool)
    (h : ∀ i, InRange p.buffer start last i → p.pages i = false) :
    ∃ r, binderUpdatePageRange env p true start last vma = .ok r ∧
      (r.1 = 0 ∧ (∀ i, r.2 i = true ↔ p.pages i = true ∨ InRange p.buffer start last i) ∨
        r.1 ≠ 0 ∧ r.2 = p.pages) := by
  unfold binderUpdatePageRange
  split
  · next hempty =>
    refine ⟨_, rfl, .inl ⟨rfl, fun i => ⟨.inl, ?_⟩⟩⟩
    rintro (hi | hi)
    · exact hi
    · unfold InRange at hi
      omega
  next hlt =>
  simp only [Bool.not_true, Bool.false_eq_true, if_false]
  split
  · exact ⟨_, rfl, .inr ⟨enomem_ne, rfl⟩⟩
  obtain ⟨i0, hi0⟩ := exists_index start hbase hstart hle
  have hrange : ∀ i, i0 ≤ i ∧ i < i0 + (last - start + (pageSize - 1)) / pageSize ↔
      InRange p.buffer start last i := by
    unfold InRange pageSize at *
    omega
  obtain ⟨r, hrun, hr⟩ := allocRange_spec env hi0
    ((last - start + (pageSize - 1)) / pageSize) 0 p.pages
    (fun i hi hin => absurd hin (by omega))
    (fun i hi hin => h i ((hrange i).mp ⟨hi, hin⟩))
  refine ⟨r, hrun, ?_⟩
  rcases hr with ⟨hr, hpages⟩ | ⟨hr, hpages⟩
  · refine .inl ⟨hr, fun i => ?_⟩
    rw [hpages i, Nat.add_zero, hrange i]
  refine .inr ⟨hr, funext fun i => ?_⟩
  have hsame : r.2 i = true ↔ p.pages i = true := by
    rw [hpages i]
    exact ⟨And.left, fun hi => ⟨hi, by omega⟩⟩
  exact Bool.eq_iff_iff.mpr hsame

end

/-! ### Rounding -/

lemma pageMask_mod (x : Nat) : pageMask x % pageSize = 0 := mul_mod_left _ _

lemma pageAlign_mod (x : Nat) : pageAlign x % pageSize = 0 := pageMask_mod _

lemma min_page_mod (x y : Nat) : min (pageAlign x) (pageMask y) % pageSize = 0 := by
  rw [min_def]
  split
  · exact pageAlign_mod x
  · exact pageMask_mod y

section
variable (hx : x ≤ limit) (hlimit : limit % pageSize = 0) (hword : limit < wordSize)
include hx hlimit hword

lemma pageAlign_eq : pageAlign x = (x + (pageSize - 1)) / pageSize * pageSize := by
  unfold pageAlign pageMask
  rw [wadd_of_lt]
  unfold pageSize wordSize at *
  omega

lemma le_pageAlign : x ≤ pageAlign x := by
  rw [pageAlign_eq hx hlimit hword]
  unfold pageSize
  omega

lemma pageMask_le_pageAlign : pageMask x ≤ pageAlign x := by
  rw [pageAlign_eq hx hlimit hword]
  unfold pageMask pageSize
  omega

end

section
variable {base limit s g e : Nat} (hbase : base % pageSize = 0) (hlimit : limit % pageSize = 0)
  (hword : limit < wordSize)
include hbase hlimit hword

section
variable (hs : s ≤ limit) (hi : InRange base (pageAlign s) (min (pageAlign g) (pageMask e)) i)
include hs hi

lemma between_of_inRange (hbx : base ≤ x) (hx : pageIndex base x = i) : s ≤ x ∧ x < e := by
  obtain ⟨hlow, hhigh⟩ := hi
  rw [pageAlign_eq hs hlimit hword] at hlow
  replace hhigh := (Nat.lt_min.mp hhigh).2
  unfold pageIndex pageMask pageSize at *
  omega

lemma exists_of_inRange (hg : g ≤ limit) : ∃ x, s ≤ x ∧ x < g ∧ pageIndex base x = i := by
  obtain ⟨hlow, hhigh⟩ := hi
  rw [pageAlign_eq hs hlimit hword] at hlow
  rw [pageAlign_eq hg hlimit hword] at hhigh
  unfold pageIndex
  refine ⟨base + i * pageSize, ?_, ?_, ?_⟩
  all_goals
    unfold pageSize at *
    omega

end

lemma edge_of_not_inRange (hs : s ≤ limit) (hge : g ≤ e) (he : e ≤ limit) (hsx : s ≤ x)
    (hxe : x < e) (hgap : x < g ∨ e ≤ g + 44) (hx : pageIndex base x = i)
    (hi : ¬InRange base (pageAlign s) (min (pageAlign g) (pageMask e)) i) :
    pageIndex base (s - 1) = i ∨ e < limit ∧ pageIndex base e = i := by
  unfold InRange at hi
  rw [pageAlign_eq hs hlimit hword, pageAlign_eq (hge.trans he) hlimit hword, Nat.lt_min] at hi
  unfold pageIndex pageMask pageSize at *
  omega

end

/-- The page with the index `i` is one that `binder_delete_free_buffer` frees, for the header at `b`
behind the one at `q`. -/
def HeaderPage (base q b : Nat) (nextStart : Option Nat) (i : Nat) : Prop :=
  (freePageStart b q nextStart || freePageEnd b q nextStart) = true ∧
    InRange base (if freePageStart b q nextStart then bufferStartPage b else bufferEndPage b)
      ((if freePageEnd b q nextStart then bufferEndPage b else bufferStartPage b) + pageSize) i

lemma pageIndex_mul {B : Nat} (hx : B * pageSize ≤ x) :
    pageIndex (B * pageSize) x = x / pageSize - B := by
  unfold pageIndex pageSize at *
  omega

/-- These pages have neither the last byte of the header in front nor the first byte of the next
one, which is at `e`. -/
theorem headerPage_iff (hbase : base % pageSize = 0) (hle : base ≤ q)
    (hq : q + bufferHeader ≤ b) (he : b + bufferHeader ≤ e)
    (hnext : nextStart = none ∨ nextStart = some (bufferStartPage e)) :
    HeaderPage base q b nextStart i ↔
      (pageIndex base b = i ∨ pageIndex base (b + bufferHeader - 1) = i) ∧
        pageIndex base (q + bufferHeader - 1) ≠ i ∧ ¬(nextStart ≠ none ∧ pageIndex base e = i) := by
  obtain ⟨B, rfl⟩ : ∃ B, base = B * pageSize :=
    ⟨base / pageSize, (Nat.div_mul_cancel (dvd_of_mod_eq_zero hbase)).symm⟩
  have hheader : 0 < bufferHeader ∧ bufferHeader ≤ pageSize := by decide
  -- The four bytes lie on pages in this order, and a header is on two pages at most.
  have hqb : (q + bufferHeader - 1) / pageSize ≤ b / pageSize := Nat.div_le_div_right (by omega)
  have hbb : b / pageSize ≤ (b + bufferHeader - 1) / pageSize := Nat.div_le_div_right (by omega)
  have hbe : (b + bufferHeader - 1) / pageSize ≤ e / pageSize := Nat.div_le_div_right (by omega)
  have htwo : (b + bufferHeader - 1) / pageSize ≤ b / pageSize + 1 := by
    rw [← add_div_right b (by decide)]
    exact Nat.div_le_div_right (by omega)
  have hBq : B ≤ (q + bufferHeader - 1) / pageSize := by
    rw [Nat.le_div_iff_mul_le (by decide)]
    omega
  rw [pageIndex_mul (by omega), pageIndex_mul (by omega), pageIndex_mul (by omega),
    pageIndex_mul (by omega)]
  unfold HeaderPage InRange freePageStart freePageEnd bufferStartPage bufferEndPage pageMask
  unfold bufferStartPage pageMask at hnext
  generalize (q + bufferHeader - 1) / pageSize = pq at *
  generalize (b + bufferHeader - 1) / pageSize = pl at *
  generalize b / pageSize = pb at *
  generalize e / pageSize = pe at *
  unfold pageSize at hnext ⊢
  -- Which of these pages fall together decides both tests of the source.
  rcases lt_or_eq_of_le hqb with hs | rfl <;>
    rcases lt_or_eq_of_le hbb with hl | rfl <;>
    rcases lt_or_eq_of_le hbe with hn | rfl <;>
    rcases hnext with rfl | rfl <;> simp [ne_of_lt, ne_of_gt, *] <;> omega

lemma freeHeaderPages_spec {p : Proc} (hbase : p.buffer % pageSize = 0)
    (hle : p.buffer ≤ b) (h : ∀ i, HeaderPage p.buffer q b nextStart i → p.pages i = true) :
    ∃ pages, freeHeaderPages env p b q nextStart = .ok pages ∧
      ∀ i, pages i = true ↔ p.pages i = true ∧ ¬HeaderPage p.buffer q b nextStart i := by
  unfold freeHeaderPages
  unfold HeaderPage at *
  by_cases hany : (freePageStart b q nextStart || freePageEnd b q nextStart) = true
  · have hstart : (if freePageStart b q nextStart then bufferStartPage b else bufferEndPage b)
        % pageSize = 0 := by
      split <;> exact pageMask_mod _
    have hlast : ((if freePageEnd b q nextStart then bufferEndPage b else bufferStartPage b)
        + pageSize) % pageSize = 0 := by
      rw [add_mod_right]
      split <;> exact pageMask_mod _
    have hlow : p.buffer ≤ if freePageStart b q nextStart then bufferStartPage b
        else bufferEndPage b := by
      unfold bufferStartPage bufferEndPage pageMask bufferHeader pageSize at *
      split <;> omega
    obtain ⟨r, hrun, hpages⟩ := binderUpdatePageRange_free env _ _ hbase hstart hlow hlast false
      fun i hi => h i ⟨hany, hi⟩
    refine ⟨r.2, ?_, fun i => ?_⟩
    · simp only [hany]
      rw [hrun]
      rfl
    · rw [hpages i, and_iff_right hany]
  · refine ⟨p.pages, ?_, fun i => ⟨fun hi => ⟨hi, fun hpage => hany hpage.1⟩, And.left⟩⟩
    simp only [hany]
    rfl

def OnPage (base : Nat) (U : Nat → Prop) (i : Nat) : Prop := ∃ x, U x ∧ pageIndex base x = i

lemma contents_pages {s g m : Nat} (hbase : base % pageSize = 0)
    (hlimit : limit % pageSize = 0) (hword : limit < wordSize) (hsg : s ≤ g) (hgm : g ≤ m)
    (hme : m ≤ e) (he : e ≤ limit) (hgap : m = g ∨ e ≤ g + 44)
    (hU : ∀ x, U x → base ≤ x ∧ (x < s ∨ e ≤ x)) (hfront : U (s - 1)) (hback : e < limit → U e)
    (i : Nat) : (OnPage base (fun x => U x ∨ s ≤ x ∧ x < m) i ↔
      OnPage base U i ∨ InRange base (pageAlign s) (min (pageAlign g) (pageMask e)) i) ∧
    (InRange base (pageAlign s) (min (pageAlign g) (pageMask e)) i → ¬OnPage base U i) := by
  have hs : s ≤ limit := by omega
  refine ⟨⟨?_, ?_⟩, ?_⟩
  · rintro ⟨x, hx | ⟨hsx, hxm⟩, hi⟩
    · exact .inl ⟨x, hx, hi⟩
    by_cases hin : InRange base (pageAlign s) (min (pageAlign g) (pageMask e)) i
    · exact .inr hin
    left
    rcases edge_of_not_inRange hbase hlimit hword hs (hgm.trans hme) he hsx (by omega) (by omega)
      hi hin with hedge | ⟨hlt, hedge⟩
    · exact ⟨s - 1, hfront, hedge⟩
    · exact ⟨e, hback hlt, hedge⟩
  · rintro (⟨x, hx, hi⟩ | hin)
    · exact ⟨x, .inl hx, hi⟩
    · obtain ⟨x, hsx, hxg, hi⟩ := exists_of_inRange hbase hlimit hword hs hin (by omega)
      exact ⟨x, .inr ⟨hsx, by omega⟩, hi⟩
  · rintro hin ⟨x, hx, hi⟩
    have hbetween := between_of_inRange hbase hlimit hword hs hin (hU x hx).1 hi
    have := (hU x hx).2
    omega

lemma header_pages (hbase : base % pageSize = 0)
    (hle : base ≤ q) (hq : q + bufferHeader ≤ b) (he : b + bufferHeader ≤ e)
    (hnext : nextStart = none ∧ e = limit ∨ nextStart = some (bufferStartPage e) ∧ U e)
    (hU : ∀ x, U x → base ≤ x ∧ x < limit ∧ (x < q + bufferHeader ∨ e ≤ x))
    (hfront : U (q + bufferHeader - 1)) (i : Nat) :
    (OnPage base (fun x => U x ∨ b ≤ x ∧ x < b + bufferHeader) i ↔
      OnPage base U i ∨ HeaderPage base q b nextStart i) ∧
    (HeaderPage base q b nextStart i → ¬OnPage base U i) := by
  rw [headerPage_iff hbase hle hq he (hnext.imp And.left And.left)]
  refine ⟨⟨?_, ?_⟩, ?_⟩
  · rintro ⟨x, hx | ⟨hbx, hxb⟩, hi⟩
    · exact .inl ⟨x, hx, hi⟩
    -- the header has bytes on its first page and on its last one only
    have hpage : pageIndex base b = i ∨ pageIndex base (b + bufferHeader - 1) = i := by
      unfold pageIndex bufferHeader pageSize at *
      omega
    by_cases hqi : pageIndex base (q + bufferHeader - 1) = i
    · exact .inl ⟨_, hfront, hqi⟩
    by_cases hei : nextStart ≠ none ∧ pageIndex base e = i
    · rcases hnext with ⟨hnone, -⟩ | ⟨-, hUe⟩
      · exact absurd hnone hei.1
      · exact .inl ⟨e, hUe, hei.2⟩
    · exact .inr ⟨hpage, hqi, hei⟩
  · rintro (⟨x, hx, hi⟩ | ⟨hi | hi, -, -⟩)
    · exact ⟨x, .inl hx, hi⟩
    · exact ⟨b, .inr ⟨le_refl _, by unfold bufferHeader; omega⟩, hi⟩
    · exact ⟨b + bufferHeader - 1, .inr (by unfold bufferHeader; omega), hi⟩
  rintro ⟨hpage, hqi, hei⟩ ⟨x, hx, hi⟩
  obtain ⟨hbx, hxl, hgap⟩ := hU x hx
  have hnext' : ¬(e < limit ∧ pageIndex base e = i) := by
    rintro ⟨hlt, hie⟩
    rcases hnext with ⟨-, hel⟩ | ⟨hsome, -⟩
    · omega
    · exact hei ⟨by rw [hsome]; simp, hie⟩
  -- a byte of the same page would bring the neighbour to that page
  unfold pageIndex bufferHeader pageSize at *
  omega

end Wm8850.Binder
