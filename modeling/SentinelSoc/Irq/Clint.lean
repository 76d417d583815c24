/-
  The core-local interruptor (`clint.sv`): one software interrupt bit and a 64-bit
  timer behind a 32-bit OBI port.

  * `Clint.step` is the clock edge; a write of one half of `mtime` takes the place
    of the increment;
  * `mtime_add`: without such a write the counter counts cycles;
  * `tearFree`: the two access sequences that software uses on the halves.
-/
import SentinelSoc.Bus.Slaves

namespace SentinelSoc

structure Clint where
  msipQ : Bool
  mtimecmpQ : BitVec 64
  mtimeQ : BitVec 64
  rvalid : Bool
  rdata : BitVec 32
  err : Bool

/-- The high half of a 64-bit register. -/
def hiHalf (x : BitVec 64) : BitVec 32 := x.extractLsb' 32 32

/-- The low half. -/
def loHalf (x : BitVec 64) : BitVec 32 := x.extractLsb' 0 32

/-- `apply_be` -/
def applyBe (current wdata : BitVec 32) (be : BitVec 4) : BitVec 32 := writeWord be wdata current

namespace Clint

def msipOff : BitVec 16 := 0x0000
def mtimecmpLoOff : BitVec 16 := 0x4000
def mtimecmpHiOff : BitVec 16 := 0x4004
def mtimeLoOff : BitVec 16 := 0xBFF8
def mtimeHiOff : BitVec 16 := 0xBFFC

/-- The timer compares against its greatest value, so it is off. -/
def reset : Clint := ⟨false, 0xFFFFFFFFFFFFFFFF, 0, false, 0, false⟩

/-- `addr_i[15:0]` -/
def offset (r : ObiReq) : BitVec 16 := r.addr.extractLsb' 0 16

/-- `gnt_o` is 1, so every request is an access. -/
def doAccess (r : ObiReq) : Bool := r.req

/-- A write of the register at `off`. -/
def writes (r : ObiReq) (off : BitVec 16) : Bool := doAccess r && r.we && offset r == off

/-- A read of the register at `off`. -/
def reads (r : ObiReq) (off : BitVec 16) : Bool := doAccess r && !r.we && offset r == off

/-- A write of all four bytes. -/
def writesWord (r : ObiReq) (off : BitVec 16) (w : BitVec 32) : Bool :=
  writes r off && r.be == 15 && r.wdata == w

variable (c : Clint) (r : ObiReq)

/-- The counter: neither half carries into or out of a half that is written. -/
def mtimeD : BitVec 64 :=
  if writes r mtimeLoOff then hiHalf c.mtimeQ ++ applyBe (loHalf c.mtimeQ) r.wdata r.be
  else if writes r mtimeHiOff then
    applyBe (hiHalf c.mtimeQ) r.wdata r.be ++ (loHalf c.mtimeQ + 1)
  else c.mtimeQ + 1

def mtimecmpD : BitVec 64 :=
  (if writes r mtimecmpHiOff then applyBe (hiHalf c.mtimecmpQ) r.wdata r.be
    else hiHalf c.mtimecmpQ) ++
  (if writes r mtimecmpLoOff then applyBe (loHalf c.mtimecmpQ) r.wdata r.be
    else loHalf c.mtimecmpQ)

/-- `read_data` and `addr_err` of an access. -/
def readDecode : BitVec 32 × Bool :=
  if offset r = msipOff then ((BitVec.ofBool c.msipQ).setWidth 32, false)
  else if offset r = mtimecmpLoOff then (loHalf c.mtimecmpQ, false)
  else if offset r = mtimecmpHiOff then (hiHalf c.mtimecmpQ, false)
  else if offset r = mtimeLoOff then (loHalf c.mtimeQ, false)
  else if offset r = mtimeHiOff then (hiHalf c.mtimeQ, false)
  else (0, true)

/-- One clock edge. -/
def step : Clint where
  msipQ := if writes r msipOff && r.be.getLsbD 0 then r.wdata.getLsbD 0 else c.msipQ
  mtimecmpQ := c.mtimecmpD r
  mtimeQ := c.mtimeD r
  rvalid := doAccess r
  rdata := if doAccess r then if r.we then 0 else (c.readDecode r).1 else c.rdata
  err := doAccess r && (c.readDecode r).2

def mtip : Bool := decide (c.mtimecmpQ ≤ c.mtimeQ)

def msip : Bool := c.msipQ

/-- The run from `c` under the requests `i`. -/
def run (c : Clint) (i : ℕ → ObiReq) : ℕ → Clint := Sync.run step c i

/-- No write of either half of the counter. -/
def KeepsMtime (r : ObiReq) : Prop :=
  writes r mtimeLoOff = false ∧ writes r mtimeHiOff = false

instance (r : ObiReq) : Decidable (KeepsMtime r) := inferInstanceAs (Decidable (_ ∧ _))

/-- The counter is read high, low, high, and both high reads give `h`. -/
structure ReadsMtime (c : Clint) (i : ℕ → ObiReq) (t₀ t₁ t₂ : ℕ) (h lo : BitVec 32) : Prop where
  order : t₀ < t₁ ∧ t₁ < t₂
  near : t₂ - t₀ < 2 ^ 32
  first : reads (i t₀) mtimeHiOff = true ∧ (run c i (t₀ + 1)).rdata = h
  second : reads (i t₁) mtimeLoOff = true ∧ (run c i (t₁ + 1)).rdata = lo
  third : reads (i t₂) mtimeHiOff = true ∧ (run c i (t₂ + 1)).rdata = h
  keeps : ∀ u, t₀ < u → u < t₂ → KeepsMtime (i u)

/-- The compare register goes from `old` to `new` by three writes, and by nothing else in
    between. -/
structure WritesMtimecmp (c : Clint) (i : ℕ → ObiReq) (t₀ t₁ t₂ : ℕ) (old new : BitVec 64) :
    Prop where
  order : t₀ < t₁ ∧ t₁ < t₂
  start : (run c i t₀).mtimecmpQ = old
  first : writesWord (i t₀) mtimecmpLoOff 0xFFFFFFFF = true
  second : writesWord (i t₁) mtimecmpHiOff (hiHalf new) = true
  third : writesWord (i t₂) mtimecmpLoOff (loHalf new) = true
  other : ∀ u, t₀ < u → u < t₂ → u ≠ t₁ → (run c i (u + 1)).mtimecmpQ = (run c i u).mtimecmpQ

variable {c : Clint} {r : ObiReq} {i : ℕ → ObiReq} {t u t₀ t₁ t₂ : ℕ} {h lo : BitVec 32}
  {old new : BitVec 64}

theorem run_succ (t : ℕ) : run c i (t + 1) = (run c i t).step (i t) := rfl

/-! ## Halves -/

theorem toNat_hiHalf (x : BitVec 64) : (hiHalf x).toNat = x.toNat / 2 ^ 32 := by
  simp only [hiHalf, BitVec.extractLsb'_toNat, Nat.shiftRight_eq_div_pow]
  omega

theorem toNat_loHalf (x : BitVec 64) : (loHalf x).toNat = x.toNat % 2 ^ 32 := by
  simp [loHalf]

theorem toNat_halves (x y : BitVec 32) : (x ++ y).toNat = x.toNat * 2 ^ 32 + y.toNat := by
  rw [BitVec.toNat_append, ← Nat.shiftLeft_add_eq_or_of_lt y.isLt, Nat.shiftLeft_eq]

@[simp] theorem hiHalf_append (x y : BitVec 32) : hiHalf (x ++ y) = x := by
  apply BitVec.eq_of_toNat_eq
  rw [toNat_hiHalf, toNat_halves]
  omega

@[simp] theorem loHalf_append (x y : BitVec 32) : loHalf (x ++ y) = y := by
  apply BitVec.eq_of_toNat_eq
  rw [toNat_loHalf, toNat_halves]
  omega

theorem hiHalf_append_loHalf (x : BitVec 64) : hiHalf x ++ loHalf x = x := by
  apply BitVec.eq_of_toNat_eq
  rw [toNat_halves, toNat_hiHalf, toNat_loHalf]
  omega

@[simp] theorem applyBe_full (current wdata : BitVec 32) :
    applyBe current wdata 15#4 = wdata := by
  ext j hj
  simp only [applyBe, writeWord, lane]
  simp
  grind

/-- With the low half all ones a register is as great as its high half allows. -/
theorem append_le_ones (h : BitVec 32) (x : BitVec 64) (hx : hiHalf x = h) :
    x ≤ h ++ (0xFFFFFFFF : BitVec 32) := by
  have hn := toNat_hiHalf x
  rw [hx] at hn
  rw [BitVec.le_def, toNat_halves, hn]
  have hlo : (0xFFFFFFFF : BitVec 32).toNat = 2 ^ 32 - 1 := rfl
  omega

/-! ## Steps -/

/-- The offsets are different, so a request is one access only. -/
theorem keepsMtime_of_reads {off : BitVec 16} (hr : reads r off = true) : KeepsMtime r := by
  simp only [reads, Bool.and_eq_true, Bool.not_eq_true'] at hr
  simp [KeepsMtime, writes, hr.1.2]

theorem step_mtimeQ (hk : KeepsMtime r) : (c.step r).mtimeQ = c.mtimeQ + 1 := by
  simp [step, mtimeD, hk.1, hk.2]

theorem step_rdata_hi (hr : reads r mtimeHiOff = true) : (c.step r).rdata = hiHalf c.mtimeQ := by
  simp only [reads, Bool.and_eq_true, Bool.not_eq_true', beq_iff_eq] at hr
  obtain ⟨⟨ha, hw⟩, ho⟩ := hr
  simp [step, ha, hw, readDecode, ho, msipOff, mtimecmpLoOff, mtimecmpHiOff, mtimeLoOff, mtimeHiOff]

theorem step_rdata_lo (hr : reads r mtimeLoOff = true) : (c.step r).rdata = loHalf c.mtimeQ := by
  simp only [reads, Bool.and_eq_true, Bool.not_eq_true', beq_iff_eq] at hr
  obtain ⟨⟨ha, hw⟩, ho⟩ := hr
  simp [step, ha, hw, readDecode, ho, msipOff, mtimecmpLoOff, mtimecmpHiOff, mtimeLoOff]

theorem step_mtimecmpQ_lo {w : BitVec 32} (hw : writesWord r mtimecmpLoOff w = true) :
    (c.step r).mtimecmpQ = hiHalf c.mtimecmpQ ++ w := by
  simp only [writesWord, Bool.and_eq_true, beq_iff_eq] at hw
  obtain ⟨⟨hl, hb⟩, rfl⟩ := hw
  have hh : writes r mtimecmpHiOff = false := by
    simp only [writes, Bool.and_eq_true, beq_iff_eq] at hl
    simp [writes, hl.2, mtimecmpLoOff, mtimecmpHiOff]
  simp [step, mtimecmpD, hl, hh, hb]

theorem step_mtimecmpQ_hi {w : BitVec 32} (hw : writesWord r mtimecmpHiOff w = true) :
    (c.step r).mtimecmpQ = w ++ loHalf c.mtimecmpQ := by
  simp only [writesWord, Bool.and_eq_true, beq_iff_eq] at hw
  obtain ⟨⟨hh, hb⟩, rfl⟩ := hw
  have hl : writes r mtimecmpLoOff = false := by
    simp only [writes, Bool.and_eq_true, beq_iff_eq] at hh
    simp [writes, hh.2, mtimecmpLoOff, mtimecmpHiOff]
  simp [step, mtimecmpD, hl, hh, hb]

/-! ## Runs -/

/-- The counter counts the cycles in which it is not written. -/
theorem mtime_add {k : ℕ} (hk : ∀ u, t ≤ u → u < t + k → KeepsMtime (i u)) :
    (run c i (t + k)).mtimeQ = (run c i t).mtimeQ + BitVec.ofNat 64 k := by
  induction k with
  | zero => simp
  | succ k ih =>
    rw [← Nat.add_assoc, run_succ, step_mtimeQ (hk _ (by omega) (by omega)),
      ih fun u hu hu' => hk u hu (by omega), BitVec.ofNat_add, BitVec.add_assoc]
    rfl

/-- Equal high halves fewer than `2 ^ 32` counts apart have no carry between them. -/
theorem hiHalf_between {x : BitVec 64} {j k : ℕ} (hjk : j ≤ k) (hk : k < 2 ^ 32)
    (hx : hiHalf (x + BitVec.ofNat 64 k) = hiHalf x) :
    hiHalf (x + BitVec.ofNat 64 j) = hiHalf x := by
  have hn := congrArg BitVec.toNat hx
  apply BitVec.eq_of_toNat_eq
  simp only [toNat_hiHalf, BitVec.toNat_add, BitVec.toNat_ofNat] at hn ⊢
  have hlt := x.isLt
  omega

theorem readsMtime_value (hs : ReadsMtime c i t₀ t₁ t₂ h lo) : (run c i t₁).mtimeQ = h ++ lo := by
  obtain ⟨j, hj⟩ := Nat.exists_eq_add_of_le hs.order.1.le
  obtain ⟨k, hk⟩ := Nat.exists_eq_add_of_le (hs.order.1.trans hs.order.2).le
  have hfree : ∀ u, t₀ ≤ u → u < t₂ → KeepsMtime (i u) := by
    intro u hu hu'
    rcases Nat.eq_or_lt_of_le hu with rfl | hu
    · exact keepsMtime_of_reads hs.first.1
    · exact hs.keeps u hu hu'
  have h₁ : (run c i t₁).mtimeQ = (run c i t₀).mtimeQ + BitVec.ofNat 64 j := by
    rw [hj]
    exact mtime_add fun u hu hu' => hfree u hu (by have := hs.order.2; omega)
  have h₂ : (run c i t₂).mtimeQ = (run c i t₀).mtimeQ + BitVec.ofNat 64 k := by
    rw [hk]
    exact mtime_add fun u hu hu' => hfree u hu (by omega)
  have hh₀ : hiHalf (run c i t₀).mtimeQ = h := by
    rw [← step_rdata_hi hs.first.1, ← run_succ, hs.first.2]
  have hl₁ : loHalf (run c i t₁).mtimeQ = lo := by
    rw [← step_rdata_lo hs.second.1, ← run_succ, hs.second.2]
  have hh₂ : hiHalf (run c i t₂).mtimeQ = h := by
    rw [← step_rdata_hi hs.third.1, ← run_succ, hs.third.2]
  have hh₁ : hiHalf (run c i t₁).mtimeQ = h := by
    rw [h₁, hiHalf_between (k := k), hh₀]
    · have := hs.order.2
      omega
    · have := hs.near
      omega
    · rw [← h₂, hh₂, hh₀]
  rw [← hiHalf_append_loHalf (run c i t₁).mtimeQ, hh₁, hl₁]

/-- In every cycle of the sequence the compare register is at least `old` or at least `new`. -/
theorem writesMtimecmp_ge (hs : WritesMtimecmp c i t₀ t₁ t₂ old new) (hu : t₀ ≤ u)
    (hu' : u ≤ t₂ + 1) :
    old ≤ (run c i u).mtimecmpQ ∨ new ≤ (run c i u).mtimecmpQ := by
  have hone : ∀ u, t₀ + 1 ≤ u → u ≤ t₁ →
      (run c i u).mtimecmpQ = hiHalf old ++ (0xFFFFFFFF : BitVec 32) := by
    intro u hu hu'
    have h := Sync.kept_between (f := fun u => (run c i u).mtimecmpQ) hu fun v hv hv' =>
      hs.other v (by omega) (by have := hs.order.2; omega) (by omega)
    rw [h, run_succ, step_mtimecmpQ_lo hs.first, hs.start]
  have htwo : ∀ u, t₁ + 1 ≤ u → u ≤ t₂ →
      (run c i u).mtimecmpQ = hiHalf new ++ (0xFFFFFFFF : BitVec 32) := by
    intro u hu hu'
    have h := Sync.kept_between (f := fun u => (run c i u).mtimecmpQ) hu fun v hv hv' =>
      hs.other v (by have := hs.order.1; omega) (by omega) (by omega)
    rw [h, run_succ, step_mtimecmpQ_hi hs.second, hone t₁ hs.order.1 le_rfl, loHalf_append]
  have hthree : (run c i (t₂ + 1)).mtimecmpQ = new := by
    rw [run_succ, step_mtimecmpQ_lo hs.third, htwo t₂ hs.order.2 le_rfl, hiHalf_append,
      hiHalf_append_loHalf]
  have hcases : u = t₀ ∨ (t₀ + 1 ≤ u ∧ u ≤ t₁) ∨ (t₁ + 1 ≤ u ∧ u ≤ t₂) ∨ u = t₂ + 1 := by omega
  rcases hcases with rfl | ⟨h₁, h₂⟩ | ⟨h₁, h₂⟩ | rfl
  · exact .inl (by rw [hs.start]; exact BitVec.le_refl _)
  · exact .inl (by rw [hone u h₁ h₂]; exact append_le_ones _ _ rfl)
  · exact .inr (by rw [htwo u h₁ h₂]; exact append_le_ones _ _ rfl)
  · exact .inr (by rw [hthree]; exact BitVec.le_refl _)

/-- **Tear-free access to the timer.** Reads of the high, the low and the high half that agree give
    the counter as it was in the cycle of the low read; and while the compare register is changed by
    way of an all-ones low half, the timer interrupt is not raised before the old or the new
    time. -/
theorem tearFree (c : Clint) (i : ℕ → ObiReq) :
    (∀ t₀ t₁ t₂ h lo, ReadsMtime c i t₀ t₁ t₂ h lo → (run c i t₁).mtimeQ = h ++ lo) ∧
    (∀ t₀ t₁ t₂ old new, WritesMtimecmp c i t₀ t₁ t₂ old new → ∀ u, t₀ ≤ u → u ≤ t₂ + 1 →
      (run c i u).mtip = true → old ≤ (run c i u).mtimeQ ∨ new ≤ (run c i u).mtimeQ) := by
  refine ⟨fun t₀ t₁ t₂ h lo hs => readsMtime_value hs, fun t₀ t₁ t₂ old new hs u hu hu' hm => ?_⟩
  have hle : (run c i u).mtimecmpQ ≤ (run c i u).mtimeQ := by simpa [mtip] using hm
  exact (writesMtimecmp_ge hs hu hu').imp (BitVec.le_trans · hle) (BitVec.le_trans · hle)

/-- The counter is read in the first three cycles, then the compare register is set to 5, a time
    that has come when it is written. -/
def timerProgram (t : ℕ) : ObiReq :=
  match t with
  | 0 => ⟨true, 0x0200BFFC, false, 15, 0⟩
  | 1 => ⟨true, 0x0200BFF8, false, 15, 0⟩
  | 2 => ⟨true, 0x0200BFFC, false, 15, 0⟩
  | 3 => ⟨true, 0x02004000, true, 15, 0xFFFFFFFF⟩
  | 4 => ⟨true, 0x02004004, true, 15, 0⟩
  | 5 => ⟨true, 0x02004000, true, 15, 5⟩
  | _ => .idle

theorem tearFree_timerProgram :
    (run reset timerProgram 1).mtimeQ = 1 ∧ (run reset timerProgram 6).mtip = true ∧
      ((0xFFFFFFFFFFFFFFFF : BitVec 64) ≤ (run reset timerProgram 6).mtimeQ ∨
        5 ≤ (run reset timerProgram 6).mtimeQ) := by
  have hm : (run reset timerProgram 6).mtip = true := by decide
  refine ⟨(tearFree reset timerProgram).1 0 1 2 0 1 ?_, hm,
    (tearFree reset timerProgram).2 3 4 5 _ 5 ?_ 6 (by decide) (by decide) hm⟩
  · exact ⟨by decide, by decide, by decide, by decide, by decide, fun u hu hu' => by
      obtain rfl : u = 1 := by omega
      decide⟩
  · exact ⟨by decide, by decide, by decide, by decide, by decide,
      fun u hu hu' hu'' => by omega⟩

end Clint

end SentinelSoc
