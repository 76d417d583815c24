/-
  The mode OLD, in which the tag of the destination is to stay as it is.

  * `OldWrite`: an instruction in the mode OLD writes a register;
  * `OldKept`: the tag is kept, in the register and in what is read of it next;
  * `oldKept_iff`: without a writeback stage the write enable of the decoder
    clears the tag.
-/
import SentinelSoc.Core.Retire

namespace SentinelSoc

namespace Core

/-! ## Keeping a tag -/

section Trace

variable (wbs : Bool) (r : ℕ → Core) (i : ℕ → PipeIn)

/-- The tag of register `a` once what is in writeback has been written. -/
def storedTag (s : Core) (a : BitVec 5) : Bool := if wbs then s.drainedTag a else s.tagOf a

/-- An instruction in the mode OLD enters ID in cycle `e` and leaves it in cycle `t`, writing an
    integer register. Without a writeback stage the register file has one source in each cycle
    (`RFWriteFromOneSourceOnly`). -/
structure OldWrite (e t : ℕ) : Prop where
  lt : e < t
  enters : (r e).instrNewIdD wbs (i e) = true
  stays : ∀ v, e < v → v < t → (r v).instrNewIdD wbs (i v) = false
  leaves : (r t).instrDone wbs (i t) = true
  writes : (r t).rfWeId wbs (i t) = true ∨ (r t).instrTypeWb = .load
  source : wbs = false → ((r t).rfWeLsu wbs (i t) = true ↔ (r t).instrTypeWb = .load)
  mode : modeTag (r t).instrRdataId (r t).tpr = .old
  rd : Instr.rd (r t).instrRdataId ≠ 0

/-- No other instruction has come to write before cycle `n`: with a writeback stage none has left
    ID, without one none has entered it, and no data have come. -/
def Untouched (t n : ℕ) : Prop :=
  ∀ v, t ≤ v → v + 1 < n →
    if wbs then (r (v + 1)).instrDone wbs (i (v + 1)) = false
    else (r v).instrNewIdD wbs (i v) = false ∧ (r (v + 1)).rfWeLsu wbs (i (v + 1)) = false

/-- After the instruction its destination has the tag that it had before, and the next
    instruction reads that tag. -/
def OldKept (e t : ℕ) : Prop :=
  (r (t + 1)).storedTag wbs (Instr.rd (r t).instrRdataId) =
      (r (e + 1)).storedTag wbs (Instr.rd (r t).instrRdataId) ∧
    ∀ n, t < n → Untouched wbs r i t n →
      (r n).fwTag wbs (Instr.rd (r t).instrRdataId) =
        (r (e + 1)).storedTag wbs (Instr.rd (r t).instrRdataId)

end Trace

variable {wbs : Bool} {s : Core} {x : PipeIn}

/-! ## A word that stays in the IF/ID registers -/

theorem word_step (h : s.instrNewIdD wbs x = false) :
    (s.step wbs x).instrRdataId = s.instrRdataId := by
  simp [Core.step, h]

/-- Only CSR instructions write the policy. -/
theorem tpr_step (h : Instr.opcode s.instrRdataId ≠ .system) : (s.step wbs x).tpr = s.tpr := by
  have hc : s.dec.csrAccess = false := by simp [dec, decode, h]
  simp [Core.step, policyWe, csrOpEn, hc]

theorem modeTag_step (h : s.instrNewIdD wbs x = false) :
    modeTag (s.step wbs x).instrRdataId (s.step wbs x).tpr = modeTag s.instrRdataId s.tpr := by
  rw [word_step h]
  by_cases hs : Instr.opcode s.instrRdataId = .system
  · simp [modeTag, hs]
  · rw [tpr_step hs]

/-! ## The tag registers without a writeback stage -/

theorem tagOf_step_false (a : BitVec 5) : (s.step false x).tagOf a =
    if s.rfWeTagWb false x = true ∧ Instr.rd s.instrRdataId = a ∧ a ≠ 0 then
      s.rfWdataTagWb false x
    else s.tagOf a := tagOf_write false a

/-- Without data from the memory the mode OLD writes 0. -/
theorem rfWdataTagWb_of_old (hm : modeTag s.instrRdataId s.tpr = .old)
    (hr : s.rfWeLsu false x = false) : s.rfWdataTagWb false x = false := by
  simp [rfWdataTagWb, loadProp, loadPropagation, hr, exDift, hm, TagMode.result]

theorem rfWe_of_load (h : Instr.opcode s.instrRdataId = .load) : s.dec.rfWe = false := by
  simp [dec, decode, Decoder.rfWe, h]

theorem opcode_of_load (h : s.instrTypeWb = .load) : Instr.opcode s.instrRdataId = .load := by
  simp only [instrTypeWb, dec, decode] at h
  by_cases hl : Instr.opcode s.instrRdataId = .load
  · exact hl
  · by_cases hs : Instr.opcode s.instrRdataId = .store
    · simp only [hs] at h
      split_ifs at h
      simp_all
    · simp [hl, hs] at h

/-- A load writes a tag only with its data, and not in the mode OLD. -/
theorem rfWeTagWb_of_load (h : Instr.opcode s.instrRdataId = .load) :
    s.rfWeTagWb false x = true ↔
      s.rfWeLsu false x = true ∧ Tpr.mode s.tpr Tpr.loadstore ≠ .old := by
  simp [rfWeTagWb, loadProp, loadPropagation, rfWe_of_load h]

theorem rfWdataTagWb_of_load (hr : s.rfWeLsu false x = true)
    (hm : Tpr.mode s.tpr Tpr.loadstore ≠ .old) : s.rfWdataTagWb false x =
      loadTag s.tpr (s.tagOf (Instr.rs1 s.instrRdataId)) (s.lsuRdataTag false x) := by
  simp [rfWdataTagWb, loadProp, loadPropagation, hr, hm]

/-- What writes an integer register from ID has the write enable of the decoder. -/
theorem rfWe_of_rfWeId (h : s.rfWeId wbs x = true) : s.dec.rfWe = true := by
  simp only [rfWeId, Bool.and_eq_true] at h
  obtain ⟨⟨h, -⟩, -⟩ := h
  unfold idFsm at h
  split_ifs at h <;> simp_all

theorem fwTag_false (s : Core) (a : BitVec 5) : s.fwTag false a = s.tagOf a := by
  simp [fwTag, rdWbMatch]

theorem storedTag_false (s : Core) (a : BitVec 5) : s.storedTag false a = s.tagOf a := by
  simp [storedTag]

theorem Untainted.storedTag (h : s.Untainted) (a : BitVec 5) : s.storedTag wbs a = false := by
  have ht : s.tagOf a = false := by simp [tagOf, h.tagRf]
  unfold Core.storedTag drainedTag
  split_ifs with hw hv
  · exact h.wbTag hv.1
  · exact ht
  · exact ht

/-! ## The instruction in its cycles -/

section Runs

variable {s : Core} {i : ℕ → PipeIn} {e t n : ℕ}

/-- The word stays as long as no other one enters. -/
theorem word_between {v : ℕ} (hv : t ≤ v)
    (h : ∀ k, t ≤ k → k < v →
      (Sync.run (step false) s i k).instrNewIdD false (i k) = false) :
    (Sync.run (step false) s i v).instrRdataId = (Sync.run (step false) s i t).instrRdataId :=
  Sync.kept_between (f := fun k => (Sync.run (step false) s i k).instrRdataId) hv
    fun k hk hkv => word_step (h k hk hkv)

theorem modeTag_between {v : ℕ} (hv : t ≤ v)
    (h : ∀ k, t ≤ k → k < v →
      (Sync.run (step false) s i k).instrNewIdD false (i k) = false) :
    modeTag (Sync.run (step false) s i v).instrRdataId (Sync.run (step false) s i v).tpr =
      modeTag (Sync.run (step false) s i t).instrRdataId (Sync.run (step false) s i t).tpr :=
  Sync.kept_between (f := fun k => modeTag (Sync.run (step false) s i k).instrRdataId
    (Sync.run (step false) s i k).tpr) hv fun k hk hkv => modeTag_step (h k hk hkv)

/-- An instruction that is no load leaves its destination clean, in the mode OLD. -/
theorem OldWrite.clean (h : OldWrite false (Sync.run (step false) s i) i e t)
    (hl : (Sync.run (step false) s i t).instrTypeWb ≠ .load) :
    (Sync.run (step false) s i (t + 1)).tagOf
      (Instr.rd (Sync.run (step false) s i t).instrRdataId) = false := by
  have hr : (Sync.run (step false) s i t).rfWeLsu false (i t) = false := by
    rw [← Bool.not_eq_true, h.source rfl]
    exact hl
  have hw : (Sync.run (step false) s i t).rfWeTagWb false (i t) = true := by
    simp [rfWeTagWb, rfWe_of_rfWeId (h.writes.resolve_right hl)]
  rw [Sync.run_succ, tagOf_step_false, if_pos ⟨hw, rfl, h.rd⟩, rfWdataTagWb_of_old h.mode hr]

/-- What the word writes afterwards, while it is still in the IF/ID registers, is clean too. -/
theorem clean_between {a : BitVec 5} (htn : t < n)
    (hm : modeTag (Sync.run (step false) s i t).instrRdataId (Sync.run (step false) s i t).tpr =
      .old)
    (hu : Untouched false (Sync.run (step false) s i) i t n)
    (ha : (Sync.run (step false) s i (t + 1)).tagOf a = false) :
    (Sync.run (step false) s i n).tagOf a = false := by
  induction n, Nat.succ_le_of_lt htn using Nat.le_induction with
  | base => exact ha
  | succ n hn ih =>
    have hq (v : ℕ) (hv : t ≤ v) (hvn : v < n) := by
      simpa using hu v hv (by omega)
    have hold := (modeTag_between (by omega) fun k hk hkn => (hq k hk hkn).1).trans hm
    have hr : (Sync.run (step false) s i n).rfWeLsu false (i n) = false := by
      have := (hq (n - 1) (by omega) (by omega)).2
      rwa [Nat.sub_add_cancel (by omega)] at this
    rw [Sync.run_succ, tagOf_step_false, rfWdataTagWb_of_old hold hr,
      ih hn fun v hv hvn => hu v hv (by omega), ite_self]

/-- A load writes no tag in a cycle without data or in the mode OLD. -/
theorem tagOf_of_load {a : BitVec 5} (hl : Instr.opcode s.instrRdataId = .load) {x : PipeIn}
    (hn : s.rfWeLsu false x = false ∨ Tpr.mode s.tpr Tpr.loadstore = .old) :
    (s.step false x).tagOf a = s.tagOf a := by
  rw [tagOf_step_false, if_neg]
  rintro ⟨hw, -⟩
  rw [rfWeTagWb_of_load hl] at hw
  rcases hn with hn | hn
  · exact absurd (hn.symm.trans hw.1) Bool.false_ne_true
  · exact hw.2 hn

/-- While a load is in ID the tags stay, if the mode of loads and stores is OLD. -/
theorem OldWrite.load_kept {a : BitVec 5} (h : OldWrite false (Sync.run (step false) s i) i e t)
    (hl : (Sync.run (step false) s i t).instrTypeWb = .load)
    (hm : Tpr.mode (Sync.run (step false) s i t).tpr Tpr.loadstore = .old) :
    (Sync.run (step false) s i (t + 1)).tagOf a = (Sync.run (step false) s i (e + 1)).tagOf a := by
  have hword (v : ℕ) (hv : e + 1 ≤ v) (hvt : v ≤ t) :
      (Sync.run (step false) s i v).instrRdataId = (Sync.run (step false) s i t).instrRdataId := by
    have hlt := h.lt
    rw [word_between hv fun k hk hkv => h.stays k (by omega) (by omega)]
    exact (word_between (by omega) fun k hk hkt => h.stays k (by omega) hkt).symm
  have hop (v : ℕ) (hv : e + 1 ≤ v) (hvt : v ≤ t) :
      Instr.opcode (Sync.run (step false) s i v).instrRdataId = .load := by
    rw [hword v hv hvt]
    exact opcode_of_load hl
  have htpr (v : ℕ) (hv : e + 1 ≤ v) (hvt : v ≤ t) :
      (Sync.run (step false) s i t).tpr = (Sync.run (step false) s i v).tpr :=
    Sync.kept_between (f := fun k => (Sync.run (step false) s i k).tpr) hvt fun k hk hkt =>
      tpr_step (by rw [hop k (by omega) (by omega)]; simp)
  refine Sync.kept_between (f := fun k => (Sync.run (step false) s i k).tagOf a)
    (by have := h.lt; omega) fun v hv hvt => ?_
  exact tagOf_of_load (hop v hv (by omega)) (.inr (by rw [← htpr v hv (by omega), hm]))

/-- After the load they stay anyway. -/
theorem OldWrite.load_untouched {a : BitVec 5}
    (hl : (Sync.run (step false) s i t).instrTypeWb = .load) (htn : t < n)
    (hu : Untouched false (Sync.run (step false) s i) i t n) :
    (Sync.run (step false) s i n).tagOf a = (Sync.run (step false) s i (t + 1)).tagOf a := by
  have hq (v : ℕ) (hv : t ≤ v) (hvn : v + 1 < n) := by simpa using hu v hv hvn
  refine Sync.kept_between (f := fun k => (Sync.run (step false) s i k).tagOf a) htn
    fun v hv hvn => ?_
  have hop : Instr.opcode (Sync.run (step false) s i v).instrRdataId = .load := by
    rw [word_between (t := t) (by omega) fun k hk hkv => (hq k hk (by omega)).1]
    exact opcode_of_load hl
  have hr : (Sync.run (step false) s i v).rfWeLsu false (i v) = false := by
    have := (hq (v - 1) (by omega) (by omega)).2
    rwa [Nat.sub_add_cancel (by omega)] at this
  exact tagOf_of_load hop (.inl hr)

/-- In another mode the load writes the tag that the policy makes. -/
theorem OldWrite.load_policy (h : OldWrite false (Sync.run (step false) s i) i e t)
    (hl : (Sync.run (step false) s i t).instrTypeWb = .load)
    (hm : Tpr.mode (Sync.run (step false) s i t).tpr Tpr.loadstore ≠ .old) :
    (Sync.run (step false) s i (t + 1)).tagOf
        (Instr.rd (Sync.run (step false) s i t).instrRdataId) =
      loadTag (Sync.run (step false) s i t).tpr
        ((Sync.run (step false) s i t).tagOf
          (Instr.rs1 (Sync.run (step false) s i t).instrRdataId))
        ((Sync.run (step false) s i t).lsuRdataTag false (i t)) := by
  have hr := (h.source rfl).2 hl
  rw [Sync.run_succ, tagOf_step_false,
    if_pos ⟨(rfWeTagWb_of_load (opcode_of_load hl)).2 ⟨hr, hm⟩, rfl, h.rd⟩,
    rfWdataTagWb_of_load hr hm]

end Runs

/-! ## When the tag is kept -/

/-- The tag of the destination is the one that comes out anyway: 0, or for a load, unless the
    mode of loads and stores is OLD too, the tag that the load policy makes. -/
def KeptAnyway (r : ℕ → Core) (i : ℕ → PipeIn) (e t : ℕ) : Prop :=
  if (r t).instrTypeWb = .load then
    Tpr.mode (r t).tpr Tpr.loadstore = .old ∨
      (r (e + 1)).tagOf (Instr.rd (r t).instrRdataId) =
        loadTag (r t).tpr ((r t).tagOf (Instr.rs1 (r t).instrRdataId))
          ((r t).lsuRdataTag false (i t))
  else (r (e + 1)).tagOf (Instr.rd (r t).instrRdataId) = false

/-- **The mode OLD keeps a tag exactly where nothing is lost**: with a writeback stage always, as no
    tag is ever set there; without one only the tag that the instruction writes. -/
theorem oldKept_iff (wbs : Bool) (s : Core) (i : ℕ → PipeIn) (e t : ℕ)
    (h : OldWrite wbs (Sync.run (step wbs) s.reset i) i e t) :
    OldKept wbs (Sync.run (step wbs) s.reset i) i e t ↔
      (wbs = false → KeptAnyway (Sync.run (step wbs) s.reset i) i e t) := by
  cases wbs with
  | true =>
    have hr := Untainted.run s i
    refine iff_of_true ⟨?_, fun n _ _ => ?_⟩ fun hc => absurd hc (by simp)
    · rw [(hr _).storedTag, (hr _).storedTag]
    · rw [(hr n).fwTag, (hr _).storedTag]
  | false =>
    simp only [OldKept, storedTag_false, fwTag_false, KeptAnyway, true_imp_iff]
    by_cases hl : (Sync.run (step false) s.reset i t).instrTypeWb = .load
    · rw [if_pos hl]
      constructor
      · rintro ⟨hk, -⟩
        by_cases hm : Tpr.mode (Sync.run (step false) s.reset i t).tpr Tpr.loadstore = .old
        · exact .inl hm
        · exact .inr (hk.symm.trans (h.load_policy hl hm))
      · intro hc
        have hk : (Sync.run (step false) s.reset i (t + 1)).tagOf
              (Instr.rd (Sync.run (step false) s.reset i t).instrRdataId) =
            (Sync.run (step false) s.reset i (e + 1)).tagOf
              (Instr.rd (Sync.run (step false) s.reset i t).instrRdataId) := by
          by_cases hm : Tpr.mode (Sync.run (step false) s.reset i t).tpr Tpr.loadstore = .old
          · exact h.load_kept hl hm
          · rw [h.load_policy hl hm, hc.resolve_left hm]
        exact ⟨hk, fun n hn hu => (OldWrite.load_untouched hl hn hu).trans hk⟩
    · rw [if_neg hl]
      have hc := h.clean hl
      constructor
      · rintro ⟨hk, -⟩
        exact hk.symm.trans hc
      · intro hb
        exact ⟨hc.trans hb.symm, fun n hn hu =>
          (clean_between hn h.mode hu hc).trans hb.symm⟩

/-- `csrw tpr, x1` with the mode OR for loads and OLD for all else, `lw x5, 0(x2)` of a tainted
    word, then `addi x5, x0, 1`. -/
def oldAddi : ℕ → PipeIn
  | 3 => .fetch 0x7c309073
  | 4 => { PipeIn.quiet with csrWdata := 0x8020 }
  | 6 => .fetch 0x00012283
  | 8 => { PipeIn.fetch 0x00100293 with dataRvalid := true, dataRdataTag := true }
  | _ => .quiet

theorem oldAddi_writes : OldWrite false (Sync.run (step false) blank.reset oldAddi) oldAddi 8 9 where
  lt := by decide
  enters := by decide +kernel
  stays v hv hu := absurd hu (by omega)
  leaves := by decide +kernel
  writes := by decide +kernel
  source := by decide +kernel
  mode := by decide +kernel
  rd := by decide +kernel

/-- The tag of `x5` is gone after the `addi`. -/
theorem oldAddi_cleared : OldWrite false (Sync.run (step false) blank.reset oldAddi) oldAddi 8 9 ∧
    ¬ OldKept false (Sync.run (step false) blank.reset oldAddi) oldAddi 8 9 := by
  refine ⟨oldAddi_writes, fun h => ?_⟩
  exact absurd h.1 (by decide +kernel)

theorem oldKept_iff_oldAddi :
    ¬ OldKept false (Sync.run (step false) blank.reset oldAddi) oldAddi 8 9 :=
  fun h => absurd ((oldKept_iff false blank oldAddi 8 9 oldAddi_writes).1 h rfl) (by
    unfold KeptAnyway
    decide +kernel)

end Core

end SentinelSoc
