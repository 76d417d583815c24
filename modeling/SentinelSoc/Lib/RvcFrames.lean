/-
  The frames that `cm.push` makes and `cm.pop` takes down.

  * `Machine`, `Instr.exec`: what moves, accesses of words and jumps without a link do;
  * `run_stores`, `run_loads`: the two lists of accesses;
  * `frame_restored`: after a function that keeps its frame, the registers are back.
-/
import SentinelSoc.Lib.Rvc
import SentinelSoc.Lib.ByteMem

namespace Rv32

/-! ## Machines -/

structure Machine where
  regs : Reg → BitVec 32
  mem : BitVec 32 → BitVec 8
  pc : BitVec 32

namespace Machine

variable {m : Machine} {r x : Reg} {v : BitVec 32}

/-- `x0` is zero. -/
def get (m : Machine) (r : Reg) : BitVec 32 := if r = 0 then 0 else m.regs r

def set (m : Machine) (r : Reg) (v : BitVec 32) : Machine :=
  { m with regs := fun x => if x = r then v else m.regs x }

theorem get_set (hr : r ≠ 0) : (m.set r v).get r = v := by
  rw [get, if_neg hr]
  exact if_pos rfl

theorem get_set_ne (h : x ≠ r) : (m.set r v).get x = m.get x := by simp [get, set, h]

end Machine

open Machine

/-- The other instructions are not among those of frames. -/
def Instr.exec : Instr → Machine → Option Machine
  | addi rd rs1 imm, m => some (m.set rd (m.get rs1 + imm.signExtend 32))
  | lw rd rs1 imm, m =>
    some (m.set rd (ByteMem.load 4 m.mem (m.get rs1 + imm.signExtend 32) false))
  | sw rs2 rs1 imm, m =>
    some { m with mem := ByteMem.store 4 m.mem (m.get rs1 + imm.signExtend 32) (m.get rs2) }
  | jalr rd rs1 imm, m =>
    if rd = 0 then some { m with pc := (m.get rs1 + imm.signExtend 32) &&& ~~~1 } else none
  | _, _ => none

def run : List Instr → Machine → Option Machine
  | [], m => some m
  | i :: l, m => (i.exec m).bind (run l)

theorem run_append (l l' : List Instr) (m : Machine) :
    run (l ++ l') m = (run l m).bind (run l') := by
  induction l generalizing m with
  | nil => rfl
  | cons i l ih =>
    rw [List.cons_append, run, run, Option.bind_assoc]
    exact congrArg _ (funext ih)

end Rv32

namespace ByteMem

variable {b : BitVec 32 → BitVec 8} {addr x v : BitVec 32}

theorem load_store : load 4 (store 4 b addr v) addr false = v := by
  have hb : ∀ k : ℕ, k < 4 → store 4 b addr v (addr + BitVec.ofNat 32 k) = byte v k := by
    intro k hk
    have hx : (addr + BitVec.ofNat 32 k - addr).toNat = k := by
      simp only [BitVec.toNat_sub, BitVec.toNat_add, BitVec.toNat_ofNat]
      omega
    rw [store, hx, if_pos hk]
  have h0 := hb 0 (by omega)
  rw [BitVec.add_zero] at h0
  have hw : word (store 4 b addr v) addr = byte v 3 ++ byte v 2 ++ byte v 1 ++ byte v 0 := by
    rw [word, h0]
    exact congrArg (· ++ _) (congrArg₂ (· ++ ·) (congrArg₂ (· ++ ·) (hb 3 (by omega))
      (hb 2 (by omega))) (hb 1 (by omega)))
  rw [load, hw]
  apply BitVec.eq_of_getLsbD_eq
  intro i hi
  simp only [extend, byte, Bool.false_eq_true, if_false, BitVec.getLsbD_setWidth,
    BitVec.getLsbD_append, BitVec.getLsbD_extractLsb']
  interval_cases i <;> rfl

/-- An access that does not touch the four bytes. -/
theorem load_store_ne (h : ∀ k : ℕ, k < 4 → 4 ≤ (x + BitVec.ofNat 32 k - addr).toNat) :
    load 4 (store 4 b addr v) x false = load 4 b x false := by
  have hb : ∀ k : ℕ, k < 4 →
      store 4 b addr v (x + BitVec.ofNat 32 k) = b (x + BitVec.ofNat 32 k) := by
    intro k hk
    exact if_neg (by have := h k hk; omega)
  have h0 := hb 0 (by omega)
  rw [BitVec.add_zero] at h0
  have hw : word (store 4 b addr v) x = word b x := by
    rw [word, word, h0]
    exact congrArg (· ++ _) (congrArg₂ (· ++ ·) (congrArg₂ (· ++ ·) (hb 3 (by omega))
      (hb 2 (by omega))) (hb 1 (by omega)))
  rw [load, hw, load]

end ByteMem

namespace Rvc

open Rv32

/-! ## Frames -/

/-- Word `k` below the stack pointer. -/
def slot (sp : BitVec 32) (k : ℕ) : BitVec 32 := sp - BitVec.ofNat 32 (4 * k)

variable {l : BitVec 4} {spimm : BitVec 2}

/-- The saved registers and their places. -/
theorem slots_spec : ∀ (l : BitVec 4) (spimm : BitVec 2), 4 ≤ l → ∀ p ∈ slots l,
    p.1 ≠ 0 ∧ p.1 ≠ 2 ∧ p.2 ≤ 13 ∧ 4 * p.2 ≤ stackAdj l spimm ∧ stackAdj l spimm ≤ 112 := by
  decide +kernel

theorem slots_nodup : ∀ l : BitVec 4,
    ((slots l).map Prod.fst).Nodup ∧ ((slots l).map Prod.snd).Nodup := by decide +kernel

theorem slots_fst : (slots l).map Prod.fst = xregList l := by simp [slots]

theorem negOffset : ∀ k < 14, (-BitVec.ofNat 12 (4 * k)).signExtend 32 =
    -BitVec.ofNat 32 (4 * k) := by decide +kernel

theorem offset : ∀ n < 128, (BitVec.ofNat 12 n).signExtend 32 = BitVec.ofNat 32 n := by
  decide +kernel

theorem slot_disjoint {sp : BitVec 32} {j k : ℕ} (hj : j ≤ 13) (hk : k ≤ 13) (hne : j ≠ k) :
    ∀ n : ℕ, n < 4 → 4 ≤ (slot sp j + BitVec.ofNat 32 n - slot sp k).toNat := by
  intro n hn
  simp only [slot, BitVec.toNat_sub, BitVec.toNat_add, BitVec.toNat_ofNat]
  omega

/-- The memory after the registers are saved. -/
def saved (m : Machine) (L : List (Reg × ℕ)) (b : BitVec 32 → BitVec 8) : BitVec 32 → BitVec 8 :=
  L.foldl (fun b p => ByteMem.store 4 b (slot (m.get 2) p.2) (m.get p.1)) b

theorem saved_cons (m : Machine) (p : Reg × ℕ) (L : List (Reg × ℕ)) (b : BitVec 32 → BitVec 8) :
    saved m (p :: L) b =
      saved m L (ByteMem.store 4 b (slot (m.get 2) p.2) (m.get p.1)) := rfl

theorem run_stores (m : Machine) (L : List (Reg × ℕ)) (hL : ∀ p ∈ L, p.2 ≤ 13)
    (b : BitVec 32 → BitVec 8) :
    run (L.map fun p => .sw p.1 2 (-BitVec.ofNat 12 (4 * p.2))) { m with mem := b } =
      some { m with mem := saved m L b } := by
  induction L generalizing b with
  | nil => rfl
  | cons p L ih =>
    obtain ⟨hp, hL⟩ := List.forall_mem_cons.1 hL
    rw [List.map_cons, run, Instr.exec, negOffset p.2 (by omega), ← BitVec.sub_eq_add_neg,
      Option.bind_some, saved_cons]
    exact ih hL _

theorem saved_ne {m : Machine} {L : List (Reg × ℕ)} (hL : ∀ p ∈ L, p.2 ≤ 13) {k : ℕ} (hk : k ≤ 13)
    (hne : k ∉ L.map Prod.snd) (b : BitVec 32 → BitVec 8) :
    ByteMem.load 4 (saved m L b) (slot (m.get 2) k) false =
      ByteMem.load 4 b (slot (m.get 2) k) false := by
  induction L generalizing b with
  | nil => rfl
  | cons p L ih =>
    obtain ⟨hp, hL⟩ := List.forall_mem_cons.1 hL
    rw [List.map_cons, List.mem_cons, not_or] at hne
    rw [saved_cons]
    exact (ih hL hne.2 _).trans (ByteMem.load_store_ne (slot_disjoint hk hp hne.1))

theorem saved_load {m : Machine} {L : List (Reg × ℕ)} (hL : ∀ p ∈ L, p.2 ≤ 13)
    (hn : (L.map Prod.snd).Nodup) {p : Reg × ℕ} (hp : p ∈ L) (b : BitVec 32 → BitVec 8) :
    ByteMem.load 4 (saved m L b) (slot (m.get 2) p.2) false = m.get p.1 := by
  induction L generalizing b with
  | nil => simp at hp
  | cons q L ih =>
    obtain ⟨hq, hrest⟩ := List.forall_mem_cons.1 hL
    rw [List.map_cons, List.nodup_cons] at hn
    rw [saved_cons]
    rcases List.mem_cons.1 hp with rfl | hp
    · rw [saved_ne hrest hq hn.1]
      exact ByteMem.load_store
    · exact ih hrest hn.2 hp _

/-- Loads of registers other than the stack pointer. -/
theorem run_loads (L : List (Reg × ℕ)) (f : ℕ → BitVec 12) (hL : ∀ p ∈ L, p.1 ≠ 0 ∧ p.1 ≠ 2)
    (hn : (L.map Prod.fst).Nodup) (m : Machine) :
    ∃ m', run (L.map fun p => .lw p.1 2 (f p.2)) m = some m' ∧
      (∀ r, r ∉ L.map Prod.fst → m'.get r = m.get r) ∧
      ∀ p ∈ L, m'.get p.1 = ByteMem.load 4 m.mem (m.get 2 + (f p.2).signExtend 32) false := by
  induction L generalizing m with
  | nil => exact ⟨m, rfl, fun _ _ => rfl, by simp⟩
  | cons p L ih =>
    obtain ⟨⟨h0, h2⟩, hL⟩ := List.forall_mem_cons.1 hL
    rw [List.map_cons, List.nodup_cons] at hn
    obtain ⟨m', hr, hout, hin⟩ := ih hL hn.2
      (m.set p.1 (ByteMem.load 4 m.mem (m.get 2 + (f p.2).signExtend 32) false))
    refine ⟨m', hr, ?_, ?_⟩
    · intro r hr
      rw [List.map_cons, List.mem_cons, not_or] at hr
      rw [hout r hr.2, Machine.get_set_ne hr.1]
    · intro q hq
      rcases List.mem_cons.1 hq with rfl | hq
      · rw [hout _ hn.1, Machine.get_set h0]
      · rw [hin q hq, Machine.get_set_ne h2.symm]
        rfl

/-- The function keeps its frame and its stack pointer. -/
structure KeepsFrame (l : BitVec 4) (sp : BitVec 32) (m m' : Machine) : Prop where
  stack : m'.get 2 = m.get 2
  frame : ∀ p ∈ slots l, ByteMem.load 4 m'.mem (slot sp p.2) false =
    ByteMem.load 4 m.mem (slot sp p.2) false

/-- What the caller finds: its stack pointer and its saved registers, and of the function the
other registers. -/
structure Restored (l : BitVec 4) (m₀ m₂ m₃ : Machine) : Prop where
  stack : m₃.get 2 = m₀.get 2
  saved : ∀ r ∈ xregList l, m₃.get r = m₀.get r
  others : ∀ r, r ∉ xregList l → r ≠ 2 → m₃.get r = m₂.get r

theorem run_pushOps (hl : 4 ≤ l) (m : Machine) : run (pushOps l spimm) m =
    some (({ m with mem := saved m (slots l) m.mem } : Machine).set 2
      (m.get 2 - BitVec.ofNat 32 (stackAdj l spimm))) := by
  have hL : ∀ p ∈ slots l, p.2 ≤ 13 := fun p hp => (slots_spec l 0 hl p hp).2.2.1
  have hadj : ∀ (l : BitVec 4) (spimm : BitVec 2),
      (-BitVec.ofNat 12 (stackAdj l spimm)).signExtend 32 =
        -BitVec.ofNat 32 (stackAdj l spimm) := by
    decide +kernel
  rw [pushOps, run_append, run_stores m _ hL m.mem, Option.bind_some, run, Instr.exec, hadj,
    ← BitVec.sub_eq_add_neg]
  rfl

/-- After a function that keeps its frame, the caller's registers are back. -/
theorem frame_restored (hl : 4 ≤ l) {m₀ m₁ m₂ : Machine}
    (h₁ : run (pushOps l spimm) m₀ = some m₁) (h₂ : KeepsFrame l (m₀.get 2) m₁ m₂) :
    ∃ m₃, run (popOps l spimm) m₂ = some m₃ ∧ Restored l m₀ m₂ m₃ := by
  rw [run_pushOps hl, Option.some_inj] at h₁
  subst h₁
  have hL : ∀ p ∈ slots l, p.2 ≤ 13 := fun p hp => (slots_spec l 0 hl p hp).2.2.1
  obtain ⟨m, hr, hout, hin⟩ := run_loads (slots l)
    (fun k => BitVec.ofNat 12 (stackAdj l spimm - 4 * k))
    (fun p hp => ⟨(slots_spec l 0 hl p hp).1, (slots_spec l 0 hl p hp).2.1⟩) (slots_nodup l).1 m₂
  have hsp : m₂.get 2 = m₀.get 2 - BitVec.ofNat 32 (stackAdj l spimm) := by
    rw [h₂.stack, Machine.get_set (by decide)]
  have h2 : (2 : Reg) ∉ (slots l).map Prod.fst := by
    intro h
    obtain ⟨p, hp, hp2⟩ := List.mem_map.1 h
    exact (slots_spec l 0 hl p hp).2.1 hp2
  have hadj : ∀ (l : BitVec 4) (spimm : BitVec 2),
      (BitVec.ofNat 12 (stackAdj l spimm)).signExtend 32 = BitVec.ofNat 32 (stackAdj l spimm) := by
    decide +kernel
  refine ⟨m.set 2 (m.get 2 + BitVec.ofNat 32 (stackAdj l spimm)), ?_, ?_, ?_, ?_⟩
  · rw [popOps, run_append, hr, Option.bind_some, run, Instr.exec, hadj]
    rfl
  · rw [Machine.get_set (by decide), hout 2 h2, hsp, BitVec.sub_add_cancel]
  · intro r hr
    rw [← slots_fst] at hr
    obtain ⟨p, hp, rfl⟩ := List.mem_map.1 hr
    obtain ⟨-, hp2, -, hle, hmax⟩ := slots_spec l spimm hl p hp
    have haddr : m₂.get 2 + BitVec.ofNat 32 (stackAdj l spimm - 4 * p.2) = slot (m₀.get 2) p.2 := by
      rw [hsp, slot]
      apply BitVec.eq_of_toNat_eq
      simp only [BitVec.toNat_sub, BitVec.toNat_add, BitVec.toNat_ofNat]
      omega
    rw [Machine.get_set_ne hp2, hin p hp, offset _ (by omega), haddr, h₂.frame p hp]
    exact saved_load hL (slots_nodup l).2 hp _
  · intro r hr hr2
    rw [← slots_fst] at hr
    rw [Machine.get_set_ne hr2, hout r hr]

end Rvc
