/-
  The interrupt controller (`plic_top.sv` with its registers, gateways and target) and
  the adapter that puts it on the bus (`sentinel_soc_top.sv`), for 12 level-triggered
  sources, one target and priorities up to 3.

  * `regsRsp` answers a request in its own cycle, `Plic.step` is the clock edge;
  * the adapter registers `rvalid` alone, so with it go the data and the error of the
    cycle after the access;
  * `answered_iff`: when these are the access's own.
-/
import SentinelSoc.Bus.Demux
import SentinelSoc.Lib.Sync

namespace SentinelSoc

/-- The registers of `plic_regs`. -/
inductive PlicReg
  | prio (k : Fin 13)
  | ip
  | ie
  | threshold
  | cc
  deriving DecidableEq

structure Plic where
  prioQ : Fin 12 → BitVec 2
  ieQ : BitVec 12
  thresholdQ : BitVec 2
  /-- `ip` and `ia` of the gateways -/
  ip : BitVec 12
  ia : BitVec 12
  irq : Bool
  irqId : BitVec 4
  /-- the adapter's `plic_rvalid` -/
  rvalid : Bool

/-- The inputs of one cycle: the request of the bus and the interrupt sources. -/
structure PlicIn where
  obi : ObiReq
  src : BitVec 12

namespace Plic

def prioOff (k : Fin 13) : BitVec 32 := 0x0C000000 + BitVec.ofNat 32 (4 * k)
def ipOff : BitVec 32 := 0x0C001000
def ieOff : BitVec 32 := 0x0C002000
def thresholdOff : BitVec 32 := 0x0C200000
def ccOff : BitVec 32 := 0x0C200004

/-- The register of an address; the pending bits are read only. -/
def decode (r : ObiReq) : Option PlicReg :=
  if let some k := (List.finRange 13).find? fun k => r.addr == prioOff k then some (.prio k)
  else if r.addr = ieOff then some .ie
  else if r.addr = thresholdOff then some .threshold
  else if r.addr = ccOff then some .cc
  else if r.addr = ipOff ∧ r.we = false then some .ip
  else none

def reset : Plic := ⟨fun _ => 0, 0, 0, 0, 0, false, 0, false⟩

variable (s : Plic) (x : PlicIn)

/-- What a read of a register gives: source 0 has no priority, and the vectors of the sources are
    extended on the left. -/
def read : PlicReg → BitVec 32
  | .prio k => (Fin.cases 0 s.prioQ k : BitVec 2).setWidth 32
  | .ip => s.ip.setWidth 32
  | .ie => s.ieQ.setWidth 32
  | .threshold => s.thresholdQ.setWidth 32
  | .cc => s.irqId.setWidth 32

/-- `rdata` and `error` of `plic_regs`. -/
def regsRsp (r : ObiReq) : BitVec 32 × Bool :=
  if r.req then
    match decode r with
    | some reg => (if r.we then 0 else s.read reg, false)
    | none => (0, true)
  else (0, false)

/-- A write of the register, and a read of it. -/
def writes (reg : PlicReg) : Bool := x.obi.req && x.obi.we && decode x.obi == some reg

def reads (reg : PlicReg) : Bool := x.obi.req && !x.obi.we && decode x.obi == some reg

/-- The bit of a source; source 0 has none. -/
def sourceBit (id : BitVec 4) : BitVec 12 := if id = 0 then 0 else BitVec.twoPow 12 (id.toNat - 1)

def claim : BitVec 12 := if reads x .cc then sourceBit s.irqId else 0

def complete : BitVec 12 :=
  if writes x .cc then sourceBit (x.obi.wdata.extractLsb' 0 4) else 0

/-- One round of the target's loop over the sources. -/
def targetRound (a : BitVec 2 × Bool × BitVec 4) (k : Fin 12) : BitVec 2 × Bool × BitVec 4 :=
  if s.ip.getLsbD k && s.ieQ.getLsbD k && decide (a.1 ≤ s.prioQ k) then
    (s.prioQ k, true, BitVec.ofNat 4 (k + 1))
  else a

/-- `irq_next` and `irq_id_next`, from the last source down. -/
def target : Bool × BitVec 4 :=
  ((List.finRange 12).reverse.foldl s.targetRound (s.thresholdQ + 1, false, 0)).2

def step : Plic where
  prioQ k := if writes x (.prio k.succ) then x.obi.wdata.extractLsb' 0 2 else s.prioQ k
  ieQ := if writes x .ie then x.obi.wdata.extractLsb' 1 12 else s.ieQ
  thresholdQ := if writes x .threshold then x.obi.wdata.extractLsb' 0 2 else s.thresholdQ
  ip := (s.ip ||| x.src &&& ~~~ s.ia &&& ~~~ s.ip) &&& ~~~ s.claim x
  ia := (s.ia ||| x.src &&& ~~~ s.ia) &&& ~~~ complete x
  irq := s.target.1
  irqId := s.target.2
  rvalid := x.obi.req

/-- What the adapter drives: `plic_rvalid`, and `plic_rdata` and `plic_err` of whatever is on the
    bus. -/
def rsp : ObiRsp := ⟨x.obi.req, s.rvalid, (s.regsRsp x.obi).1, (s.regsRsp x.obi).2⟩

def run (s : Plic) (i : ℕ → PlicIn) : ℕ → Plic := Sync.run step s i

/-- The response to the access of cycle `t`. -/
structure Answered (s : Plic) (i : ℕ → PlicIn) (t : ℕ) : Prop where
  own : ((run s i (t + 1)).rsp (i (t + 1))).rvalid = true →
    (((run s i (t + 1)).rsp (i (t + 1))).rdata, ((run s i (t + 1)).rsp (i (t + 1))).err) =
      (run s i t).regsRsp (i t).obi
  /-- a read of the claim register delivers the source that it cleared -/
  claim : reads (i t) .cc = true → ∀ k, ((run s i t).claim (i t)).getLsbD k = true →
    ((run s i (t + 1)).rsp (i (t + 1))).rdata = BitVec.ofNat 32 (k + 1) ∧
      (run s i (t + 1)).ip.getLsbD k = false

/-- The bus access of the next cycle, `y`, gives what the access `x` gave: no register after no
    register, and after a register with the value `v` (0 for a write) a read of a register that
    then holds `v`; where `v` is 0 also a write, or no access. -/
def Echoes (s : Plic) (x y : PlicIn) : Prop :=
  match decode x.obi with
  | none => y.obi.req = true ∧ decode y.obi = none
  | some reg =>
    let v := if x.obi.we then 0 else s.read reg
    (∃ reg', reads y reg' = true ∧ (s.step x).read reg' = v) ∨
      v = 0 ∧ (y.obi.req = false ∨ ∃ reg', writes y reg' = true)

variable {s : Plic} {x y : PlicIn} {i : ℕ → PlicIn} {t : ℕ}

theorem run_succ (t : ℕ) : run s i (t + 1) = (run s i t).step (i t) := rfl

@[simp] theorem step_rvalid : (s.step x).rvalid = x.obi.req := rfl

/-- A claimed source is no longer pending. -/
theorem step_ip_claim {k : ℕ} (h : (s.claim x).getLsbD k = true) :
    (s.step x).ip.getLsbD k = false := by
  simp [step, h]

/-- The source that a read of the claim register clears is the one that it reads. -/
theorem claim_id {k : ℕ} (h : (s.claim x).getLsbD k = true) :
    s.irqId.setWidth 32 = BitVec.ofNat 32 (k + 1) := by
  unfold claim sourceBit at h
  split_ifs at h with hr h₀
  · simp at h
  · simp only [BitVec.getLsbD_twoPow, Bool.and_eq_true, decide_eq_true_eq] at h
    have hne : s.irqId.toNat ≠ 0 := fun he => h₀ (BitVec.eq_of_toNat_eq he)
    apply BitVec.eq_of_toNat_eq
    simp only [BitVec.toNat_setWidth, BitVec.toNat_ofNat]
    omega
  · simp at h

theorem regsRsp_idle {r : ObiReq} (h : r.req = false) : s.regsRsp r = (0, false) := by
  simp [regsRsp, h]

theorem regsRsp_none {r : ObiReq} (h : r.req = true) (hd : decode r = none) :
    s.regsRsp r = (0, true) := by
  simp [regsRsp, h, hd]

theorem regsRsp_some {r : ObiReq} {reg : PlicReg} (h : r.req = true) (hd : decode r = some reg) :
    s.regsRsp r = (if r.we then 0 else s.read reg, false) := by
  simp [regsRsp, h, hd]

theorem regsRsp_reads {reg : PlicReg} (h : reads y reg = true) :
    s.regsRsp y.obi = (s.read reg, false) := by
  simp only [reads, Bool.and_eq_true, Bool.not_eq_true', beq_iff_eq] at h
  rw [regsRsp_some h.1.1 h.2, h.1.2]
  rfl

theorem regsRsp_writes {reg : PlicReg} (h : writes y reg = true) :
    s.regsRsp y.obi = (0, false) := by
  simp only [writes, Bool.and_eq_true, beq_iff_eq] at h
  rw [regsRsp_some h.1.1 h.2, h.1.2]
  rfl

/-- A request is one of four. -/
theorem request_cases (y : PlicIn) : y.obi.req = false ∨
    (y.obi.req = true ∧ decode y.obi = none) ∨ (∃ reg, reads y reg = true) ∨
    ∃ reg, writes y reg = true := by
  cases hr : y.obi.req with
  | false => exact .inl rfl
  | true =>
    cases hd : decode y.obi with
    | none => exact .inr (.inl ⟨rfl, rfl⟩)
    | some reg =>
      cases hw : y.obi.we with
      | false => exact .inr (.inr (.inl ⟨reg, by simp [reads, hr, hd, hw]⟩))
      | true => exact .inr (.inr (.inr ⟨reg, by simp [writes, hr, hd, hw]⟩))

theorem echoes_iff (hx : x.obi.req = true) :
    (s.step x).regsRsp y.obi = s.regsRsp x.obi ↔ Echoes s x y := by
  unfold Echoes
  cases hd : decode x.obi with
  | none =>
    rw [regsRsp_none hx hd]
    rcases request_cases y with h | h | ⟨reg, h⟩ | ⟨reg, h⟩
    · simp [regsRsp_idle h, h]
    · simp [regsRsp_none h.1 h.2, h.1, h.2]
    · rw [regsRsp_reads h]
      simp only [reads, Bool.and_eq_true, beq_iff_eq] at h
      simp [h.2]
    · rw [regsRsp_writes h]
      simp only [writes, Bool.and_eq_true, beq_iff_eq] at h
      simp [h.2]
  | some reg =>
    rw [regsRsp_some hx hd]
    simp only
    generalize (if x.obi.we then 0 else s.read reg) = v
    rcases request_cases y with h | h | ⟨reg', h⟩ | ⟨reg', h⟩
    · have hr : ∀ reg', reads y reg' = false := fun reg' => by simp [reads, h]
      simp [regsRsp_idle h, h, hr, @eq_comm _ 0#32 v]
    · have hr : ∀ reg', reads y reg' = false := fun reg' => by simp [reads, h.2]
      have hw : ∀ reg', writes y reg' = false := fun reg' => by simp [writes, h.2]
      simp [regsRsp_none h.1 h.2, hr, hw, h.1]
    · have hq := h
      simp only [reads, Bool.and_eq_true, Bool.not_eq_true', beq_iff_eq] at hq
      have hr : ∀ reg'', reads y reg'' = true ↔ reg' = reg'' := fun reg'' => by
        simp [reads, hq.1.1, hq.1.2, hq.2]
      have hw : ∀ reg'', writes y reg'' = false := fun reg'' => by simp [writes, hq.1.2]
      simp [regsRsp_reads h, hr, hw, hq.1.1]
    · have hq := h
      simp only [writes, Bool.and_eq_true, beq_iff_eq] at hq
      have hr : ∀ reg'', reads y reg'' = false := fun reg'' => by simp [reads, hq.1.2]
      have hw : ∃ reg'', writes y reg'' = true := ⟨reg', h⟩
      simp [regsRsp_writes h, hr, hw, @eq_comm _ 0#32 v]

/-- **Whose data an access gets.** The response carries the access's own data and error exactly
    when the bus access of the next cycle happens to give the same. -/
theorem answered_iff (s : Plic) (i : ℕ → PlicIn) (t : ℕ) :
    Answered s i t ↔ ((i t).obi.req = true → Echoes (run s i t) (i t) (i (t + 1))) := by
  have hown : ((run s i (t + 1)).rsp (i (t + 1))).rvalid = (i t).obi.req := rfl
  constructor
  · intro h hr
    rw [← echoes_iff hr, ← run_succ, ← h.own (by rw [hown, hr])]
    rfl
  · intro h
    have key : (i t).obi.req = true →
        (run s i (t + 1)).regsRsp (i (t + 1)).obi = (run s i t).regsRsp (i t).obi := fun hr => by
      rw [run_succ]
      exact (echoes_iff hr).2 (h hr)
    refine ⟨fun hv => key (by rw [← hown, hv]), fun hc k hk => ⟨?_, step_ip_claim hk⟩⟩
    have hr : (i t).obi.req = true := by
      simp only [reads, Bool.and_eq_true] at hc
      exact hc.1.1
    have hd : ((run s i (t + 1)).rsp (i (t + 1))).rdata = ((run s i t).regsRsp (i t).obi).1 := by
      rw [← key hr]
      rfl
    rw [hd, regsRsp_reads hc]
    exact claim_id hk

/-- Source 1 gets a priority and is enabled; then it is raised, and claimed with nothing on the bus
    after the claim. -/
def claimOnce (t : ℕ) : PlicIn :=
  match t with
  | 0 => ⟨⟨true, 0x0C000004, true, 15, 1⟩, 0⟩
  | 1 => ⟨⟨true, 0x0C002000, true, 15, 2⟩, 1⟩
  | 4 => ⟨⟨true, 0x0C200004, false, 15, 0⟩, 0⟩
  | _ => ⟨.idle, 0⟩

/-- The claimed source is lost. -/
theorem claimOnce_lost : ¬ Answered reset claimOnce 4 := fun h =>
  absurd (h.claim (by decide) 0 (by decide)).1 (by decide)

end Plic

end SentinelSoc
