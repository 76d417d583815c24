/-
  The OBI demultiplexer (`obi_demux.sv`, and `soc_obi_demux.sv`, which is the same
  logic with the port loop unrolled, for ports 0 to 15; its instances have 10 and 3) and
  its transaction counter (`delta_counter.sv`).

  * `DeltaCounter.next` and the functions of `Demux` follow the source;
  * the overflow wire of the counter feeds back to the request path, so every
    function of the request path takes its value, and `Demux.overflow` is the
    value that the counter drives on it;
  * `Demux.overflow_eq`: what the feedback comes to;
  * `Demux.inFlight_step`: the counter counts, unless the feedback has no solution.
-/
import SentinelSoc.Lib.Sync

namespace SentinelSoc

/-- The request half of an OBI port (`soc_obi_req_t`, without the constant fields). -/
structure ObiReq where
  req : Bool
  addr : BitVec 32
  we : Bool
  be : BitVec 4
  wdata : BitVec 32
  deriving DecidableEq

/-- No request: `'0`. -/
def ObiReq.idle : ObiReq := ⟨false, 0, false, 0, 0⟩

@[simp] theorem ObiReq.idle_req : ObiReq.idle.req = false := rfl

@[simp] theorem ObiReq.idle_we : ObiReq.idle.we = false := rfl

/-- The response half of an OBI port (`soc_obi_rsp_t`). -/
structure ObiRsp where
  gnt : Bool
  rvalid : Bool
  rdata : BitVec 32
  err : Bool
  deriving DecidableEq

def ObiRsp.idle : ObiRsp := ⟨false, false, 0, false⟩

@[simp] theorem ObiRsp.idle_rvalid : ObiRsp.idle.rvalid = false := rfl

/-- `next_q` and `overflow_o` of `delta_counter`. -/
def DeltaCounter.next {w : ℕ} (q : BitVec w) (clear en load down : Bool) (delta d : BitVec w) :
    BitVec (w + 1) × Bool :=
  if clear then (0, false)
  else if load then (d.setWidth (w + 1), false)
  else if en then
    if down then
      if q < delta then (0, true) else (q.setWidth (w + 1) - delta.setWidth (w + 1), false)
    else
      let nextQ := q.setWidth (w + 1) + delta.setWidth (w + 1)
      (nextQ, nextQ.getLsbD w)
  else (q.setWidth (w + 1), false)

/-- `cf_math_pkg::idx_width`. -/
def idxWidth (numIdx : ℕ) : ℕ := if 1 < numIdx then Nat.clog 2 numIdx else 1

/-- The registers of the demultiplexer: `in_flight` (in the counter) and `select_q`. -/
structure Demux (w : ℕ) (σ : Type*) where
  inFlight : BitVec w
  selectQ : σ

namespace Demux

variable {w : ℕ} {σ : Type*} [DecidableEq σ]

/-- The condition under which the request path is open. `ObiDefaultConfig` has no `rready`, so
    `rsp_phase_stalled` is 0. -/
def passes (d : Demux w σ) (overflow cntDown : Bool) (select : σ) : Bool :=
  !overflow && (select == d.selectQ || d.inFlight == 0 || (d.inFlight == 1 && cntDown))

/-- `mgr_ports_req_o[port]`. -/
def mgrReq (d : Demux w σ) (overflow cntDown : Bool) (select : σ) (sbr : ObiReq) (port : σ) :
    ObiReq :=
  if d.passes overflow cntDown select && port == select then sbr else ObiReq.idle

/-- `sbr_port_gnt`, from the grant of the selected port. -/
def sbrGnt (d : Demux w σ) (overflow cntDown : Bool) (select : σ) (gnt : Bool) : Bool :=
  d.passes overflow cntDown select && gnt

/-- `cnt_up`: the selected port takes the request. -/
def cntUp (d : Demux w σ) (overflow cntDown : Bool) (select : σ) (sbr : ObiReq) (gnt : Bool) :
    Bool :=
  (d.mgrReq overflow cntDown select sbr select).req && gnt

/-- The counter instance: `en_i = cnt_up ^ cnt_down`, `down_i = cnt_down`, `delta_i = 1`. -/
def counter (d : Demux w σ) (cntUp cntDown : Bool) : BitVec (w + 1) × Bool :=
  DeltaCounter.next d.inFlight false (cntUp ^^ cntDown) false cntDown 1#w 0#w

/-- The overflow wire as the counter drives it. -/
def overflow (d : Demux w σ) (cntUp cntDown : Bool) : Bool := (d.counter cntUp cntDown).2

/-- The clock edge. -/
def step (d : Demux w σ) (cntUp cntDown : Bool) (select : σ) : Demux w σ where
  inFlight := (d.counter cntUp cntDown).1.setWidth w
  selectQ := if cntUp then select else d.selectQ

/-! ## The request path -/

variable {d : Demux w σ} {ov down up : Bool} {select port : σ} {sbr : ObiReq} {gnt : Bool}

theorem mgrReq_of_ne (h : port ≠ select) : d.mgrReq ov down select sbr port = ObiReq.idle := by
  simp [mgrReq, h]

/-- A port that is asked is asked for the request of the subordinate port. -/
theorem mgrReq_of_req (h : (d.mgrReq ov down select sbr port).req = true) :
    d.passes ov down select = true ∧ port = select ∧
      d.mgrReq ov down select sbr port = sbr := by
  unfold mgrReq at h ⊢
  split_ifs at h ⊢ with hc
  · simp only [Bool.and_eq_true, beq_iff_eq] at hc
    exact ⟨hc.1, hc.2, rfl⟩
  · exact absurd h Bool.false_ne_true

/-- What `select_q` is asked does not hang on whether it answers. -/
theorem mgrReq_selectQ {down' : Bool} :
    d.mgrReq ov down select sbr d.selectQ = d.mgrReq ov down' select sbr d.selectQ := by
  by_cases h : d.selectQ = select
  · subst h
    simp [mgrReq, passes]
  · rw [mgrReq_of_ne h, mgrReq_of_ne h]

theorem cntUp_eq : d.cntUp ov down select sbr gnt = (d.passes ov down select && sbr.req && gnt) := by
  unfold cntUp mgrReq
  cases d.passes ov down select <;> simp

theorem passes_selectQ : d.passes ov down d.selectQ = !ov := by
  simp [passes]

@[simp] theorem passes_overflow : d.passes true down select = false := rfl

@[simp] theorem cntUp_overflow : d.cntUp true down select sbr gnt = false := rfl

omit [DecidableEq σ] in
@[simp] theorem step_selectQ :
    (d.step up down select).selectQ = if up then select else d.selectQ := rfl

/-! ## The counter -/

omit [DecidableEq σ]

/-- The top bit of a sum that fits in `w + 1` bits is its carry out of `w` bits. -/
theorem getLsbD_top {v : BitVec (w + 1)} : v.getLsbD w = decide (2 ^ w ≤ v.toNat) := by
  have hv := v.isLt
  rw [← BitVec.testBit_toNat, Nat.testBit_eq_decide_div_mod_eq]
  rcases lt_or_ge v.toNat (2 ^ w) with h | h
  · simp [Nat.div_eq_of_lt h, h]
  · have h1 : v.toNat / 2 ^ w = 1 :=
      Nat.div_eq_of_lt_le (by omega) (by rw [pow_succ] at hv; omega)
    simp [h1, h]

theorem counter_up (hw : 0 < w) : (d.counter true false).1.toNat = d.inFlight.toNat + 1 ∧
    (d.counter true false).2 = decide (2 ^ w ≤ d.inFlight.toNat + 1) := by
  have h1 : 1 < 2 ^ w := Nat.one_lt_two_pow (by omega)
  have hq := d.inFlight.isLt
  have hs : 2 ^ (w + 1) = 2 ^ w * 2 := pow_succ 2 w
  have hv : (d.counter true false).1.toNat = d.inFlight.toNat + 1 := by
    simp only [counter, DeltaCounter.next, Bool.xor_false, Bool.false_eq_true, if_false, if_true,
      BitVec.toNat_add, BitVec.toNat_setWidth, BitVec.toNat_ofNat, Nat.mod_eq_of_lt h1]
    rw [Nat.mod_eq_of_lt (by omega : 1 < 2 ^ (w + 1)),
      Nat.mod_eq_of_lt (by omega : d.inFlight.toNat < 2 ^ (w + 1)), Nat.mod_eq_of_lt (by omega)]
  exact ⟨hv, by rw [← hv, ← getLsbD_top]; rfl⟩

theorem counter_down (hw : 0 < w) :
    (d.counter false true).1.toNat = d.inFlight.toNat - 1 ∧
      (d.counter false true).2 = (d.inFlight.toNat == 0) := by
  have h1 : 1 < 2 ^ w := Nat.one_lt_two_pow (by omega)
  have hq := d.inFlight.isLt
  have hs : 2 ^ (w + 1) = 2 ^ w * 2 := pow_succ 2 w
  have hlt : d.inFlight < 1#w ↔ d.inFlight.toNat = 0 := by
    simp [BitVec.lt_def, Nat.mod_eq_of_lt h1]
  simp only [counter, DeltaCounter.next, Bool.false_xor, Bool.false_eq_true, if_false, if_true, hlt]
  split_ifs with h0
  · simp [h0]
  · refine ⟨?_, by simp [h0]⟩
    simp only [BitVec.toNat_sub, BitVec.toNat_setWidth, BitVec.toNat_ofNat, Nat.mod_eq_of_lt h1]
    rw [Nat.mod_eq_of_lt (by omega : 1 < 2 ^ (w + 1)),
      Nat.mod_eq_of_lt (by omega : d.inFlight.toNat < 2 ^ (w + 1)),
      show 2 ^ (w + 1) - 1 + d.inFlight.toNat = d.inFlight.toNat - 1 + 2 ^ (w + 1) by omega,
      Nat.add_mod_right, Nat.mod_eq_of_lt (by omega)]

theorem counter_hold (up : Bool) : (d.counter up up).1.toNat = d.inFlight.toNat ∧
    (d.counter up up).2 = false := by
  have hq := d.inFlight.isLt
  have hs : 2 ^ (w + 1) = 2 ^ w * 2 := pow_succ 2 w
  simp only [counter, DeltaCounter.next, Bool.xor_self, Bool.false_eq_true, if_false, and_true,
    BitVec.toNat_setWidth]
  rw [Nat.mod_eq_of_lt (by omega)]

/-- When the counter overflows: a response that was never counted, or one request more than it
    can hold. -/
theorem overflow_eq (hw : 0 < w) : d.overflow up down =
    if down then !up && d.inFlight.toNat == 0 else up && decide (2 ^ w ≤ d.inFlight.toNat + 1) := by
  cases down <;> cases up
  · exact (counter_hold false).2
  · exact (counter_up hw).2
  · exact (counter_down hw).2
  · exact (counter_hold true).2

/-- **The counter counts** what goes in and out, as long as it does not overflow. -/
theorem inFlight_step (hw : 0 < w) (h : d.overflow up down = false) :
    (d.step up down select).inFlight.toNat + down.toNat = d.inFlight.toNat + up.toNat := by
  have hq := d.inFlight.isLt
  rw [overflow_eq hw] at h
  have hs : (d.step up down select).inFlight.toNat = (d.counter up down).1.toNat % 2 ^ w := by
    simp [step]
  rw [hs]
  cases down <;> cases up <;> simp only [Bool.toNat_true, Bool.toNat_false] <;> simp at h
  · rw [(counter_hold false).1, Nat.mod_eq_of_lt hq]
  · rw [(counter_up hw).1, Nat.mod_eq_of_lt (by omega)]
  · rw [(counter_down hw).1, Nat.mod_eq_of_lt (by omega)]
    omega
  · rw [(counter_hold true).1, Nat.mod_eq_of_lt hq]

end Demux

end SentinelSoc
