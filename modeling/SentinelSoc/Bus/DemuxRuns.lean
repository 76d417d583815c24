/-
  Runs of the demultiplexer against slaves that stall their grants and answer late.

  * `Slaves`: the demultiplexer and how many answers each slave owes;
  * `Settled`: the combinational equations of one cycle, as a relation on the wires;
  * `Crowded`: the selected slave grants one request more than the counter can take;
  * `accounted_iff`: the transactions are accounted for in every cycle of a run exactly when
    no cycle is crowded.
-/
import SentinelSoc.Bus.Demux

namespace SentinelSoc

/-- What the subordinate port and the slaves put in during one cycle. A slave may look at its
    request before it grants; it answers only if it owes an answer. -/
structure DemuxIn (σ : Type*) where
  select : σ
  sbr : ObiReq
  gnt : σ → ObiReq → Bool
  answers : σ → Bool
  /-- the value of the overflow wire in a cycle whose equations do not fix it -/
  free : Bool

/-- The demultiplexer and, for each slave, the granted requests it has not answered yet. -/
@[ext]
structure Slaves (w : ℕ) (σ : Type*) where
  demux : Demux w σ
  owed : σ → ℕ

/-- The wires that the equations of one cycle tie together. -/
structure DemuxWires where
  overflow : Bool
  sbrPortGnt : Bool
  cntUp : Bool
  en : Bool
  deriving DecidableEq

namespace Slaves

variable {w : ℕ} {σ : Type*}

section Wires

variable [DecidableEq σ]

/-- `mgr_ports_rsp_i[port].rvalid`. -/
def rvalid (s : Slaves w σ) (x : DemuxIn σ) (port : σ) : Bool :=
  x.answers port && decide (0 < s.owed port)

/-- `cnt_down`: the response of `select_q` (there is no `rready`). -/
def cntDown (s : Slaves w σ) (x : DemuxIn σ) : Bool := s.rvalid x s.demux.selectQ

/-- `mgr_ports_req_o[port]` under a value of the overflow wire. -/
def mgrReq (s : Slaves w σ) (x : DemuxIn σ) (overflow : Bool) (port : σ) : ObiReq :=
  s.demux.mgrReq overflow (s.cntDown x) x.select x.sbr port

/-- `mgr_ports_rsp_i[port].gnt`. -/
def gnt (s : Slaves w σ) (x : DemuxIn σ) (overflow : Bool) (port : σ) : Bool :=
  x.gnt port (s.mgrReq x overflow port)

def cntUp (s : Slaves w σ) (x : DemuxIn σ) (overflow : Bool) : Bool :=
  s.demux.cntUp overflow (s.cntDown x) x.select x.sbr (s.gnt x overflow x.select)

/-- The equations of the cycle. -/
def Settled (s : Slaves w σ) (x : DemuxIn σ) (v : DemuxWires) : Prop :=
  v.sbrPortGnt =
    s.demux.sbrGnt v.overflow (s.cntDown x) x.select (s.gnt x v.overflow x.select) ∧
  v.cntUp = s.cntUp x v.overflow ∧
  v.en = (v.cntUp ^^ s.cntDown x) ∧
  v.overflow =
    (DeltaCounter.next s.demux.inFlight false v.en false (s.cntDown x) 1#w 0#w).2

/-- The value driven on the overflow wire when the wire has the value `overflow`. -/
def drive (s : Slaves w σ) (x : DemuxIn σ) (overflow : Bool) : Bool :=
  s.demux.overflow (s.cntUp x overflow) (s.cntDown x)

/-- The overflow wire in this cycle. -/
def overflow (s : Slaves w σ) (x : DemuxIn σ) : Bool := Sync.settle (s.drive x) x.free

/-- The clock edge: each slave owes the requests it granted, less the one it answered. -/
def step (s : Slaves w σ) (x : DemuxIn σ) : Slaves w σ where
  demux := s.demux.step (s.cntUp x (s.overflow x)) (s.cntDown x) x.select
  owed port := s.owed port + ((s.mgrReq x (s.overflow x) port).req &&
    s.gnt x (s.overflow x) port).toNat - (s.rvalid x port).toNat

/-- After reset. -/
def reset (sel : σ) : Slaves w σ := ⟨⟨0#w, sel⟩, fun _ => 0⟩

/-- The requests granted and not answered. -/
def outstanding [Fintype σ] (s : Slaves w σ) : ℕ := ∑ port, s.owed port

/-- The slave in use grants another request while as many as the demultiplexer can count are
    unanswered, and answers none. -/
def Crowded [Fintype σ] (N : ℕ) (s : Slaves w σ) (x : DemuxIn σ) : Prop :=
  s.outstanding = min N (2 ^ w - 1) ∧ s.cntDown x = false ∧ x.select = s.demux.selectQ ∧
    x.sbr.req = true ∧ x.gnt x.select x.sbr = true

/-- What the accounting promises in one cycle. -/
structure Accounted [Fintype σ] (N : ℕ) (s : Slaves w σ) (x : DemuxIn σ) : Prop where
  settles : ∃! v, s.Settled x v
  counted : s.demux.inFlight.toNat = s.outstanding
  bounded : s.outstanding ≤ N
  own : ∀ port, s.owed port ≠ 0 → port = s.demux.selectQ
  asked : s.cntDown x = true → s.owed s.demux.selectQ ≠ 0

end Wires

/-! ## One cycle -/

variable {s : Slaves w σ} {x : DemuxIn σ} {N : ℕ}

/-- All that is owed is owed by the slave in use, and the counter knows how much. -/
structure Inv (N : ℕ) (s : Slaves w σ) : Prop where
  counted : s.demux.inFlight.toNat = s.owed s.demux.selectQ
  own : ∀ port, port ≠ s.demux.selectQ → s.owed port = 0
  bounded : s.owed s.demux.selectQ ≤ N

theorem inv_reset (N : ℕ) (sel : σ) : (reset sel : Slaves w σ).Inv N := by
  constructor <;> simp [reset]

theorem Inv.outstanding_eq [Fintype σ] (h : s.Inv N) : s.outstanding = s.owed s.demux.selectQ :=
  Finset.sum_eq_single _ (fun port _ hp => h.own port hp) (by simp)

/-- A response is always one that was counted. -/
theorem Inv.inFlight_pos (h : s.Inv N) (hd : s.cntDown x = true) : 0 < s.demux.inFlight.toNat := by
  simp only [cntDown, rvalid, Bool.and_eq_true, decide_eq_true_eq] at hd
  rw [h.counted]
  exact hd.2

theorem rvalid_le (port : σ) : (s.rvalid x port).toNat ≤ s.owed port := by
  unfold rvalid
  cases x.answers port <;> by_cases h : 0 < s.owed port <;> simp [h]
  omega

variable [DecidableEq σ]

/-- The other wires under a value of the overflow wire. -/
def wires (s : Slaves w σ) (x : DemuxIn σ) (ov : Bool) : DemuxWires where
  overflow := ov
  sbrPortGnt := s.demux.sbrGnt ov (s.cntDown x) x.select (s.gnt x ov x.select)
  cntUp := s.cntUp x ov
  en := s.cntUp x ov ^^ s.cntDown x

/-- The equations have as many solutions as the overflow wire has. -/
theorem existsUnique_settled_iff :
    (∃! v, s.Settled x v) ↔ ∃! ov, ov = s.drive x ov := by
  constructor
  · rintro ⟨⟨ov, g, up, en⟩, ⟨h1, h2, h3, h4⟩, hu⟩
    dsimp only at h1 h2 h3 h4
    subst h1 h2 h3
    refine ⟨ov, h4, fun ov' hov => ?_⟩
    exact congrArg DemuxWires.overflow (hu (s.wires x ov') ⟨rfl, rfl, rfl, hov⟩)
  · rintro ⟨ov, hov, hu⟩
    refine ⟨s.wires x ov, ⟨rfl, rfl, rfl, hov⟩, ?_⟩
    rintro ⟨ov', g, up, en⟩ ⟨h1, h2, h3, h4⟩
    dsimp only at h1 h2 h3 h4
    subst h1 h2 h3
    obtain rfl : ov' = ov := hu ov' h4
    rfl

theorem cntUp_eq (ov : Bool) : s.cntUp x ov =
    (s.demux.passes ov (s.cntDown x) x.select && x.sbr.req && x.gnt x.select x.sbr) := by
  unfold cntUp gnt mgrReq
  rw [Demux.cntUp_eq]
  unfold Demux.mgrReq
  cases s.demux.passes ov (s.cntDown x) x.select <;> simp

/-- While requests are open and none is answered, only the slave in use is asked. -/
theorem select_of_cntUp {ov : Bool} (hd : s.cntDown x = false)
    (h0 : s.demux.inFlight.toNat ≠ 0) (h : s.cntUp x ov = true) :
    ov = false ∧ x.select = s.demux.selectQ ∧ x.sbr.req = true ∧ x.gnt x.select x.sbr = true := by
  have h0' : s.demux.inFlight ≠ 0 := fun e => h0 (by simp [e])
  rw [cntUp_eq, hd] at h
  simp only [Demux.passes, Bool.and_false, Bool.or_false, Bool.and_eq_true, Bool.or_eq_true,
    Bool.not_eq_true', beq_iff_eq] at h
  obtain ⟨⟨⟨h1, h2 | h2⟩, h3⟩, h4⟩ := h
  · exact ⟨h1, h2, h3, h4⟩
  · exact absurd h2 h0'

/-- What a port is asked for, and what it grants. -/
theorem granted_eq (port : σ) :
    ((s.mgrReq x (s.overflow x) port).req && s.gnt x (s.overflow x) port) =
      (s.cntUp x (s.overflow x) && port == x.select) := by
  by_cases hp : port = x.select
  · subst hp
    simp [cntUp, Demux.cntUp, mgrReq]
  · simp [mgrReq, Demux.mgrReq_of_ne hp, hp]

theorem step_owed (port : σ) : (s.step x).owed port =
    s.owed port + (s.cntUp x (s.overflow x) && port == x.select).toNat -
      (s.rvalid x port).toNat := by
  rw [← granted_eq]
  rfl

theorem step_selectQ : (s.step x).demux.selectQ =
    if s.cntUp x (s.overflow x) then x.select else s.demux.selectQ := rfl

/-- The slave in use changes only with the last answer. -/
theorem Inv.inFlight_of_ne (hw : 0 < w) (h : s.Inv N) {ov : Bool} (hu : s.cntUp x ov = true)
    (hne : x.select ≠ s.demux.selectQ) : s.demux.inFlight.toNat = (s.cntDown x).toNat := by
  have h1 : 1 < 2 ^ w := Nat.one_lt_two_pow (by omega)
  rw [cntUp_eq] at hu
  simp only [Demux.passes, Bool.and_eq_true, Bool.or_eq_true, beq_iff_eq, hne, false_or] at hu
  obtain ⟨⟨⟨-, h0 | ⟨h0, hd⟩⟩, -⟩, -⟩ := hu
  · cases hd : s.cntDown x with
    | false => simp [h0]
    | true => exact absurd (h.inFlight_pos hd) (by simp [h0])
  · simp [h0, hd, Nat.mod_eq_of_lt h1]

/-- What the slave in use owes after the cycle. -/
theorem Inv.owed_step (hw : 0 < w) (h : s.Inv N) :
    (s.step x).owed (s.step x).demux.selectQ + (s.cntDown x).toNat =
      s.owed s.demux.selectQ + (s.cntUp x (s.overflow x)).toNat := by
  have hle : (s.cntDown x).toNat ≤ s.owed s.demux.selectQ := rvalid_le _
  rw [step_selectQ]
  cases hu : s.cntUp x (s.overflow x) with
  | false =>
    have e : s.rvalid x s.demux.selectQ = s.cntDown x := rfl
    simp only [Bool.false_eq_true, if_false, step_owed, hu, Bool.false_and, e, Bool.toNat_false]
    omega
  | true =>
    rw [if_pos rfl, step_owed, hu]
    by_cases hs : x.select = s.demux.selectQ
    · have e : s.rvalid x x.select = s.cntDown x := by rw [hs]; rfl
      rw [e, hs, beq_self_eq_true, Bool.and_self, Bool.toNat_true]
      omega
    · have h0 := h.own x.select hs
      have hr : s.rvalid x x.select = false := by simp [rvalid, h0]
      rw [← h.counted, h.inFlight_of_ne hw hu hs, h0, hr]
      simp
      omega

theorem Inv.own_step (hw : 0 < w) (h : s.Inv N) (port : σ)
    (hp : port ≠ (s.step x).demux.selectQ) : (s.step x).owed port = 0 := by
  rw [step_selectQ] at hp
  rw [step_owed]
  cases hu : s.cntUp x (s.overflow x) with
  | false =>
    rw [hu, if_neg Bool.false_ne_true] at hp
    simp [h.own port hp]
  | true =>
    rw [hu, if_pos rfl] at hp
    by_cases hs : port = s.demux.selectQ
    · have hne : x.select ≠ s.demux.selectQ := fun e => hp (hs.trans e.symm)
      have hc := h.inFlight_of_ne hw hu hne
      rw [h.counted, ← hs] at hc
      have e : s.rvalid x port = s.cntDown x := by rw [hs]; rfl
      simp [hp, hc, e]
    · rw [h.own port hs, Bool.true_and, beq_eq_false_iff_ne.2 hp]
      simp

variable [Fintype σ]

theorem Inv.drive_eq_false (hw : 0 < w) (h : s.Inv N) (hc : ¬ s.Crowded N x) (ov : Bool) :
    s.drive x ov = false := by
  have h1 : 1 < 2 ^ w := Nat.one_lt_two_pow (by omega)
  rw [drive, Demux.overflow_eq hw]
  cases hd : s.cntDown x with
  | true =>
    rw [if_pos rfl, beq_eq_false_iff_ne.2 (h.inFlight_pos hd).ne', Bool.and_false]
  | false =>
    rw [if_neg Bool.false_ne_true]
    by_contra hn
    simp only [Bool.not_eq_false, Bool.and_eq_true, decide_eq_true_eq] at hn
    obtain ⟨hu, hq⟩ := hn
    have hpos : 0 < s.demux.inFlight.toNat := by omega
    obtain ⟨-, e1, e2, e3⟩ := select_of_cntUp hd hpos.ne' hu
    have hlt := s.demux.inFlight.isLt
    have hb := h.bounded
    have hcnt := h.counted
    exact hc ⟨by rw [h.outstanding_eq]; omega, hd, e1, e2, e3⟩

theorem Inv.overflow_eq_false (hw : 0 < w) (h : s.Inv N) (hc : ¬ s.Crowded N x) :
    s.overflow x = false :=
  Sync.settle_of_const (h.drive_eq_false hw hc _) (h.drive_eq_false hw hc _) _

theorem Inv.step (hw : 0 < w) (hN : 0 < N) (h : s.Inv N) (hc : ¬ s.Crowded N x) :
    (s.step x).Inv N := by
  have hov := h.overflow_eq_false hw hc
  have hcount : (s.step x).demux.inFlight.toNat + (s.cntDown x).toNat =
      s.demux.inFlight.toNat + (s.cntUp x (s.overflow x)).toNat := by
    refine Demux.inFlight_step hw ?_
    rw [hov]
    exact h.drive_eq_false hw hc false
  have howed := h.owed_step (x := x) hw
  refine ⟨by have := h.counted; omega, h.own_step hw, ?_⟩
  by_contra hn
  have hb := h.bounded
  -- only a grant beside no answer can pass the bound, and then the cycle was crowded
  have hd : s.cntDown x = false := by
    cases hd : s.cntDown x with
    | false => rfl
    | true => rw [hd] at howed; cases hu : s.cntUp x (s.overflow x) <;> simp [hu] at howed <;> omega
  have hu : s.cntUp x (s.overflow x) = true := by
    cases hu : s.cntUp x (s.overflow x) with
    | true => rfl
    | false => rw [hu, hd] at howed; simp at howed; omega
  rw [hd, hu, Bool.toNat_false, Bool.toNat_true] at howed
  have hq := h.counted
  obtain ⟨-, e1, e2, e3⟩ := select_of_cntUp hd (by omega) hu
  have hlt := s.demux.inFlight.isLt
  exact hc ⟨by rw [h.outstanding_eq]; omega, hd, e1, e2, e3⟩

/-! ## Runs -/

theorem Inv.accounted (hw : 0 < w) (h : s.Inv N) (hc : ¬ s.Crowded N x) : s.Accounted N x where
  settles := by
    rw [existsUnique_settled_iff]
    exact ⟨false, (h.drive_eq_false hw hc false).symm, fun ov hov =>
      hov.trans (h.drive_eq_false hw hc ov)⟩
  counted := by rw [h.outstanding_eq, h.counted]
  bounded := by rw [h.outstanding_eq]; exact h.bounded
  own port hp := by
    by_contra hne
    exact hp (h.own port hne)
  asked hd := by
    rw [← h.counted]
    exact (h.inFlight_pos hd).ne'

/-- A crowded cycle either has no solution or passes the bound. -/
theorem Inv.crowded (hw : 0 < w) (h : s.Inv N) (hc : s.Crowded N x) :
    ¬ s.Accounted N x ∨ N < (s.step x).outstanding := by
  obtain ⟨hmin, hd, hsel, hreq, hgnt⟩ := hc
  have hup : ∀ ov, s.cntUp x ov = !ov := fun ov => by
    rw [cntUp_eq, hreq, hgnt, hsel, Demux.passes_selectQ, Bool.and_true, Bool.and_true]
  have hdrive : ∀ ov, s.drive x ov = (!ov && decide (2 ^ w ≤ s.demux.inFlight.toNat + 1)) :=
    fun ov => by rw [drive, Demux.overflow_eq hw, hd, hup, if_neg Bool.false_ne_true]
  rw [h.outstanding_eq, ← h.counted] at hmin
  by_cases hfull : 2 ^ w ≤ s.demux.inFlight.toNat + 1
  · refine .inl fun ha => ?_
    obtain ⟨ov, hov, -⟩ := existsUnique_settled_iff.1 ha.settles
    rw [hdrive, decide_eq_true hfull, Bool.and_true] at hov
    exact (Bool.not_ne_self ov) hov.symm
  · refine .inr ?_
    have hov : s.overflow x = false :=
      Sync.settle_of_const (by simp [hdrive, hfull]) (by simp [hdrive]) _
    have howed := h.owed_step (x := x) hw
    rw [hov, hup, hd, ← h.counted] at howed
    have hle : (s.step x).owed (s.step x).demux.selectQ ≤ (s.step x).outstanding :=
      Finset.single_le_sum (fun _ _ => Nat.zero_le _) (Finset.mem_univ _)
    simp only [Bool.toNat_false, Bool.not_false, Bool.toNat_true] at howed
    omega

theorem idxWidth_pos (N : ℕ) : 0 < idxWidth N := by
  unfold idxWidth
  split_ifs with h
  · exact Nat.clog_pos (by omega) h
  · omega

theorem run_inv {N : ℕ} (hN : 0 < N) (hw : 0 < w) (sel : σ) (x : ℕ → DemuxIn σ) (t : ℕ)
    (hc : ∀ u < t, ¬ (Sync.run step (reset sel : Slaves w σ) x u).Crowded N (x u)) :
    (Sync.run step (reset sel : Slaves w σ) x t).Inv N :=
  Sync.run_invariant_of (C := fun s x => ¬ s.Crowded N x) (inv_reset N sel)
    (fun _ _ h hc => h.step hw hN hc) t hc

/-- **The transactions of a run are accounted for in every cycle exactly when no cycle is
    crowded.** -/
theorem accounted_iff {N : ℕ} (hN : 2 ≤ N) (sel : σ) (x : ℕ → DemuxIn σ) :
    (∀ t, (Sync.run step (reset sel : Slaves (idxWidth N) σ) x t).Accounted N (x t)) ↔
      ∀ t, ¬ (Sync.run step (reset sel : Slaves (idxWidth N) σ) x t).Crowded N (x t) := by
  classical
  have hw := idxWidth_pos N
  constructor
  · intro ha
    by_contra! hex
    have hinv := run_inv (N := N) (by omega) hw sel x (Nat.find hex)
      fun u hu => Nat.find_min hex hu
    rcases hinv.crowded hw (Nat.find_spec hex) with hn | hn
    · exact hn (ha _)
    · exact absurd (ha (Nat.find hex + 1)).bounded (by rw [Sync.run_succ]; omega)
  · intro hc t
    exact (run_inv (by omega) hw sel x t fun u _ => hc u).accounted hw (hc t)

/-- A request to port 0, which grants whatever it is asked and never answers. -/
def grantOnly : DemuxIn (Fin 2) where
  select := 0
  sbr := ⟨true, 0, false, 0xF, 0⟩
  gnt _ r := r.req
  answers _ := false
  free := false

theorem accounted_iff_grantOnly :
    (∀ t, (Sync.run step (reset 0 : Slaves (idxWidth 2) (Fin 2)) (fun _ => grantOnly) t).Accounted
      2 grantOnly) ↔
    ∀ t, ¬ (Sync.run step (reset 0 : Slaves (idxWidth 2) (Fin 2)) (fun _ => grantOnly) t).Crowded
      2 grantOnly :=
  accounted_iff (le_refl 2) 0 fun _ => grantOnly

/-- With two outstanding transactions allowed, the second grant before an answer leaves the
    equations of its cycle without a solution. -/
theorem grantOnly_unsettled : ¬ ∃ v, (Sync.run step (reset 0 : Slaves (idxWidth 2) (Fin 2))
    (fun _ => grantOnly) 1).Settled grantOnly v := by
  rintro ⟨⟨o, g, u, e⟩, h⟩
  revert h
  unfold Settled
  revert o g u e
  decide +kernel

end Slaves

end SentinelSoc
