/-
  What the interrupt controller is for, over runs: the target gets the best source, and
  every interrupt is claimed once.

  * `Eligible`, `Best`: the source that the target should get;
  * `notified`: the target gets it in the next cycle, and so does a claim;
  * `Gateway`: the purpose of a gateway, a source that is raised, claimed and completed in
    turn; `gateway_run`: the gateways of the controller do this if software completes only
    what it has claimed;
  * `served`: no interrupt is lost, and none is claimed twice, except by two claims in a row.
-/
import SentinelSoc.Irq.Plic
import SentinelSoc.Lib.Ranked
import Mathlib.Data.Nat.Count

namespace SentinelSoc

namespace Plic

/-! ## The best source -/

variable {s : Plic} {x : PlicIn} {i : ℕ → PlicIn} {k : Fin 12} {t : ℕ}

/-- A source that can be notified: pending, enabled and above the threshold. The highest
    threshold holds nothing back, as the sum with 1 wraps around. -/
structure Eligible (s : Plic) (k : Fin 12) : Prop where
  pending : s.ip.getLsbD k = true
  enabled : s.ieQ.getLsbD k = true
  above : s.thresholdQ < s.prioQ k ∨ s.thresholdQ = 3

/-- The eligible source of the highest priority, and of these the first one. -/
structure Best (s : Plic) (k : Fin 12) : Prop extends Eligible s k where
  best : ∀ j, Eligible s j → s.prioQ j < s.prioQ k ∨ s.prioQ j = s.prioQ k ∧ k ≤ j

def ready (s : Plic) (k : Fin 12) : Bool := s.ip.getLsbD k && s.ieQ.getLsbD k

def rank (s : Plic) (k : Fin 12) : Fin (2 ^ 2) := (s.prioQ k).toFin

/-- The lowest priority that is above the threshold. -/
def floor (s : Plic) : Fin (2 ^ 2) := (s.thresholdQ + 1).toFin

/-- The number of a source on the bus. -/
def idOf (k : Fin 12) : BitVec 4 := BitVec.ofNat 4 (k + 1)

/-- The variables of the loop for what the pass keeps. -/
def loopState (a : Fin (2 ^ 2) × Option (Fin 12)) : BitVec 2 × Bool × BitVec 4 :=
  (BitVec.ofFin a.1, a.2.isSome, (a.2.map idOf).getD 0)

theorem targetRound_eq (a : Fin (2 ^ 2) × Option (Fin 12)) (k : Fin 12) :
    s.targetRound (loopState a) k = loopState (Ranked.round s.ready s.rank a k) := by
  have hle : decide (BitVec.ofFin a.1 ≤ s.prioQ k) = decide (a.1 ≤ s.rank k) := rfl
  have hr : (s.ip.getLsbD k && s.ieQ.getLsbD k) = s.ready k := rfl
  rw [targetRound, Ranked.round, loopState, hle, hr]
  split_ifs <;> rfl

theorem target_eq (s : Plic) : s.target =
    (loopState (Ranked.best s.ready s.rank s.floor (List.finRange 12).reverse)).2 := by
  have h : (List.finRange 12).reverse.foldl s.targetRound (loopState (s.floor, none)) = _ :=
    List.foldl_hom loopState fun a k => s.targetRound_eq a k
  rw [target, Ranked.best, ← h]
  rfl

theorem above_iff {p q : BitVec 2} : (p + 1).toFin ≤ q.toFin ↔ p < q ∨ p = 3 := by
  revert p q
  decide

theorem eligible_iff : Eligible s k ↔ s.ready k = true ∧ s.floor ≤ s.rank k := by
  rw [floor, rank, above_iff, ready, Bool.and_eq_true]
  constructor
  · rintro ⟨hp, he, ha⟩
    exact ⟨⟨hp, he⟩, ha⟩
  · rintro ⟨⟨hp, he⟩, ha⟩
    exact ⟨hp, he, ha⟩

/-- A source behind another one in the pass has the lower number. -/
theorem reverse_finRange {before after : List (Fin 12)} {j k : Fin 12}
    (h : (List.finRange 12).reverse = before ++ k :: after) :
    (j ∈ before → k < j) ∧ (j = k ∨ j ∈ before ∨ j ∈ after) := by
  have hs : (before ++ k :: after).Pairwise (· > ·) := by
    rw [← h, List.pairwise_reverse]
    exact List.pairwise_lt_finRange 12
  constructor
  · intro hj
    exact (List.pairwise_append.1 hs).2.2 j hj k List.mem_cons_self
  · have hm : j ∈ (List.finRange 12).reverse := List.mem_reverse.2 (List.mem_finRange j)
    rw [h, List.mem_append, List.mem_cons] at hm
    tauto

theorem best_of_wins
    (h : Ranked.Wins s.ready s.rank s.floor (List.finRange 12).reverse k) : Best s k := by
  obtain ⟨hr, hf, before, after, he, hb, ha⟩ := h
  refine ⟨eligible_iff.2 ⟨hr, hf⟩, fun j hj => ?_⟩
  have hjr := (eligible_iff.1 hj).1
  obtain ⟨hlt, hmem⟩ := reverse_finRange (j := j) he
  rcases hmem with hj' | hj' | hj'
  · exact .inr ⟨by rw [hj'], hj'.ge⟩
  · rcases (hb j hj' hjr).lt_or_eq with h | h
    · exact .inl h
    · exact .inr ⟨congrArg BitVec.ofFin h, (hlt hj').le⟩
  · exact .inl (ha j hj' hjr)

/-- The target gets the best source, if there is one. -/
theorem target_best (s : Plic) : (∃ k, Best s k ∧ s.target = (true, idOf k)) ∨
    (∀ k, ¬ Eligible s k) ∧ s.target = (false, 0) := by
  have h : Ranked.Ends s.ready s.rank s.floor (List.finRange 12).reverse _ :=
    Ranked.best_spec s.floor _
  rw [target_eq]
  generalize Ranked.best s.ready s.rank s.floor (List.finRange 12).reverse = a at h ⊢
  obtain ⟨m, o⟩ := a
  cases o with
  | none =>
    refine .inr ⟨fun k hk => ?_, rfl⟩
    obtain ⟨hr, hf⟩ := eligible_iff.1 hk
    exact absurd (h.2 k (List.mem_reverse.2 (List.mem_finRange k)) hr) (not_lt.2 hf)
  | some k => exact .inl ⟨k, best_of_wins h.2, rfl⟩

/-- A source's bit in what a number selects. -/
theorem getLsbD_sourceBit (id : BitVec 4) (k : Fin 12) :
    (sourceBit id).getLsbD k = (id == idOf k) := by
  revert id k
  decide

theorem sourceBit_idOf (k : Fin 12) : sourceBit (idOf k) = BitVec.twoPow 12 k := by
  revert k
  decide

theorem idOf_injective : Function.Injective idOf := by decide

theorem idOf_ne_zero (k : Fin 12) : idOf k ≠ 0 := by
  revert k
  decide

theorem setWidth_idOf (k : Fin 12) : (idOf k).setWidth 32 = BitVec.ofNat 32 (k + 1) := by
  revert k
  decide

/-- What the target and a read of the claim register get in a state. -/
structure Gets (s : Plic) (x : PlicIn) (o : Option (Fin 12)) : Prop where
  irq : s.irq = o.isSome
  read : reads x .cc = true →
    s.regsRsp x.obi = ((o.map fun k : Fin 12 => BitVec.ofNat 32 (k + 1)).getD 0, false)
  claim : reads x .cc = true → s.claim x = (o.map fun k : Fin 12 => BitVec.twoPow 12 k).getD 0

/-- **Who is notified.** In every cycle the interrupt line and the claim register are those of the
    best source of the cycle before; a read of the register clears this source and no other. -/
theorem notified (s : Plic) (i : ℕ → PlicIn) (t : ℕ) :
    (∃ k, Best (run s i t) k ∧ Gets (run s i (t + 1)) (i (t + 1)) (some k)) ∨
    (∀ k, ¬ Eligible (run s i t) k) ∧ Gets (run s i (t + 1)) (i (t + 1)) none := by
  have hirq : (run s i (t + 1)).irq = (run s i t).target.1 := rfl
  have hid : (run s i (t + 1)).irqId = (run s i t).target.2 := rfl
  rcases target_best (run s i t) with ⟨k, hb, ht⟩ | ⟨hn, ht⟩
  · rw [ht] at hirq hid
    refine .inl ⟨k, hb, hirq, fun hr => ?_, fun hr => ?_⟩
    · rw [regsRsp_reads hr, read, hid, setWidth_idOf]
      rfl
    · rw [claim, if_pos hr, hid, sourceBit_idOf]
      rfl
  · rw [ht] at hirq hid
    refine .inr ⟨hn, hirq, fun hr => ?_, fun hr => ?_⟩
    · rw [regsRsp_reads hr, read, hid]
      rfl
    · rw [claim, if_pos hr, hid]
      rfl

/-! ## The gateways -/

/-- What the gateway of a source is for: the source is raised, claimed, and completed before it is
    raised again. -/
inductive Gateway
  | idle
  | pending
  | serving
  deriving DecidableEq

def Gateway.step : Gateway → (src claim complete : Bool) → Gateway
  | .idle, true, _, _ => .pending
  | .pending, _, true, _ => .serving
  | .serving, _, _, true => .idle
  | g, _, _, _ => g

def claims (s : Plic) (i : ℕ → PlicIn) (k : Fin 12) (t : ℕ) : Bool :=
  ((run s i t).claim (i t)).getLsbD k

def completes (i : ℕ → PlicIn) (k : Fin 12) (t : ℕ) : Bool := (complete (i t)).getLsbD k

/-- Software completes a source only after a claim of it that it has not completed yet. -/
def Tidy (s : Plic) (i : ℕ → PlicIn) (k : Fin 12) : Prop :=
  ∀ t, completes i k t = true →
    ∃ c < t, claims s i k c = true ∧ ∀ u, c < u → u < t → completes i k u = false

def gateway (s : Plic) (i : ℕ → PlicIn) (k : Fin 12) : ℕ → Gateway
  | 0 => .idle
  | t + 1 => (gateway s i k t).step ((i t).src.getLsbD k) (claims s i k t) (completes i k t)

theorem claims_eq : claims s i k t = (reads (i t) .cc && (run s i t).irqId == idOf k) := by
  rw [claims, claim]
  cases reads (i t) .cc with
  | false => simp
  | true => rw [if_pos rfl, getLsbD_sourceBit, Bool.true_and]

theorem completes_of_claims (h : claims s i k t = true) : completes i k t = false := by
  rw [claims_eq, Bool.and_eq_true] at h
  have hr := h.1
  have hw : writes (i t) .cc = false := by
    simp only [reads, Bool.and_eq_true, Bool.not_eq_true'] at hr
    simp [writes, hr.1.2]
  simp [completes, complete, hw]

/-- The source in the claim register was pending a cycle ago. -/
theorem ip_of_irqId (h : (run s i (t + 1)).irqId = idOf k) : (run s i t).ip.getLsbD k = true := by
  have hid : (run s i t).target.2 = idOf k := h
  rcases target_best (run s i t) with ⟨j, hb, ht⟩ | ⟨-, ht⟩
  · rw [ht] at hid
    exact idOf_injective hid ▸ hb.pending
  · rw [ht] at hid
    exact absurd hid.symm (idOf_ne_zero k)

/-- The gateway of a source is in the state `g`, after `t` cycles: the two bits, the claims that are
    not completed, and the claim register. -/
structure Gated (s : Plic) (i : ℕ → PlicIn) (k : Fin 12) (t : ℕ) (g : Gateway) : Prop where
  ip : (run s i t).ip.getLsbD k = decide (g = .pending)
  ia : (run s i t).ia.getLsbD k = decide (g ≠ .idle)
  completed : g ≠ .serving → ∀ c < t, claims s i k c = true →
    ∃ u, c < u ∧ u < t ∧ completes i k u = true
  irqId : (run s i t).irqId = idOf k → g = .pending ∨
    g = .serving ∧ ∃ u, t = u + 1 ∧ (run s i u).ip.getLsbD k = true ∧ claims s i k u = true

variable {g : Gateway}

theorem step_ip : (run s i (t + 1)).ip.getLsbD k = (((run s i t).ip.getLsbD k ||
    ((i t).src.getLsbD k && !(run s i t).ia.getLsbD k && !(run s i t).ip.getLsbD k)) &&
    !claims s i k t) := by
  simp [run_succ, step, claims]

theorem step_ia : (run s i (t + 1)).ia.getLsbD k = (((run s i t).ia.getLsbD k ||
    ((i t).src.getLsbD k && !(run s i t).ia.getLsbD k)) && !completes i k t) := by
  simp [run_succ, step, completes]

/-- Nothing is completed that is not in service. -/
theorem Gated.not_completes (h : Gated s i k t g) (ht : Tidy s i k) (hg : g ≠ .serving) :
    completes i k t = false := by
  by_contra hc
  obtain ⟨c, hct, hcl, hno⟩ := ht t (by simpa using hc)
  obtain ⟨u, hcu, hut, hu⟩ := h.completed hg c hct hcl
  rw [hno u hcu hut] at hu
  exact absurd hu Bool.false_ne_true

theorem Gated.idle_step (h : Gated s i k t .idle) (ht : Tidy s i k) :
    Gated s i k (t + 1) (Gateway.idle.step ((i t).src.getLsbD k) (claims s i k t)
      (completes i k t)) := by
  have hcomp := h.not_completes ht (by decide)
  have hcl : claims s i k t = false := by
    by_contra hc
    rw [Bool.not_eq_false, claims_eq, Bool.and_eq_true, beq_iff_eq] at hc
    rcases h.irqId hc.2 with hg | ⟨hg, -⟩ <;> exact absurd hg (by decide)
  have hip := h.ip
  have hia := h.ia
  simp only [reduceCtorEq, decide_false, ne_eq, not_true_eq_false] at hip hia
  refine ⟨?_, ?_, fun _ c hc hcc => ?_, fun hid => ?_⟩
  · rw [step_ip, hip, hia, hcl]
    cases (i t).src.getLsbD k <;> rfl
  · rw [step_ia, hia, hcomp]
    cases (i t).src.getLsbD k <;> rfl
  · rcases Nat.lt_succ_iff_lt_or_eq.1 hc with hc | rfl
    · obtain ⟨u, hcu, hut, hu⟩ := h.completed (by decide) c hc hcc
      exact ⟨u, hcu, hut.trans (Nat.lt_succ_self t), hu⟩
    · rw [hcl] at hcc
      exact absurd hcc Bool.false_ne_true
  · rw [ip_of_irqId hid] at hip
    exact absurd hip Bool.noConfusion

theorem Gated.pending_step (h : Gated s i k t .pending) (ht : Tidy s i k) :
    Gated s i k (t + 1) (Gateway.pending.step ((i t).src.getLsbD k) (claims s i k t)
      (completes i k t)) := by
  have hcomp := h.not_completes ht (by decide)
  have hip := h.ip
  have hia := h.ia
  simp only [decide_true, ne_eq, reduceCtorEq, not_false_eq_true] at hip hia
  have hia' : (run s i (t + 1)).ia.getLsbD k = true := by rw [step_ia, hia, hcomp]; rfl
  cases hcl : claims s i k t with
  | true =>
    refine ⟨by rw [step_ip, hcl, Bool.not_true, Bool.and_false]; rfl, hia',
      fun hg => absurd rfl hg, fun _ => .inr ⟨rfl, t, rfl, hip, hcl⟩⟩
  | false =>
    refine ⟨by rw [step_ip, hip, hcl]; rfl, hia', fun _ c hc hcc => ?_, fun _ => .inl rfl⟩
    rcases Nat.lt_succ_iff_lt_or_eq.1 hc with hc | rfl
    · obtain ⟨u, hcu, hut, hu⟩ := h.completed (by decide) c hc hcc
      exact ⟨u, hcu, hut.trans (Nat.lt_succ_self t), hu⟩
    · rw [hcl] at hcc
      exact absurd hcc Bool.false_ne_true

theorem Gated.serving_step (h : Gated s i k t .serving) :
    Gated s i k (t + 1) (Gateway.serving.step ((i t).src.getLsbD k) (claims s i k t)
      (completes i k t)) := by
  have hip := h.ip
  have hia := h.ia
  simp only [decide_true, ne_eq, reduceCtorEq, not_false_eq_true, decide_false] at hip hia
  have hip' : (run s i (t + 1)).ip.getLsbD k = false := by rw [step_ip, hip, hia]; simp
  have hid : (run s i (t + 1)).irqId ≠ idOf k := fun hid => by
    rw [ip_of_irqId hid] at hip
    exact absurd hip Bool.noConfusion
  cases hco : completes i k t with
  | true =>
    refine ⟨hip', by rw [step_ia, hco, Bool.not_true, Bool.and_false]; rfl, fun _ c hc hcc => ?_,
      fun h => absurd h hid⟩
    rcases Nat.lt_succ_iff_lt_or_eq.1 hc with hc | rfl
    · exact ⟨t, hc, Nat.lt_succ_self t, hco⟩
    · rw [completes_of_claims hcc] at hco
      exact absurd hco Bool.false_ne_true
  | false =>
    exact ⟨hip', by rw [step_ia, hia, hco]; rfl, fun hg => absurd rfl hg, fun h => absurd h hid⟩

/-- The gateways do what they are for. -/
theorem gateway_run (h : Tidy reset i k) (t : ℕ) :
    Gated reset i k t (gateway reset i k t) := by
  induction t with
  | zero =>
    exact ⟨by simp [run, reset, gateway], by simp [run, reset, gateway],
      fun _ c hc => absurd hc (Nat.not_lt_zero c), fun hid => absurd hid.symm (idOf_ne_zero k)⟩
  | succ t ih =>
    rw [gateway]
    cases hg : gateway reset i k t with
    | idle =>
      rw [hg] at ih
      exact ih.idle_step h
    | pending =>
      rw [hg] at ih
      exact ih.pending_step h
    | serving =>
      rw [hg] at ih
      exact ih.serving_step

/-! ## No interrupt is lost or claimed twice -/

/-- The gateway takes up an interrupt of its source. -/
def raised (s : Plic) (i : ℕ → PlicIn) (k : Fin 12) (t : ℕ) : Bool :=
  (i t).src.getLsbD k && !(run s i t).ia.getLsbD k

/-- A claim gets a pending interrupt. -/
def taken (s : Plic) (i : ℕ → PlicIn) (k : Fin 12) (t : ℕ) : Bool :=
  claims s i k t && (run s i t).ip.getLsbD k

structure Served (s : Plic) (i : ℕ → PlicIn) (k : Fin 12) : Prop where
  /-- every interrupt is claimed, but for one that is pending -/
  once : ∀ t, Nat.count (fun u => raised s i k u = true) t =
    Nat.count (fun u => taken s i k u = true) t + ((run s i t).ip.getLsbD k).toNat
  /-- an interrupt is completed before the next one of its source is claimed -/
  between : ∀ t u, t < u → taken s i k t = true → taken s i k u = true →
    ∃ c, t < c ∧ c < u ∧ completes i k c = true
  /-- a claim without an interrupt comes right behind one that got it -/
  repeated : ∀ t, claims s i k t = true → taken s i k t = false →
    ∃ u, t = u + 1 ∧ taken s i k u = true
  /-- an interrupt stays until it is claimed, also when its source falls -/
  kept : ∀ t u, t < u → raised s i k t = true →
    (∀ v, t < v → v < u → claims s i k v = false) → (run s i u).ip.getLsbD k = true

theorem Gated.taken_iff (h : Gated s i k t g) :
    taken s i k t = true ↔ g = .pending ∧ claims s i k t = true := by
  rw [taken, h.ip, Bool.and_eq_true, decide_eq_true_eq, and_comm]

theorem Gated.raised_iff (h : Gated s i k t g) :
    raised s i k t = true ↔ g = .idle ∧ (i t).src.getLsbD k = true := by
  rw [raised, h.ia, Bool.and_eq_true, ← decide_not, decide_eq_true_eq, not_not, and_comm]

theorem once_run (h : Tidy reset i k) (t : ℕ) :
    Nat.count (fun u => raised reset i k u = true) t =
      Nat.count (fun u => taken reset i k u = true) t +
        ((run reset i t).ip.getLsbD k).toNat := by
  induction t with
  | zero =>
    have hip : (run reset i 0).ip = 0 := rfl
    rw [Nat.count_zero, Nat.count_zero, hip]
    simp
  | succ t ih =>
    have ht := gateway_run h t
    have hs := (gateway_run h (t + 1)).ip
    rw [Nat.count_succ, Nat.count_succ, ih, hs, ht.ip, gateway]
    simp only [ht.raised_iff, ht.taken_iff]
    cases gateway reset i k t <;> cases (i t).src.getLsbD k <;> cases claims reset i k t <;>
      cases completes i k t <;> simp [Gateway.step]

/-- A source in service stays so until it is completed. -/
theorem serving_until {t u : ℕ} (htu : t ≤ u) (ht : gateway s i k t = .serving) :
    (∃ c, t ≤ c ∧ c < u ∧ completes i k c = true) ∨ gateway s i k u = .serving := by
  induction u, htu using Nat.le_induction with
  | base => exact .inr ht
  | succ u hu ih =>
    rcases ih with ⟨c, htc, hcu, hc⟩ | hg
    · exact .inl ⟨c, htc, hcu.trans (Nat.lt_succ_self u), hc⟩
    · cases hc : completes i k u with
      | true => exact .inl ⟨u, hu, Nat.lt_succ_self u, hc⟩
      | false =>
        rw [gateway, hg, hc]
        exact .inr rfl

/-- A pending source stays so until it is claimed. -/
theorem pending_until {t u : ℕ} (htu : t ≤ u) (ht : gateway s i k t = .pending)
    (hn : ∀ v, t ≤ v → v < u → claims s i k v = false) : gateway s i k u = .pending := by
  induction u, htu using Nat.le_induction with
  | base => exact ht
  | succ u hu ih =>
    have hg := ih fun v hv hvu => hn v hv (hvu.trans (Nat.lt_succ_self u))
    rw [gateway, hg, hn u hu (Nat.lt_succ_self u)]
    rfl

/-- **Every interrupt is claimed once.** -/
theorem served (h : Tidy reset i k) : Served reset i k where
  once := once_run h
  between t u htu ht hu := by
    obtain ⟨hg, hc⟩ := (gateway_run h t).taken_iff.1 ht
    have hs : gateway reset i k (t + 1) = .serving := by
      rw [gateway, hg, hc]
      rfl
    rcases serving_until htu hs with ⟨c, htc, hcu, hc⟩ | hs
    · exact ⟨c, htc, hcu, hc⟩
    · rw [((gateway_run h u).taken_iff.1 hu).1] at hs
      exact absurd hs (by decide)
  repeated t hc hn := by
    have hg := gateway_run h t
    rw [taken, hc, Bool.true_and] at hn
    rw [claims_eq, Bool.and_eq_true, beq_iff_eq] at hc
    rcases hg.irqId hc.2 with hp | ⟨-, u, rfl, hu, hcu⟩
    · rw [hg.ip, hp] at hn
      exact absurd hn (by decide)
    · exact ⟨u, rfl, by rw [taken, hcu, hu]; rfl⟩
  kept t u htu hr hn := by
    obtain ⟨hg, hsrc⟩ := (gateway_run h t).raised_iff.1 hr
    have hp : gateway reset i k (t + 1) = .pending := by
      rw [gateway, hg, hsrc]
      rfl
    rw [(gateway_run h u).ip, pending_until htu hp hn]
    rfl

/-- The run of `claimOnce`, and the claimed source is completed. -/
def claimComplete (t : ℕ) : PlicIn :=
  if t = 6 then ⟨⟨true, 0x0C200004, true, 15, 1⟩, 0⟩ else claimOnce t

theorem completes_claimComplete (t : ℕ) : completes claimComplete 0 t = decide (t = 6) := by
  match t with
  | 0 | 1 | 2 | 3 | 4 | 5 | 6 => decide
  | t + 7 =>
    have h : claimComplete (t + 7) = ⟨.idle, 0⟩ := by simp [claimComplete, claimOnce]
    rw [completes, h]
    simp [complete, writes, ObiReq.idle]

theorem served_claimComplete : Served reset claimComplete 0 :=
  served fun t ht => by
    rw [completes_claimComplete, decide_eq_true_eq] at ht
    subst ht
    exact ⟨4, by decide, by decide, fun u hu hu' => by
      rw [completes_claimComplete, decide_eq_false_iff_not]
      omega⟩

end Plic

end SentinelSoc
