/-
  The round-robin arbiter behind `obi_mux` (`rr_arb_tree.sv`), for any number of
  requesters and any type of data. Its `LockIn` parameter is read nowhere.

  * `winner` is the loop: the first requester from the pointer on;
  * `selIdx` is the winner's index after the cast to one bit;
  * `ArbOk` has the three duties of an arbiter, `RaisedOk` the runs it is up to;
  * `arbOk_iff`: it fulfils its duties in these, and in no others.
-/
import SentinelSoc.Bus.Demux

namespace SentinelSoc

/-- The control inputs of one cycle; bits from `NumIn` on are not there. -/
structure ArbIn where
  flush : Bool
  req : ℕ → Bool
  gnt : Bool

namespace Arb

/-- `logic'(x)`: one bit. -/
def castLogic (x : ℕ) : ℕ := x % 2

/-- The loop: the first of `rr_q`, `rr_q + 1`, … around that requests. -/
def winner (n rr : ℕ) (req : ℕ → Bool) : Option ℕ :=
  ((List.range n).find? fun k => req ((rr + k) % n)).map fun k => (rr + k) % n

/-- `sel_idx` -/
def selIdx (n rr : ℕ) (req : ℕ → Bool) : ℕ :=
  match winner n rr req with
  | some i => castLogic (i % 2 ^ idxWidth n)
  | none => rr

variable (n rr : ℕ) (x : ArbIn)

def gntO (k : ℕ) : Bool := (winner n rr x.req).isSome && x.gnt && k == selIdx n rr x.req

def dataO {α : Type} (zero : α) (data : ℕ → α) : α :=
  match winner n rr x.req with
  | some i => data i
  | none => zero

def idxO : ℕ := selIdx n rr x.req

def rrD : ℕ :=
  if (winner n rr x.req).isSome && x.gnt then
    if selIdx n rr x.req = n - 1 then 0 else (selIdx n rr x.req + 1) % 2 ^ idxWidth n
  else rr

/-- One clock edge. -/
def step : ℕ := if x.flush then 0 else rrD n rr x

/-- The pointer in cycle `t`. -/
def run (n : ℕ) (i : ℕ → ArbIn) : ℕ → ℕ := Sync.run (step n) 0 i

/-- The requester whose data goes out in cycle `t`. -/
def selected (n : ℕ) (i : ℕ → ArbIn) (t : ℕ) : Option ℕ := winner n (run n i t) (i t).req

/-- The granted cycles among the `m` from `t` on. -/
def grants (i : ℕ → ArbIn) (t m : ℕ) : ℕ := Nat.count (fun v => (i (t + v)).gnt = true) m

/-- Requester `k` requests in the `m` cycles from `t` on, with a granted cycle for every
    requester. -/
def Waits (n : ℕ) (i : ℕ → ArbIn) (k t m : ℕ) : Prop :=
  (∀ v < m, (i (t + v)).req k = true) ∧ n ≤ grants i t m

/-- One requester is granted, its index goes out, and its data whatever they are. -/
def GrantOk : Prop :=
  x.gnt = true → (∃ k < n, x.req k = true) →
    ∃ k < n, (∀ j, gntO n rr x j = true ↔ j = k) ∧ x.req k = true ∧ idxO n rr x = k ∧
      ∀ (α : Type) (zero : α) (data : ℕ → α), dataO n rr x zero data = data k

/-- The duties of the arbiter. -/
structure ArbOk (n : ℕ) (i : ℕ → ArbIn) : Prop where
  grant : ∀ t, GrantOk n (run n i t) (i t)
  lock : ∀ t w, selected n i t = some w → (i t).gnt = false → (i (t + 1)).req w = true →
    selected n i (t + 1) = some w
  fair : ∀ k < n, ∀ t m, Waits n i k t m → ∃ v < m, gntO n (run n i (t + v)) (i (t + v)) k = true

/-- How far the loop goes from the pointer to `k`. -/
def dist (n rr k : ℕ) : ℕ := if rr ≤ k then k - rr else k + n - rr

/-- The requests that the arbiter is up to. -/
structure RaisedOk (n : ℕ) (i : ℕ → ArbIn) : Prop where
  /-- only the first two requesters are ever selected in a granted cycle -/
  small : ∀ t w, (i t).gnt = true → selected n i t = some w → w < 2
  /-- when a selected request is not granted and stays, none is nearer in the next cycle to the
      pointer, which a flush has put at 0 -/
  nearer : ∀ t w, selected n i t = some w → (i t).gnt = false → (i (t + 1)).req w = true →
    ∀ k < n, (i (t + 1)).req k = true →
      dist n (if (i t).flush then 0 else run n i t) w ≤
        dist n (if (i t).flush then 0 else run n i t) k
  /-- no other requester waits -/
  high : ∀ k < n, 2 ≤ k → ∀ t m, ¬ Waits n i k t m
  /-- while requester 1 waits, requester 0 does not request in every granted cycle with the pointer
      flushed from 1 -/
  flushed : ∀ t m, Waits n i 1 t m → ∃ v < m, (i (t + v)).gnt = true ∧
    (run n i (t + v) = 1 ∨ (i (t + v)).req 0 = false)

variable {n rr : ℕ} {x : ArbIn} {i : ℕ → ArbIn} {t u k w m : ℕ} {req : ℕ → Bool}

theorem run_succ (t : ℕ) : run n i (t + 1) = step n (run n i t) (i t) := rfl

/-! ## The selected request -/

theorem le_two_pow_idxWidth : n ≤ 2 ^ idxWidth n := by
  unfold idxWidth
  split_ifs
  · exact Nat.le_pow_clog (by decide) n
  · omega

/-- Nothing but the lowest bit is left of an index. -/
theorem castLogic_idx (hn : 2 ≤ n) (w : ℕ) : castLogic (w % 2 ^ idxWidth n) = w % 2 := by
  refine Nat.mod_mod_of_dvd w (dvd_pow_self 2 ?_)
  intro h
  have := le_two_pow_idxWidth (n := n)
  rw [h] at this
  omega

theorem add_mod_of_lt (hr : rr < n) (hk : k < n) :
    (rr + k) % n = if rr + k < n then rr + k else rr + k - n := by
  split_ifs with h
  · exact Nat.mod_eq_of_lt h
  · rw [Nat.mod_eq_sub_mod (by omega), Nat.mod_eq_of_lt (by omega)]

/-- The winner is the requester nearest to the pointer. -/
theorem winner_eq_some (hr : rr < n) : winner n rr req = some w ↔
    w < n ∧ req w = true ∧ ∀ k < n, req k = true → dist n rr w ≤ dist n rr k := by
  simp only [winner, Option.map_eq_some_iff, List.find?_range_eq_some, List.mem_range,
    Bool.not_eq_true']
  have hdist : ∀ {k}, k < n → dist n rr k < n ∧ (rr + dist n rr k) % n = k := by
    intro k hk
    have hlt : dist n rr k < n := by unfold dist; split_ifs <;> omega
    refine ⟨hlt, ?_⟩
    rw [add_mod_of_lt hr hlt]
    unfold dist
    split_ifs <;> omega
  have hinv : ∀ {j}, j < n → (rr + j) % n < n ∧ dist n rr ((rr + j) % n) = j := by
    intro j hj
    rw [add_mod_of_lt hr hj]
    unfold dist
    split_ifs <;> omega
  constructor
  · rintro ⟨j, ⟨hq, hj, hbefore⟩, rfl⟩
    refine ⟨(hinv hj).1, hq, fun k hk hqk => ?_⟩
    rw [(hinv hj).2]
    by_contra hlt
    have := hbefore (dist n rr k) (by omega)
    rw [(hdist hk).2, hqk] at this
    cases this
  · rintro ⟨hw, hq, hmin⟩
    refine ⟨dist n rr w, ⟨by rw [(hdist hw).2]; exact hq, (hdist hw).1, fun j hj => ?_⟩,
      (hdist hw).2⟩
    by_contra hqj
    have hjn : j < n := by have := (hdist hw).1; omega
    have := hmin _ (hinv hjn).1 (by simpa using hqj)
    rw [(hinv hjn).2] at this
    omega

theorem winner_eq_none (hr : rr < n) : winner n rr req = none ↔ ∀ k < n, req k = false := by
  constructor
  · intro h k hk
    simp only [winner, Option.map_eq_none_iff, List.find?_range_eq_none, Bool.not_eq_true'] at h
    have hlt : dist n rr k < n := by unfold dist; split_ifs <;> omega
    have := h (dist n rr k) hlt
    rwa [show (rr + dist n rr k) % n = k by
      rw [add_mod_of_lt hr hlt]; unfold dist; split_ifs <;> omega] at this
  · intro h
    cases hw : winner n rr req with
    | none => rfl
    | some w =>
      obtain ⟨hlt, hq, -⟩ := (winner_eq_some hr).1 hw
      rw [h w hlt] at hq
      cases hq

theorem exists_winner (hr : rr < n) (hk : k < n) (hq : req k = true) :
    ∃ w, winner n rr req = some w := by
  rw [← Option.ne_none_iff_exists']
  intro h
  rw [(winner_eq_none hr).1 h k hk] at hq
  cases hq

/-! ## The pointer -/

theorem selIdx_some (hn : 2 ≤ n) (hw : winner n rr req = some w) : selIdx n rr req = w % 2 := by
  simp only [selIdx, hw, castLogic_idx hn]

/-- The pointer goes to the one after the granted index. -/
theorem rrD_granted (hn : 2 ≤ n) (hg : x.gnt = true) (hw : winner n rr x.req = some w) :
    rrD n rr x = if w % 2 = n - 1 then 0 else w % 2 + 1 := by
  simp only [rrD, hw, Option.isSome_some, hg, Bool.and_self, if_true, selIdx_some hn hw]
  split_ifs with h
  · rfl
  · have := le_two_pow_idxWidth (n := n)
    exact Nat.mod_eq_of_lt (by omega)

theorem step_lt (hn : 2 ≤ n) (hr : rr < n) : step n rr x < n := by
  unfold step
  split_ifs
  · omega
  · cases hg : x.gnt with
    | false => simpa [rrD, hg] using hr
    | true =>
      cases hw : winner n rr x.req with
      | none => simpa [rrD, hw] using hr
      | some w =>
        rw [rrD_granted hn hg hw]
        split_ifs <;> omega

theorem run_lt (hn : 2 ≤ n) (t : ℕ) : run n i t < n :=
  Sync.run_invariant (P := (· < n)) (by omega) (fun _ _ h => step_lt hn h) t

/-! ## Grants -/

theorem gntO_iff (hn : 2 ≤ n) : gntO n rr x k = true ↔
    x.gnt = true ∧ ∃ w, winner n rr x.req = some w ∧ k = w % 2 := by
  simp only [gntO, Bool.and_eq_true, beq_iff_eq]
  cases hw : winner n rr x.req with
  | none => simp
  | some w => simp [selIdx_some hn hw]

/-- A grant is right if and only if the cast has left the index as it was. -/
theorem grantOk_iff (hn : 2 ≤ n) (hr : rr < n) :
    GrantOk n rr x ↔ ∀ w, x.gnt = true → winner n rr x.req = some w → w < 2 := by
  constructor
  · intro h w hg hw
    obtain ⟨hlt, hq, -⟩ := (winner_eq_some hr).1 hw
    obtain ⟨k, -, -, -, hidx, hdata⟩ := h hg ⟨w, hlt, hq⟩
    have hk := hdata ℕ 0 id
    simp only [dataO, hw, id] at hk
    rw [idxO, selIdx_some hn hw] at hidx
    omega
  · rintro h hg ⟨k, hk, hq⟩
    obtain ⟨w, hw⟩ := exists_winner hr hk hq
    obtain ⟨hlt, hqw, -⟩ := (winner_eq_some hr).1 hw
    have hw₂ : w % 2 = w := Nat.mod_eq_of_lt (h w hg hw)
    refine ⟨w, hlt, fun j => ?_, hqw, by rw [idxO, selIdx_some hn hw, hw₂], fun α zero data => ?_⟩
    · simp [gntO_iff hn, hg, hw, hw₂]
    · simp only [dataO, hw]

/-- Without a grant the pointer moves only when it is flushed. -/
theorem run_succ_of_not_gnt (hg : (i t).gnt = false) :
    run n i (t + 1) = if (i t).flush then 0 else run n i t := by
  simp [run_succ, step, rrD, hg]

/-- The selection goes on if and only if nothing nearer to the pointer requests. -/
theorem selected_keeps (hn : 2 ≤ n) (hw : selected n i t = some w) (hg : (i t).gnt = false)
    (hq : (i (t + 1)).req w = true) : selected n i (t + 1) = some w ↔
      ∀ k < n, (i (t + 1)).req k = true →
        dist n (if (i t).flush then 0 else run n i t) w ≤
          dist n (if (i t).flush then 0 else run n i t) k := by
  have hlt := ((winner_eq_some (run_lt hn t)).1 hw).1
  rw [selected, winner_eq_some (run_lt hn (t + 1)), run_succ_of_not_gnt hg]
  exact ⟨fun h => h.2.2, fun h => ⟨hlt, hq, h⟩⟩

/-! ## Fairness -/

/-- Of two granted cycles one comes after the other. -/
theorem exists_second_grant (h : 2 ≤ grants i t m) :
    ∃ v < m, (i (t + v)).gnt = true ∧ 0 < grants i t v := by
  induction m with
  | zero => simp [grants] at h
  | succ m ih =>
    by_cases hg : (i (t + m)).gnt = true
    · refine ⟨m, by omega, hg, ?_⟩
      simp only [grants, Nat.count_succ, hg, if_true] at h
      simp only [grants]
      omega
    · obtain ⟨v, hv, hgv⟩ := ih (by simpa [grants, Nat.count_succ, hg] using h)
      exact ⟨v, by omega, hgv⟩

/-- Once another requester than 0 has been granted, the pointer does not stand at 1. -/
theorem run_ne_one (hn : 2 ≤ n) (hg : 0 < grants i t m)
    (h : ∀ v < m, (i (t + v)).gnt = true → selected n i (t + v) = some 1) :
    run n i (t + m) ≠ 1 := by
  induction m with
  | zero => simp [grants] at hg
  | succ m ih =>
    rw [← Nat.add_assoc, run_succ, step]
    split_ifs with hf
    · omega
    · by_cases hgm : (i (t + m)).gnt = true
      · rw [rrD_granted hn hgm (h m (by omega) hgm)]
        split_ifs <;> omega
      · have hr : rrD n (run n i (t + m)) (i (t + m)) = run n i (t + m) := by
          simp [rrD, hgm]
        rw [hr]
        exact ih (by simpa [grants, Nat.count_succ, hgm] using hg) fun v hv => h v (by omega)

theorem fair_zero (hn : 2 ≤ n) (hs : ∀ t w, (i t).gnt = true → selected n i t = some w → w < 2)
    (hw : Waits n i 0 t m) : ∃ v < m, gntO n (run n i (t + v)) (i (t + v)) 0 = true := by
  by_contra hc
  push Not at hc
  -- without a grant for 0 every granted cycle is one for 1
  have hone : ∀ v < m, (i (t + v)).gnt = true → selected n i (t + v) = some 1 := by
    intro v hv hg
    obtain ⟨w, hsel⟩ := exists_winner (run_lt hn (t + v)) (by omega) (hw.1 v hv)
    have hlt := hs _ _ hg hsel
    obtain rfl | rfl : w = 0 ∨ w = 1 := by omega
    · exact absurd ((gntO_iff hn).2 ⟨hg, 0, hsel, rfl⟩) (hc v hv)
    · exact hsel
  obtain ⟨v, hv, hg, hbefore⟩ := exists_second_grant (hn.trans hw.2)
  have hne := run_ne_one hn hbefore fun u hu => hone u (by omega)
  have hr := run_lt (i := i) hn (t + v)
  obtain ⟨-, -, hmin⟩ := (winner_eq_some hr).1 (hone v hv hg)
  have hd := hmin 0 (by omega) (hw.1 v hv)
  unfold dist at hd
  split_ifs at hd <;> omega

/-- Requester 1 is granted if the pointer stands there, or if 0 does not request. -/
theorem gntO_one (hn : 2 ≤ n) (hr : rr < n) (hg : x.gnt = true) (hq : x.req 1 = true)
    (hs : ∀ w, winner n rr x.req = some w → w < 2) :
    gntO n rr x 1 = true ↔ rr = 1 ∨ x.req 0 = false := by
  obtain ⟨w, hw⟩ := exists_winner hr (by omega) hq
  obtain ⟨-, hqw, hmin⟩ := (winner_eq_some hr).1 hw
  have hlt := hs w hw
  rw [gntO_iff hn]
  constructor
  · rintro ⟨-, w', hw', h₁⟩
    rw [hw, Option.some.injEq] at hw'
    subst hw'
    obtain rfl : w = 1 := by omega
    by_contra hc
    simp only [not_or, Bool.not_eq_false] at hc
    have hd := hmin 0 (by omega) hc.2
    unfold dist at hd
    split_ifs at hd <;> omega
  · intro h
    refine ⟨hg, w, hw, ?_⟩
    by_contra hne
    obtain rfl : w = 0 := by omega
    rcases h with h | h
    · have hd := hmin 1 (by omega) hq
      unfold dist at hd
      split_ifs at hd <;> omega
    · rw [h] at hqw
      cases hqw

/-- **When the arbiter fulfils its duties**, for every number of requesters and every run. -/
theorem arbOk_iff (hn : 2 ≤ n) (i : ℕ → ArbIn) : ArbOk n i ↔ RaisedOk n i := by
  constructor
  · intro h
    have hs : ∀ t w, (i t).gnt = true → selected n i t = some w → w < 2 := fun t w =>
      (grantOk_iff hn (run_lt hn t)).1 (h.grant t) w
    refine ⟨hs, fun t w hw hg hq => (selected_keeps hn hw hg hq).1 (h.lock t w hw hg hq),
      fun k hk hk₂ t m hw => ?_, fun t m hw => ?_⟩
    · obtain ⟨v, -, hv⟩ := h.fair k hk t m hw
      obtain ⟨-, w, -, hkw⟩ := (gntO_iff hn).1 hv
      omega
    · obtain ⟨v, hv, hgv⟩ := h.fair 1 (by omega) t m hw
      have hg := ((gntO_iff hn).1 hgv).1
      exact ⟨v, hv, hg, (gntO_one hn (run_lt hn _) hg (hw.1 v hv) fun w => hs _ w hg).1 hgv⟩
  · intro h
    refine ⟨fun t => (grantOk_iff hn (run_lt hn t)).2 (h.small t),
      fun t w hw hg hq => (selected_keeps hn hw hg hq).2 (h.nearer t w hw hg hq),
      fun k hk t m hw => ?_⟩
    obtain rfl | rfl | hk₂ : k = 0 ∨ k = 1 ∨ 2 ≤ k := by omega
    · exact fair_zero hn h.small hw
    · obtain ⟨v, hv, hg, hor⟩ := h.flushed t m hw
      exact ⟨v, hv, (gntO_one hn (run_lt hn _) hg (hw.1 v hv) fun w => h.small _ w hg).2 hor⟩
    · exact absurd hw (h.high k hk hk₂ t m)

/-- One request, of requester 2. -/
def third (_ : ℕ) : ArbIn := ⟨false, fun k => k == 2, true⟩

/-- Of three requesters the third is selected, and the first is granted. -/
theorem third_misgranted : ¬ ArbOk 3 third := by
  intro h
  have hs := (grantOk_iff (by decide) (by decide)).1 (h.grant 0)
  exact absurd (hs 2 (by decide) (by decide)) (by decide)

/-- Two requesters ask at once; the first grant comes a cycle later, the second one after it. -/
def shared : ℕ → ArbIn
  | 0 => ⟨false, fun _ => true, false⟩
  | 1 => ⟨false, fun _ => true, true⟩
  | 2 => ⟨false, fun k => k == 1, true⟩
  | _ => ⟨false, fun _ => false, true⟩

/-- The requests end with cycle 2. -/
theorem shared_req (h : (shared t).req k = true) : t ≤ 2 := by
  by_contra ht
  obtain ⟨v, rfl⟩ : ∃ v, t = v + 3 := ⟨t - 3, by omega⟩
  exact absurd h Bool.false_ne_true

theorem shared_selected (h : selected 2 shared t = some w) : t ≤ 2 :=
  shared_req ((winner_eq_some (run_lt (le_refl 2) t)).1 h).2.1

theorem shared_raisedOk : RaisedOk 2 shared where
  small t w _ hw := ((winner_eq_some (run_lt (le_refl 2) t)).1 hw).1
  nearer t w hw hg hq := by
    have ht := shared_selected hw
    have hw₂ := ((winner_eq_some (run_lt (le_refl 2) t)).1 hw).1
    interval_cases t
    · interval_cases w
      · decide
      · exact absurd hw (by decide)
    · exact absurd hg (by decide)
    · exact absurd hg (by decide)
  high k hk hk₂ := absurd hk (by omega)
  flushed t m hw := by
    have hm : 0 < m := by
      by_contra h0
      obtain rfl : m = 0 := by omega
      exact absurd hw.2 (by simp [grants])
    -- requester 1 asks until cycle 2, and two grants have come by then
    have hend : t + (m - 1) ≤ 2 := shared_req (hw.1 (m - 1) (by omega))
    have hlong : t + m = 3 := by
      have hgrants := hw.2
      have ht : t ≤ 2 := by omega
      have hm₃ : m ≤ 3 := by omega
      interval_cases t <;> interval_cases m <;> first | omega | exact absurd hgrants (by decide)
    refine ⟨2 - t, by omega, ?_⟩
    rw [show t + (2 - t) = 2 by omega]
    decide

/-- Requester 0 is granted in cycle 1 and requester 1 in cycle 2, after they have waited. -/
theorem arbOk_iff_shared : ArbOk 2 shared ∧ gntO 2 (run 2 shared 1) (shared 1) 0 = true ∧
    gntO 2 (run 2 shared 2) (shared 2) 1 = true :=
  ⟨(arbOk_iff (le_refl 2) shared).2 shared_raisedOk, by decide, by decide⟩

end Arb

end SentinelSoc
