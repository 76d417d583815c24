/-
  Taint of bytes against the tag of their word: one tag per word, stores of any
  width.

  * `MemSys`: the load/store unit with the tag RAM of `sentinel_soc_top` behind it;
  * `dataBe_bytes`: the requests of an access write its bytes and no others;
  * `word_tag`: the tag of a word is the tag of the last store to any of its bytes,
    and no taint is lost exactly where each clean store covers the tainted bytes.
-/
import SentinelSoc.Core.Lsu
import SentinelSoc.Dift.TagRam

namespace SentinelSoc

/-! ## Bytes of an access -/

/-- The number of bytes of an access. -/
def accessSize (lsuType : BitVec 2) : ℕ :=
  if lsuType = 0 then 4 else if lsuType = 1 then 2 else 1

/-- Byte `k` from the start of the first word is written, by the first request or, in the next
    word, by the second one of a split access. -/
def writesByte (lsuType offset : BitVec 2) (split : Bool) (k : ℕ) : Bool :=
  if k < 4 then (dataBe lsuType offset false).getLsbD k
  else split && (dataBe lsuType offset true).getLsbD (k - 4)

/-- The requests of an access write the bytes of the access. -/
theorem dataBe_bytes (x : LsuIn) (k : ℕ) (hk : k < 8) :
    writesByte x.lsuType x.dataOffset x.splitMisalignedAccess k = true ↔
      x.dataOffset.toNat ≤ k ∧ k < x.dataOffset.toNat + accessSize x.lsuType := by
  have h : ∀ (ty off : BitVec 2) (k : Fin 8),
      writesByte ty off (ty == 0 && off != 0 || ty == 1 && off == 3) k = true ↔
        off.toNat ≤ k.1 ∧ k.1 < off.toNat + accessSize ty := by decide
  exact h x.lsuType x.dataOffset ⟨k, hk⟩

/-! ## The load/store unit and the tag RAM -/

/-- The inputs of one cycle: those of the load/store unit, and the enable pin. -/
structure MemIn extends LsuIn where
  diftEn : Bool

structure MemSys where
  lsu : Lsu
  ram : TagRam

namespace MemSys

variable {s : MemSys} {i : ℕ → MemIn}

def reset (mem : BitVec 10 → Bool) : MemSys := ⟨.reset, .reset mem⟩

/-- The request that the load/store unit makes. -/
def dataBus (s : MemSys) (x : MemIn) : DataBus where
  req := s.lsu.dataReqO x.toLsuIn
  gnt := x.dataGnt
  we := x.lsuWe
  be := s.lsu.dataBeO x.toLsuIn
  addr := Lsu.dataAddrO x.toLsuIn
  wdataTag := x.lsuWdataTag
  diftEn := x.diftEn

def step (s : MemSys) (x : MemIn) : MemSys where
  lsu := s.lsu.step x.toLsuIn
  ram := s.ram.step sentinelSocTop (s.dataBus x)

end MemSys

namespace DataBus

variable (x : DataBus)

/-- The tag with which a granted store writes byte `k` of the word `w`. -/
def byteTag (w : BitVec 30) (k : Fin 4) : Option Bool :=
  if x.be.getLsbD k = true then x.storeTag w else none

/-- The tag of a store to `w` that is requested but not granted. -/
def stalledTag (w : BitVec 30) : Option Bool :=
  if (x.req && x.we && !x.gnt) = true ∧ wordAddr x.addr = w then some x.tagReq.wdata else none

end DataBus

section Bus

variable (i : ℕ → DataBus)

/-- The last store that wrote byte `k` of `w` before cycle `t` carried the tag 1. -/
def ByteTainted (t : ℕ) (w : BitVec 30) (k : Fin 4) : Prop :=
  Sync.last (fun u => (i u).byteTag w k) t = some true

/-- All stores go to the data SRAM, and a store that is not granted stays. -/
structure DsramStores : Prop where
  inRange : ∀ t, (i t).req = true → (i t).we = true → isDataSram (i t).addr = true
  held : ∀ t w b, (i t).stalledTag w = some b →
    (i (t + 1)).stalledTag w = some b ∨ (i (t + 1)).storeTag w = some b

/-- No store waits for its grant at the start of cycle `t`. -/
def Settled (t : ℕ) : Prop := ∀ u, t = u + 1 → ∀ w, (i u).stalledTag w = none

/-- Each clean store to a word writes every tainted byte of it. -/
def CleanCovers : Prop :=
  ∀ t w, DsramWord w → (i t).storeTag w = some false →
    ∀ k : Fin 4, ByteTainted i t w k → (i t).be.getLsbD k = true

end Bus

namespace MemSys

/-- The bus of a run. -/
def bus (s : MemSys) (i : ℕ → MemIn) (t : ℕ) : DataBus := (Sync.run step s i t).dataBus (i t)

/-- The shadow tag of `w` in cycle `t`. -/
def wordTag (s : MemSys) (i : ℕ → MemIn) (t : ℕ) (w : BitVec 30) : Bool :=
  (Sync.run step s i t).ram.mem (sentinelSocTop.index w)

/-- A word with a tainted byte has the tag 1. -/
def TaintKept (s : MemSys) (i : ℕ → MemIn) : Prop :=
  ∀ t, Settled (bus s i) t → ∀ w, DsramWord w → ∀ k, ByteTainted (bus s i) t w k →
    wordTag s i t w = true

end MemSys

/-! ## The tag of a word -/

theorem sentinelSocTop_index_inj {v w : BitVec 30} (hv : DsramWord v) (hw : DsramWord w)
    (h : sentinelSocTop.index v = sentinelSocTop.index w) : v = w := by
  unfold DsramWord at hv hw
  have h' : v.extractLsb' 0 10 = w.extractLsb' 0 10 := h
  rw [BitVec.toNat_eq] at h' hv hw ⊢
  simp only [BitVec.extractLsb'_toNat, Nat.shiftRight_eq_div_pow] at h' hv hw
  omega

section Bus

variable {i : ℕ → DataBus} {w : BitVec 30} {t : ℕ}

/-- A store to the data SRAM is granted or stalled, and hits the entry of its own word only. -/
theorem DsramStores.entryTag (h : DsramStores i) (hw : DsramWord w) (t : ℕ) :
    (i t).entryTag sentinelSocTop w = ((i t).stalledTag w).or ((i t).storeTag w) := by
  unfold DataBus.entryTag DataBus.stalledTag DataBus.storeTag
  by_cases hq : (i t).req = true ∧ (i t).we = true
  · have hi : sentinelSocTop.index (wordAddr (i t).addr) = sentinelSocTop.index w ↔
        wordAddr (i t).addr = w := by
      refine ⟨fun hi => ?_, fun ha => by rw [ha]⟩
      exact sentinelSocTop_index_inj ((isDataSram_iff _).1 (h.inRange t hq.1 hq.2)) hw hi
    by_cases ha : wordAddr (i t).addr = w
    · cases hg : (i t).gnt <;> simp [ha, hq.1, hq.2]
    · simp [hi, ha]
  · have hq' : ((i t).req && (i t).we) = false := by simpa using hq
    have hg : ((i t).req && (i t).gnt && (i t).we) = false := by
      rw [Bool.and_right_comm, hq', Bool.false_and]
    simp [hq', hg]

/-- What a stalled store is about to write at the start of cycle `t`. -/
def pendingTag (i : ℕ → DataBus) (w : BitVec 30) : ℕ → Option Bool
  | 0 => none
  | t + 1 => (i t).stalledTag w

theorem Settled.pendingTag (h : Settled i t) : SentinelSoc.pendingTag i w t = none := by
  cases t with
  | zero => rfl
  | succ t => exact h t rfl w

/-- The entry of a word is ahead of the granted stores by the stalled one at most. -/
theorem DsramStores.last_entryTag (h : DsramStores i) (hw : DsramWord w) (t : ℕ) :
    Sync.last (fun u => (i u).entryTag sentinelSocTop w) t =
      (pendingTag i w t).or (Sync.last (fun u => (i u).storeTag w) t) := by
  induction t with
  | zero => rfl
  | succ t ih =>
    rw [Sync.last_succ, Sync.last_succ, h.entryTag hw, ih, pendingTag, Option.or_assoc]
    -- a store that was already waiting is the one that waits or is granted now
    cases hp : pendingTag i w t with
    | none => rw [Option.none_or]
    | some b =>
      cases t with
      | zero => exact absurd hp (by simp [pendingTag])
      | succ t =>
        rcases h.held t w b hp with hs | hs
        · rw [hs, Option.some_or, Option.some_or]
        · rw [hs, Option.some_or, Option.some_or]

/-- **The entry of a word has the tag of the last granted store to it**, whichever of its bytes
    that store wrote. -/
theorem DsramStores.mem_eq {s : TagRam} (h : DsramStores i) (hw : DsramWord w) (ht : Settled i t) :
    (Sync.run (TagRam.step sentinelSocTop) s i t).mem (sentinelSocTop.index w) =
      (Sync.last (fun u => (i u).storeTag w) t).getD (s.mem (sentinelSocTop.index w)) := by
  rw [TagRam.run_mem, h.last_entryTag hw, ht.pendingTag, Option.none_or]

/-! ## Taint of bytes -/

theorem byteTainted_succ {k : Fin 4} : ByteTainted i (t + 1) w k ↔
    (i t).byteTag w k = some true ∨ (i t).byteTag w k = none ∧ ByteTainted i t w k := by
  rw [ByteTainted, ByteTainted, Sync.last_succ]
  cases (i t).byteTag w k <;> simp

/-- Where clean stores cover the tainted bytes, a tainted byte keeps the last store tainted. -/
theorem CleanCovers.last_storeTag (hc : CleanCovers i) (hw : DsramWord w) {k : Fin 4} (t : ℕ)
    (h : ByteTainted i t w k) : Sync.last (fun u => (i u).storeTag w) t = some true := by
  induction t with
  | zero => exact absurd h (by simp [ByteTainted])
  | succ t ih =>
    rw [Sync.last_succ]
    cases hs : (i t).storeTag w with
    | none =>
      rcases byteTainted_succ.1 h with hb | ⟨-, hb⟩
      · simp [DataBus.byteTag, hs] at hb
      · exact ih hb
    | some b =>
      cases b with
      | true => rfl
      | false =>
        rcases byteTainted_succ.1 h with hb | ⟨hn, hb⟩
        · unfold DataBus.byteTag at hb
          split_ifs at hb
          exact absurd (hs.symm.trans hb) (by simp)
        · rw [DataBus.byteTag, if_pos (hc t w hw hs k hb)] at hn
          exact absurd (hs.symm.trans hn) (by simp)

/-- After a granted store nothing waits. -/
theorem settled_of_storeTag {b : Bool} (h : (i t).storeTag w = some b) : Settled i (t + 1) := by
  intro u hu v
  obtain rfl : u = t := by omega
  have hg : (i u).gnt = true := by
    unfold DataBus.storeTag at h
    split_ifs at h with hc
    simp only [Bool.and_eq_true] at hc
    exact hc.1.1.2
  simp [DataBus.stalledTag, hg]

end Bus

/-! ## Runs -/

namespace MemSys

variable {s : MemSys} {i : ℕ → MemIn}

theorem wordTag_eq (t : ℕ) (w : BitVec 30) : wordTag s i t w =
    (Sync.run (TagRam.step sentinelSocTop) s.ram (bus s i) t).mem (sentinelSocTop.index w) := by
  have hstep : ∀ (s : MemSys) (x : MemIn),
      (s.step x).ram = TagRam.step sentinelSocTop s.ram (s.dataBus x) := fun _ _ => rfl
  rw [wordTag, Sync.run_map (fun s : MemSys => s.ram) _ hstep t]
  rfl

/-- **The tag of a word is the tag of the last store to it, and taint is kept exactly where clean
    stores cover the tainted bytes**: in every run from reset whose stores go to the data SRAM. -/
theorem word_tag (mem : BitVec 10 → Bool) (i : ℕ → MemIn) (h : DsramStores (bus (reset mem) i)) :
    (∀ t, Settled (bus (reset mem) i) t → ∀ w, DsramWord w → ∀ b,
      Sync.last (fun u => (bus (reset mem) i u).storeTag w) t = some b →
        wordTag (reset mem) i t w = b) ∧
    (TaintKept (reset mem) i ↔ CleanCovers (bus (reset mem) i)) := by
  have htag : ∀ t, Settled (bus (reset mem) i) t → ∀ w, DsramWord w → ∀ b,
      Sync.last (fun u => (bus (reset mem) i u).storeTag w) t = some b →
        wordTag (reset mem) i t w = b := by
    intro t ht w hw b hb
    rw [wordTag_eq, h.mem_eq hw ht, hb, Option.getD_some]
  refine ⟨htag, fun hk t w hw hs k hb => ?_, fun hc t ht w hw k hb => ?_⟩
  · by_contra hn
    have hset := settled_of_storeTag hs
    have hb' : ByteTainted (bus (reset mem) i) (t + 1) w k :=
      byteTainted_succ.2 (.inr ⟨if_neg hn, hb⟩)
    have h0 := htag (t + 1) hset w hw false (by rw [Sync.last_succ, hs, Option.some_or])
    exact absurd (h0.symm.trans (hk (t + 1) hset w hw k hb')) Bool.false_ne_true
  · exact htag t ht w hw true (hc.last_storeTag hw t hb)

/-- A store of type `lsuType` (0: word, 2: byte) to the start of the data SRAM, granted at once. -/
def storeStart (lsuType : BitVec 2) (tag : Bool) : MemIn :=
  ⟨⟨true, true, lsuType, 0x20000, tag, false, true, false, false, false, false⟩, true⟩

/-- A cycle with no request, in which a store may be answered. -/
def answerStart (rvalid : Bool) : MemIn :=
  { storeStart 0 false with lsuReq := false, dataRvalid := rvalid }

/-- A tainted `sw` and its answer, then a clean `sb` to the same word and its answer. -/
def cleanByteStore : ℕ → MemIn
  | 0 => storeStart 0 true
  | 1 => answerStart true
  | 2 => storeStart 2 false
  | 3 => answerStart true
  | _ => answerStart false

theorem cleanByteStore_dsram : DsramStores (bus (reset fun _ => false) cleanByteStore) := by
  have hg : ∀ t, (bus (reset fun _ => false) cleanByteStore t).gnt = true := by
    intro t
    change (cleanByteStore t).dataGnt = true
    unfold cleanByteStore
    split <;> rfl
  have ha : ∀ t, (cleanByteStore t).adderResult = 0x20000 := by
    intro t
    unfold cleanByteStore
    split <;> rfl
  refine ⟨fun t _ _ => ?_, fun t w b hb => ?_⟩
  · change isDataSram (Lsu.dataAddrO (cleanByteStore t).toLsuIn) = true
    rw [Lsu.dataAddrO, ha]
    decide
  · simp [DataBus.stalledTag, hg t] at hb

theorem cleanByteStore_settled : Settled (bus (reset fun _ => false) cleanByteStore) 4 := by
  intro u hu v
  obtain rfl : u = 3 := by omega
  simp [DataBus.stalledTag, bus, dataBus, cleanByteStore, answerStart, storeStart]

/-- The clean byte takes the taint of the other three bytes. -/
theorem cleanByteStore_lost : DsramStores (bus (reset fun _ => false) cleanByteStore) ∧
    ¬ TaintKept (reset fun _ => false) cleanByteStore := by
  refine ⟨cleanByteStore_dsram, fun hk => ?_⟩
  have h := hk 4 cleanByteStore_settled 0x8000 (by decide) 1 (by unfold ByteTainted; decide +kernel)
  exact absurd h (by decide +kernel)

theorem word_tag_cleanByteStore : wordTag (reset fun _ => false) cleanByteStore 4 0x8000 = false :=
  (word_tag (fun _ => false) cleanByteStore cleanByteStore_dsram).1 4 cleanByteStore_settled 0x8000
    (by decide) false (by decide +kernel)

end MemSys

end SentinelSoc
