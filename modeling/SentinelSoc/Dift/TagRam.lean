/-
  The shadow tag RAM beside the data SRAM.

  * `DataBus`: the data bus of the core, as the bridge to the tag RAM sees it;
  * `TagRam`: the tag RAM, with the index that a top takes from the word address;
  * `faithful_iff`: when a load gets the tag of the last store to its word.
-/
import SentinelSoc.Lib.Sync

namespace SentinelSoc

/-- The data bus in one cycle, with the tag sideband (`dift_obi_ctrl`). -/
structure DataBus where
  req : Bool
  gnt : Bool
  we : Bool
  be : BitVec 4
  addr : BitVec 32
  wdataTag : Bool
  diftEn : Bool
  deriving DecidableEq

/-- The port of the tag RAM. -/
structure TagReq where
  req : Bool
  we : Bool
  addr : BitVec 30
  wdata : Bool

/-- The word that a byte address is in. -/
def wordAddr (a : BitVec 32) : BitVec 30 := a.extractLsb' 2 30

/-- `dift_tag_sram_shim`, with the write tag gated by `dift_en_i`. -/
def DataBus.tagReq (x : DataBus) : TagReq where
  req := x.req
  we := x.we
  addr := wordAddr x.addr
  wdata := x.wdataTag && x.diftEn

/-- `is_data_sram` -/
def isDataSram (a : BitVec 32) : Bool := 0x20000#32 ≤ a && a < 0x20000#32 + 4096#32

/-- What the tops do differently: the slice of the word address that indexes the
    tag RAM, and whether a read outside the data SRAM is answered with 1. -/
structure TagTop where
  index : BitVec 30 → BitVec 10
  ranged : Bool

/-- `sentinel_soc_top`: `tag_addr[TAG_AW-1:0]` -/
def sentinelSocTop : TagTop := ⟨fun a => a.extractLsb' 0 10, true⟩

/-- `soc_top` has the same tag RAM. -/
def socTop : TagTop := sentinelSocTop

/-- `basic_soc_top`: `tag_addr[TAG_AW+1:2]` -/
def basicSocTop : TagTop := ⟨fun a => a.extractLsb' 2 10, false⟩

structure TagRam where
  mem : BitVec 10 → Bool
  rdAddrQ : BitVec 10
  isDataSramQ : Bool

namespace TagRam

variable {c : TagTop} {s : TagRam} {x : DataBus}

/-- The reset leaves the array as it is. -/
def reset (mem : BitVec 10 → Bool) : TagRam := ⟨mem, 0, false⟩

def step (c : TagTop) (s : TagRam) (x : DataBus) : TagRam where
  mem := if x.tagReq.req && x.tagReq.we then
      Function.update s.mem (c.index x.tagReq.addr) x.tagReq.wdata
    else s.mem
  rdAddrQ := if x.tagReq.req then c.index x.tagReq.addr else s.rdAddrQ
  isDataSramQ := if x.tagReq.req then isDataSram x.addr else s.isDataSramQ

/-- `tag_rdata` -/
def rdata (c : TagTop) (s : TagRam) : Bool :=
  if c.ranged then (if s.isDataSramQ then s.mem s.rdAddrQ else true) else s.mem s.rdAddrQ

end TagRam

/-! ## Loads and stores of a word -/

/-- The words of the data SRAM. -/
def DsramWord (w : BitVec 30) : Prop := w.extractLsb' 10 20 = 0x20#20

instance (w : BitVec 30) : Decidable (DsramWord w) := inferInstanceAs (Decidable (_ = _))

theorem isDataSram_iff (a : BitVec 32) : isDataSram a = true ↔ DsramWord (wordAddr a) := by
  simp only [isDataSram, DsramWord, wordAddr, Bool.and_eq_true, decide_eq_true_eq, BitVec.le_def,
    BitVec.lt_def, BitVec.toNat_eq, BitVec.extractLsb'_toNat, Nat.shiftRight_eq_div_pow,
    BitVec.toNat_add, BitVec.toNat_ofNat]
  have := a.isLt
  omega

namespace DataBus

variable (x : DataBus)

/-- The tag a granted store to `w` carries. -/
def storeTag (w : BitVec 30) : Option Bool :=
  if (x.req && x.gnt && x.we) = true ∧ wordAddr x.addr = w then some x.tagReq.wdata else none

/-- A granted load of `w`. -/
def Loads (w : BitVec 30) : Prop := (x.req && x.gnt && !x.we) = true ∧ wordAddr x.addr = w

/-- The tag that a store request, granted or not, puts into the entry of `w`. -/
def entryTag (c : TagTop) (w : BitVec 30) : Option Bool :=
  if (x.req && x.we) = true ∧ c.index (wordAddr x.addr) = c.index w then some x.tagReq.wdata
  else none

instance (w : BitVec 30) : Decidable (x.Loads w) := inferInstanceAs (Decidable (_ ∧ _))

variable {x}

theorem entryTag_of_storeTag {c : TagTop} {w : BitVec 30} {b : Bool} (h : x.storeTag w = some b) :
    x.entryTag c w = some b := by
  unfold storeTag at h
  split_ifs at h with hs
  obtain ⟨hs, rfl⟩ := hs
  simp only [Bool.and_eq_true] at hs
  rw [entryTag, if_pos ⟨by simp [hs.1.1, hs.2], rfl⟩, h]

end DataBus

namespace TagRam

variable {c : TagTop} {s : TagRam} {x : DataBus} {w : BitVec 30}

/-- What one cycle does to the entry of a word. -/
theorem step_mem : (s.step c x).mem (c.index w) = (x.entryTag c w).getD (s.mem (c.index w)) := by
  change (if (x.req && x.we) = true then
    Function.update s.mem (c.index (wordAddr x.addr)) x.tagReq.wdata else s.mem) (c.index w) = _
  unfold DataBus.entryTag
  by_cases hw : (x.req && x.we) = true
  · rw [if_pos hw]
    by_cases hi : c.index (wordAddr x.addr) = c.index w
    · rw [if_pos ⟨hw, hi⟩, hi, Function.update_self, Option.getD_some]
    · rw [if_neg fun h => hi h.2, Function.update_of_ne (Ne.symm hi), Option.getD_none]
  · rw [if_neg hw, if_neg fun h => hw h.1, Option.getD_none]

/-- The entry of a word holds the tag of the last store request that hit it. -/
theorem run_mem (i : ℕ → DataBus) (t : ℕ) :
    (Sync.run (step c) s i t).mem (c.index w) =
      (Sync.last (fun u => (i u).entryTag c w) t).getD (s.mem (c.index w)) :=
  Sync.run_loaded (fun s : TagRam => s.mem (c.index w)) (fun x : DataBus => x.entryTag c w)
    (fun _ _ => step_mem) t

/-- The tag beside the response to a load of a word of the data SRAM. -/
theorem rdata_of_loads (hw : DsramWord w) (h : x.Loads w) :
    (s.step c x).rdata c = s.mem (c.index w) := by
  obtain ⟨hx, ha⟩ := h
  simp only [Bool.and_eq_true, Bool.not_eq_true'] at hx
  have hd : isDataSram x.addr = true := (isDataSram_iff _).2 (ha ▸ hw)
  simp [rdata, step, DataBus.tagReq, hx.1.1, hx.2, hd, ha]

/-- What a load of a word of the data SRAM gets. -/
theorem run_rdata {i : ℕ → DataBus} {t : ℕ} (hw : DsramWord w) (h : (i t).Loads w) :
    (Sync.run (step c) s i (t + 1)).rdata c =
      (Sync.last (fun u => (i u).entryTag c w) t).getD (s.mem (c.index w)) := by
  rw [Sync.run_succ, rdata_of_loads hw h, run_mem]

/-- Each granted load of a word of the data SRAM gets, in the cycle of its response, the tag of
    the last granted store to the word. -/
def Faithful (c : TagTop) (s : TagRam) (i : ℕ → DataBus) : Prop :=
  ∀ t w b, DsramWord w → (i t).Loads w → Sync.last (fun u => (i u).storeTag w) t = some b →
    (Sync.run (step c) s i (t + 1)).rdata c = b

/-- **The tag RAM is faithful exactly where the last request that hit the entry of the word
    agrees with the last granted store to the word.** -/
theorem faithful_iff (c : TagTop) (s : TagRam) (i : ℕ → DataBus) :
    Faithful c s i ↔ ∀ t w b, DsramWord w → (i t).Loads w →
      Sync.last (fun u => (i u).storeTag w) t = some b →
        Sync.last (fun u => (i u).entryTag c w) t = some b := by
  refine forall_congr' fun t => forall_congr' fun w => forall_congr' fun b => ?_
  refine forall_congr' fun hw => forall_congr' fun hl => forall_congr' fun hb => ?_
  have hsome : (Sync.last (fun u => (i u).entryTag c w) t).isSome := by
    refine Sync.last_isSome (fun u hu => ?_) (Option.isSome_iff_exists.2 ⟨b, hb⟩)
    obtain ⟨b', hb'⟩ := Option.isSome_iff_exists.1 hu
    exact Option.isSome_iff_exists.2 ⟨b', DataBus.entryTag_of_storeTag hb'⟩
  obtain ⟨b', hb'⟩ := Option.isSome_iff_exists.1 hsome
  rw [run_rdata hw hl, hb', Option.getD_some, Option.some.injEq]

/-- One granted data access. -/
def access (we : Bool) (addr : BitVec 32) (wdataTag : Bool) : DataBus :=
  ⟨true, true, we, 0xF, addr, wdataTag, true⟩

/-- A tainted store to a word, a clean store elsewhere, and a load of the word. -/
def storeElsewhere (addr : BitVec 32) : ℕ → DataBus
  | 0 => access true 0x20000 true
  | 1 => access true addr false
  | _ => access false 0x20000 false

/-- A store to a peripheral whose address has the index bits of the word, and in
    `basic_soc_top` a store to the next word, clear the tag of the word. -/
theorem storeElsewhere_unfaithful :
    (∀ mem, ¬ Faithful sentinelSocTop (reset mem) (storeElsewhere 0x10000000)) ∧
    ∀ mem, ¬ Faithful basicSocTop (reset mem) (storeElsewhere 0x20004) := by
  constructor
  · intro mem h
    have h2 := h 2 0x8000 true (by decide) (by decide) (by decide)
    rw [run_rdata (w := 0x8000) (by decide) (by decide)] at h2
    exact absurd h2 Bool.false_ne_true
  · intro mem h
    have h2 := h 2 0x8000 true (by decide) (by decide) (by decide)
    rw [run_rdata (w := 0x8000) (by decide) (by decide)] at h2
    exact absurd h2 Bool.false_ne_true

end TagRam

end SentinelSoc
