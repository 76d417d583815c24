/-
  Frames of functions: what the decoder gives for `cm.push` and for the `cm.popret` that takes
  its frame down.

  * `gives_encode`: the word of a compressed instruction, and its expansion;
  * `push_popret`: the caller's registers are back, and the function returns.
-/
import SentinelSoc.Fetch.CompressedRuns
import SentinelSoc.Lib.RvcFrames

open Rv32

namespace SentinelSoc

namespace CompressedDecoder

variable {w w' : BitVec 32} {s s' : CompressedDecoder} {l : BitVec 4} {m : BitVec 2}

theorem gives_encode {c : Rvc} (hs : s.stateQ = .idle) (hc : c.Encodable)
    (hw : w.extractLsb 15 0 = c.encode) : Gives w s (c.expand.map Instr.encode) := by
  have hd := Rvc.decode_encode hc
  rw [← hw] at hd
  have h3 : w.extractLsb 1 0 ≠ 3 := by
    intro h3
    simp (disch := omega) [Rvc.decode, extractLsb_low, h3] at hd
  have hg := gives_instrs hs (w := w) (.inr (by rw [hd]; rfl))
  rw [instrs, if_neg h3, hd] at hg
  exact hg

/-- **Frames.** The instructions that are given for `cm.push` run from any state and lower the
    stack pointer by the size of the frame. If then a function keeps its frame and its stack
    pointer, those that are given for `cm.popret` with the same operands run too: the stack
    pointer and the saved registers are the caller's again, the other registers are the
    function's, and the core is back at the return address. -/
theorem push_popret (hs : s.stateQ = .idle) (hs' : s'.stateQ = .idle) (hl : 4 ≤ l)
    (hw : w.extractLsb 15 0 = (Rvc.push l m).encode)
    (hw' : w'.extractLsb 15 0 = (Rvc.popret l m).encode) :
    ∃ ops ops' : List Instr, Gives w s (ops.map Instr.encode) ∧
      Gives w' s' (ops'.map Instr.encode) ∧
      ∀ m₀ : Machine, ∃ m₁, run ops m₀ = some m₁ ∧
        m₁.get 2 = m₀.get 2 - BitVec.ofNat 32 (Rvc.stackAdj l m) ∧
        ∀ m₂, Rvc.KeepsFrame l (m₀.get 2) m₁ m₂ →
          ∃ m₃, run ops' m₂ = some m₃ ∧ Rvc.Restored l m₀ m₂ m₃ ∧ m₃.pc = m₀.get 1 &&& ~~~1 := by
  refine ⟨_, _, gives_encode (c := .push l m) hs hl hw,
    gives_encode (c := .popret l m) hs' hl hw', ?_⟩
  intro m₀
  have h₁ : run (Rvc.pushOps l m) m₀ = _ := Rvc.run_pushOps hl m₀
  refine ⟨_, h₁, Machine.get_set (by decide), ?_⟩
  intro m₂ h₂
  obtain ⟨m₃, h₃, hr⟩ := Rvc.frame_restored hl h₁ h₂
  have hra : ∀ l : BitVec 4, 4 ≤ l → (1 : Reg) ∈ Rvc.xregList l := by decide
  have h1 := hr.saved 1 (hra l hl)
  refine ⟨{ m₃ with pc := m₀.get 1 &&& ~~~1 }, ?_, ⟨hr.stack, hr.saved, hr.others⟩, rfl⟩
  rw [Rvc.expand, run_append, h₃, Option.bind_some, run, Instr.exec, if_pos rfl, h1]
  simp [run]

/-- `{ra, s0-s11}`, 80 bytes -/
theorem push_popret_s11 : ∃ ops ops' : List Instr,
    Gives 0xb8f6 ⟨0, 0, .idle⟩ (ops.map Instr.encode) ∧
      Gives 0xbef6 ⟨0, 0, .idle⟩ (ops'.map Instr.encode) ∧
      ∀ m₀ : Machine, ∃ m₁, run ops m₀ = some m₁ ∧
        m₁.get 2 = m₀.get 2 - BitVec.ofNat 32 (Rvc.stackAdj 15 1) ∧
        ∀ m₂, Rvc.KeepsFrame 15 (m₀.get 2) m₁ m₂ →
          ∃ m₃, run ops' m₂ = some m₃ ∧ Rvc.Restored 15 m₀ m₂ m₃ ∧ m₃.pc = m₀.get 1 &&& ~~~1 :=
  push_popret (l := 15) (m := 1) rfl rfl (by decide) (by decide) (by decide)

end CompressedDecoder

end SentinelSoc
