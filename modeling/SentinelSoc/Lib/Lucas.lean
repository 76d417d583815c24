/-
  Lucas's test as a computation.

  * `powMod`: powers modulo `n`, bit by bit;
  * `Entry`: a number, a witness and the factors of its predecessor (`Entry.prime`);
  * `valid`: a table in which every factor has an entry of its own further down
    (`prime_of_valid`).
-/
import Mathlib.Tactic
import Mathlib.NumberTheory.LucasPrimality
import SentinelSoc.Lib.Ladder

namespace Lucas

variable (n a : ℕ)

/-- `a ^ e` modulo `n`. -/
def powMod (e : ℕ) : ℕ :=
  Ladder.bits (fun b => b * b % n) (fun b => b * a % n) e (e.log2 + 1) (1 % n)

theorem powMod_eq (e : ℕ) : powMod n a e = a ^ e % n := by
  have hp : Ladder.Powers (fun b => b * b % n) (fun b => b * a % n) fun k => a ^ k % n := by
    refine ⟨fun k => ?_, fun k => ?_⟩
    · rw [← Nat.mul_mod, ← pow_add, two_mul]
    · rw [Nat.mod_mul_mod, ← pow_succ]
  have hzero : e / 2 ^ (e.log2 + 1) = 0 := Nat.div_eq_of_lt Nat.lt_log2_self
  have h := Ladder.bits_power hp e (e.log2 + 1)
  rw [hzero, pow_zero] at h
  exact h

theorem cast_powMod (e : ℕ) : (powMod n a e : ZMod n) = (a : ZMod n) ^ e := by
  rw [powMod_eq, ZMod.natCast_mod, Nat.cast_pow]

/-- `a` is to have order `n - 1`, and `qs` to be the prime factors of `n - 1`. -/
structure Entry where
  n : ℕ
  a : ℕ
  qs : List ℕ

/-- The test, where the factors are primes. -/
def Entry.passes (e : Entry) : Bool :=
  e.qs.prod + 1 == e.n && powMod e.n e.a (e.n - 1) == 1 % e.n &&
    e.qs.all fun q => powMod e.n e.a ((e.n - 1) / q) != 1 % e.n

theorem Entry.prime {e : Entry} (h : e.passes = true) (hqs : ∀ q ∈ e.qs, q.Prime) :
    e.n.Prime := by
  simp only [passes, Bool.and_eq_true, beq_iff_eq, List.all_eq_true, bne_iff_ne] at h
  obtain ⟨⟨hn, hone⟩, hne⟩ := h
  refine lucas_primality e.n e.a ?_ ?_
  · rw [← cast_powMod, hone, ZMod.natCast_mod, Nat.cast_one]
  · intro q hq hd hpow
    have hprod : e.n - 1 = e.qs.prod := by omega
    rw [hprod, hq.prime.dvd_prod_iff] at hd
    obtain ⟨q', hmem, hdvd⟩ := hd
    obtain rfl := (Nat.prime_dvd_prime_iff_eq hq (hqs q' hmem)).1 hdvd
    have hcast : ((powMod e.n e.a ((e.n - 1) / q) : ℕ) : ZMod e.n) = (1 : ℕ) := by
      rw [cast_powMod, hpow, Nat.cast_one]
    rw [ZMod.natCast_eq_natCast_iff, Nat.ModEq, powMod_eq, Nat.mod_mod] at hcast
    exact hne q hmem ((powMod_eq e.n e.a _).trans hcast)

/-- Every entry passes, and its factors are below it. -/
def valid : List Entry → Bool
  | [] => true
  | e :: es => e.passes && e.qs.all (fun q => es.any fun e' => e'.n == q) && valid es

/-- **The numbers of a valid table are primes.** -/
theorem prime_of_valid {es : List Entry} (h : valid es = true) : ∀ e ∈ es, e.n.Prime := by
  induction es with
  | nil => exact fun _ hmem => absurd hmem List.not_mem_nil
  | cons e es ih =>
    simp only [valid, Bool.and_eq_true, List.all_eq_true, List.any_eq_true, beq_iff_eq] at h
    obtain ⟨⟨hpass, hbelow⟩, hes⟩ := h
    intro e' hmem
    rcases List.mem_cons.1 hmem with rfl | hmem
    · refine Entry.prime hpass fun q hq => ?_
      obtain ⟨e₁, hmem₁, rfl⟩ := hbelow q hq
      exact ih hes e₁ hmem₁
    · exact ih hes e' hmem

end Lucas
