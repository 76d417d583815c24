/-
  `p = 2^255 - 19` is prime: Lucas's test down the factors of `p - 1`.
-/
import SentinelSoc.Lib.Lucas
import SentinelSoc.Ed.Alu

namespace SentinelSoc

/-- `p`, the factors of `p - 1`, their predecessors' factors, and so on. -/
def primesOfP : List Lucas.Entry :=
  [⟨p, 2,
      [2, 2, 3, 65147, 74058212732561358302231226437062788676166966415465897661863160754340907]⟩,
    ⟨74058212732561358302231226437062788676166966415465897661863160754340907, 2,
      [2, 3, 353, 57467, 132049, 1923133, 31757755568855353, 75445702479781427272750846543864801]⟩,
    ⟨75445702479781427272750846543864801, 7,
      [2, 2, 2, 2, 2, 3, 3, 5, 5, 75707, 72106336199, 1919519569386763]⟩,
    ⟨31757755568855353, 10, [2, 2, 2, 3, 31, 107, 223, 4153, 430751]⟩,
    ⟨1919519569386763, 2, [2, 3, 7, 19, 47, 47, 127, 8574133]⟩,
    ⟨72106336199, 7, [2, 13, 2773320623]⟩, ⟨2773320623, 5, [2, 2437, 569003]⟩,
    ⟨8574133, 2, [2, 2, 3, 7, 103, 991]⟩, ⟨1923133, 2, [2, 2, 3, 43, 3727]⟩,
    ⟨569003, 2, [2, 7, 97, 419]⟩, ⟨430751, 17, [2, 5, 5, 5, 1723]⟩,
    ⟨132049, 26, [2, 2, 2, 2, 3, 3, 7, 131]⟩, ⟨75707, 2, [2, 37853]⟩, ⟨65147, 2, [2, 32573]⟩,
    ⟨57467, 2, [2, 59, 487]⟩, ⟨37853, 2, [2, 2, 9463]⟩, ⟨32573, 2, [2, 2, 17, 479]⟩,
    ⟨9463, 3, [2, 3, 19, 83]⟩, ⟨4153, 5, [2, 2, 2, 3, 173]⟩, ⟨3727, 3, [2, 3, 3, 3, 3, 23]⟩,
    ⟨2437, 2, [2, 2, 3, 7, 29]⟩, ⟨1723, 3, [2, 3, 7, 41]⟩, ⟨991, 6, [2, 3, 3, 5, 11]⟩,
    ⟨487, 3, [2, 3, 3, 3, 3, 3]⟩, ⟨479, 13, [2, 239]⟩, ⟨419, 2, [2, 11, 19]⟩,
    ⟨353, 3, [2, 2, 2, 2, 2, 11]⟩, ⟨239, 7, [2, 7, 17]⟩, ⟨223, 3, [2, 3, 37]⟩,
    ⟨173, 2, [2, 2, 43]⟩, ⟨131, 2, [2, 5, 13]⟩, ⟨127, 3, [2, 3, 3, 7]⟩, ⟨107, 2, [2, 53]⟩,
    ⟨103, 5, [2, 3, 17]⟩, ⟨97, 5, [2, 2, 2, 2, 2, 3]⟩, ⟨83, 2, [2, 41]⟩, ⟨59, 2, [2, 29]⟩,
    ⟨53, 2, [2, 2, 13]⟩, ⟨47, 5, [2, 23]⟩, ⟨43, 3, [2, 3, 7]⟩, ⟨41, 6, [2, 2, 2, 5]⟩,
    ⟨37, 2, [2, 2, 3, 3]⟩, ⟨31, 3, [2, 3, 5]⟩, ⟨29, 2, [2, 2, 7]⟩, ⟨23, 5, [2, 11]⟩,
    ⟨19, 2, [2, 3, 3]⟩, ⟨17, 3, [2, 2, 2, 2]⟩, ⟨13, 2, [2, 2, 3]⟩, ⟨11, 2, [2, 5]⟩,
    ⟨7, 3, [2, 3]⟩, ⟨5, 2, [2, 2]⟩, ⟨3, 2, [2]⟩, ⟨2, 1, []⟩]

theorem valid_primesOfP : Lucas.valid primesOfP = true := by decide +kernel

/-- The field prime. -/
theorem prime_p : p.Prime := Lucas.prime_of_valid valid_primesOfP _ (List.mem_cons_self ..)

instance : Fact p.Prime := ⟨prime_p⟩

end SentinelSoc
