/-!
# Random numbers

A generator is 64 bits of state; each number moves the state on and scrambles it.  Which numbers
come is not specified, only where they lie.

    (between low high g).1 lies in low … high
-/

namespace CommandShell

structure Generator where
  state : UInt64
  deriving DecidableEq

namespace Generator

def seed (n : Nat) : Generator := ⟨n.toUInt64⟩

/-- The next 64 bits. -/
def next (g : Generator) : UInt64 × Generator :=
  let state := g.state + 0x9E3779B97F4A7C15
  let z := (state ^^^ (state >>> 30)) * 0xBF58476D1CE4E5B9
  let z := (z ^^^ (z >>> 27)) * 0x94D049BB133111EB
  (z ^^^ (z >>> 31), ⟨state⟩)

/-- A number from `low` to `high`. -/
def between (low high : Int) (g : Generator) : Int × Generator :=
  let (word, g) := g.next
  (low + (word.toNat : Int) % (high - low + 1), g)

def flip (g : Generator) : Bool × Generator :=
  let (word, g) := g.next
  (word % 2 = 1, g)

/-! ## Lemmas -/

theorem between_mem {low high : Int} (h : low ≤ high) (g : Generator) :
    low ≤ (between low high g).1 ∧ (between low high g).1 ≤ high := by
  simp only [between]
  have h1 := Int.emod_nonneg ((g.next.1.toNat : Int)) (b := high - low + 1) (by omega)
  have h2 := Int.emod_lt_of_pos ((g.next.1.toNat : Int)) (b := high - low + 1) (by omega)
  omega

end Generator

end CommandShell
