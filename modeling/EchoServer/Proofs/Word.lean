import Mathlib.Algebra.Group.Int.Defs

namespace EchoServer.Word

/-- A number as a signed word of so many bits; `none` if it does not fit. -/
def signed? (bits : Nat) (n : Int) : Option Int :=
  if -2 ^ (bits - 1) ≤ n ∧ n < 2 ^ (bits - 1) then some n else none

/-- A number as an unsigned word of so many bits; `none` if it does not fit. -/
def unsigned? (bits : Nat) (n : Int) : Option Int :=
  if 0 ≤ n ∧ n < 2 ^ bits then some n else none

/-- The word of 64 bits that counts `n`; `none` if none of them does. -/
def ofNat? (n : Nat) : Option UInt64 := if n < UInt64.size then some (UInt64.ofNat n) else none

/-- The sum of two words, or the greatest word if the sum does not fit one. -/
def addUpTo (m n : UInt64) : UInt64 := (ofNat? (m.toNat + n.toNat)).getD 18446744073709551615

theorem signed?_of_fits {bits : Nat} {n : Int} (hlow : -2 ^ (bits - 1) ≤ n)
    (hhigh : n < 2 ^ (bits - 1)) : signed? bits n = some n := if_pos ⟨hlow, hhigh⟩

theorem unsigned?_of_fits {bits : Nat} {n : Int} (hlow : 0 ≤ n) (hhigh : n < 2 ^ bits) :
    unsigned? bits n = some n := if_pos ⟨hlow, hhigh⟩

theorem ofNat?_eq_some_iff (n : Nat) (w : UInt64) : ofNat? n = some w ↔ n = w.toNat := by
  rw [ofNat?]
  constructor
  · intro h
    split at h
    · rename_i hfits
      rw [← Option.some.inj h]
      exact (UInt64.toNat_ofNat_of_lt' hfits).symm
    · cases h
  · intro h
    rw [h, if_pos w.toNat_lt, UInt64.ofNat_toNat]

theorem ofNat?_eq_none_iff (n : Nat) : ofNat? n = none ↔ 18446744073709551615 < n := by
  rw [ofNat?]
  split
  · rename_i hfits
    have hlt : n < 18446744073709551616 := hfits
    simp only [reduceCtorEq, false_iff]
    omega
  · rename_i hlarge
    have hge : ¬ n < 18446744073709551616 := hlarge
    simp only [true_iff]
    omega

theorem toNat_addUpTo (m n : UInt64) :
    (addUpTo m n).toNat = min (m.toNat + n.toNat) 18446744073709551615 := by
  rw [addUpTo]
  cases hsum : ofNat? (m.toNat + n.toNat) with
  | some w =>
    have hw := (ofNat?_eq_some_iff _ w).mp hsum
    have hlt : w.toNat < 18446744073709551616 := w.toNat_lt
    rw [Option.getD_some, hw]
    omega
  | none =>
    have hlarge := (ofNat?_eq_none_iff _).mp hsum
    have hmax : (18446744073709551615 : UInt64).toNat = 18446744073709551615 := by decide
    rw [Option.getD_none, hmax]
    omega

end EchoServer.Word
