import Mathlib.Data.List.Basic
import Mathlib.Data.Nat.Digits.Defs
/-! Whole numbers written in decimal, as bytes. -/
namespace Gofly.Decimal

def digits : Int → List Char
  | .ofNat n => Nat.toDigits 10 n
  | .negSucc n => '-' :: Nat.toDigits 10 (n + 1)

theorem digitsPlain (member : c ∈ digits n) : c = '-' ∨ c.isDigit = true := by
  cases n with
  | ofNat => exact .inr (Nat.isDigit_of_mem_toDigits (by decide) (by decide) member)
  | negSucc =>
    rcases List.mem_cons.mp member with rfl | member
    · exact .inl rfl
    exact .inr (Nat.isDigit_of_mem_toDigits (by decide) (by decide) member)

theorem naturalsDistinct (eq : Nat.toDigits 10 m = Nat.toDigits 10 n) : m = n := by
  have back := congrArg (Nat.ofDigitChars 10 · 0) eq
  simpa only [Nat.ofDigitChars_toDigits (by decide : 1 < 10) (by decide : 10 ≤ 10)] using back

theorem signApart : Nat.toDigits 10 m ≠ '-' :: Nat.toDigits 10 n := by
  intro eq
  have mem : '-' ∈ Nat.toDigits 10 m := by simp [eq]
  exact absurd (Nat.isDigit_of_mem_toDigits (by decide) (by decide) mem) (by decide)

theorem digitsDistinct (eq : digits m = digits n) : m = n := by
  cases m with
  | ofNat =>
    cases n with
    | ofNat => exact congrArg Int.ofNat (naturalsDistinct eq)
    | negSucc => exact absurd eq signApart
  | negSucc =>
    cases n with
    | ofNat => exact absurd eq.symm signApart
    | negSucc => exact congrArg Int.negSucc (Nat.succ.inj (naturalsDistinct (List.cons.inj eq).2))

def itoa (n : Int) : List UInt8 := (digits n).map fun c => UInt8.ofNat c.toNat

theorem asciiDigit (mem : c ∈ digits n) : 45 ≤ c.toNat ∧ c.toNat < 58 := by
  rcases digitsPlain mem with rfl | digit
  · decide
  simp only [Char.isDigit,Bool.and_eq_true,decide_eq_true_eq] at digit
  have low : 48 ≤ c.toNat := digit.1
  have high : c.toNat ≤ 57 := digit.2
  omega

theorem byteOf (mem : c ∈ digits n) : (UInt8.ofNat c.toNat).toNat = c.toNat := by
  have bounds := asciiDigit mem
  exact UInt8.toNat_ofNat_of_lt' (by simp only [UInt8.size]; omega)

theorem itoaPlain (mem : b ∈ itoa n) : 45 ≤ b.toNat := by
  obtain ⟨c,inside,rfl⟩ := List.mem_map.mp mem
  rw [byteOf inside]
  exact (asciiDigit inside).1

theorem itoaBack (n) : (itoa n).map (fun b => Char.ofNat b.toNat) = digits n := by
  rw [itoa,List.map_map]
  refine (List.map_congr_left fun c mem => ?_).trans (List.map_id _)
  simp only [Function.comp,byteOf mem,Char.ofNat_toNat,id]

theorem itoaDistinct (eq : itoa m = itoa n) : m = n := by
  refine digitsDistinct ?_
  rw [← itoaBack m,← itoaBack n,eq]

end Gofly.Decimal
