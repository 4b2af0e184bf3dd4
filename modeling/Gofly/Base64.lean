import Gofly.ByteReader
/-! Base64 with the URL alphabet and without padding. The reader passes over line ends and leftover
bits. What was written is read back, and is written without dots. -/
namespace Gofly.Base64
open ByteReader
open UInt8 (ofNat)

def digit (n : Nat) : UInt8 :=
  if n < 26 then ofNat (65 + n)
  else if n < 52 then ofNat (97 + (n - 26))
  else if n < 62 then ofNat (48 + (n - 52))
  else if n = 62 then 45
  else 95

def value (c : UInt8) : Option Nat :=
  if 65 ≤ c ∧ c ≤ 90 then some (c.toNat - 65)
  else if 97 ≤ c ∧ c ≤ 122 then some (c.toNat - 97 + 26)
  else if 48 ≤ c ∧ c ≤ 57 then some (c.toNat - 48 + 52)
  else if c = 45 then some 62
  else if c = 95 then some 63
  else none

def toDigits : Bytes → List Nat
  | [] => []
  | [a] => [a.toNat / 4,a.toNat % 4 * 16]
  | [a,b] => [a.toNat / 4,a.toNat % 4 * 16 + b.toNat / 16,b.toNat % 16 * 4]
  | a :: b :: c :: rest =>
    a.toNat / 4 :: (a.toNat % 4 * 16 + b.toNat / 16) :: (b.toNat % 16 * 4 + c.toNat / 64) :: c.toNat % 64 ::
      toDigits rest

def ofDigits : List Nat → Option Bytes
  | [] => some []
  | [_] => none
  | [p,q] => some [ofNat (p * 4 + q / 16)]
  | [p,q,r] => some [ofNat (p * 4 + q / 16),ofNat (q % 16 * 16 + r / 4)]
  | p :: q :: r :: s :: rest => (ofDigits rest).map fun tail =>
    ofNat (p * 4 + q / 16) :: ofNat (q % 16 * 16 + r / 4) :: ofNat (r % 4 * 64 + s) :: tail

def encode (data : Bytes) : Bytes := (toDigits data).map digit
def decode (text : Bytes) : Option Bytes :=
  ((text.filter fun c => c ≠ 10 ∧ c ≠ 13).mapM value).bind ofDigits

theorem digitValue : ∀ n < 64, value (digit n) = some n := by decide

theorem digitPlain : ∀ n < 64, digit n ≠ 10 ∧ digit n ≠ 13 ∧ digit n ≠ 46 := by decide

theorem digitsBound : ∀ n ∈ toDigits data, n < 64 := by
  fun_induction toDigits data with
  | case1 => simp
  | case2 a =>
    have bound := a.toNat_lt
    simp only [List.forall_mem_cons,List.not_mem_nil,false_implies,implies_true,and_true]
    omega
  | case3 a b =>
    have bound := a.toNat_lt
    have next := b.toNat_lt
    simp only [List.forall_mem_cons,List.not_mem_nil,false_implies,implies_true,and_true]
    omega
  | case4 a b c rest ih =>
    have bound := a.toNat_lt
    have next := b.toNat_lt
    have last := c.toNat_lt
    simp only [List.forall_mem_cons]
    exact ⟨by omega,by omega,by omega,by omega,ih⟩

theorem byteBack (b) (eq : n = b.toNat) : ofNat n = b := by rw [eq,UInt8.ofNat_toNat]

theorem digitsBack (data) : ofDigits (toDigits data) = some data := by
  fun_induction toDigits data with
  | case1 => rfl
  | case2 a => rw [ofDigits,byteBack a (by omega)]
  | case3 a b =>
    have next := b.toNat_lt
    rw [ofDigits,byteBack a (by omega),byteBack b (by omega)]
  | case4 a b c rest ih =>
    have next := b.toNat_lt
    have last := c.toNat_lt
    rw [ofDigits,ih,Option.map_some,byteBack a (by omega),byteBack b (by omega),byteBack c (by omega)]

theorem valuesBack {digits : List Nat} (bound : ∀ n ∈ digits, n < 64) : (digits.map digit).mapM value = some digits := by
  induction digits with
  | nil => rfl
  | cons n rest ih =>
    obtain ⟨first,later⟩ := List.forall_mem_cons.mp bound
    rw [List.map_cons,List.mapM_cons,digitValue n first,ih later]
    rfl

theorem encodePlain : ∀ c ∈ encode data, c ≠ 10 ∧ c ≠ 13 ∧ c ≠ 46 := by
  intro c mem
  obtain ⟨n,inside,rfl⟩ := List.mem_map.mp mem
  exact digitPlain n (digitsBound n inside)

theorem decodeEncode (data) : decode (encode data) = some data := by
  have kept : (encode data).filter (fun c => c ≠ 10 ∧ c ≠ 13) = encode data := by
    rw [List.filter_eq_self]
    intro c mem
    obtain ⟨feed,back,_⟩ := encodePlain c mem
    simp [feed,back]
  rw [decode,kept,encode,valuesBack digitsBound,Option.bind_some,digitsBack]

end Gofly.Base64
