import Mathlib.Tactic.Ring

/-! Readers of byte sequences that take a prefix and leave the rest. -/
namespace Gofly.ByteReader
open UInt8 (ofNat)

abbrev Bytes := List UInt8
def ascii (text : String) : Bytes := text.toList.map fun c => ofNat c.toNat
abbrev Reader (ε α : Type) := StateT Bytes (Except ε) α

variable {ε δ α β : Type}

def Local (r : Reader ε α) : Prop :=
  ∀ input a rest more, r input = .ok (a,rest) → r (input ++ more) = .ok (a,rest ++ more)

def Reads (r : Reader ε α) (data : Bytes) (a : α) : Prop :=
  ∀ rest, r (data ++ rest) = .ok (a,rest)
def Fails (result : Except ε α) : Prop := ∃ e, result = .error e

theorem bindOk {f : α → Reader ε β} (ok : r input = .ok (a,rest)) : (r >>= f) input = f a rest := by
  simp only [bind,StateT.bind,ok,Except.bind]

theorem bindExact {f : α → Reader ε β} (h : (r >>= f) input = .ok (b,rest)) :
    ∃ a middle, r input = .ok (a,middle) ∧ f a middle = .ok (b,rest) := by
  simp only [bind,StateT.bind,Except.bind] at h
  cases first : r input with
  | error => simp [first] at h
  | ok pair => exact ⟨pair.1,pair.2,rfl,by simpa only [first] using h⟩

theorem localBind (head : Local r) (tail : ∀ a, Local (f a)) : Local (r >>= f) := by
  intro input b rest more h
  obtain ⟨a,middle,first,second⟩ := bindExact h
  rw [bindOk (head _ _ _ more first)]
  exact tail a _ _ _ more second

theorem localPure (a) : Local (pure a : Reader ε α) := by
  intro input b rest more h
  cases h
  rfl

theorem localThrow (e) : Local (throw e : Reader ε α) := by
  intro input a rest more h
  cases h

theorem readsBind (head : Reads r left a) (tail : Reads (f a) right b) : Reads (r >>= f) (left ++ right) b := by
  intro rest
  rw [List.append_assoc,bindOk (head _)]
  exact tail rest

theorem readsPure (a) : Reads (pure a : Reader ε α) [] a := fun _ => rfl

theorem cutFails (near : Local r) (whole : r (cut ++ more) = .ok (a,[])) (strict : more ≠ []) : Fails (r cut) := by
  cases h : r cut with
  | error e => exact ⟨e,rfl⟩
  | ok pair =>
    obtain ⟨b,rest⟩ := pair
    have longer := near _ _ _ more h
    rw [whole] at longer
    have empty : [] = rest ++ more := congrArg Prod.snd (Except.ok.inj longer)
    exact absurd (List.append_eq_nil_iff.mp empty.symm).2 strict

structure Exact (decode : Bytes → Except ε α) (data : Bytes) (a : α) : Prop where
  accepts : decode data = .ok a
  prefixes : ∀ cut more, data = cut ++ more → more ≠ [] → Fails (decode cut)
  extensions : ∀ more, more ≠ [] → Fails (decode (data ++ more))

def label (name : ε → δ) (r : Reader ε α) : Reader δ α := fun input => (r input).mapError name

theorem localLabel (name : ε → δ) (near : Local r) : Local (label name r) := by
  intro input a rest more h
  simp only [label] at h ⊢
  cases first : r input with
  | error => simp [first,Except.mapError] at h
  | ok =>
    simp only [first,Except.mapError,Except.ok.injEq] at h
    rw [near _ _ _ more (by rw [first,h])]
    rfl

theorem readsLabel (name : ε → δ) (h : Reads r data a) : Reads (label name r) data a := by
  intro rest
  simp only [label,h rest,Except.mapError]

/- A check of the remaining length; it is local when a longer input cannot fail it. -/
def require (enough : Nat → Prop) [DecidablePred enough] (e : ε) : Reader ε Unit := fun input =>
  if enough input.length then .ok ((),input) else .error e

theorem localRequire [DecidablePred enough]
    (grows : ∀ m n, m ≤ n → enough m → enough n) : Local (require enough e) := by
  intro input a rest more h
  simp only [require] at h ⊢
  split at h <;> cases h
  rename_i had
  rw [if_pos (grows _ _ (by simp) had)]

theorem requireOk [DecidablePred enough] (had : enough input.length) : require enough e input = .ok ((),input) := by
  simp only [require,if_pos had]

inductive Short where
  | eof | unexpectedEOF | overflow
  deriving DecidableEq

def readByte : Reader Short UInt8
  | [] => .error .eof
  | b :: rest => .ok (b,rest)

def readFull (n : Nat) : Reader Short Bytes := fun input =>
  if n ≤ input.length then .ok (input.take n,input.drop n)
  else .error (if input = [] then .eof else .unexpectedEOF)

theorem localByte : Local readByte := by
  intro input a rest more h
  cases input with
  | nil => cases h
  | cons => cases h; rfl

theorem readsByte (b) : Reads readByte [b] b := fun _ => rfl

theorem localFull (n) : Local (readFull n) := by
  intro input a rest more h
  simp only [readFull] at h ⊢
  split at h <;> cases h
  rename_i enough
  rw [if_pos (by simp; omega),List.take_append_of_le_length enough,List.drop_append_of_le_length enough]

theorem readsFull (data) : Reads (readFull data.length) data data := by
  intro rest
  simp only [readFull]
  rw [if_pos (by simp),List.take_left,List.drop_left]

def be : Nat → Nat → Bytes
  | 0,_ => []
  | width + 1,n => be width (n / 256) ++ [ofNat n]

def readBE (raw : Bytes) : Nat := raw.foldl (fun n b => n * 256 + b.toNat) 0

theorem beLength (width n) : (be width n).length = width := by
  induction width generalizing n with
  | zero => rfl
  | succ _ ih => simp [be,ih]

theorem readBeBounded (width n) (bound : n < 256 ^ width) : readBE (be width n) = n := by
  induction width generalizing n with
  | zero => simp [be,readBE]; omega
  | succ width ih =>
    have high : n / 256 < 256 ^ width := Nat.div_lt_of_lt_mul (by rw [Nat.pow_succ] at bound; omega)
    have step := ih (n / 256) high
    simp only [readBE] at step
    simp only [be,readBE,List.foldl_append,List.foldl_cons,List.foldl_nil]
    simp only [UInt8.toNat_ofNat']
    omega

def maxVarintLen : Nat := 10

def putUvarintLoop : Nat → Nat → Bytes
  | 0,_ => []
  | fuel + 1,x =>
    if x < 128 then [ofNat x] else ofNat (x % 128 + 128) :: putUvarintLoop fuel (x / 128)

def putUvarint (x : Nat) : Bytes := putUvarintLoop maxVarintLen x

def readUvarintLoop : Nat → Nat → Nat → Reader Short Nat
  | 0,_,_,_ => .error .overflow
  | _ + 1,i,_,[] => .error (if 0 < i then .unexpectedEOF else .eof)
  | fuel + 1,i,x,b :: rest =>
    if b.toNat < 128 then
      if i = maxVarintLen - 1 ∧ 1 < b.toNat then .error .overflow
      else .ok (x + b.toNat * 2 ^ (7 * i),rest)
    else readUvarintLoop fuel (i + 1) (x + b.toNat % 128 * 2 ^ (7 * i)) rest

def readUvarint : Reader Short Nat := readUvarintLoop maxVarintLen 0 0

theorem localUvarintLoop (fuel i x) : Local (readUvarintLoop fuel i x) := by
  intro input a rest more h
  induction fuel generalizing i x input with
  | zero => simp [readUvarintLoop] at h
  | succ _ ih =>
    cases input with
    | nil => simp [readUvarintLoop] at h
    | cons =>
      simp only [readUvarintLoop,List.cons_append] at h ⊢
      split at h
      · rename_i last
        rw [if_pos last]
        split at h <;> try contradiction
        rename_i small
        rw [if_neg small]
        cases h
        rfl
      rename_i continues
      rw [if_neg continues]
      exact ih _ _ _ h

theorem localUvarint : Local readUvarint := localUvarintLoop _ _ _

theorem uvarintLoopEncoded (fuel i x n) (bound : n < 2 ^ (64 - 7 * i)) (place : fuel + i = 10) (mem : i < 10) :
    Reads (readUvarintLoop fuel i x) (putUvarintLoop fuel n) (x + n * 2 ^ (7 * i)) := by
  intro rest
  induction fuel generalizing i x n with
  | zero => omega
  | succ _ ih =>
    simp only [putUvarintLoop]
    split
    · rename_i small
      have byte : (ofNat n).toNat = n := by simp; omega
      simp only [List.cons_append,List.nil_append,readUvarintLoop,byte,if_pos small]
      rw [if_neg]
      rintro ⟨last,big⟩
      have nine : i = 9 := last
      subst nine
      omega
    have byte : (ofNat (n % 128 + 128)).toNat = n % 128 + 128 := by simp; omega
    have early : i < 9 := by
      by_contra late
      have small : 2 ^ (64 - 7 * i) ≤ 2 ^ 1 := Nat.pow_le_pow_right (by omega) (by omega)
      omega
    have next : n / 128 < 2 ^ (64 - 7 * (i + 1)) := by
      apply Nat.div_lt_of_lt_mul
      have split : 64 - 7 * i = 7 + (64 - 7 * (i + 1)) := by omega
      rwa [split,Nat.pow_add] at bound
    simp only [List.cons_append,readUvarintLoop,byte]
    rw [if_neg (by omega),ih (i + 1) _ (n / 128) next (by omega) (by omega)]
    have groups : n = n % 128 + 128 * (n / 128) := (Nat.mod_add_div n 128).symm
    have total : (n % 128 + 128) % 128 * 2 ^ (7 * i) + n / 128 * 2 ^ (7 * (i + 1)) = n * 2 ^ (7 * i) := by
      rw [Nat.add_mod_right,Nat.mod_mod]
      nth_rewrite 3 [groups]
      ring
    rw [Nat.add_assoc,total]

theorem readsUvarint (n) (bound : n < 2 ^ 64) : Reads readUvarint (putUvarint n) n := by
  have h := uvarintLoopEncoded maxVarintLen 0 0 n (by simpa using bound) rfl (by decide)
  simp only [Nat.mul_zero,Nat.pow_zero,Nat.mul_one,Nat.zero_add] at h
  exact h

theorem putUvarintLoopPositive (fuel n) : 1 ≤ (putUvarintLoop (fuel + 1) n).length := by
  simp only [putUvarintLoop]
  split <;> simp

theorem putUvarintPositive (n) : 1 ≤ (putUvarint n).length := putUvarintLoopPositive 9 n

theorem putUvarintShort (n) (bound : n < 2 ^ 7) : (putUvarint n).length = 1 := by
  simp [putUvarint,maxVarintLen,putUvarintLoop,show n < 128 from bound]

theorem putUvarintTwo (n) (low : 2 ^ 7 ≤ n) (bound : n < 2 ^ 14) : (putUvarint n).length = 2 := by
  have first : ¬ n < 128 := by omega
  have second : n / 128 < 128 := by omega
  simp [putUvarint,maxVarintLen,putUvarintLoop,first,second]

theorem putUvarintLong (n) (low : 2 ^ 14 ≤ n) : 3 ≤ (putUvarint n).length := by
  have first : ¬ n < 128 := by omega
  have second : ¬ n / 128 < 128 := by omega
  have third : 1 ≤ (putUvarintLoop 8 (n / 128 / 128)).length := putUvarintLoopPositive 7 _
  have groups : putUvarint n = ofNat (n % 128 + 128) ::
      ofNat (n / 128 % 128 + 128) :: putUvarintLoop 8 (n / 128 / 128) := by
    rw [putUvarint,maxVarintLen,putUvarintLoop,if_neg first,putUvarintLoop,if_neg second]
  rw [groups]
  simp only [List.length_cons]
  omega

end Gofly.ByteReader
