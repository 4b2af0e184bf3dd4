import Gofly.Jwt
/-! The times in a token. -/
namespace Gofly.Jwt
open ByteReader
open Json

def Enforced (raw : Map Value) (now : Time) : Prop :=
  (raw.lookup exp = none ∨ ∃ v, raw.lookup exp = some (.number (some v)) ∧ now.value < v) ∧
  (raw.lookup nbf = none ∨ ∃ v, raw.lookup nbf = some (.number (some v)) ∧ v ≤ now.value)

def KeepsTimes (raw : Map Value) : Prop :=
  (1 ≤ jsonNumberInt64 (raw.lookup exp) ∧ jsonNumberInt64 (raw.lookup exp) ≤ jsonNumberInt64 (raw.lookup nbf)) ∨
  (raw.lookup exp = none ∨ ∃ v, raw.lookup exp = some (.number (some v)) ∧ 1 ≤ v) ∧
  (raw.lookup nbf = none ∨ ∃ v, raw.lookup nbf = some (.number (some v)) ∧
    (v ≤ -2 ^ 63 ∨ ∃ n : Int, v = n ∧ 1 ≤ n ∧ n < 2 ^ 63))

section
variable {v : Rat}

theorem wholePart (pos : 0 ≤ v) : v.num.tdiv v.den = ⌊v⌋ := by
  rw [Rat.floor_def',Int.tdiv_eq_ediv_of_nonneg (Rat.num_nonneg.mpr pos)]

theorem numberFloor (pos : 0 ≤ v) (low : v < 2 ^ 63) : jsonNumberInt64 (some (.number (some v))) = ⌊v⌋ := by
  have least : 0 ≤ ⌊v⌋ := Int.floor_nonneg.mpr pos
  have most : ⌊v⌋ < 2 ^ 63 := Int.floor_lt.mpr (by exact_mod_cast low)
  simp only [jsonNumberInt64,wholePart pos]
  rw [if_pos ⟨by omega,most⟩]

theorem numberHigh (large : 2 ^ 63 ≤ v) : jsonNumberInt64 (some (.number (some v))) = -2 ^ 63 := by
  have most : 2 ^ 63 ≤ ⌊v⌋ := Int.le_floor.mpr (by exact_mod_cast large)
  simp only [jsonNumberInt64,wholePart ((by norm_num : (0 : Rat) ≤ 2 ^ 63).trans large)]
  rw [if_neg fun bounds => absurd bounds.2 (by omega)]

theorem numberLow (small : v < 1) : jsonNumberInt64 (some (.number (some v))) ≤ 0 := by
  by_cases pos : 0 ≤ v
  · rw [numberFloor pos (small.trans (by norm_num))]
    exact Int.lt_add_one_iff.mp (Int.floor_lt.mpr (by simpa using small))
  have negative : v.num < 0 := Rat.num_neg.mpr (not_le.mp pos)
  have below := @Int.tdiv_nonneg (-v.num) v.den (by omega) (by omega)
  rw [Int.neg_tdiv] at below
  simp only [jsonNumberInt64]
  split <;> omega

theorem numberBounds (value) : -2 ^ 63 ≤ jsonNumberInt64 value ∧ jsonNumberInt64 value < 2 ^ 63 := by
  unfold jsonNumberInt64
  split
  · dsimp only
    split
    · assumption
    omega
  omega
end

section
variable {t : Time}

theorem unixBounds (t : Time) : -2 ^ 63 ≤ t.unix ∧ t.unix < 2 ^ 63 := ⟨t.sec.le_toInt,t.sec.toInt_lt⟩

theorem valueBounds (t : Time) : (t.unix : Rat) ≤ t.value ∧ t.value < t.unix + 1 := by
  have fraction : (t.nsec.val : Rat) < 1000000000 := by exact_mod_cast t.nsec.isLt
  unfold Time.value
  constructor <;> linarith

def second (n : Int) : Time := ⟨Int64.ofInt n,0⟩

theorem secondUnix (low : -2 ^ 63 ≤ n) (high : n < 2 ^ 63) : (second n).unix = n := Int64.toInt_ofInt_of_le low high

theorem secondValue (low : -2 ^ 63 ≤ n) (high : n < 2 ^ 63) : (second n).value = n := by
  rw [Time.value,secondUnix low high]
  simp [second]
end

def Open (raw : Map Value) (now : Time) : Prop :=
  (jsonNumberInt64 (raw.lookup exp) ≤ 0 ∨ now.unix < jsonNumberInt64 (raw.lookup exp)) ∧
  (jsonNumberInt64 (raw.lookup nbf) ≤ 0 ∨ jsonNumberInt64 (raw.lookup nbf) ≤ now.unix)

theorem keptEnforced (kept : KeepsTimes raw) (opened : Open raw now) : Enforced raw now := by
  obtain ⟨old,since⟩ := opened
  obtain ⟨low,high⟩ := unixBounds now
  obtain ⟨least,most⟩ := valueBounds now
  have lowest : (-2 ^ 63 : Rat) ≤ now.unix := by exact_mod_cast low
  rcases kept with ⟨pos,order⟩ | ⟨expiry,start⟩
  · omega
  constructor
  · refine expiry.imp_right fun ⟨v,got,pos⟩ => ⟨v,got,?_⟩
    rcases lt_or_ge v (2 ^ 63) with mem | outside
    · have floor := numberFloor (by linarith : 0 ≤ v) mem
      have met : 1 ≤ ⌊v⌋ := Int.le_floor.mpr (by exact_mod_cast pos)
      rw [got] at old
      have later : now.unix + 1 ≤ ⌊v⌋ := by omega
      have later : (now.unix : Rat) + 1 ≤ ⌊v⌋ := by exact_mod_cast later
      linarith [Int.floor_le v]
    have later : (now.unix : Rat) + 1 ≤ 2 ^ 63 := by exact_mod_cast high
    linarith
  refine start.imp_right fun ⟨v,got,shape⟩ => ⟨v,got,?_⟩
  rcases shape with deep | ⟨n,rfl,pos,bounded⟩
  · linarith
  have nonneg : (0 : Rat) ≤ n := by exact_mod_cast (by omega : 0 ≤ n)
  have floor := numberFloor nonneg (by exact_mod_cast bounded)
  rw [got,floor,Int.floor_intCast] at since
  have met : n ≤ now.unix := by omega
  have met : (n : Rat) ≤ now.unix := by exact_mod_cast met
  linarith

theorem expiryKept (law : ∀ now, Open raw now → Enforced raw now) :
    raw.lookup exp = none ∨ ∃ v, raw.lookup exp = some (.number (some v)) ∧ 1 ≤ v := by
  by_contra bad
  rw [not_or,not_exists] at bad
  have gone : jsonNumberInt64 (raw.lookup exp) ≤ 0 := by
    cases got : raw.lookup exp with
    | none => exact absurd got bad.1
    | some value =>
      cases value with
      | number float =>
        cases float with
        | none => exact le_refl _
        | some v => exact numberLow (not_le.mp fun met => bad.2 v ⟨got,met⟩)
      | _ => exact le_refl _
  -- at the last second of all
  have unix := @secondUnix (2 ^ 63 - 1) (by norm_num) (by norm_num)
  have opened : Open raw (second (2 ^ 63 - 1)) := by
    refine ⟨.inl gone,.inr ?_⟩
    exact Int.le_sub_one_of_lt (numberBounds _).2
  rcases (law _ opened).1 with none | ⟨v,got,after⟩
  · exact bad.1 none
  rw [@secondValue (2 ^ 63 - 1) (by norm_num) (by norm_num)] at after
  refine bad.2 v ⟨got,le_of_lt (lt_of_le_of_lt ?_ after)⟩
  norm_num

theorem startKept (law : ∀ now, Open raw now → Enforced raw now)
    (window : ¬(1 ≤ jsonNumberInt64 (raw.lookup exp) ∧ jsonNumberInt64 (raw.lookup exp) ≤ jsonNumberInt64 (raw.lookup nbf))) :
    raw.lookup nbf = none ∨ ∃ v, raw.lookup nbf = some (.number (some v)) ∧
      (v ≤ -2 ^ 63 ∨ ∃ n : Int, v = n ∧ 1 ≤ n ∧ n < 2 ^ 63) := by
  obtain ⟨low,high⟩ := numberBounds (raw.lookup nbf)
  by_cases pos : 1 ≤ jsonNumberInt64 (raw.lookup nbf)
  · have opened : Open raw (second (jsonNumberInt64 (raw.lookup nbf))) := by
      rw [Open,secondUnix low high]
      omega
    refine (law _ opened).2.imp_right fun ⟨v,got,met⟩ => ⟨v,got,.inr ?_⟩
    rw [secondValue low high] at met
    have above : 1 ≤ v := not_lt.mp fun small => absurd (numberLow small) (by rw [← got]; omega)
    have below : v < 2 ^ 63 := not_le.mp fun large => absurd (numberHigh large) (by rw [← got]; omega)
    have floor := numberFloor (by linarith) below
    rw [got,floor] at met pos high
    exact ⟨⌊v⌋,le_antisymm met (Int.floor_le v),pos,high⟩
  have opened : Open raw (second (-2 ^ 63)) := by
    rw [Open,@secondUnix (-2 ^ 63) (le_refl _) (by norm_num)]
    omega
  refine (law _ opened).2.imp_right fun ⟨v,got,met⟩ => ⟨v,got,.inl ?_⟩
  rw [@secondValue (-2 ^ 63) (le_refl _) (by norm_num)] at met
  exact_mod_cast met

theorem enforcedKept : (∀ now, Open raw now → Enforced raw now) ↔ KeepsTimes raw := by
  refine ⟨fun law => ?_,fun kept _ => keptEnforced kept⟩
  by_cases never : 1 ≤ jsonNumberInt64 (raw.lookup exp) ∧
      jsonNumberInt64 (raw.lookup exp) ≤ jsonNumberInt64 (raw.lookup nbf)
  · exact .inl never
  exact .inr ⟨expiryKept law,startKept law never⟩

structure Same (back claims : JwtClaims) : Prop where
  subject : back.subject = claims.subject
  issuer : back.issuer = claims.issuer
  audience : back.audience = claims.audience
  expiresAt : back.expiresAt = claims.expiresAt
  issuedAt : back.issuedAt = claims.issuedAt
  notBefore : back.notBefore = claims.notBefore

def extraValue (claims : JwtClaims) (name : Bytes) : Option Value :=
  (claims.extra.lookup name).map fun v => v.back.getD .null

def TextKept (claims : JwtClaims) (name text : Bytes) : Prop :=
  if text ≠ [] then Json.coerce text = text else textOf (extraValue claims name) = []

def TimeKept (claims : JwtClaims) (name : Bytes) (t : Int) : Prop :=
  if 0 < t then t < 2 ^ 63 ∧ Json.float64 t.natAbs = t.natAbs else jsonNumberInt64 (extraValue claims name) = t

structure Returns (claims : JwtClaims) : Prop where
  readable : (Json.fieldsOf (claimValues claims)).all (fun field => field.2.readable) = true
  subject : TextKept claims sub claims.subject
  issuer : TextKept claims iss claims.issuer
  audience : TextKept claims aud claims.audience
  expiresAt : TimeKept claims exp claims.expiresAt
  issuedAt : TimeKept claims iat claims.issuedAt
  notBefore : TimeKept claims nbf claims.notBefore

theorem insertedLookup [Decidable c] (m : Map Any) (key name v) :
    (if c then m.insert key v else m).lookup name = if c ∧ name = key then some v else m.lookup name := by
  by_cases here : name = key
  · subst here
    split_ifs <;> simp_all
  split_ifs <;> simp_all

theorem valuesLookup (claims) :
    (claimValues claims).lookup sub = (if claims.subject ≠ [] then some (.string claims.subject) else claims.extra.lookup sub) ∧
    (claimValues claims).lookup iss = (if claims.issuer ≠ [] then some (.string claims.issuer) else claims.extra.lookup iss) ∧
    (claimValues claims).lookup aud = (if claims.audience ≠ [] then some (.string claims.audience) else claims.extra.lookup aud) ∧
    (claimValues claims).lookup exp = (if 0 < claims.expiresAt then some (.int64 claims.expiresAt) else claims.extra.lookup exp) ∧
    (claimValues claims).lookup iat = (if 0 < claims.issuedAt then some (.int64 claims.issuedAt) else claims.extra.lookup iat) ∧
    (claimValues claims).lookup nbf = (if 0 < claims.notBefore then some (.int64 claims.notBefore) else claims.extra.lookup nbf) := by
  have ne : [sub,iss,aud,exp,iat,nbf].Pairwise fun a b => a ≠ b ∧ b ≠ a := by decide
  simp only [List.pairwise_cons,List.forall_mem_cons] at ne
  simp only [claimValues,insertedLookup]
  simp [ne]

theorem textBack (claims name text) :
    textOf ((if text ≠ [] then some (.string text) else claims.extra.lookup name).map fun v : Any => v.back.getD .null) = text ↔
      TextKept claims name text := by
  unfold TextKept
  split_ifs with full
  · rfl
  rw [not_not.mp full]
  rfl

theorem timeBack (claims name t) :
    jsonNumberInt64 ((if 0 < t then some (.int64 t) else claims.extra.lookup name).map fun v : Any => v.back.getD .null) = t ↔
      TimeKept claims name t := by
  unfold TimeKept
  split_ifs with pos
  · have float : (Any.int64 t).back.getD .null = .number (some ((float64 t.natAbs : Int) : Rat)) := by
      simp [Any.back,Int.sign_eq_one_of_pos pos]
    have nonneg : (0 : Rat) ≤ ((float64 t.natAbs : Int) : Rat) := by exact_mod_cast Int.natCast_nonneg _
    rw [Option.map_some,float]
    rcases lt_or_ge ((float64 t.natAbs : Int) : Rat) (2 ^ 63) with mem | outside
    · rw [numberFloor nonneg mem,Int.floor_intCast]
      have bounded : (float64 t.natAbs : Int) < 2 ^ 63 := by exact_mod_cast mem
      omega
    rw [numberHigh outside]
    have beyond : 2 ^ 63 ≤ (float64 t.natAbs : Int) := by exact_mod_cast outside
    omega
  rfl

theorem namesAscii : ∀ name ∈ [sub,iss,aud,exp,iat,nbf], ∀ b ∈ name, b < 0x80 := by
  simp [sub,iss,aud,exp,iat,nbf,ascii]

theorem claimsBack (lookup : ∀ name : Bytes, (∀ b ∈ name, b < 0x80) →
      raw.lookup name = ((claimValues claims).lookup name).map fun v => v.back.getD .null) :
    Same (claimsOf raw) claims ↔ TextKept claims sub claims.subject ∧ TextKept claims iss claims.issuer ∧
      TextKept claims aud claims.audience ∧ TimeKept claims exp claims.expiresAt ∧ TimeKept claims iat claims.issuedAt ∧
      TimeKept claims nbf claims.notBefore := by
  obtain ⟨ofSub,ofIss,ofAud,ofExp,ofIat,ofNbf⟩ := valuesLookup claims
  rw [← textBack,← textBack,← textBack,← timeBack,← timeBack,← timeBack,← ofSub,← ofIss,← ofAud,← ofExp,
    ← ofIat,← ofNbf,← lookup sub (namesAscii _ (by simp)),← lookup iss (namesAscii _ (by simp)),
    ← lookup aud (namesAscii _ (by simp)),← lookup exp (namesAscii _ (by simp)),
    ← lookup iat (namesAscii _ (by simp)),← lookup nbf (namesAscii _ (by simp))]
  exact ⟨fun ⟨a,b,c,d,e,f⟩ => ⟨a,b,c,d,e,f⟩,fun ⟨a,b,c,d,e,f⟩ => ⟨a,b,c,d,e,f⟩⟩

theorem sameValid (eq : Same back claims) : validateClaims back opts = validateClaims claims opts := by
  simp only [validateClaims,eq.expiresAt,eq.notBefore,eq.issuer,eq.audience]

theorem signedReturns (signed : signJwt p claims secret = .ok token) :
    (∃ back, verifyJwt p token secret opts = .ok back ∧ Same back claims) ↔
      Returns claims ∧ validateClaims claims opts = none := by
  obtain ⟨full,fine,rfl⟩ := signExact.mp signed
  obtain ⟨raw,lookup,unmarshal⟩ := unmarshalWritten p.json fine
  constructor
  · rintro ⟨back,verified,eq⟩
    obtain ⟨_,other,read,rfl,valid⟩ := madeVerified.mp verified
    rw [unmarshal] at read
    split at read <;> cases read
    rename_i clear
    obtain ⟨a,b,c,d,e,f⟩ := (claimsBack lookup).mp eq
    exact ⟨⟨clear,a,b,c,d,e,f⟩,sameValid eq ▸ valid⟩
  rintro ⟨⟨clear,a,b,c,d,e,f⟩,valid⟩
  have eq := (claimsBack lookup).mpr ⟨a,b,c,d,e,f⟩
  refine ⟨claimsOf raw,madeVerified.mpr ⟨full,raw,?_,rfl,?_⟩,eq⟩
  · rw [unmarshal,if_pos clear]
  rw [sameValid eq,valid]

section
variable (p : Platform)

theorem acceptedOpen (payload : payloadOf token = some data) (read : unmarshalMap p.json data = some raw)
    (accepted : verifyJwt p token secret opts = .ok claims) : Open raw opts.now := by
  obtain ⟨_,header,part,sig,got,other,parts,_,_,decoded,unmarshalled,rfl,valid⟩ := verifyExact.mp accepted
  rw [payloadOf,parts] at payload
  cases Option.mem_unique decoded payload
  cases Option.mem_unique unmarshalled read
  obtain ⟨expiry,start,_⟩ := (validExact _ _).mp valid
  exact ⟨expiry,start⟩

theorem openAccepted (read : unmarshalMap p.json data = some raw)
    (opened : Open raw now) : verifyJwt p (made p [] data [0]) [0] { now } = .ok (claimsOf raw) :=
  madeVerified.mpr ⟨by simp,raw,read,rfl,(validExact _ _).mpr ⟨opened.1,opened.2,.inl rfl,.inl rfl⟩⟩

/-- Times are enforced, and claims come back as they were signed, exactly under the two conditions. -/
theorem timesEnforcedExact : (∀ data raw, Json.unmarshalMap p.json data = some raw →
      ((∀ token secret opts claims, payloadOf token = some data → verifyJwt p token secret opts = .ok claims →
        Enforced raw opts.now) ↔ KeepsTimes raw)) ∧ ∀ claims secret token opts, signJwt p claims secret = .ok token →
      ((∃ back, verifyJwt p token secret opts = .ok back ∧ Same back claims) ↔
        Returns claims ∧ validateClaims claims opts = none) := by
  refine ⟨fun data raw read => Iff.trans ⟨fun law now opened => ?_,fun law _ _ _ _ payload accepted => ?_⟩ enforcedKept,
    fun claims secret token opts signed => signedReturns signed⟩
  · exact law (made p [] data [0]) [0] { now } (claimsOf raw) (madePayload p [] data [0]) (openAccepted p read opened)
  · exact law _ (acceptedOpen p payload read accepted)
end

def plainPlatform : Platform := ⟨Json.numbered,(· ++ ·)⟩
def lasting : JwtClaims := { subject := ascii "u",expiresAt := 2000000000 }

theorem lastingReturns : ∃ token back, signJwt plainPlatform lasting [1] = .ok token ∧
    verifyJwt plainPlatform token [1] { now := second 1000000000 } = .ok back ∧ Same back lasting ∧
      ∃ raw, raw.lookup exp = some (.number (some 2000000000)) ∧ Enforced raw (second 1000000000) := by
  have signed := (@signExact plainPlatform _ [1] [] lasting).mpr ⟨by decide,by decide +kernel,rfl⟩
  have returns : Returns lasting := by
    constructor
    · decide +kernel
    iterate 3 exact (textBack _ _ _).mp (by decide +kernel)
    iterate 3 exact (timeBack _ _ _).mp (by decide +kernel)
  obtain ⟨back,verified,same⟩ :=
    ((timesEnforcedExact plainPlatform).2 lasting [1] _ { now := second 1000000000 } signed).mpr ⟨returns,by decide +kernel⟩
  obtain ⟨raw,lookup,read⟩ := @Json.unmarshalWritten (claimValues lasting) plainPlatform.json (by decide +kernel)
  rw [if_pos (by decide +kernel)] at read
  have expiry : raw.lookup exp = some (.number (some 2000000000)) := by
    rw [lookup exp (namesAscii _ (by simp))]
    decide +kernel
  have start : raw.lookup nbf = none := by
    rw [lookup nbf (namesAscii _ (by simp))]
    decide +kernel
  have kept : KeepsTimes raw := .inr ⟨.inr ⟨_,expiry,by norm_num⟩,.inl start⟩
  have enforced := ((timesEnforcedExact plainPlatform).1 _ raw read).mpr kept _ _ _ _ (madePayload _ _ _ _) verified
  exact ⟨_,back,signed,verified,same,raw,expiry,enforced⟩

def unreadExpiry : JwtClaims := { extra := (∅ : Map Any).insert exp (.string (ascii "soon")) }
def roundedExpiry : JwtClaims := { expiresAt := 9007199254740993 }

theorem expiryLost :
    (∃ token data raw, signJwt plainPlatform unreadExpiry [1] = .ok token ∧ payloadOf token = some data ∧
      Json.unmarshalMap plainPlatform.json data = some raw ∧ raw.lookup exp = some (.string (ascii "soon")) ∧
      ∀ now, verifyJwt plainPlatform token [1] { now } = .ok (claimsOf raw) ∧ ¬Enforced raw now) ∧
    ∃ token back, signJwt plainPlatform roundedExpiry [1] = .ok token ∧
      verifyJwt plainPlatform token [1] { now := second 0 } = .ok back ∧ back.expiresAt = 9007199254740992 := by
  constructor
  · have signed := (@signExact plainPlatform _ [1] [] unreadExpiry).mpr ⟨by decide,by decide +kernel,rfl⟩
    obtain ⟨raw,lookup,read⟩ := @Json.unmarshalWritten (claimValues unreadExpiry) plainPlatform.json (by decide +kernel)
    have found := lookup exp (namesAscii _ (by simp))
    have absent := lookup nbf (namesAscii _ (by simp))
    rw [show (claimValues unreadExpiry).lookup nbf = none by decide +kernel] at absent
    have word : raw.lookup exp = some (.string (ascii "soon")) := by
      rw [found]
      decide +kernel
    refine ⟨_,_,raw,signed,madePayload _ _ _ _,read,word,fun now => ⟨?_,fun enforced => ?_⟩⟩
    · refine madeVerified.mpr ⟨by decide,raw,read,rfl,(validExact _ _).mpr ⟨.inl ?_,.inl ?_,.inl rfl,.inl rfl⟩⟩
      · simp [claimsOf,word,jsonNumberInt64]
      · simp [claimsOf,absent,jsonNumberInt64]
    rcases enforced.1 with none | ⟨v,numeric,_⟩
    · rw [word] at none
      cases none
    rw [word] at numeric
    cases numeric
  have signed := (@signExact plainPlatform _ [1] [] roundedExpiry).mpr ⟨by decide,by decide +kernel,rfl⟩
  obtain ⟨raw,lookup,read⟩ := @Json.unmarshalWritten (claimValues roundedExpiry) plainPlatform.json (by decide +kernel)
  rw [if_pos (by decide +kernel)] at read
  have expiry : (claimsOf raw).expiresAt = 9007199254740992 := by
    show jsonNumberInt64 (raw.lookup exp) = _
    rw [lookup exp (namesAscii _ (by simp))]
    decide +kernel
  have start : (claimsOf raw).notBefore = 0 := by
    show jsonNumberInt64 (raw.lookup nbf) = _
    rw [lookup nbf (namesAscii _ (by simp))]
    decide +kernel
  refine ⟨_,claimsOf raw,signed,madeVerified.mpr ⟨by decide,raw,read,rfl,(validExact _ _).mpr ⟨.inr ?_,.inl ?_,
    .inl rfl,.inl rfl⟩⟩,expiry⟩
  · rw [expiry]
    decide +kernel
  rw [start]

end Gofly.Jwt
