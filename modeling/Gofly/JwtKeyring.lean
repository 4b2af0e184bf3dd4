import Gofly.Jwt
import Gofly.Transition
/-! The keyring: an active key to sign with, and the keys that are still trusted. A token is
verified with the secret kept under the kid of its header. -/
namespace Gofly.Jwt
open ByteReader
open Json
open Transition
open Option (filter_some)

structure SigningKey where
  kid : Bytes
  secret : Bytes
  notAfter : Option Time := none
  deriving DecidableEq

structure JwtKeyring where
  active : Bytes
  keys : Map SigningKey

def newJwtKeyring (active : SigningKey) : Except Error JwtKeyring :=
  if active.kid = [] ∨ active.secret = [] then .error .missingCredentials
  else .ok ⟨active.kid,(∅ : Map SigningKey).insert active.kid active⟩

namespace JwtKeyring

def add (kr : JwtKeyring) (key : SigningKey) : Option Error × JwtKeyring :=
  if key.kid = [] ∨ key.secret = [] then (some .missingCredentials,kr)
  else (none,{ kr with keys := kr.keys.insert key.kid key })

def rotate (kr : JwtKeyring) (key : SigningKey) : Option Error × JwtKeyring :=
  if key.kid = [] ∨ key.secret = [] then (some .missingCredentials,kr)
  else (none,⟨key.kid,kr.keys.insert key.kid key⟩)

def remove (kr : JwtKeyring) (kid : Bytes) : Option Error × JwtKeyring :=
  if kid = kr.active then (some .activeKey,kr) else (none,{ kr with keys := kr.keys.erase kid })

def signingKey (kr : JwtKeyring) (now : Time) : Option SigningKey :=
  (kr.keys.lookup kr.active).filter fun key => key.notAfter.all fun notAfter => now.before notAfter
def verifyKey (kr : JwtKeyring) (kid : Bytes) : Option SigningKey := kr.keys.lookup kid

section
variable (p : Platform)

def sign (kr : JwtKeyring) (claims : JwtClaims) (now : Time) : Except Error Bytes :=
  match kr.signingKey now with
  | none => .error .noActiveKey
  | some key => signJwtWithKid p claims key.kid key.secret

def verify (kr : JwtKeyring) (token : Bytes) (opts : JwtOptions) : Except Error JwtClaims :=
  match kidFromToken p token with
  | .error err => .error err
  | .ok kid =>
    if kid = [] then .error .invalidCredentials
    else
      match kr.verifyKey kid with
      | none => .error .invalidCredentials
      | some key => verifyJwt p token key.secret opts
end
end JwtKeyring

inductive Act where
  | add (key : SigningKey)
  | rotate (key : SigningKey)
  | remove (kid : Bytes)
  deriving DecidableEq

def step (kr : JwtKeyring) : Act → Option JwtKeyring
  | .add key => some (kr.add key).2
  | .rotate key => some (kr.rotate key).2
  | .remove kid => some (kr.remove kid).2

/-- The kid of a key that comes in is UTF-8. -/
def TextKid (_ : JwtKeyring) : Act → Prop
  | .add key | .rotate key => Json.coerce key.kid = key.kid
  | .remove _ => True

def Keeps (key : SigningKey) (_ : JwtKeyring) : Act → Prop
  | .add other | .rotate other => other.kid = key.kid → other.secret = key.secret
  | .remove kid => kid ≠ key.kid

structure Sound (kr : JwtKeyring) : Prop where
  active : (kr.keys.lookup kr.active).isSome = true
  keys : ∀ kid key, kr.keys.lookup kid = some key → key.kid = kid ∧ kid ≠ [] ∧ key.secret ≠ []

theorem insertSeen {keys : Map SigningKey} (seen : (keys.insert key.kid key).lookup kid = some found) :
    kid = key.kid ∧ found = key ∨ keys.lookup kid = some found := by
  by_cases eq : kid = key.kid
  · rw [eq,AList.lookup_insert] at seen
    exact .inl ⟨eq,(Option.some.inj seen).symm⟩
  rw [AList.lookup_insert_ne eq] at seen
  exact .inr seen

theorem eraseSeen {keys : Map SigningKey} (seen : (keys.erase gone).lookup kid = some found) :
    keys.lookup kid = some found := by
  by_cases eq : kid = gone
  · rw [eq,AList.lookup_erase] at seen
    cases seen
  rwa [AList.lookup_erase_ne eq] at seen

theorem stepExact (ran : step kr a = some next) : next = kr ∨
    (∃ key active, (a = .add key ∨ a = .rotate key) ∧ key.kid ≠ [] ∧ key.secret ≠ [] ∧
      (active = key.kid ∨ active = kr.active) ∧ next = ⟨active,kr.keys.insert key.kid key⟩) ∨
    ∃ kid, a = .remove kid ∧ kid ≠ kr.active ∧ next = ⟨kr.active,kr.keys.erase kid⟩ := by
  cases a with
  | add key =>
    cases ran
    unfold JwtKeyring.add
    split
    · exact .inl rfl
    rename_i full
    rw [not_or] at full
    exact .inr (.inl ⟨key,kr.active,.inl rfl,full.1,full.2,.inr rfl,rfl⟩)
  | rotate key =>
    cases ran
    unfold JwtKeyring.rotate
    split
    · exact .inl rfl
    rename_i full
    rw [not_or] at full
    exact .inr (.inl ⟨key,key.kid,.inr rfl,full.1,full.2,.inl rfl,rfl⟩)
  | remove kid =>
    cases ran
    unfold JwtKeyring.remove
    split
    · exact .inl rfl
    exact .inr (.inr ⟨kid,rfl,‹_›,rfl⟩)

theorem stepSound (kr a next) (sound : Sound kr) (ran : step kr a = some next) : Sound next := by
  rcases stepExact ran with rfl | ⟨key,active,_,full,secret,known,rfl⟩ | ⟨gone,_,other,rfl⟩
  · exact sound
  · constructor
    · by_cases eq : active = key.kid
      · rw [eq,AList.lookup_insert]
        rfl
      · rw [AList.lookup_insert_ne eq,known.resolve_left eq]
        exact sound.active
    · intro kid got seen
      rcases insertSeen seen with ⟨rfl,rfl⟩ | before
      · exact ⟨rfl,full,secret⟩
      exact sound.keys kid got before
  constructor
  · rw [AList.lookup_erase_ne other.symm]
    exact sound.active
  exact fun kid got seen => sound.keys kid got (eraseSeen seen)

theorem startSound (started : newJwtKeyring key = .ok kr) : Sound kr := by
  unfold newJwtKeyring at started
  split at started <;> cases started
  rename_i full
  rw [not_or] at full
  refine ⟨by rw [AList.lookup_insert]; rfl,fun kid got seen => ?_⟩
  rcases insertSeen seen with ⟨rfl,rfl⟩ | before
  · exact ⟨rfl,full.1,full.2⟩
  cases before

theorem fieldNamedAlg (key) : fieldNamed [alg] key =
    (fieldNamed [alg,kidName] key).filter fun name => name = alg := by
  have ne : kidName ≠ alg := by decide
  have folded : foldCase kidName = kidName := by decide
  simp only [fieldNamed,List.find?_cons]
  by_cases isKid : kidName = key
  · rw [← isKid,folded]
    simp [filter_some,ne,ne.symm]
  rw [decide_eq_false isKid]
  cases decide (alg = key) <;> cases decide (alg = foldCase key) <;> cases decide (kidName = foldCase key) <;>
    simp [filter_some,ne]

theorem setAlgField (field) (fine : t.failed = false → s.failed = false) (eq : s.texts alg = t.texts alg) :
    ((setField [alg,kidName] t field).failed = false → (setField [alg] s field).failed = false) ∧
    (setField [alg] s field).texts alg = (setField [alg,kidName] t field).texts alg := by
  unfold setField
  rw [fieldNamedAlg]
  cases named : fieldNamed [alg,kidName] field.1 with
  | none => exact ⟨fine,eq⟩
  | some name =>
    by_cases isAlg : name = alg
    · rw [isAlg,filter_some]
      cases field.2 with
      | null => exact ⟨fine,eq⟩
      | string => exact ⟨fine,by simp⟩
      | _ => exact ⟨nofun,eq⟩
    rw [filter_some,decide_eq_false isAlg]
    cases field.2 with
    | null => exact ⟨fine,eq⟩
    | string => exact ⟨fine,eq.trans (Function.update_of_ne (Ne.symm isAlg) _ _).symm⟩
    | _ => exact ⟨nofun,eq⟩

theorem setAlg (list : List (Bytes × Value)) {s t} (fine : t.failed = false → s.failed = false)
    (eq : s.texts alg = t.texts alg) :
    ((list.foldl (setField [alg,kidName]) t).failed = false → (list.foldl (setField [alg]) s).failed = false) ∧
    (list.foldl (setField [alg]) s).texts alg = (list.foldl (setField [alg,kidName]) t).texts alg := by
  induction list generalizing s t with
  | nil => exact ⟨fine,eq⟩
  | cons field rest ih =>
    obtain ⟨still,also⟩ := setAlgField field fine eq
    exact ih still also

theorem headerFewer (read : headerOf p [alg,kidName] header = some fields) : (headerOf p [alg] header).isSome = true := by
  obtain ⟨got,isAlg⟩ := Option.filter_eq_some_iff.mp read
  obtain ⟨data,decoded,unmarshalled⟩ := Option.bind_eq_some_iff.mp got
  have fewer : ∃ short, unmarshalStruct p.json [alg] data = some short ∧ short alg = fields alg := by
    unfold unmarshalStruct at unmarshalled ⊢
    split at unmarshalled
    · cases unmarshalled
      exact ⟨_,rfl,rfl⟩
    · rename_i list obj
      obtain ⟨fine,eq⟩ := @setAlg list {} {} id rfl
      dsimp only at unmarshalled ⊢
      split at unmarshalled <;> cases unmarshalled
      rename_i passed
      exact ⟨_,if_neg (by simp [fine (by simpa using passed)]),eq⟩
    cases unmarshalled
  obtain ⟨short,again,eq⟩ := fewer
  rw [headerOf,decoded,Option.bind_some,again,filter_some,eq,isAlg]
  rfl

def MadeWith (p : Platform) (token secret : Bytes) : Prop :=
  ∃ header payload signature, token.splitOn dot = [header,payload,signature] ∧
    Base64.decode signature = some (p.hmac secret (header ++ dot :: payload))

def ClaimsValid (p : Platform) (token : Bytes) (opts : JwtOptions) (claims : JwtClaims) : Prop :=
  ∃ data raw, payloadOf token = some data ∧ Json.unmarshalMap p.json data = some raw ∧ claims = claimsOf raw ∧
    validateClaims claims opts = none

section
variable {kr later : JwtKeyring}
  {claims : JwtClaims}

theorem kidExact : kidFromToken p token = .ok kid ↔ ∃ header payload sig fields,
    token.splitOn dot = [header,payload,sig] ∧ headerOf p [alg,kidName] header = some fields ∧
      fields kidName = kid := by
  unfold kidFromToken
  constructor
  · intro done
    split at done <;> try contradiction
    split at done <;> try contradiction
    rename_i header payload sig parts
    split at done <;> try contradiction
    rename_i fields read
    exact ⟨header,payload,sig,fields,parts,read,Except.ok.inj done⟩
  rintro ⟨header,payload,sig,fields,parts,read,rfl⟩
  have full : token ≠ [] := by
    rintro rfl
    simp at parts
  rw [if_neg full,parts]
  simp only [read]

theorem verifyWith (full : secret ≠ []) (known : kidFromToken p token = .ok kid) :
    verifyJwt p token secret opts = .ok claims ↔ MadeWith p token secret ∧ ClaimsValid p token opts claims := by
  obtain ⟨header,payload,sig,fields,parts,read,_⟩ := kidExact.mp known
  rw [verifyExact]
  constructor
  · rintro ⟨_,h,m,s,data,raw,eq,_,signed,decoded,unmarshalled,rest⟩
    refine ⟨⟨h,m,s,eq,signed⟩,data,raw,?_,unmarshalled,rest⟩
    rw [payloadOf,eq]
    exact decoded
  rintro ⟨⟨h,m,s,eq,signed⟩,data,raw,decoded,unmarshalled,rest⟩
  rw [parts] at eq
  cases eq
  rw [payloadOf,parts] at decoded
  exact ⟨full,header,payload,sig,data,raw,parts,headerFewer read,signed,decoded,unmarshalled,rest⟩

theorem ringVerify (sound : Sound kr) : kr.verify p token opts = .ok claims ↔
    ∃ kid key, kidFromToken p token = .ok kid ∧ kr.keys.lookup kid = some key ∧ MadeWith p token key.secret ∧
      ClaimsValid p token opts claims := by
  unfold JwtKeyring.verify
  constructor
  · intro done
    split at done <;> try contradiction
    rename_i kid known
    split at done <;> try contradiction
    split at done <;> try contradiction
    rename_i key got
    exact ⟨kid,key,known,got,(verifyWith (sound.keys kid key got).2.2 known).mp done⟩
  rintro ⟨kid,key,known,got,made⟩
  obtain ⟨_,full,secret⟩ := sound.keys kid key got
  rw [known]
  simp only [if_neg full,JwtKeyring.verifyKey,got]
  exact (verifyWith secret known).mpr made

theorem madeWithOnly (injective : ∀ k m l n, p.hmac k m = p.hmac l n → k = l ∧ m = n)
    (made : MadeWith p token secret) (also : MadeWith p token other) : secret = other := by
  obtain ⟨header,payload,sig,parts,signed⟩ := made
  obtain ⟨h,m,s,eq,again⟩ := also
  rw [parts] at eq
  cases eq
  exact (injective _ _ _ _ (Option.mem_unique signed again)).1

theorem madeKid (p kid data secret) : kidFromToken p (made p kid data secret) = .ok (coerce kid) := by
  obtain ⟨header,sig,parts,isHeader,_⟩ := madeParts p kid data secret
  obtain ⟨fields,read,isKid⟩ := @headerBack p [alg,kidName] kid (.inr rfl)
  exact kidExact.mpr ⟨header,_,sig,fields,parts,isHeader ▸ read,isKid (by simp)⟩

theorem madeMadeWith (p kid data secret) : MadeWith p (made p kid data secret) secret := by
  obtain ⟨header,sig,parts,_,signed⟩ := madeParts p kid data secret
  exact ⟨header,_,sig,parts,signed⟩

theorem signedExact (done : kr.sign p claims now = .ok token) : ∃ key data,
    kr.keys.lookup kr.active = some key ∧ token = made p key.kid data key.secret := by
  unfold JwtKeyring.sign at done
  split at done <;> try contradiction
  rename_i key signing
  obtain ⟨_,_,rfl⟩ := signExact.mp done
  exact ⟨key,_,(Option.filter_eq_some_iff.mp signing).1,rfl⟩

def Kept (kid secret : Bytes) (kr : JwtKeyring) : Prop := ∃ key, kr.keys.lookup kid = some key ∧ key.secret = secret

theorem stepKept (kr a next) (kept : Kept key.kid key.secret kr) (keeps : Keeps key kr a)
    (ran : step kr a = some next) : Kept key.kid key.secret next := by
  obtain ⟨got,seen,equal⟩ := kept
  rcases stepExact ran with rfl | ⟨other,active,came,_,_,_,rfl⟩ | ⟨gone,rfl,_,rfl⟩
  · exact ⟨got,seen,equal⟩
  · by_cases here : key.kid = other.kid
    · refine ⟨other,by rw [here,AList.lookup_insert],?_⟩
      rcases came with rfl | rfl <;> exact keeps here.symm
    · exact ⟨got,by rw [AList.lookup_insert_ne here,seen],equal⟩
  exact ⟨got,by rw [AList.lookup_erase_ne keeps.symm,seen],equal⟩

def Texts (kr : JwtKeyring) : Prop := ∀ kid key, kr.keys.lookup kid = some key → Json.coerce kid = kid

theorem stepTexts (kr a next) (texts : Texts kr) (fits : TextKid kr a)
    (ran : step kr a = some next) : Texts next := by
  intro kid got seen
  rcases stepExact ran with rfl | ⟨other,active,came,_,_,_,rfl⟩ | ⟨gone,_,_,rfl⟩
  · exact texts kid got seen
  · rcases insertSeen seen with ⟨rfl,_⟩ | before
    · rcases came with rfl | rfl <;> exact fits
    · exact texts kid got before
  exact texts kid got (eraseSeen seen)

theorem startTexts (started : newJwtKeyring key = .ok kr) (text : coerce key.kid = key.kid) : Texts kr := by
  intro kid got seen
  unfold newJwtKeyring at started
  split at started <;> cases started
  rcases insertSeen seen with ⟨rfl,_⟩ | before
  · exact text
  cases before

theorem laterVerified (sound : Sound kr) (texts : Texts kr) (done : kr.sign p claims now = .ok token) :
    ∃ key, kr.keys.lookup kr.active = some key ∧ ∀ bs later, Trace step (Keeps key) kr bs later →
      ∀ opts back, later.verify p token opts = .ok back ↔ ClaimsValid p token opts back := by
  obtain ⟨key,data,signing,rfl⟩ := signedExact done
  have isKid := (sound.keys _ _ signing).1
  have text : coerce key.kid = key.kid := isKid ▸ texts _ _ signing
  refine ⟨key,signing,fun bs later ran opts back => ?_⟩
  have sound := traceInvariant (fun kr a next sound _ moved => stepSound kr a next sound moved) ran sound
  obtain ⟨got,seen,secret⟩ := traceInvariant stepKept ran ⟨key,isKid ▸ signing,rfl⟩
  rw [ringVerify sound]
  constructor
  · rintro ⟨_,_,_,_,_,valid⟩
    exact valid
  intro valid
  exact ⟨key.kid,got,(madeKid p key.kid data key.secret).trans (congrArg _ text),seen,secret ▸ madeMadeWith p key.kid data key.secret,
    valid⟩

/-- The active key is there, a token is accepted exactly if signed with the secret now kept under
its kid, and stays so with its key. -/
theorem ringTokensVerified (injective : ∀ k m l n, p.hmac k m = p.hmac l n → k = l ∧ m = n) {first : SigningKey}
    {start : JwtKeyring} {as : List Act} (started : newJwtKeyring first = .ok start)
    (text : Json.coerce first.kid = first.kid) (ran : Trace step TextKid start as kr) :
    (kr.keys.lookup kr.active).isSome = true ∧
    (∀ token opts claims, kr.verify p token opts = .ok claims ↔ ∃ kid key, kidFromToken p token = .ok kid ∧
      kr.keys.lookup kid = some key ∧ MadeWith p token key.secret ∧ ClaimsValid p token opts claims) ∧
    (∀ token secret other, MadeWith p token secret → MadeWith p token other → secret = other) ∧
    ∀ claims now token, kr.sign p claims now = .ok token → ∃ key, kr.keys.lookup kr.active = some key ∧
      ∀ bs later, Trace step (Keeps key) kr bs later →
        ∀ opts back, later.verify p token opts = .ok back ↔ ClaimsValid p token opts back := by
  have sound := traceInvariant (fun kr a next sound _ moved => stepSound kr a next sound moved) ran (startSound started)
  have texts := traceInvariant stepTexts ran (startTexts started text)
  exact ⟨sound.active,fun _ _ _ => ringVerify sound,fun _ _ _ => madeWithOnly injective,
    fun _ _ _ => laterVerified sound texts⟩
end

def pairing : Platform := ⟨Json.numbered,fun key message => Json.numberText (Encodable.encode (key,message))⟩

theorem pairingInjective : ∀ k m l n, pairing.hmac k m = pairing.hmac l n → k = l ∧ m = n := by
  intro k m l n eq
  have numbers := congrArg (fun text => Nat.ofDigits 256 (text.map UInt8.toNat)) eq
  simp only [pairing,numberTextBack] at numbers
  exact Prod.mk.inj (Encodable.encode_injective numbers)

theorem firstSigned (kid) (full : kid ≠ []) : ∃ start, newJwtKeyring ⟨kid,[1],none⟩ = .ok start ∧
    start.keys = (∅ : Map SigningKey).insert kid ⟨kid,[1],none⟩ ∧
    start.sign pairing {} ⟨0,0⟩ = .ok (made pairing kid (pairing.json.write (claimValues {})) [1]) := by
  refine ⟨⟨kid,(∅ : Map SigningKey).insert kid ⟨kid,[1],none⟩⟩,if_neg (by simp [full]),rfl,?_⟩
  have signing : ((∅ : Map SigningKey).insert kid ⟨kid,[1],none⟩).lookup kid = some ⟨kid,[1],none⟩ := AList.lookup_insert _
  rw [JwtKeyring.sign,JwtKeyring.signingKey,signing]
  exact signExact.mpr ⟨List.cons_ne_nil _ _,by decide +kernel,rfl⟩

theorem rotatedVerified : ∃ start kr token, newJwtKeyring ⟨ascii "a",[1],none⟩ = .ok start ∧
    start.sign pairing {} ⟨0,0⟩ = .ok token ∧ run step start [.rotate ⟨ascii "b",[2],none⟩] = some kr ∧
    ∃ claims, kr.verify pairing token ⟨[],[],⟨0,0⟩⟩ = .ok claims := by
  obtain ⟨start,started,keys,signed⟩ := firstSigned (ascii "a") (by decide)
  refine ⟨start,_,_,started,signed,rfl,?_⟩
  obtain ⟨_,_,_,stays⟩ := ringTokensVerified pairingInjective started (by decide +kernel) (.done start)
  obtain ⟨key,active,verified⟩ := stays {} ⟨0,0⟩ _ signed
  have isFirst : key.kid = ascii "a" := by
    rw [keys] at active
    rcases @insertSeen ⟨ascii "a",[1],none⟩ _ _ _ active with ⟨_,rfl⟩ | before
    · rfl
    cases before
  obtain ⟨raw,lookup,read⟩ := @Json.unmarshalWritten (claimValues {}) pairing.json (by decide +kernel)
  refine ⟨claimsOf raw,(verified [.rotate ⟨ascii "b",[2],none⟩] _ (.more ?_ rfl (.done _)) _ _).mpr ⟨_,raw,madePayload _ _ _ _,read,rfl,?_⟩⟩
  · exact fun same => absurd (same.trans isFirst) (by decide)
  have none : ∀ name : Bytes, (∀ b ∈ name, b < 0x80) → raw.lookup name = none := fun name plain => lookup name plain
  refine (validExact _ _).mpr ⟨.inl ?_,.inl ?_,.inl rfl,.inl rfl⟩
  · rw [claimsOf,none exp (by simp [exp,ascii])]
    rfl
  rw [claimsOf,none nbf (by simp [nbf,ascii])]
  rfl

theorem strangeKidLost : ∃ start token, newJwtKeyring ⟨[0xFF],[1],none⟩ = .ok start ∧
    (∀ k m l n, pairing.hmac k m = pairing.hmac l n → k = l ∧ m = n) ∧
    start.sign pairing {} ⟨0,0⟩ = .ok token ∧ ∀ opts, start.verify pairing token opts = .error .invalidCredentials := by
  obtain ⟨start,started,keys,signed⟩ := firstSigned [0xFF] (by decide)
  refine ⟨start,_,started,pairingInjective,signed,fun opts => ?_⟩
  have missing : start.verifyKey (Json.coerce [0xFF]) = none := by
    rw [JwtKeyring.verifyKey,keys]
    decide +kernel
  rw [JwtKeyring.verify,madeKid]
  simp only [missing,ite_self]

end Gofly.Jwt
