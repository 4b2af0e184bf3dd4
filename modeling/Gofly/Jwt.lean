import Gofly.Base64
import Gofly.Json
/-! Tokens signed with HS256: a header, a payload of claims and a signature in Base64,
joined by dots. Texts are the bytes of a string; the JSON package and HMAC-SHA256 are
given. -/
namespace Gofly.Jwt
open Base64 ByteReader
open Json

structure Platform where
  json : Json.Package
  hmac : Bytes → Bytes → Bytes

inductive Error where
  | missingCredentials
  | invalidCredentials
  | expiredToken
  | marshal
  | noActiveKey
  | activeKey
  deriving DecidableEq

structure Time where
  sec : Int64
  nsec : Fin 1000000000
  deriving DecidableEq

def Time.unix (t : Time) : Int := t.sec.toInt
def Time.before (t u : Time) : Bool := t.unix < u.unix ∨ t.unix = u.unix ∧ t.nsec < u.nsec
def Time.value (t : Time) : Rat := t.unix + (t.nsec.val : Rat) / 1000000000

structure JwtClaims where
  subject : Bytes := []
  issuer : Bytes := []
  audience : Bytes := []
  expiresAt : Int := 0
  issuedAt : Int := 0
  notBefore : Int := 0
  extra : Map Any := ∅

structure JwtOptions where
  issuer : Bytes := []
  audience : Bytes := []
  now : Time

def dot : UInt8 := 46

def jwtAlgorithmHS256 : Bytes := ascii "HS256"
def alg : Bytes := ascii "alg"
def typ : Bytes := ascii "typ"
def kidName : Bytes := ascii "kid"
def sub : Bytes := ascii "sub"
def iss : Bytes := ascii "iss"
def aud : Bytes := ascii "aud"
def exp : Bytes := ascii "exp"
def iat : Bytes := ascii "iat"
def nbf : Bytes := ascii "nbf"

def claimValues (claims : JwtClaims) : Map Any :=
  let values := claims.extra
  let values := if claims.subject ≠ [] then values.insert sub (.string claims.subject) else values
  let values := if claims.issuer ≠ [] then values.insert iss (.string claims.issuer) else values
  let values := if claims.audience ≠ [] then values.insert aud (.string claims.audience) else values
  let values := if claims.expiresAt > 0 then values.insert exp (.int64 claims.expiresAt) else values
  let values := if claims.issuedAt > 0 then values.insert iat (.int64 claims.issuedAt) else values
  if claims.notBefore > 0 then values.insert nbf (.int64 claims.notBefore) else values

-- a float out of the range of int64 becomes its least value, as on amd64
def jsonNumberInt64 : Option Value → Int
  | some (.number (some v)) =>
    let n := v.num.tdiv v.den
    if -2 ^ 63 ≤ n ∧ n < 2 ^ 63 then n else -2 ^ 63
  | _ => 0

def textOf (value : Option Value) : Bytes := (value.map Value.text).getD []

def claimsOf (raw : Map Value) : JwtClaims where
  subject := textOf (raw.lookup sub)
  issuer := textOf (raw.lookup iss)
  audience := textOf (raw.lookup aud)
  expiresAt := jsonNumberInt64 (raw.lookup exp)
  issuedAt := jsonNumberInt64 (raw.lookup iat)
  notBefore := jsonNumberInt64 (raw.lookup nbf)
  extra := (raw.entries.filter fun p => p.1 ∉ [sub,iss,aud,exp,iat,nbf]).foldl
    (fun extra p => extra.insert p.1 (Any.of p.2)) ∅

def validateClaims (claims : JwtClaims) (opts : JwtOptions) : Option Error :=
  let now := opts.now.unix
  if claims.expiresAt > 0 ∧ now ≥ claims.expiresAt then some .expiredToken
  else if claims.notBefore > 0 ∧ now < claims.notBefore then some .invalidCredentials
  else if opts.issuer ≠ [] ∧ claims.issuer ≠ opts.issuer then some .invalidCredentials
  else if opts.audience ≠ [] ∧ claims.audience ≠ opts.audience then some .invalidCredentials
  else none

section
variable (p : Platform)

def marshalClaims (claims : JwtClaims) : Option Bytes := Json.marshal p.json (claimValues claims)
def unmarshalClaims (data : Bytes) : Option JwtClaims := (Json.unmarshalMap p.json data).map claimsOf

def headerMap (kid : Bytes) : Map Any :=
  let header := (∅ : Map Any).insert alg (.string jwtAlgorithmHS256) |>.insert typ (.string (ascii "JWT"))
  if kid ≠ [] then header.insert kidName (.string kid) else header

def signHS256 (input secret : Bytes) : Bytes := p.hmac secret input

def signJwtWithKid (claims : JwtClaims) (kid secret : Bytes) : Except Error Bytes :=
  if secret = [] then .error .missingCredentials
  else
    match Json.marshal p.json (headerMap kid) with
    | none => .error .marshal
    | some headerData =>
      match marshalClaims p claims with
      | none => .error .marshal
      | some payloadData =>
        let signingInput := Base64.encode headerData ++ dot :: Base64.encode payloadData
        .ok (signingInput ++ dot :: Base64.encode (signHS256 p signingInput secret))

def signJwt (claims : JwtClaims) (secret : Bytes) : Except Error Bytes := signJwtWithKid p claims [] secret
def headerOf (names : List Bytes) (part : Bytes) : Option (Bytes → Bytes) :=
  ((Base64.decode part).bind (Json.unmarshalStruct p.json names)).filter fun header => header alg = jwtAlgorithmHS256

def verifyJwt (token secret : Bytes) (opts : JwtOptions) : Except Error JwtClaims :=
  if secret = [] ∨ token = [] then .error .missingCredentials
  else
    match token.splitOn dot with
    | [header,payload,signature] =>
      if (headerOf p [alg] header).isNone then .error .invalidCredentials
      else
        let want := signHS256 p (header ++ dot :: payload) secret
        if Base64.decode signature ≠ some want then .error .invalidCredentials
        else
          match Base64.decode payload with
          | none => .error .invalidCredentials
          | some payloadData =>
            match unmarshalClaims p payloadData with
            | none => .error .invalidCredentials
            | some claims =>
              match validateClaims claims opts with
              | some err => .error err
              | none => .ok claims
    | _ => .error .invalidCredentials

def kidFromToken (token : Bytes) : Except Error Bytes :=
  if token = [] then .error .missingCredentials
  else
    match token.splitOn dot with
    | [header,_,_] =>
      match headerOf p [alg,kidName] header with
      | none => .error .invalidCredentials
      | some header => .ok (header kidName)
    | _ => .error .invalidCredentials

def made (kid data secret : Bytes) : Bytes :=
  let input := Base64.encode (p.json.write (headerMap kid)) ++ dot :: Base64.encode data
  input ++ dot :: Base64.encode (p.hmac secret input)
end

def payloadOf (token : Bytes) : Option Bytes :=
  match token.splitOn dot with
  | [_,payload,_] => Base64.decode payload
  | _ => none

theorem headerFields (kid) : fieldsOf (headerMap kid) =
    (if kid = [] then [] else [(kidName,Value.string (coerce kid))]) ++
      [(typ,.string (ascii "JWT")),(alg,.string jwtAlgorithmHS256)] := by
  unfold headerMap
  by_cases none : kid = []
  · subst none
    decide +kernel
  rw [if_pos none,if_neg none]
  rfl

theorem headerMarshals (kid) : marshalable (headerMap kid) = true := by
  unfold headerMap
  split <;> rfl

theorem validExact (claims opts) : validateClaims claims opts = none ↔
    (claims.expiresAt ≤ 0 ∨ opts.now.unix < claims.expiresAt) ∧ (claims.notBefore ≤ 0 ∨ claims.notBefore ≤ opts.now.unix) ∧
    (opts.issuer = [] ∨ claims.issuer = opts.issuer) ∧ (opts.audience = [] ∨ claims.audience = opts.audience) := by
  unfold validateClaims
  grind

section
variable {p : Platform} {names : List Bytes} {token secret kid data : Bytes} {opts : JwtOptions} {claims : JwtClaims}

theorem headerBack (kid) (known : names = [alg] ∨ names = [alg,kidName]) :
    ∃ header, headerOf p names (encode (p.json.write (headerMap kid))) = some header ∧
      (kidName ∈ names → header kidName = coerce kid) := by
  obtain ⟨fields,read,perm⟩ := p.json.readWrite (headerMap kid) (headerMarshals kid)
  rw [headerFields] at perm
  have texts : ∀ field ∈ fields, field.2 = .string field.2.text := by
    intro field mem
    have ith := perm.mem_iff.mp mem
    by_cases none : kid = [] <;> simp [none] at ith <;> rcases ith with rfl | rfl | rfl <;> rfl
  obtain ⟨fine,set⟩ := setTexts names texts
  have algNamed : fieldNamed names alg = some alg := by rcases known with rfl | rfl <;> decide
  have typNamed : fieldNamed names typ = none := by rcases known with rfl | rfl <;> decide
  have kidNamed : fieldNamed names kidName = if kidName ∈ names then some kidName else none := by
    rcases known with rfl | rfl <;> decide
  have ne : kidName ≠ alg := by decide
  have algOnly : fields.filter (fun field => fieldNamed names field.1 = some alg) =
      [(alg,Value.string jwtAlgorithmHS256)] := by
    refine List.perm_singleton.mp ((perm.filter _).trans (List.Perm.of_eq ?_))
    by_cases none : kid = [] <;> by_cases ith : kidName ∈ names <;> simp [algNamed,typNamed,kidNamed,ne]
  have kidOnly (ith : kidName ∈ names) : fields.filter (fun field => fieldNamed names field.1 = some kidName) =
        (if kid = [] then none else some (kidName,Value.string (coerce kid))).toList := by
    refine permUnique ((perm.filter _).trans (List.Perm.of_eq ?_))
    by_cases none : kid = [] <;> simp [none,ith,algNamed,typNamed,kidNamed,ne.symm]
  refine ⟨(fields.foldl (setField names) {}).texts,?_,fun ith => ?_⟩
  · rw [headerOf,decodeEncode,Option.bind_some,unmarshalStruct,read]
    simp only [fine,Bool.false_eq_true,if_false,Option.filter_some,set,algOnly]
    rfl
  rw [set,kidOnly ith]
  by_cases none : kid = []
  · subst none
    rfl
  rw [if_neg none]
  rfl

theorem encodeDotless (data) : (encode data).splitOn dot = [encode data] :=
  List.splitOn_eq_singleton fun mem => (encodePlain dot mem).2.2 rfl

theorem madeParts (p kid data secret) : ∃ header sig,
    (made p kid data secret).splitOn dot = [header,encode data,sig] ∧
    header = encode (p.json.write (headerMap kid)) ∧
    decode sig = some (p.hmac secret (header ++ dot :: encode data)) := by
  refine ⟨_,_,?_,rfl,decodeEncode _⟩
  rw [made,List.splitOn_append_cons_self,List.splitOn_append_cons_self,encodeDotless,encodeDotless,encodeDotless]
  rfl

theorem madePayload (p kid data secret) : payloadOf (made p kid data secret) = some data := by
  obtain ⟨header,sig,parts,_⟩ := madeParts p kid data secret
  rw [payloadOf,parts]
  exact decodeEncode data

theorem verifyExact : verifyJwt p token secret opts = .ok claims ↔
    secret ≠ [] ∧ ∃ header payload sig data raw, token.splitOn dot = [header,payload,sig] ∧
      (headerOf p [alg] header).isSome = true ∧
      decode sig = some (p.hmac secret (header ++ dot :: payload)) ∧
      decode payload = some data ∧ unmarshalMap p.json data = some raw ∧
      claims = claimsOf raw ∧ validateClaims claims opts = none := by
  unfold verifyJwt
  constructor
  · intro done
    split at done <;> try contradiction
    rename_i full
    split at done <;> try contradiction
    rename_i header payload sig parts
    split at done <;> try contradiction
    rename_i known
    dsimp only at done
    split at done <;> try contradiction
    rename_i signed
    split at done <;> try contradiction
    rename_i data decoded
    split at done <;> try contradiction
    rename_i got
    split at done <;> try contradiction
    rename_i valid
    obtain ⟨raw,unmarshalled,rfl⟩ := Option.map_eq_some_iff.mp got
    cases done
    refine ⟨fun none => full (.inl none),header,payload,sig,data,raw,parts,?_,not_not.mp signed,
      decoded,unmarshalled,rfl,valid⟩
    exact Option.isSome_iff_ne_none.mpr (by simpa using known)
  rintro ⟨full,header,payload,sig,data,raw,parts,known,signed,decoded,read,rfl,valid⟩
  have some : token ≠ [] := by
    rintro rfl
    simp at parts
  have here : ¬(headerOf p [alg] header).isNone = true := by simpa using Option.isSome_iff_ne_none.mp known
  rw [if_neg (by simp [full,some]),parts]
  simp only [if_neg here,signHS256,signed,ne_eq,not_true_eq_false,if_false,decoded,unmarshalClaims,read,
    Option.map_some,valid]

theorem madeVerified : verifyJwt p (made p kid data secret) secret opts = .ok claims ↔
    secret ≠ [] ∧ ∃ raw, unmarshalMap p.json data = some raw ∧ claims = claimsOf raw ∧
      validateClaims claims opts = none := by
  obtain ⟨header,sig,parts,isHeader,signed⟩ := madeParts p kid data secret
  obtain ⟨fields,known,_⟩ := @headerBack p [alg] kid (.inl rfl)
  rw [← isHeader] at known
  rw [verifyExact]
  refine and_congr_right fun _ => ⟨?_,?_⟩
  · rintro ⟨h,payload,s,d,raw,eq,_,_,decoded,read,rest⟩
    rw [parts] at eq
    cases eq
    rw [decodeEncode] at decoded
    cases decoded
    exact ⟨raw,read,rest⟩
  rintro ⟨raw,read,rest⟩
  exact ⟨header,_,sig,data,raw,parts,by rw [known]; rfl,signed,decodeEncode data,read,rest⟩

theorem signExact : signJwtWithKid p claims kid secret = .ok token ↔
    secret ≠ [] ∧ marshalable (claimValues claims) = true ∧
      token = made p kid (p.json.write (claimValues claims)) secret := by
  unfold signJwtWithKid marshalClaims marshal
  rw [if_pos (headerMarshals kid)]
  by_cases none : secret = []
  · simp [none]
  by_cases fine : marshalable (claimValues claims) = true
  · simp [none,fine,made,signHS256,eq_comm]
  simp [none,fine]
end
end Gofly.Jwt
