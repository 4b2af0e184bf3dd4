import Gofly.Decimal
import Gofly.Idempotency
import Gofly.Text
import Gofly.Transition
/-! The response cache in front of a language model provider. -/
namespace Gofly.LlmCache
open Idempotency
open Decimal Roster Transition

structure Message where
  role : Bytes
  content : Bytes
  deriving DecidableEq

structure Request where
  provider : Bytes
  model : Bytes
  prompt : Bytes
  messages : List Message
  maxOutputTokens : Int
  deriving DecidableEq

structure Usage where
  inputTokens : Int
  outputTokens : Int
  totalTokens : Int
  deriving DecidableEq

structure Response where
  text : Bytes
  usage : Usage
  deriving DecidableEq

structure Produced where
  origin : Request
  response : Response
  deriving DecidableEq

structure Entry where
  produced : Produced
  expires : Int
  created : Int
  deriving DecidableEq

structure Config where
  maxEntries : Nat
  ttl : Int
  holds : 0 < maxEntries
  lasts : 0 < ttl

def defaultConfig : Config := ⟨256,300000000000,by decide,by decide⟩

-- "%s\x00%s\x00%s\x00%d"
def cacheText (req : Request) : Bytes := Text.join 0 [req.provider,req.model,req.prompt,itoa req.maxOutputTokens]

def cacheKey (sum : Bytes → Bytes) (req : Request) : Bytes := bytes "llm-cache-" ++ encodeToString (sum (cacheText req))

inductive Phase where
  | direct
  | look
  | purge
  | elect
  | await
  | wait (ch : Nat)
  | fetch
  | store (resp : Response)
  | signal (result : Except String Response)
  | close (ch : Nat) (result : Except String Response)
  | panicked
  | done (result : Except String Produced)

structure Call where
  request : Request
  phase : Phase

structure World where
  now : Int
  entries : List (Bytes × Entry)
  inflight : Bytes → Option Nat
  closed : List Bool
  calls : List Call

inductive Act where
  | tick (d : Nat)
  | complete (disabled : Bool) (req : Request)
  | look (i : Nat)
  | purge (i : Nat)
  | elect (i : Nat)
  | await (i : Nat)
  | wake (i : Nat)
  | cancel (i : Nat) (err : String)
  | answer (i : Nat) (result : Except String Response)
  | store (i : Nat) (oldest : Bytes)
  | signal (i : Nat)
  | close (i : Nat)

def start (now : Int) : World := ⟨now,[],fun _ => none,[],[]⟩
def isOldest (entries : List (Bytes × Entry)) (key : Bytes) : Bool :=
  entries.any fun e => e.1 = key && entries.all fun other => e.2.created ≤ other.2.created

def evictExpired (config : Config) (now : Int) (entries : List (Bytes × Entry)) : List (Bytes × Entry) :=
  if config.maxEntries ≤ entries.length then entries.filter fun e => now ≤ e.2.expires else entries

def put (entries : List (Bytes × Entry)) (key : Bytes) (entry : Entry) : List (Bytes × Entry) :=
  entries.filter (fun e => e.1 ≠ key) ++ [(key,entry)]

def set (config : Config) (now : Int) (entries : List (Bytes × Entry)) (oldest key : Bytes) (produced : Produced) :
    Option (List (Bytes × Entry)) :=
  let valid := evictExpired config now entries
  let entry : Entry := ⟨produced,now + config.ttl,now⟩
  if config.maxEntries ≤ valid.length then
    if isOldest valid oldest then some (put (valid.filter fun e => e.1 ≠ oldest) key entry) else none
  else some (put valid key entry)

section
variable (sum : Bytes → Bytes) (config : Config)

namespace World

def at_ (w : World) (i : Nat) (call : Call) (phase : Phase) : World := { w with calls := w.calls.set i { call with phase } }

def look (w : World) (i : Nat) (call : Call) : World :=
  match w.entries.lookup (cacheKey sum call.request) with
  | none => w.at_ i call .elect
  | some entry => w.at_ i call (if entry.expires < w.now then .purge else .done (.ok entry.produced))

def purge (w : World) (i : Nat) (call : Call) : World :=
  { w.at_ i call .elect with entries := w.entries.filter fun e => e.1 ≠ cacheKey sum call.request }

def elect (w : World) (i : Nat) (call : Call) : World :=
  let key := cacheKey sum call.request
  if (w.inflight key).all fun ch => w.closed[ch]? = some true then
    { w.at_ i call .fetch with
      inflight := Function.update w.inflight key (some w.closed.length),closed := w.closed ++ [false] }
  else w.at_ i call .await

def await (w : World) (i : Nat) (call : Call) : World :=
  match w.inflight (cacheKey sum call.request) with
  | none => w.at_ i call .look
  | some ch => w.at_ i call (.wait ch)

def answer (w : World) (i : Nat) (call : Call) (result : Except String Response) : World :=
  match result with
  | .ok resp => w.at_ i call (.store resp)
  | .error err => w.at_ i call (.signal (.error err))

def returned (call : Call) (result : Except String Response) : Phase := .done (result.map (⟨call.request,·⟩))

def signal (w : World) (i : Nat) (call : Call) (result : Except String Response) : World :=
  match w.inflight (cacheKey sum call.request) with
  | none => w.at_ i call (returned call result)
  | some ch => w.at_ i call (.close ch result)

def close (w : World) (i : Nat) (call : Call) (ch : Nat) (result : Except String Response) : World :=
  if w.closed[ch]? = some false then { w.at_ i call (returned call result) with closed := w.closed.set ch true }
  else w.at_ i call .panicked

end World

def turn (w : World) (i : Nat) (call : Call) : Act → Phase → Option World
  | .look _,.look => some (w.look sum i call)
  | .purge _,.purge => some (w.purge sum i call)
  | .elect _,.elect => some (w.elect sum i call)
  | .await _,.await => some (w.await sum i call)
  | .wake _,.wait ch => if w.closed[ch]? = some true then some (w.at_ i call .look) else none
  | .cancel _ err,.wait _ => some (w.at_ i call (.done (.error err)))
  | .answer _ result,.direct => some (w.at_ i call (World.returned call result))
  | .answer _ result,.fetch => some (w.answer i call result)
  | .store _ oldest,.store resp =>
    (set config w.now w.entries oldest (cacheKey sum call.request) ⟨call.request,resp⟩).map fun entries =>
      { w.at_ i call (.signal (.ok resp)) with entries }
  | .signal _,.signal result => some (w.signal sum i call result)
  | .close _,.close ch result => some (w.close i call ch result)
  | _,_ => none

def Act.caller : Act → Option Nat
  | .tick _ | .complete _ _ => none
  | .look i | .purge i | .elect i | .await i | .wake i | .cancel i _ | .answer i _ | .store i _ | .signal i | .close i => some i

def step (w : World) (a : Act) : Option World :=
  match a with
  | .tick d => some { w with now := w.now + d }
  | .complete disabled req => some { w with calls := w.calls ++ [⟨req,if disabled then .direct else .look⟩] }
  | a => a.caller.bind fun i => w.calls[i]?.bind fun call => turn sum config w i call a call.phase
end

def pieces (req : Request) : List Bytes := [req.provider,req.model,req.prompt].flatMap (List.splitOn 0)

theorem itoaWhole (n) : (itoa n).splitOn 0 = [itoa n] := by
  refine List.splitOn_eq_singleton fun mem => ?_
  have bound := itoaPlain mem
  contradiction

theorem cacheTextSame : cacheText r = cacheText s ↔ pieces r = pieces s ∧ r.maxOutputTokens = s.maxOutputTokens := by
  have cut : ∀ req : Request, [req.provider,req.model,req.prompt,itoa req.maxOutputTokens].flatMap (List.splitOn 0) =
      pieces req ++ [itoa req.maxOutputTokens] := by
    simp [pieces,itoaWhole]
  rw [cacheText,cacheText,Text.joinSame 0 (by simp) (by simp),cut,cut]
  constructor
  · intro eq
    obtain ⟨front,back⟩ := List.append_inj' eq rfl
    exact ⟨front,itoaDistinct (List.singleton_inj.mp back)⟩
  rintro ⟨front,tokens⟩
  rw [front,tokens]

theorem cacheKeySame (injective : Function.Injective sum) :
    cacheKey sum r = cacheKey sum s ↔ pieces r = pieces s ∧ r.maxOutputTokens = s.maxOutputTokens := by
  rw [← cacheTextSame]
  refine ⟨fun eq => ?_,fun eq => by rw [cacheKey,cacheKey,eq]⟩
  exact injective (encodeExact (List.append_cancel_left eq))

section
variable {sum : Bytes → Bytes} {config : Config} {w next : World} {i : Nat} {call : Call}

structure Kept (sum : Bytes → Bytes) (asked : Request → Prop) (w : World) : Prop where
  entries : ∀ e ∈ w.entries, asked e.2.produced.origin ∧ cacheKey sum e.2.produced.origin = e.1
  calls : ∀ call ∈ w.calls, asked call.request ∧
    ∀ p, call.phase = .done (.ok p) → asked p.origin ∧ cacheKey sum p.origin = cacheKey sum call.request

theorem lookupMember {entries : List (Bytes × Entry)} (got : entries.lookup key = some entry) :
    (key,entry) ∈ entries := by
  obtain ⟨old,after,rfl,_⟩ := List.lookup_eq_some_iff.mp got
  simp

theorem atKept (kept : Kept sum asked w) (mem : call ∈ w.calls)
    (fine : ∀ p, phase = .done (.ok p) → asked p.origin ∧ cacheKey sum p.origin = cacheKey sum call.request) :
    Kept sum asked (w.at_ i call phase) := by
  refine ⟨kept.entries,fun other seen => ?_⟩
  rcases List.mem_or_eq_of_mem_set seen with old | rfl
  · exact kept.calls other old
  exact ⟨(kept.calls call mem).1,fine⟩

theorem returnedFine (kept : Kept sum asked w) (mem : call ∈ w.calls) (result) :
    ∀ p, World.returned call result = .done (.ok p) → asked p.origin ∧ cacheKey sum p.origin = cacheKey sum call.request := by
  intro p eq
  cases result with
  | error => cases eq
  | ok =>
    cases eq
    exact ⟨(kept.calls call mem).1,rfl⟩

theorem putMember (seen : e ∈ put entries key entry) : e ∈ entries ∨ e = (key,entry) := by
  rcases addMem seen with old | new
  · exact .inl (List.mem_filter.mp old).1
  exact .inr (new)

theorem evictMember (seen : e ∈ evictExpired config now entries) : e ∈ entries := by
  unfold evictExpired at seen
  split at seen
  · exact (List.mem_filter.mp seen).1
  exact seen

theorem setMember (stored : set config now entries oldest key produced = some after) (seen : e ∈ after) :
    e ∈ entries ∨ e = (key,⟨produced,now + config.ttl,now⟩) := by
  simp only [set] at stored
  split at stored
  · split at stored <;> cases stored
    exact (putMember seen).imp_left fun old => evictMember (List.mem_filter.mp old).1
  cases stored
  exact (putMember seen).imp_left evictMember

theorem turnKept (kept : Kept sum asked w) (mem : call ∈ w.calls)
    (ran : turn sum config w i call a phase = some next) : Kept sum asked next := by
  have quiet : ∀ phase, (∀ p, phase ≠ .done (.ok p)) → Kept sum asked (w.at_ i call phase) :=
    fun phase none => atKept kept mem fun p eq => absurd eq (none p)
  unfold turn at ran
  split at ran <;> try contradiction
  · cases ran
    unfold World.look
    split
    · exact quiet .elect nofun
    rename_i got
    refine atKept kept mem fun p eq => ?_
    split at eq
    · contradiction
    cases eq
    exact kept.entries _ (lookupMember got)
  · cases ran
    exact ⟨fun e seen => kept.entries e (List.mem_filter.mp seen).1,(quiet .elect nofun).calls⟩
  · cases ran
    simp only [World.elect]
    split
    · exact ⟨kept.entries,(quiet .fetch nofun).calls⟩
    exact quiet .await nofun
  · cases ran
    unfold World.await
    split
    · exact quiet .look nofun
    exact quiet (.wait _) nofun
  · split at ran <;> cases ran
    exact quiet .look nofun
  · cases ran
    exact quiet (.done (.error _)) nofun
  · cases ran
    exact atKept kept mem (returnedFine kept mem _)
  · cases ran
    unfold World.answer
    split
    · exact quiet (.store _) nofun
    exact quiet (.signal _) nofun
  · obtain ⟨entries,stored,rfl⟩ := Option.map_eq_some_iff.mp ran
    refine ⟨fun e seen => ?_,(quiet (.signal _) nofun).calls⟩
    rcases setMember stored seen with old | rfl
    · exact kept.entries e old
    exact ⟨(kept.calls call mem).1,rfl⟩
  · cases ran
    unfold World.signal
    split
    · exact atKept kept mem (returnedFine kept mem _)
    exact quiet (.close _ _) nofun
  cases ran
  unfold World.close
  split
  · exact ⟨kept.entries,(atKept kept mem (returnedFine kept mem _)).calls⟩
  exact quiet .panicked nofun

def From (asked : Request → Prop) (_ : World) : Act → Prop
  | .complete _ req => asked req
  | _ => True

theorem stepKept (w a next) (kept : Kept sum asked w) (fits : From asked w a)
    (ran : step sum config w a = some next) : Kept sum asked next := by
  have called : ∀ {i}, (w.calls[i]?.bind fun call => turn sum config w i call a call.phase) = some next → Kept sum asked next := by
    intro i ran
    obtain ⟨call,got,ran⟩ := Option.bind_eq_some_iff.mp ran
    exact turnKept kept (List.mem_of_getElem? got) ran
  cases a with
  | tick =>
    cases ran
    exact { kept with }
  | complete disabled =>
    cases ran
    refine ⟨kept.entries,fun call seen => ?_⟩
    rcases addMem seen with old | new
    · exact kept.calls call old
    rw [new]
    refine ⟨fits,fun p eq => ?_⟩
    cases disabled <;> cases eq
  | look | purge | elect | await | wake | cancel | answer | store | signal | close => exact called ran

def Unmixed (w : World) : Prop := ∀ call ∈ w.calls, ∀ p, call.phase = .done (.ok p) → p.origin = call.request

/-- No two requests have the same pieces and the same number of tokens. -/
def Apart (asked : Request → Prop) : Prop :=
  ∀ r s, asked r → asked s → pieces r = pieces s → r.maxOutputTokens = s.maxOutputTokens → r = s

def served (r s : Request) (resp : Response) : List Act :=
  [.complete false r,.look 0,.elect 0,.answer 0 (.ok resp),.store 0 [],.signal 0,.close 0,.complete false s,.look 1]

theorem setFirst (config now key p) : set config now [] [] key p = some [(key,⟨p,now + config.ttl,now⟩)] := by
  have some := config.holds
  simp [set,evictExpired,put,some.ne']

theorem signalFound (got : w.inflight (cacheKey sum call.request) = some ch) :
    w.signal sum i call result = w.at_ i call (.close ch result) := by
  rw [World.signal,got]

theorem lookFresh (got : w.entries.lookup (cacheKey sum call.request) = some entry)
    (lasts : ¬entry.expires < w.now) : w.look sum i call = w.at_ i call (.done (.ok entry.produced)) := by
  rw [World.look,got]
  simp only [lasts,↓reduceIte]

theorem servedOther (now) {r s} (resp) (eq : cacheKey sum r = cacheKey sum s)
    (first : asked r) (second : asked s) : ∃ w, Trace (step sum config) (From asked) (start now) (served r s resp) w ∧
      ∃ call ∈ w.calls, call.request = s ∧ call.phase = .done (.ok ⟨r,resp⟩) := by
  let key := cacheKey sum r
  let inflight : Bytes → Option Nat := Function.update (fun _ => none) key (some 0)
  let entries : List (Bytes × Entry) := [(key,⟨⟨r,resp⟩,now + config.ttl,now⟩)]
  have mine : inflight key = some 0 := Function.update_self ..
  have storing : step sum config ⟨now,[],inflight,[false],[⟨r,.store resp⟩]⟩ (.store 0 []) =
      some ⟨now,entries,inflight,[false],[⟨r,.signal (.ok resp)⟩]⟩ := by
    show (set config now [] [] key ⟨r,resp⟩).map _ = _
    rw [setFirst]
    rfl
  have signalling : step sum config ⟨now,entries,inflight,[false],[⟨r,.signal (.ok resp)⟩]⟩ (.signal 0) =
      some ⟨now,entries,inflight,[false],[⟨r,.close 0 (.ok resp)⟩]⟩ := by
    exact congrArg some (@signalFound sum ⟨now,entries,inflight,[false],_⟩ 0 ⟨r,.signal (.ok resp)⟩ 0 (.ok resp) mine)
  have looking : step sum config ⟨now,entries,inflight,[true],[⟨r,.done (.ok ⟨r,resp⟩)⟩,⟨s,.look⟩]⟩ (.look 1) =
      some ⟨now,entries,inflight,[true],[⟨r,.done (.ok ⟨r,resp⟩)⟩,⟨s,.done (.ok ⟨r,resp⟩)⟩]⟩ := by
    have lasts : ¬now + config.ttl < now := by
      have pos := config.lasts
      omega
    have got : entries.lookup (cacheKey sum s) = some ⟨⟨r,resp⟩,now + config.ttl,now⟩ := by
      rw [← eq]
      exact List.lookup_cons_self
    exact congrArg some (@lookFresh sum ⟨now,entries,inflight,[true],_⟩ 1 ⟨s,.look⟩ _ got lasts)
  refine ⟨_,.more first rfl <| .more trivial rfl <| .more trivial rfl <| .more trivial rfl <| .more trivial storing <|
    .more trivial signalling <| .more trivial rfl <| .more second rfl <| .more trivial looking <| .done _,?_⟩
  exact ⟨⟨s,.done (.ok ⟨r,resp⟩)⟩,by simp,rfl,rfl⟩

/-- No response answers another request than its own, if and only if no two requests have the same
pieces and number of tokens. -/
theorem cacheUnmixedExact (injective : Function.Injective sum) (config : Config) (now : Int) (asked : Request → Prop) :
    (∀ as w, Trace (step sum config) (From asked) (start now) as w → Unmixed w) ↔ Apart asked := by
  constructor
  · intro unmixed r s first second parts tokens
    obtain ⟨w,ran,call,member,rfl,answered⟩ := @servedOther sum config asked now r s ⟨[],⟨0,0,0⟩⟩
      ((cacheKeySame injective).mpr ⟨parts,tokens⟩) first second
    exact unmixed _ w ran call member _ answered
  intro apart as w ran call member p answered
  have kept : Kept sum asked w := traceInvariant stepKept ran ⟨nofun,nofun⟩
  obtain ⟨from_,told⟩ := kept.calls call member
  obtain ⟨origin,same⟩ := told p answered
  obtain ⟨parts,tokens⟩ := (cacheKeySame injective).mp same
  exact apart _ _ origin from_ parts tokens
end

def ask (provider model prompt : Bytes) (messages : List Message) : Request := ⟨provider,model,prompt,messages,64⟩
def prompts : List Request := [ask [1] [2] [3] [],ask [1] [2] [4] []]

theorem promptsUnmixed : Apart (· ∈ prompts) ∧
    ∀ as w, Trace (step id defaultConfig) (From (· ∈ prompts)) (start 0) as w → Unmixed w := by
  have apart : Apart (· ∈ prompts) := fun r s first second =>
    (by decide +kernel : ∀ r ∈ prompts, ∀ s ∈ prompts,
      pieces r = pieces s → r.maxOutputTokens = s.maxOutputTokens → r = s) r first s second
  exact ⟨apart,(cacheUnmixedExact Function.injective_id defaultConfig 0 _).mpr apart⟩

theorem servedMixed (eq : pieces r = pieces s ∧ r.maxOutputTokens = s.maxOutputTokens) (differ : r ≠ s) :
    ∃ w, Trace (step id defaultConfig) (From (· ∈ [r,s])) (start 0) (served r s ⟨[],⟨0,0,0⟩⟩) w ∧ ¬Unmixed w := by
  obtain ⟨w,ran,call,mem,isSecond,told⟩ := @servedOther id defaultConfig (· ∈ [r,s]) 0 r s ⟨[],⟨0,0,0⟩⟩
    ((cacheKeySame Function.injective_id).mpr eq) (by simp) (by simp)
  refine ⟨w,ran,fun unmixed => differ ?_⟩
  rw [← isSecond]
  exact unmixed call mem _ told

theorem requestsMixed :
    (∃ w, Trace (step id defaultConfig) (From (· ∈ [ask [] [] [] [⟨[],[1]⟩],ask [] [] [] [⟨[],[2]⟩]])) (start 0)
      (served (ask [] [] [] [⟨[],[1]⟩]) (ask [] [] [] [⟨[],[2]⟩]) ⟨[],⟨0,0,0⟩⟩) w ∧ ¬Unmixed w) ∧
    ∃ w, Trace (step id defaultConfig) (From (· ∈ [ask [1,0,2] [3] [] [],ask [1] [2,0,3] [] []])) (start 0)
      (served (ask [1,0,2] [3] [] []) (ask [1] [2,0,3] [] []) ⟨[],⟨0,0,0⟩⟩) w ∧ ¬Unmixed w :=
  ⟨servedMixed (by decide +kernel) (by decide),servedMixed (by decide +kernel) (by decide)⟩

end Gofly.LlmCache
