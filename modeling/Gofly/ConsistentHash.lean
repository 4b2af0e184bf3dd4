import Gofly.Decimal
import Gofly.P2CBalancer
/-! The consistent hash balancer: a ring of hashed points, each owned by the last endpoint that put
it there, and the ring that is kept from one pick to the next. -/
namespace Gofly.ConsistentHash
open P2C Transition

structure Ring where
  ring : List UInt32
  nodes : UInt32 → Str

structure Balancer where
  ringSignature : Str
  cached : Ring
  next : UInt64

def fresh : Balancer := ⟨[],⟨[],fun _ => []⟩,0⟩
def place (nodes : UInt32 → Str) (point : UInt32 × Str) : UInt32 → Str := Function.update nodes point.1 point.2

-- sort.Search gives the first point of the sorted ring that is not below the hash
def search (ring : List UInt32) (hash : UInt32) : Option UInt32 := (ring.find? (hash ≤ ·)).or ring.head?

def look (r : Ring) (hash : UInt32) : Except String Str :=
  match search r.ring hash with
  | none => .error "no endpoint to pick"
  | some point => .ok (r.nodes point)

structure Config where
  replicas : Nat
  fixedKey : Str
  hashString : Str → UInt32

namespace Config
variable (c : Config)

def points (endpoints : List Str) : List (UInt32 × Str) := endpoints.flatMap fun endpoint =>
  (List.range c.replicas).map fun i : Nat => (c.hashString (endpoint ++ '#' :: Decimal.digits i),endpoint)

def build (endpoints : List Str) : Ring :=
  ⟨((c.points endpoints).map Prod.fst).insertionSort (· ≤ ·),(c.points endpoints).foldl place fun _ => []⟩

def ringFor (b : Balancer) (endpoints : List Str) : Balancer :=
  let signature := Text.join '\x00' endpoints
  if b.ringSignature = signature ∧ b.cached.ring ≠ [] then b
  else { b with ringSignature := signature,cached := c.build endpoints }

def hashKey (key : Str) : Str := if key = [] then c.fixedKey else key

def pick (b : Balancer) (ctx : Option String) (key : Str) (endpoints : List Str) : Balancer × Except String Str :=
  match ctx with
  | some err => (b,.error err)
  | none =>
    let candidates := normalizeEndpoints endpoints
    if candidates = [] then (b,.error "no endpoint to pick")
    else if c.hashKey key = [] then
      -- the Pick of next, which normalizes again
      let again := normalizeEndpoints candidates
      if again = [] then (b,.error "no endpoint to pick")
      else ({ b with next := b.next + 1 },.ok (again.getD (b.next.toNat % again.length) []))
    else
      let b := c.ringFor b candidates
      (b,look b.cached (c.hashString (c.hashKey key)))

def step (b : Balancer) : Option String × Str × List Str → Option Balancer
  | (ctx,key,endpoints) => some (c.pick b ctx key endpoints).1

/-- What a balancer that has not picked before answers. -/
def answer (key : Str) (endpoints : List Str) : Except String Str := (c.pick fresh none key endpoints).2

end Config

section
variable {hash p q : UInt32}

/-- The point reached first when one goes up from the hash and on from zero. -/
def Least (ring : List UInt32) (hash point : UInt32) : Prop := point ∈ ring ∧ ∀ q ∈ ring, point - hash ≤ q - hash

theorem leastOnly (one : Least ring hash p) (other : Least ring hash q) : p = q := by
  have below := one.2 q other.1
  have above := other.2 p one.1
  rw [UInt32.le_iff_toNat_le,UInt32.toNat_sub,UInt32.toNat_sub] at below above
  rw [← UInt32.toNat_inj]
  have bounds := And.intro p.toNat_lt (And.intro q.toNat_lt hash.toNat_lt)
  omega

theorem nearer (order : hash ≤ p ∧ (q < hash ∨ p ≤ q) ∨ q < hash ∧ p ≤ q) : p - hash ≤ q - hash := by
  simp only [UInt32.le_iff_toNat_le,UInt32.lt_iff_toNat_lt,UInt32.toNat_sub] at *
  have bounds := And.intro p.toNat_lt (And.intro q.toNat_lt hash.toNat_lt)
  omega

theorem searchLeast (sorted : ring.Pairwise (· ≤ ·)) (got : search ring hash = some p) : Least ring hash p := by
  unfold search at got
  cases ahead : ring.find? (hash ≤ ·) with
  | none =>
    obtain ⟨rest,rfl⟩ := List.head?_eq_some_iff.mp (by simpa [ahead] using got)
    refine ⟨List.mem_cons_self,fun q mem => nearer (.inr ⟨by simpa using List.find?_eq_none.mp ahead q mem,?_⟩)⟩
    rcases List.mem_cons.mp mem with rfl | later
    · exact UInt32.le_rfl
    exact List.rel_of_pairwise_cons sorted later
  | some =>
    rw [ahead] at got
    cases got
    obtain ⟨met,old,new,rfl,passed⟩ := List.find?_eq_some_iff_append.mp ahead
    refine ⟨by simp,fun q mem => nearer (.inl ⟨by simpa using met,?_⟩)⟩
    rcases List.mem_append.mp mem with early | late
    · exact .inl (by simpa using passed q early)
    rcases List.mem_cons.mp late with rfl | later
    · exact .inr UInt32.le_rfl
    exact .inr (List.rel_of_pairwise_cons (List.pairwise_append.mp sorted).2.1 later)

theorem searchFound (given : p ∈ ring) (hash) : ∃ p, search ring hash = some p := by
  cases ahead : ring.find? (hash ≤ ·) <;> cases ring <;> simp_all [search]
end

section
variable {c : Config} {e : Str} {hash p : UInt32}

theorem placedLast (nodes) (list : List (UInt32 × Str)) (p) :
    list.foldl place nodes p = ((list.reverse.find? (·.1 = p)).map Prod.snd).getD (nodes p) := by
  induction list using List.reverseRecOn with
  | nil => rfl
  | append_singleton list point ih =>
    rw [List.foldl_concat,List.reverse_concat,List.find?_cons,place]
    by_cases here : point.1 = p
    · subst here
      simp
    simp [here,Ne.symm here,ih]

theorem pointsWithout (e) : c.points (endpoints.filter (· != e)) = (c.points endpoints).filter (·.2 != e) := by
  induction endpoints with
  | nil => rfl
  | cons first rest ih =>
    simp only [Config.points] at ih
    by_cases here : first = e
    · simp [Config.points,here,ih,List.filter_map,Function.comp_def]
    have kept : (first != e) = true := by simpa using here
    simp [Config.points,kept,ih,List.filter_map,Function.comp_def]

theorem builtLeast (got : search (c.build endpoints).ring hash = some p) : Least (c.build endpoints).ring hash p :=
  searchLeast (List.pairwise_insertionSort _ _) got

theorem builtMember : p ∈ (c.build endpoints).ring ↔ ∃ e, (p,e) ∈ c.points endpoints := by simp [Config.build]

theorem findAlso {list : List α} {p q : α → Bool} (got : list.find? p = some x) (also : q x = true) :
    (list.filter q).find? p = some x := by
  obtain ⟨here,old,new,rfl,passed⟩ := List.find?_eq_some_iff_append.mp got
  rw [List.find?_filter]
  refine List.find?_eq_some_iff_append.mpr ⟨by simp [here,also],old,new,rfl,fun y mem => ?_⟩
  have fails := passed y mem
  simp_all

/-- Without an endpoint, a point that another one owns is found and owned as before. -/
theorem otherKept (got : search (c.build endpoints).ring hash = some p) (other : (c.build endpoints).nodes p ≠ e) :
    search (c.build (endpoints.filter (· != e))).ring hash = some p ∧
      (c.build (endpoints.filter (· != e))).nodes p = (c.build endpoints).nodes p := by
  obtain ⟨inside,least⟩ := builtLeast got
  obtain ⟨o,mem⟩ := builtMember.mp inside
  obtain ⟨point,last⟩ := Option.isSome_iff_exists.mp (List.find?_isSome.mpr ⟨_,List.mem_reverse.mpr mem,by simp⟩ :
    ((c.points endpoints).reverse.find? (·.1 = p)).isSome)
  have owner : (c.build endpoints).nodes p = point.2 := by simp [Config.build,placedLast,last]
  have still := findAlso (q := (·.2 != e)) last (by simpa [← owner] using other)
  rw [List.filter_reverse,← pointsWithout] at still
  have ringed : p ∈ (c.build (endpoints.filter (· != e))).ring := builtMember.mpr ⟨point.2,by
    rw [← show point.1 = p by simpa using List.find?_some last]
    exact List.mem_reverse.mp (List.mem_of_find?_eq_some still)⟩
  refine ⟨?_,by simp only [Config.build,placedLast,still,last]⟩
  obtain ⟨q,next⟩ := searchFound ringed hash
  rw [next,leastOnly (builtLeast next) ⟨ringed,fun q mem => least q ?_⟩]
  obtain ⟨o,kept⟩ := builtMember.mp mem
  rw [pointsWithout] at kept
  exact builtMember.mpr ⟨o,(List.mem_filter.mp kept).1⟩

theorem freshAnswer (given : c.hashKey key ≠ []) :
    c.answer key endpoints = look (c.build (normalizeEndpoints endpoints)) (c.hashString (c.hashKey key)) := by
  unfold Config.answer Config.pick
  by_cases none : normalizeEndpoints endpoints = []
  · simp [none,Config.build,Config.points,look,search]
  simp [none,given,Config.ringFor,fresh]

/-- The answer with an endpoint is the answer without it or that endpoint. -/
theorem answerMoves (given : c.hashKey key ≠ [])
    (without : normalizeEndpoints rest = (normalizeEndpoints endpoints).filter (· != e)) :
    c.answer key rest = c.answer key endpoints ∨ c.answer key endpoints = .ok e := by
  rw [freshAnswer given,freshAnswer given,without,look,look]
  cases got : search (c.build (normalizeEndpoints endpoints)).ring (c.hashString (c.hashKey key)) with
  | none =>
    have none : c.points (normalizeEndpoints endpoints) = [] := by
      by_contra some
      obtain ⟨point,mem⟩ := List.exists_mem_of_ne_nil _ some
      obtain ⟨p,met⟩ := searchFound (builtMember.mpr ⟨point.2,mem⟩) (c.hashString (c.hashKey key))
      simp [got] at met
    simp [Config.build,pointsWithout,none,search]
  | some p =>
    by_cases other : (c.build (normalizeEndpoints endpoints)).nodes p = e
    · exact .inr (by simp [other])
    · obtain ⟨still,owned⟩ := otherKept got other
      simp [still,owned]
end

def Clean (endpoints : List Str) : Prop := ∀ e ∈ endpoints, '\x00' ∉ e
def Kept (c : Config) (b : Balancer) : Prop :=
  b.cached.ring = [] ∨ ∃ list, list ≠ [] ∧ Clean list ∧ b.ringSignature = Text.join '\x00' list ∧ b.cached = c.build list

theorem ringKept {c : Config} (kept : Kept c b) (given : endpoints ≠ []) (clean : Clean endpoints) :
    (c.ringFor b endpoints).cached = c.build endpoints ∧ Kept c (c.ringFor b endpoints) := by
  unfold Config.ringFor
  dsimp only
  split
  · rename_i hit
    obtain ⟨list,some,whole,signed,built⟩ := kept.resolve_left hit.2
    have eq := Text.joinClean some given whole clean (signed.symm.trans hit.1)
    exact ⟨eq ▸ built,kept⟩
  exact ⟨rfl,.inr ⟨endpoints,given,clean,rfl,rfl⟩⟩

theorem pickKept {c : Config} (kept : Kept c b) (clean : Clean (normalizeEndpoints endpoints)) (ctx key) :
    Kept c (c.pick b ctx key endpoints).1 ∧
      (c.hashKey key ≠ [] → (c.pick b none key endpoints).2 = c.answer key endpoints) := by
  by_cases none : normalizeEndpoints endpoints = []
  · cases ctx <;> simp [Config.answer,Config.pick,none,kept]
  obtain ⟨built,still⟩ := ringKept kept none clean
  refine ⟨?_,fun given => ?_⟩
  · cases ctx with
    | some => exact kept
    | none =>
      simp only [Config.pick,none,if_false]
      split
      · split <;> exact kept
      exact still
  rw [freshAnswer given,← built]
  simp [Config.pick,none,given]

theorem hashSteady (c : Config) : (∀ key endpoints others e, c.hashKey key ≠ [] →
      normalizeEndpoints others = (normalizeEndpoints endpoints).filter (· != e) →
      c.answer key others = c.answer key endpoints ∨ c.answer key endpoints = .ok e) ∧
    ∀ as b, Trace c.step (fun _ a => Clean (normalizeEndpoints a.2.2)) fresh as b → ∀ key endpoints, c.hashKey key ≠ [] →
      Clean (normalizeEndpoints endpoints) → (c.pick b none key endpoints).2 = c.answer key endpoints := by
  refine ⟨fun _ _ _ _ => answerMoves,fun as b run key endpoints given clean => ?_⟩
  have kept : Kept c b := by
    refine traceInvariant (fun b a next kept clean moved => ?_) run (.inl rfl)
    cases moved
    exact (pickKept kept clean a.1 a.2.1).1
  exact (pickKept kept clean none key).2 given

def constant : Config := ⟨1,[],fun _ => 0⟩

theorem staleRing : (constant.pick (constant.pick fresh none ['k'] [['a','\x00','b']]).1 none ['k'] [['a'],['b']]).2 =
    .ok ['a','\x00','b'] := by decide

theorem pairAgain : (constant.pick (constant.pick fresh none ['k'] [['a'],['b']]).1 none ['k'] [['a']]).2 =
    constant.answer ['k'] [['a']] :=
  (hashSteady constant).2 [(none,['k'],[['a'],['b']])] _
    (.more (by decide : ∀ e ∈ normalizeEndpoints [['a'],['b']], '\x00' ∉ e) rfl (.done _)) ['k'] [['a']] (by decide)
    (by decide : ∀ e ∈ normalizeEndpoints [['a']], '\x00' ∉ e)

end Gofly.ConsistentHash
