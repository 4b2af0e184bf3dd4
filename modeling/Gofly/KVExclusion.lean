import Gofly.KVLocker
import Gofly.Weights

/-! Mutual exclusion through the key-value store. -/
namespace Gofly.KVExclusion
open Transition KVStore KVLocker Weights
open List (mem_append mem_of_getElem? mem_singleton)

def held (now : Nat) (h : Holding) : Bool := !h.released && h.expiresAt.any fun t => now < t

def Exclusive (w : World) : Prop :=
  ∀ s t g h, w.holdings s = some g → w.holdings t = some h → g.key = h.key →
    held w.now g = true → held w.now h = true → g.client = h.client

def writes : Section → Bool
  | .stamp _ => false
  | _ => true

def Spares (w : World) : Act → Prop
  | .proceed i => ∀ call h e, w.calls[i]? = some call → writes call.rest = true →
      w.holdings call.token = some h → find w.store w.now h.key = some e → e.value = call.token
  | _ => True

def overdue (w : World) (key token : String) : Bool :=
  (w.holdings token).any fun h => h.key = key && held w.now h && h.storedUntil ≤ w.now

def careful (w : World) : Act → Bool
  | .tryLock _ key _ _ => (find w.store w.now key).isSome || !w.issued.any (overdue w key)
  | .unlock token => !w.calls.any fun call => call.token = token
  | .refresh token _ => !w.calls.any fun call => call.token = token
  | .proceed i => w.calls[i]?.any fun call => call.deadline.any fun t => w.now < t
  | _ => true

structure Orderly (w : World) : Prop where
  listed : ∀ t h, w.holdings t = some h → t ∈ w.issued
  owns : ∀ t h, w.holdings t = some h → h.released = false → w.now < h.storedUntil →
    find w.store w.now h.key = some ⟨t,some h.storedUntil⟩
  owned : ∀ k e, find w.store w.now k = some e → ∃ h, w.holdings e.value = some h ∧ h.key = k ∧
    h.released = false ∧ e.expiresAt = some h.storedUntil
  alone : ∀ s t g h, w.holdings s = some g → w.holdings t = some h → g.key = h.key →
    g.released = false → w.now < g.storedUntil → held w.now h = true → s = t
  exclusive : ∀ s t g h, w.holdings s = some g → w.holdings t = some h → g.key = h.key →
    held w.now g = true → held w.now h = true → s = t
  single : (w.calls.map Call.token).Nodup
  known : ∀ call ∈ w.calls, ∃ h, w.holdings call.token = some h ∧ h.released = false ∧
    call.deadline = some h.storedUntil
  lasting : ∀ call ∈ w.calls, ∀ ttl, call.rest = .set ttl → 0 < ttl


theorem heldFacts (is : held now h = true) : h.released = false ∧ ∃ t, h.expiresAt = some t ∧ now < t := by
  simpa [held,Option.any_eq_true] using is

theorem heldEarlier (is : held (now + d) h = true) : held now h = true := by
  obtain ⟨kept,t,told,ahead⟩ := heldFacts is
  simp only [held,kept,told,Option.any_some,Bool.not_false,Bool.true_and,decide_eq_true_eq]
  omega

theorem liveOne (o : Orderly w) (left : w.holdings s = some g)
    (right : w.holdings t = some h) (eq : g.key = h.key) (keptLeft : g.released = false)
    (keptRight : h.released = false) (liveLeft : w.now < g.storedUntil) (liveRight : w.now < h.storedUntil) :
    s = t := by
  have one := o.owns s g left keptLeft liveLeft
  have two := o.owns t h right keptRight liveRight
  rw [eq,two] at one
  exact congrArg Entry.value (Option.some.inj one).symm

theorem tickOrderly (o : Orderly w) (d) : Orderly { w with now := w.now + d } where
  listed := o.listed
  owns t h holds kept live := by
    have old : w.now < h.storedUntil := Nat.lt_of_le_of_lt (Nat.le_add_right _ _) live
    obtain ⟨stored,_⟩ := findExact.mp (o.owns t h holds kept old)
    exact findExact.mpr ⟨stored,by simpa [Entry.live] using live⟩
  owned k e found := o.owned k e (findLater (Nat.le_add_right _ _) found)
  alone s t g h left right eq kept live is :=
    o.alone s t g h left right eq kept (Nat.lt_of_le_of_lt (Nat.le_add_right _ _) live) (heldEarlier is)
  exclusive s t g h left right eq isLeft isRight :=
    o.exclusive s t g h left right eq (heldEarlier isLeft) (heldEarlier isRight)
  single := o.single
  known := o.known
  lasting := o.lasting

theorem sameOrderly (o : Orderly w) (eq : Same w next) (single : (next.calls.map Call.token).Nodup)
    (known : ∀ call ∈ next.calls, ∃ h, w.holdings call.token = some h ∧ h.released = false ∧
      call.deadline = some h.storedUntil)
    (lasting : ∀ call ∈ next.calls, ∀ ttl, call.rest = .set ttl → 0 < ttl) : Orderly next := by
  obtain ⟨now,got,holdings,issued⟩ := eq
  refine ⟨?_,?_,?_,?_,?_,single,?_,lasting⟩
  · rw [holdings,issued]; exact o.listed
  · rw [holdings,now,got]; exact o.owns
  · rw [holdings,now,got]; exact o.owned
  · rw [holdings,now]; exact o.alone
  · rw [holdings,now]; exact o.exclusive
  rw [holdings]; exact known

theorem fewerOrderly (o : Orderly w) (i) : Orderly { w with calls := w.calls.eraseIdx i } := by
  have fewer : (w.calls.eraseIdx i).Sublist w.calls := List.eraseIdx_sublist _ _
  exact sameOrderly o ⟨rfl,rfl,rfl,rfl⟩ (o.single.sublist (fewer.map _))
    (fun call mem => o.known call (fewer.subset mem))
    (fun call mem => o.lasting call (fewer.subset mem))

theorem singleAppend (single : (calls.map Call.token).Nodup)
    (gone : ∀ c ∈ calls, c.token ≠ call.token) : ((calls ++ [call]).map Call.token).Nodup := by
  rw [List.map_append,List.nodup_append]
  refine ⟨single,by simp,?_⟩
  rintro a mem b only rfl
  obtain ⟨c,ith,isToken⟩ := List.mem_map.mp mem
  simp only [List.map_cons,List.map_nil,mem_singleton] at only
  exact gone c ith (isToken.trans only)

theorem enteredOrderly (o : Orderly w) (entered : Entered w key token rest next)
    (alone : (w.calls.any fun call => call.token = token) = false)
    (lasts : ∀ ttl, rest = .set ttl → 0 < ttl) : Orderly next := by
  cases entered with
  | refused eq calls => exact sameOrderly o eq (calls ▸ o.single) (calls ▸ o.known) (calls ▸ o.lasting)
  | @owned e _ got value eq calls =>
    have gone : ∀ c ∈ w.calls, c.token ≠ token := by simpa using alone
    obtain ⟨g,isHeld,_,kept,expires⟩ := o.owned _ e got
    rw [value] at isHeld
    refine sameOrderly o eq ?_ ?_ ?_
    · rw [calls]
      exact singleAppend o.single gone
    · intro call mem
      rw [calls] at mem
      rcases mem_append.mp mem with old | new
      · exact o.known call old
      cases mem_singleton.mp new
      exact ⟨g,isHeld,kept,expires⟩
    intro call mem
    rw [calls] at mem
    rcases mem_append.mp mem with old | new
    · exact o.lasting call old
    cases mem_singleton.mp new
    exact lasts

theorem findLive (s : Store String String) (now key k token) {ttl : Nat} (lasts : 0 < ttl) :
    find (set s now key token ttl) now k = if k = key then some ⟨token,some (now + ttl)⟩ else find s now k := by
  rw [findSet]
  split
  · have pos : ttl ≠ 0 := Nat.ne_of_gt lasts
    simp [expiresAt,Entry.live,Option.filter,pos]
  rfl

-- one lease is entered, told, renewed or released; the other leases of its key have run out
theorem replacedOrderly (o : Orderly w) (now : next.now = w.now)
    (holdings : next.holdings = Function.update w.holdings token (some h))
    (issued : ∀ t, t = token ∨ t ∈ w.issued → t ∈ next.issued) (view : ∀ k, find next.store w.now k =
      if k = h.key then if h.released then none else some ⟨token,some h.storedUntil⟩ else find w.store w.now k)
    (unmoved : ∀ g, w.holdings token = some g → g.key = h.key)
    (rivals : ∀ t g, t ≠ token → w.holdings t = some g → g.key = h.key →
      (g.released = false → g.storedUntil ≤ w.now) ∧ held w.now g = false)
    (single : (next.calls.map Call.token).Nodup)
    (known : ∀ call ∈ next.calls, ∃ g, next.holdings call.token = some g ∧ g.released = false ∧
      call.deadline = some g.storedUntil)
    (lasting : ∀ call ∈ next.calls, ∀ ttl, call.rest = .set ttl → 0 < ttl) : Orderly next := by
  have other : ∀ t g, t ≠ token → next.holdings t = some g → w.holdings t = some g := by
    intro t g away holds
    simpa [holdings,away] using holds
  have mine : ∀ g, next.holdings token = some g → g = h := by simp [holdings]
  have unheld : ∀ t g, t ≠ token → next.holdings t = some g → g.key = h.key → held w.now g ≠ true := by
    intro t g away holds named is
    have no := (rivals t g away (other t g away holds) named).2
    rw [is] at no
    cases no
  refine ⟨?_,?_,?_,?_,?_,single,known,lasting⟩
  · intro t g holds
    by_cases eq : t = token
    · exact issued t (.inl eq)
    · exact issued t (.inr (o.listed t g (other t g eq holds)))
  · intro t g holds kept live
    rw [now] at live ⊢
    rw [view]
    by_cases eq : t = token
    · subst eq
      cases mine g holds
      simp [kept]
    have old := other t g eq holds
    have away : g.key ≠ h.key := fun named => Nat.not_le_of_lt live ((rivals t g eq old named).1 kept)
    rw [if_neg away]
    exact o.owns t g old kept live
  · intro k e there
    rw [now,view] at there
    by_cases eq : k = h.key
    · rw [if_pos eq] at there
      split at there <;> cases there
      rename_i kept
      exact ⟨h,by simp [holdings],eq.symm,by simpa using kept,rfl⟩
    rw [if_neg eq] at there
    obtain ⟨g,holds,named,rest⟩ := o.owned k e there
    have away : e.value ≠ token := fun isToken => eq (named.symm.trans (unmoved g (isToken ▸ holds)))
    exact ⟨g,by simpa [holdings,away] using holds,named,rest⟩
  · intro s t g u left right named kept live is
    rw [now] at live is
    by_cases isLeft : s = token <;> by_cases isRight : t = token
    · exact isLeft.trans isRight.symm
    · subst isLeft
      cases mine g left
      exact absurd is (unheld t u isRight right named.symm)
    · subst isRight
      cases mine u right
      have spent := (rivals s g isLeft (other s g isLeft left) named).1 kept
      exact absurd live (Nat.not_lt_of_le spent)
    · exact o.alone s t g u (other s g isLeft left) (other t u isRight right) named kept live is
  · intro s t g u left right named isHeld is
    rw [now] at isHeld is
    by_cases isLeft : s = token <;> by_cases isRight : t = token
    · exact isLeft.trans isRight.symm
    · subst isLeft
      cases mine g left
      exact absurd is (unheld t u isRight right named.symm)
    · subst isRight
      cases mine u right
      exact absurd isHeld (unheld s g isLeft left named)
    · exact o.exclusive s t g u (other s g isLeft left) (other t u isRight right) named isHeld is

theorem freshOrderly (o : Orderly w) {ttl : Nat}
    (fresh : w.holdings token = none) (free : find w.store w.now key = none) (lasts : 0 < ttl)
    (got : find s w.now = find (set w.store w.now key token ttl) w.now)
    (gapless : (w.issued.any (overdue w key)) = false) :
    Orderly { keep w token ⟨client,key,w.now + ttl,none,false⟩ with
      store := s
      issued := w.issued ++ [token]
      calls := w.calls ++ [⟨token,.stamp ttl,some (w.now + ttl)⟩] } := by
  -- the key is free, so every other lease of it has run out in the store
  have spent : ∀ t h, w.holdings t = some h → h.key = key → h.released = false → h.storedUntil ≤ w.now := by
    intro t h holds named kept
    by_contra live
    have there := o.owns t h holds kept (Nat.lt_of_not_le live)
    rw [named,free] at there
    cases there
  have unheld : ∀ t h, w.holdings t = some h → h.key = key → held w.now h = false := by
    intro t h holds named
    by_contra is
    have isHeld : held w.now h = true := by simpa using is
    have late := spent t h holds named (heldFacts isHeld).1
    have here : overdue w key t = true := by simp [overdue,holds,named,isHeld,late]
    exact List.any_eq_false.mp gapless t (o.listed t h holds) here
  have gone : ∀ call ∈ w.calls, call.token ≠ token := by
    intro call mem isToken
    obtain ⟨h,holds,_⟩ := o.known call mem
    rw [isToken,fresh] at holds
    cases holds
  refine replacedOrderly o rfl rfl ?_ ?_ ?_ ?_ ?_ ?_ ?_
  · intro t known
    rcases known with eq | old
    · simp [eq]
    exact List.mem_append_left _ old
  · intro k
    exact (congrFun got k).trans (findLive w.store w.now key k token lasts)
  · intro g holds
    rw [fresh] at holds
    cases holds
  · exact fun t g _ holds named => ⟨spent t g holds named,unheld t g holds named⟩
  · exact singleAppend o.single gone
  · intro call mem
    rcases mem_append.mp mem with old | new
    · obtain ⟨h,holds,rest⟩ := o.known call old
      exact ⟨h,by simpa [keep,gone call old] using holds,rest⟩
    cases mem_singleton.mp new
    exact ⟨⟨client,key,w.now + ttl,none,false⟩,by simp [keep],rfl,rfl⟩
  intro call mem
  rcases mem_append.mp mem with old | new
  · exact o.lasting call old
  cases mem_singleton.mp new
  intro ttl isSet
  cases isSet

theorem otherCall (o : Orderly w) {i : Nat} (ith : w.calls[i]? = some call)
    (other : w.calls[j]? = some c) (away : j ≠ i) : c.token ≠ call.token := by
  intro eq
  have bound : i < (w.calls.map Call.token).length := by simpa using (List.getElem_of_getElem? ith).1
  exact away ((List.getElem?_inj bound o.single).mp (by simp [ith,other,eq])).symm

theorem finishOrderly (o : Orderly w) (ith : w.calls[i]? = some call)
    (holds : w.holdings call.token = some h) (ahead : (call.deadline.any fun t => w.now < t) = true) :
    Orderly (finish w i call.token h call.rest) := by
  have mem := mem_of_getElem? ith
  obtain ⟨g,isHeld,kept,deadline⟩ := o.known call mem
  rw [holds] at isHeld
  cases isHeld
  have live : w.now < h.storedUntil := by simpa [deadline] using ahead
  have there := o.owns call.token h holds kept live
  have unmoved : ∀ g, w.holdings call.token = some g → g.key = h.key := by
    intro g isHeld
    rw [holds] at isHeld
    cases isHeld
    rfl
  have rivals : ∀ t g, t ≠ call.token → w.holdings t = some g → g.key = h.key →
      (g.released = false → g.storedUntil ≤ w.now) ∧ held w.now g = false := by
    intro t g away isHeld named
    constructor
    · intro keptToo
      by_contra liveToo
      exact away (liveOne o isHeld holds named keptToo kept (Nat.lt_of_not_le liveToo) live)
    by_contra is
    exact away (o.alone _ _ h g holds isHeld named.symm kept live (by simpa using is)).symm
  have fewer : (w.calls.eraseIdx i).Sublist w.calls := List.eraseIdx_sublist _ _
  have others : ∀ c ∈ w.calls.eraseIdx i, c.token ≠ call.token := by
    intro c left
    obtain ⟨j,away,place⟩ := List.mem_eraseIdx_iff_getElem?.mp left
    exact otherCall o ith place away
  have untouched : ∀ (u : Holding), ∀ c, c.token ≠ call.token → c ∈ w.calls →
      ∃ g, Function.update w.holdings call.token (some u) c.token = some g ∧ g.released = false ∧
        c.deadline = some g.storedUntil := by
    intro u c away old
    obtain ⟨g,isHeld,rest⟩ := o.known c old
    exact ⟨g,by simpa [away] using isHeld,rest⟩
  have issued : ∀ t, t = call.token ∨ t ∈ w.issued → t ∈ w.issued := by
    rintro t (rfl | old)
    · exact o.listed _ h holds
    exact old
  cases rest : call.rest with
  | stamp =>
    refine replacedOrderly o rfl rfl issued ?_ unmoved rivals (o.single.sublist (fewer.map _)) ?_ ?_
    · intro k
      by_cases eq : k = h.key
      · simp [finish,keep,eq,there]
      simp [finish,keep,eq]
    · exact fun c left => untouched _ c (others c left) (fewer.subset left)
    exact fun c left => o.lasting c (fewer.subset left)
  | delete =>
    refine replacedOrderly o rfl rfl issued ?_ unmoved rivals (o.single.sublist (fewer.map _)) ?_ ?_
    · intro k
      exact findDelete w.store h.key k w.now
    · exact fun c left => untouched _ c (others c left) (fewer.subset left)
    exact fun c left => o.lasting c (fewer.subset left)
  | set ttl =>
    refine replacedOrderly o rfl rfl issued ?_ unmoved rivals ?_ ?_ ?_
    · intro k
      have view := findLive w.store w.now h.key k call.token (o.lasting call mem ttl rest)
      simp [finish,kept,view]
    · exact (mapSet ith (y := ⟨call.token,.stamp ttl,some (w.now + ttl)⟩) (f := Call.token) rfl) ▸ o.single
    · intro c old
      obtain ⟨j,place⟩ := List.mem_iff_getElem?.mp old
      rcases atSet ith place with ⟨_,rfl⟩ | ⟨away,before⟩
      · exact ⟨{ h with storedUntil := w.now + ttl },by simp [finish,keep],kept,rfl⟩
      exact untouched _ c (otherCall o ith before away) (mem_of_getElem? before)
    intro c old
    obtain ⟨j,place⟩ := List.mem_iff_getElem?.mp old
    rcases atSet ith place with ⟨_,rfl⟩ | ⟨_,before⟩
    · intro ttl isSet
      cases isSet
    exact o.lasting c (mem_of_getElem? before)

theorem stepOrderly (o : Orderly w) (fits : careful w a = true) (h : step l w a = some next) : Orderly next := by
  cases steppedOf h with
  | tick d => exact tickOrderly o d
  | tryLock fresh acquired =>
    cases acquired with
    | refused eq calls => exact sameOrderly o eq (calls ▸ o.single) (calls ▸ o.known) (calls ▸ o.lasting)
    | locked free lasts got =>
      simp only [careful,free,Option.isSome_none,Bool.false_or,Bool.not_eq_true'] at fits
      exact freshOrderly o fresh free lasts got fits
  | unlock _ entered => exact enteredOrderly o entered (by simpa [careful] using fits) (fun _ => nofun)
  | @refresh _ _ ttl _ _ entered =>
    refine enteredOrderly o entered (by simpa [careful] using fits) ?_
    intro lasts isSet
    cases isSet
    exact ttlPositive l ttl
  | proceed ith holds => exact finishOrderly o ith holds (by simpa [careful,ith] using fits)
  | fail => exact fewerOrderly o _

theorem startOrderly (now) : Orderly (start now) where
  listed t h holds := by simp [start] at holds
  owns t h holds := by simp [start] at holds
  owned k e found := by simp [start,find] at found
  alone s t g h left := by simp [start] at left
  exclusive s t g h left := by simp [start] at left
  single := List.nodup_nil
  known := by simp [start]
  lasting := by simp [start]

theorem orderlySpares (o : Orderly w) (fits : careful w a = true) : Spares w a := by
  cases a with
  | proceed =>
    intro call h e ith _ holds got
    obtain ⟨g,isHeld,kept,deadline⟩ := o.known call (mem_of_getElem? ith)
    rw [holds] at isHeld
    cases isHeld
    have live : w.now < h.storedUntil := by simpa [careful,ith,deadline] using fits
    have there := o.owns call.token h holds kept live
    rw [got] at there
    cases there
    rfl
  | _ => trivial

theorem lockExclusion (l : Locker) (now : Nat) (as : List Act) (w : World)
    (ran : Trace (step l) (fun w a => careful w a = true) (start now) as w) :
    Exclusive w ∧ ∀ a, careful w a = true → Spares w a := by
  have o := traceInvariant (P := Orderly) (fun _ _ _ o fits moved => stepOrderly o fits moved) ran (startOrderly now)
  refine ⟨?_,fun a fits => orderlySpares o fits⟩
  intro s t g h left right named isLeft isRight
  have same := o.exclusive s t g h left right named isLeft isRight
  rw [same,right] at left
  cases left
  rfl

def standard : Locker := ⟨30000000000⟩

def passesOn : List Act :=
  [.tryLock 1 "job" "a" 10,.proceed 0,.refresh "a" 0,.proceed 0,.proceed 0,.unlock "a",.tick 7,.proceed 0,
    .tryLock 2 "job" "b" 10,.proceed 0,.unlock "b"]

theorem lockExclusionPassedOn :
    ∃ w, (w.holdings "b").any (held w.now) = true ∧ Exclusive w ∧ careful w (.proceed 0) = true ∧
      Spares w (.proceed 0) := by
  have accepted : accepts (step standard) (fun w a => careful w a = true) (start 0) passesOn = true := by decide
  obtain ⟨w,ran,trace⟩ := acceptedTrace accepted
  have seen : ((run (step standard) (start 0) passesOn).map fun w =>
      ((w.holdings "b").any (held w.now),careful w (.proceed 0))) = some (true,true) := by decide
  rw [ran] at seen
  obtain ⟨isHeld,fits⟩ := Prod.mk.inj (Option.some.inj seen)
  obtain ⟨exclusive,spares⟩ := lockExclusion standard 0 passesOn w trace
  exact ⟨w,isHeld,exclusive,fits,spares _ fits⟩

def unlocksLate : List Act :=
  [.tryLock 1 "job" "a" 10,.proceed 0,.unlock "a",.tick 10,.tryLock 2 "job" "b" 10,.proceed 1]

theorem lateUnlockFreesOther : (¬ ∀ as w, Trace (step standard) Free (start 0) as w → ∀ a, Spares w a) ∧
    ¬ ∀ as w, Trace (step standard) Free (start 0) as w → Exclusive w := by
  constructor
  · intro spares
    have seen : ((run (step standard) (start 0) unlocksLate).map fun w =>
        (w.calls,w.holdings "a",find w.store w.now "job")) =
        some ([⟨"a",.delete,some 10⟩],some ⟨1,"job",10,some 10,false⟩,some ⟨"b",some 20⟩) := by decide
    obtain ⟨w,ran,facts⟩ := Option.map_eq_some_iff.mp seen
    simp only [Prod.mk.injEq] at facts
    obtain ⟨calls,holds,found⟩ := facts
    have own := spares _ w (runFree ran) (.proceed 0) ⟨"a",.delete,some 10⟩ _ _ (by rw [calls]; rfl) rfl holds found
    exact absurd own (by decide)
  intro exclusive
  have seen : ((run (step standard) (start 0)
      (unlocksLate ++ [.proceed 0,.tryLock 3 "job" "c" 10,.proceed 0])).map fun w =>
      (w.now,w.holdings "b",w.holdings "c")) =
      some (10,some ⟨2,"job",20,some 20,false⟩,some ⟨3,"job",20,some 20,false⟩) := by decide
  obtain ⟨w,ran,facts⟩ := Option.map_eq_some_iff.mp seen
  simp only [Prod.mk.injEq] at facts
  obtain ⟨now,left,right⟩ := facts
  have one := exclusive _ w (runFree ran) "b" "c" _ _ left right rfl (by rw [now]; rfl) (by rw [now]; rfl)
  exact absurd one (by decide)

end Gofly.KVExclusion
