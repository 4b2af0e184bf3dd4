import Gofly.CoreBreaker

/-! What the two breakers promise to the calls in flight: the open window and the single
half-open probe, over every interleaving of calls and completions. -/
namespace Gofly.BreakerCalls
open Transition CircuitGate CoreBreaker

theorem refreshShut (shut : Shut breakerGate b now) : refreshLocked b now = b := unelapsed shut

theorem refreshClocked (b now) : Clocked breakerGate b now (refreshLocked b now) := elapsedClocked rfl rfl

theorem clocks (act b now) : Clocked breakerGate b now (breakerGate.perform act b now) := by
  obtain ⟨timeout,opened⟩ := refreshClocked b now
  cases act with
  | observe | allow => exact ⟨timeout,opened⟩
  | enter =>
    simp only [breakerGate,allowProbe]
    repeat' split
    all_goals exact ⟨timeout,opened⟩
  | success => exact ⟨rfl,Or.inl rfl⟩
  | failure =>
    simp only [breakerGate,reject]
    repeat' split
    all_goals first | exact ⟨rfl,Or.inr rfl⟩ | exact ⟨rfl,Or.inl rfl⟩
  | panic =>
    simp only [breakerGate,releaseProbe]
    split <;> exact ⟨rfl,Or.inl rfl⟩

def Timely (act : Act) (b : Breaker) (now : Int) : Prop :=
  act = .success → ¬ (b.state = .opened ∧ now < b.openedAt + b.openTimeout)

theorem breakerWindow : WindowLaws breakerGate Timely where
  clocked := clocks
  staysShut act b now timely shut := by
    have isOpen : b.state = .opened := shut.1
    have refreshed := refreshShut shut
    cases act with
    | observe => simpa only [breakerGate,refreshed] using isOpen
    | allow => simpa only [breakerGate,allow,refreshed] using isOpen
    | enter => simp [breakerGate,allowProbe,refreshed,isOpen]
    | success => exact absurd ⟨shut.1,shut.2.2⟩ (timely rfl)
    | failure =>
      simp only [breakerGate,reject,isOpen,reduceCtorEq,if_false,openLocked]
      split <;> rfl
    | panic => simp [breakerGate,releaseProbe,isOpen]
  refuses b now shut := by
    have isOpen : b.state = .opened := shut.1
    simp [breakerGate,allowProbe,refreshShut shut,isOpen]

namespace Adaptive
open AdaptiveBreaker

theorem refreshShut (shut : Shut adaptiveGate b now) : b.refreshLocked now = b := unelapsed shut

theorem refreshClocked (b now) : Clocked adaptiveGate b now (b.refreshLocked now) := elapsedClocked rfl rfl

theorem clocks (act b now) : Clocked adaptiveGate b now (adaptiveGate.perform act b now) := by
  obtain ⟨timeout,opened⟩ := refreshClocked b now
  cases act with
  | observe => exact ⟨timeout,opened⟩
  | allow =>
    simp only [adaptiveGate,AdaptiveBreaker.allow]
    repeat' split
    all_goals first | exact ⟨timeout,opened⟩ | exact ⟨timeout,Or.inr rfl⟩
  | enter =>
    simp only [adaptiveGate,AdaptiveBreaker.allowProbe]
    repeat' split
    all_goals first | exact ⟨timeout,opened⟩ | exact ⟨timeout,Or.inr rfl⟩
  | success =>
    simp only [adaptiveGate,markSuccess]
    split <;> exact ⟨timeout,opened⟩
  | failure =>
    simp only [adaptiveGate,markFailure]
    split
    · exact ⟨timeout,Or.inr rfl⟩
    exact ⟨timeout,opened⟩
  | panic =>
    simp only [adaptiveGate,AdaptiveBreaker.releaseProbe]
    split <;> exact ⟨rfl,Or.inl rfl⟩

theorem window : WindowLaws adaptiveGate (fun _ _ _ => True) where
  clocked := clocks
  staysShut act b now _ shut := by
    have isOpen : b.state = .opened := shut.1
    have refreshed := refreshShut shut
    cases act with
    | observe => simpa only [adaptiveGate,refreshed] using isOpen
    | allow => simp [adaptiveGate,AdaptiveBreaker.allow,refreshed,isOpen]
    | enter => simp [adaptiveGate,AdaptiveBreaker.allowProbe,refreshed,isOpen]
    | success => simp [adaptiveGate,markSuccess,refreshed,isOpen]
    | failure =>
      simp only [adaptiveGate,markFailure,refreshed,AdaptiveBreaker.openLocked]
      split
      · rfl
      exact isOpen
    | panic => simp [adaptiveGate,AdaptiveBreaker.releaseProbe,isOpen]
  refuses b now shut := by
    have isOpen : b.state = .opened := shut.1
    simp [adaptiveGate,AdaptiveBreaker.allowProbe,refreshShut shut,isOpen]

end Adaptive

theorem refreshHeld (held : Held breakerGate b) (now) : refreshLocked b now = b := by
  have half : b.state = .halfOpen := held.1
  simp [refreshLocked,half]

theorem breakerProbe : ProbeLaws breakerGate where
  observeHeld b now held := by simpa only [breakerGate,refreshHeld held now] using held
  allowHeld b now held := by simpa only [breakerGate,allow,refreshHeld held now] using held
  enterHeld b now held := by
    have half : b.state = .halfOpen := held.1
    have probe : b.halfOpenProbe = true := held.2
    simp [breakerGate,Held,allowProbe,refreshHeld held now,half,probe]
  reserves b now entered half := by
    simp only [breakerGate,allowProbe] at entered half ⊢
    repeat' split at entered
    all_goals simp_all

theorem adaptiveRefreshHeld (held : Held adaptiveGate b) (now) : b.refreshLocked now = b := by
  have half : b.state = .halfOpen := held.1
  simp [AdaptiveBreaker.refreshLocked,half]

theorem adaptiveProbe : ProbeLaws adaptiveGate where
  observeHeld b now held := by simpa only [adaptiveGate,adaptiveRefreshHeld held now] using held
  allowHeld b now held := by
    have half : b.state = .halfOpen := held.1
    have probe : b.halfOpenProbe = true := held.2
    simp [adaptiveGate,Held,AdaptiveBreaker.allow,adaptiveRefreshHeld held now,half,probe]
  enterHeld b now held := by
    have half : b.state = .halfOpen := held.1
    have probe : b.halfOpenProbe = true := held.2
    simp [adaptiveGate,Held,AdaptiveBreaker.allowProbe,adaptiveRefreshHeld held now,half,probe]
  reserves b now entered half := by
    simp only [adaptiveGate,AdaptiveBreaker.allowProbe] at entered half ⊢
    repeat' split at entered
    all_goals simp_all

def start {β : Type} (b : β) (now : Nat) : System β := ⟨b,now,[]⟩

theorem foldlKept {β α γ : Type} {f : β → α → β} (field : β → γ)
    (kept : ∀ b a, field (f b a) = field b) (items : List α) (b) : field (items.foldl f b) = field b := by
  induction items generalizing b with
  | nil => rfl
  | cons a rest ih => rw [List.foldl_cons,ih,kept]

theorem newOpenedAt (settings) : (new settings).openedAt = 0 := by
  refine foldlKept Breaker.openedAt ?_ settings _
  intro b x
  cases x <;> simp only [Setting.set] <;> split <;> rfl

theorem newAdaptiveOpenedAt (below reaches settings) :
    (AdaptiveBreaker.newAdaptive below reaches settings).openedAt = 0 := by
  have kept : ∀ b : AdaptiveBreaker, (settings.foldl AdaptiveBreaker.Setting.set b).openedAt = b.openedAt := by
    refine foldlKept AdaptiveBreaker.openedAt ?_ settings
    intro b x
    cases x <;> simp only [AdaptiveBreaker.Setting.set] <;> split <;> rfl
  simp only [AdaptiveBreaker.newAdaptive]
  repeat' split
  all_goals exact kept _

theorem openWindowRespected (settings : List Setting) (below reaches : Int64 → Int64 → Bool)
    (adaptive : List AdaptiveBreaker.Setting) (now : Nat) :
    OpenWindow breakerGate (tolerates Timely) (start (new settings) now) ∧
      OpenWindow adaptiveGate Free (start (AdaptiveBreaker.newAdaptive below reaches adaptive) now) := by
  constructor
  · refine openWindow breakerWindow ?_
    simp only [start,breakerGate,newOpenedAt]
    omega
  refine openWindow Adaptive.window ?_
  simp only [start,adaptiveGate,newAdaptiveOpenedAt]
  omega

def brief : System Breaker := start (new [.failureThreshold 1,.openTimeout 10]) 0

theorem windowKeptOnce : ∃ opened next,
    Trace (step breakerGate) (tolerates Timely) brief [.enter true 1,.finish 0 .failure 2] opened ∧
      opened.gate.state = .opened ∧ step breakerGate opened (.enter true 12) = some next ∧
      Entered breakerGate opened (.enter true 12) ∧ opened.gate.openedAt + opened.gate.openTimeout ≤ 12 := by
  have trips : Trace (step breakerGate) (tolerates Timely) brief [.enter true 1,.finish 0 .failure 2]
      ⟨⟨.opened,1,1,10,2,false⟩,2,[]⟩ := .more nofun rfl (.more nofun rfl (.done _))
  refine ⟨_,_,trips,rfl,rfl,⟨rfl,rfl⟩,?_⟩
  have kept := (openWindowRespected [.failureThreshold 1,.openTimeout 10] (fun _ _ => true) (fun _ _ => true) [] 0).1
  exact kept _ _ trips rfl [] _ (.done _) (.enter true 12) _ rfl ⟨rfl,rfl⟩

theorem lateSuccessEndsWindow :
    ¬ OpenWindow breakerGate Free (start (new [.failureThreshold 1,.openTimeout 10]) 0) := by
  intro window
  let opened : System Breaker := ⟨⟨.opened,1,1,10,2,false⟩,2,[⟨false,true⟩]⟩
  let closed : System Breaker := ⟨⟨.closed,0,1,10,2,false⟩,3,[]⟩
  have trips : Trace (step breakerGate) Free (start (new [.failureThreshold 1,.openTimeout 10]) 0)
      [.enter true 1,.enter true 1,.finish 1 .failure 2] opened := runFree rfl
  have late : Trace (step breakerGate) Free opened [.finish 0 .success 3] closed := runFree rfl
  have early := window _ opened trips rfl _ closed late (.enter true 4) _ rfl ⟨rfl,rfl⟩
  exact absurd early (by decide)

theorem halfOpenProbeUnique (settings : List Setting) (below reaches : Int64 → Int64 → Bool)
    (adaptive : List AdaptiveBreaker.Setting) (now : Nat) :
    SingleProbe breakerGate (NoStraggler breakerGate) (start (new settings) now) ∧
      SingleProbe adaptiveGate (NoStraggler adaptiveGate)
        (start (AdaptiveBreaker.newAdaptive below reaches adaptive) now) :=
  ⟨singleProbe breakerProbe rfl,singleProbe adaptiveProbe rfl⟩

theorem secondProbeRefused : ∃ s, Trace (step breakerGate) (NoStraggler breakerGate) brief
      [.enter true 1,.finish 0 .failure 2,.enter true 12,.enter true 12] s ∧ Held breakerGate s.gate ∧
      s.calls ≠ [] ∧ probes s.calls ≤ 1 := by
  have idle : NoStraggler breakerGate ⟨⟨.closed,0,1,10,0,false⟩,1,[⟨false,true⟩]⟩ (.finish 0 .failure 2) :=
    fun _ _ _ held => nomatch held.1
  have probed : Trace (step breakerGate) (NoStraggler breakerGate) brief
      [.enter true 1,.finish 0 .failure 2,.enter true 12,.enter true 12] ⟨⟨.halfOpen,1,1,10,2,true⟩,12,[⟨true,true⟩]⟩ :=
    .more trivial rfl (.more idle rfl (.more trivial rfl (.more trivial rfl (.done _))))
  have single := (halfOpenProbeUnique [.failureThreshold 1,.openTimeout 10] (fun _ _ => true) (fun _ _ => true) [] 0).1
  exact ⟨_,probed,by decide,by decide,single _ _ probed⟩

def stragglerPanics : List Op :=
  [.enter true 1,.enter true 1,.finish 1 .failure 2,.enter true 12,.finish 0 .panic 12,.enter true 12]

def adaptiveStart : System AdaptiveBreaker :=
  start (.newAdaptive (fun failures requests => 2 * failures < requests)
    (fun requests success => 2 * requests ≥ 3 * (success + 1)) [.openTimeout 10,.minRequests 1]) 0

def adaptiveStraggler : List Op :=
  let t := 5 * second
  [.enter true t,.enter true t,.enter true t,.finish 1 .failure t,.finish 1 .failure t,
    .enter true (t + 10),.finish 0 .panic (t + 10),.enter true (t + 10)]

theorem stragglerFreesProbe : ¬ SingleProbe breakerGate Free (start (new [.failureThreshold 1,.openTimeout 10]) 0) ∧
    ¬ SingleProbe adaptiveGate Free adaptiveStart := by
  refine ⟨fun single => ?_,fun single => ?_⟩
  · have two : ((run (step breakerGate) (start (new [.failureThreshold 1,.openTimeout 10]) 0)
        stragglerPanics).map fun s => probes s.calls) = some 2 := by decide
    obtain ⟨s,ran,count⟩ := Option.map_eq_some_iff.mp two
    have atMost := single _ s (runFree ran)
    omega
  have two : ((run (step adaptiveGate) adaptiveStart adaptiveStraggler).map
      fun s => probes s.calls) = some 2 := by decide
  obtain ⟨s,ran,count⟩ := Option.map_eq_some_iff.mp two
  have atMost := single _ s (runFree ran)
  omega

end Gofly.BreakerCalls
