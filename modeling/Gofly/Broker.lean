import Gofly.Roster
import Gofly.Transition
/-! The in-memory message broker: subscriptions with a buffered channel and a fixed number of
workers, publishers that deliver to one after another, and the workers' retries and dead letters. -/
namespace Gofly.Broker
open Roster
open Transition

variable {β : Type}

structure Message (β : Type) where
  id : String
  topic : String
  content : β
  attempts : Int
  publishedAt : Nat
  deriving DecidableEq

structure SubscriptionConfig where
  buffer : Nat
  concurrency : Nat
  maxAttempts : Int
  retryBackoff : Int
  deadLetterTopic : String
  buffered : 0 < buffer
  staffed : 0 < concurrency
  deriving DecidableEq

inductive SubscribeOption where
  | withBuffer (size : Int)
  | withConcurrency (n : Int)
  | withMaxAttempts (n : Int)
  | withRetryBackoff (backoff : Int)
  | withDeadLetterTopic (topic : String)
  deriving DecidableEq

def SubscribeOption.apply (cfg : SubscriptionConfig) : SubscribeOption → SubscriptionConfig
  | .withBuffer size =>
    if positive : 0 < size then
      { cfg with buffer := size.toNat,buffered := by omega }
    else cfg
  | .withConcurrency n =>
    if positive : 0 < n then
      { cfg with concurrency := n.toNat,staffed := by omega }
    else cfg
  | .withMaxAttempts n => if 0 < n then { cfg with maxAttempts := n } else cfg
  | .withRetryBackoff backoff => if 0 ≤ backoff then { cfg with retryBackoff := backoff } else cfg
  | .withDeadLetterTopic topic => { cfg with deadLetterTopic := topic }

def newSubscriptionConfig (topic : String) (opts : List SubscribeOption) : SubscriptionConfig :=
  opts.foldl SubscribeOption.apply
    { buffer := 64,concurrency := 1,maxAttempts := 3,retryBackoff := 50 * 1000000
      deadLetterTopic := topic ++ ".dlq",buffered := by decide,staffed := by decide }

inductive Phase (β : Type) where
  | idle
  | handling (msg : Message β)
  | waiting (msg : Message β)
  | retrying (msg : Message β)
  | publishing (msg : Message β) (targets : List Nat)
  | exited
  deriving DecidableEq

structure Subscription (β : Type) where
  topic : String
  group : String
  cfg : SubscriptionConfig
  ch : List (Message β)
  cancelled : Bool
  closed : Bool
  listed : Bool
  workers : List (Phase β)
  deriving DecidableEq

structure Publisher (β : Type) where
  msg : Message β
  targets : List Nat
  deriving DecidableEq

structure World (β : Type) where
  subs : List (Subscription β)
  publishers : List (Publisher β)
  closed : Bool
  deriving DecidableEq

def start : World β := ⟨[],[],false⟩

def targets (w : World β) (topic : String) : List Nat :=
  (List.range w.subs.length).filter fun t =>
    match w.subs[t]? with
    | some s => s.listed && s.topic == topic
    | none => false

def newSubscription (topic group : String) (opts : List SubscribeOption) : Subscription β :=
  let cfg := newSubscriptionConfig topic opts
  ⟨topic,group,cfg,[],false,false,true,List.replicate cfg.concurrency .idle⟩

def subscribe (w : World β) (topic group : String) (opts : List SubscribeOption) : World β :=
  if w.closed then w
  else
    { w with
      subs := (w.subs.map fun s =>
        if s.topic = topic ∧ s.group = group then { s with listed := false } else s) ++
          [newSubscription topic group opts] }

def prepare (msg : Message β) (id : String) (now : Nat) : Message β :=
  let msg := if msg.id = "" then { msg with id := id } else msg
  if msg.publishedAt = 0 then { msg with publishedAt := now } else msg

def publish (w : World β) (msg : Message β) (id : String) (now : Nat) : World β :=
  if msg.topic = "" ∨ w.closed then w
  else { w with publishers := w.publishers ++ [⟨prepare msg id now,targets w msg.topic⟩] }

def push (w : World β) (t : Nat) (msg : Message β) : Option (World β) :=
  match w.subs[t]? with
  | some s =>
    if s.ch.length < s.cfg.buffer then some { w with subs := w.subs.set t { s with ch := s.ch ++ [msg] } }
    else none
  | none => none

def isClosed (w : World β) (t : Nat) : Bool := (w.subs[t]?).any Subscription.closed

inductive Turn where
  | receive
  | ack
  | fail
  | waited
  | gaveUp
  | retry
  | abandon
  | deadDrop (target : Nat)
  | deadDone
  | exit
  deriving DecidableEq

def failed (w : World β) (s : Subscription β) (msg : Message β) : Phase β :=
  let msg := { msg with attempts := msg.attempts + 1 }
  if s.cfg.maxAttempts ≤ msg.attempts then
    if s.cfg.deadLetterTopic = "" ∨ w.closed then .idle
    else .publishing { msg with topic := s.cfg.deadLetterTopic } (targets w s.cfg.deadLetterTopic)
  else .waiting msg

def turn (w : World β) (s : Subscription β) : Phase β → Turn → Option (Phase β × List (Message β))
  | .idle,.receive =>
    match s.ch with
    | msg :: rest => some (.handling msg,rest)
    | [] => none
  | .idle,.exit => if s.cancelled then some (.exited,s.ch) else none
  | .handling _,.ack => some (.idle,s.ch)
  | .handling msg,.fail => some (failed w s msg,s.ch)
  | .waiting msg,.waited => some (.retrying msg,s.ch)
  | .waiting _,.gaveUp => if s.cancelled then some (.idle,s.ch) else none
  | .retrying msg,.retry =>
    if s.ch.length < s.cfg.buffer then some (.idle,s.ch ++ [msg]) else none
  | .retrying _,.abandon => if s.closed || s.cancelled then some (.idle,s.ch) else none
  | .publishing msg targets,.deadDrop target =>
    if target ∈ targets ∧ isClosed w target then
      some (.publishing msg (targets.erase target),s.ch)
    else none
  | .publishing _ [],.deadDone => some (.idle,s.ch)
  | _,_ => none

inductive Act (β : Type) where
  | subscribe (topic group : String) (opts : List SubscribeOption)
  | publish (msg : Message β) (id : String) (now : Nat)
  | deliver (p t : Nat)
  | drop (p t : Nat)
  | work (t j : Nat) (turn : Turn)
  | dead (t j target : Nat)
  | cancel (t : Nat)
  | stop (t : Nat)
  | close

def Subscription.put (s : Subscription β) (j : Nat) (phase : Phase β) (ch : List (Message β)) :
    Subscription β := { s with ch := ch,workers := s.workers.set j phase }

def step (w : World β) : Act β → Option (World β)
  | .subscribe topic group opts => some (subscribe w topic group opts)
  | .publish msg id now => some (publish w msg id now)
  | .deliver p t =>
    match w.publishers[p]? with
    | some pub =>
      if t ∈ pub.targets then
        push { w with publishers := w.publishers.set p ⟨pub.msg,pub.targets.erase t⟩ } t pub.msg
      else none
    | none => none
  | .drop p t =>
    match w.publishers[p]? with
    | some pub =>
      if t ∈ pub.targets then
        some { w with publishers := w.publishers.set p ⟨pub.msg,pub.targets.erase t⟩ }
      else none
    | none => none
  | .work t j act =>
    match w.subs[t]? with
    | some s =>
      match s.workers[j]? with
      | some phase =>
        match turn w s phase act with
        | some (next,ch) => some { w with subs := w.subs.set t (s.put j next ch) }
        | none => none
      | none => none
    | none => none
  | .dead t j target =>
    match w.subs[t]? with
    | some s =>
      match s.workers[j]? with
      | some (.publishing msg targets) =>
        if target ∈ targets then
          push { w with subs := w.subs.set t (s.put j (.publishing msg (targets.erase target)) s.ch) }
            target msg
        else none
      | _ => none
    | none => none
  | .cancel t =>
    match w.subs[t]? with
    | some s => some { w with subs := w.subs.set t { s with cancelled := true } }
    | none => none
  | .stop t =>
    match w.subs[t]? with
    | some s =>
      some { w with subs := w.subs.set t { s with cancelled := true,closed := true,listed := false } }
    | none => none
  | .close => some { w with closed := true,subs := w.subs.map fun s => { s with listed := false } }

def isRetrying : Phase β → Bool
  | .retrying _ => true
  | _ => false

def Wedged (s : Subscription β) : Prop :=
  s.cancelled = false ∧ s.closed = false ∧ s.cfg.buffer ≤ s.ch.length ∧
    ∀ phase ∈ s.workers, isRetrying phase = true
instance (s : Subscription β) : Decidable (Wedged s) := by unfold Wedged; infer_instance

def retryable (cfg : SubscriptionConfig) : Phase β → Bool
  | .handling msg => decide (msg.attempts + 1 < cfg.maxAttempts)
  | .waiting _ => true
  | .retrying _ => true
  | _ => false

def Crowded (s : Subscription β) : Prop := ∀ phase ∈ s.workers, retryable s.cfg phase = true
instance (s : Subscription β) : Decidable (Crowded s) := by unfold Crowded; infer_instance

/-- The last free slot of a channel is taken only while some worker holds no message that may be retried. -/
def Spares (w : World β) (t : Nat) : Prop :=
  ∀ s ∈ w.subs[t]?, s.cfg.buffer ≤ s.ch.length + 1 → ¬ Crowded s
instance (w : World β) (t : Nat) : Decidable (Spares w t) := by unfold Spares; infer_instance

def Roomy (w : World β) : Act β → Prop
  | .deliver _ t => Spares w t
  | .dead _ _ target => Spares w target
  | _ => True
instance (w : World β) (a : Act β) : Decidable (Roomy w a) := by
  cases a <;> unfold Roomy <;> infer_instance

structure Flows (s : Subscription β) : Prop where
  fits : s.ch.length ≤ s.cfg.buffer
  drained : s.cfg.buffer ≤ s.ch.length → ¬ Crowded s

theorem flowsUnwedged (flows : Flows s) : ¬ Wedged s := by
  rintro ⟨-,-,full,blocked⟩
  refine flows.drained full fun phase mem => ?_
  have retries := blocked phase mem
  cases phase <;> first | rfl | contradiction

variable {ch : List (Message β)}
  {j t : Nat} {act : Turn}

theorem failedRetries (again : retryable s.cfg (failed w s msg) = true) : retryable s.cfg (.handling msg) = true := by
  unfold failed at again
  simp only at again
  split at again
  · split at again <;> contradiction
  simp only [retryable,decide_eq_true_eq]
  omega

theorem turnEffect (flows : Flows s) (turned : turn w s phase act = some (after,ch)) :
    (ch = s.ch ∧ (retryable s.cfg after = true → retryable s.cfg phase = true)) ∨
      (ch.length ≤ s.cfg.buffer ∧ retryable s.cfg after = false) ∨ ch.length < s.cfg.buffer := by
  unfold turn at turned
  split at turned <;> try contradiction
  · split at turned <;> cases turned
    rename_i held
    have fits := flows.fits
    rw [held] at fits
    exact .inr (.inr fits)
  · split at turned <;> cases turned
    exact .inr (.inl ⟨flows.fits,rfl⟩)
  · cases turned
    exact .inr (.inl ⟨flows.fits,rfl⟩)
  · cases turned
    exact .inl ⟨rfl,failedRetries⟩
  · cases turned
    exact .inl ⟨rfl,fun _ => rfl⟩
  · split at turned <;> cases turned
    exact .inr (.inl ⟨flows.fits,rfl⟩)
  · split at turned <;> cases turned
    exact .inr (.inl ⟨by simp; omega,rfl⟩)
  · split at turned <;> cases turned
    exact .inr (.inl ⟨flows.fits,rfl⟩)
  · split at turned <;> cases turned
    exact .inr (.inl ⟨flows.fits,rfl⟩)
  cases turned
  exact .inr (.inl ⟨flows.fits,rfl⟩)

theorem putCrowded (got : s.workers[j]? = some phase) (crowded : Crowded (s.put j after ch)) :
    retryable s.cfg after = true ∧ (retryable s.cfg phase = true → Crowded s) := by
  refine ⟨crowded after (List.mem_of_getElem? (setHere got)),fun held x mem => ?_⟩
  obtain ⟨k,here⟩ := List.getElem?_of_mem mem
  by_cases eq : j = k
  · subst eq
    cases Option.mem_unique got here
    exact held
  exact crowded x (List.mem_of_getElem? (setElsewhere eq here))

theorem turnFlows (flows : Flows s) (got : s.workers[j]? = some phase)
    (turned : turn w s phase act = some (after,ch)) : Flows (s.put j after ch) := by
  rcases turnEffect flows turned with ⟨rfl,held⟩ | ⟨fits,freed⟩ | room
  · refine ⟨flows.fits,fun full crowded => ?_⟩
    obtain ⟨again,old⟩ := putCrowded got crowded
    exact flows.drained full (old (held again))
  · refine ⟨fits,fun _ crowded => ?_⟩
    have again := (putCrowded got crowded).1
    rw [freed] at again
    contradiction
  exact ⟨Nat.le_of_lt room,fun full => absurd full (Nat.not_le_of_lt room)⟩

def AllFlow (w : World β) : Prop := ∀ s ∈ w.subs, Flows s

theorem setFlows (flow : AllFlow w) (flows : Flows s) : AllFlow { w with subs := w.subs.set t s } := fun x mem => by
  rcases List.mem_or_eq_of_mem_set mem with old | rfl
  · exact flow x old
  exact flows

theorem pushFlows (flow : AllFlow w) (spares : Spares w t) (pushed : push w t msg = some next) : AllFlow next := by
  unfold push at pushed
  split at pushed <;> try contradiction
  rename_i s got
  split at pushed <;> cases pushed
  refine setFlows flow ⟨?_,fun full => ?_⟩
  · simp only [List.length_append,List.length_singleton]
    omega
  simp only [List.length_append] at full
  exact spares s got full

theorem deadFlows (flow : AllFlow w)
    (spares : Spares w target) (got : w.subs[t]? = some s) (held : s.workers[j]? = some phase)
    (pushed : push { w with subs := w.subs.set t (s.put j (.publishing msg left) s.ch) }
      target msg = some next) : AllFlow next := by
  have free : ¬ Crowded (s.put j (.publishing msg left) s.ch) := fun crowded => by
    have again := (putCrowded held crowded).1
    contradiction
  have flows : Flows (s.put j (.publishing msg left) s.ch) := ⟨(flow s (List.mem_of_getElem? got)).fits,fun _ => free⟩
  refine pushFlows (setFlows flow flows) ?_ pushed
  intro x seen last
  rcases setSeen seen with ⟨-,rfl⟩ | ⟨-,old⟩
  · exact free
  exact spares x old last

theorem stepFlows (flow : AllFlow w) (roomy : Roomy w a) (ran : step w a = some next) : AllFlow next := by
  cases a with
  | subscribe topic group opts =>
    cases ran
    unfold subscribe
    split
    · exact flow
    intro x mem
    rcases addMem mem with old | rfl
    · obtain ⟨s,before,rfl⟩ := List.mem_map.mp old
      have flows := flow s before
      split
      · exact { flows with }
      exact flows
    refine ⟨Nat.zero_le _,fun full => ?_⟩
    exact absurd full (Nat.not_le_of_lt (newSubscriptionConfig topic opts).buffered)
  | publish =>
    cases ran
    unfold publish
    split <;> exact flow
  | deliver =>
    simp only [step] at ran
    split at ran <;> try contradiction
    split at ran <;> try contradiction
    refine pushFlows ?_ ?_ ran
    · exact flow
    exact roomy
  | drop =>
    simp only [step] at ran
    split at ran <;> try contradiction
    split at ran <;> cases ran
    exact flow
  | work =>
    simp only [step] at ran
    split at ran <;> try contradiction
    rename_i s got
    split at ran <;> try contradiction
    rename_i phase held
    split at ran <;> cases ran
    exact setFlows flow (turnFlows (flow s (List.mem_of_getElem? got)) held ‹_›)
  | dead =>
    simp only [step] at ran
    split at ran <;> try contradiction
    rename_i s got
    split at ran <;> try contradiction
    rename_i held
    split at ran <;> try contradiction
    exact deadFlows flow roomy got held ran
  | cancel | stop =>
    simp only [step] at ran
    split at ran <;> cases ran
    rename_i s got
    have flows := flow s (List.mem_of_getElem? got)
    exact setFlows flow { flows with }
  | close =>
    cases ran
    intro x mem
    obtain ⟨s,before,rfl⟩ := List.mem_map.mp mem
    have flows := flow s before
    exact { flows with }

def order (id : String) : Message Unit := ⟨id,"orders",(),0,1⟩

def spacious : List (Act Unit) :=
  [.subscribe "orders" "billing" [.withBuffer 2],.publish (order "a") "" 1,.deliver 0 0,
    .work 0 0 .receive,.publish (order "b") "" 1,.deliver 1 0,.work 0 0 .fail,
    .work 0 0 .waited,.work 0 0 .retry]

def cramped : List (Act Unit) :=
  [.subscribe "orders" "billing" [.withBuffer 1],.publish (order "a") "" 1,.deliver 0 0,
    .work 0 0 .receive,.publish (order "b") "" 1,.deliver 1 0,.work 0 0 .fail,
    .work 0 0 .waited]

end Gofly.Broker
