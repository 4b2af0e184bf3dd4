import Mathlib.Data.List.Perm.Basic
import Gofly.Mailbox
import Gofly.Transition
/-! The pool that sends shadow traffic: requests hand tasks to its workers, and a shutdown closes
the channel between them. -/
namespace Gofly.Gateway.Shadow
open Mailbox Transition

variable {τ : Type}

inductive Wait where
  | waiting | drained | expired
  deriving DecidableEq

structure World (τ : Type) where
  tasks : Box τ
  idle : Nat
  hand : List τ
  left : Nat
  waits : List Wait
  accepted : List τ
  processed : List τ
  panicked : Bool

inductive Act (τ : Type) where
  | enqueueShadow (task : τ)
  | take
  | sendShadow (i : Nat)
  | leave
  | shutdown
  | drained (k : Nat)
  | expired (k : Nat)

def withShadowPool (workers queue : Int) : World τ :=
  ⟨⟨if queue ≤ 0 then 1024 else queue.toNat,[],false⟩,if workers ≤ 0 then 4 else workers.toNat,[],0,[],[],[],false⟩

def World.step (w : World τ) : Act τ → Option (World τ)
  | .enqueueShadow task =>
    -- the select takes a closed channel's send before its default
    match w.tasks.offer task false with
    | (tasks,.taken) => some { w with tasks,accepted := w.accepted ++ [task] }
    | (_,.full) => some w
    | (_,.fault) => some { w with panicked := true }
  | .take =>
    match w.idle, w.tasks.queue with
    | idle + 1,task :: _ => some { w with tasks := w.tasks.poll,idle,hand := task :: w.hand }
    | _,_ => none
  | .sendShadow i =>
    match w.hand[i]? with
    | some task => some { w with hand := w.hand.eraseIdx i,idle := w.idle + 1,processed := w.processed ++ [task] }
    | none => none
  | .leave =>
    match w.idle, w.tasks.queue, w.tasks.closed with
    | idle + 1,[],true => some { w with idle,left := w.left + 1 }
    | _,_,_ => none
  | .shutdown => some { w with tasks := w.tasks.shut.getD w.tasks,waits := w.waits ++ [.waiting] }
  | .drained k =>
    if w.waits[k]? = some .waiting ∧ w.idle = 0 ∧ w.hand = [] then some { w with waits := w.waits.set k .drained } else none
  | .expired k => if w.waits[k]? = some .waiting then some { w with waits := w.waits.set k .expired } else none

def open_ (w : World τ) : Act τ → Bool
  | .enqueueShadow _ => !w.tasks.closed
  | _ => true

def Act.byWorker : Act τ → Bool
  | .take | .sendShadow _ | .leave => true
  | _ => false

def World.ahead (w : World τ) : Nat := 3 * w.tasks.queue.length + 2 * w.hand.length + w.idle

structure Sound (w : World τ) : Prop where
  calm : w.panicked = false
  exact : w.accepted.Perm (w.processed ++ w.hand ++ w.tasks.queue)
  staffed : 0 < w.idle + w.hand.length + w.left
  emptied : 0 < w.left → w.tasks.closed = true ∧ w.tasks.queue = []
  drained : Wait.drained ∈ w.waits → w.idle = 0 ∧ w.hand = []

theorem Sound.finished (sound : Sound w) (gone : w.hand = []) (empty : w.tasks.queue = []) :
    w.accepted.Perm w.processed := by
  simpa [gone,empty] using sound.exact

inductive Moved (w : World τ) : Act τ → World τ → Prop where
  | refused (task : τ) : Moved w (.enqueueShadow task) w
  | accepted (task : τ) (opened : w.tasks.closed = false) : Moved w (.enqueueShadow task)
      { w with tasks.queue := w.tasks.queue ++ [task],accepted := w.accepted ++ [task] }
  | panicked (task : τ) (closed : w.tasks.closed = true) : Moved w (.enqueueShadow task) { w with panicked := true }
  | took {idle task rest} (free : w.idle = idle + 1) (first : w.tasks.queue = task :: rest) :
      Moved w .take { w with tasks.queue := rest,idle,hand := task :: w.hand }
  | sent {i task} (held : w.hand[i]? = some task) : Moved w (.sendShadow i)
      { w with hand := w.hand.eraseIdx i,idle := w.idle + 1,processed := w.processed ++ [task] }
  | gone {idle} (free : w.idle = idle + 1) (empty : w.tasks.queue = []) (closed : w.tasks.closed = true) :
      Moved w .leave { w with idle,left := w.left + 1 }
  | closed : Moved w .shutdown { w with tasks.closed := true,waits := w.waits ++ [.waiting] }
  | finished {k} (idle : w.idle = 0) (hand : w.hand = []) :
      Moved w (.drained k) { w with waits := w.waits.set k .drained }
  | expired {k} : Moved w (.expired k) { w with waits := w.waits.set k .expired }

theorem stepCases (h : w.step a = some next) : Moved w a next := by
  cases a with
  | enqueueShadow task =>
    simp only [World.step,Box.offer] at h
    split at h
    · rename_i got
      split_ifs at got <;> cases got <;> cases h
      · exact .accepted task (Bool.eq_false_iff.mpr ‹_›)
      simp_all
    · cases h
      exact .refused task
    rename_i got
    split_ifs at got with closed <;> cases got
    cases h
    exact .panicked task closed
  | take =>
    simp only [World.step] at h
    split at h <;> cases h
    rename_i free first
    rw [Box.poll,first]
    exact .took free first
  | sendShadow =>
    simp only [World.step] at h
    split at h <;> cases h
    exact .sent ‹_›
  | leave =>
    simp only [World.step] at h
    split at h <;> cases h
    rename_i free empty closed
    exact .gone free empty closed
  | shutdown =>
    cases h
    have eq : w.tasks.shut.getD w.tasks = { w.tasks with closed := true } := by
      unfold Box.shut
      split
      · rename_i closed
        rw [Option.getD_none,← closed]
      rfl
    rw [eq]
    exact .closed
  | drained =>
    simp only [World.step] at h
    split at h <;> cases h
    rename_i ready
    exact .finished ready.2.1 ready.2.2
  | expired =>
    simp only [World.step] at h
    split at h <;> cases h
    exact .expired

theorem soundKept (sound : Sound w) (fits : open_ w a = true) (h : w.step a = some next) : Sound next := by
  obtain ⟨calm,exact,staffed,emptied,drained⟩ := sound
  cases stepCases h with
  | refused => exact ⟨calm,exact,staffed,emptied,drained⟩
  | accepted task opened =>
    refine ⟨calm,?_,staffed,fun gone => ?_,drained⟩
    · rw [← List.append_assoc]
      exact exact.append_right [task]
    rw [(emptied gone).1] at opened
    contradiction
  | panicked _ closed => simp [open_,closed] at fits
  | @took _ _ _ free first =>
    refine ⟨calm,?_,?_,fun gone => ?_,fun done => ?_⟩
    · rw [first] at exact
      refine exact.trans ?_
      simpa using List.perm_middle.append_left w.processed
    · simp only [List.length_cons]
      omega
    · rw [first] at emptied
      exact absurd (emptied gone).2 (List.cons_ne_nil _ _)
    rw [free] at drained
    exact absurd (drained done).1 (Nat.succ_ne_zero _)
  | @sent _ _ held =>
    obtain ⟨mem,rfl⟩ := List.getElem_of_getElem? held
    refine ⟨calm,exact.trans ?_,by dsimp only; omega,emptied,fun done => ?_⟩
    · rw [List.append_assoc,List.append_assoc,List.append_assoc]
      exact ((List.getElem_cons_eraseIdx_perm mem).symm.append_right _).append_left _
    rw [(drained done).2] at mem
    contradiction
  | gone free empty closed =>
    refine ⟨calm,exact,by dsimp only; omega,fun _ => ⟨closed,empty⟩,fun done => ?_⟩
    rw [free] at drained
    exact absurd (drained done).1 (Nat.succ_ne_zero _)
  | closed =>
    refine ⟨calm,exact,staffed,fun gone => ⟨rfl,(emptied gone).2⟩,fun done => drained ?_⟩
    simpa using done
  | finished idle hand => exact ⟨calm,exact,staffed,emptied,fun _ => ⟨idle,hand⟩⟩
  | expired =>
    refine ⟨calm,exact,staffed,emptied,fun done => drained ?_⟩
    rcases List.mem_or_eq_of_mem_set done with old | same
    · exact old
    contradiction

theorem poolSound
    (h : Trace World.step (fun w a => open_ w a = true) (withShadowPool workers queue) as w) : Sound w := by
  refine traceInvariant (fun _ _ _ sound fits ran => soundKept sound fits ran) h
    ⟨rfl,.refl _,?_,by simp [withShadowPool],by simp [withShadowPool]⟩
  simp only [withShadowPool]
  split <;> omega

theorem aheadLess {w : World τ} (worker : a.byWorker = true) (h : w.step a = some next) : next.ahead < w.ahead := by
  cases stepCases h with
  | took free first =>
    simp only [World.ahead,first,List.length_cons]
    omega
  | sent held =>
    obtain ⟨mem,-⟩ := List.getElem_of_getElem? held
    simp only [World.ahead,List.length_eraseIdx_of_lt mem]
    omega
  | gone free =>
    simp only [World.ahead]
    omega
  | _ => contradiction

theorem restingFinished (sound : Sound w) (rest : ∀ a : Act τ, a.byWorker = true → w.step a = none) :
    w.accepted.Perm w.processed := by
  have gone : w.hand = [] := by
    cases hand : w.hand with
    | nil => rfl
    | cons => simpa [World.step,hand] using rest (.sendShadow 0) rfl
  have empty : w.tasks.queue = [] := by
    cases queue : w.tasks.queue with
    | nil => rfl
    | cons =>
      cases idle : w.idle with
      | zero =>
        have staffed := sound.staffed
        rw [idle,gone] at staffed
        exact queue ▸ (sound.emptied (by simpa using staffed)).2
      | succ => simpa [World.step,idle,queue] using rest .take rfl
  exact sound.finished gone empty

/-- Nothing is sent on the closed channel, and every accepted task is sent once at most, and by
the time the workers rest. -/
theorem shadowDrained {workers queue : Int} {as : List (Act τ)} {w : World τ}
    (h : Trace World.step (fun w a => open_ w a = true) (withShadowPool workers queue) as w) :
    w.panicked = false ∧ w.accepted.Perm (w.processed ++ w.hand ++ w.tasks.queue) ∧
      (∀ a next, a.byWorker = true → w.step a = some next → next.ahead < w.ahead) ∧
      ((∀ a : Act τ, a.byWorker = true → w.step a = none) → w.accepted.Perm w.processed) ∧
      (.drained ∈ w.waits → w.accepted.Perm w.processed) := by
  have sound := poolSound h
  refine ⟨sound.calm,sound.exact,fun a next worker moved => aheadLess worker moved,restingFinished sound,fun done => ?_⟩
  obtain ⟨idle,gone⟩ := sound.drained done
  have staffed := sound.staffed
  rw [idle,gone] at staffed
  exact sound.finished gone (sound.emptied (by simpa using staffed)).2

theorem lateTaskPanics : ∃ w, run World.step (withShadowPool 1 1) [.shutdown,.enqueueShadow 0] = some w ∧
    w.panicked = true := ⟨_,rfl,rfl⟩

theorem drainedInTime : ∃ w, Trace World.step (fun (w : World Nat) a => open_ w a = true) (withShadowPool 1 1)
    [.enqueueShadow 7,.shutdown,.take,.sendShadow 0,.leave,.drained 0] w ∧ [7].Perm w.processed := by
  have trace : Trace World.step (fun (w : World Nat) a => open_ w a = true) (withShadowPool 1 1)
      [.enqueueShadow 7,.shutdown,.take,.sendShadow 0,.leave,.drained 0]
      ⟨⟨1,[],true⟩,0,[],1,[.drained],[7],[7],false⟩ :=
    .more rfl rfl (.more rfl rfl (.more rfl rfl (.more rfl rfl (.more rfl rfl (.more rfl rfl (.done _))))))
  exact ⟨_,trace,(shadowDrained trace).2.2.2.2 (by decide)⟩

end Gofly.Gateway.Shadow
