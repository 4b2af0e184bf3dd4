import Mathlib
import Gofly.Roster
/-! Tasks that run beside each other: a task is the list of the sections ahead of it. A turn
takes the first section of one task and puts what follows from it in its place. -/
namespace Gofly.Tasks
open Roster

variable {ι : Type} {tasks : List (List ι)} {i : Nat} {x y : ι} {pushed : List ι}

def turn (tasks : List (List ι)) (i : Nat) (pushed rest : List ι) : List (List ι) :=
  tasks.set i (pushed ++ rest)
def ahead (p : ι → Bool) (tasks : List (List ι)) : Nat := (tasks.map (·.countP p)).sum

theorem pushedCount {δ : Type} (f : δ → ι) (q p) (same : ∀ d, q (f d) = p d)
    (list : List δ) : (list.map f).countP q = list.countP p := by
  have eq : q ∘ f = p := funext same
  rw [List.countP_map,eq]

theorem aheadSpawn (p : ι → Bool) (tasks task) : ahead p (tasks ++ [task]) = ahead p tasks + task.countP p := by
  simp [ahead]

theorem aheadTurn (p pushed) (got : tasks[i]? = some (x :: rest)) :
    ahead p (turn tasks i pushed rest) + (if p x then 1 else 0) = ahead p tasks + pushed.countP p := by
  induction tasks generalizing i with
  | nil => simp at got
  | cons _ _ ih =>
    cases i with
    | zero =>
      cases got
      simp only [turn,List.set_cons_zero,ahead,List.map_cons,List.sum_cons,List.countP_append, List.countP_cons]
      omega
    | succ =>
      have later := ih got
      simp only [turn,List.set_cons_succ,ahead,List.map_cons,List.sum_cons] at later ⊢
      omega

theorem aheadDone (p) (done : ∀ task ∈ tasks, task = []) : ahead p tasks = 0 := by
  refine List.sum_eq_zero fun n mem => ?_
  obtain ⟨task,inside,rfl⟩ := List.mem_map.mp mem
  rw [done task inside]
  rfl

theorem aheadMono (weaker : ∀ x, p x = true → q x = true) : ahead p tasks ≤ ahead q tasks := by
  refine List.sum_le_sum fun task _ => ?_
  exact List.countP_mono_left fun x _ => weaker x

theorem aheadPositive (got : tasks[i]? = some task) (mem : x ∈ task) (holds : p x = true) : 0 < ahead p tasks := by
  have count : 0 < task.countP p := List.countP_pos_iff.mpr ⟨x,mem,holds⟩
  have inside := List.mem_map_of_mem (f := (·.countP p)) (List.mem_of_getElem? got)
  exact count.trans_le (List.single_le_sum (by simp) _ inside)

theorem aheadNone (none : ahead p tasks = 0) (got : tasks[i]? = some task) (mem : x ∈ task) : p x = false := by
  refine Bool.eq_false_iff.mpr fun holds => ?_
  have pos := aheadPositive got mem holds
  omega

def Ahead (y : ι) (tasks : List (List ι)) : Prop := ∃ task ∈ tasks, y ∈ task

theorem aheadHere (got : tasks[i]? = some (x :: rest)) : Ahead x tasks :=
  ⟨x :: rest,List.mem_of_getElem? got,List.mem_cons_self⟩

theorem aheadSpawned (seen : Ahead y (tasks ++ [task])) : y ∈ task ∨ Ahead y tasks := by
  obtain ⟨other,mem,inside⟩ := seen
  rcases addMem mem with old | rfl
  · exact .inr ⟨other,old,inside⟩
  exact .inl inside

theorem aheadTurned (got : tasks[i]? = some (x :: rest)) (seen : Ahead y (turn tasks i pushed rest)) :
    y ∈ pushed ∨ Ahead y tasks := by
  obtain ⟨task,mem,inside⟩ := seen
  rcases List.mem_or_eq_of_mem_set mem with old | rfl
  · exact .inr ⟨task,old,inside⟩
  rcases List.mem_append.mp inside with new | old
  · exact .inl new
  exact .inr ⟨_,List.mem_of_getElem? got,List.mem_cons_of_mem _ old⟩

theorem aheadCounts (seen : Ahead y tasks) (holds : p y = true) : 0 < ahead p tasks := by
  obtain ⟨task,mem,inside⟩ := seen
  obtain ⟨i,got⟩ := List.getElem?_of_mem mem
  exact aheadPositive got inside holds

theorem aheadApart (none : ahead p tasks = 0) (seen : Ahead y tasks) : p y = false := by
  refine Bool.eq_false_iff.mpr fun holds => ?_
  have pos := aheadCounts seen holds
  omega

theorem aheadLeft (got : tasks[i]? = some (x :: rest)) (seen : Ahead y (turn tasks i pushed rest)) :
    y ∈ pushed ∨ Ahead y (turn tasks i [] rest) := by
  obtain ⟨task,mem,inside⟩ := seen
  obtain ⟨j,stands⟩ := List.getElem?_of_mem mem
  rcases setSeen stands with ⟨_,rfl⟩ | ⟨ne,other⟩
  · rcases List.mem_append.mp inside with new | kept
    · exact .inl new
    · exact .inr ⟨rest,List.mem_of_getElem? (setHere got),kept⟩
  exact .inr ⟨task,List.mem_of_getElem? (setElsewhere ne other),inside⟩

theorem aheadOnly (got : tasks[i]? = some (x :: rest))
    (last : ahead p tasks ≤ if p x then 1 else 0) (seen : Ahead y (turn tasks i pushed rest))
    (holds : p y = true) : y ∈ pushed := by
  rcases aheadLeft got seen with new | old
  · exact new
  have count := aheadTurn p [] got
  have pos := aheadCounts old holds
  simp only [List.countP_nil] at count
  omega

end Gofly.Tasks
