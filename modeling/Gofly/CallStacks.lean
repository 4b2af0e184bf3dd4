import Mathlib.Logic.Function.Basic
import Mathlib.Logic.Relation
/-! Stacks of calls, one for each thread and the innermost call first. -/
namespace Gofly.CallStacks
open Relation
open Function (update update_apply)

variable {τ κ : Type} [DecidableEq τ] {calls : τ → List κ} {g : τ}
def Open (calls : τ → List κ) (k : κ) : Prop := ∃ g, k ∈ calls g

structure Apart (calls : τ → List κ) : Prop where
  distinct : ∀ g, (calls g).Nodup
  alone : ∀ {g h k}, k ∈ calls g → k ∈ calls h → g = h

theorem updateSeen (seen : j ∈ update calls g rest h) : h = g ∧ j ∈ rest ∨ h ≠ g ∧ j ∈ calls h := by
  rw [update_apply] at seen
  split at seen
  · exact .inl ⟨‹_›,seen⟩
  exact .inr ⟨‹_›,seen⟩

theorem openPush : Open (update calls g (k :: calls g)) j ↔ j = k ∨ Open calls j := by
  constructor
  · rintro ⟨h,mem⟩
    rcases updateSeen mem with ⟨_,mem⟩ | ⟨_,mem⟩
    · exact (List.mem_cons.mp mem).imp id fun inside => ⟨g,inside⟩
    exact .inr ⟨h,mem⟩
  rintro (rfl | ⟨h,mem⟩)
  · exact ⟨g,by simp⟩
  refine ⟨h,?_⟩
  rw [update_apply]
  split
  · exact List.mem_cons_of_mem k (‹_› ▸ mem)
  exact mem

theorem apartPush (ne : Apart calls) (fresh : ¬Open calls k) : Apart (update calls g (k :: calls g)) := by
  constructor
  · intro h
    rw [update_apply]
    split
    · exact List.nodup_cons.mpr ⟨fun inside => fresh ⟨g,inside⟩,ne.distinct g⟩
    exact ne.distinct h
  intro h i j one two
  rcases updateSeen one with ⟨rfl,left⟩ | ⟨_,left⟩ <;> rcases updateSeen two with ⟨rfl,right⟩ | ⟨_,right⟩
  · rfl
  · rcases List.mem_cons.mp left with rfl | inside
    · exact absurd ⟨i,right⟩ fresh
    · exact ne.alone inside right
  · rcases List.mem_cons.mp right with rfl | inside
    · exact absurd ⟨h,left⟩ fresh
    · exact ne.alone left inside
  exact ne.alone left right

theorem openPop (ne : Apart calls) (called : calls g = k :: rest) :
    Open (update calls g rest) j ↔ j ≠ k ∧ Open calls j := by
  have once := ne.distinct g
  rw [called,List.nodup_cons] at once
  have mine : k ∈ calls g := by simp [called]
  constructor
  · rintro ⟨h,mem⟩
    rcases updateSeen mem with ⟨_,mem⟩ | ⟨elsewhere,mem⟩
    · exact ⟨fun eq => once.1 (eq ▸ mem),g,by simp [called,mem]⟩
    exact ⟨fun eq => elsewhere (ne.alone (eq ▸ mem) mine),h,mem⟩
  rintro ⟨other,h,mem⟩
  refine ⟨h,?_⟩
  rw [update_apply]
  split
  · rename_i here
    rw [here,called] at mem
    exact (List.mem_cons.mp mem).resolve_left other
  exact mem

theorem apartPop (ne : Apart calls) (called : calls g = k :: rest) : Apart (update calls g rest) := by
  have inside : ∀ {h j}, j ∈ update calls g rest h → j ∈ calls h := by
    intro h j seen
    rcases updateSeen seen with ⟨rfl,mem⟩ | ⟨_,mem⟩
    · simp [called,mem]
    exact mem
  constructor
  · intro h
    rw [update_apply]
    split
    · have once := ne.distinct g
      rw [called,List.nodup_cons] at once
      exact once.2
    exact ne.distinct h
  exact fun left right => ne.alone (inside left) (inside right)

def Descends (dep : κ → κ → Prop) (stack : List κ) : Prop :=
  stack.Pairwise fun inner outer => TransGen dep outer inner


theorem descendsPush (descends : Descends dep (top :: rest)) (edge : dep top k) : Descends dep (k :: top :: rest) := by
  refine List.pairwise_cons.mpr ⟨fun outer mem => ?_,descends⟩
  rcases List.mem_cons.mp mem with rfl | inside
  · exact .single edge
  exact .tail ((List.pairwise_cons.mp descends).1 outer inside) edge

theorem descendsFresh (acyclic : ∀ k, ¬TransGen dep k k) (descends : Descends dep (k :: rest)) : k ∉ rest :=
  fun mem => acyclic k ((List.pairwise_cons.mp descends).1 k mem)

end Gofly.CallStacks
