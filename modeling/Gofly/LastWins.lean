import Gofly.Ranking
/-! A table filled from a list in order: of the elements with one key the last one stays.
Its entries are listed from the back. -/
namespace Gofly.LastWins
open Ranking

variable {α κ : Type} [DecidableEq κ] {key : α → κ} {list : List α} {x y : α} {k : κ}

def table (key : α → κ) (list : List α) : List α := Ranking.firsts key [] list.reverse
def lookup (key : α → κ) (list : List α) (k : κ) : Option α := (table key list).find? fun x => key x = k

theorem firstsFind (seen) (new : k ∉ seen) (list) :
    (firsts key seen list).find? (fun x => key x = k) = list.find? fun x => key x = k := by
  induction list generalizing seen with
  | nil => rfl
  | cons x _ ih =>
    by_cases eq : key x = k
    · simp [firsts,eq,new]
    by_cases old : key x ∈ seen
    · simp [firsts,old,eq,ih seen new]
    simp [firsts,old,eq,ih (key x :: seen) (by simp [new,Ne.symm eq])]

theorem lookupLast (list k) : lookup key list k = list.reverse.find? fun x => key x = k := firstsFind [] (by simp) _

theorem firstsMem (mem : x ∈ firsts key seen list) :
    key x ∉ seen ∧ list.find? (fun y => key y = key x) = some x := by
  induction list generalizing seen with
  | nil => simp [firsts] at mem
  | cons z _ ih =>
    simp only [firsts] at mem
    split at mem
    · rename_i old
      obtain ⟨new,got⟩ := ih mem
      have other : key z ≠ key x := fun eq => new (eq ▸ old)
      exact ⟨new,by simpa [other] using got⟩
    rename_i fresh
    rcases List.mem_cons.mp mem with rfl | later
    · exact ⟨fresh,by simp⟩
    obtain ⟨new,got⟩ := ih later
    rw [List.mem_cons,not_or] at new
    exact ⟨new.2,by simpa [Ne.symm new.1] using got⟩

theorem tableIff : x ∈ table key list ↔ lookup key list (key x) = some x := by
  refine ⟨fun mem => ?_,List.mem_of_find?_eq_some⟩
  rw [lookupLast]
  exact (firstsMem mem).2

section
variable (got : lookup key list k = some x)
include got

theorem lookupKey : key x = k := by simpa using List.find?_some got

theorem lookupMem : x ∈ list := by
  rw [lookupLast] at got
  exact List.mem_reverse.mp (List.mem_of_find?_eq_some got)

theorem lookupTable : x ∈ table key list := List.mem_of_find?_eq_some got
end

theorem lookupSome (key : α → κ) (mem : x ∈ list) : ∃ y, lookup key list (key x) = some y := by
  rw [lookupLast,← Option.isSome_iff_exists,List.find?_isSome]
  exact ⟨x,List.mem_reverse.mpr mem,by simp⟩

section
variable (distinct : (list.map key).Nodup)
include distinct

theorem lookupOnly (mem : x ∈ list) : lookup key list (key x) = some x := by
  obtain ⟨y,got⟩ := lookupSome key mem
  rw [got,List.inj_on_of_nodup_map distinct (lookupMem got) mem (lookupKey got)]

theorem lookupPerm (perm : list.Perm other) (k) : lookup key list k = lookup key other k := by
  have also : (other.map key).Nodup := (perm.map key).nodup_iff.mp distinct
  refine Option.ext fun x => ⟨fun got => ?_,fun got => ?_⟩
  · cases lookupKey got
    exact lookupOnly also (perm.mem_iff.mp (lookupMem got))
  cases lookupKey got
  exact lookupOnly distinct (perm.mem_iff.mpr (lookupMem got))

theorem firstsDistinct (new : ∀ x ∈ list, key x ∉ seen) : firsts key seen list = list := by
  induction list generalizing seen with
  | nil => rfl
  | cons x _ ih =>
    obtain ⟨ne,distinct⟩ := List.nodup_cons.mp distinct
    rw [firsts,if_neg (new x (by simp)),ih distinct]
    intro y mem
    rw [List.mem_cons,not_or]
    exact ⟨fun eq => ne (List.mem_map.mpr ⟨y,mem,eq⟩),new y (by simp [mem])⟩

theorem tableDistinct : table key list = list.reverse := by
  refine firstsDistinct ?_ (by simp)
  rw [List.map_reverse]
  exact List.nodup_reverse.mpr distinct
end
end Gofly.LastWins
