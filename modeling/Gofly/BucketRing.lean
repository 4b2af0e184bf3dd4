import Mathlib.Algebra.BigOperators.Group.List.Basic
import Mathlib.Tactic.Linarith
import Mathlib.Tactic.Ring
import Gofly.Roster
/-! A ring of slots for a sliding window. An event belongs to the bucket that its time falls
into; a bucket is known by its start, and the start tells the slot. -/
namespace Gofly.BucketRing
open Roster

structure Slot (M : Type) where
  start : Option Int
  load : M
  deriving DecidableEq

section

def place (origin size : Int) (n : Nat) (start : Int) : Nat :=
  let index := ((start - origin).tdiv size).tmod n
  (if index < 0 then -index else index).toNat

variable {s t : Int} {n : Nat}

theorem placeDistance (origin size n s) : place origin size n s = (s - origin).natAbs / size.natAbs % n := by
  have index : place origin size n s = (((s - origin).tdiv size).tmod n).natAbs := by
    unfold place
    simp only
    split <;> omega
  rw [index,Int.natAbs_tmod,Int.natAbs_tdiv]
  rfl

theorem placeInside (pos : 0 < n) : place origin size n s < n := by
  rw [placeDistance]
  exact Nat.mod_lt _ pos

theorem distanceApart {size} (more : a = b + k * size) (pos : 0 < size)
    (near : k < n) (eq : a / size % n = b / size % n) : k = 0 := by
  have quotient : a / size = b / size + k := by rw [more,Nat.add_mul_div_right _ _ pos]
  have around : k % n = 0 := by
    have difference := Nat.sub_mod_eq_zero_of_mod_eq eq
    rwa [quotient,Nat.add_sub_cancel_left] at difference
  rwa [Nat.mod_eq_of_lt near] at around

theorem placeApart (pos : 0 < size) (side : s < origin ↔ t < origin) {k : Nat}
    (later : t = s + k * size) (near : k < n) (eq : place origin size n s = place origin size n t) : s = t := by
  rw [placeDistance,placeDistance] at eq
  have whole : 0 < size.natAbs := by omega
  have none : k = 0 := by
    by_cases old : s < origin
    · refine distanceApart (a := (s - origin).natAbs) (b := (t - origin).natAbs) ?_ whole near eq
      zify
      rw [abs_of_neg (by omega),abs_of_neg (by omega),abs_of_pos pos,later]
      ring
    refine distanceApart (a := (t - origin).natAbs) (b := (s - origin).natAbs) ?_ whole near eq.symm
    zify
    rw [abs_of_nonneg (by omega),abs_of_nonneg (by omega),abs_of_pos pos,later]
    ring
  rw [later,none]
  simp
end
variable {M : Type} [AddCommMonoid M]

def record (j : Nat) (s : Int) (x : M) (slots : List (Slot M)) : List (Slot M) :=
  slots.modify j fun slot => if slot.start = some s then ⟨some s,slot.load + x⟩ else ⟨some s,x⟩

def total (live : Int → Bool) (slots : List (Slot M)) : M :=
  (slots.map fun slot => if slot.start.any live then slot.load else 0).sum
def weight (log : List (Int × M)) (p : Int → Bool) : M := ((log.filter fun e => p e.1).map Prod.snd).sum

structure Tracks (seat : Int → Nat) (live : Int → Bool) (slots : List (Slot M)) (log : List (Int × M)) :
    Prop where
  placed : ∀ j slot s, slots[j]? = some slot → slot.start = some s → j = seat s
  loads : ∀ slot ∈ slots, ∀ s, slot.start = some s → slot.load = weight log (· == s)
  held : ∀ e ∈ log, live e.1 = true → ∃ slot, slots[seat e.1]? = some slot ∧ slot.start = some e.1

section

theorem sumSingle {α : Type} {list : List α} {p : α → Bool} {j : Nat} {y : α} (x : M)
    (here : list[j]? = some y) (holds : p y = true) (only : ∀ i z, list[i]? = some z → p z = true → i = j) :
    (list.map fun z => if p z then x else 0).sum = x := by
  induction list generalizing j with
  | nil => simp at here
  | cons z rest ih =>
    cases j with
    | zero =>
      cases here
      have others : ∀ z ∈ rest, p z = false := by
        intro z mem
        obtain ⟨i,got⟩ := List.getElem?_of_mem mem
        exact Bool.eq_false_iff.mpr fun also => by simpa using only (i + 1) z got also
      have none : (rest.map fun z => if p z then x else 0) = rest.map fun _ => 0 :=
        List.map_congr_left fun z mem => by simp [others z mem]
      simp [holds,none]
    | succ =>
      have first : p z = false := Bool.eq_false_iff.mpr fun also => by simpa using only 0 z rfl also
      have rest := ih here fun i z got also => Nat.succ.inj (only (i + 1) z got also)
      simpa [first] using rest

variable {seat : Int → Nat} {slots : List (Slot M)}

theorem weightCons (e : Int × M) (rest p) : weight (e :: rest) p = (if p e.1 then e.2 else 0) + weight rest p := by
  unfold weight
  by_cases counts : p e.1 = true <;> simp [counts]

def share (live : Int → Bool) (log : List (Int × M)) (slot : Slot M) : M :=
  slot.start.elim 0 fun s => if live s then weight log (· == s) else 0

theorem shareCons (e : Int × M) (rest slot) : share live (e :: rest) slot =
      (if slot.start == some e.1 && live e.1 then e.2 else 0) + share live rest slot := by
  unfold share
  cases slot.start with
  | none => simp
  | some s =>
    by_cases same : e.1 = s
    · subst same
      by_cases alive : live e.1 = true <;> simp [weightCons,alive]
    have other : ¬ s = e.1 := fun eq => same eq.symm
    cases live s <;> simp [weightCons,same,other]

theorem sharesWeight (placed : ∀ j slot s, slots[j]? = some slot → slot.start = some s → j = seat s)
    (held : ∀ e ∈ log, live e.1 = true → ∃ slot, slots[seat e.1]? = some slot ∧ slot.start = some e.1) :
    (slots.map (share live log)).sum = weight log live := by
  induction log with
  | nil =>
    refine List.sum_eq_zero fun x mem => ?_
    obtain ⟨slot,-,rfl⟩ := List.mem_map.mp mem
    unfold share
    cases slot.start <;> simp [weight]
  | cons e rest ih =>
    have later := ih fun e mem => held e (List.mem_cons_of_mem _ mem)
    have here : (slots.map fun slot => if slot.start == some e.1 && live e.1 then e.2 else 0).sum =
        if live e.1 then e.2 else 0 := by
      cases alive : live e.1 with
      | false => simp
      | true =>
        obtain ⟨slot,got,start⟩ := held e List.mem_cons_self alive
        simpa using sumSingle e.2 got (p := fun slot => slot.start == some e.1) (by simp [start])
          fun i z seen also => placed i z e.1 seen (by simpa using also)
    have shares : slots.map (share live (e :: rest)) = slots.map fun slot =>
        (if slot.start == some e.1 && live e.1 then e.2 else 0) + share live rest slot :=
      List.map_congr_left fun slot _ => shareCons e rest slot
    rw [shares,List.sum_map_add,later,here,weightCons]

theorem trackedTotal (tracks : Tracks seat live slots log) : total live slots = weight log live := by
  rw [← sharesWeight tracks.placed tracks.held]
  refine congrArg List.sum (List.map_congr_left fun slot mem => ?_)
  unfold share
  cases start : slot.start with
  | none => rfl
  | some s => simp [tracks.loads slot mem s start]
end
section
variable {β : Type} {slot : β → Slot M} {s : Int} {x : M}

theorem modifyRecords (list : List β) (j) (agree : ∀ c, slot (f c) =
      if (slot c).start = some s then ⟨some s,(slot c).load + x⟩ else ⟨some s,x⟩) :
    (list.modify j f).map slot = record j s x (list.map slot) := by
  induction list generalizing j with
  | nil => cases j <;> rfl
  | cons _ _ ih =>
    cases j with
    | zero => simp [record,agree]
    | succ j => simpa [record] using ih j

theorem foldTotals (live) (list : List β) (sum)
    (agree : ∀ sum c, f sum c = sum + if (slot c).start.any live then (slot c).load else 0) :
    list.foldl f sum = sum + total live (list.map slot) := by
  induction list generalizing sum with
  | nil => simp [total]
  | cons _ _ ih =>
    rw [List.foldl_cons,ih,agree]
    simp [total,add_assoc]
end
section

variable {slots : List (Slot M)} {log : List (Int × M)}
  {s : Int} {x : M}

theorem weightNone (none : ∀ e ∈ log, p e.1 = false) : weight log p = 0 := by
  have empty : log.filter (fun e => p e.1) = [] := List.filter_eq_nil_iff.mpr fun e mem => by simp [none e mem]
  rw [weight,empty,List.map_nil,List.sum_nil]

theorem recordLoad {j : Nat} (tracks : Tracks seat live slots log) (alive : live s = true)
    (seen : (record (seat s) s x slots)[j]? = some slot) (start : slot.start = some t) :
    slot.load = weight ((s,x) :: log) (· == t) := by
  obtain ⟨old,got,rfl⟩ := modifySeen seen
  rw [weightCons]
  by_cases here : seat s = j
  · rw [if_pos here] at start ⊢
    subst here
    split at start <;> cases start
    · rename_i eq
      rw [if_pos eq,tracks.loads old (List.mem_of_getElem? got) s eq,add_comm]
      simp
    rename_i taken
    -- An older event of the bucket would be live and would have its slot here.
    have none : weight log (· == s) = 0 := weightNone fun e mem => by
      refine Bool.eq_false_iff.mpr fun eq => taken ?_
      have eq : e.1 = s := by simpa using eq
      obtain ⟨held,stands,start⟩ := tracks.held e mem (eq ▸ alive)
      rw [eq,got] at stands
      cases stands
      rw [start,eq]
    rw [if_neg taken,none]
    simp
  rw [if_neg here] at start ⊢
  have other : ¬ s = t := by
    rintro rfl
    exact here (tracks.placed j old s got start).symm
  rw [tracks.loads old (List.mem_of_getElem? got) t start]
  simp [other]

theorem recordTracks (tracks : Tracks seat live slots log) (inside : seat s < slots.length)
    (alive : live s = true) (shrinks : ∀ t, later t = true → live t = true)
    (ne : ∀ e ∈ log, later e.1 = true → seat e.1 = seat s → e.1 = s) :
    Tracks seat later (record (seat s) s x slots) ((s,x) :: log) := by
  have here : ∃ slot, (record (seat s) s x slots)[seat s]? = some slot ∧ slot.start = some s := by
    obtain ⟨old,got⟩ : ∃ old, slots[seat s]? = some old := ⟨_,List.getElem?_eq_getElem inside⟩
    refine ⟨_,modifyHere _ got,?_⟩
    split <;> rfl
  refine ⟨fun j slot t seen start => ?_,fun slot mem t start => ?_,fun e mem live => ?_⟩
  · obtain ⟨old,got,rfl⟩ := modifySeen seen
    split at start
    · rename_i eq
      split at start <;> cases start <;> exact eq.symm
    exact tracks.placed j old t got start
  · obtain ⟨j,seen⟩ := List.getElem?_of_mem mem
    exact recordLoad tracks alive seen start
  rcases List.mem_cons.mp mem with rfl | old
  · exact here
  by_cases eq : seat e.1 = seat s
  · rw [ne e old live eq]
    exact here
  obtain ⟨slot,got,start⟩ := tracks.held e old (shrinks _ live)
  exact ⟨slot,modifyElsewhere _ (Ne.symm eq) got,start⟩

theorem laterTracks (tracks : Tracks seat live slots log)
    (shrinks : ∀ t, later t = true → live t = true) : Tracks seat later slots log :=
  { tracks with held := fun e mem alive => tracks.held e mem (shrinks _ alive) }

theorem freshTracks (free : ∀ slot ∈ slots, slot.start = none) : Tracks seat live slots [] := by
  refine ⟨fun j slot s got start => ?_,fun slot mem s start => ?_,by simp⟩
  · rw [free slot (List.mem_of_getElem? got)] at start
    contradiction
  rw [free slot mem] at start
  contradiction
end
section

def bucketStart (size now : Int) : Int := now - now % size
def live (window now s : Int) : Bool := decide (now - s < window)

variable {n : Nat} {slots : List (Slot M)}

structure Windowed (origin size : Int) (n : Nat) (now : Int) (slots : List (Slot M))
    (log : List (Int × M)) : Prop where
  tracks : Tracks (place origin size n) (live (n * size) now) slots
    (log.map fun e => (bucketStart size e.1,e.2))
  past : ∀ e ∈ log, e.1 ≤ now
  seats : slots.length = n

theorem startBelow (pos : 0 < size) (now) : bucketStart size now ≤ now ∧ now < bucketStart size now + size := by
  have low := Int.emod_nonneg now (Int.ne_of_gt pos)
  have high := Int.emod_lt_of_pos now pos
  unfold bucketStart
  omega

theorem startsApart (pos : 0 < size) (old : now ≤ next) :
    ∃ k : Nat, bucketStart size next = bucketStart size now + k * size := by
  have starts (t : Int) : bucketStart size t = t / size * size := by
    have split := Int.mul_ediv_add_emod t size
    rw [Int.mul_comm] at split
    unfold bucketStart
    omega
  have monotone := Int.ediv_le_ediv pos old
  refine ⟨(next / size - now / size).toNat,?_⟩
  rw [starts,starts,Int.toNat_of_nonneg (by omega)]
  ring

theorem liveEarlier (old : now ≤ next) (s) (alive : live (n * size) next s = true) :
    live (n * size) now s = true := by
  simp only [live,decide_eq_true_eq] at *
  omega

theorem seatApart (pos : 0 < size) (old : t ≤ next) (alive : live (n * size) next (bucketStart size t) = true)
    (side : bucketStart size t < origin ↔ bucketStart size next < origin)
    (eq : place origin size n (bucketStart size t) = place origin size n (bucketStart size next)) :
    bucketStart size t = bucketStart size next := by
  obtain ⟨k,later⟩ := startsApart pos old
  have near : k < n := by
    have below := (startBelow pos next).1
    simp only [live,decide_eq_true_eq] at alive
    have less : (k : Int) * size < n * size := by omega
    exact_mod_cast Int.lt_of_mul_lt_mul_right less (by omega)
  exact placeApart pos side later near eq

theorem windowedRecord (pos : 0 < size) (slotted : 0 < n) (old : now ≤ next)
    (windowed : Windowed origin size n now slots log) (x)
    (side : ∀ slot ∈ slots, ∀ t, slot.start = some t → live (n * size) next t = true →
      (t < origin ↔ bucketStart size next < origin)) : Windowed origin size n next
      (record (place origin size n (bucketStart size next)) (bucketStart size next) x slots) ((next,x) :: log) := by
  have shrinks : ∀ s, live (n * size) next s = true → live (n * size) now s = true := liveEarlier old
  refine ⟨recordTracks windowed.tracks ?_ ?_ shrinks fun e mem alive eq => ?_,?_,?_⟩
  · rw [windowed.seats]
    exact placeInside slotted
  · have above := (startBelow pos next).2
    have whole : size ≤ n * size := by nlinarith
    simp only [live,decide_eq_true_eq]
    omega
  · obtain ⟨slot,got,start⟩ := windowed.tracks.held e mem (shrinks _ alive)
    obtain ⟨event,inside,rfl⟩ := List.mem_map.mp mem
    have past := windowed.past event inside
    exact seatApart pos (by omega) alive (side slot (List.mem_of_getElem? got) _ start alive) eq
  · refine List.forall_mem_cons.mpr ⟨le_rfl,fun e mem => ?_⟩
    have past := windowed.past e mem
    omega
  rw [record,List.length_modify,windowed.seats]

theorem windowedLater (old : now ≤ next) (windowed : Windowed origin size n now slots log) :
    Windowed origin size n next slots log where
  tracks := laterTracks windowed.tracks (liveEarlier old)
  past e member := Int.le_trans (windowed.past e member) old
  seats := windowed.seats

theorem windowedFresh (free : ∀ slot ∈ slots, slot.start = none) (seats : slots.length = n) :
    Windowed origin size n now slots [] :=
  ⟨freshTracks free,by simp,seats⟩

theorem windowedTotal (windowed : Windowed origin size n now slots log) : total (live (n * size) now) slots =
      ((log.filter fun e => live (n * size) now (bucketStart size e.1)).map Prod.snd).sum := by
  rw [trackedTotal windowed.tracks,weight,List.filter_map,List.map_map]
  rfl
end
end Gofly.BucketRing
