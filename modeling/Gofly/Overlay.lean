import Mathlib.Data.List.Induction
import Gofly.Roster
/-! Lists laid over each other: an element takes the place of the one with its key, or is added
at the end. -/
namespace Gofly.Overlay
open Roster
open List (any_cons any_eq_true foldl_append foldl_cons map_congr_left map_id' map_map)

variable {α κ : Type} [DecidableEq κ] {key : α → Option κ} {out rest : List α}
def same (key : α → Option κ) (x y : α) : Bool := (key x).isSome && key x == key y

def put (key : α → Option κ) (out : List α) (x : α) : List α :=
  if out.any (same key x) then out.map fun y => if same key x y then x else y else out ++ [x]
def layer (key : α → Option κ) (list : List α) : List α := list.foldl (put key) []

def firsts (key : α → Option κ) : List α → List α
  | [] => []
  | x :: rest => x :: (firsts key rest).filter fun y => !same key x y

def final (key : α → Option κ) (list : List α) (x : α) : α := (list.reverse.find? (same key x)).getD x
def Unique (key : α → Option κ) (list : List α) : Prop := list.Pairwise fun x y => same key x y = false

theorem sameSymm (key : α → Option κ) (x y) : same key x y = same key y x := by
  unfold same
  by_cases equal : key x = key y
  · simp [equal]
  rw [beq_eq_false_iff_ne.mpr equal,beq_eq_false_iff_ne.mpr (Ne.symm equal)]
  simp

theorem sameLike (key : α → Option κ) (z) (equal : key x = key y) : same key z x = same key z y := by
  rw [same,same,equal]

theorem sameKey (under : same key x y = true) : key x = key y := by
  simp only [same,Bool.and_eq_true,beq_iff_eq] at under
  exact under.2

theorem sameThrough (under : same key x y = true) (z) : same key x z = same key y z := by
  rw [sameSymm key x z,sameSymm key y z]
  exact sameLike key z (sameKey under)

theorem finalKey (list x) : key (final key list x) = key x := by
  unfold final
  cases got : list.reverse.find? (same key x) with
  | none => rfl
  | some => exact (sameKey (List.find?_some got)).symm

theorem finalLoose (list) (loose : key x = none) : final key list x = x := by
  have missing : list.reverse.find? (same key x) = none := List.find?_eq_none.mpr (by simp [same,loose])
  rw [final,missing]
  rfl

theorem finalAdd (list x y) : final key (list ++ [x]) y = if same key y x then x else final key list y := by
  simp only [final]
  split <;> simp_all

theorem firstsAny (list x) : (firsts key list).any (same key x) = list.any (same key x) := by
  induction list with
  | nil => rfl
  | cons y _ ih =>
    rw [firsts,any_cons,any_cons,← ih]
    cases under : same key x y with
    | true => rfl
    | false =>
      have kept : ∀ z, (same key x z && !same key y z) = same key x z := by
        intro z
        cases also : same key x z with
        | false => rfl
        | true => rw [sameSymm,← sameThrough also,under]; rfl
      simp only [List.any_filter,Bool.and_comm (!same key y _),kept]

theorem firstsAdd (list x) :
    firsts key (list ++ [x]) = if list.any (same key x) then firsts key list else firsts key list ++ [x] := by
  induction list with
  | nil => rfl
  | cons y rest ih =>
    rw [List.cons_append,firsts,ih,any_cons,firsts,sameSymm key x y]
    cases rest.any (same key x) with
    | true => simp
    | false => cases under : same key y x <;> simp [under]

theorem putAny (out x z) : (put key out z).any (same key x) = (out.any (same key x) || same key x z) := by
  unfold put
  split
  · rename_i here
    have image : ∀ y, same key x (if same key z y then z else y) = same key x y := by
      intro y
      split
      · exact sameLike key x (sameKey ‹_›)
      rfl
    simp only [List.any_map,Function.comp_def,image]
    cases under : same key x z with
    | false => simp
    | true =>
      have like : (fun y => same key x y) = same key z := funext (sameThrough under)
      simp [like,here]
  simp

theorem putMem (member : y ∈ put key out x) : y ∈ out ∨ y = x := by
  unfold put at member
  split at member
  · obtain ⟨z,mem,rfl⟩ := List.mem_map.mp member
    split
    · exact .inr rfl
    exact .inl mem
  simpa using member

theorem layerMem (mem : x ∈ layer key list) : x ∈ list := by
  induction list using List.reverseRecOn with
  | nil => exact mem
  | append_singleton _ _ ih =>
    rw [layer,foldl_append] at mem
    exact List.mem_append.mpr ((putMem mem).imp ih List.mem_singleton.mpr)

theorem layerShape (key : α → Option κ) (list) : layer key list = (firsts key list).map (final key list) := by
  induction list using List.reverseRecOn with
  | nil => rfl
  | append_singleton list x ih =>
    have step : layer key (list ++ [x]) = put key (layer key list) x := by simp [layer]
    have here : ((firsts key list).map (final key list)).any (same key x) = list.any (same key x) := by
      rw [← firstsAny list x,List.any_map]
      exact congrArg _ (funext fun y => sameLike key x (finalKey list y))
    rw [step,ih,put,here,firstsAdd]
    split
    · rw [map_map]
      refine map_congr_left fun y _ => ?_
      rw [Function.comp_apply,sameLike key x (finalKey list y),sameSymm,finalAdd]
    rename_i gone
    have ne : ∀ y ∈ firsts key list, same key y x = false := by
      intro y mem
      rw [← firstsAny list x,any_eq_true] at gone
      rw [sameSymm]
      exact Bool.eq_false_iff.mpr fun under => gone ⟨y,mem,under⟩
    have last : final key (list ++ [x]) x = x := by
      rw [finalAdd]
      split
      · rfl
      rename_i alone
      exact finalLoose list (by simpa [same] using alone)
    rw [List.map_append,List.map_singleton,last]
    congr 1
    exact map_congr_left fun y mem => by rw [finalAdd,ne y mem]; simp

theorem firstsUnique (key : α → Option κ) (list) : Unique key (firsts key list) := by
  induction list with
  | nil => exact .nil
  | cons _ _ ih =>
    refine List.pairwise_cons.mpr ⟨fun y mem => ?_,ih.filter _⟩
    simpa using (List.mem_filter.mp mem).2

theorem layerUnique (key : α → Option κ) (list) : Unique key (layer key list) := by
  rw [layerShape,Unique,List.pairwise_map]
  refine (firstsUnique key list).imp fun {x y} ne => ?_
  rw [sameLike key _ (finalKey list y),sameSymm,sameLike key _ (finalKey list x),sameSymm]
  exact ne

theorem firstsLoose (list) :
    (firsts key list).filter (fun x => (key x).isNone) = list.filter fun x => (key x).isNone := by
  induction list with
  | nil => rfl
  | cons x _ ih =>
    have loose : ∀ y, ((key y).isNone && !same key x y) = (key y).isNone := by
      intro y
      cases under : key y with
      | some => rfl
      | none => cases own : key x <;> simp [same,own,under]
    rw [firsts,List.filter_cons,List.filter_cons,List.filter_filter,funext loose,ih]

theorem layerLoose (list) :
    (layer key list).filter (fun x => (key x).isNone) = list.filter fun x => (key x).isNone := by
  have keys : ((fun x => (key x).isNone) ∘ final key list) = fun x => (key x).isNone :=
    funext fun x => congrArg Option.isNone (finalKey list x)
  rw [layerShape,List.filter_map,keys,← firstsLoose list]
  exact (map_congr_left fun x mem =>
    finalLoose list (Option.isNone_iff_eq_none.mp (List.mem_filter.mp mem).2)).trans (map_id' _)

theorem putNew (gone : ∀ y ∈ out, same key x y = false) : put key out x = out ++ [x] := by
  rw [put,if_neg]
  simp only [any_eq_true,not_exists,not_and]
  exact fun y mem => by simp [gone y mem]

theorem putThere (here : out.any (same key x) = true) :
    put key out x = out.map fun y => if same key x y then x else y := if_pos here

theorem foldNew (unique : Unique key (out ++ list)) : list.foldl (put key) out = out ++ list := by
  induction list generalizing out with
  | nil => simp
  | cons x _ ih =>
    have gone : ∀ y ∈ out, same key x y = false := by
      intro y mem
      rw [sameSymm]
      exact (List.pairwise_append.mp unique).2.2 y mem x List.mem_cons_self
    rw [foldl_cons,putNew gone,ih (by simpa using unique)]
    simp

theorem layerSelf (unique : Unique key list) : layer key list = list := foldNew unique

theorem putTwice (under : same key y x = true) : put key (put key out y) x = put key out x := by
  have like : ∀ z, same key x z = same key y z := fun z => (sameThrough under z).symm
  by_cases here : out.any (same key y) = true
  · have also : out.any (same key x) = true := by rwa [show same key x = same key y from funext like]
    have still : (put key out y).any (same key x) = true := by rw [putAny,also]; rfl
    rw [putThere still,putThere here,putThere also,map_map]
    refine map_congr_left fun z _ => ?_
    simp only [Function.comp_apply,like]
    split
    · rw [sameThrough under y,sameSymm key x y,under]
      rfl
    simp_all
  have gone : ∀ z ∈ out, same key y z = false := by
    intro z mem
    rw [any_eq_true] at here
    exact Bool.eq_false_iff.mpr fun under => here ⟨z,mem,under⟩
  have still : (put key out y).any (same key x) = true := by rw [putAny,sameSymm key x y,under,Bool.or_true]
  rw [putThere still,putNew gone,putNew fun z mem => (like z).trans (gone z mem),List.map_append]
  congr 1
  · refine (map_congr_left fun z mem => ?_).trans (map_id' _)
    rw [like,gone z mem]
    rfl
  simp [sameSymm key x y,under]

theorem putSwap (here : out.any (same key x) = true) (ne : same key x z = false) :
    put key (put key out z) x = put key (put key out x) z := by
  have back : same key z x = false := by rw [sameSymm,ne]
  have still : (put key out z).any (same key x) = true := by rw [putAny,here,Bool.true_or]
  have kept : (put key out x).any (same key z) = out.any (same key z) := by rw [putAny,back,Bool.or_false]
  rw [putThere still,putThere here]
  by_cases also : out.any (same key z) = true
  · rw [putThere also,← putThere here,putThere (kept.trans also),putThere here,map_map,map_map]
    refine map_congr_left fun y _ => ?_
    cases one : same key x y <;> cases two : same key z y <;> simp [one,two,ne,back]
    exact absurd (sameThrough one z) (by rw [ne,sameSymm,two]; simp)
  have gone : ∀ {list : List α}, list.any (same key z) ≠ true → ∀ y ∈ list, same key z y = false := by
    intro list none y mem
    rw [ne_eq,any_eq_true] at none
    exact Bool.eq_false_iff.mpr fun under => none ⟨y,mem,under⟩
  rw [putNew (gone also),← putThere here,putNew (gone (kept ▸ also)),putThere here]
  simp [ne]

theorem foldSwap (here : out.any (same key x) = true) (ne : ∀ z ∈ rest, same key x z = false) :
    put key (rest.foldl (put key) out) x = rest.foldl (put key) (put key out x) := by
  induction rest generalizing out with
  | nil => rfl
  | cons _ _ ih =>
    obtain ⟨first,later⟩ := List.forall_mem_cons.mp ne
    rw [foldl_cons,foldl_cons,← putSwap here first]
    exact ih (by rw [putAny,here,Bool.true_or]) later

theorem foldPut (unique : Unique key list) (out x) :
    (put key list x).foldl (put key) out = put key (list.foldl (put key) out) x := by
  by_cases here : list.any (same key x) = true
  · rw [putThere here]
    induction list generalizing out with
    | nil => cases here
    | cons y rest ih =>
      obtain ⟨ne,unique⟩ := List.pairwise_cons.mp unique
      rw [List.map_cons,foldl_cons,foldl_cons]
      cases under : same key x y with
      | true =>
        have others : ∀ z ∈ rest, same key x z = false := fun z mem => (sameThrough under z).trans (ne z mem)
        have rest' : (rest.map fun y => if same key x y = true then x else y) = rest :=
          (map_congr_left fun z mem => by rw [others z mem]; rfl).trans (map_id' _)
        have there : (put key out y).any (same key x) = true := by rw [putAny,under,Bool.or_true]
        rw [if_pos rfl,rest',foldSwap there others,putTwice (by rw [sameSymm,under])]
      | false => exact ih unique _ (by simpa [under] using here)
  have new : put key list x = list ++ [x] := if_neg here
  rw [new,foldl_append]
  rfl

theorem foldLayer (out list) : (layer key list).foldl (put key) out = list.foldl (put key) out := by
  induction list using List.reverseRecOn with
  | nil => rfl
  | append_singleton list x ih =>
    have step : layer key (list ++ [x]) = put key (layer key list) x := by simp [layer]
    rw [step,foldPut (layerUnique key list),ih,foldl_append]
    rfl

theorem layerAppend (list rest) : layer key (list ++ rest) = rest.foldl (put key) (layer key list) :=
  foldl_append

section
variable {index : κ → Option Nat} {k : κ} {i : Nat}

def Indexed (key : α → Option κ) (out : List α) (index : κ → Option Nat) : Prop :=
  ∀ k i, index k = some i ↔ ∃ x, out[i]? = some x ∧ key x = some k

section
variable (indexed : Indexed key out index)
include indexed

theorem indexedSet (own : key x = some k) (got : index k = some i) :
    out.set i x = put key out x ∧ Indexed key (out.set i x) index := by
  obtain ⟨old,seen,under⟩ := (indexed k i).mp got
  have equal : same key x old = true := by simp [same,own,under]
  have present : out.any (same key x) = true := any_eq_true.mpr ⟨old,List.mem_of_getElem? seen,equal⟩
  have image : out.set i x = put key out x := by
    rw [putThere present]
    refine List.ext_getElem? fun j => ?_
    rw [List.getElem?_map]
    by_cases here : i = j
    · subst here
      rw [setHere seen,seen]
      simp [equal]
    rw [List.getElem?_set_ne here]
    cases other : out[j]? with
    | none => rfl
    | some y =>
      have ne : same key x y = false := by
        refine Bool.eq_false_iff.mpr fun under => here ?_
        have there := (indexed k j).mpr ⟨y,other,(sameKey under).symm.trans own⟩
        exact Option.mem_unique got there
      simp [ne]
  refine ⟨image,fun l j => (indexed l j).trans ?_⟩
  by_cases here : i = j
  · subst here
    simp [setHere seen,seen,own,under]
  rw [List.getElem?_set_ne here]

theorem indexedAbsent (own : key x = some k) (missing : index k = none) : ∀ y ∈ out, same key x y = false := by
  intro y mem
  obtain ⟨i,seen⟩ := List.mem_iff_getElem?.mp mem
  refine Bool.eq_false_iff.mpr fun under => ?_
  have there := (indexed k i).mpr ⟨y,seen,(sameKey under).symm.trans own⟩
  rw [missing] at there
  cases there

theorem indexedAdd (own : key x = some k) (missing : index k = none) :
    out ++ [x] = put key out x ∧ Indexed key (out ++ [x]) (Function.update index k (some out.length)) := by
  refine ⟨(putNew (indexedAbsent indexed own missing)).symm,fun l j => ?_⟩
  by_cases last : l = k
  · subst last
    rw [Function.update_self]
    constructor
    · intro equal
      cases equal
      exact ⟨x,by simp,own⟩
    rintro ⟨y,seen,under⟩
    rcases addSeen seen with ⟨rfl,rfl⟩ | before
    · rfl
    have there := (indexed l j).mpr ⟨y,before,under⟩
    rw [missing] at there
    cases there
  rw [Function.update_of_ne last,indexed l j]
  constructor
  · rintro ⟨y,seen,under⟩
    exact ⟨y,addBehind seen,under⟩
  rintro ⟨y,seen,under⟩
  rcases addSeen seen with ⟨rfl,rfl⟩ | before
  · exact absurd (Option.mem_unique under own) last
  exact ⟨y,before,under⟩

theorem indexedLoose (loose : key x = none) : out ++ [x] = put key out x ∧ Indexed key (out ++ [x]) index := by
  refine ⟨(putNew fun y _ => by simp [same,loose]).symm,fun l j => (indexed l j).trans ?_⟩
  constructor
  · rintro ⟨y,seen,under⟩
    exact ⟨y,addBehind seen,under⟩
  rintro ⟨y,seen,under⟩
  rcases addSeen seen with ⟨rfl,rfl⟩ | before
  · rw [loose] at under
    cases under
  exact ⟨y,before,under⟩
end
end
end Gofly.Overlay
