import Mathlib.Data.List.Nodup

/-! Claims on items that expire. -/
namespace Gofly.Fence
open List (map_append mem_map)

variable {ι ς : Type}

structure Item (ς : Type) where
  status : ς
  epoch : Nat
  due : Nat

structure Claim (ι : Type) where
  item : ι
  epoch : Nat
  expiry : Nat

structure Ledger (ι ς : Type) where
  now : Nat
  items : ι → Option (Item ς)
  claims : List (Claim ι)

structure Granted (live : ς → Prop) (l next : Ledger ι ς) (c : Claim ι) (x : Item ς) : Prop where
  was : l.items c.item = some x
  isLive : live x.status
  due : x.due ≤ l.now
  epoch : c.epoch = x.epoch + 1
  becomes : next.items c.item = some ⟨x.status,c.epoch,c.expiry⟩

inductive Move (live : ς → Prop) : Ledger ι ς → Ledger ι ς → Prop where
  | wait (d : Nat) : Move live l { l with now := l.now + d }
  | add (i : ι) (absent : l.items i = none) (others : ∀ k, k ≠ i → next.items k = l.items k)
      (now : next.now = l.now) (claims : next.claims = l.claims) : Move live l next
  | grant (granted : List (Claim ι)) (distinct : (granted.map Claim.item).Nodup)
      (each : ∀ c ∈ granted, ∃ x, Granted live l next c x)
      (others : ∀ k, k ∉ granted.map Claim.item → next.items k = l.items k)
      (now : next.now = l.now) (claims : next.claims = l.claims ++ granted) : Move live l next
  | settle {l next : Ledger ι ς} {before after : List (Claim ι)} (c : Claim ι) (held : l.claims = before ++ c :: after)
      (left : next.claims = before ++ after) (now : next.now = l.now)
      (others : ∀ k, k ≠ c.item → next.items k = l.items k)
      (own : next.items c.item = l.items c.item ∨ ∃ x status due, l.items c.item = some x ∧ x.epoch = c.epoch ∧
        next.items c.item = some ⟨status,x.epoch,due⟩) : Move live l next

def Stands (live : ς → Prop) (now : Nat) (c : Claim ι) (x : Item ς) : Prop :=
  (c.epoch = x.epoch ∧ live x.status ∧ x.due = c.expiry) ∨ (c.epoch < x.epoch ∧ c.expiry ≤ now)

structure Fenced (live : ς → Prop) (l : Ledger ι ς) : Prop where
  single : (l.claims.map fun c => (c.item,c.epoch)).Nodup
  stands : ∀ c ∈ l.claims, ∃ x, l.items c.item = some x ∧ Stands live l.now c x

variable {live : ς → Prop} {l : Ledger ι ς}

theorem Stands.later {later : Nat} (before : now ≤ later) (stands : Stands live now c x) : Stands live later c x :=
  stands.imp id fun old => ⟨old.1,Nat.le_trans old.2 before⟩

theorem Stands.bounded (stands : Stands live now c x) : c.epoch ≤ x.epoch := by
  rcases stands with ⟨eq,_⟩ | ⟨less,_⟩ <;> omega

theorem Stands.overtaken {c d : Claim ι} (stands : Stands live now c x) (due : x.due ≤ now)
    (epoch : d.epoch = x.epoch + 1) : Stands live now c ⟨x.status,d.epoch,d.expiry⟩ := by
  rcases stands with ⟨eq,_,expiry⟩ | ⟨less,expired⟩
  · exact .inr ⟨show c.epoch < d.epoch by omega,by omega⟩
  exact .inr ⟨show c.epoch < d.epoch by omega,expired⟩

theorem grantFenced (o : Fenced live l) (nodup : (granted.map Claim.item).Nodup)
    (each : ∀ c ∈ granted, ∃ x, Granted live l next c x)
    (rest : ∀ k, k ∉ granted.map Claim.item → next.items k = l.items k) (now : next.now = l.now)
    (claims : next.claims = l.claims ++ granted) : Fenced live next := by
  constructor
  · rw [claims,map_append,List.nodup_append]
    refine ⟨o.single,?_,?_⟩
    · have pairs : granted.map Claim.item = (granted.map fun c => (c.item,c.epoch)).map Prod.fst := by
        rw [List.map_map]
        rfl
      rw [pairs] at nodup
      exact nodup.of_map
    intro p isOld q isNew eq
    obtain ⟨c,isClaim,rfl⟩ := mem_map.mp isOld
    obtain ⟨d,isGranted,rfl⟩ := mem_map.mp isNew
    obtain ⟨x,was,_,_,epoch,_⟩ := each d isGranted
    obtain ⟨y,got,stands⟩ := o.stands c isClaim
    obtain ⟨item,sameEpoch⟩ := Prod.mk.inj eq
    rw [item,was] at got
    cases got
    have bounded := stands.bounded
    omega
  intro c mem
  rw [now]
  rcases List.mem_append.mp (claims ▸ mem) with isOld | isNew
  · obtain ⟨x,got,stands⟩ := o.stands c isOld
    by_cases taken : c.item ∈ granted.map Claim.item
    · obtain ⟨d,isGranted,item⟩ := mem_map.mp taken
      obtain ⟨y,was,_,due,epoch,becomes⟩ := each d isGranted
      rw [item] at was becomes
      rw [got] at was
      cases was
      exact ⟨_,becomes,stands.overtaken due epoch⟩
    exact ⟨x,(rest _ taken).trans got,stands⟩
  obtain ⟨x,_,isLive,_,_,becomes⟩ := each c isNew
  exact ⟨_,becomes,.inl ⟨rfl,isLive,rfl⟩⟩

theorem settleFenced (o : Fenced live l)
    (held : l.claims = before ++ c :: after) (left : next.claims = before ++ after) (now : next.now = l.now)
    (rest : ∀ k, k ≠ c.item → next.items k = l.items k)
    (own : next.items c.item = l.items c.item ∨ ∃ x status due, l.items c.item = some x ∧ x.epoch = c.epoch ∧
      next.items c.item = some ⟨status,x.epoch,due⟩) : Fenced live next := by
  have single := o.single
  rw [held,map_append] at single
  have ne := (List.nodup_middle.mp single)
  rw [List.nodup_cons] at ne
  constructor
  · rw [left,map_append]
    exact ne.2
  intro d mem
  rw [left] at mem
  have isOld : d ∈ l.claims := by
    rw [held]
    rcases List.mem_append.mp mem with isBefore | isAfter
    · exact List.mem_append_left _ isBefore
    exact List.mem_append_right _ (List.mem_cons_of_mem _ isAfter)
  obtain ⟨x,got,stands⟩ := o.stands d isOld
  rw [now]
  by_cases here : d.item = c.item
  · rcases own with eq | ⟨y,status,due,was,epoch,becomes⟩
    · exact ⟨x,by rw [here,eq,← here]; exact got,stands⟩
    · rw [here,was] at got
      cases got
      -- the other claim on this item is of another epoch, so it is an expired one
      have differ : d.epoch ≠ c.epoch := by
        intro eq
        refine ne.1 ?_
        rw [← map_append]
        exact mem_map.mpr ⟨d,mem,by rw [here,eq]⟩
      refine ⟨⟨status,x.epoch,due⟩,by rw [here]; exact becomes,?_⟩
      rcases stands with ⟨eq,_⟩ | old
      · exact absurd (eq.trans epoch) differ
      exact .inr old
  exact ⟨x,(rest _ here).trans got,stands⟩

theorem moveFenced (ran : Move live l next) (o : Fenced live l) : Fenced live next := by
  cases ran with
  | wait =>
    refine ⟨o.single,fun c mem => ?_⟩
    obtain ⟨x,got,stands⟩ := o.stands c mem
    exact ⟨x,got,stands.later (Nat.le_add_right _ _)⟩
  | add _ gone rest now claims =>
    refine ⟨by rw [claims]; exact o.single,fun c mem => ?_⟩
    rw [claims] at mem
    obtain ⟨x,got,stands⟩ := o.stands c mem
    refine ⟨x,(rest _ ?_).trans got,by rw [now]; exact stands⟩
    rintro rfl
    rw [gone] at got
    cases got
  | grant _ nodup each rest now claims => exact grantFenced o nodup each rest now claims
  | settle _ held left now rest own => exact settleFenced o held left now rest own

theorem statusFinal (ran : Move live l next) (o : Fenced live l) (got : l.items i = some x)
    (ended : ¬ live x.status) : ∃ y, next.items i = some y ∧ y.status = x.status := by
  cases ran with
  | wait => exact ⟨x,got,rfl⟩
  | add _ gone rest =>
    refine ⟨x,(rest i ?_).trans got,rfl⟩
    rintro rfl
    rw [gone] at got
    cases got
  | grant _ _ each rest =>
    refine ⟨x,(rest i ?_).trans got,rfl⟩
    intro taken
    obtain ⟨c,isGranted,rfl⟩ := mem_map.mp taken
    obtain ⟨y,was,isLive,_⟩ := each c isGranted
    rw [was] at got
    cases got
    exact ended isLive
  | settle c held _ _ rest own =>
    by_cases here : i = c.item
    · subst here
      rcases own with eq | ⟨y,status,due,was,epoch,becomes⟩
      · exact ⟨x,eq.trans got,rfl⟩
      rw [was] at got
      cases got
      obtain ⟨z,isAt,stands⟩ := o.stands c (by rw [held]; simp)
      rw [was] at isAt
      cases isAt
      rcases stands with ⟨_,isLive,_⟩ | ⟨less,_⟩
      · exact absurd isLive ended
      omega
    exact ⟨x,(rest i here).trans got,rfl⟩

theorem claimExcludes (o : Fenced live l) (mem : c ∈ l.claims) (fresh : l.now < c.expiry)
    (got : l.items c.item = some x) : l.now < x.due := by
  obtain ⟨y,was,stands⟩ := o.stands c mem
  rw [got] at was
  cases was
  rcases stands with ⟨_,_,due⟩ | ⟨_,expired⟩ <;> omega

end Gofly.Fence
