import Gofly.OutboxRelay

/-! Both stores keep the laws of their view: the memory store, whose leases stand in a map
of their own, and the SQL store, which moves available_at instead. -/
namespace Gofly.OutboxStores
open Outbox OutboxRelay
open Option (map_some)

section
variable {order : List String} {due : String → Bool} {le : String → String → Prop} [DecidableRel le]

theorem selectedDue {id} (mem : id ∈ ((order.filter due).insertionSort le).take limit) : due id = true := by
  have sorted := List.mem_of_mem_take mem
  exact (List.mem_filter.mp ((List.perm_insertionSort le _).mem_iff.mp sorted)).2

theorem selectedNodup (nodup : order.Nodup) (limit) : (((order.filter due).insertionSort le).take limit).Nodup :=
  (List.take_sublist _ _).nodup ((List.perm_insertionSort le _).nodup_iff.mpr (nodup.filter _))
end

theorem leasedIds (keeps : ∀ rec, (grant rec).id = rec.id) (nodup : ids.Nodup)
    (t) (here : ∀ id ∈ ids, ∃ rec, t.records id = some rec) : (leaseAll grant t ids).1.map Record.id = ids := by
  rw [leasedRecords keeps nodup]
  clear nodup
  induction ids with
  | nil => rfl
  | cons id rest ih =>
    obtain ⟨rec,got⟩ := here id List.mem_cons_self
    simp only [List.filterMap_cons,got,map_some,List.map_cons,keeps,t.keyed id rec got]
    rw [ih fun k mem => here k (List.mem_cons_of_mem _ mem)]

theorem leasedFrom {grant : Record → Record} {ids : List String} {t : Table}
    (mem : rec ∈ ids.filterMap fun id => (t.records id).map grant) :
    ∃ old, old.id ∈ ids ∧ t.records old.id = some old ∧ rec = grant old := by
  obtain ⟨id,isChosen,granted⟩ := List.mem_filterMap.mp mem
  obtain ⟨old,got,rfl⟩ := Option.map_eq_some_iff.mp granted
  have here := t.keyed id old got
  exact ⟨old,by rw [here]; exact isChosen,by rw [here]; exact got,rfl⟩

def Amends (outcome : Outcome) (f : Record → Record) : Prop :=
  ∀ rec, (f rec).id = rec.id ∧ (f rec).attempts = rec.attempts ∧ (f rec).status = after outcome rec.status

theorem attemptId (rec) : (attempt rec).id = rec.id := rfl
theorem pushId (leaseUntil rec) : (push leaseUntil rec).id = rec.id := rfl

theorem memoryDue {s : MemoryStore} {id : String} (isDue : s.due now id = true) :
    ∃ rec, s.table.records id = some rec ∧ rec.status = .pending ∧ rec.availableAt ≤ now ∧ (s.leases id).getD 0 ≤ now := by
  unfold MemoryStore.due at isDue
  split at isDue
  · cases isDue
  rename_i rec got
  simp only [Bool.and_eq_true,decide_eq_true_eq] at isDue
  refine ⟨rec,got,isDue.1.1,isDue.1.2,?_⟩
  cases lease : s.leases id with
  | none => exact Nat.zero_le _
  | some t => simpa [lease] using isDue.2

theorem memoryFetch {s : MemoryStore} (claims : s.fetch now order limit visibility = some (recs,next)) :
    (recs = [] ∧ next = s) ∨ ∃ ids : List String, ids.Nodup ∧ (∀ id ∈ ids, s.due now id = true) ∧
      recs = (leaseAll attempt s.table ids).1 ∧
      next = { s with
        table := (leaseAll attempt s.table ids).2
        leases := fun id => if id ∈ ids then some (now + visibility.toNat) else s.leases id } := by
  unfold MemoryStore.fetch at claims
  split at claims
  · obtain ⟨rfl,rfl⟩ := Prod.mk.inj (Option.some.inj claims)
    exact .inl ⟨rfl,rfl⟩
  split at claims
  · obtain ⟨rfl,rfl⟩ := Prod.mk.inj (Option.some.inj claims)
    exact .inl ⟨rfl,rfl⟩
  split at claims
  · rename_i scan
    obtain ⟨rfl,rfl⟩ := Prod.mk.inj (Option.some.inj claims)
    exact .inr ⟨_,selectedNodup scan.1 _,fun id mem => selectedDue mem,rfl,rfl⟩
  cases claims

theorem memoryAmend (s id outcome f) (amends : Amends outcome f) (k) : memoryView (s.amend id f) k = memoryView s k ∨
      k = id ∧ ∃ v due, memoryView s k = some v ∧
        memoryView (s.amend id f) k = some ⟨after outcome v.status,v.epoch,due⟩ := by
  have keeps rec := (amends rec).1
  unfold MemoryStore.amend
  split
  · exact .inl rfl
  split
  · rename_i present
    obtain ⟨rec,got⟩ := Option.isSome_iff_exists.mp present
    by_cases here : k = id
    · subst here
      refine .inr ⟨rfl,⟨rec.status,rec.attempts,max rec.availableAt ((s.leases k).getD 0)⟩,max (f rec).availableAt 0,
        by simp only [memoryView,got,map_some],?_⟩
      simp only [memoryView,updateAt _ _ keeps,if_true,got,map_some,amends rec,Function.update_self,
        Option.getD_none]
    refine .inl ?_
    simp only [memoryView,updateAt _ _ keeps,here,if_false,Function.update_of_ne here]
  exact .inl rfl

theorem memoryIds {s : MemoryStore} (nodup : ids.Nodup)
    (isDue : ∀ id ∈ ids, s.due now id = true) : (leaseAll attempt s.table ids).1.map Record.id = ids := by
  refine leasedIds attemptId nodup s.table fun id mem => ?_
  obtain ⟨rec,got,_⟩ := memoryDue (isDue id mem)
  exact ⟨rec,got⟩

theorem memoryLawful : Lawful memory memoryView where
  enqueued s now id msg k := by
    simp only [memory,MemoryStore.enqueue]
    split
    · exact .inl rfl
    split
    · exact .inl rfl
    by_cases here : k = id
    · subst here
      exact .inr ⟨rfl,max now ((s.leases k).getD 0),by simp only [memoryView,putAt,newRecord,if_true,map_some]⟩
    exact .inl (by simp only [memoryView,putAt,newRecord,here,if_false])
  distinct claims := by
    rcases memoryFetch claims with ⟨rfl,_⟩ | ⟨ids,nodup,isDue,rfl,_⟩
    · exact List.nodup_nil
    rw [memoryIds nodup isDue]
    exact nodup
  fetched claims rec member := by
    rcases memoryFetch claims with ⟨rfl,_⟩ | ⟨ids,nodup,isDue,rfl,rfl⟩
    · cases member
    rw [leasedRecords attemptId nodup] at member
    obtain ⟨old,isChosen,got,rfl⟩ := leasedFrom member
    obtain ⟨rec,isAt,pending,available,lease⟩ := memoryDue (isDue _ isChosen)
    rw [got] at isAt
    cases isAt
    rename_i s now _ _ visibility
    refine ⟨⟨old.status,old.attempts,max old.availableAt ((s.leases old.id).getD 0)⟩,?_,pending,
      Nat.max_le.mpr ⟨available,lease⟩,rfl,?_⟩
    · show memoryView s old.id = _
      simp only [memoryView,got,map_some]
    show memoryView _ old.id = some ⟨old.status,old.attempts + 1,now + visibility.toNat⟩
    simp only [memoryView,leasedAt attemptId nodup,isChosen,if_true,got,map_some,Option.getD_some,attempt]
    rw [Nat.max_eq_right (available.trans (Nat.le_add_right _ _))]
  unfetched claims k outside := by
    rcases memoryFetch claims with ⟨_,rfl⟩ | ⟨ids,nodup,isDue,rfl,rfl⟩
    · rfl
    rw [memoryIds nodup isDue] at outside
    simp only [memoryView,leasedAt attemptId nodup,outside,if_false]
  reported s now id outcome k := by
    cases outcome with
    | delivered => exact memoryAmend s id .delivered (setDelivered now) (fun _ => ⟨rfl,rfl,rfl⟩) k
    | dead err => exact memoryAmend s id (.dead err) (setDead err) (fun _ => ⟨rfl,rfl,rfl⟩) k
    | retry at_ err => exact memoryAmend s id (.retry at_ err) (setRetry at_ err) (fun _ => ⟨rfl,rfl,rfl⟩) k
  closed _ _ := rfl

theorem sqlDue {s : SQLStore} {id : String} (isDue : s.due now id = true) :
    ∃ rec, s.table.records id = some rec ∧ rec.status = .pending ∧ rec.availableAt ≤ now := by
  unfold SQLStore.due at isDue
  split at isDue
  · cases isDue
  rename_i rec got
  simp only [Bool.and_eq_true,decide_eq_true_eq] at isDue
  exact ⟨rec,got,isDue.1,isDue.2⟩

theorem sqlFetch {s : SQLStore} (claims : s.fetch now order limit visibility = some (recs,next)) :
    (recs = [] ∧ next = s) ∨ ∃ ids : List String, ids.Nodup ∧ (∀ id ∈ ids, s.due now id = true) ∧
      recs = (leaseAll (push (now + visibility.toNat)) s.table ids).1.map (fun rec =>
        { rec with deliveredAt := none,lastError := "" }) ∧
      next = ⟨(leaseAll (push (now + visibility.toNat)) s.table ids).2⟩ := by
  unfold SQLStore.fetch at claims
  split at claims
  · obtain ⟨rfl,rfl⟩ := Prod.mk.inj (Option.some.inj claims)
    exact .inl ⟨rfl,rfl⟩
  split at claims
  · rename_i scan
    obtain ⟨rfl,rfl⟩ := Prod.mk.inj (Option.some.inj claims)
    exact .inr ⟨_,selectedNodup scan.1 _,fun id mem => selectedDue mem,rfl,rfl⟩
  cases claims

theorem sqlUpdate (s id outcome f) (amends : Amends outcome f) (k) : sqlView ⟨s.table.update id f⟩ k = sqlView s k ∨
      k = id ∧ ∃ v due, sqlView s k = some v ∧ sqlView ⟨s.table.update id f⟩ k = some ⟨after outcome v.status,v.epoch,due⟩ := by
  have keeps rec := (amends rec).1
  by_cases here : k = id
  · subst here
    cases got : s.table.records k with
    | none => exact .inl (by simp only [sqlView,updateAt _ _ keeps,if_true,got,Option.map_none])
    | some rec =>
      refine .inr ⟨rfl,⟨rec.status,rec.attempts,rec.availableAt⟩,(f rec).availableAt,
        by simp only [sqlView,got,map_some],?_⟩
      simp only [sqlView,updateAt _ _ keeps,if_true,got,map_some,amends rec]
  exact .inl (by simp only [sqlView,updateAt _ _ keeps,here,if_false])

theorem sqlIds {s : SQLStore} (nodup : ids.Nodup) (isDue : ∀ id ∈ ids, s.due now id = true) :
    ((leaseAll (push leaseUntil) s.table ids).1.map fun rec =>
      { rec with deliveredAt := none,lastError := "" }).map Record.id = ids := by
  rw [List.map_map]
  refine leasedIds (pushId _) nodup s.table fun id mem => ?_
  obtain ⟨rec,got,_⟩ := sqlDue (isDue id mem)
  exact ⟨rec,got⟩

theorem sqlLawful : Lawful sql sqlView where
  enqueued s now id msg k := by
    simp only [sql,SQLStore.enqueue]
    split
    · exact .inl rfl
    split
    · exact .inl rfl
    by_cases here : k = id
    · subst here
      exact .inr ⟨rfl,now,by simp only [sqlView,putAt,newRecord,if_true,map_some]⟩
    exact .inl (by simp only [sqlView,putAt,newRecord,here,if_false])
  distinct claims := by
    rcases sqlFetch claims with ⟨rfl,_⟩ | ⟨ids,nodup,isDue,rfl,_⟩
    · exact List.nodup_nil
    rw [sqlIds nodup isDue]
    exact nodup
  fetched claims rec member := by
    rcases sqlFetch claims with ⟨rfl,_⟩ | ⟨ids,nodup,isDue,rfl,rfl⟩
    · cases member
    obtain ⟨leased,isLeased,rfl⟩ := List.mem_map.mp member
    rw [leasedRecords (pushId _) nodup] at isLeased
    obtain ⟨old,isChosen,got,rfl⟩ := leasedFrom isLeased
    obtain ⟨rec,isAt,pending,available⟩ := sqlDue (isDue _ isChosen)
    rw [got] at isAt
    cases isAt
    rename_i s now _ _ visibility
    refine ⟨⟨old.status,old.attempts,old.availableAt⟩,?_,pending,available,rfl,?_⟩
    · show sqlView s old.id = _
      simp only [sqlView,got,map_some]
    show sqlView _ old.id = some ⟨old.status,old.attempts + 1,now + visibility.toNat⟩
    simp only [sqlView,leasedAt (pushId _) nodup,isChosen,if_true,got,map_some,push]
  unfetched claims k outside := by
    rcases sqlFetch claims with ⟨_,rfl⟩ | ⟨ids,nodup,isDue,rfl,rfl⟩
    · rfl
    rw [sqlIds nodup isDue] at outside
    simp only [sqlView,leasedAt (pushId _) nodup,outside,if_false]
  reported s now id outcome k := by
    cases outcome with
    | delivered => exact sqlUpdate s id .delivered (setDelivered now) (fun _ => ⟨rfl,rfl,rfl⟩) k
    | dead err => exact sqlUpdate s id (.dead err) (setDead err) (fun _ => ⟨rfl,rfl,rfl⟩) k
    | retry at_ err => exact sqlUpdate s id (.retry at_ err) (setRetry at_ err) (fun _ => ⟨rfl,rfl,rfl⟩) k
  closed _ _ := rfl

end Gofly.OutboxStores
