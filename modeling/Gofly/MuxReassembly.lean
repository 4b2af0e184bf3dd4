import Gofly.MuxReceiver

/-! What Receive returns, over whole runs of two transports. -/
namespace Gofly.MuxReassembly
open Transition ByteReader MuxFrame MuxMessage MuxState MuxTransport MuxSteps MuxObjects MuxIssue MuxBirth
open MuxSender MuxReceiver Duplex BinaryFrame
open FramedTransport (encodeMessage decodesStamped plainCodecs)

def unmixed (_ : Config) (t : Transport) (a : Act) : Bool :=
  undisturbed t a &&
    match a with
    | .openStream => t.nextID.toNat + 2 < 2 ^ 64
    | .loop _ => addressed t
    | _ => true

def messageRule : Rule := ⟨unmixed,fun _ _ => true⟩

theorem messageBearing : Bearing messageRule where
  room c t fits := by simpa [messageRule,unmixed,undisturbed] using fits
  addressed c t ok fits := by simpa [messageRule,unmixed,undisturbed] using fits

structure Told (cfg : Side → Config) (l : Link Transport Frame) : Prop where
  births : Births l
  grounded : ∀ s, Grounded (l.party s)
  speaks : ∀ s, Speaks (l.party s)
  spoken : ∀ s x, joins x (l.sent s) = spoken x (l.party s)
  encoded : ∀ s, ∀ sent ∈ (l.party s).sends, encodeMessage (cfg s).codecs sent.msg = some sent.data
  reads : ∀ s, Reads (fun x => joins x (l.taken s.other)) (l.party s)
  decodes : ∀ s, Decodes (cfg s) (l.party s)

theorem stepEncoded (h : Step c t a next out)
    (encoded : ∀ sent ∈ t.sends, encodeMessage c.codecs sent.msg = some sent.data) :
    ∀ sent ∈ next.sends, encodeMessage c.codecs sent.msg = some sent.data := by
  have eq (sends : next.sends = t.sends) : ∀ sent ∈ next.sends, encodeMessage c.codecs sent.msg = some sent.data := by
    rw [sends]
    exact encoded
  cases h with
  | called h =>
    cases h with
    | @send _ _ _ _ _ _ _ _ marshalled =>
      intro sent mem
      rcases List.mem_append.mp mem with old | new
      · exact encoded sent old
      rw [List.mem_singleton.mp new]
      exact marshalled
    | keepaliveFail => exact eq (by simp)
    | _ => exact eq rfl
  | looped h => exact eq (loopedLogs h).2.2
  | ran _ h =>
    cases h with
    | registered h => cases h <;> exact eq rfl
    | @wrote _ after | @unwritten _ after => cases after <;> exact eq rfl
    | failedAll => exact eq (by simp)
    | _ => exact eq rfl

theorem idsOnce (births : Births l) (s) : (ids (l.party s)).Nodup := by
  rw [List.nodup_iff_count_le_one]
  intro x
  have once := bornOnce births s x
  omega

theorem unbornOpen (births : Births l) (s x) (asks : seeks (l.party s).loop = some (x,.opens)) :
    x ∉ ids (l.party s) := by
  have once := bornOnce births s x
  rw [seeksOpens asks,if_pos rfl] at once
  rw [← List.count_eq_zero]
  omega

theorem actTold (held : Told cfg l) (births : Births after)
    (ran : Advance l s [] u outs after) (rule : unmixed (cfg s) (l.party s) a = true)
    (worked : Step (cfg s) (l.party s) a u outs) : Told cfg after := by
  simp only [unmixed,Bool.and_eq_true] at rule
  have hears : Hears (cfg s) (l.party s) u := stepHears worked (idsOnce held.births s) (held.grounded s)
      (fun ok isLoop => by subst isLoop; exact rule.2) (unbornOpen held.births s)
      (fun index x ith => (registersNew held.births ith).2.2.1)
  obtain ⟨sent,other⟩ := sentAdvance ran
  have taken (x : Side) : after.taken x = l.taken x := by
    rcases sideCases s x with rfl | rfl
    · exact ran.unread
    rw [ran.read,List.append_nil]
  refine ⟨births,fun side => ?_,fun side => ?_,fun side x => ?_,fun side => ?_,fun side => ?_,fun side => ?_⟩ <;>
    rcases sideCases s side with rfl | rfl
  · rw [ran.mover]
    exact stepGrounded worked (held.grounded side)
  · rw [ran.bystander]
    exact held.grounded _
  · rw [ran.mover]
    exact stepSpeaks worked (held.speaks side) rule.1
  · rw [ran.bystander]
    exact held.speaks _
  · rw [ran.mover,sent]
    exact stepSpoken worked (held.speaks side) (held.spoken side) x
  · rw [ran.bystander,other]
    exact held.spoken _ x
  · rw [ran.mover]
    exact stepEncoded worked (held.encoded side)
  · rw [ran.bystander]
    exact held.encoded _
  · rw [ran.mover,taken]
    exact hearsReads hears (held.reads side)
  · rw [ran.bystander,taken]
    exact held.reads _
  · rw [ran.mover]
    exact hearsDecodes hears (held.decodes side)
  · rw [ran.bystander]
    exact held.decodes _

theorem takeTold (held : Told cfg l) (births : Births after)
    (ran : Advance l s [f] u [] after) (took : takeFrame (cfg s) (l.party s) f = some u) : Told cfg after := by
  obtain ⟨sent,other⟩ := sentAdvance ran
  rw [List.append_nil] at sent
  refine ⟨births,fun side => ?_,fun side => ?_,fun side x => ?_,fun side => ?_,fun side => ?_,fun side => ?_⟩ <;>
    rcases sideCases s side with rfl | rfl
  · rw [ran.mover]
    exact takenGrounded took
  · rw [ran.bystander]
    exact held.grounded _
  · rw [ran.mover]
    exact takenSpeaks took (held.speaks side)
  · rw [ran.bystander]
    exact held.speaks _
  · rw [ran.mover,sent,held.spoken]
    obtain ⟨_,_,rfl⟩ := takeExact took
    rfl
  · rw [ran.bystander,other]
    exact held.spoken _ x
  · rw [ran.mover]
    obtain ⟨_,_,rfl⟩ := takeExact took
    exact held.encoded side
  · rw [ran.bystander]
    exact held.encoded _
  · rw [ran.mover]
    simp only [ran.read,joinsMore]
    exact takenReads took (held.reads side)
  · have reads := held.reads s.other
    rw [otherOther] at reads ⊢
    rw [ran.bystander,ran.unread]
    exact reads
  · rw [ran.mover]
    exact takenDecodes took (held.decodes side)
  · rw [ran.bystander]
    exact held.decodes _

theorem toldStart (cfg) : Told cfg (connected cfg) where
  births := birthsStart cfg
  grounded s := by cases s <;> exact groundedIdle rfl
  speaks s := by
    cases s with
    | client => exact speaksStart (cfg .client) .client
    | server => exact speaksStart (cfg .server) .server
  spoken s x := by cases s <;> rfl
  encoded s := by cases s <;> simp [connected,joined,newTransport]
  reads s := by
    cases s <;> exact ⟨fun ref o obj => by simp [connected,joined,newTransport] at obj,fun x gone live => rfl⟩
  decodes s := by
    cases s <;> exact ⟨fun ref o obj => by simp [connected,joined,newTransport] at obj,
      fun raw msg now => by simp [connected,joined,newTransport,comes] at now⟩

def SentBy (cfg : Side → Config) (l : Link Transport Frame) (s : Side) (x : UInt64) (msg : Message) : Prop :=
  ∃ call sent, call ∈ (l.party s.other).finished ∧ (l.party s.other).sends[call]? = some sent ∧ sent.id = x ∧
    dispatchDataPayload (cfg s) sent.data = .ok msg ∧
    ((cfg s).codecs = (cfg s.other).codecs → (cfg s).codecs.Lawful →
      sent.msg.codec = [] ∨ sent.msg.codec = (cfg s).codecs.payload.name →
      msg = { sent.msg with codec := (cfg s).codecs.payload.name })

def Settled (l : Link Transport Frame) (s : Side) : Prop := l.wire s.other = [] ∧ (l.party s).loop = .idle

structure Unmixed (cfg : Side → Config) (l : Link Transport Frame) (s : Side) : Prop where
  returned : ∀ (ref : Nat) (o : Stream), (l.party s).objects[ref]? = some o → ∀ event ∈ o.returned, ∀ msg,
    event.body = .ok msg → SentBy cfg l s o.id msg
  order : ∀ (ref : Nat) (o : Stream), (l.party s).objects[ref]? = some o →
    ((handedOver o).map Prod.fst).Sublist (returnedData o.id (l.party s.other))
  complete : Settled l s → ∀ (ref : Nat) (o : Stream), (l.party s).objects[ref]? = some o → o.done = false →
    (l.party s).done = false → (handedOver o).map Prod.fst = returnedData o.id (l.party s.other)
  absent : Settled l s → ∀ x, x ∉ ids (l.party s) → returnedData x (l.party s.other) = []

theorem heardReturned (held : Told cfg l) (s : Side) (x) :
    (joins x (l.taken s.other)).2 <+: returnedData x (l.party s.other) := by
  rw [← (held.speaks s.other).returned x,← held.spoken s.other x]
  exact joinsGrow x _ _

theorem heardSettled (held : Told cfg l) (done : Settled l s) (x) :
    (joins x (l.taken s.other)).2 = returnedData x (l.party s.other) := by
  rw [← (held.speaks s.other).returned x,← held.spoken s.other x,Link.sent,done.1,List.append_nil]

theorem handedOrder (held : Told cfg l) {ref : Nat} (obj : (l.party s).objects[ref]? = some o) :
    ((handedOver o).map Prod.fst).Sublist (returnedData o.id (l.party s.other)) := by
  have grown : (handedOver o).map Prod.fst <+: (view ref (l.party s).loop o).2 :=
    (joinGrows (base o) _).trans (joinGrows _ _)
  exact (grown.sublist.trans ((held.reads s).known ref o obj).order).trans (heardReturned held s o.id).sublist

theorem returnedSent (mem : raw ∈ returnedData x t) :
    ∃ call sent, call ∈ t.finished ∧ t.sends[call]? = some sent ∧ sent.id = x ∧ sent.data = raw := by
  obtain ⟨call,done,isData⟩ := List.mem_filterMap.mp mem
  split at isData <;> try contradiction
  rename_i sent ith
  split at isData <;> try contradiction
  exact ⟨call,sent,done,ith,‹_›,Option.some.inj isData⟩

theorem toldReturned (held : Told cfg l) {ref : Nat} (obj : (l.party s).objects[ref]? = some o) (mem : event ∈ o.returned) (isData : event.body = .ok msg) : SentBy cfg l s o.id msg := by
  have handed : (event.raw,msg) ∈ handedOver o :=
    List.mem_filterMap.mpr ⟨event,List.mem_append_left _ mem,by simp only [dataOf,isData]⟩
  have decoded := (held.decodes s).handed ref o obj event.raw msg handed
  obtain ⟨call,sent,done,ith,named,eq⟩ :=
    returnedSent ((handedOrder held obj).subset (List.mem_map_of_mem handed))
  rw [show event.raw = sent.data from eq.symm] at decoded
  refine ⟨call,sent,done,ith,named,decoded,fun codecs lawful own => ?_⟩
  have encoded := held.encoded s.other sent (List.mem_of_getElem? ith)
  rw [← codecs] at encoded
  have stamped := decodesStamped lawful encoded own
  simp only [dispatchDataPayload,stamped] at decoded
  exact (Except.ok.inj decoded).symm

theorem toldUnmixed (held : Told cfg l) (s) : Unmixed cfg l s where
  returned _ _ object _ mem _ isData := toldReturned held object mem isData
  order _ _ object := handedOrder held object
  complete done ref o object undone isOpen := by
    have all := ((held.reads s).known ref o object).all (by rw [done.2]; rfl) undone isOpen
    rw [done.2] at all
    exact all.trans (heardSettled held done o.id)
  absent done x unknown := by
    have said := (held.reads s).unknown x unknown (by rw [done.2]; rfl)
    rw [done.2] at said
    rw [← heardSettled held done x,said]
    rfl

theorem messagesUnmixed (cfg : Side → Config) (moves : List (Move Act)) (l : Link Transport Frame)
    (h : Trace (Duplex.step (parties cfg)) (kept messageRule cfg · ·) (connected cfg) moves l) (s : Side) :
    Unmixed cfg l s := by
  have kept (l : Link Transport Frame) (m : Move Act) (after : Link Transport Frame) (held : Told cfg l)
      (fits : kept messageRule cfg l m = true) (moved : step (parties cfg) l m = some after) :
      Told cfg after := by
    have births := birthsStep messageBearing held.births fits moved
    rcases linkCases moved fits with ⟨s,a,u,outs,moved,rule,worked⟩ | ⟨s,f,u,moved,_,took⟩
    · exact actTold held births moved rule worked
    exact takeTold held births moved took
  exact toldUnmixed (traceInvariant kept h (toldStart cfg)) s

def tiny (_ : Side) : Config := newConfig plainCodecs [.maxFrame 32]
def long : Message := { hello with payload := List.replicate 15 5 }

def sendsHello : List (Move Act) :=
  [.act .client (.send 0 hello),.act .client (.task 0 true),.act .client (.task 0 true),.act .client (.task 0 true),
    .act .client (.task 0 true),.act .client (.task 0 true),.act .client (.task 0 true)]

def takesFragment : List (Move Act) := [.take .server,.act .server (.loop true),.act .server (.loop true)]

def takesHello : List (Move Act) :=
  takesFragment ++ takesFragment ++
    ([.act .server (.loop true),.act .server (.loop true),.act .server (.loop true),
      .act .server (.receive 0 false)] : List (Move Act))

def failsLong : List (Move Act) :=
  [.act .client (.send 0 long),.act .client (.task 0 true),.act .client (.task 0 true),.act .client (.task 0 true),
    .act .client (.task 0 false)]

def payloads (t : Transport) : List Bytes :=
  match t.objects[0]? with
  | none => []
  | some o => (o.returned.filterMap dataOf).map fun data => data.2.payload

theorem payloadsExact (mem : payload ∈ payloads t) :
    ∃ o event msg, t.objects[0]? = some o ∧ event ∈ o.returned ∧ event.body = .ok msg ∧ msg.payload = payload := by
  unfold payloads at mem
  split at mem
  · simp at mem
  rename_i o obj
  obtain ⟨⟨raw,msg⟩,ith,eq⟩ := List.mem_map.mp mem
  obtain ⟨event,returned,isData⟩ := List.mem_filterMap.mp ith
  refine ⟨o,event,msg,obj,returned,?_,eq⟩
  unfold dataOf at isData
  split at isData <;> cases isData
  exact ‹_›

theorem messagesUnmixedHello :
    ∃ l : Link Transport Frame, payloads (l.party .server) = [[7]] ∧ Unmixed tiny l .server := by
  have accepted : accepts (step (parties tiny)) (kept messageRule tiny · ·) (connected tiny)
      (opensStream ++ sendsHello ++ takesHello) = true := by decide
  obtain ⟨l,ran,trace⟩ := acceptedTrace accepted
  refine ⟨l,?_,messagesUnmixed tiny _ l trace .server⟩
  have seen : ((run (step (parties tiny)) (connected tiny) (opensStream ++ sendsHello ++ takesHello)).map
      fun l => payloads (l.party .server)) = some [[7]] := by decide
  rw [ran] at seen
  exact Option.some.inj seen

theorem leftoverFragmentsMix : ¬ ∀ moves l, Trace (Duplex.step (parties tiny)) Free (connected tiny) moves l →
      ∀ (s : Side) (ref : Nat) (o : Stream), (l.party s).objects[ref]? = some o → ∀ event ∈ o.returned, ∀ msg,
        event.body = .ok msg → ∃ sent ∈ (l.party s.other).sends, sent.id = o.id ∧ msg.payload = sent.msg.payload := by
  intro free
  have mixed : ((run (step (parties tiny)) (connected tiny)
      (opensStream ++ failsLong ++ sendsHello ++ takesFragment ++ takesHello)).map fun l =>
        (payloads (l.party .server),(l.party .client).sends.map fun sent => sent.msg.payload,
          (l.party .client).finished)) =
      some ([[5,1,0,0,8,105,100,101,110,116,105,116,121,1,7]],[List.replicate 15 5,[7]],[1]) := by
    decide
  obtain ⟨l,ran,seen⟩ := Option.map_eq_some_iff.mp mixed
  simp only [Prod.mk.injEq] at seen
  obtain ⟨got,sent,_⟩ := seen
  obtain ⟨o,event,msg,object,returned,isData,same⟩ := payloadsExact (by rw [got]; exact List.mem_singleton_self _)
  obtain ⟨one,member,_,equal⟩ := free _ l (runFree ran) .server 0 o object event returned msg isData
  have listed : msg.payload ∈ (l.party .client).sends.map fun sent => sent.msg.payload :=
    List.mem_map.mpr ⟨one,member,equal.symm⟩
  rw [sent,same] at listed
  exact absurd listed (by decide)

end Gofly.MuxReassembly
