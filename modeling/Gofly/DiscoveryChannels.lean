import Gofly.DiscoveryBus
import Gofly.RegistryChannels
/-! Sends and closes of discovery channels, on the bus and in the registry. -/
namespace Gofly.DiscoveryChannels
open Discovery Transition DiscoveryBus

/-- However cancels, closes and watches interleave, no channel is closed twice. -/
theorem neverClosedTwice :
    (∀ as w, Trace step Free start as w → w.bus.fault ≠ some .closed) ∧
    ∀ now as w, Trace MemoryRegistry.step Free (MemoryRegistry.start now) as w → w.reg.fault ≠ some .closed :=
  ⟨fun _ _ trace => (traceInvariant (fun _ _ _ kept _ ran => stepKept kept ran) trace keptStart).single,
    fun now _ _ trace => (traceInvariant (fun _ _ _ kept _ ran => MemoryRegistry.stepKept kept ran) trace
      (MemoryRegistry.keptStart now)).single⟩

theorem settledNeverFaults (now : Int) (as : List DiscoveryBus.Act) (b : DiscoveryBus.World)
    (bs : List MemoryRegistry.Act) (w : MemoryRegistry.World)
    (busRun : Trace DiscoveryBus.step DiscoveryBus.Settled DiscoveryBus.start as b)
    (registryRun : Trace MemoryRegistry.step MemoryRegistry.Settled (MemoryRegistry.start now) bs w) :
    b.bus.fault = none ∧ w.reg.fault = none := by
  constructor
  · exact (traceInvariant (P := Sealed)
      (fun _ _ _ sealed fits moved => stepSealed sealed fits moved) busRun
      sealedStart).alive
  exact (traceInvariant (P := MemoryRegistry.Sealed)
    (fun _ _ _ sealed fits moved => MemoryRegistry.stepSealed sealed fits moved) registryRun
    (MemoryRegistry.sealedStart now)).alive

def node : Instance := ⟨"a","s","http://a",1,"","","",∅,∅⟩
def event : Event := ⟨.updated,"s",0,node,[node],noChanges⟩

def busCalls (late : Bool) : List DiscoveryBus.Act :=
  let turn (i : Nat) : DiscoveryBus.Act := .run i ⟨[],false⟩
  [.subscribe "s" 1,.publish event,turn 0] ++
    (if late then [.cancel 0,turn 1,turn 1,turn 0] else [turn 0,.cancel 0,turn 1,turn 1])

def registryCalls (late : Bool) : List MemoryRegistry.Act :=
  let turn (i : Nat) : MemoryRegistry.Act := .run i ⟨[],[],0⟩
  [.watch "s" [],turn 0,turn 0,turn 0,turn 0,.receive 0,.register node [],turn 1,turn 1,turn 1] ++
    (if late then [.cancel 0,turn 2,turn 2,turn 1,turn 1]
     else [turn 1,turn 1,.cancel 0,turn 2,turn 2])

theorem sentThenClosed : ∃ b w, run DiscoveryBus.step DiscoveryBus.start (busCalls false) = some b ∧
    run MemoryRegistry.step (MemoryRegistry.start 0) (registryCalls false) = some w ∧
    b.bus.subs.map (·.chan.closed) = [true] ∧ w.reg.watchers.map (·.chan.closed) = [true] ∧
    b.bus.fault = none ∧ w.reg.fault = none := by
  have busAccepted : accepts step Settled start (busCalls false) =
      true := by decide +kernel
  have busEnds : (run step start (busCalls false)).map
      (·.bus.subs.map (·.chan.closed)) = some [true] := by decide +kernel
  have accepted : accepts MemoryRegistry.step MemoryRegistry.Settled (MemoryRegistry.start 0)
      (registryCalls false) = true := by decide +kernel
  have ends : (run MemoryRegistry.step (MemoryRegistry.start 0) (registryCalls false)).map
      (·.reg.watchers.map (·.chan.closed)) = some [true] := by decide +kernel
  obtain ⟨b,busRan,busTrace⟩ := acceptedTrace busAccepted
  obtain ⟨w,ran,trace⟩ := acceptedTrace accepted
  rw [busRan] at busEnds
  rw [ran] at ends
  exact ⟨b,w,busRan,ran,Option.some.inj busEnds,Option.some.inj ends, settledNeverFaults 0 _ b _ w busTrace trace⟩

theorem closedThenSent : (¬ ∀ as w, Trace DiscoveryBus.step Free DiscoveryBus.start as w → w.bus.fault = none) ∧
    ¬ ∀ now as w, Trace MemoryRegistry.step Free (MemoryRegistry.start now) as w → w.reg.fault = none := by
  constructor
  · intro law
    have faults : (run step start (busCalls true)).any
        (·.bus.fault == some .sent) = true := by decide +kernel
    obtain ⟨w,ran,sent⟩ := (Option.any_eq_true _ _).mp faults
    have alive := law (busCalls true) w (runFree ran)
    simp [alive] at sent
  intro law
  have faults : (run MemoryRegistry.step (MemoryRegistry.start 0) (registryCalls true)).any
      (·.reg.fault == some .sent) = true := by decide +kernel
  obtain ⟨w,ran,sent⟩ := (Option.any_eq_true _ _).mp faults
  have alive := law 0 (registryCalls true) w (runFree ran)
  simp [alive] at sent

end Gofly.DiscoveryChannels
