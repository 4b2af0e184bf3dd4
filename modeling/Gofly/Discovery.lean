import Mathlib.Data.List.AList
import Mathlib.Data.List.Sort
import Gofly.Text
/-! Service instances and the events about them: normalization, the options of a resolver, and
the changes between two lists of instances. -/
namespace Gofly.Discovery

def isSpace (c : Char) : Bool :=
  [9,10,11,12,13,32,133,160,5760,8232,8233,8239,8287,12288].contains c.toNat ||
    (8192 ≤ c.toNat && c.toNat ≤ 8202)

def trimSpace (s : String) : String := String.ofList (Text.trim isSpace s.toList)

def trimRight (s : String) (cut : Char) : String :=
  String.ofList (s.toList.reverse.dropWhile (· == cut)).reverse

abbrev StringMap := AList fun _ : String => String
instance : DecidableEq StringMap := fun a b => decidable_of_iff (a.entries = b.entries) AList.ext_iff.symm
def statusUnhealthy : String := "unhealthy"

structure Instance where
  id : String
  service : String
  endpoint : String
  weight : Int
  version : String
  zone : String
  status : String
  tags : StringMap
  metadata : StringMap
  deriving DecidableEq

def normalizeInstance (inst : Instance) : Instance :=
  let endpoint := trimRight (trimSpace inst.endpoint) '/'
  let id := trimSpace inst.id
  { inst with
    service := trimSpace inst.service
    endpoint := endpoint
    id := if id = "" then endpoint else id
    weight := if inst.weight < 0 then 0 else inst.weight
    version := trimSpace inst.version
    zone := trimSpace inst.zone
    status := trimSpace inst.status }

structure ResolveOptions where
  tags : StringMap
  version : String
  zone : String
  includeUnhealthy : Bool
  deriving DecidableEq

inductive ResolveOption where
  | withTag (key value : String)
  | withTags (tags : List (String × String))
  | withVersion (version : String)
  | withZone (zone : String)
  | includeUnhealthy

def ResolveOptions.withTag (o : ResolveOptions) (key value : String) : ResolveOptions :=
  if trimSpace key = "" then o else { o with tags := o.tags.insert (trimSpace key) value }

def ResolveOption.apply (o : ResolveOptions) : ResolveOption → ResolveOptions
  | .withTag key value => o.withTag key value
  | .withTags tags => tags.foldl (fun o tag => o.withTag tag.1 tag.2) o
  | .withVersion version => { o with version := trimSpace version }
  | .withZone zone => { o with zone := trimSpace zone }
  | .includeUnhealthy => { o with includeUnhealthy := true }

def applyResolveOptions (opts : List ResolveOption) : ResolveOptions :=
  opts.foldl ResolveOption.apply ⟨∅,"","",false⟩

def instanceMatches (inst : Instance) (options : ResolveOptions) : Bool :=
  if !options.includeUnhealthy && inst.status == statusUnhealthy then false
  else if options.version != "" && inst.version != options.version then false
  else if options.zone != "" && inst.zone != options.zone then false
  else options.tags.entries.all fun tag => (inst.tags.lookup tag.1).getD "" == tag.2

structure ChangeSet where
  added : List Instance
  removed : List Instance
  updated : List Instance
  unchanged : List Instance
  deriving DecidableEq

def sameMap (a b : StringMap) : Bool := decide (a.entries.Perm b.entries)

def deepEqual (a b : Instance) : Bool :=
  decide ((a.id,a.service,a.endpoint,a.weight) = (b.id,b.service,b.endpoint,b.weight)) &&
    decide ((a.version,a.zone,a.status) = (b.version,b.zone,b.status)) &&
    sameMap a.tags b.tags && sameMap a.metadata b.metadata

def instancesByID (instances : List Instance) : AList fun _ : String => Instance :=
  instances.foldl (fun out inst =>
    let inst := normalizeInstance inst
    if inst.id = "" ∧ inst.endpoint = "" then out else out.insert inst.id inst) ∅

def earlier (a b : Instance) : Bool :=
  if a.service ≠ b.service then a.service < b.service
  else if a.id ≠ b.id then a.id < b.id
  else a.endpoint < b.endpoint

def sortInstances (instances : List Instance) : List Instance :=
  instances.insertionSort fun a b => earlier b a = false

def diffInstances (previous current : List Instance) : ChangeSet :=
  let prevByID := instancesByID previous
  let currentByID := instancesByID current
  let among (p : Option Instance → Instance → Bool) :=
    sortInstances
      ((currentByID.entries.filter fun row => p (prevByID.lookup row.1) row.2).map Sigma.snd)
  { added := among fun prev _ => prev.isNone
    updated := among fun prev inst => prev.any (!deepEqual · inst)
    unchanged := among fun prev inst => prev.any (deepEqual · inst)
    removed := sortInstances
      ((prevByID.entries.filter fun row => (currentByID.lookup row.1).isNone).map Sigma.snd) }

inductive EventType where
  | snapshot | added | removed | updated | registered | deregistered | expired
  deriving DecidableEq

structure Event where
  type : EventType
  service : String
  atTime : Int
  inst : Instance
  instances : List Instance
  changes : ChangeSet
  deriving DecidableEq

def noInstance : Instance := ⟨"","","",0,"","","",∅,∅⟩
def noChanges : ChangeSet := ⟨[],[],[],[]⟩

end Gofly.Discovery
