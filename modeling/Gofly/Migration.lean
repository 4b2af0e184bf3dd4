import Gofly.Ascending
import Gofly.ByteReader
import Gofly.LastWins
import Gofly.Governance
/-! The migration runner of the command line tool: the snapshot of the local files, the
checksum ledger, and the runs of up, down and status, one database call after another. -/
namespace Gofly.Migration
open Governance
open ByteReader

structure FileName where
  version : Nat
  name : Str
  up : Bool
  deriving DecidableEq

structure File where
  fileName : Option FileName
  data : Bytes
  deriving DecidableEq

structure Entry where
  version : Int
  name : Str
  upSHA256 : Str
  downSHA256 : Str
  upSQL : Bytes
  downSQL : Bytes
  deriving DecidableEq

structure HistoryRow where
  version : Int
  name : Str
  up : Str
  down : Str
  deriving DecidableEq

inductive LoadErr where
  | filename
  | version
  | fileTooLarge
  | catalogTooLarge
  | mismatched (version : Nat)
  | duplicateUp (version : Nat)
  | duplicateDown (version : Nat)
  | unpaired (version : Nat)
  deriving DecidableEq

inductive HistoryErr where
  | missing (current : Int)
  | fileSetDiffers
  | mismatch (version : Int)
  deriving DecidableEq

def maxSQLBytes : Nat := 8 * 2 ^ 20
def maxCatalogBytes : Nat := 64 * 2 ^ 20
def maxInt : Nat := 2 ^ 63 - 1

structure Pair where
  version : Nat
  name : Str
  up : Option Bytes
  down : Option Bytes
  deriving DecidableEq

def putPair (pairs : List Pair) (pair : Pair) : List Pair :=
  pair :: pairs.filter (·.version ≠ pair.version)

def addFile (pairs : List Pair) (file : FileName) (data : Bytes) : Except LoadErr (List Pair) :=
  let pair := (pairs.find? (·.version = file.version)).getD ⟨file.version,file.name,none,none⟩
  if pair.name ≠ file.name then .error (.mismatched file.version)
  else if file.up then
    if pair.up.isSome then .error (.duplicateUp file.version)
    else .ok (putPair pairs { pair with version := file.version,up := some data })
  else if pair.down.isSome then .error (.duplicateDown file.version)
  else .ok (putPair pairs { pair with version := file.version,down := some data })

def readFiles : List File → Nat → List Pair → Except LoadErr (List Pair)
  | [],_,pairs => .ok pairs
  | file :: rest,total,pairs =>
    match file.fileName with
    | none => .error .filename
    | some name =>
      if name.version = 0 ∨ maxInt < name.version then .error .version
      else if maxSQLBytes < file.data.length then .error .fileTooLarge
      else if maxCatalogBytes < total + file.data.length then .error .catalogTooLarge
      else (addFile pairs name file.data).bind (readFiles rest (total + file.data.length))

def Pair.entry (hash : Bytes → Str) (pair : Pair) : Except LoadErr Entry :=
  match pair.up, pair.down with
  | some up,some down => .ok ⟨pair.version,pair.name,hash up,hash down,up,down⟩
  | _,_ => .error (.unpaired pair.version)

def loadRoot (hash : Bytes → Str) (files : List File) : Except LoadErr (List Entry) :=
  (readFiles files 0 []).bind fun pairs =>
    (pairs.mapM (Pair.entry hash)).map fun entries => entries.insertionSort fun a b => a.version ≤ b.version

def Entry.row (e : Entry) : HistoryRow := ⟨e.version,e.name,e.upSHA256,e.downSHA256⟩

def checkHistory (entries : List Entry) (rows : List HistoryRow) (current : Int) : Option HistoryErr :=
  let applied := entries.filter (·.version ≤ current)
  let expected := LastWins.lookup Entry.version applied
  if 0 ≤ current ∧ expected current = none then some (.missing current)
  else if (LastWins.table Entry.version applied).length ≠ rows.length then some .fileSetDiffers
  else (rows.find? fun row => (expected row.version).map Entry.row ≠ some row).map fun row => .mismatch row.version

def first (entries : List Entry) : Option Int := entries.head?.map Entry.version
def next (entries : List Entry) (version : Int) : Option Int := (Ascending.next Entry.version entries version).map Entry.version
def prev (entries : List Entry) (version : Int) : Option Int := (Ascending.prev Entry.version entries version).map Entry.version

def read (ready : Bytes → Bool) (entries : List Entry) (version : Int) (up : Bool) : Option Bytes :=
  match entries.find? (·.version = version) with
  | none => none
  | some e => if ready e.upSQL && ready e.downSQL then some (if up then e.upSQL else e.downSQL) else none

inductive Action where
  | up
  | down
  | status
  deriving DecidableEq

structure Plan where
  target : Int
  sql : Bytes
  deriving DecidableEq

def enginePlan (ready : Bytes → Bool) (entries : List Entry) (action : Action) (version : Int) : Option Plan :=
  match action with
  | .status => none
  | .up =>
    (if version < 0 then first entries else next entries version).bind fun target =>
      (read ready entries target true).map (⟨target,·⟩)
  | .down =>
    if version < 0 then none
    else match prev entries version with
      | some target => (read ready entries version false).map (⟨target,·⟩)
      | none => (first entries).bind fun lowest => (read ready entries lowest false).map (⟨-1,·⟩)

structure Database where
  version : Int
  dirty : Bool
  rows : List HistoryRow
  deriving DecidableEq

inductive Phase where
  | lock
  | ensure
  | inspect
  | list (version : Int)
  | opened
  | mark (plan : Plan)
  | setDirty (previous : Int) (plan : Plan)
  | run (previous : Int) (plan : Plan)
  | ledger (previous : Int) (plan : Plan)
  | setClean (plan : Plan)
  deriving DecidableEq

structure Proc where
  action : Action
  steps : Nat
  entries : List Entry
  left : Option Nat
  phase : Phase
  deriving DecidableEq

structure Applied where
  version : Int
  name : Str
  upSQL : Bytes
  downSQL : Bytes
  deriving DecidableEq

structure Execution where
  action : Action
  plan : Plan
  previous : Int
  entries : List Entry
  rows : List HistoryRow
  applied : List Applied
  deriving DecidableEq

structure World where
  db : Database
  applied : List Applied
  log : List Execution
  proc : Option Proc
  deriving DecidableEq

inductive Outcome where
  | ok
  | failed (done : Bool)
  deriving DecidableEq

def Outcome.done : Outcome → Bool
  | .ok => true
  | .failed done => done

inductive Act where
  | invoke (action : Action) (steps : Int) (files : List File)
  | call (outcome : Outcome)
  | crash
  deriving DecidableEq

def stepsFit (p : Proc) (rows : List HistoryRow) : Bool :=
  !(p.action == .down && decide (rows.length < p.steps)) &&
    !(p.action == .up && decide ((p.entries.length : Int) - rows.length < p.steps))

def advance (ready : Bytes → Bool) (p : Proc) (version : Int) : Option Proc :=
  if p.left = some 0 then none
  else (enginePlan ready p.entries p.action version).map fun plan =>
    { p with left := p.left.map (· - 1),phase := .mark plan }

-- the rows that Record or Remove leaves, none where there is no entry to record or a row of its version
def ledgerRows (p : Proc) (previous : Int) (plan : Plan) (rows : List HistoryRow) : Option (List HistoryRow) :=
  if p.action = .down then some (rows.filter (·.version ≠ previous))
  else (p.entries.find? (·.version = plan.target)).bind fun e =>
    if rows.any (·.version = e.version) then none else some (rows ++ [e.row])

def afterRun (p : Proc) (previous : Int) (plan : Plan) (applied : List Applied) : List Applied :=
  if p.action = .down then applied.filter (·.version ≠ previous)
  else match p.entries.find? (·.version = plan.target) with
    | none => applied
    | some e => applied ++ [⟨e.version,e.name,plan.sql,e.downSQL⟩]

def World.stop (w : World) : World := { w with proc := none }
def World.go (w : World) (p : Proc) (phase : Phase) : World := { w with proc := some { p with phase } }
def World.goOn (w : World) (p : Proc) (outcome : Outcome) (phase : Phase) : World :=
  if outcome = .ok then w.go p phase else w.stop

def Database.setVersion (db : Database) (version : Int) (dirty : Bool) : Database := { db with version,dirty }

section
variable (hash : Bytes → Str) (ready : Bytes → Bool)

def call (w : World) (p : Proc) (o : Outcome) : World :=
  match p.phase with
  | .lock => w.goOn p o .ensure
  | .ensure => w.goOn p o .inspect
  | .inspect => w.goOn p o (if w.db.dirty then .opened else .list w.db.version)
  | .list version =>
    if checkHistory p.entries w.db.rows version = none ∧ stepsFit p w.db.rows = true then w.goOn p o .opened else w.stop
  | .opened =>
    if o = .ok ∧ w.db.dirty = false then { w with proc := advance ready p w.db.version } else w.stop
  | .mark plan => w.goOn p o (.setDirty w.db.version plan)
  | .setDirty previous plan =>
    let w := if o.done then { w with db := w.db.setVersion plan.target true } else w
    w.goOn p o (.run previous plan)
  | .run previous plan =>
    let ran : Execution := ⟨p.action,plan,previous,p.entries,w.db.rows,w.applied⟩
    let w := { w with
      applied := if o.done then afterRun p previous plan w.applied else w.applied,log := w.log ++ [ran] }
    w.goOn p o (.ledger previous plan)
  | .ledger previous plan =>
    match ledgerRows p previous plan w.db.rows with
    | none => w.stop
    | some rows =>
      let w := if o.done then { w with db := { w.db with rows } } else w
      w.goOn p o (.setClean plan)
  | .setClean plan =>
    let w := if o.done then { w with db := w.db.setVersion plan.target false } else w
    if o = .ok then { w with proc := advance ready p plan.target } else w.stop

def invoke (w : World) (action : Action) (steps : Int) (files : List File) : World :=
  if steps < 0 ∨ action = .down ∧ steps = 0 then w
  else match loadRoot hash files with
    | .error _ => w
    | .ok entries =>
      let left := if action = .up ∧ steps = 0 then none else some steps.toNat
      { w with proc := some ⟨action,steps.toNat,entries,left,.lock⟩ }

def step (w : World) : Act → Option World
  | .invoke action steps files => if w.proc = none then some (invoke hash w action steps files) else none
  | .call outcome => w.proc.map fun p => call ready w p outcome
  | .crash => some w.stop
end

def initial : World := ⟨⟨-1,false,[]⟩,[],[],none⟩
end Gofly.Migration
