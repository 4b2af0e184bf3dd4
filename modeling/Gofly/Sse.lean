import Gofly.Decimal
import Gofly.Text
/-! Server-sent events as the two writers put them on the wire, and as a WHATWG event-stream parser
reads them. -/
namespace Gofly.Sse
open Text
open List (cons_ne_nil mem_append mem_cons mem_cons_self)

abbrev Str := List Char

structure SSEEvent where
  event : Str
  id : Str
  retry : Int
  data : Str

def sanitizeSSELine (value : Str) : Str := (value.filter (· ≠ '\r')).filter (· ≠ '\n')
def field (name value : Str) : Str := name ++ ':' :: ' ' :: value ++ ['\n']
def wire (fields : List (Str × Str)) : Str := fields.flatMap (fun f => field f.1 f.2) ++ ['\n']

def heads (e : SSEEvent) : List (Str × Str) :=
  (if e.id = [] then [] else [("id".toList,sanitizeSSELine e.id)]) ++
  (if e.event = [] then [] else [("event".toList,sanitizeSSELine e.event)]) ++
  if e.retry ≤ 0 then [] else [("retry".toList,Decimal.digits e.retry)]

def dataOf (value : Str) : Str × Str := ("data".toList,value)
def sse (e : SSEEvent) : Str := wire (heads e ++ (e.data.splitOn '\n').map fun line => dataOf (trimSuffix ['\r'] line))

inductive StreamEvent where
  | message | trailers | error

def StreamEvent.name : StreamEvent → Str
  | .message => "message".toList
  | .trailers => "trailers".toList
  | .error => "error".toList

def writeSSEEvent (event : StreamEvent) (data : Str) : Str :=
  wire [("event".toList,event.name),("data".toList,data)]
def breaks (c : Char) : Bool := c = '\r' || c = '\n'

def lines (cr : Bool) (line : Str) : Str → List Str
  | [] => []
  | c :: rest =>
    if cr && c = '\n' then lines false line rest
    else if breaks c then line :: lines (c = '\r') [] rest
    else lines false (line ++ [c]) rest

def normalize (cr : Bool) : Str → Str
  | [] => []
  | c :: rest =>
    if cr && c = '\n' then normalize false rest else (if breaks c then '\n' else c) :: normalize (c = '\r') rest

/- What an event stream has gathered, or dispatched. -/
structure Dispatched where
  type : Str
  data : Str
  deriving DecidableEq

def fieldName (line : Str) : Str := line.takeWhile (· ≠ ':')

def fieldValue (line : Str) : Str :=
  match (line.dropWhile (· ≠ ':')).tail with
  | ' ' :: value => value
  | value => value

def typeOf (name : Str) : Str := if name = [] then "message".toList else name

def readLine (b : Dispatched) (line : Str) : Dispatched :=
  if line = [] then ⟨[],[]⟩
  else if fieldName line = "event".toList then { b with type := fieldValue line }
  else if fieldName line = "data".toList then { b with data := b.data ++ fieldValue line ++ ['\n'] }
  else b

def events (b : Dispatched) : List Str → List Dispatched
  | [] => []
  | line :: rest =>
    (if line = [] ∧ b.data ≠ [] then [⟨typeOf b.type,b.data.dropLast⟩] else []) ++ events (readLine b line) rest

def parse (text : Str) : List Dispatched := events ⟨[],[]⟩ (lines false [] text)

def paired (cr : Bool) : Str → Bool
  | [] => !cr
  | c :: rest => (!cr || c = '\n') && paired (c = '\r') rest

def Clean (s : Str) : Prop := ∀ c ∈ s, breaks c = false

theorem cleanLines (clean : Clean u) (line rest) :
    lines false line (u ++ '\n' :: rest) = (line ++ u) :: lines false [] rest := by
  induction u generalizing line with
  | nil => simp [lines,breaks]
  | cons c u ih =>
    have later := ih (fun d mem => clean d (List.mem_cons_of_mem c mem)) (line ++ [c])
    rw [List.cons_append,lines,if_neg (by simp),if_neg (by simp [clean c mem_cons_self]),later]
    simp

def lineOf (f : Str × Str) : Str := f.1 ++ ':' :: ' ' :: f.2
def Sound (f : Str × Str) : Prop := Clean f.1 ∧ Clean f.2

theorem fieldLines (sound : Sound f) (rest) :
    lines false [] (field f.1 f.2 ++ rest) = lineOf f :: lines false [] rest := by
  have clean : Clean (lineOf f) := by
    intro c mem
    simp only [lineOf,mem_append,mem_cons] at mem
    rcases mem with name | rfl | rfl | value
    · exact sound.1 c name
    · rfl
    · rfl
    exact sound.2 c value
  have whole := cleanLines clean [] rest
  simpa [field,lineOf] using whole

theorem wireLines (sound : ∀ f ∈ fields, Sound f) : lines false [] (wire fields) = fields.map lineOf ++ [[]] := by
  unfold wire
  induction fields with
  | nil => rfl
  | cons f rest ih =>
    rw [List.flatMap_cons,List.append_assoc,fieldLines (sound f mem_cons_self),
      ih fun g mem => sound g (List.mem_cons_of_mem f mem)]
    rfl

theorem dataEvents (type) (segs : List Str) (data) (some : data ++ segs.flatMap (· ++ ['\n']) ≠ []) :
    events ⟨type,data⟩ (segs.map (fun s => lineOf ("data".toList,s)) ++ [[]]) =
      [⟨typeOf type,(data ++ segs.flatMap (· ++ ['\n'])).dropLast⟩] := by
  induction segs generalizing data with
  | nil => simp_all [events]
  | cons s rest ih =>
    have later := ih (data ++ s ++ ['\n']) (by simp)
    have read : readLine ⟨type,data⟩ (lineOf ("data".toList,s)) = ⟨type,data ++ s ++ ['\n']⟩ := rfl
    rw [List.map_cons,List.cons_append,events,read,later]
    simp [lineOf]

theorem joinCons (s) (some : rest ≠ []) : join '\n' (s :: rest) = s ++ '\n' :: join '\n' rest := by
  have split := joinAppend '\n' (cons_ne_nil s []) some
  rwa [joinOne] at split

theorem joinedLines (some : segs ≠ []) : (segs.flatMap (· ++ ['\n'])).dropLast = join '\n' segs := by
  induction segs with
  | nil => contradiction
  | cons s rest ih =>
    cases rest with
    | nil => simp
    | cons next more =>
      rw [joinCons s (cons_ne_nil next more),← ih (cons_ne_nil _ _),List.flatMap_cons,List.dropLast_append_of_ne_nil (by simp)]
      simp

theorem sanitizedClean (value) : Clean (sanitizeSSELine value) := by
  intro c mem
  simp only [sanitizeSSELine,List.mem_filter,decide_eq_true_eq] at mem
  simp [breaks,mem.1.2,mem.2]

theorem namesClean : ∀ name ∈ ["id".toList,"event".toList,"retry".toList,"data".toList], Clean name := by
  simp [Clean,breaks]

theorem headsSound (e) : ∀ f ∈ heads e, Sound f := by
  have digits : Clean (Decimal.digits e.retry) := by
    intro c member
    have code := Decimal.asciiDigit member
    unfold breaks
    rw [Bool.or_eq_false_iff,decide_eq_false_iff_not,decide_eq_false_iff_not]
    constructor <;> rintro rfl <;> simp at code
  intro f member
  simp only [heads,mem_append] at member
  rcases member with (member | member) | member <;> split at member <;> try contradiction
  all_goals cases List.mem_singleton.mp member
  · exact ⟨namesClean _ (by simp),sanitizedClean _⟩
  · exact ⟨namesClean _ (by simp),sanitizedClean _⟩
  exact ⟨namesClean _ (by simp),digits⟩

theorem headEvents (e rest) :
    events ⟨[],[]⟩ ((heads e).map lineOf ++ rest) = events ⟨sanitizeSSELine e.event,[]⟩ rest := by
  unfold heads
  by_cases unnamed : e.event = []
  · rw [if_pos unnamed,unnamed]
    split <;> split <;> rfl
  split <;> split <;> rfl

theorem pairedHead (other : c ≠ '\n') (h : paired false (c :: s) = true) :
    c = '\r' ∧ s.head? = some '\n' ∨ breaks c = false ∧ paired false s = true ∧ ∀ t, normalize false (c :: t) = c :: normalize false t := by
  by_cases isCR : c = '\r'
  · cases s with
    | nil => simp [paired,isCR] at h
    | cons d s => exact .inl ⟨isCR,by simp [paired,isCR] at h; simp [h.1]⟩
  have plainC : breaks c = false := by simp [breaks,isCR,other]
  exact .inr ⟨plainC,by simpa [paired,isCR] using h,fun t => by simp [normalize,plainC,isCR]⟩

theorem pairedSegment (whole : '\n' ∉ s) (h : paired false (s ++ '\n' :: rest) = true) :
    ∃ u, (s = u ∨ s = u ++ ['\r']) ∧ Clean u ∧ normalize false (s ++ '\n' :: rest) = u ++ '\n' :: normalize false rest ∧
      paired false rest = true := by
  induction s with
  | nil => exact ⟨[],.inl rfl,nofun,rfl,by simpa [paired] using h⟩
  | cons c s ih =>
    rw [mem_cons,not_or] at whole
    rcases pairedHead (Ne.symm whole.1) h with ⟨rfl,next⟩ | ⟨plainC,later,eq⟩
    · cases s with
      | nil => exact ⟨[],.inr rfl,nofun,rfl,by simpa [paired] using h⟩
      | cons d s => simp at next; simp [next] at whole
    obtain ⟨u,shape,clean,normal,after⟩ := ih whole.2 later
    refine ⟨c :: u,?_,List.forall_mem_cons.mpr ⟨plainC,clean⟩,by rw [List.cons_append,eq,normal]; rfl,after⟩
    rcases shape with rfl | rfl
    · exact .inl rfl
    exact .inr rfl

theorem pairedEnd (whole : '\n' ∉ s) (h : paired false s = true) : Clean s ∧ normalize false s = s := by
  induction s with
  | nil => exact ⟨nofun,rfl⟩
  | cons c s ih =>
    rw [mem_cons,not_or] at whole
    rcases pairedHead (Ne.symm whole.1) h with ⟨_,next⟩ | ⟨plainC,later,eq⟩
    · exact absurd (List.mem_of_mem_head? next) whole.2
    obtain ⟨clean,normal⟩ := ih whole.2 later
    exact ⟨List.forall_mem_cons.mpr ⟨plainC,clean⟩,by rw [eq,normal]⟩

theorem trimClean (clean : Clean u) : trimSuffix ['\r'] u = u ∧ trimSuffix ['\r'] (u ++ ['\r']) = u := by
  refine ⟨if_neg fun ends => ?_,?_⟩
  · obtain ⟨v,rfl⟩ := List.isSuffixOf_iff_suffix.mp ends
    have last := clean '\r' (by simp)
    contradiction
  simp [trimSuffix]

theorem pairedLines (some : segs ≠ []) (whole : ∀ s ∈ segs, '\n' ∉ s)
    (h : paired false (join '\n' segs) = true) : (∀ s ∈ segs, Clean (trimSuffix ['\r'] s)) ∧
      normalize false (join '\n' segs) = join '\n' (segs.map (trimSuffix ['\r'])) := by
  induction segs with
  | nil => contradiction
  | cons s rest ih =>
    cases rest with
    | nil =>
      rw [joinOne] at h ⊢
      obtain ⟨clean,eq⟩ := pairedEnd (whole s mem_cons_self) h
      rw [List.map_singleton,joinOne,(trimClean clean).1]
      exact ⟨by simpa [(trimClean clean).1] using clean,eq⟩
    | cons next more =>
      rw [joinCons s (cons_ne_nil next more)] at h
      obtain ⟨u,shape,clean,normal,later⟩ := pairedSegment (whole s mem_cons_self) h
      obtain ⟨cleans,joined⟩ := ih (cons_ne_nil _ _) (fun t mem => whole t (List.mem_cons_of_mem s mem)) later
      have trimmed : trimSuffix ['\r'] s = u := by
        rcases shape with rfl | rfl
        · exact (trimClean clean).1
        exact (trimClean clean).2
      refine ⟨fun t mem => ?_,?_⟩
      · rcases mem_cons.mp mem with rfl | inside
        · rwa [trimmed]
        · exact cleans t inside
      rw [joinCons s (cons_ne_nil next more),normal,joined,← trimmed]
      exact (joinCons _ (by simp)).symm

theorem wireEvent (sound : ∀ f ∈ fields, Sound f) (clean : ∀ d ∈ ds, Clean d) (some : ds ≠ [])
    (read : ∀ rest, events ⟨[],[]⟩ (fields.map lineOf ++ rest) = events ⟨type,[]⟩ rest) :
    parse (wire (fields ++ ds.map dataOf)) = [⟨typeOf type,join '\n' ds⟩] := by
  have all : ∀ f ∈ fields ++ ds.map dataOf, Sound f := by
    intro f mem
    rcases mem_append.mp mem with head | inside
    · exact sound f head
    obtain ⟨d,later,rfl⟩ := List.mem_map.mp inside
    exact ⟨namesClean _ (by simp [dataOf]),clean d later⟩
  have full : [] ++ ds.flatMap (· ++ ['\n']) ≠ [] := by
    obtain ⟨d,rest,rfl⟩ := List.exists_cons_of_ne_nil some
    simp
  have whole := dataEvents type ds [] full
  rw [List.nil_append,joinedLines some] at whole
  rw [parse,wireLines all,List.map_append,List.append_assoc,read,List.map_map]
  exact whole

/-- Data in which every CR is followed by an LF, and a payload on one line, arrive as one event. -/
theorem framedOnce :
    (∀ e, paired false e.data = true → parse (sse e) = [⟨typeOf (sanitizeSSELine e.event),normalize false e.data⟩]) ∧
      ∀ event data, Clean data → parse (writeSSEEvent event data) = [⟨event.name,data⟩] := by
  refine ⟨fun e whole => ?_,fun event data clean => ?_⟩
  · have segs : join '\n' (e.data.splitOn '\n') = e.data := List.intercalate_splitOn '\n'
    have some := List.splitOn_ne_nil '\n' e.data
    have shape : sse e = wire (heads e ++ ((e.data.splitOn '\n').map (trimSuffix ['\r'])).map dataOf) := by
      rw [List.map_map]
      rfl
    rw [← segs] at whole
    obtain ⟨clean,normal⟩ := pairedLines some (fun s member => Text.pieceWhole member) whole
    rw [segs] at normal
    rw [shape,normal]
    refine wireEvent (headsSound e) (fun d member => ?_) (by simp) (headEvents e)
    obtain ⟨s,inside,rfl⟩ := List.mem_map.mp member
    exact clean s inside
  · have names : Clean "message".toList ∧ Clean "trailers".toList ∧ Clean "error".toList := by simp [Clean,breaks]
    have name : Clean event.name := by
      cases event
      · exact names.1
      · exact names.2.1
      · exact names.2.2
    have read : parse (wire ([("event".toList,event.name)] ++ [data].map dataOf)) = [⟨typeOf event.name,join '\n' [data]⟩] := by
      refine wireEvent (fun f member => ?_) (fun d member => ?_) (by simp) fun rest => rfl
      · cases List.mem_singleton.mp member
        exact ⟨namesClean _ (by simp),name⟩
      · exact List.mem_singleton.mp member ▸ clean
    rw [Text.joinOne] at read
    cases event <;> exact read

theorem loneReturnCuts : parse (sse ⟨['e','\n'],[],0,['a','\r','b']⟩) = [⟨['e'],['a']⟩] ∧
      (parse (sse ⟨[],[],0,['a','\r','\r'] ++ "data: b".toList⟩)).length = 2 ∧
      parse (writeSSEEvent .message ['\x7b','\n','\x7d']) = [⟨"message".toList,['\x7b']⟩] := by
  decide

theorem pairedArrives :
    parse (sse ⟨['e'],[],0,['a','\r','\n','b']⟩) = [⟨['e'],['a','\n','b']⟩] := framedOnce.1 ⟨['e'],[],0,['a','\r','\n','b']⟩ rfl

end Gofly.Sse
