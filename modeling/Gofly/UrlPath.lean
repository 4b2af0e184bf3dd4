import Gofly.Text
/-! Paths of URLs: percent-decoding, the removal of dot segments, and what lies below a
path. A path of bytes is written with one character for each byte. -/
namespace Gofly.UrlPath
open Text

abbrev Path := List Char

def hexValue (c : Char) : Option Nat :=
  if '0' ≤ c ∧ c ≤ '9' then some (c.toNat - 48)
  else if 'a' ≤ c ∧ c ≤ 'f' then some (c.toNat - 87)
  else if 'A' ≤ c ∧ c ≤ 'F' then some (c.toNat - 55)
  else none

def unescape : List Char → Option Path
  | [] => some []
  | '%' :: a :: b :: rest => do
    let high ← hexValue a
    let low ← hexValue b
    let rest ← unescape rest
    some (Char.ofNat (16 * high + low) :: rest)
  | c :: rest => if c = '%' then none else (unescape rest).map (c :: ·)

def dot : Path := ['.']
def dotDot : Path := ['.','.']

def dotStep (out : List Path) (segment : Path) : List Path :=
  if segment = dot then out else if segment = dotDot then out.dropLast else out ++ [segment]

def dotted (segments : List Path) : Bool :=
  segments.getLast? = some dot || segments.getLast? = some dotDot

def removeDotSegments : Path → Path
  | '/' :: rest =>
    let segments := rest.splitOn '/'
    let out := segments.foldl dotStep []
    '/' :: join '/' (if dotted segments then out ++ [[]] else out)
  | path => path

def Inside (outer path : Path) : Prop := outer = ['/'] ∨ path = outer ∨ outer ++ ['/'] <+: path

structure Plain (segments : List Path) : Prop where
  noDot : dot ∉ segments
  noDotDot : dotDot ∉ segments

def stays : (depth : Nat) → List Path → Bool
  | _,[] => true
  | depth,segment :: rest =>
    if segment = dot then stays depth rest
    else if segment = dotDot then decide (0 < depth) && stays (depth - 1) rest
    else stays (depth + 1) rest

theorem foldPlain (plain : Plain segments) (out) : segments.foldl dotStep out = out ++ segments := by
  induction segments generalizing out with
  | nil => simp
  | cons segment rest ih =>
    have one : segment ≠ dot := fun eq => plain.noDot (by simp [eq])
    have two : segment ≠ dotDot := fun eq => plain.noDotDot (by simp [eq])
    rw [List.foldl_cons,dotStep,if_neg one,if_neg two, ih ⟨fun mem => plain.noDot (List.mem_cons_of_mem _ mem),
        fun mem => plain.noDotDot (List.mem_cons_of_mem _ mem)⟩,List.append_assoc,List.singleton_append]

theorem foldStays (outer above)
    (still : stays above.length segments = true) : ∃ more, segments.foldl dotStep (outer ++ above) = outer ++ more := by
  induction segments generalizing above with
  | nil => exact ⟨above,rfl⟩
  | cons segment rest ih =>
    rw [stays] at still
    rw [List.foldl_cons,dotStep]
    split at still
    · rename_i one
      rw [if_pos one]
      exact ih above still
    rename_i one
    rw [if_neg one]
    split at still
    · rename_i two
      obtain ⟨some,still⟩ := Bool.and_eq_true_iff.mp still
      have full : above ≠ [] := by
        rintro rfl
        simp at some
      rw [if_pos two,List.dropLast_append_of_ne_nil full]
      exact ih above.dropLast (by rwa [List.length_dropLast])
    rename_i two
    rw [if_neg two,List.append_assoc]
    exact ih (above ++ [segment]) (by rwa [List.length_append])

theorem insideJoin (some : outer ≠ []) (more) : Inside ('/' :: join '/' outer) ('/' :: join '/' (outer ++ more)) := by
  by_cases none : more = []
  · rw [none,List.append_nil]
    exact .inr (.inl rfl)
  rw [joinAppend '/' some none]
  exact .inr (.inr ⟨join '/' more,by simp⟩)

theorem insideRemoved (some : outer ≠ []) (whole : ∀ segment ∈ outer ++ rest, '/' ∉ segment)
    (plain : Plain outer) (still : stays 0 rest = true) :
    Inside ('/' :: join '/' outer) (removeDotSegments ('/' :: join '/' (outer ++ rest))) := by
  have cut : (join '/' (outer ++ rest)).splitOn '/' = outer ++ rest :=
    List.splitOn_intercalate '/' whole (by simp [some])
  obtain ⟨more,kept⟩ := foldStays outer [] still
  rw [List.append_nil] at kept
  rw [removeDotSegments]
  simp only [cut,List.foldl_append,foldPlain plain,List.nil_append,kept]
  split
  · rw [List.append_assoc]
    exact insideJoin some _
  exact insideJoin some more

end Gofly.UrlPath
