import SchemaWalk.Text.ClusterClass

/-! # Clusters: the parts of a text that a reader sees as one character each

The rules are those of Unicode for extended grapheme clusters. -/
namespace SchemaWalk.Text

namespace ClusterClass

/-- A character that begins and ends a cluster, except that a line feed joins a carriage return. -/
def isBreak : ClusterClass → Bool
  | .control | .carriageReturn | .lineFeed => true
  | _ => false

/-- A mark that changes the character before it and takes up no room. -/
def isExtender : ClusterClass → Bool
  | .extending | .linker | .nonJoiner => true
  | _ => false

/-- A mark that belongs to whatever stands before it. -/
def isMark (k : ClusterClass) : Bool := k.isExtender || k = .joiner || k = .spacing

/-- A mark that may stand between the consonants of a conjunct. -/
def isInConjunct : ClusterClass → Bool
  | .extending | .linker | .joiner => true
  | _ => false

def joinsHangul : ClusterClass → ClusterClass → Bool
  | .leading, next =>
    next = .leading || next = .vowel || next = .openSyllable || next = .closedSyllable
  | .openSyllable, next | .vowel, next => next = .vowel || next = .trailing
  | .closedSyllable, next | .trailing, next => next = .trailing
  | _, _ => false

/-- A consonant with marks after it, a linker among them; the last character comes first. -/
def endsLinked (before : List ClusterClass) : Bool :=
  (before.takeWhile isInConjunct).contains .linker &&
    (before.dropWhile isInConjunct).head? = some .consonant

/-- A pictograph with extenders and then a joiner after it; the last character comes first. -/
def endsJoined : List ClusterClass → Bool
  | .joiner :: before => (before.dropWhile isExtender).head? = some .pictograph
  | _ => false

/-- Flags are pairs of letters, so an odd number of them waits for one more. -/
def endsHalfFlag (before : List ClusterClass) : Bool :=
  (before.takeWhile (· = .flag)).length % 2 = 1

/-- Whether a character belongs to the cluster of which those before it are given,
the last one first. -/
def joins : List ClusterClass → ClusterClass → Bool
  | [], _ => false
  | last :: before, next =>
    if last.isBreak || next.isBreak then last = .carriageReturn && next = .lineFeed
    else if next.isMark || last = .prepended then true
    else if next = .consonant then endsLinked (last :: before)
    else if next = .pictograph then endsJoined (last :: before)
    else if next = .flag then endsHalfFlag (last :: before)
    else joinsHangul last next

end ClusterClass

open ClusterClass

/-- The clusters of a text after the characters `begun` of the first one. They stand in reverse, and
so do their classes. -/
def clustersFrom (begun : List Char) (classes : List ClusterClass) : List Char → List (List Char)
  | [] => [begun.reverse]
  | c :: s =>
    let k := ofChar c
    if joins classes k then clustersFrom (c :: begun) (k :: classes) s
    else begun.reverse :: clustersFrom [c] [k] s

def clusters : List Char → List (List Char)
  | [] => []
  | c :: s => clustersFrom [c] [ofChar c] s

theorem flatten_clustersFrom (begun : List Char) (classes : List ClusterClass) (s : List Char) :
    (clustersFrom begun classes s).flatten = begun.reverse ++ s := by
  induction s generalizing begun classes with
  | nil => simp [clustersFrom]
  | cons c s ih =>
    simp only [clustersFrom]
    split
    · simp [ih]
    · simp [ih]

theorem flatten_clusters (s : List Char) : (clusters s).flatten = s := by
  cases s with
  | nil => rfl
  | cons c s => simp [clusters, flatten_clustersFrom]

end SchemaWalk.Text
