import ScriptMin.Token.Basic

/-!
# The supply of short names

Names are numbered by their length and then by their characters, in the order of an alphabet in
which frequent letters come first. `freshNames` takes the first names that are not excluded. A
generator gives the same names one at a time: it has a counter with a digit for every character, and
a call counts on until it is at a name that may be given.
-/

namespace ScriptMin.Rename

/-- The characters that a short name starts with, the most frequent in code first. -/
def startAlphabet : List Char :=
  ['e', 't', 'n', 'r', 'i', 's', 'o', 'u', 'a', 'f', 'l', 'c', 'h', 'p', 'd', 'v', 'm', 'g', 'y',
   'b', 'w', 'E', 'S', 'x', 'T', 'N', 'C', 'k', 'L', 'A', 'O', 'M', '_', 'D', 'P', 'H', 'B', 'j',
   'F', 'I', 'q', 'R', 'U', 'z', 'W', 'X', 'V', '$', 'J', 'K', 'Q', 'G', 'Y', 'Z']

/-- The characters that a short name goes on with. -/
def restAlphabet : List Char :=
  startAlphabet ++ ['0', '5', '1', '6', '3', '7', '2', '9', '8', '4']

/-- The name with a number, or the end of it that the fuel is enough for. The last character counts
up fastest. -/
def nameFrom : Nat → Nat → List Char
  | 0, _ => []
  | fuel + 1, k =>
    if k < startAlphabet.length then [startAlphabet.getD k 'e']
    else
      let k := k - startAlphabet.length
      nameFrom fuel (k / restAlphabet.length) ++ [restAlphabet.getD (k % restAlphabet.length) 'e']

/-- The name with a number. A number has fewer digits than it counts, so the fuel is enough. -/
def nameAt (k : Nat) : String := String.ofList (nameFrom (k + 1) k)

/-- Words that are reserved in strict code, or that mean something else where they are bound. -/
def reservedWords : List String :=
  ["arguments", "enum", "eval", "implements", "Infinity", "interface", "NaN", "package", "private",
   "protected", "public", "undefined"]

/-- Whether a name is never given to anything. -/
def isReserved (name : String) : Bool :=
  (Word.ofString? name).isSome || reservedWords.contains name

/-- The first number from `k` on whose name is not excluded, within the fuel. -/
def nextFresh (excluded : String → Bool) : Nat → Nat → Nat
  | 0, k => k
  | fuel + 1, k => if excluded (nameAt k) then nextFresh excluded fuel (k + 1) else k

/-- As many names as asked for, from number `k` on: the first that are neither reserved nor to be
avoided. -/
def freshNamesFrom (avoid : List String) (k : Nat) : Nat → List String
  | 0 => []
  | count + 1 =>
    let fuel := Word.table.length + reservedWords.length + avoid.length
    let k := nextFresh (fun name => isReserved name || avoid.contains name) fuel k
    nameAt k :: freshNamesFrom avoid (k + 1) count

/-- The first names that are neither reserved nor to be avoided. -/
def freshNames (avoid : List String) (count : Nat) : List String := freshNamesFrom avoid 0 count

/-! ## Names one at a time -/

/-- The alphabet of a character of a name, by the digits of those before it. A digit is where the
character stands in its alphabet. -/
def alphabetAfter (front : List Nat) : List Char :=
  if front.isEmpty then startAlphabet else restAlphabet

/-- The digits of the next name, the last character's first. A digit at the end of its alphabet
starts anew and carries, and a carry out of the first character makes the name longer. -/
def countUp : List Nat → List Nat
  | [] => [0]
  | digit :: front =>
    if digit = (alphabetAfter front).length - 1 then 0 :: countUp front else (digit + 1) :: front

/-- Every digit is within its alphabet. -/
def InAlphabets : List Nat → Prop
  | [] => True
  | digit :: front => digit < (alphabetAfter front).length ∧ InAlphabets front

theorem length_alphabetAfter_pos (front : List Nat) : 0 < (alphabetAfter front).length := by
  unfold alphabetAfter
  split <;> decide

theorem inAlphabets_countUp {digits : List Nat} (h : InAlphabets digits) :
    InAlphabets (countUp digits) := by
  induction digits with
  | nil => exact ⟨length_alphabetAfter_pos [], trivial⟩
  | cons digit front ih =>
    unfold countUp
    split
    next hend => exact ⟨length_alphabetAfter_pos _, ih h.2⟩
    next hend =>
      have hdigit := h.1
      exact ⟨by omega, h.2⟩

/-- The characters with these digits, in the order of the name. -/
def spelled : List Nat → List Char
  | [] => []
  | digit :: front => spelled front ++ [(alphabetAfter front).getD digit 'e']

/-- A generator of names, none of which may be reserved. -/
structure NameGenerator where
  reserved : List String
  /-- The digits of the last name, the last character's first. -/
  digits : List Nat
  inAlphabets : InAlphabets digits

namespace NameGenerator

def ofReserved (reserved : List String) : NameGenerator := ⟨reserved, [], trivial⟩

/-- The last name. -/
def name (g : NameGenerator) : String := String.ofList (spelled g.digits)

/-- Counts on by one name. -/
def advance (g : NameGenerator) : NameGenerator :=
  { g with digits := countUp g.digits, inAlphabets := inAlphabets_countUp g.inAlphabets }

/-- Whether the last name is not one to give. -/
def isExcluded (g : NameGenerator) (avoid : List String) : Bool :=
  Rename.isReserved g.name || avoid.contains g.name || g.reserved.contains g.name

/-- Counts on to the next name that may be given while some are to be avoided, for so many rounds at
the most. -/
def next? (avoid : List String) : Nat → NameGenerator → Option (String × NameGenerator)
  | 0, _ => none
  | rounds + 1, g =>
    let g := g.advance
    if g.isExcluded avoid then next? avoid rounds g else some (g.name, g)

/-- The names of successive calls, each with its own names to avoid. -/
def names? (rounds : Nat) : List (List String) → NameGenerator → Option (List String)
  | [], _ => some []
  | avoid :: avoids, g => do
    let (name, g) ← g.next? avoid rounds
    let names ← names? rounds avoids g
    return name :: names

end NameGenerator

end ScriptMin.Rename
