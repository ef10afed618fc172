import HeteroCluster.FailFast
import HeteroCluster.GoStrings

namespace HeteroCluster.Hostlist

open FailFast GoStrings

/-- Why there is no list of names: the code returned an error, or a loop was
still going on when its rounds were used up. -/
inductive Stop where
  | failed (message : String)
  | unfinished
  deriving DecidableEq

section Split

/-- The names found so far, the text of the group under way, and how many
brackets are open. -/
structure Scan where
  depth : Int
  group : List Char
  groups : List String

def Scan.endGroup (s : Scan) : Scan :=
  let group := trimSpace (String.ofList s.group)
  ⟨s.depth, [], if group = "" then s.groups else s.groups ++ [group]⟩

def Scan.add (s : Scan) (depth : Int) (c : Char) : Scan := ⟨depth, s.group ++ [c], s.groups⟩

def scanChar (value : String) (s : Scan) (c : Char) : Except Stop Scan :=
  if c = '[' then .ok (s.add (s.depth + 1) c)
  else if c = ']' then
    if s.depth - 1 < 0 then .error (.failed ("invalid hostlist " ++ quote value))
    else .ok (s.add (s.depth - 1) c)
  else if (c = ',' ∨ c = ' ' ∨ c = '\t') ∧ s.depth = 0 then .ok s.endGroup
  else .ok (s.add s.depth c)

def splitHostlist (value : String) : Except Stop (List String) := do
  let s ← value.toList.foldlM (scanChar value) ⟨0, [], []⟩
  refuse (s.depth ≠ 0) (.failed ("invalid hostlist " ++ quote value))
  return s.endGroup.groups

end Split

section Expand

/-- `fmt.Sprintf("%0*d", width, number)`. The package refuses a width above a
million. -/
def padded (width : Nat) (number : Int) : String :=
  let digits := Nat.toDigits 10 number.natAbs
  let sign := if number < 0 then ['-'] else []
  if 1000000 < width then "%!(BADWIDTH)" ++ String.ofList (sign ++ digits)
  else String.ofList (sign ++ List.replicate (width - sign.length - digits.length) '0' ++ digits)

/-- The loop over the numbers of a range: what it has built after a number of
rounds, and whether it has come to its end. -/
def countUp (width : Nat) (last : Int) : Nat → Int → List String × Bool
  | 0, number => ([], decide (last < number))
  | rounds + 1, number =>
    if number ≤ last then
      let rest := countUp width last rounds (wrapInt64 (number + 1))
      (padded width number :: rest.1, rest.2)
    else ([], true)

/-- The bounds of a range that passes the checks, and the width of its numbers. -/
structure NumericRange where
  start : Int
  last : Int
  width : Nat
  deriving DecidableEq

def parseRange (limit : Int) (low high : String) : Option NumericRange := do
  let start ← atoi low
  let last ← atoi high
  if start > last ∨ wrapInt64 (wrapInt64 (last - start) + 1) > limit then none
  else some ⟨start, last, max low.length high.length⟩

def rangeNames (rounds : Nat) (r : NumericRange) : List String × Bool :=
  countUp r.width r.last rounds r.start

def optionNames (rounds : Nat) (limit : Int) (option : String) : Except Stop (List String) :=
  match split option '-' with
  | [name] =>
    if name ≠ "" then .ok [name] else .error (.failed ("invalid hostlist range " ++ quote option))
  | [low, high] =>
    match parseRange limit low high with
    | none => .error (.failed ("invalid hostlist range " ++ quote option))
    | some r =>
      let names := rangeNames rounds r
      if names.2 then .ok names.1 else .error .unfinished
  | _ => .error (.failed ("invalid hostlist range " ++ quote option))

/-- One round of the loop that extends the names of a group by a bracket.
`done` is the number of names of the groups before. -/
def addName (limit : Int) (done : Nat) (next : List String) (name : String) :
    Except Stop (List String) :=
  if ((next.length + 1 + done : Nat) : Int) > limit then
    .error (.failed ("hostlist exceeds " ++ toString limit ++ " nodes"))
  else .ok (next ++ [name])

/-- The names of a group so far, extended by the text before a bracket and by what
stands in it. -/
def addBracket (rounds : Nat) (limit : Int) (done : Nat) (expanded : List String)
    (before inner : String) : Except Stop (List String) := do
  let values ← (split inner ',').mapM (optionNames rounds limit)
  let names := expanded.flatMap (fun base => values.flatten.map (base ++ before ++ ·))
  names.foldlM (addName limit done) []

/-- The loop over a group, which takes a bracket with the text before it in each
round. -/
def expandGroup (rounds : Nat) (limit : Int) (done : Nat) :
    Nat → String → List String → Except Stop (List String)
  | left, group, expanded =>
    if group = "" then .ok expanded
    else
      match left with
      | 0 => .error .unfinished
      | left + 1 =>
        match cut group '[' with
        | (_, _, false) => .ok (expanded.map (· ++ group))
        | (before, opened, true) =>
          match cut opened ']' with
          | (_, _, false) => .error (.failed ("unclosed hostlist range " ++ quote group))
          | (inner, after, true) => do
            let next ← addBracket rounds limit done expanded before inner
            expandGroup rounds limit done left after next

def addGroup (rounds : Nat) (limit : Int) (result : List String) (group : String) :
    Except Stop (List String) := do
  let expanded ← expandGroup rounds limit result.length rounds group [""]
  refuse (((result ++ expanded).length : Int) > limit)
    (.failed ("hostlist exceeds " ++ toString limit ++ " nodes"))
  return result ++ expanded

/-- `expandHostlist`, with each of its loops stopped after a number of rounds. -/
def expandHostlist (rounds : Nat) (value : String) (limit : Int) : Except Stop (List String) := do
  let groups ← splitHostlist value
  groups.foldlM (addGroup rounds limit) []

end Expand

end HeteroCluster.Hostlist
