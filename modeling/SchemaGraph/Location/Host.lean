import SchemaGraph.Text.Pieces

/-!
# Hosts in brackets

The host of a URL may be written in brackets, and is then either a version 6 address or an address
of a later version.  This module decides which bracketed texts are such hosts.
-/

namespace SchemaGraph.Host

/-- Whether a character is a digit to base sixteen. -/
def isHex (c : Char) : Bool :=
  c.isDigit || ('a' ≤ c && c ≤ 'f') || ('A' ≤ c && c ≤ 'F')

/-- One to three decimal digits without a leading zero, at most 255. -/
def isOctet (text : List Char) : Bool :=
  !text.isEmpty && text.length ≤ 3 && text.all Char.isDigit &&
    (text.length == 1 || text.head? != some '0') &&
    text.foldl (fun n c => 10 * n + (c.toNat - 48)) 0 ≤ 255

/-- Four octets separated by points. -/
def isVersion4 (text : List Char) : Bool :=
  let parts := Pieces.cut '.' text
  parts.length == 4 && parts.all isOctet

/-- One to four digits to base sixteen. -/
def isGroup (text : List Char) : Bool :=
  !text.isEmpty && text.length ≤ 4 && text.all isHex

/-- The parts between colons; a version 4 address at the end counts as two groups. -/
def groups? (text : List Char) : Option (List (List Char)) :=
  let parts := Pieces.cut ':' text
  if parts.length < 3 then none
  else
    let last := parts.getLast?.getD []
    if last.contains '.' then
      if isVersion4 last then some (parts.dropLast ++ [['0'], ['0']]) else none
    else some parts

/-- The positions of the empty parts that are neither first nor last. -/
def innerGaps (parts : List (List Char)) : List Nat :=
  (List.range (parts.length - 1)).filter fun i =>
    0 < i ∧ (parts[i]?.getD []).isEmpty

/-- Eight groups, or fewer around one gap.  A colon at either end must belong to the gap. -/
def isVersion6 (text : List Char) : Bool :=
  match groups? text with
  | none => false
  | some parts =>
    if 9 < parts.length then false
    else
      let firstEmpty := (parts.head?.getD []).isEmpty
      let lastEmpty := (parts.getLast?.getD []).isEmpty
      match innerGaps parts with
      | [] => parts.length == 8 && !firstEmpty && !lastEmpty && parts.all isGroup
      | [gap] =>
        let before := if firstEmpty then gap - 1 else gap
        let behind := parts.length - gap - 1
        let behind := if lastEmpty then behind - 1 else behind
        !(firstEmpty && before != 0) && !(lastEmpty && behind != 0) &&
          before + behind ≤ 7 &&
          ((parts.take gap).drop (gap - before)).all isGroup &&
          ((parts.drop (gap + 1)).take behind).all isGroup
      | _ => false

/-- An address with an optional zone, which is not empty and has no further percent sign. -/
def isScopedVersion6 (text : List Char) : Bool :=
  match Pieces.splitFirst '%' text with
  | (address, none) => isVersion6 address
  | (address, some zone) => isVersion6 address && !zone.isEmpty && !zone.contains '%'

/-- An address of a later version: the letter `v`, a version, a point and anything more. -/
def isLaterVersion (text : List Char) : Bool :=
  match Pieces.splitFirst '.' (text.drop 1) with
  | (version, some rest) =>
    !version.isEmpty && version.all isHex && !rest.isEmpty && !rest.contains '\n'
  | (_, none) => false

/-- Whether a text may stand in brackets as a host. -/
def isBracketed (text : List Char) : Bool :=
  if text.head? = some 'v' then isLaterVersion text else isScopedVersion6 text

end SchemaGraph.Host
