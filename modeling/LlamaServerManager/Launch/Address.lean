import LlamaServerManager.Launch.CommandLine

/-!
The texts of `std` that the launch checks parse: IP addresses and 16-bit ports; and which
hosts `is_loopback_bind_host` takes for the local machine.
-/

namespace LlamaServerManager.Launch

open Lib.Text

inductive IpAddr where
  | v4 (octets : List Nat)
  | v6 (segments : List Nat)
deriving DecidableEq, Repr

/-- `char::to_digit`. -/
def toDigit (radix : Nat) (c : Char) : Option Nat :=
  let value :=
    if c.isDigit then some (c.toNat - '0'.toNat)
    else if 'a' ≤ c ∧ c ≤ 'f' then some (c.toNat - 'a'.toNat + 10)
    else if 'A' ≤ c ∧ c ≤ 'F' then some (c.toNat - 'A'.toNat + 10)
    else none
  value.filter (· < radix)

def digitsValue (radix : Nat) (digits : Str) : Nat :=
  digits.foldl (fun value c => value * radix + (toDigit radix c).getD 0) 0

/-- `read_number`: all digits that follow, at most `maxDigits` of them. -/
def readNumber (radix maxDigits largest : Nat) (allowZeroPrefix : Bool) (text : Str) :
    Option (Nat × Str) :=
  let digits := text.takeWhile fun c => (toDigit radix c).isSome
  if digits = [] ∨ maxDigits < digits.length ∨ largest < digitsValue radix digits then none
  else if !allowZeroPrefix && digits.head? == some '0' && 1 < digits.length then none
  else some (digitsValue radix digits, text.drop digits.length)

def readGivenChar (c : Char) : Str → Option Str
  | d :: text => if c = d then some text else none
  | [] => none

/-- `read_separator`: a separator before all but the first. -/
def readSeparator (c : Char) (index : Nat) (text : Str) : Option Str :=
  if index = 0 then some text else readGivenChar c text

/-- The octets from `index` on. -/
def readOctets (index : Nat) : Nat → Str → Option (List Nat × Str)
  | 0, text => some ([], text)
  | missing + 1, text => do
    let text ← readSeparator '.' index text
    let (octet, text) ← readNumber 10 3 255 false text
    let (octets, text) ← readOctets (index + 1) missing text
    return (octet :: octets, text)

def readIpv4Addr (text : Str) : Option (List Nat × Str) := readOctets 0 4 text

/-- `read_groups`: the groups from `index` on, whether an IPv4 address ends them, and the
text left. An IPv4 address needs two groups. -/
def readGroups (index : Nat) : Nat → Str → List Nat × Bool × Str
  | 0, text => ([], false, text)
  | missing + 1, text =>
    let embedded := if missing = 0 then none else (readSeparator ':' index text).bind readIpv4Addr
    match embedded with
    | some ([one, two, three, four], text) =>
      ([one * 256 + two, three * 256 + four], true, text)
    | _ =>
      match (readSeparator ':' index text).bind (readNumber 16 4 65535 true) with
      | none => ([], false, text)
      | some (group, text) =>
        let (groups, ipv4, text) := readGroups (index + 1) missing text
        (group :: groups, ipv4, text)

/-- `read_ipv6_addr`: eight groups, or groups around one `::`. -/
def readIpv6Addr (text : Str) : Option (List Nat × Str) :=
  let (head, headIpv4, text) := readGroups 0 8 text
  if head.length = 8 then some (head, text)
  else if headIpv4 then none
  else do
    let text ← readGivenChar ':' text
    let text ← readGivenChar ':' text
    let (tail, _, text) := readGroups 0 (8 - (head.length + 1)) text
    return (head ++ List.replicate (8 - head.length - tail.length) 0 ++ tail, text)

/-- `parse::<IpAddr>()`: the whole text is an address. -/
def parseIpAddr (text : Str) : Option IpAddr :=
  match readIpv4Addr text with
  | some (octets, []) => some (.v4 octets)
  | some (_, _ :: _) => none
  | none =>
    match readIpv6Addr text with
    | some (segments, []) => some (.v6 segments)
    | _ => none

/-- `IpAddr::is_loopback`. -/
def IpAddr.isLoopback : IpAddr → Bool
  | .v4 octets => octets.head? == some 127
  | .v6 segments => segments == [0, 0, 0, 0, 0, 0, 0, 1]

/-- `parse::<u16>()`: digits, after a plus sign or not. -/
def parseU16 (text : Str) : Option Nat :=
  let digits := if text.head? = some '+' then text.tail else text
  if digits = [] ∨ digits.any (fun c => !c.isDigit) ∨ 65535 < digitsValue 10 digits then none
  else some (digitsValue 10 digits)

def isLoopbackBindHost (host : Str) : Bool :=
  let trimmed := trimChars host
  let host :=
    if trimmed.head? = some '[' ∧ trimmed.tail.getLast? = some ']' then trimmed.tail.dropLast
    else trimmed
  host.map Char.toLower == "localhost".toList || (parseIpAddr host).any IpAddr.isLoopback

example : isLoopbackBindHost "[0:0::0.0.0.1]".toList = true := by decide
example : isLoopbackBindHost "127.1".toList = false := by decide

end LlamaServerManager.Launch
