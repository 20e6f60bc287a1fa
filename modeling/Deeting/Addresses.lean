import Deeting.Texts

/-! IP addresses and networks of both families, and how they are written: four numbers, or eight
groups of hexadecimal digits with one run of zeros left out. An IPv4 address may be written as an
IPv6 address, after `ffff`. -/
namespace Deeting.Addresses

open Texts (decimal?)

inductive Address where
  | v4 (ip : BitVec 32)
  | v6 (ip : BitVec 128)
  deriving DecidableEq

inductive Network where
  | v4 (address netmask : BitVec 32)
  | v6 (address netmask : BitVec 128)

def Network.contains : Network → Address → Bool
  | .v4 address netmask, .v4 ip => ip &&& netmask == address
  | .v6 address netmask, .v6 ip => ip &&& netmask == address
  | _, _ => false

namespace Address

def ipv4Mapped : Address → Option Address
  | .v4 _ => none
  | .v6 ip => if ip >>> 32 = 0xffff#128 then some (.v4 (ip.setWidth 32)) else none

def unmapped (a : Address) : Address := a.ipv4Mapped.getD a

theorem unmapped_of_not_mapped {a : Address} (plain : a.ipv4Mapped = none) : a.unmapped = a := by
  rw [unmapped, plain, Option.getD_none]

theorem unmapped_of_mapped {a b : Address} (mapped : a.ipv4Mapped = some b) : a.unmapped = b := by
  rw [unmapped, mapped, Option.getD_some]

end Address

section Reading

def octet? (text : List Char) : Option ℕ :=
  if text.length ≤ 3 ∧ (text.head? ≠ some '0' ∨ text.length = 1) then
    (decimal? text).filter (· ≤ 255)
  else none

def ipv4? (text : List Char) : Option (BitVec 32) :=
  match (text.splitOn '.').mapM octet? with
  | some [a, b, c, d] => some (BitVec.ofNat 32 (((a * 256 + b) * 256 + c) * 256 + d))
  | _ => none

def hextet? (text : List Char) : Option ℕ :=
  if text ≠ [] ∧ text.length ≤ 4 then
    (text.mapM Texts.hexValue).map fun digits => digits.foldl (fun n d => 16 * n + d) 0
  else none

def groups? (text : List Char) : Option (List (List Char)) :=
  let parts := text.splitOn ':'
  match parts.getLast? with
  | some last =>
    if '.' ∈ last then
      (ipv4? last).map fun ip =>
        let half (n : ℕ) : List Char := Nat.toDigits 16 n
        parts.dropLast ++ [half (ip.toNat / 65536), half (ip.toNat % 65536)]
    else some parts
  | none => none

def gaps (parts : List (List Char)) : List ℕ :=
  (List.range parts.length).filter fun i =>
    0 < i ∧ i + 1 < parts.length ∧ parts.getD i [] = []

def ofGroups (groups : List ℕ) : BitVec 128 :=
  BitVec.ofNat 128 (groups.foldl (fun n g => 65536 * n + g) 0)

def side? (parts : List (List Char)) : Option (List ℕ) :=
  if parts = [[]] then some [] else parts.mapM hextet?

def ipv6? (text : List Char) : Option (BitVec 128) := do
  let parts ← groups? (← unscoped? text)
  if parts.length < 3 ∨ 9 < parts.length then none
  else
    match gaps parts with
    | [] => if parts.length = 8 then (parts.mapM hextet?).map ofGroups else none
    | [gap] =>
      let high ← side? (parts.take gap)
      let low ← side? (parts.drop (gap + 1))
      if high.length + low.length < 8 then
        some (ofGroups (high ++ List.replicate (8 - high.length - low.length) 0 ++ low))
      else none
    | _ => none
where
  /-- The text before a scope, which is not empty and has no `%` of its own. -/
  unscoped? (text : List Char) : Option (List Char) :=
    if '/' ∈ text then none
    else
      match text.splitOn '%' with
      | [address] => some address
      | [address, scope] => if scope = [] then none else some address
      | _ => none

def ipAddress (text : String) : Option Address :=
  ((ipv4? text.toList).map .v4) <|> ((ipv6? text.toList).map .v6)

def netmask (w length : ℕ) : BitVec w := BitVec.allOnes w <<< (w - length)

def prefix? (max : ℕ) (text : List Char) : Option ℕ := (decimal? text).filter (· ≤ max)

def ipv4Prefix? (text : List Char) : Option ℕ :=
  prefix? 32 text <|>
    (ipv4? text).bind fun mask =>
      (List.range 33).find? (fun n => netmask 32 n = mask) <|>
        (List.range 33).find? fun n => netmask 32 n = ~~~mask

/-- `ipaddress.ip_network` with `strict=False`: the bits behind the prefix are left out. -/
def ipNetwork (text : String) : Option Network :=
  let parts := text.toList.splitOn '/'
  let address := parts.headD []
  let length? (read : List Char → Option ℕ) (max : ℕ) : Option ℕ :=
    match parts with
    | [_] => some max
    | [_, length] => read length
    | _ => none
  let four : Option Network := do
    let ip ← ipv4? address
    let n ← length? ipv4Prefix? 32
    some (.v4 (ip &&& netmask 32 n) (netmask 32 n))
  let six : Option Network := do
    let ip ← ipv6? address
    let n ← length? (prefix? 128) 128
    some (.v6 (ip &&& netmask 128 n) (netmask 128 n))
  four <|> six

end Reading

example : ipAddress "::ffff:169.254.169.254" = some (.v6 0xffffa9fea9fe#128) := by decide +kernel

example : (ipNetwork "169.254.7.7/16").any (·.contains (.v4 0xa9fea9fe#32)) := by decide +kernel

end Deeting.Addresses
