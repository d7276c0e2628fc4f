import Mathlib.Data.List.Induction
import Mathlib.Data.List.Nodup
import Faceplate.Lib.CString
import Faceplate.Lib.Snprintf

/-!
# The addresses of the interfaces

`misc/issue_network.c` keeps the addresses the kernel reports in a book. For the issue text
they are listed by interface, at most 32 of them each, in a string of a fixed size. The
string is written through a pointer and a count of the bytes that remain, both of which
advance by what `snprintf` returns.
-/

namespace Faceplate.Misc

open CString Snprintf Writes

/-- `enum rating`. -/
inductive Rating where
  | ratBad
  | ratLink
  | ratTemporary
  | ratSite
  | ratUniverse
  deriving DecidableEq

/-- The value of a rating. -/
def Rating.rank : Rating → ℕ
  | ratBad => 0
  | ratLink => 1
  | ratTemporary => 2
  | ratSite => 3
  | ratUniverse => 4

/-- `struct ip_addr`. -/
structure IpAddr where
  addr : CharArray 46
  quality : Rating
  interface : CharArray 16
  valid : ℕ

/-- `struct addr_book`. -/
structure AddrBook where
  ipv4 : List IpAddr
  ipv6 : List IpAddr
  bestQuality : Rating

/-- `MAX_ADDR_PER_IFACE`. -/
def maxAddrPerIface : ℕ := 32

/-- `struct interface`. -/
structure Interface where
  name : List UInt8
  ips : List IpAddr
  few : ips.length ≤ maxAddrPerIface

namespace Interface

/-- What `get_interface` adds to the list. -/
def new (name : List UInt8) : Interface := ⟨name, [], Nat.zero_le _⟩

/-- The address is added while there is room for it. -/
def add (iface : Interface) (ip : IpAddr) : Interface :=
  if h : iface.ips.length < maxAddrPerIface then
    ⟨iface.name, iface.ips ++ [ip], by rw [List.length_append]; exact h⟩
  else iface

end Interface

/-- `add_ip_to_interface`, which adds to the interface that `get_interface` finds under the
name or creates at the end of the list. -/
def addIpToInterface : List Interface → IpAddr → List Interface
  | [], ip => [(Interface.new ip.interface.text).add ip]
  | iface :: ifaces, ip =>
    if iface.name = ip.interface.text then iface.add ip :: ifaces
    else iface :: addIpToInterface ifaces ip

/-- The rating that the filter compares with. `RAT_SITE` is as good as `RAT_UNIVERSE`. -/
def AddrBook.best (book : AddrBook) : Rating :=
  if book.bestQuality = .ratUniverse then .ratSite else book.bestQuality

/-- The addresses that are listed, in order. -/
def AddrBook.listed (book : AddrBook) (filter : Bool) : List IpAddr :=
  (book.ipv4 ++ book.ipv6).filter fun ip => !(filter && ip.quality.rank < book.best.rank)

/-- The list of interfaces that is built from the book. -/
def AddrBook.interfaces (book : AddrBook) (filter : Bool) : List Interface :=
  (book.listed filter).foldl addIpToInterface []

/-- `BUF_SIZE`. -/
def bufSize : ℕ := 8192

/-- The string that is being written, each byte of it nothing before it is written: the
place `s`, the bytes that remain, and the subtractions from them so far. -/
structure Printer where
  out : List (Option UInt8)
  s : ℕ
  remaining : ℕ
  subtractions : List (ℕ × ℕ)

namespace Printer

/-- After `malloc`. -/
def start : Printer := ⟨List.replicate bufSize none, 0, bufSize - 1, []⟩

/-- `snprintf` of a text, and what follows it. -/
def print (p : Printer) (text : List UInt8) : Option Printer :=
  (snprintf (some 0) p.out p.s p.remaining (text.map some)).map fun out =>
    ⟨out, p.s + text.length, subSize p.remaining text.length,
      p.subtractions ++ [(p.remaining, text.length)]⟩

/-- The loop over the addresses of an interface. -/
def printAddrs : List IpAddr → Printer → Option Printer
  | [], p => some p
  | ip :: ips, p =>
    if p.remaining > 0 then (p.print (ip.addr.text ++ lit " ")).bind (printAddrs ips) else some p

/-- `*s++`. -/
def put (p : Printer) (c : UInt8) : Option Printer :=
  (write p.out p.s (some c)).map fun out => { p with out := out, s := p.s + 1 }

/-- The loop over the interfaces. -/
def printIfaces : List Interface → Printer → Option Printer
  | [], p => some p
  | iface :: ifaces, p => do
    let p ← p.print (iface.name ++ lit ": ")
    let p ← printAddrs iface.ips p
    if p.remaining < 2 then return p
    else
      let p ← p.put 0x0d
      let p ← p.put 0x0a
      printIfaces ifaces
        { p with
          remaining := subSize p.remaining 2
          subtractions := p.subtractions ++ [(p.remaining, 2)] }

end Printer

/-- `issue_network_get_all_ip`. The memory is there. -/
def issueNetworkGetAllIp (book : AddrBook) (filter : Bool) : Option Printer := do
  let p ← Printer.printIfaces (book.interfaces filter) Printer.start
  let out ← write p.out p.s (some 0)
  return { p with out := out }

/-! ## The interfaces -/

/-- The names of the interfaces of some addresses, each when it is first seen. -/
def ifaceNames (ips : List IpAddr) : List (List UInt8) :=
  ips.foldl (fun names ip =>
    if ip.interface.text ∈ names then names else names ++ [ip.interface.text]) []

/-- An interface with the first of its addresses. -/
def Interface.of (ips : List IpAddr) (name : List UInt8) : Interface where
  name := name
  ips := (ips.filter (·.interface.text = name)).take maxAddrPerIface
  few := List.length_take_le _ _

theorem ifaceNames_concat (ips : List IpAddr) (ip : IpAddr) :
    ifaceNames (ips ++ [ip]) = if ip.interface.text ∈ ifaceNames ips then ifaceNames ips
      else ifaceNames ips ++ [ip.interface.text] := by
  rw [ifaceNames, List.foldl_append]
  rfl

theorem mem_ifaceNames (ips : List IpAddr) (name : List UInt8) :
    name ∈ ifaceNames ips ↔ ∃ ip ∈ ips, ip.interface.text = name := by
  induction ips using List.reverseRecOn with
  | nil => simp [ifaceNames]
  | append_singleton ips ip ih =>
    rw [ifaceNames_concat]
    by_cases hmem : ip.interface.text ∈ ifaceNames ips
    · rw [if_pos hmem, ih]
      grind
    · rw [if_neg hmem, List.mem_append, ih]
      grind

theorem nodup_ifaceNames (ips : List IpAddr) : (ifaceNames ips).Nodup := by
  induction ips using List.reverseRecOn with
  | nil => exact List.nodup_nil
  | append_singleton ips ip ih =>
    rw [ifaceNames_concat]
    split_ifs with hmem
    · exact ih
    · rw [← List.concat_eq_append, List.nodup_concat]
      exact ⟨hmem, ih⟩

namespace Interface

theorem of_concat_of_ne {ips : List IpAddr} {ip : IpAddr} {name : List UInt8}
    (h : ip.interface.text ≠ name) : Interface.of (ips ++ [ip]) name = Interface.of ips name := by
  simp [Interface.of, h]

/-- A further address of an interface is added while it has fewer than 32. -/
theorem of_concat_self (ips : List IpAddr) (ip : IpAddr) :
    Interface.of (ips ++ [ip]) ip.interface.text =
      (Interface.of ips ip.interface.text).add ip := by
  set own := ips.filter (·.interface.text = ip.interface.text) with hown
  have hfilter : (ips ++ [ip]).filter (·.interface.text = ip.interface.text) = own ++ [ip] := by
    simp [hown]
  by_cases hroom : (own.take maxAddrPerIface).length < maxAddrPerIface
  · have hall : own.length < maxAddrPerIface := by
      rw [List.length_take] at hroom
      omega
    have hadd : (Interface.of ips ip.interface.text).add ip =
        ⟨ip.interface.text, own.take maxAddrPerIface ++ [ip],
          by rw [List.length_append]; exact hroom⟩ := dif_pos hroom
    rw [hadd]
    simp only [Interface.of, hfilter, mk.injEq, true_and]
    rw [List.take_of_length_le (Nat.le_of_lt hall), List.take_of_length_le]
    rw [List.length_append]
    exact hall
  · have hadd : (Interface.of ips ip.interface.text).add ip =
        Interface.of ips ip.interface.text := dif_neg hroom
    have hfull : maxAddrPerIface ≤ own.length := by
      rw [List.length_take] at hroom
      omega
    rw [hadd]
    simp only [Interface.of, hfilter, mk.injEq, true_and]
    exact List.take_append_of_le_length hfull

end Interface

/-- An address goes to the interface with its name. -/
theorem addIpToInterface_map {names : List (List UInt8)} (hnodup : names.Nodup)
    (ips : List IpAddr) (ip : IpAddr)
    (hmem : ip.interface.text ∉ names → ips.filter (·.interface.text = ip.interface.text) = []) :
    addIpToInterface (names.map (Interface.of ips)) ip =
      (if ip.interface.text ∈ names then names else names ++ [ip.interface.text]).map
        (Interface.of (ips ++ [ip])) := by
  induction names with
  | nil =>
    have hnone := hmem (by simp)
    have hnew : Interface.of ips ip.interface.text = .new ip.interface.text := by
      simp only [Interface.of, hnone, Interface.new, List.take_nil]
    rw [if_neg (by simp), List.nil_append, List.map_singleton, Interface.of_concat_self, hnew]
    rfl
  | cons name names ih =>
    obtain ⟨hname, hnodup⟩ := List.nodup_cons.mp hnodup
    rw [List.map_cons, addIpToInterface]
    by_cases hsame : name = ip.interface.text
    · subst hsame
      have hrest : ∀ n ∈ names, Interface.of (ips ++ [ip]) n = Interface.of ips n := fun n hn =>
        Interface.of_concat_of_ne (ne_of_mem_of_not_mem hn hname).symm
      rw [if_pos (by rfl), if_pos List.mem_cons_self, List.map_cons, Interface.of_concat_self,
        List.map_congr_left hrest]
    · have hother : (Interface.of ips name).name ≠ ip.interface.text := hsame
      have hhead : Interface.of (ips ++ [ip]) name = Interface.of ips name :=
        Interface.of_concat_of_ne (Ne.symm hsame)
      rw [if_neg hother, ih hnodup fun hnot => hmem (by simp [hnot, Ne.symm hsame])]
      by_cases hin : ip.interface.text ∈ names
      · rw [if_pos hin, if_pos (List.mem_cons_of_mem _ hin), List.map_cons, hhead]
      · rw [if_neg hin, if_neg (by simp [hin, Ne.symm hsame]), List.cons_append, List.map_cons,
          hhead]

/-- There is one interface for each name, with the first 32 addresses under this name. -/
theorem interfaces_eq (book : AddrBook) (filter : Bool) :
    book.interfaces filter =
      (ifaceNames (book.listed filter)).map (Interface.of (book.listed filter)) := by
  unfold AddrBook.interfaces
  generalize book.listed filter = ips
  induction ips using List.reverseRecOn with
  | nil => rfl
  | append_singleton ips ip ih =>
    rw [List.foldl_append, ih, List.foldl_cons, List.foldl_nil, ifaceNames_concat]
    refine addIpToInterface_map (nodup_ifaceNames ips) ips ip fun hnot => ?_
    refine List.filter_eq_nil_iff.mpr fun other hother => ?_
    intro hsame
    exact hnot ((mem_ifaceNames ips _).mpr ⟨other, hother, by simpa using hsame⟩)

end Faceplate.Misc
