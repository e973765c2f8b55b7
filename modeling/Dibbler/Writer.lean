import Dibbler.Text

/-! The snapshot writer. `operator<<(ostream&, TAddrMgr&)` is in `src/AddrMgr/AddrMgr.cpp`;
the printers of clients, assignments and leases are not under `src/` and are modelled from the
spec (§4.2, §6): one element a line, every attribute on its opening line in the order of the
spec's grammar, each number as `ostream <<` prints its field's C type. `x.print(strum)` writes
nothing. `dump()` truncates the file before writing, so the file holds exactly this text.

Two points leave the spec's words, and follow the reader of `src/`, which reads what the
printers write. Every assignment's block carries a `<duid>` line after its opening line, which
the grammar of §6 does not show but `parseAddrIA` and `parseAddrPD` read. A client's blocks are
written IAs, TAs, then PDs, in the order of §4.2, where the grammar of §6 shows the TAs last. -/

namespace Dibbler

def attr (name : String) (value : List Char) : List Char :=
  (' ' :: name.toList ++ ['=', '"']) ++ value ++ ['"']

def attrsText (l : List (String × List Char)) : List Char :=
  l.flatMap fun p => attr p.1 p.2

/-- A line of `indent` spaces and `<tag>body</tag>`. -/
def element (indent : Nat) (tag : String) (body : List Char) : List Char :=
  (List.replicate indent ' ' ++ '<' :: tag.toList ++ ['>']) ++ body ++
    ('<' :: '/' :: tag.toList ++ ['>', '\n'])

/-- Which list of a client an assignment is written from. -/
inductive AssignmentKind where
  | ia
  | ta
  | pd
  deriving DecidableEq, Repr

namespace AssignmentKind

def tag : AssignmentKind → String
  | ia => "AddrIA"
  | ta => "AddrTA"
  | pd => "AddrPD"

def leaseTag : AssignmentKind → String
  | pd => "AddrPrefix"
  | _ => "AddrAddr"

/-- The attribute holding a lease's length: the on-link prefix of an address, the length of a
delegated prefix. -/
def lengthName : AssignmentKind → String
  | pd => "length"
  | _ => "prefix"

end AssignmentKind

def AddrAddr.attrs (kind : AssignmentKind) (a : AddrAddr) : List (String × List Char) :=
  [("timestamp", decimal a.timestamp.toNat), ("pref", decimal a.pref.toNat),
    ("valid", decimal a.valid.toNat), (kind.lengthName, signedDecimal a.length)]

/-- A lease line with the attributes `l` around the address `addr`:
`<AddrAddr timestamp="…" pref="…" valid="…" prefix="…">addr</AddrAddr>`, or the `AddrPrefix`
line with `length`. -/
def AssignmentKind.leaseLine (kind : AssignmentKind) (l : List (String × List Char))
    (addr : IPv6Addr) : List Char :=
  "      <".toList ++ kind.leaseTag.toList ++ attrsText l ++
    '>' :: (addr.plain ++ '<' :: '/' :: kind.leaseTag.toList ++ ['>', '\n'])

def AddrAddr.line (kind : AssignmentKind) (a : AddrAddr) : List Char :=
  kind.leaseLine (a.attrs kind) a.addr

/-- The attributes of an assignment's opening line; `unicast` is written when set. -/
def AddrIA.attrs (ia : AddrIA) : List (String × List Char) :=
  [("T1", decimal ia.t1.toNat), ("T2", decimal ia.t2.toNat), ("IAID", decimal ia.iaid.toNat),
    ("iface", signedDecimal ia.ifindex), ("ifacename", ia.ifacename)] ++
    (ia.unicast.map fun u => ("unicast", u.plain)).toList

def AssignmentKind.openLine (kind : AssignmentKind) (l : List (String × List Char)) :
    List Char :=
  "    <".toList ++ kind.tag.toList ++ attrsText l ++ ['>', '\n']

def AddrIA.openLine (kind : AssignmentKind) (ia : AddrIA) : List Char :=
  kind.openLine ia.attrs

def Fqdn.attrs (f : Fqdn) : List (String × List Char) :=
  [("duid", f.duid.plain), ("used", if f.used then "TRUE".toList else "FALSE".toList)]

def Fqdn.line (f : Fqdn) : List Char :=
  "      <fqdn".toList ++ attrsText f.attrs ++ '>' :: (f.name ++ "</fqdn>\n".toList)

/-- The FQDN lines of an IA: the DNS server, then the name with its owner and flag. -/
def AddrIA.fqdnLines (ia : AddrIA) : List (List Char) :=
  (ia.fqdnDnsServer.map fun a => element 6 "fqdnDnsServer" a.plain).toList ++
    (ia.fqdn.map Fqdn.line).toList

def AssignmentKind.closeLine (kind : AssignmentKind) : List Char :=
  "    </".toList ++ kind.tag.toList ++ ['>', '\n']

/-- The lines of an assignment's block: its opening line, its DUID, in an IA the FQDN lines,
the leases, the closing line. -/
def AddrIA.lines (kind : AssignmentKind) (ia : AddrIA) : List (List Char) :=
  ia.openLine kind :: element 6 "duid" ia.duid.plain ::
    ((if kind = .ia then ia.fqdnLines else []) ++ ia.leases.map (AddrAddr.line kind) ++
      [kind.closeLine])

/-- The lines of a client's block: its DUID, its key when it has one, then its IAs, TAs and
PDs. -/
def AddrClient.lines (c : AddrClient) : List (List Char) :=
  "  <AddrClient>\n".toList :: element 4 "duid" c.duid.plain ::
    ((if c.reconfKey = [] then [] else [element 4 "ReconfigureKey" (hexToText c.reconfKey)]) ++
      (c.ia.flatMap (AddrIA.lines .ia)) ++ (c.ta.flatMap (AddrIA.lines .ta)) ++
      (c.pd.flatMap (AddrIA.lines .pd)) ++ ["  </AddrClient>\n".toList])

/-- The lines `operator<<(ostream&, TAddrMgr&)` writes, `now` being `(uint32_t)time(NULL)`. -/
def AddrMgr.lines (m : AddrMgr) (now : UInt32) : List (List Char) :=
  "<AddrMgr>\n".toList :: element 2 "timestamp" (decimal now.toNat) ::
    element 2 "replayDetection" (decimal m.replayDetectionValue.toNat) ::
    (m.clients.flatMap AddrClient.lines ++ ["</AddrMgr>\n".toList])

/-- `operator<<(ostream&, TAddrMgr&)`: the snapshot text. -/
def AddrMgr.write (m : AddrMgr) (now : UInt32) : List Char :=
  (m.lines now).flatten

end Dibbler
