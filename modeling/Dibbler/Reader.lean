import Dibbler.Text
import Dibbler.Store

/-! The snapshot reader of `src/AddrMgr/AddrMgr.cpp`: `xmlLoadBuiltIn`, `parseAddrClient`,
`parseAddrIA`, `parseAddrPD`, `parseAddrTA`, `parseAddrAddr` and `parseAddrPrefix`, with every
branch, pointer use and string construction of the source, on the C library of
`Dibbler.CString`. Each `while (!feof(f))` loop is a function on fuel; a nested parser gets
the fuel its caller has left, and `xmlLoadBuiltIn` starts from the file's length plus one,
which every loop iteration, consuming a character at least, cannot exhaust.

The virtual hooks `verifyAddr` and `verifyPrefix`, the constant
`CLIENT_DEFAULT_PREFIX_LENGTH` and `time(NULL)` are parameters. Logging, the tentative flags
of leases and assignments, and the unused `xmlFile` and `unicast` parameters are left out.
The constructors and setters of `TAddrIA`, `TAddrClient`, `TAddrAddr` and `TAddrPrefix` are
not under `src/`; they are modelled from the spec as plain record updates. An `int` stored in
an `unsigned long` is sign-extended, a `uint32_t` zero-extended (LP64). -/

namespace Dibbler

/-- What the reader takes from the daemon, and from `TIPv6Addr`, which is not under `src/`:
`unparsed` is the address `new TIPv6Addr(text, true)` holds for a text that is not an IPv6
address. The object is built, and kept, in any case. -/
structure LoadEnv where
  verifyAddr : IPv6Addr → Bool
  verifyPrefix : IPv6Addr → Bool
  defaultPrefixLength : BitVec 32
  now : UInt64
  unparsed : List Char → IPv6Addr

/-- `new TIPv6Addr(text, true)`. -/
def LoadEnv.addrOfText (env : LoadEnv) (text : List Char) : IPv6Addr :=
  (IPv6Addr.ofText text).getD (env.unparsed text)

/-- An `int` stored in an `unsigned long`. -/
def intToULong (v : BitVec 32) : UInt64 :=
  UInt64.ofNat (v.signExtend 64).toNat

/-- A `uint32_t` stored in an `unsigned long`. -/
def u32ToULong (v : BitVec 32) : UInt64 :=
  UInt64.ofNat v.toNat

/-- `TAddrIA::addAddr(addr)` and `TAddrIA::addPrefix(prefix)` for a parsed lease: append.
Modelled from the spec. -/
def AddrIA.addLease (ia : AddrIA) (l : AddrAddr) : AddrIA :=
  { ia with leases := ia.leases ++ [l] }

/-- `TAddrClient::addIA`: append. Modelled from the spec. -/
def AddrClient.addIA (client : AddrClient) (ia : AddrIA) : AddrClient :=
  { client with ia := client.ia ++ [ia] }

/-- The body `parseAddrAddr` and `parseAddrPrefix` share: `prefixKind` says which of the two
it is (the lease is built only when `pd` equals it), `dfltLength` is its initial length and
`widen` how it stores the `atoi` results; `toAddr` is `new TIPv6Addr(text, true)`. Also
returns the buffer, which `*x = 0` may have cut. -/
def parseLease (prefixKind : Bool) (dfltLength : BitVec 32) (widen : BitVec 32 → UInt64)
    (toAddr : List Char → IPv6Addr) (buf : List Char) (pd : Bool) :
    Except Fault (Option AddrAddr × List Char) :=
  if contains buf "<AddrAddr" || contains buf "<AddrPrefix" then do
    let timestamp ← atoiAfter buf "timestamp" 11 0
    let pref ← atoiAfter buf "pref=" 6 0
    let valid ← atoiAfter buf "valid" 7 0
    let length ← atoiAfter buf (if pd then "length=" else "prefix=") 8 dfltLength
    let (buf, addr) ← match findSub ">".toList buf with
      | none => pure (buf, none)
      | some i => do
        let x ← strstr buf (.ofs i) (if pd then "</AddrPrefix>" else "</AddrAddr>")
        let buf ← if x.isNull then pure buf else cut buf x
        let text ← cstring buf ((find buf ">").add 1)
        pure (buf, some (toAddr text))
    let lease := addr.bind fun addr =>
      if timestamp ≠ 0 ∧ pref ≠ 0 ∧ valid ≠ 0 ∧ pd = prefixKind then
        some ⟨addr, widen pref, widen valid, length, widen timestamp⟩
      else none
    pure (lease, buf)
  else pure (none, buf)

/-- `TAddrMgr::parseAddrAddr(xmlFile, buf, pd)`: `uint32_t` lifetimes and timestamp, an `int`
prefix length starting at `CLIENT_DEFAULT_PREFIX_LENGTH`. -/
def parseAddrAddr (env : LoadEnv) (buf : List Char) (pd : Bool) :
    Except Fault (Option AddrAddr × List Char) :=
  parseLease false env.defaultPrefixLength u32ToULong env.addrOfText buf pd

/-- `TAddrMgr::parseAddrPrefix(xmlFile, buf, pd)`: `unsigned long` lifetimes, timestamp and
length, the length starting at 0. -/
def parseAddrPrefix (env : LoadEnv) (buf : List Char) (pd : Bool) :
    Except Fault (Option AddrAddr × List Char) :=
  parseLease true 0 intToULong env.addrOfText buf pd

/-- `x = strstr(buf,">")+1; if (x) x = strstr(x,"</duid>"); if (x) *x = 0;` then
`new TDUID(strstr(buf,">")+1)`. -/
def readDuid (buf : List Char) : Except Fault Duid := do
  let x := (find buf ">").add 1
  let x ← if x.isNull then pure x else strstr buf x "</duid>"
  let buf ← if x.isNull then pure buf else cut buf x
  let text ← cstring buf ((find buf ">").add 1)
  pure (Duid.ofText text)

/-- The `<ReconfigureKey` branch of `parseAddrClient`; also returns the cut buffer. -/
def readReconfigureKey (buf : List Char) : Except Fault (List Char × List UInt8) := do
  let x := (find buf ">").add 1
  let buf ← if x.isNull then pure buf else do
    let e ← strstr buf x "</ReconfigureKey>"
    if e.isNull then pure buf else cut buf e
  let text ← cstring buf x
  pure (buf, textToHex text)

/-- The numbers `parseAddrClient` reads off an `<AddrIA ` or `<AddrPD ` line into its `int`
locals `t1`, `t2`, `iaid` (or `pdid`) and `ifindex`. -/
structure AssignmentNumbers where
  t1 : BitVec 32
  t2 : BitVec 32
  iaid : BitVec 32
  ifindex : BitVec 32
  deriving DecidableEq, Repr

/-- `T1`, `T2`, `IAID` and `iface=`, each `atoi` past its name's `="`. -/
def readNumbers (buf : List Char) : Except Fault AssignmentNumbers := do
  let t1 ← atoiAfter buf "T1" 4 0
  let t2 ← atoiAfter buf "T2" 4 0
  let iaid ← atoiAfter buf "IAID" 6 0
  let ifindex ← atoiAfter buf "iface=" 7 0
  pure ⟨t1, t2, iaid, ifindex⟩

/-- `if ((x=strstr(buf,"ifacename"))) { end = strstr(x + 11, "\""); if (end) ifacename =
string(x + 11, end); }`, the name being empty otherwise. -/
def readIfacename (buf : List Char) : Except Fault (List Char) :=
  match findSub "ifacename".toList buf with
  | none => pure []
  | some i => do
    let e ← strstr buf (.ofs (i + 11)) "\""
    if e.isNull then pure [] else range buf (.ofs (i + 11)) e

/-- The `unicast` attribute of an `<AddrIA ` line: the text between `unicast="` and the next
quote, when there is one and it is not empty; `unicast` keeps its value otherwise. -/
def readUnicast (env : LoadEnv) (buf : List Char) (unicast : Option IPv6Addr) :
    Except Fault (Option IPv6Addr) :=
  match findSub "unicast".toList buf with
  | none => pure unicast
  | some i => do
    let e ← strstr buf (.ofs (i + 9)) "\""
    if e.isNull then pure unicast else do
      let uni ← range buf (.ofs (i + 9)) e
      pure (if uni.length = 0 then unicast else some (env.addrOfText uni))

/-- The `unicast` branch of an `<AddrPD ` line, as the source has it: from two characters past
the line's first `=`, cut the line one character before the next space and parse what
follows that `=`. Also returns the cut buffer, which the `ifacename` search then reads. -/
def readPDUnicast (env : LoadEnv) (buf : List Char) (unicast : Option IPv6Addr) :
    Except Fault (List Char × Option IPv6Addr) :=
  if contains buf "unicast" then do
    let x := (find buf "=").add 2
    let x ← if x.isNull then pure x else do
      let sp ← strstr buf x " "
      pure (sp.add (-1))
    let buf ← if x.isNull then pure buf else cut buf x
    let text ← cstring buf ((find buf "=").add 2)
    pure (buf, some (env.addrOfText text))
  else pure (buf, unicast)

/-- `new TAddrIA(ifacename, ifindex, type, SPtr<TIPv6Addr>(), duid, t1, t2, iaid)` as the
reader calls it, the `int` locals widened. -/
def newAssignment (env : LoadEnv) (n : AssignmentNumbers) (ifacename : List Char)
    (duid : Duid) : AddrIA :=
  AddrIA.create ifacename n.ifindex none duid (intToULong n.t1) (intToULong n.t2)
    (intToULong n.iaid) env.now

/-- The `<fqdnDnsServer>` branch of `parseAddrIA`. -/
def readFqdnDnsServer (env : LoadEnv) (buf : List Char) (ia : Option AddrIA) :
    Except Fault (Option AddrIA) := do
  let beg := (find buf ">").add 1
  if beg.isNull then pure ia else
  let e ← strstr buf beg "</fqdnDnsServer>"
  if e.isNull then pure ia else
  let buf ← cut buf e
  let text ← cstring buf beg
  pure (ia.map fun ia => { ia with fqdnDnsServer := some (env.addrOfText text) })

/-- The `<fqdn ` branch of `parseAddrIA`. -/
def readFqdn (buf : List Char) (ia : Option AddrIA) : Except Fault (Option AddrIA) := do
  let beg := (find buf "duid=\"").add 6
  if beg.isNull then pure ia else
  let e ← strstr buf beg "\""
  let duidTxt ← range buf beg e
  let beg := (find buf "used=\"").add 6
  if beg.isNull then pure ia else
  let e ← strstr buf beg "\""
  let usedTxt ← range buf beg e
  let beg := (find buf ">").add 1
  if beg.isNull then pure ia else
  let e ← strstr buf beg "<"
  if e.isNull then pure ia else
  let buf ← cut buf e
  let name ← range buf beg e
  pure (ia.map fun ia =>
    { ia with fqdn := some ⟨Duid.ofText duidTxt, name, usedTxt = "TRUE".toList⟩ })

/-- The `<AddrAddr` branch of `parseAddrIA`, which does not `continue`: the buffer it returns
is the one the `</AddrIA>` test reads. -/
def readAddrLine (env : LoadEnv) (buf : List Char) (ia : Option AddrIA) :
    Except Fault (Option AddrIA × List Char) :=
  if contains buf "<AddrAddr" then do
    let (addr, buf) ← parseAddrAddr env buf false
    match ia, addr with
    | some ia, some a => pure (some (if env.verifyAddr a.addr then ia.addLease a else ia), buf)
    | _, _ => pure (ia, buf)
  else pure (ia, buf)

/-- The `<AddrPrefix` branch of `parseAddrPD`. -/
def readPrefixLine (env : LoadEnv) (buf : List Char) (pd : Option AddrIA) :
    Except Fault (Option AddrIA × List Char) :=
  if contains buf "<AddrPrefix" then do
    let (pr, buf) ← parseAddrPrefix env buf true
    match pd, pr with
    | some pd, some p =>
      pure (some (if env.verifyPrefix p.addr then pd.addLease p else pd), buf)
    | _, _ => pure (pd, buf)
  else pure (pd, buf)

/-- `TAddrMgr::parseAddrIA(xmlFile, f, t1, t2, iaid, ifacename, ifindex, unicast)`: the IA is
created on a `<duid` line and read up to `</AddrIA>` or the end of the file; null when
`fgets` fails. -/
def parseAddrIA (env : LoadEnv) (n : AssignmentNumbers) (ifacename : List Char) :
    Nat → Option AddrIA → Stream → Except Fault (Option AddrIA × Stream)
  | 0, _, _ => .error .outOfFuel
  | fuel + 1, ia, s =>
    if s.eof then pure (ia, s) else
    match fgets s with
    | (none, s) => pure (none, s)
    | (some buf, s) =>
      if contains buf "<duid" then do
        let duid ← readDuid buf
        parseAddrIA env n ifacename fuel (some (newAssignment env n ifacename duid)) s
      else if contains buf "<fqdnDnsServer>" then do
        let ia ← readFqdnDnsServer env buf ia
        parseAddrIA env n ifacename fuel ia s
      else if contains buf "<fqdn " then do
        let ia ← readFqdn buf ia
        parseAddrIA env n ifacename fuel ia s
      else do
        let (ia, buf) ← readAddrLine env buf ia
        if contains buf "</AddrIA>" then pure (ia, s) else parseAddrIA env n ifacename fuel ia s

/-- `TAddrMgr::parseAddrPD(xmlFile, f, t1, t2, iaid, ifacename, ifindex, unicast)`: the PD is
created, in state `confirm-me`, on any line containing `duid`. -/
def parseAddrPD (env : LoadEnv) (n : AssignmentNumbers) (ifacename : List Char) :
    Nat → Option AddrIA → Stream → Except Fault (Option AddrIA × Stream)
  | 0, _, _ => .error .outOfFuel
  | fuel + 1, pd, s =>
    if s.eof then pure (pd, s) else
    match fgets s with
    | (none, s) => pure (none, s)
    | (some buf, s) =>
      if contains buf "duid" then do
        let duid ← readDuid buf
        parseAddrPD env n ifacename fuel
          (some { newAssignment env n ifacename duid with state := .confirmMe }) s
      else do
        let (pd, buf) ← readPrefixLine env buf pd
        if contains buf "</AddrPD>" then pure (pd, s) else parseAddrPD env n ifacename fuel pd s

/-- `TAddrMgr::parseAddrTA(xmlFile, f)`: skips to `</AddrTA>`; it always returns null. -/
def parseAddrTA : Nat → Stream → Except Fault Stream
  | 0, _ => .error .outOfFuel
  | fuel + 1, s =>
    if s.eof then pure s else
    match fgets s with
    | (none, s) => pure s
    | (some buf, s) => if contains buf "</AddrTA>" then pure s else parseAddrTA fuel s

/-- The locals of `parseAddrClient` that outlive a line. -/
structure ClientScan where
  clnt : Option AddrClient
  unicast : Option IPv6Addr
  reconfKey : List UInt8
  deriving DecidableEq

/-- `if (ia) { if (!clnt) continue; if (ia->countAddr()) clnt->addIA(ia); else continue;
if (unicast) { ia->setUnicast(unicast); unicast.reset(); } continue; }`: the client holds
the IA by pointer, so it sees the unicast set after the IA was added. -/
def ClientScan.attachIA (st : ClientScan) (ia : AddrIA) : ClientScan :=
  match st.clnt with
  | none => st
  | some c =>
    if ia.leases.length = 0 then st else
    match st.unicast with
    | some u => { st with clnt := some (c.addIA { ia with unicast := some u }), unicast := none }
    | none => { st with clnt := some (c.addIA ia) }

/-- `if (unicast) { ptrpd->setUnicast(unicast); unicast.reset(); } if (ptrpd->countPrefix())
clnt->addPD(ptrpd);` for a client that exists. -/
def ClientScan.attachPD (st : ClientScan) (c : AddrClient) (pd : AddrIA) : ClientScan :=
  let (pd, unicast) := match st.unicast with
    | some u => ({ pd with unicast := some u }, none)
    | none => (pd, none)
  { st with clnt := some (if pd.leases.length = 0 then c else c.addPD pd), unicast }

/-- The `<AddrPD ` branch of `parseAddrClient` and the `</AddrClient>` test after it: whether
the loop goes on, the locals and the stream. -/
def clientPDLine (env : LoadEnv) (fuel : Nat) (st : ClientScan) (buf : List Char) (s : Stream) :
    Except Fault (Bool × ClientScan × Stream) := do
  let (next, st, s, buf) ← if contains buf "<AddrPD " then do
      let n ← readNumbers buf
      let (buf, unicast) ← readPDUnicast env buf st.unicast
      let ifacename ← readIfacename buf
      let st := { st with unicast }
      let (pd, s) ← parseAddrPD env n ifacename fuel none s
      pure <| match pd, st.clnt with
        | some _, none => (some true, st, s, buf)
        | some pd, some c => (none, st.attachPD c pd, s, buf)
        | none, _ => (none, st, s, buf)
    else pure (none, st, s, buf)
  match next with
  | some more => pure (more, st, s)
  | none => pure (!contains buf "</AddrClient>", st, s)

/-- One pass of the loop body of `parseAddrClient` over the chunk `buf`. -/
def clientLine (env : LoadEnv) (fuel : Nat) (st : ClientScan) (buf : List Char) (s : Stream) :
    Except Fault (Bool × ClientScan × Stream) :=
  if contains buf "<duid" then do
    let duid ← readDuid buf
    pure (true, { st with clnt := some (.create duid) }, s)
  else do
    let (buf, st) ← if contains buf "<ReconfigureKey" then do
        let (buf, key) ← readReconfigureKey buf
        pure (buf, { st with reconfKey := key })
      else pure (buf, st)
    let (ia, st, s) ← if contains buf "<AddrIA " then do
        let n ← readNumbers buf
        let ifacename ← readIfacename buf
        let unicast ← readUnicast env buf st.unicast
        let (ia, s) ← parseAddrIA env n ifacename fuel none s
        pure (ia, { st with unicast }, s)
      else pure (none, st, s)
    match ia with
    | some ia => pure (true, st.attachIA ia, s)
    | none => do
      let s ← if contains buf "<AddrTA " then parseAddrTA fuel s else pure s
      clientPDLine env fuel st buf s

/-- What `parseAddrClient` returns when its loop ends: the client, given the key read. -/
def ClientScan.finish (st : ClientScan) : Option AddrClient :=
  st.clnt.map fun c => { c with reconfKey := st.reconfKey }

/-- The loop of `TAddrMgr::parseAddrClient(xmlFile, f)`: null when `fgets` fails. -/
def parseAddrClientLoop (env : LoadEnv) : Nat → ClientScan → Stream →
    Except Fault (Option AddrClient × Stream)
  | 0, _, _ => .error .outOfFuel
  | fuel + 1, st, s =>
    if s.eof then pure (st.finish, s) else
    match fgets s with
    | (none, s) => pure (none, s)
    | (some buf, s) => do
      let (more, st, s) ← clientLine env fuel st buf s
      if more then parseAddrClientLoop env fuel st s else pure (st.finish, s)

/-- `TAddrMgr::parseAddrClient(xmlFile, f)`. -/
def parseAddrClient (env : LoadEnv) (fuel : Nat) (s : Stream) :
    Except Fault (Option AddrClient × Stream) :=
  parseAddrClientLoop env fuel ⟨none, none, []⟩ s

/-- A loaded client is kept when it holds an assignment. -/
def AddrClient.count (c : AddrClient) : Nat :=
  c.ia.length + c.ta.length + c.pd.length

/-- The loop of `TAddrMgr::xmlLoadBuiltIn`: `tag` is `AddrMgrTag`, `clnt` the last
`parseAddrClient` result. Returns the function's result and the manager. -/
def loadLoop (env : LoadEnv) : Nat → Bool → Option AddrClient → AddrMgr → Stream →
    Except Fault (Bool × AddrMgr)
  | 0, _, _, _, _ => .error .outOfFuel
  | fuel + 1, tag, clnt, m, s =>
    if s.eof then pure (clnt.isSome, m) else
    match fgets s with
    | (none, _) => pure (false, m)
    | (some buf, s) =>
      if contains buf "<AddrMgr>" then loadLoop env fuel true clnt m s
      else if contains buf "<timestamp>" then loadLoop env fuel tag clnt m s
      else match findSub "<replayDetection>".toList buf with
      | some i =>
        loadLoop env fuel tag clnt
          { m with replayDetectionValue := extractU64 (buf.drop (i + 17)) } s
      | none =>
        if tag && contains buf "<AddrClient" then do
          let (c, s) ← parseAddrClient env fuel s
          match c with
          | some c =>
            loadLoop env fuel tag (some c) (if 0 < c.count then m.addClient c else m) s
          | none =>
            if contains buf "</AddrMgr>" then pure (false, m) else loadLoop env fuel tag none m s
        else if contains buf "</AddrMgr>" then pure (clnt.isSome, m)
        else loadLoop env fuel tag clnt m s

/-- `TAddrMgr::xmlLoadBuiltIn(xmlFile)` on the manager `m`, for a file that opens. -/
def xmlLoadBuiltIn (env : LoadEnv) (m : AddrMgr) (text : List Char) :
    Except Fault (Bool × AddrMgr) :=
  loadLoop env (text.length + 1) false none m (.ofText text)

/-- `TAddrMgr(xmlFile, true)`: a fresh manager, then `dbLoad`, which ignores the result; a
file that does not open (`none`) leaves the manager empty. -/
def AddrMgr.load (env : LoadEnv) (file : Option (List Char)) : Except Fault AddrMgr :=
  match file with
  | none => pure AddrMgr.empty
  | some text => (xmlLoadBuiltIn env AddrMgr.empty text).map Prod.snd

end Dibbler
