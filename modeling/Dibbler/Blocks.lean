import Dibbler.Normalise

/-! The reader on the blocks of a snapshot. Each loop reads one line a turn; a line of a block
changes the object being built as one step lemma says, and a block lemma strings the steps
together by induction over the block's list. Every loop keeps the stream shorter than its
fuel, which each line it reads lowers by one. -/

namespace Dibbler

theorem fits_of_body (body : List Char) (hlen : byteLength body < 254) (hn : '\n' ∉ body)
    (hz : '\x00' ∉ body) : Fits (body ++ ['\n']) :=
  ⟨by simp [utf8Size_newline]; omega, body, rfl, hn, hz⟩

theorem length_pos_of_fits {line : List Char} (h : Fits line) : 0 < line.length := by
  obtain ⟨-, body, rfl, -⟩ := h
  simp

theorem fuel_step {line rest : List Char} {fuel : Nat} (hfit : Fits line)
    (h : (line ++ rest).length < fuel) : ∃ f, fuel = f + 1 ∧ rest.length < f := by
  have := length_pos_of_fits hfit
  rw [List.length_append] at h
  exact ⟨fuel - 1, by omega, by omega⟩

theorem fits_closeLine (kind : AssignmentKind) : Fits kind.closeLine := by
  cases kind
  · exact fits_of_body "    </AddrIA>".toList (by decide) (by decide) (by decide)
  · exact fits_of_body "    </AddrTA>".toList (by decide) (by decide) (by decide)
  · exact fits_of_body "    </AddrPD>".toList (by decide) (by decide) (by decide)

section AssignmentBlock

variable {env : LoadEnv} {n : AssignmentNumbers} {name : List Char} {fuel : Nat}
  {rest : List Char} {cur : AddrIA}

theorem parseAddrIA_duidLine {d : Duid} {ia : Option AddrIA}
    (hfit : Fits (element 6 "duid" d.plain)) :
    parseAddrIA env n name (fuel + 1) ia ⟨element 6 "duid" d.plain ++ rest, false⟩ =
      parseAddrIA env n name fuel (some (newAssignment env n name d)) ⟨rest, false⟩ := by
  rw [parseAddrIA]
  simp only [Bool.false_eq_true, if_false, fgets_fits hfit, duidLine_tests.1, if_true,
    readDuid_element fun h => absurd (inline_duid_plain _ h) (by decide), ok_bind,
    Duid.ofText_plain]

theorem parseAddrIA_dnsLine {a : IPv6Addr} (hfit : Fits (element 6 "fqdnDnsServer" a.plain)) :
    parseAddrIA env n name (fuel + 1) (some cur) ⟨element 6 "fqdnDnsServer" a.plain ++ rest, false⟩ =
      parseAddrIA env n name fuel (some { cur with fqdnDnsServer := some a }) ⟨rest, false⟩ := by
  rw [parseAddrIA]
  simp only [fgets_fits hfit, dnsLine_tests.1, dnsLine_tests.2, Bool.false_eq_true, if_false,
    if_true, readFqdnDnsServer_element fun h => absurd (inline_plain _ h) (by decide), ok_bind,
    LoadEnv.addrOfText_plain, Option.map_some']

theorem parseAddrIA_fqdnLine {f : Fqdn} (hn : Inline f.name) (hfit : Fits f.line) :
    parseAddrIA env n name (fuel + 1) (some cur) ⟨f.line ++ rest, false⟩ =
      parseAddrIA env n name fuel (some { cur with fqdn := some f }) ⟨rest, false⟩ := by
  obtain ⟨h₁, h₂, h₃⟩ := fqdnLine_tests hn
  rw [parseAddrIA]
  simp only [fgets_fits hfit, h₁, h₂, h₃, Bool.false_eq_true, if_false, if_true,
    readFqdn_line hn, ok_bind, Option.map_some']

theorem parseAddrIA_closeLine {ia : Option AddrIA} :
    parseAddrIA env n name (fuel + 1) ia ⟨AssignmentKind.ia.closeLine ++ rest, false⟩ =
      .ok (ia, ⟨rest, false⟩) := by
  have h₁ : contains AssignmentKind.ia.closeLine "<duid" = false := by decide
  have h₂ : contains AssignmentKind.ia.closeLine "<fqdnDnsServer>" = false := by decide
  have h₃ : contains AssignmentKind.ia.closeLine "<fqdn " = false := by decide
  have h₄ : contains AssignmentKind.ia.closeLine "<AddrAddr" = false := by decide
  have h₅ : contains AssignmentKind.ia.closeLine "</AddrIA>" = true := by decide
  rw [parseAddrIA]
  simp only [fgets_fits (fits_closeLine _), h₁, h₂, h₃, Bool.false_eq_true, if_false, readAddrLine,
    h₄, pure_bind, h₅, if_true]
  rfl

theorem parseAddrIA_leaseLine {a : AddrAddr} (hfit : Fits (a.line .ia))
    (hts : a.timestamp.toNat < 2 ^ 32) (hpref : a.pref.toNat < 2 ^ 32)
    (hvalid : a.valid.toNat < 2 ^ 32) :
    parseAddrIA env n name (fuel + 1) (some cur) ⟨a.line .ia ++ rest, false⟩ =
      parseAddrIA env n name fuel
        (some { cur with leases := cur.leases ++ [a].filter (·.reloads env.verifyAddr) })
        ⟨rest, false⟩ := by
  obtain ⟨h₁, h₂, h₃, h₄, h₅⟩ := leaseLine_tests_ia (a := a)
  have hp := parseAddrAddr_perm env (List.Perm.refl (a.attrs .ia)) hts hpref hvalid
  rw [← AddrAddr.line] at hp
  rw [parseAddrIA]
  simp only [Bool.false_eq_true, if_false, fgets_fits hfit, h₁, h₂, h₃, readAddrLine, h₄, if_true,
    hp, ok_bind]
  by_cases hz : a.timestamp ≠ 0 ∧ a.pref ≠ 0 ∧ a.valid ≠ 0
  · simp only [if_pos hz]
    by_cases hv : env.verifyAddr a.addr = true
    · simp only [if_pos hv, pure_bind, h₅, Bool.false_eq_true, if_false]
      simp [AddrAddr.reloads, hv, hz, AddrIA.addLease]
    · simp only [hv, Bool.false_eq_true, if_false, pure_bind, h₅]
      simp [AddrAddr.reloads, hv]
  · simp only [if_neg hz, pure_bind, h₅, Bool.false_eq_true, if_false]
    simp only [not_and_or, ne_eq, not_not] at hz
    rcases hz with hz | hz | hz <;> simp [AddrAddr.reloads, hz]

theorem parseAddrIA_leases (leases : List AddrAddr) (hfit : ∀ a ∈ leases, Fits (a.line .ia))
    (hb : ∀ a ∈ leases, a.timestamp.toNat < 2 ^ 32 ∧ a.pref.toNat < 2 ^ 32 ∧
      a.valid.toNat < 2 ^ 32)
    (hfuel : ((leases.map (AddrAddr.line .ia)).flatten ++
      (AssignmentKind.ia.closeLine ++ rest)).length < fuel) :
    parseAddrIA env n name fuel (some cur) ⟨(leases.map (AddrAddr.line .ia)).flatten ++
        (AssignmentKind.ia.closeLine ++ rest), false⟩ =
      .ok (some { cur with leases := cur.leases ++ leases.filter (·.reloads env.verifyAddr) },
        ⟨rest, false⟩) := by
  induction leases generalizing cur fuel with
  | nil =>
    obtain ⟨f, rfl, -⟩ := fuel_step (fits_closeLine .ia) hfuel
    simpa using parseAddrIA_closeLine
  | cons a leases ih =>
    simp only [List.mem_cons, forall_eq_or_imp] at hfit hb
    simp only [List.map_cons, List.flatten_cons, List.append_assoc] at hfuel ⊢
    obtain ⟨f, rfl, hf⟩ := fuel_step hfit.1 hfuel
    rw [parseAddrIA_leaseLine hfit.1 hb.1.1 hb.1.2.1 hb.1.2.2, ih hfit.2 hb.2 hf]
    simp only [List.filter_cons, List.filter_nil, List.append_assoc]
    split <;> rfl

theorem parseAddrIA_dnsLines (env : LoadEnv) (n : AssignmentNumbers) (name : List Char)
    (cur : AddrIA) {o : Option IPv6Addr}
    (hshort : ∀ a ∈ o, byteLength (element 6 "fqdnDnsServer" a.plain) ≤ 254)
    (hfuel : ((o.map fun a => element 6 "fqdnDnsServer" a.plain).toList.flatten ++ rest).length <
      fuel) :
    ∃ f, rest.length < f ∧ parseAddrIA env n name fuel (some cur)
        ⟨(o.map fun a => element 6 "fqdnDnsServer" a.plain).toList.flatten ++ rest, false⟩ =
      parseAddrIA env n name f (some { cur with fqdnDnsServer := o.or cur.fqdnDnsServer })
        ⟨rest, false⟩ := by
  cases o with
  | none => exact ⟨fuel, by simpa using hfuel, by simp⟩
  | some a =>
    have hfit : Fits (element 6 "fqdnDnsServer" a.plain) :=
      fits_element inline_plain (by decide) (by decide) (hshort a rfl)
    simp only [Option.map_some', Option.toList_some, List.flatten_cons, List.flatten_nil,
      List.append_nil] at hfuel ⊢
    obtain ⟨f, rfl, hf⟩ := fuel_step hfit hfuel
    exact ⟨f, hf, parseAddrIA_dnsLine hfit⟩

theorem parseAddrIA_fqdnLines (env : LoadEnv) (n : AssignmentNumbers) (name : List Char)
    (cur : AddrIA) {o : Option Fqdn} (hn : ∀ f ∈ o, Inline f.name)
    (hshort : ∀ f ∈ o, byteLength f.line ≤ 254)
    (hfuel : ((o.map Fqdn.line).toList.flatten ++ rest).length < fuel) :
    ∃ f, rest.length < f ∧ parseAddrIA env n name fuel (some cur)
        ⟨(o.map Fqdn.line).toList.flatten ++ rest, false⟩ =
      parseAddrIA env n name f (some { cur with fqdn := o.or cur.fqdn }) ⟨rest, false⟩ := by
  cases o with
  | none => exact ⟨fuel, by simpa using hfuel, by simp⟩
  | some q =>
    have hfit : Fits q.line := fits_fqdnLine (hn q rfl) (hshort q rfl)
    simp only [Option.map_some', Option.toList_some, List.flatten_cons, List.flatten_nil,
      List.append_nil] at hfuel ⊢
    obtain ⟨f, rfl, hf⟩ := fuel_step hfit hfuel
    exact ⟨f, hf, parseAddrIA_fqdnLine (hn q rfl) hfit⟩

/-- The lines of an IA's block after its opening line. -/
theorem AddrIA.tail_lines_ia (ia : AddrIA) (rest : List Char) :
    (ia.lines .ia).tail.flatten ++ rest = element 6 "duid" ia.duid.plain ++
      ((ia.fqdnDnsServer.map fun a => element 6 "fqdnDnsServer" a.plain).toList.flatten ++
      ((ia.fqdn.map Fqdn.line).toList.flatten ++ ((ia.leases.map (AddrAddr.line .ia)).flatten ++
      (AssignmentKind.ia.closeLine ++ rest)))) := by
  simp [AddrIA.lines, AddrIA.fqdnLines]

/-- An IA's block after its opening line: the reader builds the IA from the numbers and name
of the opening line, with the DUID, the FQDN data and the surviving leases written. -/
theorem parseAddrIA_block {ia : AddrIA} (hd : ia.Dumpable env .ia)
    (hshort : ∀ line ∈ ia.lines .ia, byteLength line ≤ 254)
    (hfuel : ((ia.lines .ia).tail.flatten ++ rest).length < fuel) :
    parseAddrIA env n name fuel none ⟨(ia.lines .ia).tail.flatten ++ rest, false⟩ =
      .ok (some { newAssignment env n name ia.duid with
        fqdnDnsServer := ia.fqdnDnsServer, fqdn := ia.fqdn,
        leases := ia.leases.filter (·.reloads env.verifyAddr) }, ⟨rest, false⟩) := by
  have hmem : ∀ line, line = element 6 "duid" ia.duid.plain ∨
      (∃ a ∈ ia.fqdnDnsServer, line = element 6 "fqdnDnsServer" a.plain) ∨
      (∃ f ∈ ia.fqdn, line = f.line) ∨ (∃ a ∈ ia.leases, line = a.line .ia) →
      byteLength line ≤ 254 := by
    rintro line (rfl | ⟨a, ha, rfl⟩ | ⟨f, hf, rfl⟩ | ⟨a, ha, rfl⟩) <;> apply hshort
    · simp [AddrIA.lines]
    · simp [AddrIA.lines, AddrIA.fqdnLines, Option.mem_def.mp ha]
    · simp [AddrIA.lines, AddrIA.fqdnLines, Option.mem_def.mp hf]
    · exact List.mem_cons_of_mem _ (List.mem_cons_of_mem _ (List.mem_append_left _
        (List.mem_append_right _ (List.mem_map_of_mem _ ha))))
  rw [AddrIA.tail_lines_ia] at hfuel ⊢
  have hduid : Fits (element 6 "duid" ia.duid.plain) :=
    fits_element inline_duid_plain (by decide) (by decide) (hmem _ (.inl rfl))
  obtain ⟨f₁, rfl, hf₁⟩ := fuel_step hduid hfuel
  rw [parseAddrIA_duidLine hduid]
  obtain ⟨f₂, hf₂, h₂⟩ := parseAddrIA_dnsLines env n name _
    (fun a ha => hmem _ (.inr (.inl ⟨a, ha, rfl⟩))) hf₁
  rw [h₂]
  obtain ⟨f₃, hf₃, h₃⟩ := parseAddrIA_fqdnLines env n name _ hd.fqdn
    (fun f hf => hmem _ (.inr (.inr (.inl ⟨f, hf, rfl⟩)))) hf₂
  rw [h₃, parseAddrIA_leases ia.leases
    (fun a ha => fits_leaseLine (hmem _ (.inr (.inr (.inr ⟨a, ha, rfl⟩)))))
    (fun a ha => hd.leases a ha) hf₃]
  simp [newAssignment, AddrIA.create]

theorem parseAddrPD_duidLine {d : Duid} {pd : Option AddrIA}
    (hfit : Fits (element 6 "duid" d.plain)) :
    parseAddrPD env n name (fuel + 1) pd ⟨element 6 "duid" d.plain ++ rest, false⟩ =
      parseAddrPD env n name fuel
        (some { newAssignment env n name d with state := .confirmMe }) ⟨rest, false⟩ := by
  rw [parseAddrPD]
  simp only [Bool.false_eq_true, if_false, fgets_fits hfit, duidLine_tests.2, if_true,
    readDuid_element fun h => absurd (inline_duid_plain _ h) (by decide), ok_bind,
    Duid.ofText_plain]

theorem parseAddrPD_leaseLine {a : AddrAddr} (hfit : Fits (a.line .pd))
    (hts : a.timestamp.toNat < 2 ^ 31) (hpref : a.pref.toNat < 2 ^ 31)
    (hvalid : a.valid.toNat < 2 ^ 31) :
    parseAddrPD env n name (fuel + 1) (some cur) ⟨a.line .pd ++ rest, false⟩ =
      parseAddrPD env n name fuel
        (some { cur with leases := cur.leases ++ [a].filter (·.reloads env.verifyPrefix) })
        ⟨rest, false⟩ := by
  obtain ⟨h₁, h₂, h₃⟩ := leaseLine_tests_pd (a := a)
  have hp := parseAddrPrefix_perm env (List.Perm.refl (a.attrs .pd)) hts hpref hvalid
  rw [← AddrAddr.line] at hp
  rw [parseAddrPD]
  simp only [Bool.false_eq_true, if_false, fgets_fits hfit, h₁, readPrefixLine, h₂, if_true, hp,
    ok_bind]
  by_cases hz : a.timestamp ≠ 0 ∧ a.pref ≠ 0 ∧ a.valid ≠ 0
  · simp only [if_pos hz]
    by_cases hv : env.verifyPrefix a.addr = true
    · simp only [if_pos hv, pure_bind, h₃, Bool.false_eq_true, if_false]
      simp [AddrAddr.reloads, hv, hz, AddrIA.addLease]
    · simp only [hv, Bool.false_eq_true, if_false, pure_bind, h₃]
      simp [AddrAddr.reloads, hv]
  · simp only [if_neg hz, pure_bind, h₃, Bool.false_eq_true, if_false]
    simp only [not_and_or, ne_eq, not_not] at hz
    rcases hz with hz | hz | hz <;> simp [AddrAddr.reloads, hz]

theorem parseAddrPD_closeLine {pd : Option AddrIA} :
    parseAddrPD env n name (fuel + 1) pd ⟨AssignmentKind.pd.closeLine ++ rest, false⟩ =
      .ok (pd, ⟨rest, false⟩) := by
  have h₁ : contains AssignmentKind.pd.closeLine "duid" = false := by decide
  have h₂ : contains AssignmentKind.pd.closeLine "<AddrPrefix" = false := by decide
  have h₃ : contains AssignmentKind.pd.closeLine "</AddrPD>" = true := by decide
  rw [parseAddrPD]
  simp only [Bool.false_eq_true, if_false, fgets_fits (fits_closeLine _), h₁, readPrefixLine, h₂,
    pure_bind, h₃, if_true]
  rfl

theorem parseAddrPD_leases (leases : List AddrAddr) (hfit : ∀ a ∈ leases, Fits (a.line .pd))
    (hb : ∀ a ∈ leases, a.timestamp.toNat < 2 ^ 31 ∧ a.pref.toNat < 2 ^ 31 ∧
      a.valid.toNat < 2 ^ 31)
    (hfuel : ((leases.map (AddrAddr.line .pd)).flatten ++
      (AssignmentKind.pd.closeLine ++ rest)).length < fuel) :
    parseAddrPD env n name fuel (some cur) ⟨(leases.map (AddrAddr.line .pd)).flatten ++
        (AssignmentKind.pd.closeLine ++ rest), false⟩ =
      .ok (some { cur with leases := cur.leases ++ leases.filter (·.reloads env.verifyPrefix) },
        ⟨rest, false⟩) := by
  induction leases generalizing cur fuel with
  | nil =>
    obtain ⟨f, rfl, -⟩ := fuel_step (fits_closeLine .pd) hfuel
    simpa using parseAddrPD_closeLine
  | cons a leases ih =>
    simp only [List.mem_cons, forall_eq_or_imp] at hfit hb
    simp only [List.map_cons, List.flatten_cons, List.append_assoc] at hfuel ⊢
    obtain ⟨f, rfl, hf⟩ := fuel_step hfit.1 hfuel
    rw [parseAddrPD_leaseLine hfit.1 hb.1.1 hb.1.2.1 hb.1.2.2, ih hfit.2 hb.2 hf]
    simp only [List.filter_cons, List.filter_nil, List.append_assoc]
    split <;> rfl

/-- A PD's block after its opening line: the reader builds the PD, in state `confirm-me`, from
the numbers and name of the opening line, with the DUID and the surviving prefixes. -/
theorem parseAddrPD_block {pd : AddrIA} (hd : pd.Dumpable env .pd)
    (hshort : ∀ line ∈ pd.lines .pd, byteLength line ≤ 254)
    (hfuel : ((pd.lines .pd).tail.flatten ++ rest).length < fuel) :
    parseAddrPD env n name fuel none ⟨(pd.lines .pd).tail.flatten ++ rest, false⟩ =
      .ok (some { newAssignment env n name pd.duid with
        state := .confirmMe, leases := pd.leases.filter (·.reloads env.verifyPrefix) },
        ⟨rest, false⟩) := by
  have htail : (pd.lines .pd).tail.flatten ++ rest = element 6 "duid" pd.duid.plain ++
      ((pd.leases.map (AddrAddr.line .pd)).flatten ++ (AssignmentKind.pd.closeLine ++ rest)) := by
    simp [AddrIA.lines]
  rw [htail] at hfuel ⊢
  have hduid : Fits (element 6 "duid" pd.duid.plain) :=
    fits_element inline_duid_plain (by decide) (by decide) (hshort _ (by simp [AddrIA.lines]))
  obtain ⟨f, rfl, hf⟩ := fuel_step hduid hfuel
  rw [parseAddrPD_duidLine hduid, parseAddrPD_leases pd.leases
    (fun a ha => fits_leaseLine (hshort _ (List.mem_cons_of_mem _ (List.mem_cons_of_mem _
      (List.mem_append_left _ (List.mem_append_right _ (List.mem_map_of_mem _ ha)))))))
    (fun a ha => hd.leases a ha) hf]
  rfl

end AssignmentBlock

section ClientLines

/-! What one pass of `parseAddrClient`'s loop body does on each kind of line, from what the
line's searches and readers return. -/

variable {env : LoadEnv} {fuel : Nat} {st : ClientScan} {buf : List Char} {s : Stream}

theorem clientLine_of_duid {d : Duid} (h : contains buf "<duid" = true)
    (hd : readDuid buf = .ok d) :
    clientLine env fuel st buf s = .ok (true, { st with clnt := some (.create d) }, s) := by
  simp only [clientLine, h, if_true, hd, ok_bind]
  rfl

theorem clientPDLine_of_none (h : contains buf "<AddrPD " = false) :
    clientPDLine env fuel st buf s = .ok (!contains buf "</AddrClient>", st, s) := by
  simp only [clientPDLine, h, Bool.false_eq_true, if_false, pure_bind]
  rfl

theorem clientLine_of_plain (h₁ : contains buf "<duid" = false)
    (h₂ : contains buf "<ReconfigureKey" = false) (h₃ : contains buf "<AddrIA " = false)
    (h₄ : contains buf "<AddrTA " = false) :
    clientLine env fuel st buf s = clientPDLine env fuel st buf s := by
  simp only [clientLine, h₁, h₂, h₃, h₄, Bool.false_eq_true, if_false, pure_bind]

theorem clientLine_of_key {buf' : List Char} {key : List UInt8}
    (h₁ : contains buf "<duid" = false) (h₂ : contains buf "<ReconfigureKey" = true)
    (hk : readReconfigureKey buf = .ok (buf', key)) (h₃ : contains buf' "<AddrIA " = false)
    (h₄ : contains buf' "<AddrTA " = false) :
    clientLine env fuel st buf s = clientPDLine env fuel { st with reconfKey := key } buf' s := by
  simp only [clientLine, h₁, h₂, hk, h₃, h₄, Bool.false_eq_true, if_false, if_true, ok_bind,
    pure_bind]

theorem clientLine_of_ia (st : ClientScan) {n : AssignmentNumbers} {name : List Char}
    {u : Option IPv6Addr} {ia : AddrIA} {s' : Stream} (h₁ : contains buf "<duid" = false)
    (h₂ : contains buf "<ReconfigureKey" = false) (h₃ : contains buf "<AddrIA " = true)
    (hn : readNumbers buf = .ok n) (hname : readIfacename buf = .ok name)
    (hu : readUnicast env buf st.unicast = .ok u)
    (hia : parseAddrIA env n name fuel none s = .ok (some ia, s')) :
    clientLine env fuel st buf s = .ok (true, { st with unicast := u }.attachIA ia, s') := by
  simp only [clientLine, h₁, h₂, h₃, hn, hname, hu, hia, Bool.false_eq_true, if_false, if_true,
    ok_bind, pure_bind]
  rfl

theorem clientPDLine_of_pd (st : ClientScan) {n : AssignmentNumbers} {buf' name : List Char}
    {u : Option IPv6Addr} {pd : AddrIA} {c : AddrClient} {s' : Stream}
    (h : contains buf "<AddrPD " = true) (hn : readNumbers buf = .ok n)
    (hu : readPDUnicast env buf st.unicast = .ok (buf', u)) (hname : readIfacename buf' = .ok name)
    (hpd : parseAddrPD env n name fuel none s = .ok (some pd, s')) (hc : st.clnt = some c) :
    clientPDLine env fuel st buf s =
      .ok (!contains buf' "</AddrClient>", { st with unicast := u }.attachPD c pd, s') := by
  simp only [clientPDLine, h, hn, hu, hname, hpd, hc, if_true, ok_bind, pure_bind]
  rfl

/-- One pass of the loop on a line `fgets` returns whole. -/
theorem parseAddrClientLoop_line {line rest : List Char} {more : Bool} {st' : ClientScan}
    {s' : Stream} (hfit : Fits line)
    (h : clientLine env fuel st line ⟨rest, false⟩ = .ok (more, st', s')) :
    parseAddrClientLoop env (fuel + 1) st ⟨line ++ rest, false⟩ =
      if more then parseAddrClientLoop env fuel st' s' else .ok (st'.finish, s') := by
  rw [parseAddrClientLoop]
  simp only [Bool.false_eq_true, if_false, fgets_fits hfit, h, ok_bind]
  rfl

end ClientLines

section ClientBlock

variable {env : LoadEnv} {fuel : Nat} {rest : List Char} {c : AddrClient} {key : List UInt8}
  {st : ClientScan}

theorem parseAddrClientLoop_duidLine {d : Duid} (hfit : Fits (element 4 "duid" d.plain)) :
    parseAddrClientLoop env (fuel + 1) st ⟨element 4 "duid" d.plain ++ rest, false⟩ =
      parseAddrClientLoop env fuel { st with clnt := some (.create d) } ⟨rest, false⟩ := by
  rw [parseAddrClientLoop_line hfit (clientLine_of_duid clientDuidLine_test
    (readDuid_element fun h => absurd (inline_duid_plain _ h) (by decide))), Duid.ofText_plain,
    if_pos rfl]

theorem parseAddrClientLoop_keyLine
    (hfit : Fits (element 4 "ReconfigureKey" (hexToText key))) :
    parseAddrClientLoop env (fuel + 1) st
        ⟨element 4 "ReconfigureKey" (hexToText key) ++ rest, false⟩ =
      parseAddrClientLoop env fuel { st with reconfKey := key } ⟨rest, false⟩ := by
  obtain ⟨h₁, h₂, h₃, h₄, h₅, h₆⟩ := @keyLine_tests key
  have hk : readReconfigureKey (element 4 "ReconfigureKey" (hexToText key)) =
      .ok (openTag 4 "ReconfigureKey" ++ hexToText key, key) := by
    rw [readReconfigureKey_element fun h => absurd (inline_hexToText _ h) (by decide),
      textToHex_hexToText]
  rw [parseAddrClientLoop_line hfit ((clientLine_of_key h₁ h₂ hk h₃ h₄).trans
    (clientPDLine_of_none h₅)), h₆]
  rfl

theorem readUnicast_attrs {ia : AddrIA} {kind : AssignmentKind} {old : Option IPv6Addr}
    (hname : findSub "unicast".toList ia.ifacename = none) :
    readUnicast env (kind.openLine ia.attrs) old = .ok (ia.unicast.or old) := by
  cases hu : ia.unicast with
  | none => exact readUnicast_of_none (findSub_unicast_eq_none (List.Perm.refl _) hu hname)
  | some u => exact readUnicast_perm (List.Perm.refl _) hu hname

/-- The IA the reader builds from a dumpable IA's block is the IA normalised, but for the unicast,
which the client sets after adding it. -/
theorem AddrIA.loaded_eq {ia : AddrIA} (hd : ia.Dumpable env .ia) :
    { newAssignment env ⟨BitVec.ofNat 32 ia.t1.toNat, BitVec.ofNat 32 ia.t2.toNat,
        BitVec.ofNat 32 ia.iaid.toNat, ia.ifindex⟩ ia.ifacename ia.duid with
      fqdnDnsServer := ia.fqdnDnsServer, fqdn := ia.fqdn,
      leases := ia.leases.filter (·.reloads env.verifyAddr) } =
      { ia.normalise env .ia with unicast := none } := by
  simp [newAssignment, AddrIA.create, AddrIA.normalise, LoadEnv.verify, intToULong_ofNat hd.t1,
    intToULong_ofNat hd.t2, intToULong_ofNat hd.iaid]

/-- Adding the IA the reader built: the client keeps it, with the unicast read off its opening
line, when it has a lease; otherwise the unicast, which only an IA with a surviving lease has,
is none. -/
theorem ClientScan.attachIA_loaded {ia : AddrIA} (hd : ia.Dumpable env .ia) :
    ClientScan.attachIA ⟨some c, ia.unicast, key⟩ { ia.normalise env .ia with unicast := none } =
      ⟨some (if 0 < (ia.normalise env .ia).leases.length then c.addIA (ia.normalise env .ia)
        else c), none, key⟩ := by
  have hleases : (ia.normalise env .ia).leases = ia.leases.filter (·.reloads env.verifyAddr) := rfl
  by_cases h : (ia.normalise env .ia).leases.length = 0
  · have hu : ia.unicast = none := by
      by_contra hu
      have := (hd.unicast hu).2
      rw [← hleases] at this
      omega
    simp [ClientScan.attachIA, h, hu]
  · cases hu : ia.unicast with
    | none =>
      have : { ia.normalise env .ia with unicast := none } = ia.normalise env .ia := by
        simp [AddrIA.normalise, hu]
      simp [ClientScan.attachIA, h, this, Nat.pos_of_ne_zero h]
    | some u =>
      have : { ia.normalise env .ia with unicast := some u } = ia.normalise env .ia := by
        simp [AddrIA.normalise, hu]
      simp [ClientScan.attachIA, h, this, Nat.pos_of_ne_zero h]

/-- An IA's block adds the IA normalised to the client, when it keeps a lease. -/
theorem parseAddrClientLoop_iaBlock {ia : AddrIA} (hd : ia.Dumpable env .ia)
    (hshort : ∀ line ∈ ia.lines .ia, byteLength line ≤ 254)
    (hfuel : ((ia.lines .ia).flatten ++ rest).length < fuel + 1) :
    parseAddrClientLoop env (fuel + 1) ⟨some c, none, key⟩ ⟨(ia.lines .ia).flatten ++ rest, false⟩ =
      parseAddrClientLoop env fuel ⟨some (if 0 < (ia.normalise env .ia).leases.length
        then c.addIA (ia.normalise env .ia) else c), none, key⟩ ⟨rest, false⟩ := by
  have hsplit : (ia.lines .ia).flatten ++ rest =
      AssignmentKind.ia.openLine ia.attrs ++ ((ia.lines .ia).tail.flatten ++ rest) := by
    simp [AddrIA.lines, AddrIA.openLine]
  have hfit : Fits (AssignmentKind.ia.openLine ia.attrs) :=
    fits_openLine hd.name.2.1 (hshort _ (by simp [AddrIA.lines, AddrIA.openLine]))
  rw [hsplit] at hfuel ⊢
  have hf : ((ia.lines .ia).tail.flatten ++ rest).length < fuel := by
    have := length_pos_of_fits hfit
    simp only [List.length_append] at hfuel ⊢
    omega
  obtain ⟨h₁, h₂, h₃⟩ := openLine_tests_ia hd.name.2.1
  have hnum : readNumbers (AssignmentKind.ia.openLine ia.attrs) = .ok ⟨BitVec.ofNat 32 ia.t1.toNat,
      BitVec.ofNat 32 ia.t2.toNat, BitVec.ofNat 32 ia.iaid.toNat, ia.ifindex⟩ :=
    readNumbers_attrs (by have := hd.t1; omega) (by have := hd.t2; omega)
      (by have := hd.iaid; omega)
  rw [parseAddrClientLoop_line hfit (clientLine_of_ia _ h₁ h₂ h₃ hnum
    (readIfacename_perm (List.Perm.refl _) hd.name.1) (readUnicast_attrs hd.name.2.2)
    (parseAddrIA_block hd hshort hf)), AddrIA.loaded_eq hd, Option.or_none,
    ClientScan.attachIA_loaded hd, if_pos rfl]

theorem AddrIA.Dumpable.unicast_pd {pd : AddrIA} (hd : pd.Dumpable env .pd) :
    pd.unicast = none := by
  by_contra h
  exact absurd (hd.unicast h).1 (by decide)

/-- The PD the reader builds from a dumpable PD's block is the PD normalised. -/
theorem AddrIA.loaded_pd_eq {pd : AddrIA} (hd : pd.Dumpable env .pd) :
    { newAssignment env ⟨BitVec.ofNat 32 pd.t1.toNat, BitVec.ofNat 32 pd.t2.toNat,
        BitVec.ofNat 32 pd.iaid.toNat, pd.ifindex⟩ pd.ifacename pd.duid with
      state := .confirmMe, leases := pd.leases.filter (·.reloads env.verifyPrefix) } =
      pd.normalise env .pd := by
  simp [newAssignment, AddrIA.create, AddrIA.normalise, LoadEnv.verify, intToULong_ofNat hd.t1,
    intToULong_ofNat hd.t2, intToULong_ofNat hd.iaid, hd.unicast_pd]

/-- Attaching a PD when no unicast is pending: the client keeps it when it holds a prefix. -/
theorem ClientScan.attachPD_of_none {clnt : Option AddrClient} {pd : AddrIA} :
    ClientScan.attachPD ⟨clnt, none, key⟩ c pd =
      ⟨some (if 0 < pd.leases.length then c.addPD pd else c), none, key⟩ := by
  unfold ClientScan.attachPD
  by_cases h : pd.leases.length = 0 <;> simp [h, Nat.pos_iff_ne_zero]

/-- A PD's block adds the PD normalised to the client, when it keeps a prefix. -/
theorem parseAddrClientLoop_pdBlock {pd : AddrIA} (hd : pd.Dumpable env .pd)
    (hshort : ∀ line ∈ pd.lines .pd, byteLength line ≤ 254)
    (hfuel : ((pd.lines .pd).flatten ++ rest).length < fuel + 1) :
    parseAddrClientLoop env (fuel + 1) ⟨some c, none, key⟩ ⟨(pd.lines .pd).flatten ++ rest, false⟩ =
      parseAddrClientLoop env fuel ⟨some (if 0 < (pd.normalise env .pd).leases.length
        then c.addPD (pd.normalise env .pd) else c), none, key⟩ ⟨rest, false⟩ := by
  have hsplit : (pd.lines .pd).flatten ++ rest =
      AssignmentKind.pd.openLine pd.attrs ++ ((pd.lines .pd).tail.flatten ++ rest) := by
    simp [AddrIA.lines, AddrIA.openLine]
  have hfit : Fits (AssignmentKind.pd.openLine pd.attrs) :=
    fits_openLine hd.name.2.1 (hshort _ (by simp [AddrIA.lines, AddrIA.openLine]))
  rw [hsplit] at hfuel ⊢
  have hf : ((pd.lines .pd).tail.flatten ++ rest).length < fuel := by
    have := length_pos_of_fits hfit
    simp only [List.length_append] at hfuel ⊢
    omega
  obtain ⟨h₁, h₂, h₃, h₄, h₅, h₆⟩ := openLine_tests_pd hd.name.2.1
  have hnum : readNumbers (AssignmentKind.pd.openLine pd.attrs) = .ok ⟨BitVec.ofNat 32 pd.t1.toNat,
      BitVec.ofNat 32 pd.t2.toNat, BitVec.ofNat 32 pd.iaid.toNat, pd.ifindex⟩ :=
    readNumbers_attrs (by have := hd.t1; omega) (by have := hd.t2; omega)
      (by have := hd.iaid; omega)
  have huni : readPDUnicast env (AssignmentKind.pd.openLine pd.attrs) none =
      .ok (AssignmentKind.pd.openLine pd.attrs, none) :=
    readPDUnicast_of_none (findSub_unicast_eq_none (List.Perm.refl _) hd.unicast_pd hd.name.2.2)
  rw [parseAddrClientLoop_line hfit ((clientLine_of_plain h₁ h₂ h₃ h₄).trans
    (clientPDLine_of_pd ⟨some c, none, key⟩ h₅ hnum huni (readIfacename_perm (List.Perm.refl _) hd.name.1)
      (parseAddrPD_block hd hshort hf) rfl)), h₆, AddrIA.loaded_pd_eq hd]
  exact congrArg (parseAddrClientLoop env fuel · ⟨rest, false⟩) ClientScan.attachPD_of_none

theorem length_lines_pos (ia : AddrIA) (kind : AssignmentKind) :
    0 < ((ia.lines kind).flatten).length := by
  simp [AddrIA.lines, AddrIA.openLine, AssignmentKind.openLine]

/-- The blocks of a client's IAs add the IAs normalised that keep a lease. -/
theorem parseAddrClientLoop_iaBlocks (env : LoadEnv) (c : AddrClient) (key : List UInt8)
    (ias : List AddrIA) (hd : ∀ ia ∈ ias, ia.Dumpable env .ia)
    (hshort : ∀ ia ∈ ias, ∀ line ∈ ia.lines .ia, byteLength line ≤ 254)
    (hfuel : ((ias.flatMap (AddrIA.lines .ia)).flatten ++ rest).length < fuel) :
    ∃ f, rest.length < f ∧
      parseAddrClientLoop env fuel ⟨some c, none, key⟩
          ⟨(ias.flatMap (AddrIA.lines .ia)).flatten ++ rest, false⟩ =
        parseAddrClientLoop env f ⟨some { c with
          ia := c.ia ++ (ias.map (·.normalise env .ia)).filter (0 < ·.leases.length) }, none,
          key⟩ ⟨rest, false⟩ := by
  induction ias generalizing c fuel with
  | nil => exact ⟨fuel, by simpa using hfuel, by simp⟩
  | cons ia ias ih =>
    simp only [List.mem_cons, forall_eq_or_imp] at hd hshort
    simp only [List.flatMap_cons, List.flatten_append, List.append_assoc] at hfuel ⊢
    have hpos := length_lines_pos ia .ia
    simp only [List.length_append] at hfuel
    obtain ⟨f, rfl⟩ : ∃ f, fuel = f + 1 := ⟨fuel - 1, by omega⟩
    rw [parseAddrClientLoop_iaBlock hd.1 hshort.1 (by simp only [List.length_append]; omega)]
    have hf : ((ias.flatMap (AddrIA.lines .ia)).flatten ++ rest).length < f := by
      simp only [List.length_append]; omega
    obtain ⟨g, hg, h⟩ := ih _ hd.2 hshort.2 hf
    refine ⟨g, hg, h.trans
      (congrArg (fun c' => parseAddrClientLoop env g ⟨some c', none, key⟩ ⟨rest, false⟩) ?_)⟩
    by_cases hc : 0 < (ia.normalise env .ia).leases.length <;>
      simp [hc, AddrClient.addIA, List.filter_cons]

/-- The blocks of a client's PDs add the PDs normalised that keep a prefix. -/
theorem parseAddrClientLoop_pdBlocks (env : LoadEnv) (c : AddrClient) (key : List UInt8)
    (pds : List AddrIA) (hd : ∀ pd ∈ pds, pd.Dumpable env .pd)
    (hshort : ∀ pd ∈ pds, ∀ line ∈ pd.lines .pd, byteLength line ≤ 254)
    (hfuel : ((pds.flatMap (AddrIA.lines .pd)).flatten ++ rest).length < fuel) :
    ∃ f, rest.length < f ∧
      parseAddrClientLoop env fuel ⟨some c, none, key⟩
          ⟨(pds.flatMap (AddrIA.lines .pd)).flatten ++ rest, false⟩ =
        parseAddrClientLoop env f ⟨some { c with
          pd := c.pd ++ (pds.map (·.normalise env .pd)).filter (0 < ·.leases.length) }, none,
          key⟩ ⟨rest, false⟩ := by
  induction pds generalizing c fuel with
  | nil => exact ⟨fuel, by simpa using hfuel, by simp⟩
  | cons pd pds ih =>
    simp only [List.mem_cons, forall_eq_or_imp] at hd hshort
    simp only [List.flatMap_cons, List.flatten_append, List.append_assoc] at hfuel ⊢
    have hpos := length_lines_pos pd .pd
    simp only [List.length_append] at hfuel
    obtain ⟨f, rfl⟩ : ∃ f, fuel = f + 1 := ⟨fuel - 1, by omega⟩
    rw [parseAddrClientLoop_pdBlock hd.1 hshort.1 (by simp only [List.length_append]; omega)]
    have hf : ((pds.flatMap (AddrIA.lines .pd)).flatten ++ rest).length < f := by
      simp only [List.length_append]; omega
    obtain ⟨g, hg, h⟩ := ih _ hd.2 hshort.2 hf
    refine ⟨g, hg, h.trans
      (congrArg (fun c' => parseAddrClientLoop env g ⟨some c', none, key⟩ ⟨rest, false⟩) ?_)⟩
    by_cases hc : 0 < (pd.normalise env .pd).leases.length <;>
      simp [hc, AddrClient.addPD, List.filter_cons]

theorem parseAddrClientLoop_closeLine :
    parseAddrClientLoop env (fuel + 1) st ⟨"  </AddrClient>\n".toList ++ rest, false⟩ =
      .ok (st.finish, ⟨rest, false⟩) := by
  have hfit : Fits "  </AddrClient>\n".toList :=
    fits_of_body "  </AddrClient>".toList (by decide) (by decide) (by decide)
  rw [parseAddrClientLoop_line hfit ((clientLine_of_plain (by decide) (by decide) (by decide) (by decide)).trans
    (clientPDLine_of_none (by decide))),
    show contains "  </AddrClient>\n".toList "</AddrClient>" = true by decide]
  rfl

/-- The lines of a client's block after its `<AddrClient>` line. -/
theorem AddrClient.tail_lines (c : AddrClient) (hta : c.ta = []) (rest : List Char) :
    c.lines.tail.flatten ++ rest = element 4 "duid" c.duid.plain ++
      ((if c.reconfKey = [] then [] else element 4 "ReconfigureKey" (hexToText c.reconfKey)) ++
      ((c.ia.flatMap (AddrIA.lines .ia)).flatten ++ ((c.pd.flatMap (AddrIA.lines .pd)).flatten ++
      ("  </AddrClient>\n".toList ++ rest)))) := by
  by_cases hk : c.reconfKey = [] <;> simp [AddrClient.lines, hta, hk]

/-- A client's block after its `<AddrClient>` line: the reader rebuilds the client
normalised. -/
theorem parseAddrClient_block {c : AddrClient} (hta : c.ta = [])
    (hia : ∀ ia ∈ c.ia, ia.Dumpable env .ia) (hpd : ∀ pd ∈ c.pd, pd.Dumpable env .pd)
    (hshort : ∀ line ∈ c.lines, byteLength line ≤ 254)
    (hfuel : (c.lines.tail.flatten ++ rest).length < fuel) :
    parseAddrClient env fuel ⟨c.lines.tail.flatten ++ rest, false⟩ =
      .ok (some (c.normalise env), ⟨rest, false⟩) := by
  rw [AddrClient.tail_lines c hta] at hfuel ⊢
  have hduid : Fits (element 4 "duid" c.duid.plain) :=
    fits_element inline_duid_plain (by decide) (by decide) (hshort _ (by simp [AddrClient.lines]))
  obtain ⟨f₁, rfl, hf₁⟩ := fuel_step hduid hfuel
  rw [parseAddrClient, parseAddrClientLoop_duidLine hduid]
  -- the key line, when there is a key
  generalize hbody : (c.ia.flatMap (AddrIA.lines .ia)).flatten ++
    ((c.pd.flatMap (AddrIA.lines .pd)).flatten ++ ("  </AddrClient>\n".toList ++ rest)) = body
    at hf₁ ⊢
  obtain ⟨f₂, hf₂, h₂⟩ : ∃ f, body.length < f ∧
      parseAddrClientLoop env f₁ ⟨some (.create c.duid), none, []⟩
        ⟨(if c.reconfKey = [] then [] else element 4 "ReconfigureKey" (hexToText c.reconfKey)) ++
          body, false⟩ =
      parseAddrClientLoop env f ⟨some (.create c.duid), none, c.reconfKey⟩ ⟨body, false⟩ := by
    by_cases hk : c.reconfKey = []
    · simp only [hk, if_true, List.nil_append] at hf₁ ⊢
      exact ⟨f₁, hf₁, rfl⟩
    · simp only [hk, if_false] at hf₁ ⊢
      have hfit : Fits (element 4 "ReconfigureKey" (hexToText c.reconfKey)) :=
        fits_element inline_hexToText (by decide) (by decide)
          (hshort _ (by simp [AddrClient.lines, hk]))
      obtain ⟨f, rfl, hf⟩ := fuel_step hfit hf₁
      exact ⟨f, hf, parseAddrClientLoop_keyLine hfit⟩
  rw [h₂]
  subst hbody
  have hiaShort : ∀ ia ∈ c.ia, ∀ line ∈ ia.lines .ia, byteLength line ≤ 254 :=
    fun ia hi line hl => hshort line (by
      simp only [AddrClient.lines, List.mem_cons, List.mem_append, List.mem_flatMap]
      exact Or.inr (Or.inr (Or.inl (Or.inl (Or.inl (Or.inr ⟨ia, hi, hl⟩))))))
  have hpdShort : ∀ pd ∈ c.pd, ∀ line ∈ pd.lines .pd, byteLength line ≤ 254 :=
    fun pd hp line hl => hshort line (by
      simp only [AddrClient.lines, List.mem_cons, List.mem_append, List.mem_flatMap]
      exact Or.inr (Or.inr (Or.inl (Or.inr ⟨pd, hp, hl⟩))))
  obtain ⟨f₃, hf₃, h₃⟩ := parseAddrClientLoop_iaBlocks env (.create c.duid) c.reconfKey c.ia hia
    hiaShort hf₂
  rw [h₃]
  obtain ⟨f₄, hf₄, h₄⟩ := parseAddrClientLoop_pdBlocks env _ c.reconfKey c.pd hpd hpdShort hf₃
  obtain ⟨f₅, rfl, -⟩ := fuel_step (fits_of_body "  </AddrClient>".toList (by decide)
    (by decide) (by decide)) hf₄
  rw [h₄, parseAddrClientLoop_closeLine]
  simp [ClientScan.finish, AddrClient.normalise, AddrClient.create, hta]

end ClientBlock

end Dibbler
