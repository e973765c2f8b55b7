import Dibbler.RoundTrip
import Dibbler.Admissible

/-! The line that sets the replay counter. `xmlLoadBuiltIn` sets `ReplayDetectionValue_` on
any chunk it reads that holds `<replayDetection>`, and the writer prints interface and FQDN
names as they are. When no name of a store holds that tag, its dump holds it only on its third
line: every chunk the loader meets after the header is a piece of the rest, so the load
restores the counter the dump wrote. The names the load builds are pieces of that rest too, so
the loaded store has no such name either. -/

namespace Dibbler

def replayTag : List Char := "<replayDetection>".toList

/-- The free text an assignment's block carries: the interface name, and in an IA the FQDN
name. -/
def AddrIA.names (kind : AssignmentKind) (ia : AddrIA) : List (List Char) :=
  ia.ifacename :: if kind = .ia then (ia.fqdn.map Fqdn.name).toList else []

def AddrClient.names (c : AddrClient) : List (List Char) :=
  c.ia.flatMap (AddrIA.names .ia) ++ c.ta.flatMap (AddrIA.names .ta) ++
    c.pd.flatMap (AddrIA.names .pd)

/-- No name a dump of the store carries holds the counter's tag. -/
def AddrMgr.TagFree (m : AddrMgr) : Prop :=
  ∀ c ∈ m.clients, ∀ name ∈ c.names, ¬replayTag <:+: name

instance (m : AddrMgr) : Decidable m.TagFree :=
  inferInstanceAs (Decidable (∀ c ∈ m.clients, ∀ name ∈ c.names, ¬replayTag <:+: name))

theorem findSub_eq_none_iff {n l : List Char} : findSub n l = none ↔ ¬n <:+: l := by
  rw [← findSub_isSome_iff, Option.not_isSome_iff_eq_none]

section Writer

variable {n : List Char}

theorem skips_flatten : ∀ {L : List (List Char)}, (∀ l ∈ L, Skips n l = true) →
    Skips n L.flatten = true
  | [], _ => rfl
  | l :: L, h => skips_append (h l (List.mem_cons_self l L))
      (skips_flatten fun l' hl => h l' (List.mem_cons_of_mem l hl))

theorem skips_tag_of_inline {x : List Char} (h : Inline x) : Skips replayTag x = true :=
  skips_of_forall_ne (n := "replayDetection>".toList) fun c hc e => absurd (h c hc) (by rw [e]; decide)

theorem skips_element {i : Nat} {t : String} {body : List Char} (hb : Inline body)
    (ho : Skips replayTag (openTag i t) = true)
    (hc : Skips replayTag ('<' :: '/' :: t.toList ++ ['>', '\n']) = true) :
    Skips replayTag (element i t body) = true := by
  rw [element_eq_openTag]
  exact skips_append (skips_append ho (skips_tag_of_inline hb)) hc

theorem AddrIA.skips_lines (kind : AssignmentKind) (ia : AddrIA)
    (h : ∀ name ∈ ia.names kind, ¬replayTag <:+: name) :
    ∀ line ∈ ia.lines kind, Skips replayTag line = true := by
  have hname := findSub_eq_none_iff.mpr (h _ (List.mem_cons_self _ _))
  intro line hl
  simp only [AddrIA.lines, List.mem_cons, List.mem_append, List.mem_map, List.not_mem_nil,
    or_false] at hl
  rcases hl with rfl | rfl | ((hf | ⟨a, -, rfl⟩) | rfl)
  · refine skips_append (skips_append (by cases kind <;> decide) (skips_attrsText fun p hp => ?_))
      (by decide)
    refine @AddrIA.skips_attrs ia "<replayDetection>" "" (by decide) ⟨'<', by decide, rfl⟩
      (by decide) (fun _ => hname) p hp ?_
    obtain ⟨hk, -⟩ := AddrIA.key_mem_of_mem_attrs hp
    rintro e
    rw [e] at hk
    exact absurd hk (by decide)
  · exact skips_element inline_duid_plain (by decide) (by decide)
  · split at hf
    · next hk =>
      subst hk
      simp only [AddrIA.fqdnLines, List.mem_append, Option.mem_toList, Option.mem_def,
        Option.map_eq_some'] at hf
      rcases hf with ⟨a, -, rfl⟩ | ⟨f, hf, rfl⟩
      · exact skips_element inline_plain (by decide) (by decide)
      · have hfn := findSub_eq_none_iff.mpr (h f.name (by simp [AddrIA.names, hf]))
        rw [Fqdn.line, show '>' :: (f.name ++ "</fqdn>\n".toList) =
          ['>'] ++ (f.name ++ '<' :: "/fqdn>\n".toList) from rfl]
        exact skips_append (skips_append (by decide) (skips_tag_of_inline inline_fqdnAttrs))
          (skips_append (by decide) (skips_append_cons hfn (by decide) (by decide)))
    · cases hf
  · rw [AddrAddr.line, AssignmentKind.leaseLine, show "      <".toList ++ kind.leaseTag.toList ++
      attrsText (a.attrs kind) ++ '>' :: (a.addr.plain ++ '<' :: '/' :: kind.leaseTag.toList ++
      ['>', '\n']) = ("      <".toList ++ kind.leaseTag.toList) ++
      (attrsText (a.attrs kind) ++ '>' :: a.addr.plain) ++
      ('<' :: '/' :: kind.leaseTag.toList ++ ['>', '\n']) by simp]
    exact skips_append (skips_append (by cases kind <;> decide)
      (skips_tag_of_inline (lease_inline kind))) (by cases kind <;> decide)
  · cases kind <;> decide

/-- A dump holds the tag after its header only in a name. -/
theorem AddrMgr.not_tag_bodyText {m : AddrMgr} (h : m.TagFree) : ¬replayTag <:+: m.bodyText := by
  refine findSub_eq_none_iff.mp (findSub_eq_none_of_skips
    (skips_append (skips_flatten fun line hl => ?_) (by decide)) (by decide))
  obtain ⟨c, hc, hl⟩ := List.mem_flatMap.mp hl
  have hn : ∀ kind (l : List AddrIA) (hsub : ∀ ia ∈ l, ia.names kind ⊆ c.names),
      ∀ line ∈ l.flatMap (AddrIA.lines kind), Skips replayTag line = true := fun kind l hsub line hl => by
    obtain ⟨ia, hia, hl⟩ := List.mem_flatMap.mp hl
    exact AddrIA.skips_lines kind ia (fun name hname => h c hc name (hsub ia hia hname)) line hl
  simp only [AddrClient.lines, List.mem_cons, List.mem_append, List.not_mem_nil, or_false] at hl
  rcases hl with rfl | rfl | (((hk | hl) | hl) | hl) | rfl
  · decide
  · exact skips_element inline_duid_plain (by decide) (by decide)
  · split at hk
    · cases hk
    · rw [List.mem_singleton.mp hk]
      exact skips_element inline_hexToText (by decide) (by decide)
  · exact hn .ia c.ia (fun ia hia name hname => by
      simp only [AddrClient.names, List.mem_append, List.mem_flatMap]
      exact .inl (.inl ⟨ia, hia, hname⟩)) line hl
  · exact hn .ta c.ta (fun ta hta name hname => by
      simp only [AddrClient.names, List.mem_append, List.mem_flatMap]
      exact .inl (.inr ⟨ta, hta, hname⟩)) line hl
  · exact hn .pd c.pd (fun pd hpd name hname => by
      simp only [AddrClient.names, List.mem_append, List.mem_flatMap]
      exact .inr ⟨pd, hpd, hname⟩) line hl
  · decide

end Writer

section Pieces

variable {buf buf' : List Char}

theorem fgets_within {s s' : Stream} (h : fgets s = (some buf, s')) :
    buf <:+: s.rest ∧ s'.rest <:+ s.rest := by
  obtain ⟨chunk, -, hs, rfl⟩ := fgets_eq_some h
  rw [hs]
  exact ⟨((List.takeWhile_prefix _).trans (List.prefix_append _ _)).isInfix,
    List.suffix_append _ _⟩

theorem fgets_none_suffix {s s' : Stream} (T : List Char) (h : fgets s = (none, s')) :
    s'.rest <:+ T := by
  rw [(fgets_eq_none h).2]
  exact List.nil_suffix

theorem cut_isPrefix {p : Ptr} (h : cut buf p = .ok buf') : buf' <+: buf := by
  obtain ⟨i, -, h⟩ := bind_eq_ok h
  cases pure_eq_ok h
  exact List.take_prefix _ _

theorem range_isInfix {b e : Ptr} {r : List Char} (h : range buf b e = .ok r) : r <:+: buf := by
  unfold range at h
  split at h
  · split at h
    · cases h
      exact (List.take_prefix _ _).isInfix.trans (List.drop_suffix _ _).isInfix
    · cases h
  · cases h

theorem readIfacename_isInfix {name : List Char} (h : readIfacename buf = .ok name) :
    name <:+: buf := by
  unfold readIfacename at h
  split at h
  · cases pure_eq_ok h
    exact List.nil_infix
  · obtain ⟨e, -, h⟩ := bind_eq_ok h
    split at h
    · cases pure_eq_ok h
      exact List.nil_infix
    · exact range_isInfix h

theorem readPDUnicast_isPrefix {env : LoadEnv} {u u' : Option IPv6Addr}
    (h : readPDUnicast env buf u = .ok (buf', u')) : buf' <+: buf := by
  unfold readPDUnicast at h
  split at h
  · dsimp only at h
    simp only [pure_bind] at h
    split at h
    · obtain ⟨t, -, h⟩ := bind_eq_ok h
      cases pure_eq_ok h
      exact List.prefix_refl _
    · obtain ⟨sp, -, h⟩ := bind_eq_ok h
      split at h
      · obtain ⟨t, -, h⟩ := bind_eq_ok h
        cases pure_eq_ok h
        exact List.prefix_refl _
      · obtain ⟨b, hb, h⟩ := bind_eq_ok h
        obtain ⟨t, -, h⟩ := bind_eq_ok h
        cases pure_eq_ok h
        exact cut_isPrefix hb
  · cases pure_eq_ok h
    exact List.prefix_refl _

theorem readReconfigureKey_isPrefix {key : List UInt8}
    (h : readReconfigureKey buf = .ok (buf', key)) : buf' <+: buf := by
  unfold readReconfigureKey at h
  dsimp only at h
  simp only [pure_bind] at h
  split at h
  · obtain ⟨t, -, h⟩ := bind_eq_ok h
    cases pure_eq_ok h
    exact List.prefix_refl _
  · obtain ⟨e, -, h⟩ := bind_eq_ok h
    split at h
    · obtain ⟨t, -, h⟩ := bind_eq_ok h
      cases pure_eq_ok h
      exact List.prefix_refl _
    · obtain ⟨b, hb, h⟩ := bind_eq_ok h
      obtain ⟨t, -, h⟩ := bind_eq_ok h
      cases pure_eq_ok h
      exact cut_isPrefix hb

end Pieces

section Assignments

variable {T : List Char} {env : LoadEnv} {n : AssignmentNumbers} {name : List Char}

/-- Every name of the assignment being read, if any, is a piece of `T`. -/
def NamesWithin (T : List Char) (kind : AssignmentKind) (ia : Option AddrIA) : Prop :=
  ∀ x ∈ ia, ∀ name ∈ x.names kind, name <:+: T

theorem NamesWithin.none (kind : AssignmentKind) : NamesWithin T kind none :=
  fun _ h => nomatch h

theorem NamesWithin.of_names {kind : AssignmentKind} {ia ia' : Option AddrIA}
    (he : ia'.map (AddrIA.names kind) = ia.map (AddrIA.names kind)) (hi : NamesWithin T kind ia) :
    NamesWithin T kind ia' := by
  rcases ia' with _ | x'
  · exact .none kind
  · rcases ia with _ | x
    · cases he
    · rintro _ ⟨⟩
      exact (Option.some.inj he) ▸ hi x rfl

theorem NamesWithin.newAssignment (kind : AssignmentKind) (hname : name <:+: T) (duid : Duid)
    (f : AddrIA → AddrIA) (hf : ∀ ia, (f ia).names kind = ia.names kind) :
    NamesWithin T kind (some (f (newAssignment env n name duid))) := by
  rintro _ ⟨⟩ x hx
  rw [hf] at hx
  cases kind <;> simp [AddrIA.names, Dibbler.newAssignment, AddrIA.create] at hx <;>
    exact hx ▸ hname

theorem readFqdnDnsServer_names {buf : List Char} {ia ia' : Option AddrIA}
    (h : readFqdnDnsServer env buf ia = .ok ia') :
    ia'.map (AddrIA.names .ia) = ia.map (AddrIA.names .ia) := by
  unfold readFqdnDnsServer at h
  dsimp only at h
  split at h
  · cases pure_eq_ok h
    rfl
  · obtain ⟨e, -, h⟩ := bind_eq_ok h
    split at h
    · cases pure_eq_ok h
      rfl
    · obtain ⟨b, -, h⟩ := bind_eq_ok h
      obtain ⟨text, -, h⟩ := bind_eq_ok h
      cases pure_eq_ok h
      cases ia <;> rfl

theorem readFqdn_names {buf : List Char} {ia ia' : Option AddrIA} (hbuf : buf <:+: T)
    (h : readFqdn buf ia = .ok ia') (hi : NamesWithin T .ia ia) : NamesWithin T .ia ia' := by
  unfold readFqdn at h
  dsimp only at h
  split at h
  · cases pure_eq_ok h
    exact hi
  obtain ⟨_, -, h⟩ := bind_eq_ok h
  obtain ⟨_, -, h⟩ := bind_eq_ok h
  split at h
  · cases pure_eq_ok h
    exact hi
  obtain ⟨_, -, h⟩ := bind_eq_ok h
  obtain ⟨_, -, h⟩ := bind_eq_ok h
  split at h
  · cases pure_eq_ok h
    exact hi
  obtain ⟨_, -, h⟩ := bind_eq_ok h
  split at h
  · cases pure_eq_ok h
    exact hi
  obtain ⟨b, hb, h⟩ := bind_eq_ok h
  obtain ⟨fq, hfq, h⟩ := bind_eq_ok h
  cases pure_eq_ok h
  rintro _ hx nm hnm
  obtain ⟨x, hx₀, rfl⟩ := Option.mem_map.mp hx
  simp only [AddrIA.names, if_true, Option.map_some', Option.toList_some, List.mem_cons,
    List.mem_singleton, List.not_mem_nil, or_false] at hnm
  rcases hnm with rfl | rfl
  · exact hi x hx₀ _ (List.mem_cons_self _ _)
  · exact (range_isInfix hfq).trans ((cut_isPrefix hb).isInfix.trans hbuf)

theorem readAddrLine_names {buf buf' : List Char} {ia ia' : Option AddrIA}
    (h : readAddrLine env buf ia = .ok (ia', buf')) :
    ia'.map (AddrIA.names .ia) = ia.map (AddrIA.names .ia) := by
  unfold readAddrLine at h
  split at h
  · obtain ⟨⟨addr, b⟩, -, h⟩ := bind_eq_ok h
    rcases ia with _ | x <;> rcases addr with _ | a <;> cases pure_eq_ok h <;> try rfl
    split <;> rfl
  · cases pure_eq_ok h
    rfl

theorem readPrefixLine_names {buf buf' : List Char} {pd pd' : Option AddrIA}
    (h : readPrefixLine env buf pd = .ok (pd', buf')) :
    pd'.map (AddrIA.names .pd) = pd.map (AddrIA.names .pd) := by
  unfold readPrefixLine at h
  split at h
  · obtain ⟨⟨pr, b⟩, -, h⟩ := bind_eq_ok h
    rcases pd with _ | x <;> rcases pr with _ | a <;> cases pure_eq_ok h <;> try rfl
    split <;> rfl
  · cases pure_eq_ok h
    rfl

theorem parseAddrIA_names (hname : name <:+: T) : ∀ {fuel : Nat} {ia ia' : Option AddrIA}
    {s s' : Stream}, parseAddrIA env n name fuel ia s = .ok (ia', s') → s.rest <:+ T →
      NamesWithin T .ia ia → NamesWithin T .ia ia' ∧ s'.rest <:+ T
  | 0, _, _, _, _, h, _, _ => by cases h
  | fuel + 1, ia, ia', s, s', h, hs, hi => by
    rw [parseAddrIA] at h
    by_cases heof : s.eof
    · rw [if_pos heof] at h
      cases pure_eq_ok h
      exact ⟨hi, hs⟩
    rw [if_neg heof] at h
    rcases hf : fgets s with ⟨_ | buf, s₁⟩ <;> simp only [hf] at h
    · cases pure_eq_ok h
      exact ⟨.none _, fgets_none_suffix T hf⟩
    obtain ⟨hbuf, hs₁⟩ := fgets_within hf
    have hbufT := hbuf.trans hs.isInfix
    have hs₁T := hs₁.trans hs
    by_cases h₁ : contains buf "<duid"
    · rw [if_pos h₁] at h
      obtain ⟨duid, -, h⟩ := bind_eq_ok h
      exact parseAddrIA_names hname h hs₁T (.newAssignment .ia hname duid id fun _ => rfl)
    rw [if_neg h₁] at h
    by_cases h₂ : contains buf "<fqdnDnsServer>"
    · rw [if_pos h₂] at h
      obtain ⟨ia₂, h₂, h⟩ := bind_eq_ok h
      exact parseAddrIA_names hname h hs₁T (hi.of_names (readFqdnDnsServer_names h₂))
    rw [if_neg h₂] at h
    by_cases h₃ : contains buf "<fqdn "
    · rw [if_pos h₃] at h
      obtain ⟨ia₂, h₂, h⟩ := bind_eq_ok h
      exact parseAddrIA_names hname h hs₁T (readFqdn_names hbufT h₂ hi)
    rw [if_neg h₃] at h
    obtain ⟨⟨ia₂, b⟩, h₂, h⟩ := bind_eq_ok h
    have hi₂ := hi.of_names (readAddrLine_names h₂)
    dsimp only at h
    split at h
    · cases pure_eq_ok h
      exact ⟨hi₂, hs₁T⟩
    · exact parseAddrIA_names hname h hs₁T hi₂

theorem parseAddrPD_names (hname : name <:+: T) : ∀ {fuel : Nat} {pd pd' : Option AddrIA}
    {s s' : Stream}, parseAddrPD env n name fuel pd s = .ok (pd', s') → s.rest <:+ T →
      NamesWithin T .pd pd → NamesWithin T .pd pd' ∧ s'.rest <:+ T
  | 0, _, _, _, _, h, _, _ => by cases h
  | fuel + 1, pd, pd', s, s', h, hs, hi => by
    rw [parseAddrPD] at h
    by_cases heof : s.eof
    · rw [if_pos heof] at h
      cases pure_eq_ok h
      exact ⟨hi, hs⟩
    rw [if_neg heof] at h
    rcases hf : fgets s with ⟨_ | buf, s₁⟩ <;> simp only [hf] at h
    · cases pure_eq_ok h
      exact ⟨.none _, fgets_none_suffix T hf⟩
    have hs₁T := (fgets_within hf).2.trans hs
    by_cases h₁ : contains buf "duid"
    · rw [if_pos h₁] at h
      obtain ⟨duid, -, h⟩ := bind_eq_ok h
      exact parseAddrPD_names hname h hs₁T
        (.newAssignment .pd hname duid (fun ia => { ia with state := .confirmMe }) fun _ => rfl)
    rw [if_neg h₁] at h
    obtain ⟨⟨pd₂, b⟩, h₂, h⟩ := bind_eq_ok h
    have hi₂ := hi.of_names (readPrefixLine_names h₂)
    dsimp only at h
    split at h
    · cases pure_eq_ok h
      exact ⟨hi₂, hs₁T⟩
    · exact parseAddrPD_names hname h hs₁T hi₂

theorem parseAddrTA_suffix : ∀ {fuel : Nat} {s s' : Stream}, parseAddrTA fuel s = .ok s' →
    s'.rest <:+ s.rest
  | 0, _, _, h => by cases h
  | fuel + 1, s, s', h => by
    rw [parseAddrTA] at h
    by_cases heof : s.eof
    · rw [if_pos heof] at h
      cases pure_eq_ok h
      exact List.suffix_refl _
    rw [if_neg heof] at h
    rcases hf : fgets s with ⟨_ | buf, s₁⟩ <;> simp only [hf] at h
    · cases pure_eq_ok h
      exact fgets_none_suffix _ hf
    have hs₁ := (fgets_within hf).2
    split at h
    · cases pure_eq_ok h
      exact hs₁
    · exact (parseAddrTA_suffix h).trans hs₁

end Assignments

section Clients

variable {T : List Char} {env : LoadEnv}

/-- Every name of the client `parseAddrClient` is building, if any, is a piece of `T`. -/
def ClientScan.Within (T : List Char) (st : ClientScan) : Prop :=
  ∀ c ∈ st.clnt, ∀ name ∈ c.names, name <:+: T

theorem AddrClient.mem_names_addIA {c : AddrClient} {ia : AddrIA} {name : List Char}
    (h : name ∈ (c.addIA ia).names) : name ∈ c.names ∨ name ∈ ia.names .ia := by
  simp only [AddrClient.names, AddrClient.addIA, List.flatMap_append, List.mem_append,
    List.flatMap_cons, List.flatMap_nil, List.append_nil] at h ⊢
  tauto

theorem AddrClient.mem_names_addPD {c : AddrClient} {pd : AddrIA} {name : List Char}
    (h : name ∈ (c.addPD pd).names) : name ∈ c.names ∨ name ∈ pd.names .pd := by
  simp only [AddrClient.names, AddrClient.addPD, List.flatMap_append, List.mem_append,
    List.flatMap_cons, List.flatMap_nil, List.append_nil] at h ⊢
  tauto

theorem ClientScan.attachIA_within {st : ClientScan} {ia : AddrIA} (hst : st.Within T)
    (hi : NamesWithin T .ia (some ia)) : (st.attachIA ia).Within T := by
  unfold ClientScan.attachIA
  split
  · exact hst
  · next c hc =>
    split
    · exact hst
    · split <;> rintro _ ⟨⟩ name hname <;> rcases AddrClient.mem_names_addIA hname with h | h
      exacts [hst c hc name h, hi ia rfl name h, hst c hc name h, hi ia rfl name h]

theorem ClientScan.attachPD_within {st : ClientScan} {c : AddrClient} {pd : AddrIA}
    (hc : ∀ name ∈ c.names, name <:+: T) (hp : NamesWithin T .pd (some pd)) :
    (st.attachPD c pd).Within T := by
  unfold ClientScan.attachPD
  split
  next pd' u heq =>
    have hn : pd'.names .pd = pd.names .pd := by
      split at heq <;> cases heq <;> rfl
    rintro _ ⟨⟩
    split
    · exact hc
    · intro name hname
      rcases AddrClient.mem_names_addPD hname with h | h
      exacts [hc name h, hp pd rfl name (hn ▸ h)]

theorem clientPDLine_within {fuel : Nat} {st st' : ClientScan} {buf : List Char} {s s' : Stream}
    {more : Bool} (h : clientPDLine env fuel st buf s = .ok (more, st', s'))
    (hbuf : buf <:+: T) (hs : s.rest <:+ T) (hst : st.Within T) :
    st'.Within T ∧ s'.rest <:+ T := by
  unfold clientPDLine at h
  dsimp only at h
  split at h
  · obtain ⟨n, -, h⟩ := bind_eq_ok h
    obtain ⟨⟨b, u⟩, hb, h⟩ := bind_eq_ok h
    obtain ⟨name, hname, h⟩ := bind_eq_ok h
    obtain ⟨⟨pd, s₃⟩, hpd, h⟩ := bind_eq_ok h
    obtain ⟨y, hy, h⟩ := bind_eq_ok h
    obtain ⟨hpdT, hs₃⟩ := parseAddrPD_names
      ((readIfacename_isInfix hname).trans ((readPDUnicast_isPrefix hb).isInfix.trans hbuf)) hpd hs
      (.none _)
    have hy' : y.2.1.Within T ∧ y.2.2.1.rest <:+ T := by
      cases pure_eq_ok hy
      split
      · exact ⟨hst, hs₃⟩
      · next p c hp hc =>
        simp only at hp
        subst hp
        exact ⟨ClientScan.attachPD_within (hst c hc) hpdT, hs₃⟩
      · exact ⟨hst, hs₃⟩
    split at h <;> cases pure_eq_ok h <;> exact hy'
  · obtain ⟨y, hy, h⟩ := bind_eq_ok h
    cases pure_eq_ok hy
    cases pure_eq_ok h
    exact ⟨hst, hs⟩

theorem clientLine_within {fuel : Nat} {st st' : ClientScan} {buf : List Char} {s s' : Stream}
    {more : Bool} (h : clientLine env fuel st buf s = .ok (more, st', s'))
    (hbuf : buf <:+: T) (hs : s.rest <:+ T) (hst : st.Within T) :
    st'.Within T ∧ s'.rest <:+ T := by
  unfold clientLine at h
  split at h
  · obtain ⟨duid, -, h⟩ := bind_eq_ok h
    cases pure_eq_ok h
    refine ⟨?_, hs⟩
    rintro _ ⟨⟩ name hname
    simp [AddrClient.create, AddrClient.names] at hname
  · dsimp only at h
    split at h
    on_goal 1 => obtain ⟨⟨b, key⟩, hk, h⟩ := bind_eq_ok h
    all_goals
      obtain ⟨y, hy, h⟩ := bind_eq_ok h
      have hy' : y.1 <:+: T ∧ y.2.Within T := by
        cases pure_eq_ok hy
        first
        | exact ⟨(readReconfigureKey_isPrefix hk).isInfix.trans hbuf, hst⟩
        | exact ⟨hbuf, hst⟩
      split at h
      on_goal 1 =>
        obtain ⟨n, -, h⟩ := bind_eq_ok h
        obtain ⟨name, hname, h⟩ := bind_eq_ok h
        obtain ⟨u, -, h⟩ := bind_eq_ok h
        obtain ⟨⟨ia, s₄⟩, hia, h⟩ := bind_eq_ok h
        have hi := parseAddrIA_names ((readIfacename_isInfix hname).trans hy'.1) hia hs (.none _)
      all_goals
        obtain ⟨y₁, hy₁, h⟩ := bind_eq_ok h
        have hy₁' : NamesWithin T .ia y₁.1 ∧ y₁.2.1.Within T ∧ y₁.2.2.rest <:+ T := by
          cases pure_eq_ok hy₁
          first
          | exact ⟨hi.1, hy'.2, hi.2⟩
          | exact ⟨.none _, hy'.2, hs⟩
        split at h
        · next ia heq =>
          cases pure_eq_ok h
          exact ⟨ClientScan.attachIA_within hy₁'.2.1 (heq ▸ hy₁'.1), hy₁'.2.2⟩
        · split at h
          · obtain ⟨s₅, hs₅, h⟩ := bind_eq_ok h
            exact clientPDLine_within h hy'.1 ((parseAddrTA_suffix hs₅).trans hy₁'.2.2) hy₁'.2.1
          · obtain ⟨s₅, hs₅, h⟩ := bind_eq_ok h
            cases pure_eq_ok hs₅
            exact clientPDLine_within h hy'.1 hy₁'.2.2 hy₁'.2.1

theorem ClientScan.finish_within {st : ClientScan} (hst : st.Within T) :
    ∀ c ∈ st.finish, ∀ name ∈ c.names, name <:+: T := by
  rintro _ hx
  obtain ⟨c, hc, rfl⟩ := Option.mem_map.mp hx
  exact hst c hc

theorem parseAddrClientLoop_within : ∀ {fuel : Nat} {st : ClientScan} {s s' : Stream}
    {c : Option AddrClient}, parseAddrClientLoop env fuel st s = .ok (c, s') → s.rest <:+ T →
      st.Within T → (∀ x ∈ c, ∀ name ∈ x.names, name <:+: T) ∧ s'.rest <:+ T
  | 0, _, _, _, _, h, _, _ => by cases h
  | fuel + 1, st, s, s', c, h, hs, hst => by
    rw [parseAddrClientLoop] at h
    by_cases heof : s.eof
    · rw [if_pos heof] at h
      cases pure_eq_ok h
      exact ⟨ClientScan.finish_within hst, hs⟩
    rw [if_neg heof] at h
    rcases hf : fgets s with ⟨_ | buf, s₁⟩ <;> simp only [hf] at h
    · cases pure_eq_ok h
      exact ⟨fun _ h => (nomatch h), fgets_none_suffix T hf⟩
    obtain ⟨hbuf, hs₁⟩ := fgets_within hf
    obtain ⟨⟨more, st₂, s₂⟩, h₂, h⟩ := bind_eq_ok h
    obtain ⟨hst₂, hs₂⟩ := clientLine_within h₂ (hbuf.trans hs.isInfix) (hs₁.trans hs) hst
    dsimp only at h
    split at h
    · exact parseAddrClientLoop_within h hs₂ hst₂
    · cases pure_eq_ok h
      exact ⟨ClientScan.finish_within hst₂, hs₂⟩

end Clients

section Manager

variable {T : List Char} {env : LoadEnv}

/-- On a text without the counter's tag, the loop of `xmlLoadBuiltIn` never sets the counter,
and appends only clients named with pieces of the text. -/
theorem loadLoop_keeps_counter (htag : ¬replayTag <:+: T) :
    ∀ {fuel : Nat} {tag : Bool} {clnt : Option AddrClient} {m m' : AddrMgr} {s : Stream}
      {b : Bool}, loadLoop env fuel tag clnt m s = .ok (b, m') → s.rest <:+ T →
      m'.replayDetectionValue = m.replayDetectionValue ∧
        ∃ added, m'.clients = m.clients ++ added ∧ ∀ c ∈ added, ∀ name ∈ c.names, name <:+: T
  | 0, _, _, _, _, _, _, h, _ => by cases h
  | fuel + 1, tag, clnt, m, m', s, b, h, hs => by
    have done : ∀ {r : Bool}, (pure (r, m) : Except Fault _) = .ok (b, m') →
        m'.replayDetectionValue = m.replayDetectionValue ∧
          ∃ added, m'.clients = m.clients ++ added ∧ ∀ c ∈ added, ∀ name ∈ c.names, name <:+: T := by
      intro r h
      cases pure_eq_ok h
      exact ⟨rfl, [], (List.append_nil _).symm, fun _ h => nomatch h⟩
    rw [loadLoop] at h
    by_cases heof : s.eof
    · rw [if_pos heof] at h
      exact done h
    rw [if_neg heof] at h
    rcases hf : fgets s with ⟨_ | buf, s₁⟩ <;> simp only [hf] at h
    · exact done h
    obtain ⟨hbuf, hs₁⟩ := fgets_within hf
    have hs₁T := hs₁.trans hs
    by_cases h₁ : contains buf "<AddrMgr>"
    · rw [if_pos h₁] at h
      exact loadLoop_keeps_counter htag h hs₁T
    rw [if_neg h₁] at h
    by_cases h₂ : contains buf "<timestamp>"
    · rw [if_pos h₂] at h
      exact loadLoop_keeps_counter htag h hs₁T
    rw [if_neg h₂] at h
    cases h₃ : findSub "<replayDetection>".toList buf with
    | some i =>
      have hin : replayTag <:+: buf := findSub_isSome_iff.mp (by unfold replayTag; rw [h₃]; rfl)
      exact absurd (hin.trans (hbuf.trans hs.isInfix)) htag
    | none =>
      simp only [h₃] at h
      split at h
      · obtain ⟨⟨c, s₂⟩, hc, h⟩ := bind_eq_ok h
        obtain ⟨hcT, hs₂⟩ := parseAddrClientLoop_within hc hs₁T (fun _ h => nomatch h)
        dsimp only at h
        split at h
        · next c =>
          obtain ⟨hv, added, he, hadd⟩ := loadLoop_keeps_counter htag h hs₂
          split_ifs at hv he
          · refine ⟨hv, c :: added, by simp [he, AddrMgr.addClient], ?_⟩
            rintro x (_ | ⟨_, hx⟩)
            · exact hcT c rfl
            · exact hadd x hx
          · exact ⟨hv, added, he, hadd⟩
        · split at h
          · exact done h
          · exact loadLoop_keeps_counter htag h hs₂
      split at h
      · exact done h
      · exact loadLoop_keeps_counter htag h hs₁T

/-- Reloading the dump of a store none of whose names holds the counter's tag brings back the
counter, whatever else the reload does, and again a store none of whose names holds it. -/
theorem AddrMgr.load_write_keeps_counter {now : UInt32} {m m' : AddrMgr} (ht : m.TagFree)
    (hl : AddrMgr.load env (some (m.write now)) = .ok m') :
    m'.replayDetectionValue = m.replayDetectionValue ∧ m'.TagFree := by
  simp only [AddrMgr.load] at hl
  rcases hx : xmlLoadBuiltIn env AddrMgr.empty (m.write now) with _ | ⟨b, m''⟩ <;>
    simp only [hx, Except.map, Except.ok.injEq, reduceCtorEq] at hl
  subst hl
  obtain ⟨f, -, he⟩ := @loadLoop_header env now m AddrMgr.empty none _
    (Nat.lt_succ_self (m.write now).length)
  rw [xmlLoadBuiltIn, Stream.ofText, he] at hx
  have htag := AddrMgr.not_tag_bodyText ht
  obtain ⟨hv, added, he, hadd⟩ := loadLoop_keeps_counter htag hx (List.suffix_refl _)
  refine ⟨hv, fun c hc name hname hin => htag (hin.trans (hadd c ?_ name hname))⟩
  simpa [he, AddrMgr.empty] using hc

theorem not_tag_of_inline {x : List Char} (h : Inline x) : ¬replayTag <:+: x :=
  fun hin => absurd (h '<' (hin.subset (by decide))) (by decide)

theorem AddrMgr.Dumpable.tagFree {now : UInt32} {m : AddrMgr} (hd : m.Dumpable env now) :
    m.TagFree := by
  have hia : ∀ kind (ia : AddrIA), ia.Dumpable env kind →
      ∀ name ∈ ia.names kind, ¬replayTag <:+: name := by
    intro kind ia hd name hn
    simp only [AddrIA.names, List.mem_cons] at hn
    rcases hn with rfl | hn
    · exact not_tag_of_inline hd.name.2.1
    · split at hn
      · simp only [Option.mem_toList, Option.mem_def, Option.map_eq_some'] at hn
        obtain ⟨f, hf, rfl⟩ := hn
        exact not_tag_of_inline (hd.fqdn f hf)
      · cases hn
  intro c hc name hn
  simp only [AddrClient.names, hd.noTA c hc, List.flatMap_nil, List.append_nil, List.mem_append,
    List.mem_flatMap] at hn
  rcases hn with ⟨ia, hi, hn⟩ | ⟨pd, hp, hn⟩
  exacts [hia .ia ia (hd.ia c hc ia hi) name hn, hia .pd pd (hd.pd c hc pd hp) name hn]

end Manager

end Dibbler
