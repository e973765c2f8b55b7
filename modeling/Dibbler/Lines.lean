import Dibbler.Attributes

/-! The lines the writer produces, as the reader's loops meet them. A line is constant text
around values; `fgets` returns it whole when it is short enough, a test for a tag that starts
with `<` finds it only in the constant text, since no value holds a `<`, and the element
readers give back an element's body. -/

namespace Dibbler

section Fgets

/-- A line `fgets(buf, 255, f)` returns whole: at most 254 bytes, a newline at its end and
nowhere before, and no NUL. -/
def Fits (line : List Char) : Prop :=
  byteLength line ≤ 254 ∧ ∃ body, line = body ++ ['\n'] ∧ '\n' ∉ body ∧ '\x00' ∉ body

theorem utf8Size_newline : '\n'.utf8Size = 1 := rfl

theorem utf8Size_of_isDigit {c : Char} (h : c.isDigit = true) : c.utf8Size = 1 := by
  simp only [Char.isDigit, Bool.and_eq_true, decide_eq_true_eq] at h
  exact if_pos (Nat.le_trans h.2 (by decide))

theorem byteLength_of_isDigit : ∀ {s : List Char}, (∀ c ∈ s, c.isDigit = true) →
    byteLength s = s.length
  | [], _ => rfl
  | c :: s, h => by
    rw [byteLength_cons, utf8Size_of_isDigit (h c (List.mem_cons_self c s)),
      byteLength_of_isDigit fun d hd => h d (List.mem_cons_of_mem c hd), List.length_cons,
      Nat.add_comm]

theorem byteLength_decimal (x : Nat) : byteLength (decimal x) = (decimal x).length :=
  byteLength_of_isDigit fun _ => isDigit_of_mem_decimal

theorem takeLine_line {body rest : List Char} {n : Nat} (hn : byteLength body < n)
    (hb : '\n' ∉ body) : takeLine n (body ++ '\n' :: rest) = (body ++ ['\n'], rest) := by
  induction body generalizing n with
  | nil =>
    rw [List.nil_append, takeLine, utf8Size_newline, if_neg (by simp at hn; omega), if_pos rfl]
    rfl
  | cons c body ih =>
    simp only [List.mem_cons, not_or] at hb
    rw [byteLength_cons] at hn
    rw [List.cons_append, takeLine, if_neg (by omega), if_neg (Ne.symm hb.1),
      ih (by omega) hb.2]
    rfl

theorem fgets_fits {line rest : List Char} {e : Bool} (h : Fits line) :
    fgets ⟨line ++ rest, e⟩ = (some line, ⟨rest, false⟩) := by
  obtain ⟨hlen, body, rfl, hnl, hnul⟩ := h
  obtain ⟨c, t, hct⟩ := List.exists_cons_of_ne_nil
    (show body ++ '\n' :: rest ≠ [] by simp)
  have htake : takeLine 254 (body ++ '\n' :: rest) = (body ++ ['\n'], rest) :=
    takeLine_line (by simp [utf8Size_newline] at hlen; omega) hnl
  simp only [List.append_assoc, List.singleton_append] at htake ⊢
  rw [fgets]
  simp only [hct]
  rw [← hct, htake]
  have hw : (body ++ ['\n']).takeWhile (· ≠ '\x00') = body ++ ['\n'] :=
    List.takeWhile_eq_self_iff.mpr fun x hx => by
      rcases List.mem_append.mp hx with hx | hx
      · exact decide_eq_true fun e => hnul (e ▸ hx)
      · simp at hx; subst hx; decide
  rw [hw]
  simp

end Fgets

section Pieces

/-- A character that may stand in a value of a line: not the `<` that starts every tag, not a
newline, not a NUL. -/
def lineChar (c : Char) : Bool :=
  c != '<' && c != '\n' && c != '\x00'

/-- Text every character of which may stand in a value of a line. -/
def Inline (x : List Char) : Prop :=
  ∀ c ∈ x, lineChar c = true

instance : DecidablePred Inline := fun x => inferInstanceAs (Decidable (∀ c ∈ x, _))

variable {x y c₁ c₂ d n : List Char}

theorem lineChar_of_valueChar {c : Char} (h : valueChar c = true) : lineChar c = true := by
  simp only [valueChar, hexChar, Bool.or_eq_true, decide_eq_true_eq, beq_iff_eq, Char.isDigit,
    Bool.and_eq_true] at h
  simp only [lineChar, bne_iff_ne, ne_eq, Bool.and_eq_true, decide_eq_true_eq]
  rcases h with ((rfl | ⟨h₁, h₂⟩) | ⟨h₁, h₂⟩) | rfl
  · decide
  · refine ⟨⟨?_, ?_⟩, ?_⟩ <;> rintro rfl <;> revert h₁ h₂ <;> decide
  · refine ⟨⟨?_, ?_⟩, ?_⟩ <;> rintro rfl <;> revert h₁ h₂ <;> decide
  · decide

theorem inline_of_valueChar (h : ∀ c ∈ x, valueChar c = true) : Inline x :=
  fun c hc => lineChar_of_valueChar (h c hc)

theorem inline_append (hx : Inline x) (hy : Inline y) : Inline (x ++ y) := by
  intro c hc
  rcases List.mem_append.mp hc with hc | hc
  exacts [hx c hc, hy c hc]

theorem inline_cons {c : Char} (hc : lineChar c = true) (hx : Inline x) : Inline (c :: x) := by
  intro e he
  rcases List.mem_cons.mp he with rfl | he
  exacts [hc, hx e he]

theorem inline_attrsText {l : List (String × List Char)}
    (h : ∀ p ∈ l, Inline p.1.toList ∧ Inline p.2) : Inline (attrsText l) := by
  induction l with
  | nil => intro c hc; simp at hc
  | cons p l ih =>
    simp only [List.mem_cons, forall_eq_or_imp] at h
    rw [attrsText_cons, attr]
    exact inline_append (inline_append (inline_append (inline_append
      (inline_cons (by decide) h.1.1) (by decide)) h.1.2) (by decide)) (ih h.2)

theorem findSub_eq_none_of_skips (h : Skips n x = true) (hn : n ≠ []) : findSub n x = none := by
  have := findSub_append_of_skips (b := []) h
  rw [List.append_nil] at this
  rw [this]
  cases n with
  | nil => exact absurd rfl hn
  | cons => rfl

theorem skips_decimal {c : Char} {n : List Char} (hc : c.isDigit = false) (x : Nat) :
    Skips (c :: n) (decimal x) = true :=
  skips_of_forall_ne fun d hd e => by
    have := isDigit_of_mem_decimal hd
    rw [e, hc] at this
    cases this

theorem contains_pieces_eq_false {N : String} {m : List Char} (hN : N.toList = '<' :: m)
    (h₁ : Skips N.toList c₁ = true) (hx : Inline x) (h₂ : Skips N.toList c₂ = true) :
    contains (c₁ ++ x ++ c₂) N = false := by
  have hs : Skips N.toList x = true := by
    rw [hN]
    exact skips_of_forall_ne fun c hc e => by
      have := hx c hc
      subst e
      exact absurd this (by decide)
  rw [contains, findSub_eq_none_of_skips (skips_append (skips_append h₁ hs) h₂)
    (by rw [hN]; exact List.cons_ne_nil _ _)]
  rfl

theorem contains_pieces_of_prefix {N : String} (h : (findSub N.toList c₁).isSome = true) :
    contains (c₁ ++ x ++ c₂) N = true := by
  obtain ⟨k, hk⟩ := Option.isSome_iff_exists.mp h
  rw [contains, List.append_assoc, findSub_append_of_some hk]
  rfl

theorem pieces_blank {y : List Char} (h : x = ' ' :: y) :
    c₁ ++ x ++ c₂ = (c₁ ++ [' ']) ++ y ++ c₂ := by
  simp [h]

theorem inline_of_cons {c : Char} {y : List Char} (h : x = c :: y) (hx : Inline x) : Inline y :=
  fun e he => hx e (h ▸ List.mem_cons_of_mem _ he)

theorem fits_pieces (hlen : byteLength (c₁ ++ x ++ (d ++ ['\n'])) ≤ 254)
    (h₁ : '\n' ∉ c₁ ∧ '\x00' ∉ c₁) (hx : Inline x) (hd : '\n' ∉ d ∧ '\x00' ∉ d) :
    Fits (c₁ ++ x ++ (d ++ ['\n'])) := by
  refine ⟨hlen, c₁ ++ x ++ d, by simp, ?_, ?_⟩ <;> simp only [List.mem_append, not_or] <;>
    refine ⟨⟨?_, fun h => ?_⟩, ?_⟩
  all_goals first
    | exact h₁.1 | exact h₁.2 | exact hd.1 | exact hd.2
    | exact absurd (hx _ h) (by decide)

end Pieces

section Elements

variable {i : Nat} {t : String} {body pre rest : List Char}

/-- The opening tag `<t>` of an element line, after `i` blanks. -/
def openTag (i : Nat) (t : String) : List Char :=
  List.replicate i ' ' ++ '<' :: t.toList ++ ['>']

theorem byteLength_element :
    byteLength (element i t body) = byteLength (element i t []) + byteLength body := by
  simp only [element, byteLength_append, List.append_nil]
  omega

theorem element_eq_openTag :
    element i t body = openTag i t ++ body ++ ('<' :: '/' :: t.toList ++ ['>', '\n']) := rfl

theorem length_openTag : (openTag i t).length = i + t.toList.length + 2 := by
  simp [openTag]; omega

@[simp] theorem Ptr.add_ofs_one (k : Nat) : Ptr.add (.ofs (k : Int)) 1 = .ofs ((k + 1 : Nat) : Int) := by
  simp [Ptr.add]

theorem findSub_gt_openTag (ht : '>' ∉ t.toList) :
    findSub ">".toList (openTag i t ++ rest) = some (i + t.toList.length + 1) := by
  have hs : Skips ['>'] (List.replicate i ' ' ++ '<' :: t.toList) = true :=
    skips_of_forall_ne fun c hc e => by
      subst e
      simp only [List.mem_append, List.mem_replicate, List.mem_cons] at hc
      rcases hc with ⟨-, h⟩ | h | h
      · exact absurd h (by decide)
      · exact absurd h (by decide)
      · exact ht h
  rw [show openTag i t ++ rest = (List.replicate i ' ' ++ '<' :: t.toList) ++ ('>' :: rest) by
      simp [openTag], show ">".toList = ['>'] from rfl, findSub_append_of_skips hs]
  simp [findSub]
  omega

/-- The closing tag is the first `<` past the body. -/
theorem strstr_close_element (close : String) (hc : close.toList = '<' :: ('/' :: t.toList ++ ['>']))
    (hlt : '<' ∉ body) :
    strstr (element i t body) (.ofs ((openTag i t).length : Nat)) close =
      .ok (.ofs (((openTag i t).length + body.length : Nat) : Int)) := by
  have hd : (element i t body).drop (openTag i t).length =
      body ++ (close.toList ++ ['\n']) := by
    rw [element_eq_openTag, List.append_assoc, List.drop_left, hc]; simp
  rw [strstr_ofs (by rw [element_eq_openTag]; simp), hd, hc,
    findSub_append_of_skips (skips_of_forall_ne (x := '<') fun c hm e => hlt (e ▸ hm)),
    findSub_self_append]
  simp

theorem cut_close_element :
    cut (element i t body) (.ofs (((openTag i t).length + body.length : Nat) : Int)) =
      .ok (openTag i t ++ body) := by
  rw [cut_ofs (by rw [element_eq_openTag]; simp), element_eq_openTag,
    List.take_left' (by simp)]

theorem cstring_openTag :
    cstring (openTag i t ++ body) (.ofs ((openTag i t).length : Nat)) = .ok body := by
  rw [cstring_ofs (by simp), List.drop_left]

theorem find_openTag_add_one (ht : '>' ∉ t.toList) :
    (find (openTag i t ++ rest) ">").add 1 = .ofs ((openTag i t).length : Nat) := by
  rw [find, findSub_gt_openTag ht, length_openTag]
  simp only [Ptr.add_ofs_one]

theorem find_element_add_one (ht : '>' ∉ t.toList) :
    (find (element i t body) ">").add 1 = .ofs ((openTag i t).length : Nat) := by
  rw [element_eq_openTag, List.append_assoc]
  exact find_openTag_add_one ht

end Elements

section Readers

variable {i : Nat} {body : List Char}

theorem readDuid_element (hlt : '<' ∉ body) :
    readDuid (element i "duid" body) = .ok (Duid.ofText body) := by
  simp only [readDuid, find_element_add_one (t := "duid") (by decide), Ptr.isNull,
    Bool.false_eq_true, if_false, strstr_close_element "</duid>" (t := "duid") rfl hlt, cut_close_element, ok_bind,
    find_openTag_add_one (t := "duid") (by decide), cstring_openTag]
  rfl

theorem readReconfigureKey_element (hlt : '<' ∉ body) :
    readReconfigureKey (element i "ReconfigureKey" body) =
      .ok (openTag i "ReconfigureKey" ++ body, textToHex body) := by
  simp only [readReconfigureKey, find_element_add_one (t := "ReconfigureKey") (by decide),
    Ptr.isNull,
    Bool.false_eq_true, if_false, strstr_close_element "</ReconfigureKey>" (t := "ReconfigureKey") rfl hlt, cut_close_element, ok_bind,
    cstring_openTag]
  rfl

theorem readFqdnDnsServer_element {env : LoadEnv} {ia : Option AddrIA} (hlt : '<' ∉ body) :
    readFqdnDnsServer env (element i "fqdnDnsServer" body) ia =
      .ok (ia.map fun ia => { ia with fqdnDnsServer := some (env.addrOfText body) }) := by
  simp only [readFqdnDnsServer, find_element_add_one (t := "fqdnDnsServer") (by decide),
    Ptr.isNull, Bool.false_eq_true, if_false,
    strstr_close_element "</fqdnDnsServer>" (t := "fqdnDnsServer") rfl hlt, cut_close_element,
    ok_bind, cstring_openTag]
  rfl

/-- The `<AddrPD ` branch on a line holding `unicast` whose first `=` opens a quoted value with
a blank after it: the line is cut at the value's closing quote, and the unicast is built from
the value. -/
theorem readPDUnicast_quoted {env : LoadEnv} {old : Option IPv6Addr} {pre v r : List Char}
    (hpre : Skips ['='] pre = true) (hv : Skips [' '] v = true)
    (hu : contains (pre ++ '=' :: '"' :: (v ++ '"' :: ' ' :: r)) "unicast" = true) :
    readPDUnicast env (pre ++ '=' :: '"' :: (v ++ '"' :: ' ' :: r)) old =
      .ok (pre ++ '=' :: '"' :: v, some (env.addrOfText v)) := by
  have hval : ∀ t, (pre ++ '=' :: '"' :: t).drop (pre.length + 2) = t := fun t => by
    rw [show pre ++ '=' :: '"' :: t = (pre ++ ['=', '"']) ++ t by simp]
    exact List.drop_left' (by simp)
  have heq : ∀ t, (find (pre ++ '=' :: '"' :: t) "=").add 2 = .ofs ((pre.length + 2 : Nat) : Int) :=
    fun t => by
    rw [find, show "=".toList = ['='] from rfl, findSub_append_of_skips hpre]
    simp [findSub, Ptr.add]
  have hsp : strstr (pre ++ '=' :: '"' :: (v ++ '"' :: ' ' :: r))
      (.ofs ((pre.length + 2 : Nat) : Int)) " " =
        .ok (.ofs ((pre.length + 2 + (v.length + 1) : Nat) : Int)) := by
    rw [strstr_ofs (by simp), hval, show " ".toList = [' '] from rfl, findSub_append_of_skips hv]
    simp [findSub]
    omega
  have hcut : cut (pre ++ '=' :: '"' :: (v ++ '"' :: ' ' :: r))
      (.ofs (((pre.length + 2 + (v.length + 1) : Nat) : Int) + -1)) =
        .ok (pre ++ '=' :: '"' :: v) := by
    rw [show ((pre.length + 2 + (v.length + 1) : Nat) : Int) + -1 =
      ((pre ++ '=' :: '"' :: v).length : Int) by simp; omega, cut_ofs (by simp),
      show pre ++ '=' :: '"' :: (v ++ '"' :: ' ' :: r) = (pre ++ '=' :: '"' :: v) ++ '"' :: ' ' :: r
        by simp, List.take_left]
  have hm1 : ∀ i : Int, (Ptr.ofs i).add (-1) = .ofs (i + -1) := fun _ => rfl
  rw [readPDUnicast, if_pos hu]
  simp only [heq, Ptr.isNull, Bool.false_eq_true, if_false, hsp, ok_bind, pure_bind, hm1, hcut]
  rw [cstring_ofs (by simp), hval]
  rfl

/-- The `<AddrPD ` branch on the line the writer writes for a PD with a unicast address. The
line's first `=` is T1's, so the branch cuts the line after T1's digits and builds the unicast
from those digits; the search for `ifacename` then runs on the cut line and finds nothing. The
PD is read with an empty interface name, and the unicast the file holds is lost. -/
theorem pd_unicast_line_misread (env : LoadEnv) (pd : AddrIA) (u : IPv6Addr)
    (old : Option IPv6Addr) :
    readPDUnicast env (AssignmentKind.pd.openLine { pd with unicast := some u }.attrs) old =
        .ok ("    <AddrPD T1=\"".toList ++ decimal pd.t1.toNat,
          some (env.addrOfText (decimal pd.t1.toNat))) ∧
      readIfacename ("    <AddrPD T1=\"".toList ++ decimal pd.t1.toNat) = .ok [] := by
  set dec := decimal pd.t1.toNat
  set r := "T2".toList ++ '=' :: '"' :: decimal pd.t2.toNat ++ '"' :: attrsText
    [("IAID", decimal pd.iaid.toNat), ("iface", signedDecimal pd.ifindex),
      ("ifacename", pd.ifacename), ("unicast", u.plain)] ++ ['>', '\n']
  have hline : AssignmentKind.pd.openLine { pd with unicast := some u }.attrs =
      "    <AddrPD T1".toList ++ '=' :: '"' :: (dec ++ '"' :: ' ' :: r) := by
    simp [AssignmentKind.openLine, AddrIA.attrs, attr, dec, r, AssignmentKind.tag]
  have hu : contains ("    <AddrPD T1".toList ++ '=' :: '"' :: (dec ++ '"' :: ' ' :: r))
      "unicast" = true := by
    rw [contains, findSub_isSome_iff]
    exact ⟨"    <AddrPD T1".toList ++ '=' :: '"' :: (dec ++ '"' :: ' ' :: ("T2".toList ++
      '=' :: '"' :: decimal pd.t2.toNat ++ '"' :: attrsText [("IAID", decimal pd.iaid.toNat),
        ("iface", signedDecimal pd.ifindex), ("ifacename", pd.ifacename)] ++ [' '])),
      ['=', '"'] ++ u.plain ++ ['"', '>', '\n'], by simp [r, attr]⟩
  rw [hline]
  refine ⟨readPDUnicast_quoted (by decide) (skips_decimal (by decide) _) hu, ?_⟩
  rw [readIfacename, show "ifacename".toList = 'i' :: "facename".toList from rfl,
    findSub_eq_none_of_skips (skips_append (by decide) (skips_decimal (by decide) _)) (by simp)]
  rfl

end Readers

section Shapes

variable {kind : AssignmentKind} {l : List (String × List Char)} {addr : IPv6Addr}

theorem leaseLine_pieces : kind.leaseLine l addr =
    ("      <".toList ++ kind.leaseTag.toList) ++ (attrsText l ++ '>' :: addr.plain) ++
      (('<' :: '/' :: kind.leaseTag.toList ++ ['>']) ++ ['\n']) := by
  simp [AssignmentKind.leaseLine]

theorem leaseCut_pieces :
    "      <".toList ++ kind.leaseTag.toList ++ attrsText l ++ '>' :: addr.plain =
      ("      <".toList ++ kind.leaseTag.toList) ++ (attrsText l ++ '>' :: addr.plain) ++ [] := by
  simp

theorem openLine_pieces :
    kind.openLine l = ("    <".toList ++ kind.tag.toList) ++ attrsText l ++ (['>'] ++ ['\n']) :=
  rfl

theorem fqdnLine_pieces {f : Fqdn} : f.line =
    "      <fqdn".toList ++ (attrsText f.attrs ++ '>' :: f.name) ++ ("</fqdn>".toList ++ ['\n']) := by
  simp [Fqdn.line]

theorem element_pieces {i : Nat} {t : String} {body : List Char} :
    element i t body = openTag i t ++ body ++ (('<' :: '/' :: t.toList ++ ['>']) ++ ['\n']) := by
  simp [element_eq_openTag]

theorem inline_decimal {x : Nat} : Inline (decimal x) :=
  inline_of_valueChar fun _ => valueChar_of_mem_decimal

theorem inline_plain : Inline addr.plain :=
  inline_of_valueChar fun _ => valueChar_of_mem_plain

theorem inline_duid_plain {d : Duid} : Inline d.plain :=
  inline_of_valueChar fun _ h => by simp [valueChar, mem_duid_plain h]

theorem inline_hexToText {key : List UInt8} : Inline (hexToText key) :=
  inline_of_valueChar fun _ h => by simp [valueChar, (mem_hexToText h).1]

theorem inline_leaseAttrs {a : AddrAddr} : Inline (attrsText (a.attrs kind)) :=
  inline_attrsText fun p hp => by
    obtain ⟨hk, hv⟩ := AddrAddr.key_mem_of_mem_attrs hp
    exact ⟨by revert hk; generalize p.1 = k; revert k; decide, inline_of_valueChar hv⟩

theorem inline_assignmentAttrs {ia : AddrIA} (h : Inline ia.ifacename) :
    Inline (attrsText ia.attrs) :=
  inline_attrsText fun p hp => by
    obtain ⟨hk, hv⟩ := AddrIA.key_mem_of_mem_attrs hp
    refine ⟨by revert hk; generalize p.1 = k; revert k; decide, ?_⟩
    rcases hv with rfl | hv
    exacts [h, inline_of_valueChar hv]

theorem inline_fqdnAttrs {f : Fqdn} : Inline (attrsText f.attrs) :=
  inline_attrsText fun p hp => by
    simp only [Fqdn.attrs, List.mem_cons, List.mem_singleton, List.not_mem_nil, or_false] at hp
    rcases hp with rfl | rfl
    · exact ⟨(by decide : Inline "duid".toList), inline_duid_plain⟩
    · exact ⟨(by decide : Inline "used".toList), by cases f.used <;> decide⟩

end Shapes

section Tests

/-! The tag tests of the reader's loops on each kind of line the writer produces. -/

variable {a : AddrAddr} {ia : AddrIA} {f : Fqdn} {d : Duid} {i : Nat} {x : Nat}
  {key : List UInt8} {l : List (String × List Char)}

theorem lease_inline (kind : AssignmentKind) :
    Inline (attrsText (a.attrs kind) ++ '>' :: a.addr.plain) :=
  inline_append inline_leaseAttrs (inline_cons (by decide) inline_plain)

theorem leaseLine_tests_ia :
    contains (a.line .ia) "<duid" = false ∧ contains (a.line .ia) "<fqdnDnsServer>" = false ∧
      contains (a.line .ia) "<fqdn " = false ∧ contains (a.line .ia) "<AddrAddr" = true ∧
      contains ("      <AddrAddr".toList ++ attrsText (a.attrs .ia) ++ '>' :: a.addr.plain)
        "</AddrIA>" = false := by
  rw [AddrAddr.line, leaseLine_pieces]
  refine ⟨contains_pieces_eq_false rfl (by decide) (lease_inline _) (by decide),
    contains_pieces_eq_false rfl (by decide) (lease_inline _) (by decide),
    contains_pieces_eq_false rfl (by decide) (lease_inline _) (by decide),
    contains_pieces_of_prefix (by decide), ?_⟩
  rw [show "      <AddrAddr".toList = "      <".toList ++ AssignmentKind.ia.leaseTag.toList from rfl,
    leaseCut_pieces]
  exact contains_pieces_eq_false rfl (by decide) (lease_inline _) rfl

theorem not_mem_attrsText {c : Char} (h : ∀ p ∈ l, c ∉ p.1.toList ∧ c ∉ p.2)
    (hc : c ∉ [' ', '=', '"']) : c ∉ attrsText l := by
  intro hm
  obtain ⟨p, hp, hm⟩ := List.mem_flatMap.mp hm
  simp only [attr, List.mem_append, List.mem_cons, List.mem_singleton, List.not_mem_nil,
    or_false] at hm hc
  have := h p hp
  tauto

/-- The tests of `parseAddrPD` on a prefix line, and its `</AddrPD>` test on the line cut after
the prefix. No `u` stands in a prefix line, so `duid` is not found. -/
theorem leaseLine_tests_pd :
    contains (a.line .pd) "duid" = false ∧ contains (a.line .pd) "<AddrPrefix" = true ∧
      contains ("      <AddrPrefix".toList ++ attrsText (a.attrs .pd) ++ '>' :: a.addr.plain)
        "</AddrPD>" = false := by
  have hu : 'u' ∉ a.line .pd := by
    have hv : ∀ {v : List Char}, (∀ c ∈ v, valueChar c = true) → 'u' ∉ v :=
      fun hv hu => absurd (hv _ hu) (by decide)
    have hattrs : 'u' ∉ attrsText (a.attrs .pd) := not_mem_attrsText (fun p hp => by
      obtain ⟨hk, hval⟩ := AddrAddr.key_mem_of_mem_attrs hp
      exact ⟨by revert hk; generalize p.1 = k; revert k; decide, hv hval⟩) (by decide)
    rw [AddrAddr.line, leaseLine_pieces]
    simp only [List.mem_append, List.mem_cons, not_or]
    exact ⟨⟨by decide, hattrs, by decide, hv fun _ => valueChar_of_mem_plain⟩, by decide⟩
  refine ⟨by rw [contains, findSub_eq_none_of_not_mem (by decide) hu]; rfl, ?_, ?_⟩
  · rw [AddrAddr.line, leaseLine_pieces]
    exact contains_pieces_of_prefix (by decide)
  · rw [show "      <AddrPrefix".toList = "      <".toList ++ AssignmentKind.pd.leaseTag.toList
      from rfl, leaseCut_pieces]
    exact contains_pieces_eq_false rfl (by decide) (lease_inline _) rfl

theorem contains_element_eq_false {t N : String} {body m : List Char}
    (hN : N.toList = '<' :: m) (h₁ : Skips N.toList (openTag i t) = true)
    (h₂ : Skips N.toList (('<' :: '/' :: t.toList ++ ['>']) ++ ['\n']) = true)
    (hb : Inline body) : contains (element i t body) N = false := by
  rw [element_pieces]
  exact contains_pieces_eq_false hN h₁ hb h₂

theorem contains_element_of_open {t N : String} {body : List Char}
    (h : (findSub N.toList (openTag i t)).isSome = true) : contains (element i t body) N = true := by
  rw [element_pieces]
  exact contains_pieces_of_prefix h

theorem fqdnLine_tests (h : Inline f.name) :
    contains f.line "<duid" = false ∧ contains f.line "<fqdnDnsServer>" = false ∧
      contains f.line "<fqdn " = true := by
  have hx : Inline (attrsText f.attrs ++ '>' :: f.name) :=
    inline_append inline_fqdnAttrs (inline_cons (by decide) h)
  obtain ⟨y, hy⟩ : ∃ y, attrsText f.attrs ++ '>' :: f.name = ' ' :: y := ⟨_, rfl⟩
  rw [fqdnLine_pieces, pieces_blank hy]
  have hy' := inline_of_cons hy hx
  exact ⟨contains_pieces_eq_false rfl (by decide) hy' (by decide),
    contains_pieces_eq_false rfl (by decide) hy' (by decide), contains_pieces_of_prefix (by decide)⟩

theorem dnsLine_tests {addr : IPv6Addr} :
    contains (element 6 "fqdnDnsServer" addr.plain) "<duid" = false ∧
      contains (element 6 "fqdnDnsServer" addr.plain) "<fqdnDnsServer>" = true :=
  ⟨contains_element_eq_false (i := 6) (t := "fqdnDnsServer") rfl (by decide) (by decide)
    inline_plain, contains_element_of_open (i := 6) (t := "fqdnDnsServer") (by decide)⟩

theorem duidLine_tests :
    contains (element 6 "duid" d.plain) "<duid" = true ∧
      contains (element 6 "duid" d.plain) "duid" = true :=
  ⟨contains_element_of_open (i := 6) (t := "duid") (by decide),
    contains_element_of_open (i := 6) (t := "duid") (by decide)⟩

theorem clientDuidLine_test : contains (element 4 "duid" d.plain) "<duid" = true :=
  contains_element_of_open (i := 4) (t := "duid") (by decide)

theorem keyLine_tests :
    contains (element 4 "ReconfigureKey" (hexToText key)) "<duid" = false ∧
      contains (element 4 "ReconfigureKey" (hexToText key)) "<ReconfigureKey" = true ∧
      contains (openTag 4 "ReconfigureKey" ++ hexToText key) "<AddrIA " = false ∧
      contains (openTag 4 "ReconfigureKey" ++ hexToText key) "<AddrTA " = false ∧
      contains (openTag 4 "ReconfigureKey" ++ hexToText key) "<AddrPD " = false ∧
      contains (openTag 4 "ReconfigureKey" ++ hexToText key) "</AddrClient>" = false := by
  have hcut : openTag 4 "ReconfigureKey" ++ hexToText key =
      openTag 4 "ReconfigureKey" ++ hexToText key ++ [] := by simp
  rw [hcut]
  exact ⟨contains_element_eq_false (i := 4) (t := "ReconfigureKey") rfl (by decide) (by decide)
      inline_hexToText, contains_element_of_open (i := 4) (t := "ReconfigureKey") (by decide),
    contains_pieces_eq_false rfl (by decide) inline_hexToText rfl,
    contains_pieces_eq_false rfl (by decide) inline_hexToText rfl,
    contains_pieces_eq_false rfl (by decide) inline_hexToText rfl,
    contains_pieces_eq_false rfl (by decide) inline_hexToText rfl⟩

theorem openLine_tests_ia (h : Inline ia.ifacename) :
    contains (AssignmentKind.ia.openLine ia.attrs) "<duid" = false ∧
      contains (AssignmentKind.ia.openLine ia.attrs) "<ReconfigureKey" = false ∧
      contains (AssignmentKind.ia.openLine ia.attrs) "<AddrIA " = true := by
  obtain ⟨y, hy⟩ : ∃ y, attrsText ia.attrs = ' ' :: y := ⟨_, rfl⟩
  have hy' := inline_of_cons hy (inline_assignmentAttrs h)
  rw [openLine_pieces, pieces_blank hy]
  exact ⟨contains_pieces_eq_false rfl (by decide) hy' (by decide),
    contains_pieces_eq_false rfl (by decide) hy' (by decide), contains_pieces_of_prefix (by decide)⟩

theorem openLine_tests_pd (h : Inline ia.ifacename) :
    contains (AssignmentKind.pd.openLine ia.attrs) "<duid" = false ∧
      contains (AssignmentKind.pd.openLine ia.attrs) "<ReconfigureKey" = false ∧
      contains (AssignmentKind.pd.openLine ia.attrs) "<AddrIA " = false ∧
      contains (AssignmentKind.pd.openLine ia.attrs) "<AddrTA " = false ∧
      contains (AssignmentKind.pd.openLine ia.attrs) "<AddrPD " = true ∧
      contains (AssignmentKind.pd.openLine ia.attrs) "</AddrClient>" = false := by
  obtain ⟨y, hy⟩ : ∃ y, attrsText ia.attrs = ' ' :: y := ⟨_, rfl⟩
  have hy' := inline_of_cons hy (inline_assignmentAttrs h)
  rw [openLine_pieces, pieces_blank hy]
  exact ⟨contains_pieces_eq_false rfl (by decide) hy' (by decide),
    contains_pieces_eq_false rfl (by decide) hy' (by decide),
    contains_pieces_eq_false rfl (by decide) hy' (by decide),
    contains_pieces_eq_false rfl (by decide) hy' (by decide), contains_pieces_of_prefix (by decide),
    contains_pieces_eq_false rfl (by decide) hy' (by decide)⟩

theorem timestampLine_tests :
    contains (element 2 "timestamp" (decimal x)) "<AddrMgr>" = false ∧
      contains (element 2 "timestamp" (decimal x)) "<timestamp>" = true :=
  ⟨contains_element_eq_false (i := 2) (t := "timestamp") rfl (by decide) (by decide)
    inline_decimal, contains_element_of_open (i := 2) (t := "timestamp") (by decide)⟩

theorem replayLine_tests (hx : x < 2 ^ 64) :
    contains (element 2 "replayDetection" (decimal x)) "<AddrMgr>" = false ∧
      contains (element 2 "replayDetection" (decimal x)) "<timestamp>" = false ∧
      findSub "<replayDetection>".toList (element 2 "replayDetection" (decimal x)) = some 2 ∧
      extractU64 ((element 2 "replayDetection" (decimal x)).drop (2 + 17)) = UInt64.ofNat x := by
  refine ⟨contains_element_eq_false (i := 2) (t := "replayDetection") rfl (by decide)
    (by decide) inline_decimal, contains_element_eq_false (i := 2) (t := "replayDetection") rfl
    (by decide) (by decide) inline_decimal, ?_, ?_⟩
  · rw [element_eq_openTag, List.append_assoc]
    exact findSub_append_of_some (by decide)
  · rw [element_eq_openTag, List.append_assoc, List.drop_left' (by decide)]
    exact extractU64_decimal_append hx (by simp)

end Tests

section Fitting

/-! Each line the writer produces ends with its only newline and holds no NUL, so `fgets`
returns it whole when it is short enough. -/

variable {a : AddrAddr} {ia : AddrIA} {f : Fqdn} {kind : AssignmentKind} {i : Nat} {t : String}
  {body : List Char}

theorem fits_element (hb : Inline body)
    (hc : '\n' ∉ openTag i t ∧ '\x00' ∉ openTag i t)
    (ht : '\n' ∉ '<' :: '/' :: t.toList ++ ['>'] ∧ '\x00' ∉ '<' :: '/' :: t.toList ++ ['>'])
    (h : byteLength (element i t body) ≤ 254) : Fits (element i t body) := by
  rw [element_pieces] at h ⊢
  exact fits_pieces h hc hb ht

theorem fits_leaseLine (h : byteLength (a.line kind) ≤ 254) : Fits (a.line kind) := by
  rw [AddrAddr.line, leaseLine_pieces] at h ⊢
  exact fits_pieces h (by cases kind <;> decide) (lease_inline kind) (by cases kind <;> decide)

theorem fits_openLine (hn : Inline ia.ifacename) (h : byteLength (kind.openLine ia.attrs) ≤ 254) :
    Fits (kind.openLine ia.attrs) := by
  rw [openLine_pieces] at h ⊢
  exact fits_pieces h (by cases kind <;> decide) (inline_assignmentAttrs hn) (by decide)

theorem fits_fqdnLine (hn : Inline f.name) (h : byteLength f.line ≤ 254) : Fits f.line := by
  rw [fqdnLine_pieces] at h ⊢
  exact fits_pieces h (by decide) (inline_append inline_fqdnAttrs (inline_cons (by decide) hn))
    (by decide)

end Fitting

section Fqdn

variable {needle : String} {pre post v : List Char} {l₁ l₂ : List (String × List Char)} {k : String}
  {skip : Nat}

theorem find_attr_add (hpre : Skips needle.toList (pre ++ [' ']) = true)
    (hl₁ : ∀ p ∈ l₁, Skips needle.toList (attr p.1 p.2) = true)
    (hk : findSub needle.toList (attrKey k) = some 1) (hskip : skip + 1 = (attrKey k).length) :
    (find (pre ++ attrsText (l₁ ++ (k, v) :: l₂) ++ post) needle).add skip =
      .ofs ((pre.length + (attrsText l₁).length + (attrKey k).length : Nat) : Int) := by
  rw [find, findSub_line hpre hl₁ hk, Ptr.add]
  congr 1
  push_cast
  omega

theorem range_attr_value (hq : '"' ∉ v) :
    strstr (pre ++ attrsText (l₁ ++ (k, v) :: l₂) ++ post)
        (.ofs ((pre.length + (attrsText l₁).length + (attrKey k).length : Nat) : Int)) "\"" =
        .ok (.ofs ((pre.length + (attrsText l₁).length + (attrKey k).length : Nat) + v.length)) ∧
      range (pre ++ attrsText (l₁ ++ (k, v) :: l₂) ++ post)
        (.ofs ((pre.length + (attrsText l₁).length + (attrKey k).length : Nat) : Int))
        (.ofs ((pre.length + (attrsText l₁).length + (attrKey k).length : Nat) + v.length)) =
        .ok v :=
  ⟨strstr_quote drop_line hq, range_span length_le_line drop_line⟩

/-- An FQDN line sets the FQDN of the IA being read to the one written, when its name holds no
`<`. -/
theorem readFqdn_line {f : Fqdn} {ia : Option AddrIA} (h : Inline f.name) :
    readFqdn f.line ia = .ok (ia.map fun ia => { ia with fqdn := some f }) := by
  have hD : '"' ∉ f.duid.plain := fun hm => absurd (mem_duid_plain hm) (by decide)
  have hU : '"' ∉ (if f.used then "TRUE".toList else "FALSE".toList) := by
    cases f.used <;> decide
  have hL₁ : f.line = "      <fqdn".toList ++ attrsText ([] ++ ("duid", f.duid.plain) ::
      [("used", if f.used then "TRUE".toList else "FALSE".toList)]) ++
      '>' :: (f.name ++ "</fqdn>\n".toList) := rfl
  have hL₂ : f.line = "      <fqdn".toList ++ attrsText ([("duid", f.duid.plain)] ++
      ("used", if f.used then "TRUE".toList else "FALSE".toList) :: []) ++
      '>' :: (f.name ++ "</fqdn>\n".toList) := rfl
  have hd₁ : (find f.line "duid=\"").add 6 = .ofs ((18 : Nat) : Int) := by
    rw [hL₁]; exact find_attr_add (by decide) (by simp) (by decide) (by decide)
  have hv₁ : strstr f.line (.ofs ((18 : Nat) : Int)) "\"" =
        .ok (.ofs ((18 : Nat) + f.duid.plain.length)) ∧
      range f.line (.ofs ((18 : Nat) : Int)) (.ofs ((18 : Nat) + f.duid.plain.length)) =
        .ok f.duid.plain := by
    rw [hL₁]; exact range_attr_value hD
  have hskip : ∀ p ∈ [("duid", f.duid.plain)], Skips "used=\"".toList (attr p.1 p.2) = true := by
    simp only [List.mem_singleton, forall_eq, attr_eq]
    refine skips_append (by decide) (skips_of_forall_ne fun c hc e => ?_)
    rcases List.mem_append.mp hc with hc | hc
    · exact absurd (mem_duid_plain hc) (by rw [e]; decide)
    · simp at hc; rw [hc] at e; exact absurd e (by decide)
  have hd₂ : (find f.line "used=\"").add 6 =
      .ofs ((11 + (attrsText [("duid", f.duid.plain)]).length + 7 : Nat) : Int) := by
    rw [hL₂]; exact find_attr_add (by decide) hskip (by decide) (by decide)
  have hv₂ : strstr f.line (.ofs ((11 + (attrsText [("duid", f.duid.plain)]).length + 7 : Nat) :
        Int)) "\"" = .ok (.ofs ((11 + (attrsText [("duid", f.duid.plain)]).length + 7 : Nat) +
        (if f.used then "TRUE".toList else "FALSE".toList).length)) ∧
      range f.line (.ofs ((11 + (attrsText [("duid", f.duid.plain)]).length + 7 : Nat) : Int))
        (.ofs ((11 + (attrsText [("duid", f.duid.plain)]).length + 7 : Nat) +
        (if f.used then "TRUE".toList else "FALSE".toList).length)) =
        .ok (if f.used then "TRUE".toList else "FALSE".toList) := by
    rw [hL₂]; exact range_attr_value hU
  have hL₃ : f.line = ("      <fqdn".toList ++ attrsText f.attrs) ++
      '>' :: (f.name ++ "</fqdn>\n".toList) := rfl
  have hgts : Skips ">".toList ("      <fqdn".toList ++ attrsText f.attrs) = true :=
    skips_append (by decide) (skips_of_forall_ne fun c hc e => by
      subst e
      refine not_mem_attrsText (fun p hp => ?_) (by decide) hc
      simp only [Fqdn.attrs, List.mem_cons, List.mem_singleton, List.not_mem_nil,
        or_false] at hp
      rcases hp with rfl | rfl
      · exact ⟨(by decide : '>' ∉ "duid".toList),
          fun hm => absurd (mem_duid_plain hm) (by decide)⟩
      · exact ⟨(by decide : '>' ∉ "used".toList), by cases f.used <;> decide⟩)
  have hgt : (find f.line ">").add 1 =
      .ofs ((("      <fqdn".toList ++ attrsText f.attrs).length + 1 : Nat) : Int) := by
    have hfind : findSub ">".toList f.line =
        some ("      <fqdn".toList ++ attrsText f.attrs).length := by
      rw [hL₃, findSub_append_of_skips hgts]
      simp [findSub]
    rw [find, hfind, Ptr.add_ofs_one]
  have hdrop : f.line.drop (("      <fqdn".toList ++ attrsText f.attrs).length + 1) =
      f.name ++ "</fqdn>\n".toList := by
    rw [hL₃, List.drop_append_eq_append_drop]; simp
  have hlt : strstr f.line (.ofs ((("      <fqdn".toList ++ attrsText f.attrs).length + 1 : Nat) :
      Int)) "<" = .ok (.ofs ((("      <fqdn".toList ++ attrsText f.attrs).length + 1 : Nat) +
        f.name.length)) := by
    rw [strstr_ofs (by rw [hL₃]; simp), hdrop, show "<".toList = ['<'] from rfl,
      findSub_append_of_skips (skips_of_forall_ne (x := '<') fun c hc e => by
        have := h c hc; subst e; exact absurd this (by decide))]
    simp [findSub]
  have hcut : cut f.line (.ofs ((("      <fqdn".toList ++ attrsText f.attrs).length + 1 : Nat) +
      f.name.length)) = .ok ("      <fqdn".toList ++ attrsText f.attrs ++ '>' :: f.name) := by
    rw [← Nat.cast_add, cut_ofs (by rw [hL₃]; simp; omega),
      show f.line = ("      <fqdn".toList ++ attrsText f.attrs ++ '>' :: f.name) ++
        "</fqdn>\n".toList by simp [hL₃],
      List.take_left' (by simp only [List.length_append, List.length_cons]; omega)]
  have hname : range ("      <fqdn".toList ++ attrsText f.attrs ++ '>' :: f.name)
      (.ofs ((("      <fqdn".toList ++ attrsText f.attrs).length + 1 : Nat) : Int))
      (.ofs ((("      <fqdn".toList ++ attrsText f.attrs).length + 1 : Nat) + f.name.length)) =
      .ok f.name :=
    @range_span _ [] _ _ (by simp) (by simp [List.drop_append_eq_append_drop])
  have hf : (⟨Duid.ofText f.duid.plain, f.name,
      decide ((if f.used then "TRUE".toList else "FALSE".toList) = "TRUE".toList)⟩ : Fqdn) = f := by
    rcases f with ⟨d, n, _ | _⟩ <;> simp [Duid.ofText_plain]
  simp only [readFqdn, hd₁, Ptr.isNull, Bool.false_eq_true, if_false, hv₁.1, ok_bind, hv₁.2,
    hd₂, hv₂.1, hv₂.2, hgt, hlt, hcut, hname]
  rw [hf]
  rfl

end Fqdn

end Dibbler
