import Dibbler.Reader
import Dibbler.Writer
import Dibbler.TextRoundTrip

/-! Where the reader finds the attributes of an opening line. Each attribute is found by
searching for its name, so a line decodes when the search for a name passes over every
attribute before the named one: over their name parts, which `decide` checks, and over their
values, which cannot hold the name. The order of the attributes then does not matter. -/

namespace Dibbler

def attrKey (name : String) : List Char :=
  ' ' :: name.toList ++ ['=', '"']

@[simp] theorem LoadEnv.addrOfText_plain (env : LoadEnv) (a : IPv6Addr) :
    env.addrOfText a.plain = a := by
  simp [LoadEnv.addrOfText, IPv6Addr.ofText_plain]

section AttrSearch

variable {env : LoadEnv} {needle : List Char} {l l₁ l₂ : List (String × List Char)} {k : String}
  {v pre post : List Char}

theorem attr_eq (k : String) (v : List Char) : attr k v = attrKey k ++ (v ++ ['"']) := by
  simp [attr, attrKey]

@[simp] theorem attrsText_nil : attrsText [] = [] := rfl

@[simp] theorem attrsText_cons (p : String × List Char) (l : List (String × List Char)) :
    attrsText (p :: l) = attr p.1 p.2 ++ attrsText l := rfl

@[simp] theorem attrsText_append : attrsText (l₁ ++ l₂) = attrsText l₁ ++ attrsText l₂ := by
  simp [attrsText, List.flatMap_append]

theorem skips_attr (hk : Skips needle (attrKey k) = true) (hv : findSub needle v = none)
    (hq : '"' ∉ needle) (hn : needle ≠ []) : Skips needle (attr k v) = true := by
  rw [attr_eq]
  exact skips_append hk (skips_append_delim hv hq hn)

theorem findSub_eq_none_of_class {P : Char → Bool} (hv : ∀ c ∈ v, P c = true)
    (hn : ∃ c ∈ needle, P c = false) : findSub needle v = none := by
  obtain ⟨c, hc, hP⟩ := hn
  exact findSub_eq_none_of_not_mem hc fun h => by simp [hv c h] at hP

theorem skips_attr_of_class {P : Char → Bool} (hk : Skips needle (attrKey k) = true)
    (hv : ∀ c ∈ v, P c = true) (hn : ∃ c ∈ needle, P c = false) (hq : '"' ∉ needle) :
    Skips needle (attr k v) = true :=
  skips_attr hk (findSub_eq_none_of_class hv hn) hq (by rintro rfl; simp at hn)

theorem skips_attrsText (h : ∀ p ∈ l, Skips needle (attr p.1 p.2) = true) :
    Skips needle (attrsText l) = true := by
  induction l with
  | nil => rfl
  | cons p l ih =>
    simp only [List.mem_cons, forall_eq_or_imp] at h
    exact skips_append h.1 (ih h.2)

theorem attrsText_eq_cons (h : l ≠ []) : ∃ rest, attrsText l = ' ' :: rest := by
  obtain ⟨p, l, rfl⟩ := List.exists_cons_of_ne_nil h
  exact ⟨_, rfl⟩

theorem findSub_line (hpre : Skips needle (pre ++ [' ']) = true)
    (hl₁ : ∀ p ∈ l₁, Skips needle (attr p.1 p.2) = true)
    (hk : findSub needle (attrKey k) = some 1) :
    findSub needle (pre ++ attrsText (l₁ ++ (k, v) :: l₂) ++ post) =
      some (pre.length + (attrsText l₁).length + 1) := by
  obtain ⟨rest, hrest⟩ := attrsText_eq_cons (l := l₁ ++ (k, v) :: l₂) (by simp)
  have hsplit : attrsText (l₁ ++ (k, v) :: l₂) ++ post = ' ' :: (rest ++ post) := by
    rw [hrest, List.cons_append]
  rw [List.append_assoc, hsplit, findSub_append_cons_of_skips hpre, ← hsplit]
  simp only [attrsText_append, attrsText_cons, attr_eq, List.append_assoc]
  rw [findSub_append_of_skips (skips_attrsText hl₁), findSub_append_of_some hk]
  simp only [Option.map_some', Option.some.injEq]
  omega

theorem findSub_line_eq_none (hn : needle ≠ []) (hpre : Skips needle pre = true)
    (hl : ∀ p ∈ l, Skips needle (attr p.1 p.2) = true) (hpost : Skips needle post = true) :
    findSub needle (pre ++ attrsText l ++ post) = none := by
  have h := findSub_append_of_skips (b := [])
    (skips_append (skips_append hpre (skips_attrsText hl)) hpost)
  rw [List.append_nil] at h
  rw [h]
  simp [findSub, hn]

theorem drop_line :
    (pre ++ attrsText (l₁ ++ (k, v) :: l₂) ++ post).drop
      (pre.length + (attrsText l₁).length + (attrKey k).length) =
      v ++ '"' :: (attrsText l₂ ++ post) := by
  simp only [attrsText_append, attrsText_cons, attr_eq, List.append_assoc, Nat.add_assoc]
  rw [List.drop_append, List.drop_append, List.drop_left]
  simp

theorem length_le_line :
    pre.length + (attrsText l₁).length + (attrKey k).length ≤
      (pre ++ attrsText (l₁ ++ (k, v) :: l₂) ++ post).length := by
  simp only [attrsText_append, attrsText_cons, attr_eq, List.length_append]
  omega

theorem atoiAfter_line {name : String} {skip : Nat} {dflt : BitVec 32}
    (hpre : Skips name.toList (pre ++ [' ']) = true)
    (hl₁ : ∀ p ∈ l₁, Skips name.toList (attr p.1 p.2) = true)
    (hk : findSub name.toList (attrKey k) = some 1) (hskip : skip + 1 = (attrKey k).length) :
    atoiAfter (pre ++ attrsText (l₁ ++ (k, v) :: l₂) ++ post) name skip dflt =
      .ok (atoiText (v ++ '"' :: (attrsText l₂ ++ post))) := by
  have hpos : pre.length + (attrsText l₁).length + 1 + skip =
      pre.length + (attrsText l₁).length + (attrKey k).length := by omega
  rw [atoiAfter, findSub_line hpre hl₁ hk]
  simp only
  rw [show ((pre.length + (attrsText l₁).length + 1 : Nat) : Int) + (skip : Int) =
      ((pre.length + (attrsText l₁).length + (attrKey k).length : Nat) : Int) by
    rw [← hpos]; push_cast; rfl, atoi_ofs length_le_line, drop_line]

theorem readIfacename_line {name : List Char}
    (hpre : Skips "ifacename".toList (pre ++ [' ']) = true)
    (hl₁ : ∀ p ∈ l₁, Skips "ifacename".toList (attr p.1 p.2) = true) (hq : '"' ∉ name) :
    readIfacename (pre ++ attrsText (l₁ ++ ("ifacename", name) :: l₂) ++ post) = .ok name := by
  have hk : findSub "ifacename".toList (attrKey "ifacename") = some 1 := by decide
  have hkl : (attrKey "ifacename").length = 12 := by decide
  have hdrop : (pre ++ attrsText (l₁ ++ ("ifacename", name) :: l₂) ++ post).drop
      (pre.length + (attrsText l₁).length + (attrKey "ifacename").length) =
      name ++ '"' :: (attrsText l₂ ++ post) := drop_line
  rw [readIfacename, findSub_line hpre hl₁ hk]
  simp only
  rw [show ((pre.length + (attrsText l₁).length + 1 : Nat) : Int) + 11 =
      ((pre.length + (attrsText l₁).length + (attrKey "ifacename").length : Nat) : Int) by
    rw [hkl]; push_cast; rfl, strstr_quote hdrop hq]
  simp only [Ptr.isNull, Bool.false_eq_true, if_false]
  exact range_span length_le_line hdrop

theorem readUnicast_line {u : IPv6Addr} {old : Option IPv6Addr}
    (hpre : Skips "unicast".toList (pre ++ [' ']) = true)
    (hl₁ : ∀ p ∈ l₁, Skips "unicast".toList (attr p.1 p.2) = true) :
    readUnicast env (pre ++ attrsText (l₁ ++ ("unicast", u.plain) :: l₂) ++ post) old =
      .ok (some u) := by
  have hk : findSub "unicast".toList (attrKey "unicast") = some 1 := by decide
  have hkl : (attrKey "unicast").length = 10 := by decide
  have hdrop : (pre ++ attrsText (l₁ ++ ("unicast", u.plain) :: l₂) ++ post).drop
      (pre.length + (attrsText l₁).length + (attrKey "unicast").length) =
      u.plain ++ '"' :: (attrsText l₂ ++ post) := drop_line
  rw [readUnicast, findSub_line hpre hl₁ hk]
  simp only
  rw [show ((pre.length + (attrsText l₁).length + 1 : Nat) : Int) + 9 =
      ((pre.length + (attrsText l₁).length + (attrKey "unicast").length : Nat) : Int) by
    rw [hkl]; push_cast; rfl,
    strstr_quote hdrop fun h => absurd (mem_plain h) (by decide)]
  simp only [ok_bind, Ptr.isNull, Bool.false_eq_true, if_false, range_span length_le_line hdrop,
    List.length_eq_zero, plain_ne_nil, LoadEnv.addrOfText_plain]
  rfl

theorem readUnicast_of_none {buf : List Char} {old : Option IPv6Addr}
    (h : findSub "unicast".toList buf = none) : readUnicast env buf old = .ok old := by
  rw [readUnicast, h]
  rfl

theorem readPDUnicast_of_none {buf : List Char} {old : Option IPv6Addr}
    (h : findSub "unicast".toList buf = none) : readPDUnicast env buf old = .ok (buf, old) := by
  rw [readPDUnicast, contains, h]
  rfl

end AttrSearch

section Values

/-- The characters of every value the writer prints but a name: hexadecimal digits, colons
and a minus sign. -/
def valueChar (c : Char) : Bool :=
  hexChar c || c == '-'

theorem valueChar_of_mem_decimal {x : Nat} {c : Char} (h : c ∈ decimal x) : valueChar c = true := by
  simp [valueChar, hexChar, isDigit_of_mem_decimal h]

theorem valueChar_of_mem_signedDecimal {v : BitVec 32} {c : Char} (h : c ∈ signedDecimal v) :
    valueChar c = true := by
  unfold signedDecimal at h
  split at h
  · rcases List.mem_cons.mp h with rfl | h
    · rfl
    · exact valueChar_of_mem_decimal h
  · exact valueChar_of_mem_decimal h

theorem valueChar_of_mem_plain {a : IPv6Addr} {c : Char} (h : c ∈ a.plain) : valueChar c = true := by
  simp [valueChar, mem_plain h]

end Values

section Permutations

variable {needle : List Char} {canon l : List (String × List Char)} {k : String} {v : List Char}

theorem exists_split_of_perm (hl : l.Perm canon) (hkeys : (canon.map Prod.fst).Nodup)
    (hmem : (k, v) ∈ canon)
    (hothers : ∀ p ∈ canon, p.1 ≠ k → Skips needle (attr p.1 p.2) = true) :
    ∃ l₁ l₂, l = l₁ ++ (k, v) :: l₂ ∧ ∀ p ∈ l₁, Skips needle (attr p.1 p.2) = true := by
  obtain ⟨l₁, l₂, rfl⟩ := List.append_of_mem (hl.mem_iff.mpr hmem)
  refine ⟨l₁, l₂, rfl, fun p hp => hothers p (hl.subset (List.mem_append_left _ hp)) ?_⟩
  intro hpk
  have hnd := (hl.map Prod.fst).nodup_iff.mpr hkeys
  rw [List.map_append, List.map_cons] at hnd
  exact List.disjoint_of_nodup_append hnd (List.mem_map_of_mem _ hp)
    (hpk ▸ List.mem_cons_self _ _)

theorem atoiAfter_perm {pre post : List Char} {name : String} {skip : Nat} {dflt : BitVec 32}
    (k : String) (v : List Char)
    (hl : l.Perm canon) (hkeys : (canon.map Prod.fst).Nodup) (hmem : (k, v) ∈ canon)
    (hothers : ∀ p ∈ canon, p.1 ≠ k → Skips name.toList (attr p.1 p.2) = true)
    (hpre : Skips name.toList (pre ++ [' ']) = true) (hk : findSub name.toList (attrKey k) = some 1)
    (hskip : skip + 1 = (attrKey k).length) :
    ∃ rest, atoiAfter (pre ++ attrsText l ++ post) name skip dflt =
      .ok (atoiText (v ++ '"' :: rest)) := by
  obtain ⟨l₁, l₂, rfl, hl₁⟩ := exists_split_of_perm hl hkeys hmem hothers
  exact ⟨_, atoiAfter_line hpre hl₁ hk hskip⟩

end Permutations

section AssignmentLine

theorem AddrIA.key_mem_of_mem_attrs {ia : AddrIA} {p : String × List Char} (h : p ∈ ia.attrs) :
    p.1 ∈ ["T1", "T2", "IAID", "iface", "ifacename", "unicast"] ∧
      (p = ("ifacename", ia.ifacename) ∨ ∀ c ∈ p.2, valueChar c = true) := by
  have hdec : ∀ x : Nat, ∀ c ∈ decimal x, valueChar c = true := fun _ _ => valueChar_of_mem_decimal
  unfold AddrIA.attrs at h
  cases hu : ia.unicast with
  | none => ?_
  | some u => ?_ <;>
  rw [hu] at h <;>
  simp only [List.mem_append, List.mem_cons, List.mem_singleton, List.not_mem_nil, or_false,
    Option.map_none', Option.map_some', Option.toList_none, Option.toList_some] at h
  · rcases h with rfl | rfl | rfl | rfl | rfl
    · exact ⟨by simp, Or.inr (hdec _)⟩
    · exact ⟨by simp, Or.inr (hdec _)⟩
    · exact ⟨by simp, Or.inr (hdec _)⟩
    · exact ⟨by simp, Or.inr fun c hc => valueChar_of_mem_signedDecimal hc⟩
    · exact ⟨by simp, Or.inl rfl⟩
  · rcases h with (rfl | rfl | rfl | rfl | rfl) | rfl
    · exact ⟨by simp, Or.inr (hdec _)⟩
    · exact ⟨by simp, Or.inr (hdec _)⟩
    · exact ⟨by simp, Or.inr (hdec _)⟩
    · exact ⟨by simp, Or.inr fun c hc => valueChar_of_mem_signedDecimal hc⟩
    · exact ⟨by simp, Or.inl rfl⟩
    · exact ⟨by simp, Or.inr fun c hc => valueChar_of_mem_plain hc⟩

theorem AddrIA.keys_attrs_nodup (ia : AddrIA) : (ia.attrs.map Prod.fst).Nodup := by
  unfold AddrIA.attrs
  rcases ia.unicast with _ | u <;> simp

/-- The search for `needle` passes over every attribute of an assignment but the one named
`key`, when it passes over their name parts, cannot hold a value character, and the interface
name does not hold it. -/
theorem AddrIA.skips_attrs {ia : AddrIA} (needle : String) {key : String}
    (hkeys : ∀ k ∈ ["T1", "T2", "IAID", "iface", "ifacename", "unicast"], k ≠ key →
      Skips needle.toList (attrKey k) = true)
    (hclass : ∃ c ∈ needle.toList, valueChar c = false) (hq : '"' ∉ needle.toList)
    (hname : key ≠ "ifacename" → findSub needle.toList ia.ifacename = none) :
    ∀ p ∈ ia.attrs, p.1 ≠ key → Skips needle.toList (attr p.1 p.2) = true := by
  intro p hp hpk
  obtain ⟨hkey, hval⟩ := AddrIA.key_mem_of_mem_attrs hp
  rcases hval with rfl | hval
  · exact skips_attr (hkeys _ hkey hpk) (hname (Ne.symm hpk)) hq
      (fun h => by obtain ⟨c, hc, -⟩ := hclass; rw [h] at hc; exact List.not_mem_nil c hc)
  · exact skips_attr_of_class (hkeys _ hkey hpk) hval hclass hq

variable {ia : AddrIA} {kind : AssignmentKind} {l : List (String × List Char)}

theorem skips_openLine_pre {needle : String}
    (h : needle ∈ ["T1", "T2", "IAID", "iface=", "ifacename", "unicast"]) :
    Skips needle.toList ("    <".toList ++ kind.tag.toList ++ [' ']) = true := by
  simp only [List.mem_cons, List.mem_singleton, List.not_mem_nil, or_false] at h
  rcases h with rfl | rfl | rfl | rfl | rfl | rfl <;> cases kind <;> decide

theorem atoiAfter_split {pre post : List Char} {l : List (String × List Char)}
    (l₁ l₂ : List (String × List Char)) {name k : String} {v : List Char} {skip : Nat}
    {dflt : BitVec 32} (hl : l = l₁ ++ (k, v) :: l₂)
    (hpre : Skips name.toList (pre ++ [' ']) = true)
    (hl₁ : ∀ p ∈ l₁, Skips name.toList (attr p.1 p.2) = true)
    (hk : findSub name.toList (attrKey k) = some 1) (hskip : skip + 1 = (attrKey k).length) :
    atoiAfter (pre ++ attrsText l ++ post) name skip dflt =
      .ok (atoiText (v ++ '"' :: (attrsText l₂ ++ post))) := by
  subst hl
  exact atoiAfter_line hpre hl₁ hk hskip

/-- In the order the writer prints them the numbers stand before the interface name, so they
decode whatever the name holds. -/
theorem readNumbers_attrs (ht1 : ia.t1.toNat < 2 ^ 63) (ht2 : ia.t2.toNat < 2 ^ 63)
    (hiaid : ia.iaid.toNat < 2 ^ 63) :
    readNumbers (kind.openLine ia.attrs) = .ok ⟨BitVec.ofNat 32 ia.t1.toNat,
      BitVec.ofNat 32 ia.t2.toNat, BitVec.ofNat 32 ia.iaid.toNat, ia.ifindex⟩ := by
  have hrest : ∀ rest : List Char, ∀ c ∈ ('"' :: rest).head?, c.isDigit = false := by simp
  have hnum : ∀ {needle k : String} {x : Nat}, Skips needle.toList (attrKey k) = true →
      (∃ c ∈ needle.toList, valueChar c = false) → '"' ∉ needle.toList →
      Skips needle.toList (attr k (decimal x)) = true :=
    fun hk hn hq => skips_attr_of_class hk (fun _ => valueChar_of_mem_decimal) hn hq
  obtain ⟨r₁, h₁⟩ : ∃ r, atoiAfter (kind.openLine ia.attrs) "T1" 4 0 =
      .ok (atoiText (decimal ia.t1.toNat ++ '"' :: r)) :=
    ⟨_, atoiAfter_split [] _ rfl (skips_openLine_pre (by simp)) (by simp) (by decide)
      (by decide)⟩
  obtain ⟨r₂, h₂⟩ : ∃ r, atoiAfter (kind.openLine ia.attrs) "T2" 4 0 =
      .ok (atoiText (decimal ia.t2.toNat ++ '"' :: r)) :=
    ⟨_, atoiAfter_split [("T1", _)] _ rfl (skips_openLine_pre (by simp))
      (by simpa using hnum (by decide) (by decide) (by decide)) (by decide) (by decide)⟩
  obtain ⟨r₃, h₃⟩ : ∃ r, atoiAfter (kind.openLine ia.attrs) "IAID" 6 0 =
      .ok (atoiText (decimal ia.iaid.toNat ++ '"' :: r)) :=
    ⟨_, atoiAfter_split [("T1", _), ("T2", _)] _ rfl (skips_openLine_pre (by simp))
      (by simpa using ⟨hnum (by decide) (by decide) (by decide),
        hnum (by decide) (by decide) (by decide)⟩) (by decide) (by decide)⟩
  obtain ⟨r₄, h₄⟩ : ∃ r, atoiAfter (kind.openLine ia.attrs) "iface=" 7 0 =
      .ok (atoiText (signedDecimal ia.ifindex ++ '"' :: r)) :=
    ⟨_, atoiAfter_split [("T1", _), ("T2", _), ("IAID", _)] _ rfl (skips_openLine_pre (by simp))
      (by simpa using ⟨hnum (by decide) (by decide) (by decide),
        hnum (by decide) (by decide) (by decide), hnum (by decide) (by decide) (by decide)⟩)
      (by decide) (by decide)⟩
  simp only [readNumbers, h₁, h₂, h₃, h₄, ok_bind, atoiText_decimal_append ht1 (hrest _),
    atoiText_decimal_append ht2 (hrest _), atoiText_decimal_append hiaid (hrest _),
    atoiText_signedDecimal_append (hrest _)]
  rfl

theorem readIfacename_perm (hl : l.Perm ia.attrs) (hq : '"' ∉ ia.ifacename) :
    readIfacename (kind.openLine l) = .ok ia.ifacename := by
  obtain ⟨l₁, l₂, rfl, hl₁⟩ := exists_split_of_perm hl ia.keys_attrs_nodup
    (show ("ifacename", ia.ifacename) ∈ ia.attrs by simp [AddrIA.attrs])
    (AddrIA.skips_attrs "ifacename" (by decide) (by decide) (by decide) (fun h => absurd rfl h))
  exact readIfacename_line (skips_openLine_pre (by simp)) hl₁ hq

theorem AddrIA.key_ne_unicast {p : String × List Char} (hu : ia.unicast = none)
    (h : p ∈ ia.attrs) : p.1 ≠ "unicast" := by
  simp only [AddrIA.attrs, hu, Option.map_none', Option.toList_none, List.append_nil,
    List.mem_cons, List.mem_singleton, List.not_mem_nil, or_false] at h
  rcases h with rfl | rfl | rfl | rfl | rfl <;> simp

theorem readUnicast_perm {env : LoadEnv} {u : IPv6Addr} {old : Option IPv6Addr}
    (hl : l.Perm ia.attrs) (hu : ia.unicast = some u)
    (hname : findSub "unicast".toList ia.ifacename = none) :
    readUnicast env (kind.openLine l) old = .ok (some u) := by
  obtain ⟨l₁, l₂, rfl, hl₁⟩ := exists_split_of_perm hl ia.keys_attrs_nodup
    (show ("unicast", u.plain) ∈ ia.attrs by simp [AddrIA.attrs, hu])
    (AddrIA.skips_attrs "unicast" (by decide) (by decide) (by decide) (fun _ => hname))
  exact readUnicast_line (skips_openLine_pre (by simp)) hl₁

theorem findSub_unicast_eq_none (hl : l.Perm ia.attrs) (hu : ia.unicast = none)
    (hname : findSub "unicast".toList ia.ifacename = none) :
    findSub "unicast".toList (kind.openLine l) = none :=
  findSub_line_eq_none (by decide) (by cases kind <;> decide)
    (fun p hp => AddrIA.skips_attrs "unicast" (by decide) (by decide) (by decide)
      (fun _ => hname) p (hl.subset hp) (AddrIA.key_ne_unicast hu (hl.subset hp)))
    (by decide)

end AssignmentLine

section LeaseLine

theorem contains_append_append {needle : String} {pre x y : List Char} {k : Nat}
    (h : findSub needle.toList pre = some k) : contains (pre ++ x ++ y) needle = true := by
  rw [contains, findSub_append_of_some (findSub_append_of_some h)]
  rfl

variable {a : AddrAddr} {kind : AssignmentKind} {l : List (String × List Char)}

theorem AddrAddr.key_mem_of_mem_attrs {p : String × List Char} (h : p ∈ a.attrs kind) :
    p.1 ∈ ["timestamp", "pref", "valid", "prefix", "length"] ∧
      ∀ c ∈ p.2, valueChar c = true := by
  simp only [AddrAddr.attrs, List.mem_cons, List.mem_singleton, List.not_mem_nil,
    or_false] at h
  rcases h with rfl | rfl | rfl | rfl
  · exact ⟨by simp, fun c hc => valueChar_of_mem_decimal hc⟩
  · exact ⟨by simp, fun c hc => valueChar_of_mem_decimal hc⟩
  · exact ⟨by simp, fun c hc => valueChar_of_mem_decimal hc⟩
  · exact ⟨by cases kind <;> simp [AssignmentKind.lengthName],
      fun c hc => valueChar_of_mem_signedDecimal hc⟩

theorem AddrAddr.keys_attrs_nodup (a : AddrAddr) (kind : AssignmentKind) :
    ((a.attrs kind).map Prod.fst).Nodup := by
  cases kind <;> simp [AddrAddr.attrs, AssignmentKind.lengthName]

theorem AddrAddr.skips_attrs (needle key : String)
    (hkeys : ∀ k ∈ ["timestamp", "pref", "valid", "prefix", "length"], k ≠ key →
      Skips needle.toList (attrKey k) = true)
    (hclass : ∃ c ∈ needle.toList, valueChar c = false) (hq : '"' ∉ needle.toList) :
    ∀ p ∈ a.attrs kind, p.1 ≠ key → Skips needle.toList (attr p.1 p.2) = true := by
  intro p hp hpk
  obtain ⟨hkey, hval⟩ := AddrAddr.key_mem_of_mem_attrs hp
  exact skips_attr_of_class (hkeys _ hkey hpk) hval hclass hq

theorem skips_leaseLine_pre {needle : String}
    (h : needle ∈ ["timestamp", "pref=", "valid", "prefix=", "length="]) :
    Skips needle.toList ("      <".toList ++ kind.leaseTag.toList ++ [' ']) = true := by
  simp only [List.mem_cons, List.mem_singleton, List.not_mem_nil, or_false] at h
  rcases h with rfl | rfl | rfl | rfl | rfl <;> cases kind <;> decide

theorem findSub_gt_leaseLine (hl : l.Perm (a.attrs kind)) (rest : List Char) :
    findSub ">".toList ("      <".toList ++ kind.leaseTag.toList ++ attrsText l ++ '>' :: rest) =
      some ("      <".toList ++ kind.leaseTag.toList ++ attrsText l).length := by
  have hpre : Skips ">".toList ("      <".toList ++ kind.leaseTag.toList) = true := by
    cases kind <;> decide
  have hattrs : Skips ">".toList (attrsText l) = true := skips_attrsText fun p hp =>
    AddrAddr.skips_attrs ">" "" (by decide) (by decide) (by decide) p (hl.subset hp)
      (fun h => by have := (AddrAddr.key_mem_of_mem_attrs (hl.subset hp)).1; rw [h] at this;
                   simp at this)
  rw [findSub_append_of_skips (skips_append hpre hattrs)]
  simp [findSub]

/-- A lease line decodes in every order of its attributes: `parseAddrAddr` and
`parseAddrPrefix` read the written numbers modulo `2^32`, the length and the address, and cut
the line after the address. -/
theorem parseLease_perm (hl : l.Perm (a.attrs kind)) {prefixKind : Bool} {dflt : BitVec 32}
    {widen : BitVec 32 → UInt64} {toAddr : List Char → IPv6Addr}
    (ha : toAddr a.addr.plain = a.addr) (hts : a.timestamp.toNat < 2 ^ 63)
    (hpref : a.pref.toNat < 2 ^ 63) (hvalid : a.valid.toNat < 2 ^ 63) :
    parseLease prefixKind dflt widen toAddr (kind.leaseLine l a.addr) (decide (kind = .pd)) =
      .ok ((if BitVec.ofNat 32 a.timestamp.toNat ≠ 0 ∧ BitVec.ofNat 32 a.pref.toNat ≠ 0 ∧
          BitVec.ofNat 32 a.valid.toNat ≠ 0 ∧ decide (kind = .pd) = prefixKind
        then some ⟨a.addr, widen (BitVec.ofNat 32 a.pref.toNat),
          widen (BitVec.ofNat 32 a.valid.toNat), a.length,
          widen (BitVec.ofNat 32 a.timestamp.toNat)⟩
        else none),
        "      <".toList ++ kind.leaseTag.toList ++ attrsText l ++ '>' :: a.addr.plain) := by
  have hrest : ∀ rest : List Char, ∀ c ∈ ('"' :: rest).head?, c.isDigit = false := by simp
  have htag : (contains (kind.leaseLine l a.addr) "<AddrAddr" ||
      contains (kind.leaseLine l a.addr) "<AddrPrefix") = true := by
    rw [AssignmentKind.leaseLine, Bool.or_eq_true]
    cases kind
    · exact Or.inl (contains_append_append (by decide : findSub "<AddrAddr".toList
        ("      <".toList ++ AssignmentKind.ia.leaseTag.toList) = some 6))
    · exact Or.inl (contains_append_append (by decide : findSub "<AddrAddr".toList
        ("      <".toList ++ AssignmentKind.ta.leaseTag.toList) = some 6))
    · exact Or.inr (contains_append_append (by decide : findSub "<AddrPrefix".toList
        ("      <".toList ++ AssignmentKind.pd.leaseTag.toList) = some 6))
  obtain ⟨r₁, h₁⟩ : ∃ rest, atoiAfter (kind.leaseLine l a.addr) "timestamp" 11 0 =
      .ok (atoiText (decimal a.timestamp.toNat ++ '"' :: rest)) :=
    atoiAfter_perm "timestamp" _ hl (AddrAddr.keys_attrs_nodup a kind)
      (by simp [AddrAddr.attrs]) (AddrAddr.skips_attrs "timestamp" "timestamp" (by decide)
        (by decide) (by decide)) (skips_leaseLine_pre (by simp)) (by decide) (by decide)
  obtain ⟨r₂, h₂⟩ : ∃ rest, atoiAfter (kind.leaseLine l a.addr) "pref=" 6 0 =
      .ok (atoiText (decimal a.pref.toNat ++ '"' :: rest)) :=
    atoiAfter_perm "pref" _ hl (AddrAddr.keys_attrs_nodup a kind)
      (by simp [AddrAddr.attrs]) (AddrAddr.skips_attrs "pref=" "pref" (by decide)
        (by decide) (by decide)) (skips_leaseLine_pre (by simp)) (by decide) (by decide)
  obtain ⟨r₃, h₃⟩ : ∃ rest, atoiAfter (kind.leaseLine l a.addr) "valid" 7 0 =
      .ok (atoiText (decimal a.valid.toNat ++ '"' :: rest)) :=
    atoiAfter_perm "valid" _ hl (AddrAddr.keys_attrs_nodup a kind)
      (by simp [AddrAddr.attrs]) (AddrAddr.skips_attrs "valid" "valid" (by decide)
        (by decide) (by decide)) (skips_leaseLine_pre (by simp)) (by decide) (by decide)
  obtain ⟨r₄, h₄⟩ : ∃ rest, atoiAfter (kind.leaseLine l a.addr)
      (if decide (kind = .pd) then "length=" else "prefix=") 8 dflt =
      .ok (atoiText (signedDecimal a.length ++ '"' :: rest)) := by
    cases kind
    · exact atoiAfter_perm "prefix" _ hl (AddrAddr.keys_attrs_nodup a _)
        (by simp [AddrAddr.attrs, AssignmentKind.lengthName])
        (AddrAddr.skips_attrs "prefix=" "prefix" (by decide) (by decide) (by decide))
        (skips_leaseLine_pre (by simp)) (by decide) (by decide)
    · exact atoiAfter_perm "prefix" _ hl (AddrAddr.keys_attrs_nodup a _)
        (by simp [AddrAddr.attrs, AssignmentKind.lengthName])
        (AddrAddr.skips_attrs "prefix=" "prefix" (by decide) (by decide) (by decide))
        (skips_leaseLine_pre (by simp)) (by decide) (by decide)
    · exact atoiAfter_perm "length" _ hl (AddrAddr.keys_attrs_nodup a _)
        (by simp [AddrAddr.attrs, AssignmentKind.lengthName])
        (AddrAddr.skips_attrs "length=" "length" (by decide) (by decide) (by decide))
        (skips_leaseLine_pre (by simp)) (by decide) (by decide)
  have hgt : findSub ">".toList (kind.leaseLine l a.addr) =
      some ("      <".toList ++ kind.leaseTag.toList ++ attrsText l).length :=
    findSub_gt_leaseLine hl _
  have hclose : strstr (kind.leaseLine l a.addr)
      (.ofs ("      <".toList ++ kind.leaseTag.toList ++ attrsText l).length)
      (if decide (kind = .pd) then "</AddrPrefix>" else "</AddrAddr>") =
      .ok (.ofs (("      <".toList ++ kind.leaseTag.toList ++ attrsText l).length +
        (a.addr.plain.length + 1))) := by
    have hneedle : (if decide (kind = .pd) then "</AddrPrefix>" else "</AddrAddr>").toList =
        '<' :: ('/' :: kind.leaseTag.toList ++ ['>']) := by cases kind <;> rfl
    have hplain : ∀ c ∈ '>' :: a.addr.plain, c ≠ '<' := by
      intro c hc
      rcases List.mem_cons.mp hc with rfl | hc
      · decide
      · exact fun e => absurd (mem_plain hc) (by rw [e]; decide)
    rw [strstr_ofs (by simp [AssignmentKind.leaseLine]), AssignmentKind.leaseLine, List.drop_left,
      hneedle, show '>' :: (a.addr.plain ++ '<' :: '/' :: kind.leaseTag.toList ++ ['>', '\n']) =
        ('>' :: a.addr.plain) ++ ('<' :: ('/' :: kind.leaseTag.toList ++ ['>']) ++ ['\n']) by simp,
      findSub_append_of_skips (skips_of_forall_ne hplain), findSub_self_append]
    simp

  rw [parseLease, if_pos htag]
  simp only [h₁, h₂, h₃, h₄, ok_bind, atoiText_decimal_append hts (hrest _),
    atoiText_decimal_append hpref (hrest _), atoiText_decimal_append hvalid (hrest _),
    atoiText_signedDecimal_append (hrest _), hgt, hclose]
  have hcut : cut (kind.leaseLine l a.addr)
      (.ofs (("      <".toList ++ kind.leaseTag.toList ++ attrsText l).length +
        ((a.addr.plain.length : Int) + 1))) =
      .ok ("      <".toList ++ kind.leaseTag.toList ++ attrsText l ++ '>' :: a.addr.plain) := by
    rw [show (("      <".toList ++ kind.leaseTag.toList ++ attrsText l).length : Int) +
        ((a.addr.plain.length : Int) + 1) =
        (("      <".toList ++ kind.leaseTag.toList ++ attrsText l).length +
          (a.addr.plain.length + 1) : Nat) by push_cast; rfl,
      cut_ofs (by simp [AssignmentKind.leaseLine]; omega), AssignmentKind.leaseLine,
      List.take_append, List.take_succ_cons]
    simp
  have hfind : find ("      <".toList ++ kind.leaseTag.toList ++ attrsText l ++ '>' :: a.addr.plain)
      ">" = .ofs ("      <".toList ++ kind.leaseTag.toList ++ attrsText l).length := by
    rw [find, findSub_gt_leaseLine hl]
  have hcs : cstring ("      <".toList ++ kind.leaseTag.toList ++ attrsText l ++ '>' :: a.addr.plain)
      (Ptr.add (.ofs ("      <".toList ++ kind.leaseTag.toList ++ attrsText l).length) 1) =
      .ok a.addr.plain := by
    rw [Ptr.add, show (("      <".toList ++ kind.leaseTag.toList ++ attrsText l).length : Int) + 1 =
        (("      <".toList ++ kind.leaseTag.toList ++ attrsText l).length + 1 : Nat) by push_cast; rfl,
      cstring_ofs (by simp; omega), List.drop_append, List.drop_one, List.tail_cons]
  simp only [Ptr.isNull, Bool.false_eq_true, if_false, hcut, ok_bind, hfind, hcs, ha,
    Option.bind_some]
  rfl

end LeaseLine

section Widening

theorem u32ToULong_ofNat {x : Nat} (h : x < 2 ^ 32) :
    u32ToULong (BitVec.ofNat 32 x) = UInt64.ofNat x := by
  rw [u32ToULong, BitVec.toNat_ofNat, Nat.mod_eq_of_lt h]

theorem intToULong_ofNat {x : Nat} (h : x < 2 ^ 31) :
    intToULong (BitVec.ofNat 32 x) = UInt64.ofNat x := by
  have hx : (BitVec.ofNat 32 x).toNat = x := by
    rw [BitVec.toNat_ofNat, Nat.mod_eq_of_lt (by omega)]
  have hmsb : (BitVec.ofNat 32 x).msb = false := by
    rw [BitVec.msb_eq_decide, hx]
    exact decide_eq_false (by omega)
  rw [intToULong, BitVec.signExtend_eq_not_setWidth_not_of_msb_false hmsb, BitVec.toNat_setWidth,
    hx, Nat.mod_eq_of_lt (by omega)]

@[simp] theorem ofNat_toNat_uint64 (v : UInt64) : UInt64.ofNat v.toNat = v :=
  UInt64.toNat.inj (UInt64.toNat_ofNat_of_lt v.val.isLt)

theorem ofNat_ne_zero_iff {v : UInt64} (h : v.toNat < 2 ^ 32) :
    BitVec.ofNat 32 v.toNat ≠ 0 ↔ v ≠ 0 := by
  refine not_congr ⟨fun e => UInt64.toNat.inj ?_, fun e => by rw [e]; rfl⟩
  have := congrArg BitVec.toNat e
  rwa [BitVec.toNat_ofNat, Nat.mod_eq_of_lt h] at this

variable {a : AddrAddr} {l : List (String × List Char)}

theorem parseAddrAddr_perm (env : LoadEnv) (hl : l.Perm (a.attrs .ia))
    (hts : a.timestamp.toNat < 2 ^ 32) (hpref : a.pref.toNat < 2 ^ 32)
    (hvalid : a.valid.toNat < 2 ^ 32) :
    parseAddrAddr env (AssignmentKind.ia.leaseLine l a.addr) false =
      .ok (if a.timestamp ≠ 0 ∧ a.pref ≠ 0 ∧ a.valid ≠ 0 then some a else none,
        "      <AddrAddr".toList ++ attrsText l ++ '>' :: a.addr.plain) := by
  rw [parseAddrAddr, show false = decide (AssignmentKind.ia = .pd) from rfl,
    parseLease_perm hl (env.addrOfText_plain _) (by omega) (by omega) (by omega)]
  simp only [u32ToULong_ofNat, hts, hpref, hvalid, ofNat_toNat_uint64, ofNat_ne_zero_iff,
    and_true]
  rfl

/-- An `<AddrPrefix>` line decodes to its lease when the timestamp and lifetimes are below
`2^31`, the `int` that `atoi` returns being sign-extended into an `unsigned long`. -/
theorem parseAddrPrefix_perm (env : LoadEnv) (hl : l.Perm (a.attrs .pd))
    (hts : a.timestamp.toNat < 2 ^ 31) (hpref : a.pref.toNat < 2 ^ 31)
    (hvalid : a.valid.toNat < 2 ^ 31) :
    parseAddrPrefix env (AssignmentKind.pd.leaseLine l a.addr) true =
      .ok (if a.timestamp ≠ 0 ∧ a.pref ≠ 0 ∧ a.valid ≠ 0 then some a else none,
        "      <AddrPrefix".toList ++ attrsText l ++ '>' :: a.addr.plain) := by
  rw [parseAddrPrefix, show true = decide (AssignmentKind.pd = .pd) from rfl,
    parseLease_perm hl (env.addrOfText_plain _) (by omega) (by omega) (by omega)]
  simp only [intToULong_ofNat, hts, hpref, hvalid, ofNat_toNat_uint64,
    ofNat_ne_zero_iff (show a.timestamp.toNat < 2 ^ 32 by omega),
    ofNat_ne_zero_iff (show a.pref.toNat < 2 ^ 32 by omega),
    ofNat_ne_zero_iff (show a.valid.toNat < 2 ^ 32 by omega), and_true]
  rfl

end Widening

end Dibbler
