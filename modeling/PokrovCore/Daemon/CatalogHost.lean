import PokrovCore.SmartAccess.DomainScope

/-!
# Daemon/CatalogHost — the hosts of a catalog, and the names of a scope

A catalog is verified with one check of its hosts, `localDpiCatalogHost`; a scope folds its names and
checks them with another, `normalizeDomain`.  Both come down to `HostName`, the first on ASCII only:
so the names a scope takes as they are are the hosts of a catalog, up to the project's own zone
(`normalizeDomain_unchanged_iff`).
-/

namespace PokrovCore.Daemon

open SmartAccess (CaseTable HostName isLabelEdge isAddress domainLabelPattern ownDomain
  normalizeDomain foldName trimDot)
open Utf8 (decode encode)

/-- A character the loop over a label goes on at. -/
def isHostChar (c : Char) : Bool :=
  !((decide (c < 'a') || decide ('z' < c)) && (decide (c < '0') || decide ('9' < c)) && c != '-')

/-- The check of one label. -/
def isHostLabel (label : List UInt8) : Bool :=
  if label.length = 0 ∨ 63 < label.length ∨ label.head? = some 0x2D ∨ label.getLast? = some 0x2D then
    false
  else (decode label).all isHostChar

/-- **The check of a catalog's host.** -/
def localDpiCatalogHost (host : List UInt8) : Bool :=
  if host.length < 3 ∨ 253 < host.length ∨ 0x2E ∉ host then false
  else if isAddress (decode host) then false
  else (host.splitOn 0x2E).all isHostLabel

variable {value label : List UInt8}

/-! ## Labels -/

section labels

variable {α : Type} [BEq α] {d : α} {l : List α}

theorem mem_of_mem_splitOn {x : α} {part : List α} (h : part ∈ l.splitOn d) (hx : x ∈ part) :
    x ∈ l := by
  induction l generalizing part with
  | nil =>
    obtain rfl := List.mem_singleton.mp h
    cases hx
  | cons y l ih =>
    rw [List.splitOn_cons_eq_if_modifyHead] at h
    split_ifs at h
    · rcases List.mem_cons.mp h with rfl | h
      · cases hx
      · exact List.mem_cons_of_mem y (ih h hx)
    · cases hsplit : l.splitOn d with
      | nil => exact absurd hsplit (List.splitOn_ne_nil d l)
      | cons p rest =>
        rw [hsplit, List.modifyHead_cons] at h
        rcases List.mem_cons.mp h with rfl | h
        · rcases List.mem_cons.mp hx with rfl | hx
          · exact List.mem_cons_self
          · exact List.mem_cons_of_mem y (ih (hsplit ▸ List.mem_cons_self) hx)
        · exact List.mem_cons_of_mem y (ih (hsplit ▸ List.mem_cons_of_mem p h) hx)

variable [LawfulBEq α]

/-- A dot between labels has something before it and something behind it. -/
theorem three_le_of_labels (hne : ∀ part ∈ l.splitOn d, part ≠ []) (hd : d ∈ l) :
    3 ≤ l.length := by
  obtain ⟨p, s, rfl⟩ := List.append_of_mem hd
  rw [List.splitOn_append_cons_self] at hne
  have hside : ∀ q : List α, (∀ part ∈ q.splitOn d, part ≠ []) → 1 ≤ q.length := fun q hq => by
    cases q with
    | nil => exact absurd rfl (hq [] List.mem_cons_self)
    | cons x q => exact Nat.succ_le_succ (Nat.zero_le _)
  have hp := hside p fun part h => hne part (List.mem_append_left _ h)
  have hs := hside s fun part h => hne part (List.mem_append_right _ h)
  rw [List.length_append, List.length_cons]
  omega

theorem two_le_splitOn_iff : 2 ≤ (l.splitOn d).length ↔ d ∈ l := by
  constructor
  · intro h
    by_contra hd
    rw [List.splitOn_eq_singleton hd, List.length_singleton] at h
    exact absurd h (by decide)
  · intro hd
    obtain ⟨p, s, rfl⟩ := List.append_of_mem hd
    have hp := List.length_pos_iff.mpr (List.splitOn_ne_nil d p)
    have hs := List.length_pos_iff.mpr (List.splitOn_ne_nil d s)
    rw [List.splitOn_append_cons_self, List.length_append]
    omega

end labels

/-! ## ASCII -/

theorem isHostChar_iff (c : Char) : isHostChar c = true ↔ isLabelEdge c = true ∨ c = '-' := by
  simp only [isHostChar, isLabelEdge, Bool.not_eq_true', Bool.and_eq_false_iff, Bool.or_eq_false_iff,
    decide_eq_false_iff_not, Char.not_lt, bne_eq_false_iff_eq, Bool.or_eq_true, decide_eq_true_eq]

theorem ascii_of_isHostChar {c : Char} (h : isHostChar c = true) : c.toNat < 0x80 := by
  rcases (isHostChar_iff c).mp h with hedge | rfl
  · exact SmartAccess.isLabelEdge_ascii hedge
  · decide

theorem all_of_isHostLabel (h : isHostLabel label = true) :
    ∀ c ∈ decode label, isHostChar c = true := by
  unfold isHostLabel at h
  split_ifs at h
  exact List.all_eq_true.mp h

theorem ne_nil_of_isHostLabel (h : isHostLabel label = true) : label ≠ [] := by
  rintro rfl
  cases h

/-- A byte of a host, its dots apart, is one of a label. -/
theorem mem_host (h : localDpiCatalogHost value = true) {b : UInt8} (hb : b ∈ value) :
    b = 0x2E ∨ ∃ part, isHostLabel part = true ∧ b ∈ part := by
  unfold localDpiCatalogHost at h
  split_ifs at h
  exact (SmartAccess.mem_splitOn hb).imp_right fun ⟨part, hpart, hb⟩ =>
    ⟨part, List.all_eq_true.mp h part hpart, hb⟩

theorem ascii_of_localDpiCatalogHost (h : localDpiCatalogHost value = true) :
    ∀ b ∈ value, b.toNat < 0x80 := fun b hb => by
  rcases mem_host h hb with rfl | ⟨part, hpart, hb⟩
  · decide
  · exact Utf8.decode_ascii_iff.mp
      (fun c hc => ascii_of_isHostChar (all_of_isHostLabel hpart c hc)) b hb

/-! ## Both checks on ASCII -/

/-- An ASCII byte is a character's code exactly when it reads as that character. -/
theorem ofNat_eq_iff {b n : UInt8} (hb : b.toNat < 0x80) (hn : n.toNat < 0x80) :
    Char.ofNat b.toNat = Char.ofNat n.toNat ↔ b = n := by
  refine ⟨fun h => UInt8.toNat_inj.mp ?_, fun h => by rw [h]⟩
  have hcode := congrArg Char.toNat h
  rwa [Utf8.toNat_ofNat (by left; omega), Utf8.toNat_ofNat (by left; omega)] at hcode

/-- Labels are cut out of bytes as they are out of characters. -/
theorem splitOn_decode (h : ∀ b ∈ value, b.toNat < 0x80) :
    (decode value).splitOn '.' = (value.splitOn 0x2E).map decode := by
  induction value with
  | nil => rfl
  | cons b l ih =>
    obtain ⟨hb, hl⟩ := List.forall_mem_cons.mp h
    have hdecode : decode (b :: l) = Char.ofNat b.toNat :: decode l := by
      rw [Utf8.decode_of_ascii h, Utf8.decode_of_ascii hl, List.map_cons]
    have hdot : (Char.ofNat b.toNat == '.') = (b == 0x2E) := by
      rw [Bool.eq_iff_iff, beq_iff_eq, beq_iff_eq]
      exact ofNat_eq_iff hb (by decide : (0x2E : UInt8).toNat < 0x80)
    rw [hdecode, List.splitOn_cons_eq_if_modifyHead, List.splitOn_cons_eq_if_modifyHead, hdot, ih hl]
    split_ifs
    · rfl
    · cases hsplit : l.splitOn 0x2E with
      | nil => rfl
      | cons part rest =>
        have hpart : ∀ c ∈ b :: part, c.toNat < 0x80 := List.forall_mem_cons.mpr
          ⟨hb, fun c hc => hl c (mem_of_mem_splitOn (hsplit ▸ List.mem_cons_self) hc)⟩
        rw [List.map_cons, List.modifyHead_cons, List.modifyHead_cons, List.map_cons,
          Utf8.decode_of_ascii hpart, Utf8.decode_of_ascii (List.forall_mem_cons.mp hpart).2,
          List.map_cons]

theorem isHostLabel_eq (h : ∀ b ∈ label, b.toNat < 0x80) :
    isHostLabel label = domainLabelPattern (decode label) := by
  have hhyphen : ∀ o : Option UInt8, (∀ b ∈ o, b.toNat < 0x80) →
      (o.map (fun b => Char.ofNat b.toNat) = some '-' ↔ o = some 0x2D) := fun o ho => by
    cases o with
    | none => exact iff_of_false (Option.some_ne_none _).symm (Option.some_ne_none _).symm
    | some b =>
      rw [Option.map_some, Option.some.injEq, Option.some.injEq]
      exact ofNat_eq_iff (ho b rfl) (by decide : (0x2D : UInt8).toNat < 0x80)
  rw [Bool.eq_iff_iff, SmartAccess.domainLabelPattern_iff]
  simp only [← isHostChar_iff, ← List.all_eq_true]
  unfold isHostLabel
  rw [Utf8.decode_of_ascii h, List.head?_map, List.getLast?_map, List.length_map, ne_eq,
    List.map_eq_nil_iff, ne_eq, hhyphen _ fun b hb => h b (List.mem_of_mem_head? hb), ne_eq,
    hhyphen _ fun b hb => h b (List.mem_of_mem_getLast? hb)]
  split_ifs with hbad
  · refine iff_of_false id fun ⟨hne, hlen, hhead, hlast, _⟩ => ?_
    rcases hbad with hnil | hlong | hbad | hbad
    · exact hne (List.length_eq_zero_iff.mp hnil)
    · omega
    · exact hhead hbad
    · exact hlast hbad
  · push Not at hbad
    exact ⟨fun h => ⟨fun hnil => hbad.1 (List.length_eq_zero_iff.mpr hnil), hbad.2.1, hbad.2.2.1,
      hbad.2.2.2, h⟩, fun h => h.2.2.2.2⟩

theorem byteLength_eq (cs : List Char) : Json.byteLength cs = (encode cs).length := by
  simp only [Json.byteLength, encode, List.length_flatMap, String.length_utf8EncodeChar]

/-- **On ASCII, the catalog's check is that of a host name.** -/
theorem localDpiCatalogHost_iff (h : ∀ b ∈ value, b.toNat < 0x80) :
    localDpiCatalogHost value = true ↔ HostName (decode value) := by
  have hlabel : ∀ part ∈ value.splitOn 0x2E, isHostLabel part = domainLabelPattern (decode part) :=
    fun part hpart => isHostLabel_eq fun b hb => h b (mem_of_mem_splitOn hpart hb)
  have hlength : Json.byteLength (decode value) = value.length := by
    rw [byteLength_eq, Utf8.encode_decode h]
  unfold localDpiCatalogHost
  constructor
  · intro hhost
    split_ifs at hhost with hbad haddress
    push Not at hbad
    refine ⟨hlength.trans_le hbad.2.1, Bool.not_eq_true _ ▸ haddress, ?_, ?_⟩
    · rw [splitOn_decode h, List.length_map]
      exact two_le_splitOn_iff.mpr hbad.2.2
    · rw [splitOn_decode h, List.forall_mem_map]
      exact fun part hpart => hlabel part hpart ▸ List.all_eq_true.mp hhost part hpart
  · rintro ⟨hlen, haddress, htwo, hall⟩
    rw [splitOn_decode h] at htwo hall
    rw [List.length_map, two_le_splitOn_iff] at htwo
    have hlabels : ∀ part ∈ value.splitOn 0x2E, isHostLabel part = true := fun part hpart =>
      (hlabel part hpart).trans (hall _ (List.mem_map_of_mem hpart))
    have hthree := three_le_of_labels (fun part hpart => ne_nil_of_isHostLabel (hlabels part hpart))
      htwo
    rw [if_neg, if_neg (Bool.not_eq_true _ ▸ haddress), List.all_eq_true]
    · exact hlabels
    · rw [hlength] at hlen
      rintro (hshort | hlong | hdot)
      · omega
      · omega
      · exact hdot htwo

/-! ## Names that are their own fold -/

theorem foldName_of_host (t : CaseTable) (h : localDpiCatalogHost value = true) :
    foldName t value = decode value := by
  have hascii := ascii_of_localDpiCatalogHost h
  have hlower : ∀ n < 0x80, isHostChar (Char.ofNat n) = true → ¬ (65 ≤ n ∧ n ≤ 90) := by
    decide +kernel
  have htrim : trimDot value = value := if_neg fun hdot => by
    obtain ⟨p, rfl⟩ := List.getLast?_eq_some_iff.mp hdot
    unfold localDpiCatalogHost at h
    split_ifs at h
    rw [List.splitOn_append_cons_self, List.all_append, Bool.and_eq_true] at h
    exact absurd h.2 (by decide)
  rw [foldName, htrim, SmartAccess.map_lower_decode t hascii]
  refine congrArg decode ((List.map_congr_left fun b hb => ?_).trans (List.map_id value))
  rcases mem_host h hb with rfl | ⟨part, hpart, hb⟩
  · rfl
  · have hpart' : ∀ c ∈ part, c.toNat < 0x80 := Utf8.decode_ascii_iff.mp fun c hc =>
      ascii_of_isHostChar (all_of_isHostLabel hpart c hc)
    refine if_neg (hlower _ (hpart' b hb) (all_of_isHostLabel hpart _ ?_))
    rw [Utf8.decode_of_ascii hpart']
    exact List.mem_map_of_mem hb

theorem suffix_encode_iff {s cs : List Char} (hs : ∀ c ∈ s, c.toNat < 0x80)
    (hcs : ∀ c ∈ cs, c.toNat < 0x80) : encode s <:+ encode cs ↔ s <:+ cs := by
  constructor
  · rintro ⟨q, hq⟩
    refine ⟨decode q, ?_⟩
    rw [← Utf8.decode_encode hcs, ← hq, Utf8.decode_append q (Utf8.encode_ascii hs),
      Utf8.decode_encode hs]
  · rintro ⟨p, rfl⟩
    exact ⟨encode p, List.flatMap_append.symm⟩

/-- **A scope takes a name as it is exactly when a catalog accepts it as a host** and it is not one of
the project's own zone. -/
theorem normalizeDomain_unchanged_iff (t : CaseTable) (value : List UInt8) :
    (normalizeDomain t value).map (fun name => encode name.toList) = some value ↔
      localDpiCatalogHost value = true ∧ value ≠ encode ownDomain ∧
        ¬ encode ('.' :: ownDomain) <:+ value := by
  have hown := SmartAccess.ownDomain_ascii
  -- on ASCII, both conditions on the own zone are about the characters
  have hzone : ∀ {cs : List Char}, (∀ c ∈ cs, c.toNat < 0x80) →
      (¬ (cs = ownDomain ∨ '.' :: ownDomain <:+ cs) ↔
        encode cs ≠ encode ownDomain ∧ ¬ encode ('.' :: ownDomain) <:+ encode cs) := fun hcs => by
    rw [suffix_encode_iff (SmartAccess.dot_cons_ascii hown) hcs, not_or, ne_eq]
    refine and_congr_left fun _ => not_congr ⟨congrArg encode, fun h => ?_⟩
    rw [← Utf8.decode_encode hcs, h, Utf8.decode_encode hown]
  constructor
  · intro h
    obtain ⟨name, hname, rfl⟩ := Option.map_eq_some_iff.mp h
    obtain ⟨hfold, hascii⟩ := SmartAccess.normalizeDomain_spec hname
    obtain ⟨_, hhost, hnot⟩ := SmartAccess.normalizeDomain_iff.mp hname
    rw [← hfold] at hhost hnot
    refine ⟨(localDpiCatalogHost_iff (Utf8.encode_ascii hascii)).mpr ?_, (hzone hascii).mp hnot⟩
    rwa [Utf8.decode_encode hascii]
  · rintro ⟨hhost, hnot⟩
    have hascii := ascii_of_localDpiCatalogHost hhost
    have hfold := foldName_of_host t hhost
    have hname : normalizeDomain t value = some (String.ofList (decode value)) := by
      rw [SmartAccess.normalizeDomain_iff, hfold, String.toList_ofList]
      refine ⟨rfl, (localDpiCatalogHost_iff hascii).mp hhost, ?_⟩
      rwa [hzone (Utf8.decode_ascii_iff.mpr hascii), Utf8.encode_decode hascii]
    rw [hname, Option.map_some, String.toList_ofList, Utf8.encode_decode hascii]

/-- **What a scope makes of a name, it takes as it is**, whatever the case table; and it is a host of a
catalog. -/
theorem normalizeDomain_idempotent {t : CaseTable} {name : String}
    (h : normalizeDomain t value = some name) :
    localDpiCatalogHost (encode name.toList) = true ∧
      ∀ u, normalizeDomain u (encode name.toList) = some name := by
  obtain ⟨hname, hascii⟩ := SmartAccess.normalizeDomain_spec h
  obtain ⟨-, hhost, hnot⟩ := SmartAccess.normalizeDomain_iff.mp h
  rw [← hname] at hhost hnot
  have hdecode := Utf8.decode_encode hascii
  have hcatalog : localDpiCatalogHost (encode name.toList) = true :=
    (localDpiCatalogHost_iff (Utf8.encode_ascii hascii)).mpr (hdecode.symm ▸ hhost)
  refine ⟨hcatalog, fun u => SmartAccess.normalizeDomain_iff.mpr ?_⟩
  rw [foldName_of_host u hcatalog, hdecode]
  exact ⟨rfl, hhost, hnot⟩

theorem normalizeDomain_idempotent_sample : localDpiCatalogHost (encode "a.b".toList) = true ∧
    ∀ u, normalizeDomain u (encode "a.b".toList) = some "a.b" :=
  normalizeDomain_idempotent
    (by decide +kernel : normalizeDomain ⟨id, fun _ h => h⟩ (encode "A.b.".toList) = some "a.b")

end PokrovCore.Daemon
