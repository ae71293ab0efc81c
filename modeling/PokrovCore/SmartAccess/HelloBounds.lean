import PokrovCore.Foundations.Slices
import PokrovCore.SmartAccess.ClientHello

/-!
# SmartAccess/HelloBounds — the parser, offset by offset

The source walks the message by offsets.  Here every index and every slice may be out of range, which
would be an outcome of its own; `parseIndexed_eq` says that there is none, and that walking by offsets
accepts what the formats accept.
-/

namespace PokrovCore.SmartAccess

open Wire Wire.Codec Slices

/-- How a reading of a message ends, if not with a name: an error of the source, with the words it
adds, or what must not happen. -/
inductive HelloFault
  | invalid (words : String)
  | echUnsupported
  | outOfRange
  | exhausted
  deriving DecidableEq, Repr

/-- The errors of the formats, as outcomes. -/
def HelloError.fault : HelloError → HelloFault
  | .invalid => .invalid ""
  | .echUnsupported => .echUnsupported

/-- `errInvalidClientHello` -/
abbrev invalidHello {α : Type} : Except HelloFault α := .error (.invalid "")

section Indexed

variable (t : CaseTable) (externalECHOuterSNI : Bool)

/-- The loop over the entries of a server name list. -/
def namesIndexed (extension : List UInt8) : ℕ → ℕ → String → Except HelloFault String
  | fuel, nameOffset, serverName =>
    if nameOffset < extension.length then
      match fuel with
      | 0 => .error .exhausted
      | fuel + 1 =>
        if extension.length < nameOffset + 3 then invalidHello
        else
          byteAt .outOfRange extension nameOffset fun nameType =>
          uint16At .outOfRange extension (nameOffset + 1) fun nameLength =>
            if nameLength = 0 ∨ extension.length < nameOffset + 3 + nameLength then invalidHello
            else if nameType = 0 then
              if serverName ≠ "" then invalidHello
              else
                sliceAt .outOfRange extension (nameOffset + 3) (nameOffset + 3 + nameLength)
                  fun name =>
                  match normalizeDomain t name with
                  | none => invalidHello
                  | some normalized =>
                    namesIndexed extension fuel (nameOffset + 3 + nameLength) normalized
            else namesIndexed extension fuel (nameOffset + 3 + nameLength) serverName
    else .ok serverName

/-- A server name extension: the length of the list, and the list. -/
def serverNamesIndexed (extension : List UInt8) (serverName : String) : Except HelloFault String :=
  uint16At .outOfRange extension 0 fun listLength =>
    if listLength ≠ extension.length - 2 then invalidHello
    else namesIndexed t extension extension.length 2 serverName

/-- The loop over the extensions. -/
def extensionsIndexed (body : List UInt8) (extensionsEnd : ℕ) :
    ℕ → ℕ → String → Except HelloFault String
  | fuel, offset, serverName =>
    if offset < extensionsEnd then
      match fuel with
      | 0 => .error .exhausted
      | fuel + 1 =>
        if extensionsEnd < offset + 4 then invalidHello
        else
          uint16At .outOfRange body offset fun extensionType =>
          uint16At .outOfRange body (offset + 2) fun extensionLength =>
            if extensionsEnd < offset + 4 + extensionLength then invalidHello
            else if extensionType = 0xfe0d ∧ externalECHOuterSNI = false then
              .error .echUnsupported
            else if extensionType = 0 then
              if serverName ≠ "" ∨ extensionLength < 5 then invalidHello
              else
                sliceAt .outOfRange body (offset + 4) (offset + 4 + extensionLength)
                  fun extension =>
                    (serverNamesIndexed t extension serverName).bind fun serverName =>
                      extensionsIndexed body extensionsEnd fuel (offset + 4 + extensionLength)
                        serverName
            else
              extensionsIndexed body extensionsEnd fuel (offset + 4 + extensionLength) serverName
    else .ok serverName

/-- The extensions: their length, and the loop. -/
def blockIndexed (body : List UInt8) (offset : ℕ) : Except HelloFault String :=
  uint16At .outOfRange body offset fun extensionsLength =>
    if offset + 2 + extensionsLength ≠ body.length then invalidHello
    else
      (extensionsIndexed t externalECHOuterSNI body (offset + 2 + extensionsLength)
          body.length (offset + 2) "").bind fun serverName =>
        if serverName = "" then invalidHello else .ok serverName

/-- The compression methods, and what follows them. -/
def compressionsIndexed (body : List UInt8) (offset : ℕ) : Except HelloFault String :=
  byteAt .outOfRange body offset fun compressionLength =>
    if compressionLength.toNat < 1 ∨
        body.length < offset + (1 + compressionLength.toNat) + 2 then invalidHello
    else blockIndexed t externalECHOuterSNI body (offset + (1 + compressionLength.toNat))

/-- The cipher suites, and what follows them. -/
def ciphersIndexed (body : List UInt8) (offset : ℕ) : Except HelloFault String :=
  uint16At .outOfRange body offset fun cipherLength =>
    if cipherLength < 2 ∨ cipherLength % 2 ≠ 0 ∨ body.length ≤ offset + (2 + cipherLength) then
      invalidHello
    else compressionsIndexed t externalECHOuterSNI body (offset + (2 + cipherLength))

/-- What follows the header of the message. -/
def bodyIndexed (body : List UInt8) : Except HelloFault String :=
  if body.length < 34 then invalidHello
  else if body.length ≤ 34 then invalidHello
  else
    byteAt .outOfRange body 34 fun sessionLength =>
      if body.length < 34 + (1 + sessionLength.toNat) + 2 then invalidHello
      else ciphersIndexed t externalECHOuterSNI body (34 + (1 + sessionLength.toNat))

/-- **`parseClientHelloSNI`**, as the source walks the message. -/
def parseIndexed (handshake : List UInt8) : Except HelloFault String :=
  if handshake.length < 4 then invalidHello
  else
    byteAt .outOfRange handshake 0 fun kind =>
      if kind ≠ 1 then invalidHello
      else
        byteAt .outOfRange handshake 1 fun a =>
        byteAt .outOfRange handshake 2 fun b =>
        byteAt .outOfRange handshake 3 fun c =>
          if handshake.length ≠ 4 + (a.toNat <<< 16 + b.toNat <<< 8 + c.toNat) then invalidHello
          else
            sliceAt .outOfRange handshake 4 handshake.length fun body =>
              bodyIndexed t externalECHOuterSNI body

end Indexed

/-! ## Names -/

variable {t : CaseTable}

theorem normalizeDomain_ne_empty {value : List UInt8} {name : String}
    (h : normalizeDomain t value = some name) : name ≠ "" := by
  simp only [normalizeDomain] at h
  obtain ⟨hname, h⟩ := Option.ite_none_left_eq_some.mp h
  obtain ⟨-, h⟩ := Option.ite_none_left_eq_some.mp h
  obtain ⟨-, h⟩ := Option.ite_none_left_eq_some.mp h
  obtain ⟨-, h⟩ := Option.ite_none_right_eq_some.mp h
  obtain rfl := Option.some.inj h
  intro hempty
  refine hname (.inl ?_)
  simpa using congrArg String.toList hempty

/-- The outcome of a loop over items, as the source keeps it: the empty text for no name. -/
def lift : Except HelloError (Option String) → Except HelloFault String
  | .error e => .error e.fault
  | .ok found => .ok (found.getD "")

/-- An entry of a server name list, read from its bytes. -/
theorem serverName_read_cons (kind x y : UInt8) (l : List UInt8) :
    (l.length < nat16 x y ∨ nat16 x y = 0) ∧ serverName.read (kind :: x :: y :: l) = none ∨
      ∃ n : ServerName, ∃ r, n.nameType = kind ∧ n.name.length = nat16 x y ∧ l = n.name ++ r ∧
        nat16 x y ≠ 0 ∧ serverName.read (kind :: x :: y :: l) = some (n, r) := by
  have hread : serverName.read (kind :: x :: y :: l) =
      ((vec16.filter fun v => v.1 ≠ []).read (x :: y :: l)).map
        fun q => (⟨kind, q.1.1.1, q.1.1.2, q.1.2⟩, q.2) := by
    simp [serverName, equiv, prod, byte]
    rfl
  rcases filled16_cases x y l with ⟨hbad, hnone⟩ | ⟨v, r, hv, hne, rfl, hpos, hsome⟩
  · exact .inl ⟨hbad, by rw [hread, hnone]; rfl⟩
  · exact .inr ⟨⟨kind, v, hv.trans_lt (nat16_lt x y), hne⟩, r, rfl, hv, rfl, hpos,
      by rw [hread, hsome]; rfl⟩

variable {l : List UInt8}

theorem serverName_read_short (h : l.length < 3) : serverName.read l = none := by
  cases hread : serverName.read l with
  | none => rfl
  | some p =>
    have hl := congrArg List.length (serverName.read_iff (a := p.1) (r := p.2) |>.mp hread)
    simp [serverName, equiv, prod, byte, Codec.filter, vec16, bytes16] at hl
    omega

/-- **The loop over the entries**, from an offset on. -/
theorem namesIndexed_eq {b : List UInt8} :
    ∀ {fuel n offset : ℕ} {found : Option String},
    offset ≤ b.length → b.length - offset ≤ fuel → b.length - offset ≤ n → found ≠ some "" →
    namesIndexed t b fuel offset (found.getD "") =
      lift (serverName.fold (nameStep t) .invalid n found (b.drop offset)) := by
  intro fuel
  induction fuel with
  | zero =>
    intro n offset found hoffset hfuel hn hfound
    have hend : b.drop offset = [] := List.drop_eq_nil_of_le (by omega)
    rw [namesIndexed, if_neg (by omega), hend]
    cases n <;> rfl
  | succ fuel ih =>
    intro n offset found hoffset hfuel hn hfound
    by_cases hlt : offset < b.length
    · obtain ⟨n, rfl⟩ : ∃ m, n = m + 1 := ⟨n - 1, by omega⟩
      obtain ⟨kind, l, hdrop⟩ : ∃ kind l, b.drop offset = kind :: l := by
        cases hd : b.drop offset with
        | nil => exact absurd (List.drop_eq_nil_iff.mp hd) (by omega)
        | cons kind l => exact ⟨kind, l, rfl⟩
      have hlength := length_of_drop hoffset hdrop
      rw [namesIndexed, if_pos hlt, hdrop, Codec.fold]
      rcases l with _ | ⟨x, _ | ⟨y, l⟩⟩
      · rw [if_pos (by simp at hlength; omega), serverName_read_short (by simp)]
        rfl
      · rw [if_pos (by simp at hlength; omega), serverName_read_short (by simp)]
        rfl
      · simp only [List.length_cons] at hlength
        have hdrop1 : b.drop (offset + 1) = x :: y :: l := drop_of_drop (p := [kind]) hdrop rfl
        have hdrop3 : b.drop (offset + 3) = l := drop_of_drop (p := [kind, x, y]) hdrop rfl
        rw [if_neg (by omega), byteAt_of_drop hdrop, uint16At_of_drop (by omega) hdrop1]
        rcases serverName_read_cons kind x y l with ⟨hbad, hread⟩ |
            ⟨entry, r, hkind, hlen, rfl, hne, hread⟩
        · rw [if_pos (by omega), hread]
          rfl
        · rw [List.length_append] at hlength
          have hnext : b.drop (offset + 3 + nat16 x y) = r := drop_of_drop hdrop3 (by rw [hlen])
          have hgo : ∀ found : Option String, found ≠ some "" →
              namesIndexed t b fuel (offset + 3 + nat16 x y) (found.getD "") =
                lift (serverName.fold (nameStep t) .invalid n found r) := by
            intro found hfound
            rw [← hnext]
            exact ih (by omega) (by omega) (by omega) hfound
          rw [if_neg (by omega), hread]
          simp only [nameStep, hkind]
          by_cases hzero : kind = 0
          · rw [if_pos hzero, if_pos hzero]
            cases found with
            | some name =>
              rw [if_pos (by simpa using hfound)]
              rfl
            | none =>
              rw [if_neg (by simp), sliceAt_of_drop (by omega) hdrop3 (by rw [hlen])]
              cases hnorm : normalizeDomain t entry.name with
              | none => rfl
              | some name =>
                exact hgo (some name) (by simpa using normalizeDomain_ne_empty hnorm)
          · rw [if_neg hzero, if_neg hzero]
            exact hgo found hfound
    · have hend : b.drop offset = [] := List.drop_eq_nil_of_le (by omega)
      rw [namesIndexed, if_neg hlt, hend]
      cases n <;> rfl

/-- **A server name extension.** -/
theorem serverNamesIndexed_eq (external : Bool) {e : Extension} (htype : e.type = 0)
    (hlong : 5 ≤ e.body.length) :
    serverNamesIndexed t e.body "" = lift (extensionStep t external none e) := by
  rw [extensionStep, if_neg (by rw [htype]; simp), if_pos htype, if_neg (by simp; omega)]
  rcases vec16_cases e.body with ⟨hshort, -⟩ | ⟨x, y, r, hbody, hlt, hnone⟩ |
      ⟨x, y, v, r, hv, hbody, hsome⟩
  · omega
  · rw [serverNamesIndexed, uint16At_of_drop (by omega) (i := 0) hbody, hbody]
    rw [if_pos (by simp only [List.length_cons]; omega), ← hbody, hnone]
    rfl
  · have hdrop : e.body.drop 2 = v ++ r := by rw [hbody]; rfl
    have hlength : e.body.length = 2 + (v.length + r.length) := by
      rw [hbody, List.length_cons, List.length_cons, List.length_append]
      omega
    rw [serverNamesIndexed, uint16At_of_drop (by omega) (i := 0) hbody, hsome]
    cases r with
    | nil =>
      rw [List.append_nil] at hdrop
      rw [if_neg (by rw [List.length_nil] at hlength; omega)]
      rw [List.length_nil] at hlength
      have hnames : namesIndexed t e.body e.body.length 2 ((none : Option String).getD "") =
          lift (serverName.fold (nameStep t) .invalid v.length none (e.body.drop 2)) :=
        namesIndexed_eq (by omega) (by omega) (by omega) (by simp)
      rw [hdrop] at hnames
      exact hnames
    | cons z r =>
      rw [if_pos (by rw [List.length_cons] at hlength; omega)]
      rfl

theorem extension_read_cons (p q x y : UInt8) (l : List UInt8) :
    l.length < nat16 x y ∧ extension.read (p :: q :: x :: y :: l) = none ∨
      ∃ e : Extension, ∃ r, e.type = nat16 p q ∧ e.body.length = nat16 x y ∧ l = e.body ++ r ∧
        extension.read (p :: q :: x :: y :: l) = some (e, r) := by
  have hread : extension.read (p :: q :: x :: y :: l) =
      (vec16.read (x :: y :: l)).map fun s => (⟨p, q, s.1.1, s.1.2⟩, s.2) := by
    simp [extension, equiv, prod, byte]
    rfl
  rcases vec16_cons_cases x y l with ⟨hlt, hnone⟩ | ⟨v, r, hv, rfl, hsome⟩
  · exact .inl ⟨hlt, by rw [hread, hnone]; rfl⟩
  · exact .inr ⟨⟨p, q, v, hv.trans_lt (nat16_lt x y)⟩, r, rfl, hv, rfl, by rw [hread, hsome]; rfl⟩

theorem extension_read_short (h : l.length < 4) : extension.read l = none := by
  cases hread : extension.read l with
  | none => rfl
  | some p =>
    have hl := congrArg List.length (extension.read_iff (a := p.1) (r := p.2) |>.mp hread)
    simp [extension, equiv, prod, byte, vec16, bytes16] at hl
    omega

variable {external : Bool}

theorem extensionStep_ne_empty {s s' : Option String} {e : Extension}
    (h : extensionStep t external s e = .ok s') (hs : s ≠ some "") :
    s' ≠ some "" := by
  obtain ⟨hosts, -, ⟨-, rfl⟩ | ⟨-, wire, name, -, hname, rfl⟩⟩ := extensionStep_found h
  · exact hs
  · exact fun hempty => normalizeDomain_ne_empty hname (Option.some.inj hempty)

/-- **The loop over the extensions**, from an offset on. -/
theorem extensionsIndexed_eq {b : List UInt8} :
    ∀ {fuel n offset : ℕ} {found : Option String},
    offset ≤ b.length → b.length - offset ≤ fuel → b.length - offset ≤ n → found ≠ some "" →
    extensionsIndexed t external b b.length fuel offset (found.getD "") =
      lift (extension.fold (extensionStep t external) .invalid n found (b.drop offset)) := by
  intro fuel
  induction fuel with
  | zero =>
    intro n offset found hoffset hfuel hn hfound
    have hend : b.drop offset = [] := List.drop_eq_nil_of_le (by omega)
    rw [extensionsIndexed, if_neg (by omega), hend]
    cases n <;> rfl
  | succ fuel ih =>
    intro n offset found hoffset hfuel hn hfound
    by_cases hlt : offset < b.length
    · obtain ⟨n, rfl⟩ : ∃ m, n = m + 1 := ⟨n - 1, by omega⟩
      rw [extensionsIndexed, if_pos hlt]
      by_cases hshort : b.length < offset + 4
      · obtain ⟨z, l, hdrop⟩ : ∃ z l, b.drop offset = z :: l := by
          cases hd : b.drop offset with
          | nil => exact absurd (List.drop_eq_nil_iff.mp hd) (by omega)
          | cons z l => exact ⟨z, l, rfl⟩
        have hlength := length_of_drop hoffset hdrop
        rw [if_pos hshort, hdrop, Codec.fold, extension_read_short (by omega)]
        rfl
      · obtain ⟨p, q, x, y, l, hdrop⟩ := four_of_drop (b := b) (i := offset) (by omega)
        have hlength := length_of_drop hoffset hdrop
        simp only [List.length_cons] at hlength
        have hdrop2 : b.drop (offset + 2) = x :: y :: l := drop_of_drop (p := [p, q]) hdrop rfl
        have hdrop4 : b.drop (offset + 4) = l := drop_of_drop (p := [p, q, x, y]) hdrop rfl
        rw [if_neg hshort, uint16At_of_drop hoffset hdrop, uint16At_of_drop (by omega) hdrop2,
          hdrop, Codec.fold]
        rcases extension_read_cons p q x y l with ⟨hbad, hread⟩ | ⟨e, r, htype, hlen, rfl, hread⟩
        · rw [if_pos (by omega), hread]
          rfl
        · rw [List.length_append] at hlength
          have hnext : b.drop (offset + 4 + nat16 x y) = r := drop_of_drop hdrop4 (by rw [hlen])
          have hgo : ∀ found : Option String, found ≠ some "" →
              extensionsIndexed t external b b.length fuel (offset + 4 + nat16 x y) (found.getD "") =
                lift (extension.fold (extensionStep t external) .invalid n found r) := by
            intro found hfound
            rw [← hnext]
            exact ih (by omega) (by omega) (by omega) hfound
          rw [if_neg (by omega), hread, ← htype]
          simp only
          by_cases hech : e.type = 0xfe0d ∧ external = false
          · rw [if_pos hech, extensionStep, if_pos hech]
            rfl
          rw [if_neg hech]
          by_cases hzero : e.type = 0
          · rw [if_pos hzero]
            cases found with
            | some name =>
              rw [if_pos (.inl (by simpa using hfound)), extensionStep, if_neg hech, if_pos hzero,
                if_pos (.inl rfl)]
              rfl
            | none =>
              by_cases hfive : nat16 x y < 5
              · rw [if_pos (.inr hfive), extensionStep, if_neg hech, if_pos hzero,
                  if_pos (.inr (hlen.trans_lt hfive))]
                rfl
              · rw [if_neg (by simp; omega), sliceAt_of_drop (by omega) hdrop4 (by rw [hlen])]
                rw [Option.getD_none, serverNamesIndexed_eq external hzero (by omega)]
                cases hstep : extensionStep t external none e with
                | error err => rfl
                | ok found' => exact hgo found' (extensionStep_ne_empty hstep (by simp))
          · rw [if_neg hzero, extensionStep, if_neg hech, if_neg hzero]
            exact hgo found hfound
    · have hend : b.drop offset = [] := List.drop_eq_nil_of_le (by omega)
      rw [extensionsIndexed, if_neg hlt, hend]
      cases n <;> rfl

/-! ## The message -/

/-- What is made of a reading of the message. -/
def outcome (t : CaseTable) (external : Bool) :
    Option (ClientHello × List UInt8) → Except HelloFault String
  | some (h, []) =>
    if 2 ≤ h.ciphers.1.length ∧ h.ciphers.1.length % 2 = 0 ∧ 1 ≤ h.compressions.1.length then
      (lift (extension.fold (extensionStep t external) .invalid h.extensions.1.length none
          h.extensions.1)).bind fun serverName =>
        if serverName = "" then invalidHello else .ok serverName
    else invalidHello
  | _ => invalidHello

section Stages

variable {t : CaseTable} {external : Bool} {body r : List UInt8} {offset : ℕ}

theorem outcome_of_not {o : Option (ClientHello × List UInt8)}
    (h : ∀ p ∈ o, ¬ (2 ≤ p.1.ciphers.1.length ∧ p.1.ciphers.1.length % 2 = 0 ∧
      1 ≤ p.1.compressions.1.length)) : outcome t external o = invalidHello := by
  rcases o with _ | ⟨hello, _ | ⟨x, l⟩⟩
  · rfl
  · rw [outcome, if_neg (h _ rfl)]
  · rfl

theorem blockIndexed_eq {random session ciphers compressions} (hoffset : offset ≤ body.length)
    (hr : body.drop offset = r) (hlong : 2 ≤ r.length) (hciphers : 2 ≤ ciphers.1.length)
    (heven : ciphers.1.length % 2 = 0) (hcompressions : 1 ≤ compressions.1.length) :
    blockIndexed t external body offset = outcome t external
      ((vec16.read r).map fun q => (⟨random, session, ciphers, compressions, q.1⟩, q.2)) := by
  have hlength := length_of_drop hoffset hr
  rcases vec16_cases r with ⟨hshort, -⟩ | ⟨x, y, l, rfl, hlt, hnone⟩ | ⟨x, y, v, l, hv, rfl, hsome⟩
  · omega
  · simp only [List.length_cons] at hlength
    rw [blockIndexed, uint16At_of_drop hoffset hr, if_pos (by omega), hnone]
    rfl
  · simp only [List.length_cons, List.length_append] at hlength
    rw [blockIndexed, uint16At_of_drop hoffset hr, hsome]
    cases l with
    | cons z l =>
      rw [if_pos (by rw [List.length_cons] at hlength; omega)]
      rfl
    | nil =>
      rw [List.length_nil] at hlength
      rw [List.append_nil] at hr
      have hdrop : body.drop (offset + 2) = v := drop_of_drop (p := [x, y]) hr rfl
      have hend : offset + 2 + nat16 x y = body.length := by omega
      have hloop : extensionsIndexed t external body body.length body.length (offset + 2)
            ((none : Option String).getD "") =
          lift (extension.fold (extensionStep t external) .invalid v.length none
            (body.drop (offset + 2))) :=
        extensionsIndexed_eq (by omega) (by omega) (by omega) (by simp)
      rw [Option.getD_none, hdrop] at hloop
      rw [if_neg (not_not.mpr hend), hend, hloop, Option.map_some, outcome,
        if_pos ⟨hciphers, heven, hcompressions⟩]

theorem compressionsIndexed_eq {random session ciphers} (hoffset : offset ≤ body.length)
    (hr : body.drop offset = r) (hlong : r ≠ []) (hciphers : 2 ≤ ciphers.1.length)
    (heven : ciphers.1.length % 2 = 0) :
    compressionsIndexed t external body offset = outcome t external
      (((vec8.prod vec16).read r).map fun q =>
        (⟨random, session, ciphers, q.1.1, q.1.2⟩, q.2)) := by
  have hlength := length_of_drop hoffset hr
  rcases vec8_cases r with ⟨hnil, -⟩ | ⟨n, l, rfl, hlt, hnone⟩ | ⟨n, v, l, hv, rfl, hsome⟩
  · exact absurd hnil hlong
  · simp only [List.length_cons] at hlength
    rw [compressionsIndexed, byteAt_of_drop hr, if_pos (.inr (by omega)), prod_read_of_none hnone]
    rfl
  · simp only [List.length_cons, List.length_append] at hlength
    rw [compressionsIndexed, byteAt_of_drop hr, prod_read_of_some hsome]
    have hdrop : body.drop (offset + (1 + n.toNat)) = l :=
      drop_of_drop (p := n :: v) hr (by simp only [List.length_cons]; omega)
    by_cases hn : n.toNat < 1
    · rw [if_pos (.inl hn), outcome_of_not]
      intro p hp hgood
      obtain ⟨q, hq, rfl⟩ := Option.map_eq_some_iff.mp hp
      obtain ⟨q, -, rfl⟩ := Option.map_eq_some_iff.mp hq
      exact absurd hgood.2.2 (by simp only; omega)
    by_cases hl : l.length < 2
    · rw [if_pos (.inr (by omega)), vec16_read_short hl]
      rfl
    · rw [if_neg (by omega), Option.map_map]
      exact blockIndexed_eq (by omega) hdrop (by omega) hciphers heven (by simp only; omega)

theorem ciphersIndexed_eq {random session} (hoffset : offset ≤ body.length)
    (hr : body.drop offset = r) (hlong : 2 ≤ r.length) :
    ciphersIndexed t external body offset = outcome t external
      (((vec16.prod (vec8.prod vec16)).read r).map fun q =>
        (⟨random, session, q.1.1, q.1.2.1, q.1.2.2⟩, q.2)) := by
  have hlength := length_of_drop hoffset hr
  rcases vec16_cases r with ⟨hshort, -⟩ | ⟨x, y, l, rfl, hlt, hnone⟩ | ⟨x, y, v, l, hv, rfl, hsome⟩
  · omega
  · simp only [List.length_cons] at hlength
    rw [ciphersIndexed, uint16At_of_drop hoffset hr, if_pos (.inr (.inr (by omega))),
      prod_read_of_none hnone]
    rfl
  · simp only [List.length_cons, List.length_append] at hlength
    rw [ciphersIndexed, uint16At_of_drop hoffset hr, prod_read_of_some hsome]
    have hdrop : body.drop (offset + (2 + nat16 x y)) = l :=
      drop_of_drop (p := x :: y :: v) hr (by simp only [List.length_cons]; omega)
    by_cases hgood : 2 ≤ nat16 x y ∧ nat16 x y % 2 = 0
    · cases l with
      | nil =>
        rw [List.length_nil] at hlength
        rw [if_pos (.inr (.inr (by omega)))]
        rfl
      | cons z l =>
        rw [List.length_cons] at hlength
        rw [if_neg (by omega), Option.map_map]
        exact compressionsIndexed_eq (by omega) hdrop (by simp) (by rw [hv]; exact hgood.1)
          (by rw [hv]; exact hgood.2)
    · rw [if_pos (by omega), outcome_of_not]
      intro p hp hok
      obtain ⟨q, hq, rfl⟩ := Option.map_eq_some_iff.mp hp
      obtain ⟨q, -, rfl⟩ := Option.map_eq_some_iff.mp hq
      exact hgood ⟨hv ▸ hok.1, hv ▸ hok.2.1⟩

/-- **What follows the header.** -/
theorem bodyIndexed_eq :
    bodyIndexed t external body = outcome t external (clientHello.read body) := by
  have hread : clientHello.read body =
      (((fixed 34).prod (vec8.prod (vec16.prod (vec8.prod vec16)))).read body).map fun q =>
        (⟨q.1.1, q.1.2.1, q.1.2.2.1, q.1.2.2.2.1, q.1.2.2.2.2⟩, q.2) := rfl
  by_cases hshort : body.length < 34
  · have hnone : (fixed 34).read body = none := dif_neg (by omega)
    rw [bodyIndexed, if_pos hshort, hread, prod_read_of_none hnone]
    rfl
  have hsome : (fixed 34).read body =
      some (⟨body.take 34, by rw [List.length_take]; omega⟩, body.drop 34) := dif_pos (by omega)
  rw [bodyIndexed, if_neg hshort, hread, prod_read_of_some hsome]
  have hlength := length_of_drop (b := body) (i := 34) (by omega) rfl
  rcases vec8_cases (body.drop 34) with ⟨hnil, hnone⟩ | ⟨n, l, hr, hlt, hnone⟩ |
      ⟨n, v, l, hv, hr, hv8⟩
  · rw [hnil, List.length_nil] at hlength
    rw [if_pos (by omega), prod_read_of_none hnone]
    rfl
  · rw [hr, List.length_cons] at hlength
    rw [if_neg (by omega), byteAt_of_drop hr, if_pos (by omega), prod_read_of_none hnone]
    rfl
  · rw [hr, List.length_cons, List.length_append] at hlength
    have hdrop : body.drop (34 + (1 + n.toNat)) = l :=
      drop_of_drop (p := n :: v) hr (by simp only [List.length_cons]; omega)
    rw [if_neg (by omega), byteAt_of_drop hr, prod_read_of_some hv8]
    by_cases hl : l.length < 2
    · rw [if_pos (by omega), prod_read_of_none (vec16_read_short hl)]
      rfl
    · rw [if_neg (by omega), Option.map_map, Option.map_map]
      exact ciphersIndexed_eq (by omega) hdrop (by omega)

end Stages

theorem extensions_ne_empty {name : String}
    (h : extension.fold (extensionStep t external) .invalid l.length none l = .ok (some name)) :
    name ≠ "" := by
  obtain ⟨es, -, hsteps⟩ := (fold_eq_ok_iff extension_write_ne le_rfl).mp h
  obtain ⟨hosts, -, ⟨-, hnone⟩ | ⟨-, wire, name', -, hname, hsome⟩⟩ := extensions_found hsteps
  · cases hnone
  · obtain rfl := Option.some.inj hsome
    exact normalizeDomain_ne_empty hname

/-- The three bytes of a length, as the source adds them. -/
theorem nat24_eq (a b c : UInt8) : a.toNat <<< 16 + b.toNat <<< 8 + c.toNat = nat24 a b c := by
  rw [nat24, nat16, Nat.shiftLeft_eq, Nat.shiftLeft_eq]
  omega

/-- **Walking by offsets is reading by formats**: every access is in range, every loop ends, and the
outcome is the same. -/
theorem parseIndexed_eq (t : CaseTable) (external : Bool) (handshake : List UInt8) :
    parseIndexed t external handshake =
      (parseClientHelloSNI t external handshake).mapError HelloError.fault := by
  match handshake with
  | [] | [_] | [_, _] | [_, _, _] =>
    rw [parseIndexed, if_pos (by simp), parseClientHelloSNI]
    rfl
    all_goals simp
  | kind :: a :: b :: c :: body =>
    rw [parseIndexed, if_neg (by simp only [List.length_cons]; omega), parseClientHelloSNI,
      byteAt_of_drop (i := 0) rfl]
    by_cases hkind : kind = 1
    swap
    · rw [if_pos hkind, if_neg (fun h => hkind h.1)]
      rfl
    rw [if_neg (not_not.mpr hkind), byteAt_of_drop (i := 1) rfl, byteAt_of_drop (i := 2) rfl,
      byteAt_of_drop (i := 3) rfl, nat24_eq]
    by_cases hlength : body.length = nat24 a b c
    swap
    · rw [if_pos (by simp only [List.length_cons]; omega), if_neg (fun h => hlength h.2)]
      rfl
    rw [if_neg (by simp only [List.length_cons]; omega), if_pos ⟨hkind, hlength⟩,
      sliceAt_of_drop (p := body) (r := []) (by simp) (by simp)
        (by simp only [List.length_cons]; omega), bodyIndexed_eq]
    rcases clientHello.read body with _ | ⟨h, _ | ⟨x, l⟩⟩
    · rfl
    · simp only [outcome]
      split_ifs
      · cases hfold : extension.fold (extensionStep t external) .invalid h.extensions.1.length none
            h.extensions.1 with
        | error err => rfl
        | ok found =>
          cases found with
          | none => rfl
          | some name => exact if_neg (extensions_ne_empty hfold)
      · rfl
    · rfl

end PokrovCore.SmartAccess
