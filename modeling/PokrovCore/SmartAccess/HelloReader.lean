import PokrovCore.SmartAccess.HelloBounds

/-!
# SmartAccess/HelloReader — the records of a connection, read by read

A connection gives its bytes in reads of any size.  `readIndexed` is the loop of the source over
them: a header, a body, and the length of the message as soon as its first four bytes are there.  One
round of it is `Round`, in terms of the bytes still to come; everything else is read off that.  So
what is returned does not depend on the sizes of the reads, nor on how the message is cut into
records (`readRecords_verdict`), and what is consumed is what is returned.
-/

namespace PokrovCore.SmartAccess

open Wire Wire.Codec Slices

/-! ## The connection -/

/-- What the reads of a connection give, in order, before one fails. -/
abbrev Conn := List (List UInt8)

/-- `io.ReadFull`: reads until the buffer is full.  A read gives no more than the buffer has room
for; the rest of it is for the next one. -/
def readFull : ℕ → Conn → Option (List UInt8 × Conn)
  | 0, conn => some ([], conn)
  | _ + 1, [] => none
  | n + 1, chunk :: conn =>
    if chunk.length ≤ n + 1 then
      (readFull (n + 1 - chunk.length) conn).map fun p => (chunk ++ p.1, p.2)
    else some (chunk.take (n + 1), chunk.drop (n + 1) :: conn)

/-- **A full read takes the next bytes**, and fails only where there are too few. -/
theorem readFull_cases (n : ℕ) (conn : Conn) :
    (conn.flatten.length < n ∧ readFull n conn = none) ∨
      ∃ bytes conn', bytes.length = n ∧ conn.flatten = bytes ++ conn'.flatten ∧
        readFull n conn = some (bytes, conn') := by
  induction conn generalizing n with
  | nil =>
    cases n with
    | zero => exact .inr ⟨[], [], rfl, rfl, rfl⟩
    | succ n => exact .inl ⟨by simp, rfl⟩
  | cons chunk conn ih =>
    cases n with
    | zero => exact .inr ⟨[], chunk :: conn, rfl, rfl, rfl⟩
    | succ n =>
      rw [readFull, List.flatten_cons, List.length_append]
      by_cases hchunk : chunk.length ≤ n + 1
      · rw [if_pos hchunk]
        rcases ih (n + 1 - chunk.length) with ⟨hshort, hnone⟩ | ⟨bytes, conn', hlen, hflat, hsome⟩
        · exact .inl ⟨by omega, by rw [hnone]; rfl⟩
        · refine .inr ⟨chunk ++ bytes, conn', ?_, ?_, by rw [hsome]; rfl⟩
          · rw [List.length_append]
            omega
          · rw [hflat, List.append_assoc]
      · rw [if_neg hchunk]
        refine .inr ⟨chunk.take (n + 1), chunk.drop (n + 1) :: conn, ?_, ?_, rfl⟩
        · rw [List.length_take]
          omega
        · rw [List.flatten_cons, ← List.append_assoc, List.take_append_drop]

/-! ## The reader -/

/-- How reading ends without a name, and what is left of the connection then. -/
abbrev ReadFault := HelloFault × Conn

/-- The first half of a round: a record header and its body.  A read that fails has taken all there
was. -/
def readRecord (raw : List UInt8) (conn : Conn) :
    Except ReadFault (List UInt8 × List UInt8 × Conn) :=
  match readFull 5 conn with
  | none => .error (.invalid "record header", [])
  | some (header, conn) =>
    byteAt (.outOfRange, conn) header 0 fun kind =>
    byteAt (.outOfRange, conn) header 1 fun major =>
      if kind ≠ 22 ∨ major ≠ 3 then .error (.invalid "record type", conn)
      else
        uint16At (.outOfRange, conn) header 3 fun recordLength =>
          if recordLength = 0 ∨ helloMaximum < raw.length + 5 + recordLength then
            .error (.invalid "record length", conn)
          else
            match readFull recordLength conn with
            | none => .error (.invalid "record body", [])
            | some (body, conn) => .ok (header, body, conn)

/-- The length of the message, once its first four bytes are there. -/
def expectation (conn : Conn) (handshake : List UInt8) (expected : Option ℕ) :
    Except ReadFault (Option ℕ) :=
  if 4 ≤ handshake.length ∧ expected = none then
    byteAt (.outOfRange, conn) handshake 0 fun kind =>
      if kind ≠ 1 then .error (.invalid "handshake type", conn)
      else
        byteAt (.outOfRange, conn) handshake 1 fun a =>
        byteAt (.outOfRange, conn) handshake 2 fun b =>
        byteAt (.outOfRange, conn) handshake 3 fun c =>
          let expected := 4 + a.toNat <<< 16 + b.toNat <<< 8 + c.toNat
          if helloMaximum < expected ∨ expected < 42 then
            .error (.invalid "handshake length", conn)
          else .ok (some expected)
  else .ok expected

section Reader

variable (t : CaseTable) (externalECHOuterSNI : Bool)

/-- The loop, with the length of the message if it is known. -/
def readLoop : ℕ → Conn → List UInt8 → List UInt8 → Option ℕ →
    Except ReadFault (List UInt8 × String × Conn)
  | fuel, conn, raw, handshake, expected =>
    if raw.length < helloMaximum then
      match fuel with
      | 0 => .error (.exhausted, conn)
      | fuel + 1 =>
        (readRecord raw conn).bind fun (header, body, conn) =>
        (expectation conn (handshake ++ body) expected).bind fun expected =>
          match expected with
          | some n =>
            if n ≤ (handshake ++ body).length then
              sliceAt (.outOfRange, conn) (handshake ++ body) 0 n fun message =>
                ((parseIndexed t externalECHOuterSNI message).mapError (·, conn)).map fun name =>
                  (raw ++ header ++ body, name, conn)
            else readLoop fuel conn (raw ++ header ++ body) (handshake ++ body) (some n)
          | none => readLoop fuel conn (raw ++ header ++ body) (handshake ++ body) none
    else .error (.invalid "size limit", conn)

/-- **`readClientHello`**: the records to replay, the name, and what is left of the connection. -/
def readIndexed (conn : Conn) : Except ReadFault (List UInt8 × String × Conn) :=
  readLoop t externalECHOuterSNI helloMaximum conn [] [] none

end Reader

/-! ## One record -/

/-- A record, read from its header. -/
theorem record_read_cons (kind major minor x y : UInt8) (l : List UInt8) :
    (kind ≠ 22 ∨ major ≠ 3 ∨ nat16 x y = 0 ∨ l.length < nat16 x y) ∧
        record.read (kind :: major :: minor :: x :: y :: l) = none ∨
      kind = 22 ∧ major = 3 ∧ nat16 x y ≠ 0 ∧ ∃ r : Record, ∃ l', r.body.length = nat16 x y ∧
        l = r.body ++ l' ∧ record.write r = [kind, major, minor, x, y] ++ r.body ∧
        record.read (kind :: major :: minor :: x :: y :: l) = some (r, l') := by
  have hread : record.read (kind :: major :: minor :: x :: y :: l) =
      if [22, 3] <+: kind :: major :: minor :: x :: y :: l then
        ((byte.prod (vec16.filter fun v => v.1 ≠ [])).read (minor :: x :: y :: l)).map
          fun q => (⟨q.1.1, q.1.2.1.1, q.1.2.1.2, q.1.2.2⟩, q.2)
      else none := by
    simp only [record, equiv, after, apply_ite (Option.map _)]
    rfl
  by_cases hkind : kind = 22 ∧ major = 3
  swap
  · refine .inl ⟨by tauto, ?_⟩
    rw [hread, if_neg]
    rintro ⟨l', hl⟩
    simp only [List.cons_append, List.nil_append, List.cons.injEq] at hl
    exact hkind ⟨hl.1.symm, hl.2.1.symm⟩
  obtain ⟨rfl, rfl⟩ := hkind
  have hprefix : [22, 3] <+: 22 :: 3 :: minor :: x :: y :: l := ⟨minor :: x :: y :: l, rfl⟩
  have hbyte : byte.read (minor :: x :: y :: l) = some (minor, x :: y :: l) := rfl
  rw [if_pos hprefix, prod_read_of_some hbyte] at hread
  rcases filled16_cases x y l with ⟨hbad, hnone⟩ | ⟨v, l', hv, hne, rfl, hpos, hsome⟩
  · refine .inl ⟨by tauto, ?_⟩
    rw [hread, hnone]
    rfl
  · refine .inr ⟨rfl, rfl, hpos, ⟨minor, v, hv.trans_lt (nat16_lt x y), hne⟩, l', hv, rfl, ?_, ?_⟩
    · show [22, 3] ++ ([minor] ++ (bytes16 v.length ++ v)) = [22, 3, minor, x, y] ++ v
      rw [hv, bytes16_nat16]
      rfl
    · rw [hread, hsome]
      rfl

theorem record_write_length (r : Record) : (record.write r).length = 5 + r.body.length := by
  show ([22, 3] ++ ([r.minor] ++ (bytes16 r.body.length ++ r.body))).length = _
  simp [bytes16]
  omega

/-- **One record of a connection**, or why there is none. -/
theorem readRecord_cases (raw : List UInt8) (conn : Conn) :
    (∃ words rest taken, readRecord raw conn = .error (.invalid words, rest) ∧
        conn.flatten = taken ++ rest.flatten ∧
        ∀ r l, record.read conn.flatten = some (r, l) →
          taken.length ≤ 5 ∧ helloMaximum < raw.length + 5 + r.body.length) ∨
      ∃ (header : List UInt8) (r : Record) (conn' : Conn),
        readRecord raw conn = .ok (header, r.body, conn') ∧ record.write r = header ++ r.body ∧
        record.read conn.flatten = some (r, conn'.flatten) ∧
        raw.length + 5 + r.body.length ≤ helloMaximum := by
  unfold readRecord
  rcases readFull_cases 5 conn with ⟨hshort, hnone⟩ | ⟨header, conn₁, hlen, hflat, hsome⟩
  · refine .inl ⟨"record header", [], conn.flatten, by rw [hnone], by simp, fun r l hread => ?_⟩
    have hlength := congrArg List.length (record.read_iff.mp hread)
    have hwrite := record_write_length r
    rw [List.length_append] at hlength
    omega
  rw [hsome]
  obtain ⟨kind, major, minor, x, y, rfl⟩ : ∃ a b c d e, header = [a, b, c, d, e] := by
    match header, hlen with
    | [a, b, c, d, e], _ => exact ⟨a, b, c, d, e, rfl⟩
  simp only
  rw [byteAt_of_drop (i := 0) rfl, byteAt_of_drop (i := 1) rfl]
  have hread := record_read_cons kind major minor x y conn₁.flatten
  have hflat' : conn.flatten = kind :: major :: minor :: x :: y :: conn₁.flatten := hflat
  by_cases htype : kind ≠ 22 ∨ major ≠ 3
  · refine .inl ⟨"record type", conn₁, [kind, major, minor, x, y], by rw [if_pos htype], hflat,
      fun r l hr => ?_⟩
    rcases hread with ⟨-, hnone⟩ | ⟨hkind, hmajor, -⟩
    · rw [hflat', hnone] at hr
      cases hr
    · exact absurd htype (by simp [hkind, hmajor])
  rw [if_neg htype, uint16At_of_drop (by simp) (i := 3) rfl]
  by_cases hlimit : nat16 x y = 0 ∨ helloMaximum < raw.length + 5 + nat16 x y
  · refine .inl ⟨"record length", conn₁, [kind, major, minor, x, y], by rw [if_pos hlimit], hflat,
      fun r l hr => ⟨le_rfl, ?_⟩⟩
    rcases hread with ⟨-, hnone⟩ | ⟨-, -, hpos, r', l', hbody, -, -, hsome⟩
    · rw [hflat', hnone] at hr
      cases hr
    · rw [hflat', hsome] at hr
      obtain ⟨rfl, -⟩ := Prod.mk.inj (Option.some.inj hr)
      omega
  rw [if_neg hlimit]
  rcases readFull_cases (nat16 x y) conn₁ with ⟨hshort, hnone⟩ |
      ⟨body, conn₂, hlen₂, hflat₂, hsome₂⟩
  · refine .inl ⟨"record body", [], conn.flatten, by rw [hnone], by simp, fun r l hr => ?_⟩
    rcases hread with ⟨-, hnone⟩ | ⟨-, -, -, r', l', hbody, hl, -, -⟩
    · rw [hflat', hnone] at hr
      cases hr
    · rw [hl, List.length_append] at hshort
      omega
  · rcases hread with ⟨hbad, -⟩ | ⟨-, -, -, r, l', hbody, hl, hwrite, hr⟩
    · rw [hflat₂, List.length_append] at hbad
      rcases hbad with hkind | hmajor | hbad
      · exact absurd (.inl hkind) htype
      · exact absurd (.inr hmajor) htype
      · omega
    · obtain ⟨rfl, hrest⟩ := List.append_inj (hflat₂.symm.trans hl) (hlen₂.trans hbody.symm)
      refine .inr ⟨[kind, major, minor, x, y], r, conn₂, by rw [hsome₂], hwrite, ?_, by omega⟩
      rw [hflat', hr, hrest]

/-! ## One round -/

/-- The message is not there yet: its length is known once four bytes are, and is more than there
are. -/
def Waiting (handshake : List UInt8) (expected : Option ℕ) : Prop :=
  expectedHandshake handshake = .ok expected ∧ ∀ n ∈ expected, handshake.length < n

variable {handshake : List UInt8}

theorem four_le_iff :
    4 ≤ handshake.length ↔ ∃ kind a b c l, handshake = kind :: a :: b :: c :: l := by
  constructor
  · intro h
    match handshake, h with
    | kind :: a :: b :: c :: l, _ => exact ⟨kind, a, b, c, l, rfl⟩
  · rintro ⟨kind, a, b, c, l, rfl⟩
    simp

theorem expectedHandshake_short (h : handshake.length < 4) :
    expectedHandshake handshake = .ok none := by
  match handshake, h with
  | [], _ | [_], _ | [_, _], _ | [_, _, _], _ => rfl

/-- The length is in the first four bytes. -/
theorem expectedHandshake_append {more : List UInt8} (h : 4 ≤ handshake.length) :
    expectedHandshake (handshake ++ more) = expectedHandshake handshake := by
  obtain ⟨kind, a, b, c, l, rfl⟩ := four_le_iff.mp h
  rfl

theorem expectedHandshake_ne_none (h : 4 ≤ handshake.length) :
    expectedHandshake handshake ≠ .ok none := by
  obtain ⟨kind, a, b, c, l, rfl⟩ := four_le_iff.mp h
  rw [expectedHandshake]
  split_ifs <;> simp

variable {expected : Option ℕ}

/-- **The length, as the loop finds it.** -/
theorem expectation_cases (conn : Conn) (hw : Waiting handshake expected) (body : List UInt8) :
    (∃ words, expectation conn (handshake ++ body) expected = .error (.invalid words, conn) ∧
        expectedHandshake (handshake ++ body) = .error .invalid) ∨
      ∃ expected', expectation conn (handshake ++ body) expected = .ok expected' ∧
        expectedHandshake (handshake ++ body) = .ok expected' := by
  by_cases hlong : 4 ≤ (handshake ++ body).length
  swap
  · rw [expectation, if_neg (fun h => hlong h.1), expectedHandshake_short (by omega)]
    rw [List.length_append] at hlong
    have hnone := hw.1
    rw [expectedHandshake_short (by omega)] at hnone
    obtain rfl := Except.ok.inj hnone
    exact .inr ⟨none, rfl, rfl⟩
  cases expected with
  | some n =>
    have hfour : 4 ≤ handshake.length := by
      by_contra hshort
      have hnone := hw.1
      rw [expectedHandshake_short (by omega)] at hnone
      cases Except.ok.inj hnone
    refine .inr ⟨some n, if_neg (by simp), ?_⟩
    rw [expectedHandshake_append hfour, hw.1]
  | none =>
    rw [expectation, if_pos ⟨hlong, rfl⟩]
    obtain ⟨kind, a, b, c, l, hl⟩ := four_le_iff.mp hlong
    rw [hl, byteAt_of_drop (i := 0) rfl, expectedHandshake]
    by_cases hkind : kind = 1
    swap
    · rw [if_pos hkind, if_pos (.inl hkind)]
      exact .inl ⟨_, rfl, rfl⟩
    have hsum : 4 + a.toNat <<< 16 + b.toNat <<< 8 + c.toNat = 4 + nat24 a b c := by
      rw [← nat24_eq]
      omega
    rw [if_neg (not_not.mpr hkind), byteAt_of_drop (i := 1) rfl, byteAt_of_drop (i := 2) rfl,
      byteAt_of_drop (i := 3) rfl, hsum]
    by_cases hsize : helloMaximum < 4 + nat24 a b c ∨ 4 + nat24 a b c < 42
    · rw [if_pos hsize, if_pos (.inr hsize)]
      exact .inl ⟨_, rfl, rfl⟩
    · rw [if_neg hsize, if_neg (by tauto)]
      exact .inr ⟨_, rfl, rfl⟩

/-- **One round of the loop**, with more rounds to follow if the message is not there yet. -/
inductive Round (t : CaseTable) (external : Bool) (fuel : ℕ) (conn : Conn)
    (raw handshake : List UInt8) : Except ReadFault (List UInt8 × String × Conn) → Prop
  | unread {words : String} {rest : Conn} {taken : List UInt8}
      (hflat : conn.flatten = taken ++ rest.flatten)
      (hread : ∀ r l, record.read conn.flatten = some (r, l) →
        taken.length ≤ 5 ∧ helloMaximum < raw.length + 5 + r.body.length) :
      Round t external fuel conn raw handshake (.error (.invalid words, rest))
  | refused {words : String} {r : Record} {conn' : Conn}
      (hread : record.read conn.flatten = some (r, conn'.flatten))
      (hlimit : raw.length + 5 + r.body.length ≤ helloMaximum)
      (hlength : expectedHandshake (handshake ++ r.body) = .error .invalid) :
      Round t external fuel conn raw handshake (.error (.invalid words, conn'))
  | complete {r : Record} {conn' : Conn} {n : ℕ}
      (hread : record.read conn.flatten = some (r, conn'.flatten))
      (hlimit : raw.length + 5 + r.body.length ≤ helloMaximum)
      (hlength : expectedHandshake (handshake ++ r.body) = .ok (some n))
      (hn : n ≤ (handshake ++ r.body).length) :
      Round t external fuel conn raw handshake
        (((parseIndexed t external ((handshake ++ r.body).take n)).mapError (·, conn')).map
          fun name => (raw ++ record.write r, name, conn'))
  | more {r : Record} {conn' : Conn} {expected' : Option ℕ}
      (hread : record.read conn.flatten = some (r, conn'.flatten))
      (hlimit : raw.length + 5 + r.body.length ≤ helloMaximum)
      (hwait : Waiting (handshake ++ r.body) expected') :
      Round t external fuel conn raw handshake
        (readLoop t external fuel conn' (raw ++ record.write r) (handshake ++ r.body) expected')

theorem round (t : CaseTable) (external : Bool) (fuel : ℕ) (conn : Conn) {raw : List UInt8}
    (hraw : raw.length < helloMaximum) (hw : Waiting handshake expected) :
    Round t external fuel conn raw handshake
      (readLoop t external (fuel + 1) conn raw handshake expected) := by
  rw [readLoop, if_pos hraw]
  rcases readRecord_cases raw conn with ⟨words, rest, taken, hrec, hflat, hread⟩ |
      ⟨header, r, conn', hrec, hwrite, hread, hlimit⟩
  · rw [hrec]
    exact .unread hflat hread
  have hraw' : raw ++ header ++ r.body = raw ++ record.write r := by
    rw [hwrite, List.append_assoc]
  rw [hrec]
  simp only [Except.bind]
  rcases expectation_cases conn' hw r.body with ⟨words, hexp, hlength⟩ |
      ⟨expected', hexp, hlength⟩
  · rw [hexp]
    exact .refused hread hlimit hlength
  rw [hexp, hraw']
  cases expected' with
  | none => exact .more hread hlimit ⟨hlength, by simp⟩
  | some n =>
    simp only
    split_ifs with hn
    · rw [sliceAt_of_drop (Nat.zero_le _) (List.take_append_drop n (handshake ++ r.body)).symm
        (by rw [List.length_take, Nat.min_eq_left hn, Nat.zero_add])]
      exact .complete hread hlimit hlength hn
    · exact .more hread hlimit ⟨hlength, by simpa using hn⟩

/-! ## The whole reading -/

/-- What kind of error it is, if it is one of the source. -/
def HelloFault.kind : HelloFault → Option HelloError
  | .invalid _ => some .invalid
  | .echUnsupported => some .echUnsupported
  | .outOfRange | .exhausted => none

theorem HelloError.kind_fault (e : HelloError) : e.fault.kind = some e := by cases e <;> rfl

/-- What the caller gets. -/
def answer : Except ReadFault (List UInt8 × String × Conn) →
    Except (Option HelloError) (List UInt8 × String)
  | .error (fault, _) => .error fault.kind
  | .ok (raw, name, _) => .ok (raw, name)

/-- What is left of the connection. -/
def left : Except ReadFault (List UInt8 × String × Conn) → Conn
  | .error (_, conn) => conn
  | .ok (_, _, conn) => conn

section Whole

variable {t : CaseTable} {external : Bool}

/-- **The loop over the connection is the loop over its bytes.** -/
theorem answer_readLoop : ∀ {fuel m : ℕ} {conn : Conn} {raw handshake : List UInt8}
    {expected : Option ℕ}, Waiting handshake expected → helloMaximum - raw.length ≤ fuel →
    conn.flatten.length < m →
    answer (readLoop t external fuel conn raw handshake expected) =
      (readRecords t external m raw handshake conn.flatten).mapError some := by
  intro fuel
  induction fuel with
  | zero =>
    intro m conn raw handshake expected hw hfuel hm
    obtain ⟨m, rfl⟩ : ∃ k, m = k + 1 := ⟨m - 1, by omega⟩
    rw [readLoop, if_neg (by omega), readRecords, if_pos (by omega)]
    rfl
  | succ fuel ih =>
    intro m conn raw handshake expected hw hfuel hm
    obtain ⟨m, rfl⟩ : ∃ k, m = k + 1 := ⟨m - 1, by omega⟩
    rw [readRecords]
    by_cases hraw : raw.length < helloMaximum
    swap
    · rw [readLoop, if_neg hraw, if_pos (by omega)]
      rfl
    rw [if_neg (by omega)]
    have hround := round t external fuel conn hraw hw
    generalize readLoop t external (fuel + 1) conn raw handshake expected = result at hround
    cases hround with
    | unread hflat hread =>
      cases hrecord : record.read conn.flatten with
      | none => rfl
      | some p =>
        simp only [if_pos (hread p.1 p.2 hrecord).2]
        rfl
    | refused hread hlimit hlength =>
      rw [hread]
      simp only [if_neg (Nat.not_lt.mpr hlimit), hlength]
      rfl
    | complete hread hlimit hlength hn =>
      rw [hread]
      simp only [if_neg (Nat.not_lt.mpr hlimit), hlength, if_pos hn, parseIndexed_eq]
      cases parseClientHelloSNI t external _ with
      | error e => exact congrArg Except.error (HelloError.kind_fault e)
      | ok name => rfl
    | @more r conn' expected' hread hlimit hwait =>
      have hstream := congrArg List.length (record.read_iff.mp hread)
      rw [List.length_append, record_write_length] at hstream
      have hih : answer (readLoop t external fuel conn' (raw ++ record.write r)
            (handshake ++ r.body) expected') =
          (readRecords t external m (raw ++ record.write r) (handshake ++ r.body)
            conn'.flatten).mapError some :=
        ih hwait (by rw [List.length_append, record_write_length]; omega) (by omega)
      rw [hread, hih]
      simp only [if_neg (Nat.not_lt.mpr hlimit), hwait.1]
      cases expected' with
      | none => rfl
      | some n => simp only [if_neg (Nat.not_le.mpr (hwait.2 n rfl))]

/-- A whole handshake message is there. -/
def MessageComplete (handshake : List UInt8) : Prop :=
  ∃ kind a b c body, handshake = kind :: a :: b :: c :: body ∧ nat24 a b c ≤ body.length

theorem Waiting.incomplete (h : Waiting handshake expected) :
    ¬ MessageComplete handshake := by
  rintro ⟨kind, a, b, c, body, rfl, hbody⟩
  obtain ⟨hlength, hlong⟩ := h
  rw [expectedHandshake] at hlength
  split_ifs at hlength
  obtain rfl := Except.ok.inj hlength
  have hlt := hlong _ rfl
  simp only [List.length_cons] at hlt
  omega

theorem messageComplete_of_expected {n : ℕ} (h : expectedHandshake handshake = .ok (some n))
    (hn : n ≤ handshake.length) :
    MessageComplete handshake := by
  have hfour : 4 ≤ handshake.length := by
    by_contra hshort
    rw [expectedHandshake_short (by omega)] at h
    cases Except.ok.inj h
  obtain ⟨kind, a, b, c, body, rfl⟩ := four_le_iff.mp hfour
  rw [expectedHandshake] at h
  split_ifs at h
  obtain rfl := Option.some.inj (Except.ok.inj h)
  simp only [List.length_cons] at hn
  exact ⟨kind, a, b, c, body, rfl, by omega⟩

/-- **Success**: what is returned is what is taken, and its last record completes the message. -/
theorem readLoop_ok : ∀ {fuel : ℕ} {conn rest : Conn} {raw handshake raw' : List UInt8}
    {expected : Option ℕ} {name : String}, Waiting handshake expected →
    readLoop t external fuel conn raw handshake expected = .ok (raw', name, rest) →
    ∃ (rs : List Record) (r : Record), raw' = raw ++ (rs ++ [r]).flatMap record.write ∧
      conn.flatten = (rs ++ [r]).flatMap record.write ++ rest.flatten ∧
      ¬ MessageComplete (handshake ++ rs.flatMap Record.body) ∧
      MessageComplete (handshake ++ (rs ++ [r]).flatMap Record.body) := by
  intro fuel
  induction fuel with
  | zero =>
    intro conn rest raw handshake raw' expected name hw h
    rw [readLoop] at h
    split_ifs at h
  | succ fuel ih =>
    intro conn rest raw handshake raw' expected name hw h
    by_cases hraw : raw.length < helloMaximum
    swap
    · rw [readLoop, if_neg hraw] at h
      cases h
    have hround := round t external fuel conn hraw hw
    rw [h] at hround
    generalize hresult : (Except.ok (raw', name, rest) : Except ReadFault _) = result at hround
    cases hround with
    | unread _ _ => cases hresult
    | refused _ _ _ => cases hresult
    | @complete r conn' n hread hlimit hlength hn =>
      rw [parseIndexed_eq] at hresult
      cases hparse : parseClientHelloSNI t external ((handshake ++ r.body).take n) with
      | error e =>
        rw [hparse] at hresult
        cases hresult
      | ok name' =>
        rw [hparse] at hresult
        cases hresult
        refine ⟨[], r, by simp, by simpa using record.read_iff.mp hread, ?_, ?_⟩
        · rw [List.flatMap_nil, List.append_nil]
          exact hw.incomplete
        · simpa using messageComplete_of_expected hlength hn
    | @more r conn' expected' hread hlimit hwait =>
      obtain ⟨rs, last, hraw', hflat, hbefore, hafter⟩ := ih hwait hresult.symm
      refine ⟨r :: rs, last, ?_, ?_, ?_, ?_⟩
      · rw [hraw', List.cons_append, List.flatMap_cons, List.append_assoc]
      · rw [record.read_iff.mp hread, hflat, List.cons_append, List.flatMap_cons, List.append_assoc]
      · rwa [List.flatMap_cons, ← List.append_assoc]
      · rwa [List.cons_append, List.flatMap_cons, ← List.append_assoc]

/-- **Nothing past the completing record is taken**, whatever the outcome. -/
theorem left_readLoop : ∀ {fuel : ℕ} {conn : Conn} {raw handshake more : List UInt8}
    {expected : Option ℕ} {rs : List Record} {last : Record}, Waiting handshake expected →
    helloMaximum - raw.length ≤ fuel →
    conn.flatten = (rs ++ [last]).flatMap record.write ++ more →
    MessageComplete (handshake ++ (rs ++ [last]).flatMap Record.body) →
    more <:+ (left (readLoop t external fuel conn raw handshake expected)).flatten := by
  intro fuel
  induction fuel with
  | zero =>
    intro conn raw handshake more expected rs last hw hfuel hflat hcomplete
    rw [readLoop, if_neg (by omega), left, hflat]
    exact List.suffix_append _ _
  | succ fuel ih =>
    intro conn raw handshake more expected rs last hw hfuel hflat hcomplete
    by_cases hraw : raw.length < helloMaximum
    swap
    · rw [readLoop, if_neg hraw, left, hflat]
      exact List.suffix_append _ _
    -- the first record on the wire, and what is on the wire after it
    obtain ⟨first, others, hrs⟩ : ∃ first others, rs ++ [last] = first :: others := by
      cases rs with
      | nil => exact ⟨last, [], rfl⟩
      | cons r rs => exact ⟨r, rs ++ [last], rfl⟩
    have hfirst : record.read conn.flatten =
        some (first, others.flatMap record.write ++ more) := by
      rw [hflat, hrs, List.flatMap_cons, List.append_assoc]
      exact record.read_write first _
    have hround := round t external fuel conn hraw hw
    generalize readLoop t external (fuel + 1) conn raw handshake expected = result at hround
    cases hround with
    | unread htaken hread =>
      have hlength := congrArg List.length htaken
      have hshort := (hread _ _ hfirst).1
      rw [record.read_iff.mp hfirst] at hlength
      simp only [List.length_append, record_write_length] at hlength
      have hmore : more <:+ conn.flatten := ⟨_, hflat.symm⟩
      refine List.suffix_of_suffix_length_le hmore ⟨_, htaken.symm⟩ ?_
      rw [left]
      omega
    | refused hread _ _ =>
      rw [hfirst] at hread
      obtain ⟨-, hrest⟩ := Prod.mk.inj (Option.some.inj hread)
      rw [left, ← hrest]
      exact List.suffix_append _ _
    | @complete r conn' n hread _ _ _ =>
      rw [hfirst] at hread
      obtain ⟨-, hrest⟩ := Prod.mk.inj (Option.some.inj hread)
      have hconn : left (((parseIndexed t external ((handshake ++ r.body).take n)).mapError
          (·, conn')).map fun name => (raw ++ record.write r, name, conn')) = conn' := by
        cases parseIndexed t external ((handshake ++ r.body).take n) <;> rfl
      rw [hconn, ← hrest]
      exact List.suffix_append _ _
    | @more r conn' expected' hread hlimit hwait =>
      rw [hfirst] at hread
      obtain ⟨rfl, hrest⟩ := Prod.mk.inj (Option.some.inj hread)
      rw [hrs, List.flatMap_cons, ← List.append_assoc] at hcomplete
      cases rs with
      | nil =>
        obtain ⟨rfl, rfl⟩ := List.cons.inj hrs
        exact absurd (by simpa using hcomplete) hwait.incomplete
      | cons r' rs =>
        obtain ⟨rfl, rfl⟩ := List.cons.inj hrs
        refine ih hwait ?_ hrest.symm hcomplete
        rw [List.length_append, record_write_length]
        omega

/-! ## Fragmentation -/

/-- What becomes of the bytes of the records, taken together. -/
def verdict (t : CaseTable) (external : Bool) (handshake : List UInt8) : Except HelloError String :=
  match expectedHandshake handshake with
  | .error e => .error e
  | .ok none => .error .invalid
  | .ok (some n) =>
    if n ≤ handshake.length then parseClientHelloSNI t external (handshake.take n)
    else .error .invalid

theorem Waiting.verdict (h : Waiting handshake expected) :
    verdict t external handshake = .error .invalid := by
  rw [SmartAccess.verdict, h.1]
  cases expected with
  | none => rfl
  | some n => exact if_neg (Nat.not_le.mpr (h.2 n rfl))

/-- **What is read does not depend on how the bytes are cut into records.** -/
theorem readRecords_verdict (rs : List Record) : ∀ {m : ℕ} {raw handshake : List UInt8}
    {expected : Option ℕ}, Waiting handshake expected → rs.length < m →
    raw.length + (rs.flatMap record.write).length ≤ helloMaximum →
    (readRecords t external m raw handshake (rs.flatMap record.write)).map Prod.snd =
      verdict t external (handshake ++ rs.flatMap Record.body) := by
  induction rs with
  | nil =>
    intro m raw handshake expected hw hm hlimit
    obtain ⟨m, rfl⟩ : ∃ k, m = k + 1 := ⟨m - 1, by omega⟩
    have hread : record.read [] = none := by
      cases h : record.read [] with
      | none => rfl
      | some p =>
        have hnil := (List.append_eq_nil_iff.mp (record.read_iff.mp h).symm).1
        exact absurd hnil (record_write_ne p.1)
    rw [List.flatMap_nil, List.flatMap_nil, List.append_nil, hw.verdict, readRecords, hread]
    split_ifs <;> rfl
  | cons r rs ih =>
    intro m raw handshake expected hw hm hlimit
    obtain ⟨m, rfl⟩ : ∃ k, m = k + 1 := ⟨m - 1, by omega⟩
    rw [List.length_cons] at hm
    rw [List.flatMap_cons, List.length_append, record_write_length] at hlimit
    rw [List.flatMap_cons, List.flatMap_cons, readRecords, if_neg (by omega),
      record.read_write, ← List.append_assoc]
    simp only [if_neg (show ¬ helloMaximum < raw.length + 5 + r.body.length by omega)]
    have hgo : ∀ {expected' : Option ℕ}, Waiting (handshake ++ r.body) expected' →
        (readRecords t external m (raw ++ record.write r) (handshake ++ r.body)
          (rs.flatMap record.write)).map Prod.snd =
          verdict t external (handshake ++ r.body ++ rs.flatMap Record.body) := by
      intro expected' hwait
      refine ih hwait (by omega) ?_
      rw [List.length_append, record_write_length]
      omega
    by_cases hfour : 4 ≤ (handshake ++ r.body).length
    swap
    · have hnone := expectedHandshake_short (Nat.lt_of_not_le hfour)
      rw [hnone]
      exact hgo ⟨hnone, by simp⟩
    cases hlength : expectedHandshake (handshake ++ r.body) with
    | error e =>
      rw [verdict, expectedHandshake_append hfour, hlength]
      rfl
    | ok expected' =>
      cases expected' with
      | none => exact absurd hlength (expectedHandshake_ne_none hfour)
      | some n =>
        simp only
        by_cases hn : n ≤ (handshake ++ r.body).length
        · rw [if_pos hn, verdict, expectedHandshake_append hfour, hlength]
          simp only
          rw [if_pos (hn.trans (List.sublist_append_left _ _).length_le),
            List.take_append_of_le_length hn]
          cases parseClientHelloSNI t external ((handshake ++ r.body).take n) <;> rfl
        · rw [if_neg hn]
          exact hgo ⟨hlength, by simpa using hn⟩

end Whole

/-- Nothing is known before the first byte. -/
theorem waiting_nil : Waiting [] none := ⟨rfl, by simp⟩

theorem answer_readIndexed (t : CaseTable) (external : Bool) (conn : Conn) :
    answer (readIndexed t external conn) =
      (readClientHello t external conn.flatten).mapError some :=
  answer_readLoop waiting_nil (Nat.sub_le _ _) (Nat.lt_succ_self _)

/-- A list of records has no more records than bytes. -/
theorem length_le_flatMap_write (rs : List Record) :
    rs.length ≤ (rs.flatMap record.write).length := by
  induction rs with
  | nil => exact Nat.le_refl _
  | cons r rs ih =>
    rw [List.flatMap_cons, List.length_append, record_write_length, List.length_cons]
    omega

/-- **A connection that carries records**: the answer is the verdict on their bytes. -/
theorem answer_of_records (t : CaseTable) (external : Bool) {conn : Conn} {rs : List Record}
    (hconn : conn.flatten = rs.flatMap record.write)
    (hlimit : (rs.flatMap record.write).length ≤ helloMaximum) :
    (answer (readIndexed t external conn)).map Prod.snd =
      (verdict t external (rs.flatMap Record.body)).mapError some := by
  have hrs := length_le_flatMap_write rs
  have hverdict : (readClientHello t external (rs.flatMap record.write)).map Prod.snd =
      verdict t external (rs.flatMap Record.body) :=
    readRecords_verdict rs waiting_nil (by omega) (by simpa using hlimit)
  rw [answer_readIndexed, hconn, ← hverdict]
  cases readClientHello t external (rs.flatMap record.write) <;> rfl

/-- **The reader does not depend on fragmentation and replays what it consumed.**  What is returned
is what is taken of the connection, up to the record that completes the message; nothing past that
record is taken, whatever the outcome; the sizes of the reads make no difference; two ways to cut
the same bytes into records give the same name or the same kind of error; and no index or slice is
out of range. -/
theorem readClientHello_reassembles (t : CaseTable) (external : Bool) (conn : Conn) :
    (∀ raw name rest, readIndexed t external conn = .ok (raw, name, rest) →
      conn.flatten = raw ++ rest.flatten ∧
      ∃ (rs : List Record) (r : Record), raw = (rs ++ [r]).flatMap record.write ∧
        ¬ MessageComplete (rs.flatMap Record.body) ∧
        MessageComplete ((rs ++ [r]).flatMap Record.body)) ∧
    (∀ (rs : List Record) (r : Record) (more : List UInt8),
      conn.flatten = (rs ++ [r]).flatMap record.write ++ more →
      MessageComplete ((rs ++ [r]).flatMap Record.body) →
      more <:+ (left (readIndexed t external conn)).flatten) ∧
    (∀ conn' : Conn, conn'.flatten = conn.flatten →
      answer (readIndexed t external conn') = answer (readIndexed t external conn)) ∧
    (∀ (conn' : Conn) (rs rs' : List Record),
      conn.flatten = rs.flatMap record.write → conn'.flatten = rs'.flatMap record.write →
      conn.flatten.length ≤ 65535 → conn'.flatten.length ≤ 65535 →
      rs.flatMap Record.body = rs'.flatMap Record.body →
      (answer (readIndexed t external conn)).map Prod.snd =
        (answer (readIndexed t external conn')).map Prod.snd) ∧
    ∀ fault rest, readIndexed t external conn = .error (fault, rest) →
      fault ≠ .outOfRange ∧ fault ≠ .exhausted := by
  refine ⟨fun raw name rest h => ?_, fun rs r more hflat hcomplete => ?_, fun conn' hflat => ?_,
    fun conn' rs rs' hrs hrs' hlimit hlimit' hbodies => ?_, fun fault rest h => ?_⟩
  · obtain ⟨rs, r, hraw, hflat, hbefore, hafter⟩ := readLoop_ok waiting_nil h
    rw [List.nil_append] at hraw hbefore hafter
    exact ⟨hraw ▸ hflat, rs, r, hraw, hbefore, hafter⟩
  · exact left_readLoop waiting_nil (Nat.sub_le _ _) hflat hcomplete
  · rw [answer_readIndexed, answer_readIndexed, hflat]
  · rw [answer_of_records t external hrs (hrs ▸ hlimit),
      answer_of_records t external hrs' (hrs' ▸ hlimit'), hbodies]
  · have hanswer := answer_readIndexed t external conn
    rw [h] at hanswer
    cases hread : readClientHello t external conn.flatten with
    | ok p =>
      rw [hread] at hanswer
      cases hanswer
    | error e =>
      rw [hread] at hanswer
      have hkind : fault.kind = some e := Except.error.inj hanswer
      constructor <;> (rintro rfl; cases hkind)

/-- A ClientHello for `a.io`, as a handshake message. -/
def sampleMessage : List UInt8 :=
  [1, 0, 0, 56] ++ List.replicate 34 0 ++ [0, 0, 2, 0x13, 0x01, 1, 0, 0, 13] ++
    [0, 0, 0, 9, 0, 7, 0, 0, 4, 0x61, 0x2E, 0x69, 0x6F]

/-- The record of that message. -/
def wholeRecord : Record := ⟨1, sampleMessage, by decide, by decide⟩

/-- The message cut in two, in the middle of its header. -/
def cutRecords : List Record :=
  [⟨1, sampleMessage.take 3, by decide, by decide⟩, ⟨3, sampleMessage.drop 3, by decide, by decide⟩]

/-- The message in one record with a byte behind it; and in two records that come byte by byte. -/
theorem readClientHello_reassembles_sample : ∃ (t : CaseTable) (conn conn' : Conn)
    (raw : List UInt8) (rest : Conn), readIndexed t false conn = .ok (raw, "a.io", rest) ∧
      conn.flatten = raw ++ rest.flatten ∧
      [0xFF] <:+ (left (readIndexed t false conn)).flatten ∧
      (answer (readIndexed t false [record.write wholeRecord])).map Prod.snd =
        (answer (readIndexed t false conn')).map Prod.snd := by
  let t : CaseTable := ⟨id, fun _ h => h⟩
  let conn : Conn := [record.write wholeRecord ++ [0xFF]]
  let conn' : Conn := (cutRecords.flatMap record.write).map ([·])
  have hname : (readIndexed t false conn).map (fun p => p.2.1) = .ok "a.io" := by decide +kernel
  obtain ⟨⟨raw, name, rest⟩, hread, hname⟩ : ∃ p, readIndexed t false conn = .ok p ∧
      p.2.1 = "a.io" := by
    cases h : readIndexed t false conn with
    | error e =>
      rw [h] at hname
      cases hname
    | ok p =>
      rw [h] at hname
      exact ⟨p, rfl, Except.ok.inj hname⟩
  obtain rfl : name = "a.io" := hname
  have hall := readClientHello_reassembles t false conn
  have hwhole := readClientHello_reassembles t false [record.write wholeRecord]
  refine ⟨t, conn, conn', raw, rest, hread, (hall.1 raw "a.io" rest hread).1,
    hall.2.1 [] wholeRecord [0xFF] rfl ⟨1, 0, 0, 56, sampleMessage.drop 4, rfl, by decide⟩,
    hwhole.2.2.2.1 conn' [wholeRecord] cutRecords rfl ?_ (by decide +kernel) (by decide +kernel)
      rfl⟩
  decide +kernel

end PokrovCore.SmartAccess
