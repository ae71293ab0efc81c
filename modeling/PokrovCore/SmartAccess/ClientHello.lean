import PokrovCore.Foundations.Wire
import PokrovCore.SmartAccess.DomainScope

/-!
# SmartAccess/ClientHello — the name in the TLS records a flow begins with

The records are read until they hold a whole ClientHello, and are replayed as they are.  The parser
walks the extensions, refuses Encrypted ClientHello unless the provider approves of it, and takes the
one host name there is.  `readClientHello_spec` says what the replayed records are when it accepts:
the writing of a ClientHello, perhaps with more after it, that has one host name.
-/

namespace PokrovCore.SmartAccess

open Wire Wire.Codec

/-! ## The format -/

/-- An entry of a server name list. -/
structure ServerName where
  nameType : UInt8
  name : List UInt8
  short : name.length < 65536
  nonempty : name ≠ []

def serverName : Codec ServerName :=
  (byte.prod (vec16.filter fun v => v.1 ≠ [])).equiv
    { toFun := fun p => ⟨p.1, p.2.1.1, p.2.1.2, p.2.2⟩
      invFun := fun n => (n.nameType, ⟨⟨n.name, n.short⟩, n.nonempty⟩)
      left_inv := fun _ => rfl
      right_inv := fun _ => rfl }

structure Extension where
  typeHigh : UInt8
  typeLow : UInt8
  body : List UInt8
  short : body.length < 65536

def extension : Codec Extension :=
  (byte.prod (byte.prod vec16)).equiv
    { toFun := fun p => ⟨p.1, p.2.1, p.2.2.1, p.2.2.2⟩
      invFun := fun e => (e.typeHigh, e.typeLow, ⟨e.body, e.short⟩)
      left_inv := fun _ => rfl
      right_inv := fun _ => rfl }

def Extension.type (e : Extension) : ℕ := nat16 e.typeHigh e.typeLow

/-- The body of a ClientHello: version and random, and four byte strings. -/
structure ClientHello where
  random : {v : List UInt8 // v.length = 34}
  session : {v : List UInt8 // v.length < 256}
  ciphers : {v : List UInt8 // v.length < 65536}
  compressions : {v : List UInt8 // v.length < 256}
  extensions : {v : List UInt8 // v.length < 65536}

def clientHello : Codec ClientHello :=
  ((fixed 34).prod (vec8.prod (vec16.prod (vec8.prod vec16)))).equiv
    { toFun := fun p => ⟨p.1, p.2.1, p.2.2.1, p.2.2.2.1, p.2.2.2.2⟩
      invFun := fun h => (h.random, h.session, h.ciphers, h.compressions, h.extensions)
      left_inv := fun _ => rfl
      right_inv := fun _ => rfl }

/-- The handshake message of a ClientHello. -/
def ClientHello.message (h : ClientHello) : List UInt8 :=
  1 :: (bytes24 (clientHello.write h).length ++ clientHello.write h)

/-- A handshake record. -/
structure Record where
  minor : UInt8
  body : List UInt8
  short : body.length < 65536
  nonempty : body ≠ []

def record : Codec Record :=
  ((byte.prod (vec16.filter fun v => v.1 ≠ [])).after [22, 3]).equiv
    { toFun := fun p => ⟨p.1, p.2.1.1, p.2.1.2, p.2.2⟩
      invFun := fun r => (r.minor, ⟨⟨r.body, r.short⟩, r.nonempty⟩)
      left_inv := fun _ => rfl
      right_inv := fun _ => rfl }

/-! ## The parser -/

inductive HelloError
  | invalid
  | echUnsupported
  deriving DecidableEq, Repr

/-- One entry of a server name list: the first host name is the server name, a second one an
error. -/
def nameStep (t : CaseTable) (serverName : Option String) (n : ServerName) :
    Except HelloError (Option String) :=
  if n.nameType = 0 then
    if serverName.isSome then .error .invalid
    else match normalizeDomain t n.name with
      | none => .error .invalid
      | some normalized => .ok (some normalized)
  else .ok serverName

/-- One extension. -/
def extensionStep (t : CaseTable) (externalECHOuterSNI : Bool) (found : Option String)
    (e : Extension) : Except HelloError (Option String) :=
  if e.type = 0xfe0d ∧ externalECHOuterSNI = false then .error .echUnsupported
  else if e.type = 0 then
    if found.isSome ∨ e.body.length < 5 then .error .invalid
    else match vec16.read e.body with
      | some (list, []) => serverName.fold (nameStep t) .invalid list.1.length found list.1
      | _ => .error .invalid
  else .ok found

/-- **The server name of a ClientHello message.** -/
def parseClientHelloSNI (t : CaseTable) (externalECHOuterSNI : Bool) :
    List UInt8 → Except HelloError String
  | kind :: a :: b :: c :: body =>
    if kind = 1 ∧ body.length = nat24 a b c then
      match clientHello.read body with
      | some (h, []) =>
        if 2 ≤ h.ciphers.1.length ∧ h.ciphers.1.length % 2 = 0 ∧ 1 ≤ h.compressions.1.length then
          match extension.fold (extensionStep t externalECHOuterSNI) .invalid
              h.extensions.1.length none h.extensions.1 with
          | .ok (some name) => .ok name
          | .ok none => .error .invalid
          | .error e => .error e
        else .error .invalid
      | _ => .error .invalid
    else .error .invalid
  | _ => .error .invalid

/-- The limit on what is read before a name is known. -/
def helloMaximum : ℕ := 65535

/-- The length of the message that begins here, once its header is there. -/
def expectedHandshake : List UInt8 → Except HelloError (Option ℕ)
  | kind :: a :: b :: c :: _ =>
    if kind ≠ 1 ∨ helloMaximum < 4 + nat24 a b c ∨ 4 + nat24 a b c < 42 then .error .invalid
    else .ok (some (4 + nat24 a b c))
  | _ => .ok none

/-- Read record after record, until they hold the whole message. -/
def readRecords (t : CaseTable) (externalECHOuterSNI : Bool) :
    ℕ → List UInt8 → List UInt8 → List UInt8 → Except HelloError (List UInt8 × String)
  | 0, _, _, _ => .error .invalid
  | fuel + 1, raw, handshake, stream =>
    if helloMaximum ≤ raw.length then .error .invalid
    else match record.read stream with
      | none => .error .invalid
      | some (r, rest) =>
        if helloMaximum < raw.length + 5 + r.body.length then .error .invalid
        else match expectedHandshake (handshake ++ r.body) with
          | .error e => .error e
          | .ok (some n) =>
            if n ≤ (handshake ++ r.body).length then
              (parseClientHelloSNI t externalECHOuterSNI ((handshake ++ r.body).take n)).map
                fun name => (raw ++ record.write r, name)
            else readRecords t externalECHOuterSNI fuel (raw ++ record.write r)
              (handshake ++ r.body) rest
          | .ok none => readRecords t externalECHOuterSNI fuel (raw ++ record.write r)
              (handshake ++ r.body) rest

/-- **Read the ClientHello of a stream**: the records to replay, and the server name.  A stream has
fewer records than bytes. -/
def readClientHello (t : CaseTable) (externalECHOuterSNI : Bool) (stream : List UInt8) :
    Except HelloError (List UInt8 × String) :=
  readRecords t externalECHOuterSNI (stream.length + 1) [] [] stream

/-! ## Host names -/

/-- The host names of a server name list. -/
def hostsOf (names : List ServerName) : List (List UInt8) :=
  (names.filter fun n => n.nameType = 0).map ServerName.name

/-- The entries of a server name extension. -/
def Extension.serverNames (e : Extension) : Option (List ServerName) :=
  match vec16.read e.body with
  | some (list, []) => serverName.all list.1
  | _ => none

/-- The host names of all server name extensions. -/
def hostNamesOf : List Extension → Option (List (List UInt8))
  | [] => some []
  | e :: l =>
    if e.type = 0 then do
      let names ← e.serverNames
      let rest ← hostNamesOf l
      some (hostsOf names ++ rest)
    else hostNamesOf l

/-- **The host names of a ClientHello.** -/
def ClientHello.hostNames (h : ClientHello) : Option (List (List UInt8)) :=
  (extension.all h.extensions.1).bind hostNamesOf

/-- **The records carry a ClientHello with one host name**, whatever follows it. -/
def Replays (raw wire : List UInt8) : Prop :=
  ∃ (records : List Record) (h : ClientHello) (more : List UInt8),
    raw = records.flatMap record.write ∧ records.flatMap Record.body = h.message ++ more ∧
      h.hostNames = some [wire]

theorem serverName_write_ne (n : ServerName) : serverName.write n ≠ [] := List.cons_ne_nil _ _
theorem extension_write_ne (e : Extension) : extension.write e ≠ [] := List.cons_ne_nil _ _
theorem record_write_ne (r : Record) : record.write r ≠ [] := List.cons_ne_nil _ _

/-! ## What is accepted -/

/-- The outcome of a loop over items with these host names: nothing was found and nothing changed,
or the one host name was found. -/
def Found (t : CaseTable) (hosts : List (List UInt8)) (before after : Option String) : Prop :=
  hosts = [] ∧ after = before ∨
    before = none ∧ ∃ wire name, hosts = [wire] ∧ normalizeDomain t wire = some name ∧
      after = some name

variable {t : CaseTable}

/-- **One loop after another.** -/
theorem Found.append {hosts hosts' : List (List UInt8)} {a b c : Option String}
    (h : Found t hosts a b) (h' : Found t hosts' b c) : Found t (hosts ++ hosts') a c := by
  rcases h with ⟨rfl, rfl⟩ | ⟨rfl, wire, name, rfl, hname, rfl⟩
  · exact h'
  · rcases h' with ⟨rfl, rfl⟩ | ⟨hnone, _⟩
    · exact .inr ⟨rfl, wire, name, rfl, hname, rfl⟩
    · cases hnone

theorem nameStep_found {s s' : Option String} {n : ServerName} (h : nameStep t s n = .ok s') :
    Found t (hostsOf [n]) s s' := by
  unfold nameStep at h
  split_ifs at h with htype hfound
  · split at h
    · cases h
    · rename_i name hname
      obtain rfl := Except.ok.inj h
      refine .inr ⟨Option.not_isSome_iff_eq_none.mp hfound, n.name, name, ?_, hname, rfl⟩
      simp [hostsOf, htype]
  · exact .inl ⟨by simp [hostsOf, htype], (Except.ok.inj h).symm⟩

theorem names_found {names : List ServerName} : ∀ {s s' : Option String},
    names.foldlM (nameStep t) s = .ok s' → Found t (hostsOf names) s s' := by
  induction names with
  | nil => exact fun h => .inl ⟨rfl, (Except.ok.inj h).symm⟩
  | cons n names ih =>
    intro s s' h
    rw [List.foldlM_cons] at h
    cases hn : nameStep t s n with
    | error e =>
      rw [hn] at h
      cases h
    | ok s₁ =>
      rw [hn] at h
      have hfound := (nameStep_found hn).append (ih h)
      rwa [hostsOf, hostsOf, ← List.map_append, ← List.filter_append] at hfound

theorem hostNamesOf_cons {e : Extension} {l : List Extension} {hosts hosts' : List (List UInt8)}
    (h : hostNamesOf [e] = some hosts) (h' : hostNamesOf l = some hosts') :
    hostNamesOf (e :: l) = some (hosts ++ hosts') := by
  unfold hostNamesOf at h ⊢
  split_ifs at h ⊢ with htype
  · obtain ⟨names, hnames, h⟩ := Option.bind_eq_some_iff.mp h
    obtain rfl : hostsOf names ++ [] = hosts := Option.some.inj h
    rw [hnames, h', List.append_nil]
    rfl
  · obtain rfl := Option.some.inj h
    exact h'

variable {external : Bool}

theorem extensionStep_found {s s' : Option String} {e : Extension}
    (h : extensionStep t external s e = .ok s') :
    ∃ hosts, hostNamesOf [e] = some hosts ∧ Found t hosts s s' := by
  unfold extensionStep at h
  split_ifs at h with _ htype
  · split at h
    · rename_i list hread
      obtain ⟨names, hlist, hnames⟩ := (fold_eq_ok_iff serverName_write_ne le_rfl).mp h
      refine ⟨hostsOf names, ?_, names_found hnames⟩
      have hentries : e.serverNames = some names := by
        rw [Extension.serverNames, hread]
        exact (all_eq_some_iff serverName_write_ne).mpr hlist
      rw [hostNamesOf, if_pos htype, hentries]
      exact congrArg some (List.append_nil _)
    · cases h
  · exact ⟨[], by rw [hostNamesOf, if_neg htype]; rfl, .inl ⟨rfl, (Except.ok.inj h).symm⟩⟩

theorem extensions_found {es : List Extension} :
    ∀ {s s' : Option String}, es.foldlM (extensionStep t external) s = .ok s' →
      ∃ hosts, hostNamesOf es = some hosts ∧ Found t hosts s s' := by
  induction es with
  | nil => exact fun h => ⟨[], rfl, .inl ⟨rfl, (Except.ok.inj h).symm⟩⟩
  | cons e es ih =>
    intro s s' h
    rw [List.foldlM_cons] at h
    cases he : extensionStep t external s e with
    | error err =>
      rw [he] at h
      cases h
    | ok s₁ =>
      rw [he] at h
      obtain ⟨hosts, hhosts, hfound⟩ := extensionStep_found he
      obtain ⟨hosts', hhosts', hfound'⟩ := ih h
      exact ⟨hosts ++ hosts', hostNamesOf_cons hhosts hhosts', hfound.append hfound'⟩

/-- **An accepted message is a ClientHello with one host name**, whose normal form is the name. -/
theorem parseClientHelloSNI_spec {handshake : List UInt8} {name : String}
    (h : parseClientHelloSNI t external handshake = .ok name) :
    ∃ (hello : ClientHello) (wire : List UInt8), handshake = hello.message ∧
      hello.hostNames = some [wire] ∧ normalizeDomain t wire = some name := by
  unfold parseClientHelloSNI at h
  split at h
  · rename_i kind a b c body
    split_ifs at h with hheader
    split at h
    · rename_i hello hread
      split_ifs at h
      split at h
      · rename_i n hfold
        obtain rfl := Except.ok.inj h
        obtain ⟨es, hes, hsteps⟩ := (fold_eq_ok_iff extension_write_ne le_rfl).mp hfold
        obtain ⟨hosts, hhosts, hfound⟩ := extensions_found hsteps
        obtain ⟨_, hnone⟩ | ⟨_, wire, name, rfl, hname, hsome⟩ := hfound
        · cases hnone
        · obtain rfl := Option.some.inj hsome
          refine ⟨hello, wire, ?_, ?_, hname⟩
          · have hbody : body = clientHello.write hello := by
              rw [clientHello.read_iff.mp hread, List.append_nil]
            rw [ClientHello.message, ← hbody, hheader.1, hheader.2, bytes24_nat24]
            rfl
          · rw [ClientHello.hostNames, (all_eq_some_iff extension_write_ne).mpr hes]
            exact hhosts
      · cases h
      · cases h
    · cases h
  · cases h

theorem readRecords_spec :
    ∀ {fuel : ℕ} {raw handshake stream raw' : List UInt8} {name : String},
      readRecords t external fuel raw handshake stream = .ok (raw', name) →
      ∃ (records : List Record) (rest : List UInt8) (n : ℕ),
        stream = records.flatMap record.write ++ rest ∧ raw' = raw ++ records.flatMap record.write ∧
        parseClientHelloSNI t external ((handshake ++ records.flatMap Record.body).take n) =
          .ok name
  | 0, _, _, _, _, _, h => by cases h
  | fuel + 1, raw, handshake, stream, raw', name, h => by
    unfold readRecords at h
    split_ifs at h
    split at h
    · cases h
    · rename_i r rest hread
      have hstream := record.read_iff.mp hread
      -- one record more, and what the rest of the loop has read
      have hcons : readRecords t external fuel (raw ++ record.write r) (handshake ++ r.body) rest =
            .ok (raw', name) →
          ∃ (records : List Record) (rest : List UInt8) (n : ℕ),
            stream = records.flatMap record.write ++ rest ∧
            raw' = raw ++ records.flatMap record.write ∧
            parseClientHelloSNI t external ((handshake ++ records.flatMap Record.body).take n) =
              .ok name := by
        intro h
        obtain ⟨records, rest', n, hrest, hraw, hparse⟩ := readRecords_spec h
        refine ⟨r :: records, rest', n, ?_, ?_, ?_⟩
        · rw [hstream, hrest, List.flatMap_cons, List.append_assoc]
        · rw [hraw, List.flatMap_cons, List.append_assoc]
        · rwa [List.flatMap_cons, ← List.append_assoc]
      split_ifs at h
      split at h
      · cases h
      · rename_i n hn
        split_ifs at h with hlen
        · cases hparse : parseClientHelloSNI t external ((handshake ++ r.body).take n) with
          | error e =>
            rw [hparse] at h
            cases h
          | ok name' =>
            rw [hparse] at h
            obtain ⟨rfl, rfl⟩ := Prod.mk.inj (Except.ok.inj h)
            refine ⟨[r], rest, n, ?_, ?_, ?_⟩
            · rw [hstream, List.flatMap_singleton]
            · rw [List.flatMap_singleton]
            · rw [List.flatMap_singleton, hparse]
        · exact hcons h
      · exact hcons h

/-- **What is accepted of a stream**: its first records, which carry a ClientHello with one host
name. -/
theorem readClientHello_spec {stream raw : List UInt8} {name : String}
    (h : readClientHello t external stream = .ok (raw, name)) :
    raw <+: stream ∧ ∃ wire, Replays raw wire ∧ normalizeDomain t wire = some name := by
  obtain ⟨records, rest, n, hstream, hraw, hparse⟩ := readRecords_spec h
  obtain ⟨hello, wire, hmessage, hnames, hname⟩ := parseClientHelloSNI_spec hparse
  have hbodies := (List.take_append_drop n (records.flatMap Record.body)).symm
  rw [List.nil_append] at hmessage
  rw [hmessage] at hbodies
  exact ⟨⟨rest, by rw [hraw, hstream]; rfl⟩, wire, ⟨records, hello, _, hraw, hbodies, hnames⟩, hname⟩

end PokrovCore.SmartAccess
