import PokrovCore.SmartAccess.HelloBounds

/-!
# SmartAccess/HelloGrammar — the messages a name is found in

The parser stops at the first thing it does not like; here is what it likes, said of the message as a
whole.  `steps_eq_ok_iff` is the engine: a run over the extensions succeeds exactly when each is
permitted, the host names are found, and no server name extension comes after the one that had the
host name.  The last condition is the parser's own: with one host name in total, it still refuses a
second server name extension behind it (`trailing_server_name_refused`).
-/

namespace PokrovCore.SmartAccess

open Wire Wire.Codec

/-! ## The grammar -/

/-- The host names in one extension. -/
def Extension.hosts (e : Extension) : List (List UInt8) :=
  if e.type = 0 then (e.serverNames.map hostsOf).getD [] else []

/-- An extension on its own: not Encrypted ClientHello unless that is approved, and if it is a server
name extension, a list with entries. -/
structure Permitted (external : Bool) (e : Extension) : Prop where
  visible : e.type = 0xfe0d → external = true
  list : e.type = 0 → ∃ names, e.serverNames = some names ∧ names ≠ []

/-- A ClientHello message of the declared length that has these extensions. -/
def HasExtensions (handshake : List UInt8) (es : List Extension) : Prop :=
  ∃ (hello : ClientHello) (a b c : UInt8),
    handshake = 1 :: a :: b :: c :: clientHello.write hello ∧
    nat24 a b c = (clientHello.write hello).length ∧
    hello.ciphers.1 ≠ [] ∧ hello.ciphers.1.length % 2 = 0 ∧ hello.compressions.1 ≠ [] ∧
    hello.extensions.1 = es.flatMap extension.write

/-- **The intended grammar**: the extensions are permitted and have one host name, whose normal form
this is. -/
def Intended (t : CaseTable) (external : Bool) (handshake : List UInt8) (es : List Extension)
    (name : String) : Prop :=
  HasExtensions handshake es ∧ (∀ e ∈ es, Permitted external e) ∧
    ∃ wire, es.flatMap Extension.hosts = [wire] ∧ normalizeDomain t wire = some name

/-- No server name extension follows one with a host name. -/
def HostLast (es : List Extension) : Prop :=
  es.Pairwise fun e f => e.hosts ≠ [] → f.type ≠ 0

/-! ## One extension -/

variable {t : CaseTable} {names : List ServerName}

theorem names_eq_ok_iff : ∀ {s s' : Option String},
    names.foldlM (nameStep t) s = .ok s' ↔ Found t (hostsOf names) s s' := by
  induction names with
  | nil =>
    intro s s'
    refine ⟨names_found, ?_⟩
    rintro (⟨-, rfl⟩ | ⟨-, wire, name, hnil, -⟩)
    · rfl
    · cases hnil
  | cons n names ih =>
    intro s s'
    refine ⟨names_found, fun h => ?_⟩
    rw [List.foldlM_cons]
    by_cases htype : n.nameType = 0
    · have hhosts : hostsOf (n :: names) = n.name :: hostsOf names := by simp [hostsOf, htype]
      rw [hhosts] at h
      obtain ⟨hnil, -⟩ | ⟨rfl, wire, name, hwire, hname, rfl⟩ := h
      · cases hnil
      · obtain ⟨rfl, hrest⟩ := List.cons.inj hwire
        have hstep : nameStep t none n = .ok (some name) := by
          rw [nameStep, if_pos htype, hname]
          rfl
        rw [hstep]
        exact ih.mpr (.inl ⟨hrest, rfl⟩)
    · have hhosts : hostsOf (n :: names) = hostsOf names := by simp [hostsOf, htype]
      rw [hhosts] at h
      rw [nameStep, if_neg htype]
      exact ih.mpr h

variable {e : Extension}

theorem serverNames_eq_some_iff :
    e.serverNames = some names ↔
      ∃ list, vec16.read e.body = some (list, []) ∧ list.1 = names.flatMap serverName.write := by
  unfold Extension.serverNames
  split
  · rename_i list hread
    rw [all_eq_some_iff serverName_write_ne]
    constructor
    · exact fun h => ⟨list, hread, h⟩
    · rintro ⟨list', hread', h⟩
      obtain ⟨rfl, -⟩ := Prod.mk.inj (Option.some.inj (hread.symm.trans hread'))
      exact h
  · rename_i hother
    constructor
    · exact fun h => by cases h
    · rintro ⟨list, hread, -⟩
      exact absurd hread (hother list)

/-- A list with entries is long enough, and the other way round. -/
theorem five_le_iff (h : e.serverNames = some names) :
    5 ≤ e.body.length ↔ names ≠ [] := by
  obtain ⟨list, hread, hlist⟩ := serverNames_eq_some_iff.mp h
  have hlength : e.body.length = 2 + (names.flatMap serverName.write).length := by
    rw [vec16.read_iff.mp hread, ← hlist, List.append_nil]
    exact List.length_append
  cases names with
  | nil => simp [hlength]
  | cons n names =>
    have hentry : 4 ≤ (serverName.write n).length := by
      have hname := List.length_pos_iff.mpr n.nonempty
      have hwrite : (serverName.write n).length = 1 + (2 + n.name.length) := by
        simp [serverName, equiv, prod, byte, Codec.filter, vec16, bytes16]
        omega
      omega
    rw [List.flatMap_cons, List.length_append] at hlength
    simp only [ne_eq, reduceCtorEq, not_false_eq_true, iff_true]
    omega

theorem hosts_of_serverNames (htype : e.type = 0) (h : e.serverNames = some names) :
    e.hosts = hostsOf names := by
  rw [Extension.hosts, if_pos htype, h]
  rfl

theorem hosts_of_type_ne (htype : e.type ≠ 0) : e.hosts = [] := if_neg htype

theorem found_nil_iff {s s' : Option String} : Found t [] s s' ↔ s' = s := by
  constructor
  · rintro (⟨-, h⟩ | ⟨-, wire, name, hnil, -⟩)
    · exact h
    · cases hnil
  · exact fun h => .inl ⟨rfl, h⟩

variable {external : Bool}

/-- **A server name extension**, when no name is known yet. -/
theorem serverNameStep_eq_ok_iff {s' : Option String} (htype : e.type = 0) :
    extensionStep t external none e = .ok s' ↔
      ∃ names, e.serverNames = some names ∧ names ≠ [] ∧ Found t (hostsOf names) none s' := by
  rw [extensionStep, if_neg (by rw [htype]; simp), if_pos htype]
  constructor
  · intro h
    split_ifs at h with hshort
    split at h
    · rename_i list hread
      obtain ⟨names, hlist, hsteps⟩ := (fold_eq_ok_iff serverName_write_ne le_rfl).mp h
      have hnames := serverNames_eq_some_iff.mpr ⟨list, hread, hlist⟩
      refine ⟨names, hnames, (five_le_iff hnames).mp ?_, names_eq_ok_iff.mp hsteps⟩
      exact Nat.le_of_not_lt fun hlt => hshort (.inr hlt)
    · cases h
  · rintro ⟨names, hnames, hne, hfound⟩
    obtain ⟨list, hread, hlist⟩ := serverNames_eq_some_iff.mp hnames
    have hlong := (five_le_iff hnames).mpr hne
    rw [if_neg (by simp; omega), hread]
    exact (fold_eq_ok_iff serverName_write_ne le_rfl).mpr
      ⟨names, hlist, names_eq_ok_iff.mpr hfound⟩

/-- **A step succeeds** when the extension is permitted, and not a server name extension once there
is a name. -/
theorem extensionStep_eq_ok_iff {s s' : Option String} :
    extensionStep t external s e = .ok s' ↔
      Permitted external e ∧ (s ≠ none → e.type ≠ 0) ∧ Found t e.hosts s s' := by
  by_cases htype : e.type = 0
  · cases s with
    | some name =>
      constructor
      · intro h
        rw [extensionStep, if_neg (by rw [htype]; simp), if_pos htype, if_pos (.inl rfl)] at h
        cases h
      · exact fun h => absurd htype (h.2.1 (by simp))
    | none =>
      rw [serverNameStep_eq_ok_iff htype]
      constructor
      · rintro ⟨names, hnames, hne, hfound⟩
        refine ⟨⟨fun hech => ?_, fun _ => ⟨names, hnames, hne⟩⟩, fun h => absurd rfl h, ?_⟩
        · rw [htype] at hech
          cases hech
        · rwa [hosts_of_serverNames htype hnames]
      · rintro ⟨hpermitted, -, hfound⟩
        obtain ⟨names, hnames, hne⟩ := hpermitted.list htype
        exact ⟨names, hnames, hne, by rwa [hosts_of_serverNames htype hnames] at hfound⟩
  · rw [hosts_of_type_ne htype, found_nil_iff, extensionStep]
    by_cases hech : e.type = 0xfe0d ∧ external = false
    · rw [if_pos hech]
      constructor
      · exact fun h => by cases h
      · exact fun h => absurd (h.1.visible hech.1) (by rw [hech.2]; simp)
    · rw [if_neg hech, if_neg htype]
      constructor
      · intro h
        refine ⟨⟨fun htype => ?_, fun h => absurd h htype⟩, fun _ => htype, (Except.ok.inj h).symm⟩
        simpa using fun hfalse => hech ⟨htype, hfalse⟩
      · exact fun h => by rw [h.2.2]

/-! ## All of them -/

/-- What is found in two parts, is found in the one and then in the other. -/
theorem found_append_iff {l l' : List (List UInt8)} {s s' : Option String} :
    Found t (l ++ l') s s' ↔ ∃ m, Found t l s m ∧ Found t l' m s' := by
  constructor
  · rintro (⟨hnil, rfl⟩ | ⟨rfl, wire, name, hone, hname, rfl⟩)
    · obtain ⟨rfl, rfl⟩ := List.append_eq_nil_iff.mp hnil
      exact ⟨s', .inl ⟨rfl, rfl⟩, .inl ⟨rfl, rfl⟩⟩
    · rcases List.append_eq_singleton_iff.mp hone with ⟨rfl, rfl⟩ | ⟨rfl, rfl⟩
      · exact ⟨none, .inl ⟨rfl, rfl⟩, .inr ⟨rfl, wire, name, rfl, hname, rfl⟩⟩
      · exact ⟨some name, .inr ⟨rfl, wire, name, rfl, hname, rfl⟩, .inl ⟨rfl, rfl⟩⟩
  · rintro ⟨m, h, h'⟩
    exact h.append h'

theorem Found.ne_none {l : List (List UInt8)} {s m : Option String} (h : Found t l s m)
    (hl : l ≠ []) : m ≠ none := by
  obtain ⟨hnil, -⟩ | ⟨-, wire, name, -, -, rfl⟩ := h
  · exact absurd hnil hl
  · simp

/-- **A run over the extensions succeeds** exactly so. -/
theorem steps_eq_ok_iff {es : List Extension} :
    ∀ {s s' : Option String}, es.foldlM (extensionStep t external) s = .ok s' ↔
      (∀ e ∈ es, Permitted external e) ∧ HostLast es ∧ (s ≠ none → ∀ e ∈ es, e.type ≠ 0) ∧
        Found t (es.flatMap Extension.hosts) s s' := by
  induction es with
  | nil =>
    intro s s'
    rw [List.flatMap_nil, found_nil_iff]
    constructor
    · exact fun h => ⟨by simp, .nil, by simp, (Except.ok.inj h).symm⟩
    · exact fun h => by rw [h.2.2.2]; rfl
  | cons e es ih =>
    intro s s'
    have hcons : (e :: es).foldlM (extensionStep t external) s = .ok s' ↔
        ∃ m, extensionStep t external s e = .ok m ∧
          es.foldlM (extensionStep t external) m = .ok s' := by
      rw [List.foldlM_cons]
      cases extensionStep t external s e with
      | error err =>
        constructor
        · exact fun h => by cases h
        · rintro ⟨m, hm, -⟩
          cases hm
      | ok m =>
        constructor
        · exact fun h => ⟨m, rfl, h⟩
        · rintro ⟨m', hm, h⟩
          obtain rfl := Except.ok.inj hm
          exact h
    rw [hcons, HostLast, List.pairwise_cons, List.forall_mem_cons, List.forall_mem_cons,
      List.flatMap_cons, found_append_iff]
    constructor
    · rintro ⟨m, hstep, hrest⟩
      obtain ⟨hpermitted, htype, hfound⟩ := extensionStep_eq_ok_iff.mp hstep
      obtain ⟨hall, hlast, hafter, hfound'⟩ := ih.mp hrest
      refine ⟨⟨hpermitted, hall⟩, ⟨fun f hf hhost => hafter (hfound.ne_none hhost) f hf, hlast⟩,
        fun hs => ⟨htype hs, hafter ?_⟩, m, hfound, hfound'⟩
      rw [hosts_of_type_ne (htype hs), found_nil_iff] at hfound
      rwa [hfound]
    · rintro ⟨⟨hpermitted, hall⟩, ⟨hhere, hlast⟩, hafter, m, hfound, hfound'⟩
      refine ⟨m, extensionStep_eq_ok_iff.mpr ⟨hpermitted, fun hs => (hafter hs).1, hfound⟩,
        ih.mpr ⟨hall, hlast, fun hm f hf => ?_, hfound'⟩⟩
      by_cases hhost : e.hosts = []
      · rw [hhost, found_nil_iff] at hfound
        exact (hafter (hfound ▸ hm)).2 f hf
      · exact hhere f hf hhost

/-! ## The message -/

theorem parseClientHelloSNI_eq_ok_iff {handshake : List UInt8} {name : String} :
    parseClientHelloSNI t external handshake = .ok name ↔
      ∃ es, HasExtensions handshake es ∧ es.foldlM (extensionStep t external) none =
        .ok (some name) := by
  constructor
  · intro h
    unfold parseClientHelloSNI at h
    split at h
    · rename_i kind a b c body
      split_ifs at h with hheader
      split at h
      · rename_i hello hread
        split_ifs at h with hshape
        split at h
        · rename_i n hfold
          obtain rfl := Except.ok.inj h
          obtain ⟨es, hes, hsteps⟩ := (fold_eq_ok_iff extension_write_ne le_rfl).mp hfold
          have hbody : body = clientHello.write hello := by
            rw [clientHello.read_iff.mp hread, List.append_nil]
          refine ⟨es, ⟨hello, a, b, c, by rw [hheader.1, hbody], by rw [← hbody, hheader.2], ?_,
            hshape.2.1, ?_, hes⟩, hsteps⟩
          · exact List.ne_nil_of_length_pos (by omega)
          · exact List.ne_nil_of_length_pos hshape.2.2
        · cases h
        · cases h
      · cases h
    · cases h
  · rintro ⟨es, ⟨hello, a, b, c, rfl, hlength, hciphers, heven, hcompressions, hes⟩, hsteps⟩
    have hread : clientHello.read (clientHello.write hello) = some (hello, []) :=
      clientHello.read_iff.mpr (List.append_nil _).symm
    have hpos := List.length_pos_iff.mpr hciphers
    have hfold : extension.fold (extensionStep t external) .invalid hello.extensions.1.length none
        hello.extensions.1 = .ok (some name) :=
      (fold_eq_ok_iff extension_write_ne le_rfl).mpr ⟨es, hes, hsteps⟩
    rw [parseClientHelloSNI, if_pos ⟨rfl, hlength.symm⟩, hread]
    simp only
    rw [if_pos ⟨by omega, heven, List.length_pos_iff.mpr hcompressions⟩, hfold]

/-- **The parser accepts exactly** the messages of the intended grammar in which no server name
extension follows the one with the host name, and gives the normal form of that host name; and no
index or slice is ever out of range. -/
theorem parse_accepts_iff (t : CaseTable) (external : Bool) (handshake : List UInt8)
    (name : String) :
    (parseIndexed t external handshake = .ok name ↔
      ∃ es, Intended t external handshake es name ∧ HostLast es) ∧
    parseIndexed t external handshake ≠ .error .outOfRange ∧
    parseIndexed t external handshake ≠ .error .exhausted := by
  rw [parseIndexed_eq]
  refine ⟨?_, ?_, ?_⟩
  · have hok : (parseClientHelloSNI t external handshake).mapError HelloError.fault = .ok name ↔
        parseClientHelloSNI t external handshake = .ok name := by
      cases parseClientHelloSNI t external handshake with
      | error e => simp [Except.mapError]
      | ok n => simp [Except.mapError]
    rw [hok, parseClientHelloSNI_eq_ok_iff]
    refine exists_congr fun es => ?_
    rw [steps_eq_ok_iff, Intended]
    constructor
    · rintro ⟨hes, hall, hlast, -, hfound⟩
      obtain ⟨-, hnone⟩ | ⟨-, wire, n, hwire, hname, hsome⟩ := hfound
      · cases hnone
      · obtain rfl := Option.some.inj hsome
        exact ⟨⟨hes, hall, wire, hwire, hname⟩, hlast⟩
    · rintro ⟨⟨hes, hall, wire, hwire, hname⟩, hlast⟩
      exact ⟨hes, hall, hlast, fun h => absurd rfl h, .inr ⟨rfl, wire, name, hwire, hname, rfl⟩⟩
  all_goals
    cases parseClientHelloSNI t external handshake with
    | error e => cases e <;> simp [Except.mapError, HelloError.fault]
    | ok n => simp [Except.mapError]

theorem permitted_of_entries {n : ℕ} (htype : e.type ≠ 0xfe0d)
    (h : e.serverNames.map List.length = some (n + 1)) : Permitted external e := by
  obtain ⟨names, hnames, hlength⟩ := Option.map_eq_some_iff.mp h
  exact ⟨fun hech => absurd hech htype, fun _ => ⟨names, hnames, List.ne_nil_of_length_eq_add_one hlength⟩⟩

/-- A server name extension with the host name `a.io`. -/
def hostExtension : Extension :=
  ⟨0, 0, [0, 7, 0, 0, 4, 0x61, 0x2E, 0x69, 0x6F], by decide⟩

/-- A server name extension with an entry that is no host name. -/
def otherExtension : Extension := ⟨0, 0, [0, 4, 1, 0, 1, 0x61], by decide⟩

def trailingHello : ClientHello where
  random := ⟨List.replicate 34 1, by decide⟩
  session := ⟨[5], by decide⟩
  ciphers := ⟨[0x13, 0x02], by decide⟩
  compressions := ⟨[0, 1], by decide⟩
  extensions := ⟨[hostExtension, otherExtension].flatMap extension.write, by decide +kernel⟩

/-- A message of the intended grammar that is refused: a server name extension without a host name
follows the one with the host name. -/
theorem trailing_server_name_refused : ∃ (t : CaseTable) (handshake : List UInt8)
    (es : List Extension), Intended t false handshake es "a.io" ∧
      parseIndexed t false handshake = .error (.invalid "") := by
  refine ⟨⟨id, fun _ h => h⟩, 1 :: 0 :: 0 :: 68 :: clientHello.write trailingHello,
    [hostExtension, otherExtension], ⟨?_, ?_, ?_⟩, by decide +kernel⟩
  · exact ⟨trailingHello, 0, 0, 68, rfl, by decide +kernel, by decide, by decide, by decide, rfl⟩
  · rw [List.forall_mem_cons, List.forall_mem_singleton]
    exact ⟨permitted_of_entries (n := 0) (by decide) (by decide +kernel),
      permitted_of_entries (n := 0) (by decide) (by decide +kernel)⟩
  · exact ⟨[0x61, 0x2E, 0x69, 0x6F], by decide +kernel, by decide +kernel⟩

end PokrovCore.SmartAccess
