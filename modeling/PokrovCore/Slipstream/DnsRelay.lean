import Mathlib.Data.List.Nodup
import Mathlib.Data.List.Perm.Subperm
import PokrovCore.Foundations.Machine
import PokrovCore.Slipstream.LocalIo

/-!
# Slipstream/DnsRelay — the queries a relay forwards are those its child sealed

The relay of a process takes datagrams from a local socket, opens those of its child, and forwards
what they carry; whatever else is on the machine may send to that socket, from any address, and
repeat, hold back and change what it has seen.  It cannot compute a code without the key: a datagram
with a valid code carries one that the child or the parent computed (`Fair`).  The uses of the codes
are apart, so it is one of the child's queries, and the window lets each of them pass once.
-/

namespace PokrovCore.Slipstream

/-- An address of a socket. -/
structure AddrPort where
  address : String
  port : ℕ
  deriving DecidableEq, Repr

/-- A query: its number and its payload. -/
abbrev Query := ℕ × List UInt8

/-- **The relay**, with the queries it forwarded, those its child sealed, and the inputs of all codes
that were computed with the key. -/
structure Relay where
  peer : Option AddrPort
  queries : ReplayWindow 64
  sequence : ℕ
  stopped : Bool
  forwarded : List Query
  sealedQueries : List Query
  computed : List (List UInt8)
  deriving DecidableEq

/-- What may happen.  The child seals and proves; the parent takes the message of a child that is
ready, answers a handshake and seals replies; anyone delivers a datagram. -/
inductive Event
  | ready (message : List UInt8)
  | sealQuery (sequence : ℕ) (payload : List UInt8)
  | prove (message : List UInt8)
  | authenticate (nonce reply : List UInt8)
  | query (packet : List UInt8) (peer : AddrPort) (writeErr : Bool)
  | reply (payload : List UInt8) (writeErr : Bool)
  | stop

namespace Relay

variable (auth : LocalAuth) (r : Relay)

/-- A new relay, before its child has reported a port. -/
def start : Relay := ⟨none, .empty 64, 0, false, [], [], []⟩

def setPeer (peer : AddrPort) : Relay := { r with peer := some peer }

/-- **An iteration of `forwardQueries`.** -/
def forwardQuery (packet : List UInt8) (peer : AddrPort) (writeErr : Bool) : Relay :=
  match auth.openDNS MacUse.dnsQuery.domain packet with
  | (payload, sequence, true) =>
    match if r.peer = some peer then r.queries.accept sequence else none with
    | some queries =>
      { r with
        queries
        forwarded := r.forwarded ++ [(sequence, payload)]
        stopped := r.stopped || writeErr }
    | none => r
  | _ => r

/-- **An iteration of `forwardReplies`**, with what it sends. -/
def forwardReply (payload : List UInt8) (writeErr : Bool) : Relay × Option (List UInt8) :=
  match r.peer with
  | some _ =>
    let sequence := (r.sequence + 1) % 2 ^ 64
    ({ r with
        sequence
        stopped := r.stopped || writeErr
        computed := auth.input .dnsReply (auth.frame sequence payload) :: r.computed },
      some (auth.sealDNS MacUse.dnsReply.domain sequence payload))
  | none => (r, none)

/-- **One event**, with what is sent on the local sockets. -/
def step : Event → Option (Relay × Option (List UInt8))
  | .ready message =>
    match auth.parseReady message with
    | some (_, udpPort) => some (r.setPeer ⟨"127.0.0.1", udpPort⟩, none)
    | none => none
  | .sealQuery sequence payload =>
    some ({ r with
      sealedQueries := r.sealedQueries ++ [(sequence, payload)]
      computed := auth.input .dnsQuery (auth.frame sequence payload) :: r.computed },
      some (auth.sealDNS MacUse.dnsQuery.domain sequence payload))
  | .prove message =>
    some ({ r with computed := auth.input .childProof message :: r.computed },
      some (auth.mac MacUse.childProof.domain [message]))
  | .authenticate nonce reply =>
    match auth.authenticate nonce reply with
    | some proof =>
      some ({ r with computed := auth.input .parentProof (nonce ++ reply.take 32) :: r.computed },
        some proof)
    | none => none
  | .query packet peer writeErr =>
    if r.stopped then none else some (r.forwardQuery auth packet peer writeErr, none)
  | .reply payload writeErr => if r.stopped then none else some (r.forwardReply auth payload writeErr)
  | .stop => some ({ r with stopped := true }, none)

/-- The machine of a relay. -/
def machine : Machine Relay Event (Option (List UInt8)) := ⟨fun r e => r.step auth e⟩

/-- **What is assumed of the two.**  The child numbers its queries apart, in eight bytes; and a
datagram whose last bytes are the code of what stands before them, as a query, has the code of an
input for which one was computed with the key. -/
def Fair : Event → Prop
  | .sealQuery sequence _ => sequence < 2 ^ 64 ∧ sequence ∉ r.sealedQueries.map (·.1)
  | .query packet _ _ => ∀ message, packet = message ++ auth.mac MacUse.dnsQuery.domain [message] →
      auth.input .dnsQuery message ∈ r.computed
  | _ => True

/-- **What holds between two events.** -/
structure Sound : Prop where
  numbers : (r.sealedQueries.map (·.1)).Nodup
  bounded : ∀ q ∈ r.sealedQueries, q.1 < 2 ^ 64
  computed : ∀ x ∈ r.computed,
    (∃ q ∈ r.sealedQueries, x = auth.input .dnsQuery (auth.frame q.1 q.2)) ∨
      ∃ u m, u ≠ MacUse.dnsQuery ∧ x = auth.input u m
  forwarded : ∀ q ∈ r.forwarded, q ∈ r.sealedQueries
  once : (r.forwarded.map (·.1)).Nodup
  seen : r.queries.Seen (r.forwarded.map (·.1))

variable {auth r} {r' : Relay} {e : Event} {o : Option (List UInt8)}

theorem sound_start (auth : LocalAuth) : Sound auth start :=
  ⟨by simp [start], by simp [start], by simp [start], by simp [start], by simp [start],
    ReplayWindow.seen_empty 64⟩

/-- **An opened query is one of the child's.** -/
theorem Sound.sealed (hr : Sound auth r) {packet payload : List UInt8} {sequence : ℕ}
    {peer : AddrPort} {writeErr : Bool} (hfair : Fair auth r (.query packet peer writeErr))
    (hopen : auth.openDNS MacUse.dnsQuery.domain packet = (payload, sequence, true)) :
    (sequence, payload) ∈ r.sealedQueries := by
  obtain ⟨hpacket, hbound⟩ := auth.openDNS_eq hopen
  rcases hr.computed _ (hfair _ hpacket) with ⟨q, hq, hinput⟩ | ⟨u, m, hu, hinput⟩
  · obtain ⟨rfl, rfl⟩ :=
      auth.frame_injective hbound (hr.bounded q hq) (auth.input_injective hinput)
    exact hq
  · exact absurd hinput.symm (auth.input_ne hu m _)

/-- A code of another use, or none, changes nothing else. -/
theorem Sound.other (hr : Sound auth r) (hsealed : r'.sealedQueries = r.sealedQueries)
    (hforwarded : r'.forwarded = r.forwarded) (hqueries : r'.queries = r.queries)
    (hcomputed : r'.computed = r.computed ∨
      ∃ u m, u ≠ MacUse.dnsQuery ∧ r'.computed = auth.input u m :: r.computed) :
    Sound auth r' := by
  refine ⟨hsealed ▸ hr.numbers, hsealed ▸ hr.bounded, ?_, ?_, hforwarded ▸ hr.once, ?_⟩
  · rw [hsealed]
    rcases hcomputed with h | ⟨u, m, hu, h⟩ <;> rw [h]
    · exact hr.computed
    · exact List.forall_mem_cons.mpr ⟨.inr ⟨u, m, hu, rfl⟩, hr.computed⟩
  · rw [hsealed, hforwarded]
    exact hr.forwarded
  · rw [hqueries, hforwarded]
    exact hr.seen

/-- **Every event keeps this.** -/
theorem Sound.step (hr : Sound auth r) (hfair : Fair auth r e)
    (hs : (machine auth).step r e = some (r', o)) : Sound auth r' := by
  change r.step auth e = some (r', o) at hs
  cases e with
  | ready message =>
    simp only [Relay.step] at hs
    split at hs
    · cases hs
      exact hr.other rfl rfl rfl (.inl rfl)
    · cases hs
  | sealQuery sequence payload =>
    cases hs
    obtain ⟨hbound, hfresh⟩ := hfair
    refine ⟨?_, ?_, ?_, fun q hq => List.mem_append_left _ (hr.forwarded q hq), hr.once, hr.seen⟩
    · rw [List.map_append, List.nodup_append]
      refine ⟨hr.numbers, by simp, ?_⟩
      rintro n hn m hm rfl
      obtain rfl : n = sequence := List.mem_singleton.mp hm
      exact hfresh hn
    · exact List.forall_mem_append.mpr ⟨hr.bounded, by simpa using hbound⟩
    · refine List.forall_mem_cons.mpr ⟨.inl ⟨(sequence, payload), by simp, rfl⟩, fun x hx => ?_⟩
      exact (hr.computed x hx).imp_left fun ⟨q, hq, h⟩ => ⟨q, List.mem_append_left _ hq, h⟩
  | prove message =>
    cases hs
    exact hr.other rfl rfl rfl (.inr ⟨.childProof, message, by decide, rfl⟩)
  | authenticate nonce reply =>
    simp only [Relay.step] at hs
    split at hs
    · cases hs
      exact hr.other rfl rfl rfl (.inr ⟨.parentProof, _, by decide, rfl⟩)
    · cases hs
  | query packet peer writeErr =>
    obtain ⟨-, hs⟩ := Option.ite_none_left_eq_some.mp hs
    cases hs
    unfold forwardQuery
    split
    · rename_i payload sequence hopen
      split
      · rename_i queries haccept
        obtain ⟨-, haccept⟩ := Option.ite_none_right_eq_some.mp haccept
        have hnew := hr.seen.fresh haccept
        refine ⟨hr.numbers, hr.bounded, hr.computed, ?_, ?_, ?_⟩
        · exact List.forall_mem_append.mpr
            ⟨hr.forwarded, by simpa using hr.sealed hfair hopen⟩
        · rw [List.map_append, List.nodup_append]
          refine ⟨hr.once, by simp, ?_⟩
          rintro n hn m hm rfl
          obtain rfl : n = sequence := List.mem_singleton.mp hm
          exact hnew hn
        · -- the window does not care for the order in which it saw them
          intro n hn
          refine hr.seen.accept haccept n ?_
          simpa [or_comm] using hn
      · exact hr
    · exact hr
  | reply payload writeErr =>
    obtain ⟨-, hs⟩ := Option.ite_none_left_eq_some.mp hs
    unfold forwardReply at hs
    split at hs
    · cases hs
      exact hr.other rfl rfl rfl (.inr ⟨.dnsReply, _, by decide, rfl⟩)
    · cases hs
      exact hr
  | stop =>
    cases hs
    exact hr.other rfl rfl rfl (.inl rfl)

/-- What is forwarded came from the peer that was reported. -/
theorem forwarded_from_peer (hs : (machine auth).step r e = some (r', o))
    (hne : r'.forwarded ≠ r.forwarded) :
    ∃ packet peer writeErr, e = .query packet peer writeErr ∧ r.peer = some peer := by
  change r.step auth e = some (r', o) at hs
  cases e with
  | query packet peer writeErr =>
    obtain ⟨-, hs⟩ := Option.ite_none_left_eq_some.mp hs
    cases hs
    refine ⟨packet, peer, writeErr, rfl, ?_⟩
    unfold forwardQuery at hne
    split at hne
    · split at hne
      · rename_i haccept
        exact (Option.ite_none_right_eq_some.mp haccept).1
      · exact absurd rfl hne
    · exact absurd rfl hne
  | ready message =>
    simp only [Relay.step] at hs
    split at hs <;> cases hs
    exact absurd rfl hne
  | authenticate nonce reply =>
    simp only [Relay.step] at hs
    split at hs <;> cases hs
    exact absurd rfl hne
  | reply payload writeErr =>
    obtain ⟨-, hs⟩ := Option.ite_none_left_eq_some.mp hs
    unfold forwardReply at hs
    split at hs <;> cases hs <;> exact absurd rfl hne
  | _ =>
    cases hs
    exact absurd rfl hne

/-- **The integrity of the relay.**  In every run with a child that numbers its queries apart and
with nobody else who can compute codes: the queries that were forwarded are among those the child
sealed, no one of them twice, and so are their payloads, as often at most as they were sealed; one
is forwarded only when it comes from the peer that was reported.  What is sealed, with a number from
one and a payload, opens to what it was made of; and where the keyed function does not collide, a
code that is valid in one use is valid for no message of another. -/
theorem relay_integrity (auth : LocalAuth)
    (run : (machine auth).ReachesIf (Fair auth) start r) :
    r.forwarded.Subperm r.sealedQueries ∧
    (r.forwarded.map (·.2)).Subperm (r.sealedQueries.map (·.2)) ∧
    (∀ q, r.sealedQueries.count q ≤ 1 ∧ r.forwarded.count q ≤ r.sealedQueries.count q) ∧
    (∀ e r' o, (machine auth).step r e = some (r', o) → r'.forwarded ≠ r.forwarded →
      ∃ packet peer writeErr, e = .query packet peer writeErr ∧ r.peer = some peer) ∧
    (∀ domain sequence payload, 1 ≤ sequence → sequence < 2 ^ 64 → payload ≠ [] →
      auth.openDNS domain (auth.sealDNS domain sequence payload) = (payload, sequence, true)) ∧
    ∀ S : Set (List UInt8), Set.InjOn auth.hmac S → ∀ u v m m' tag, u ≠ v →
      auth.input u m ∈ S → auth.input v m' ∈ S → auth.Valid u m tag → ¬auth.Valid v m' tag := by
  have hr : Sound auth r := run.invariant (fun _ _ _ _ hC hs h => h.step hC hs) (sound_start auth)
  have hsub : r.forwarded.Subperm r.sealedQueries :=
    List.subperm_of_subset (List.Nodup.of_map _ hr.once) hr.forwarded
  have hpayloads : (r.forwarded.map (·.2)).Subperm (r.sealedQueries.map (·.2)) := by
    obtain ⟨l, hperm, hl⟩ := hsub
    exact ⟨l.map (·.2), hperm.map _, hl.map _⟩
  refine ⟨hsub, hpayloads, fun q => ⟨?_, hsub.count_le q⟩,
    fun e r' o hs hne => forwarded_from_peer hs hne,
    fun domain sequence payload h h' hp => auth.openDNS_sealDNS domain h h' hp,
    fun S hS u v m m' tag huv hm hm' h => h.apart hS huv hm hm'⟩
  exact List.nodup_iff_count_le_one.mp (List.Nodup.of_map _ hr.numbers) q

/-- A query that the child sealed may be delivered, by anyone and at any time. -/
theorem fair_sealed {sequence : ℕ} {payload : List UInt8}
    (h : auth.input .dnsQuery (auth.frame sequence payload) ∈ r.computed) (peer : AddrPort)
    (writeErr : Bool) :
    Fair auth r (.query (auth.sealDNS MacUse.dnsQuery.domain sequence payload) peer writeErr) := by
  intro message hmessage
  have hlen : (auth.mac MacUse.dnsQuery.domain [auth.frame sequence payload]).length =
      (auth.mac MacUse.dnsQuery.domain [message]).length :=
    (auth.hmac_length _).trans (auth.hmac_length _).symm
  exact List.append_inj_left' hmessage hlen ▸ h

def sampleAuth : LocalAuth where
  hmac := fun _ => List.replicate 32 0
  hmac_length := fun _ => List.length_replicate
  generation := List.replicate 16 0
  generation_length := List.length_replicate

/-- The child seals one query, which is delivered twice, and then from elsewhere. -/
theorem relay_integrity_sample : ∃ r, (machine sampleAuth).ReachesIf (Fair sampleAuth) start r ∧
    r.forwarded = [(1, [7])] ∧ r.forwarded.Subperm r.sealedQueries := by
  let frame := sampleAuth.sealDNS MacUse.dnsQuery.domain 1 [7]
  let input := sampleAuth.input .dnsQuery (sampleAuth.frame 1 [7])
  let peer : AddrPort := ⟨"127.0.0.1", 53⟩
  let known : Relay := ⟨some peer, .empty 64, 0, false, [], [], []⟩
  let asked : Relay := { known with sealedQueries := [(1, [7])], computed := [input] }
  let done : Relay := { asked with queries := ⟨1, 1#64⟩, forwarded := [(1, [7])] }
  have hknown : (machine sampleAuth).ReachesIf (Fair sampleAuth) start known :=
    .single (e := .ready (readyMagic ++ sampleAuth.generation ++ [0, 1, 0, 53])) (o := none) trivial
      (by decide +kernel)
  have hfair : Fair sampleAuth known (.sealQuery 1 [7]) := ⟨by decide, by decide⟩
  have hasked := hknown.snoc (u := asked) (o := some frame) hfair rfl
  have hdone := hasked.snoc (u := done) (e := .query frame peer false) (o := none)
    (fair_sealed List.mem_cons_self peer false) (by decide +kernel)
  have hagain := hdone.snoc (u := done) (e := .query frame peer false) (o := none)
    (fair_sealed List.mem_cons_self peer false) (by decide +kernel)
  have hother := hagain.snoc (u := done) (e := .query frame ⟨"127.0.0.1", 9⟩ false) (o := none)
    (fair_sealed List.mem_cons_self _ false) (by decide +kernel)
  exact ⟨done, hother, rfl, (relay_integrity sampleAuth hother).1⟩

end Relay

end PokrovCore.Slipstream
