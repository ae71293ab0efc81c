import PokrovCore.Foundations.Buffers

/-!
# TelegramWs/Gateway — what the WebSocket layer reads after the upgrade

The upgrade reads its response through a buffered reader, which may hold bytes of the server behind
the response.  `connectGateway` makes a buffer for them, fills it from the reader, and puts it in
front of the socket.  It asks for as many bytes as the new buffer *has*, and a new buffer has none:
whatever the reader held is never read.
-/

namespace PokrovCore.TelegramWs

/-- What the calls of `connectGateway` answer. -/
structure GatewayAnswers where
  tlsErr : Bool
  dialErr : Bool
  deadlineErr : Bool
  upgradeErr : Bool
  binary : Bool
  ctxErr : Bool
  clearErr : Bool
  buffered : Bool
  bufferErr : Bool
  deriving DecidableEq, Repr

/-- **What the upgrade leaves of the server's bytes after its response**: some in the reader, if it
returns one, the rest in the socket. -/
structure Upgraded (after : List UInt8) where
  reader : Option (List UInt8)
  socket : List UInt8
  split : reader.getD [] ++ socket = after

/-- The bytes a reader holds are moved into a buffer, which the connection serves before the socket;
`ahead` is what a read beyond the reader's buffer would read ahead. -/
def handOver {after : List UInt8} (u : Upgraded after) (ahead : ℕ) : Option (CachedConn UInt8) :=
  match u.reader with
  | none => some ⟨[], u.socket⟩
  | some buffered =>
    if 0 < buffered.length then
      let buffer : Buffer UInt8 := .newSize buffered.length
      (buffer.readFullFrom ⟨buffered, u.socket⟩ buffer.len ahead).map fun r =>
        ⟨r.1.content, r.2.socket⟩
    else some ⟨[], u.socket⟩

/-- **`connectGateway`, with the connection it returns.** -/
def gatewayConn {after : List UInt8} (a : GatewayAnswers) (u : Upgraded after) (ahead : ℕ) :
    Option (CachedConn UInt8) :=
  if a.tlsErr then none
  else if a.dialErr then none
  else if a.deadlineErr then none
  else if a.upgradeErr then none
  else if !a.binary || a.ctxErr then none
  else if a.clearErr then none
  else handOver u ahead

section gateway

variable {after : List UInt8} {a : GatewayAnswers} {u : Upgraded after} {ahead : ℕ}
  {conn : CachedConn UInt8}

/-- **The hand-over never fails, and hands nothing over.** -/
theorem handOver_eq (u : Upgraded after) (ahead : ℕ) : handOver u ahead = some ⟨[], u.socket⟩ := by
  unfold handOver
  split
  · rfl
  · split
    · dsimp only
      rw [Buffer.len_newSize, Buffer.readFullFrom_zero]
      rfl
    · rfl

/-- Every connection that is returned reads the socket alone. -/
theorem gatewayConn_socket (h : gatewayConn a u ahead = some conn) : conn = ⟨[], u.socket⟩ := by
  obtain ⟨-, h⟩ := Option.ite_none_left_eq_some.mp h
  obtain ⟨-, h⟩ := Option.ite_none_left_eq_some.mp h
  obtain ⟨-, h⟩ := Option.ite_none_left_eq_some.mp h
  obtain ⟨-, h⟩ := Option.ite_none_left_eq_some.mp h
  obtain ⟨-, h⟩ := Option.ite_none_left_eq_some.mp h
  obtain ⟨-, h⟩ := Option.ite_none_left_eq_some.mp h
  rw [handOver_eq] at h
  exact (Option.some.inj h).symm

/-- **The WebSocket layer reads the server's bytes after the response exactly when the reader held
none of them.** -/
theorem gateway_delivers_iff (h : gatewayConn a u ahead = some conn) :
    conn.Delivers after ↔ u.reader.getD [] = [] := by
  rw [gatewayConn_socket h, CachedConn.delivers_iff, CachedConn.stream, List.nil_append]
  constructor
  · intro hsocket
    have hsocket : u.socket = after := hsocket
    have hlen := congrArg List.length u.split
    rw [List.length_append, hsocket] at hlen
    exact List.length_eq_zero_iff.mp (by omega)
  · intro hnone
    have hsplit := u.split
    rw [hnone] at hsplit
    exact hsplit

/-- A server that sends one byte with its response, which the reader holds, and one later. -/
def sampleUpgrade : Upgraded [1, 2] := ⟨some [1], [2], rfl⟩

/-- A server that sends nothing with its response. -/
def sampleQuiet : Upgraded [1, 2] := ⟨none, [1, 2], rfl⟩

def sampleAnswers : GatewayAnswers where
  tlsErr := false
  dialErr := false
  deadlineErr := false
  upgradeErr := false
  binary := true
  ctxErr := false
  clearErr := false
  buffered := true
  bufferErr := false

/-- Where the reader holds nothing, everything is read. -/
theorem gateway_delivers_quiet :
    ∃ conn, gatewayConn sampleAnswers sampleQuiet 0 = some conn ∧ conn.Delivers [1, 2] := by
  have hconn : gatewayConn sampleAnswers sampleQuiet 0 = some ⟨[], [1, 2]⟩ := rfl
  exact ⟨⟨[], [1, 2]⟩, hconn, (gateway_delivers_iff hconn).mpr rfl⟩

/-- **A byte that came with the response is lost**: two reads of the connection give the byte
behind it, and then nothing. -/
theorem gateway_loses_buffered :
    ∃ conn, gatewayConn sampleAnswers sampleUpgrade 0 = some conn ∧
      (conn.reads [(8, 8), (8, 8)]).1 = [2] ∧ ¬conn.Delivers [1, 2] := by
  refine ⟨⟨[], [2]⟩, rfl, rfl, fun h => ?_⟩
  have hstream := CachedConn.delivers_iff.mp h
  cases hstream

end gateway

end PokrovCore.TelegramWs
